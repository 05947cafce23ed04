import Mathlib.Algebra.Order.Floor.Semiring
import Mathlib.Algebra.Order.Round
import Mathlib.Data.Rat.Floor
import Mathlib.Tactic.Linarith
import Quickchr.MachineState

/-!
# Graceful shutdown

The guest is asked to shut down, and its process is watched meanwhile; the answer to the request
says nothing about the process. When the grace period is over and the process is still there it is
killed, and is watched again. What comes in from outside is read as it is asked for: what each look
at the process sees, the time that passes before each reading of the clock, how the request settles
and how the kill does. So every order of these is a run.
-/
namespace Quickchr.Shutdown

def invalidTimeout : QuickCHRError :=
  { code := .INVALID_ARGUMENT
    message := "shutdown timeoutMs must be a positive integer no greater than 2147483647 milliseconds" }

def isSafeInteger (n : ℚ) : Bool := n.den = 1 ∧ |n| ≤ 9007199254740991

def validateShutdownTimeout (timeoutMs : ℚ) : Except QuickCHRError ℚ :=
  if isSafeInteger timeoutMs = false ∨ timeoutMs ≤ 0 ∨ timeoutMs > 2147483647 then .error invalidTimeout
  else .ok timeoutMs

/-- The process, the clock, the request and the killer. -/
structure World where
  /-- What the `n`-th look at the process sees. -/
  isRunning : ℕ → Bool
  gone : ∀ n, isRunning n = false → isRunning (n + 1) = false
  /-- The time that passes, the sleeps aside, before the `n`-th reading of the clock. -/
  lapse : ℕ → ℚ
  lapse_nonneg : ∀ n, 0 ≤ lapse n
  /-- The message with which the request is rejected, unless it is resolved. -/
  requestError : Option String
  forceStopRejects : Bool

inductive Action
  | looked (running : Bool)
  | read (time : ℚ)
  | request (timeoutMs : ℤ)
  | slept (ms : ℚ)
  /-- The request has settled, and the function goes on. -/
  | settled
  | forceStop
  deriving DecidableEq

structure Run where
  time : ℚ
  looks : ℕ
  readings : ℕ
  requested : Bool
  log : List Action

def Run.record (s : Run) (a : Action) : Run := { s with log := s.log ++ [a] }

def Run.sleep (s : Run) (ms : ℚ) : Run := { s.record (.slept ms) with time := s.time + ms }

section

variable (w : World)

/-- `isRunning()`; it sees `w.isRunning s.looks`. -/
def World.look (s : Run) : Run :=
  { s.record (.looked (w.isRunning s.looks)) with looks := s.looks + 1 }

/-- `performance.now()`; it gives the time afterwards. -/
def World.now (s : Run) : Run :=
  let time := s.time + w.lapse s.readings
  { s.record (.read time) with time := time, readings := s.readings + 1 }

/-- The request is made as soon as the function waits for something. -/
def World.issue (deadline : ℚ) (s : Run) : Run :=
  if s.requested then s
  else
    let s := w.now s
    { s.record (.request (max 1 ⌈deadline - s.time⌉)) with requested := true }

/-- What a loop does between two looks; it lasts a millisecond at least. -/
structure Pause where
  run : Run → Run
  lasts : ∀ s, s.time + 1 ≤ (run s).time

theorem World.now_time (s : Run) : s.time ≤ (w.now s).time := by
  have nonneg := w.lapse_nonneg s.readings
  change s.time ≤ s.time + w.lapse s.readings
  linarith

theorem World.issue_time (deadline : ℚ) (s : Run) : s.time ≤ (w.issue deadline s).time := by
  unfold issue
  split
  · exact le_rfl
  · exact w.now_time s

/-- `while (isRunning() && performance.now() < deadline)`. -/
def waitGone (deadline : ℚ) (pause : Pause) (s : Run) : Run :=
  if w.isRunning s.looks then
    let seen := w.now (w.look s)
    if seen.time < deadline then waitGone deadline pause (pause.run seen) else seen
  else w.look s
termination_by ⌈deadline - s.time⌉.toNat
decreasing_by
  rename_i early
  have later : s.time ≤ (w.now (w.look s)).time := w.now_time (w.look s)
  have lasts := pause.lasts (w.now (w.look s))
  have less : ⌈deadline - (pause.run (w.now (w.look s))).time⌉ ≤ ⌈deadline - s.time⌉ - 1 := by
    rw [← Int.ceil_sub_one]
    exact Int.ceil_le_ceil (by linarith)
  have positive : 0 < ⌈deadline - s.time⌉ := Int.ceil_pos.mpr (by linarith)
  omega

def gracePause (deadline : ℚ) : Pause where
  run s :=
    let s := w.now s
    (w.issue deadline s).sleep (min 100 (max 1 (deadline - s.time)))
  lasts s := by
    have now := w.now_time s
    have issue := w.issue_time deadline (w.now s)
    have least : 1 ≤ min (100 : ℚ) (max 1 (deadline - (w.now s).time)) :=
      le_min (by norm_num) (le_max_left _ _)
    change s.time + 1 ≤ (w.issue deadline (w.now s)).time + _
    linarith

def killPause : Pause where
  run s := s.sleep 50
  lasts s := by
    change s.time + 1 ≤ s.time + 50
    linarith

end

inductive Outcome
  | guestExited | forced
  deriving DecidableEq

structure ShutdownResult where
  outcome : Outcome
  requestError : Option String
  deriving DecidableEq

def notTerminated : QuickCHRError :=
  { code := .STATE_ERROR, message := "shutdown could not terminate QEMU; machine remains running" }

def notConfirmed : QuickCHRError :=
  { code := .STATE_ERROR, message := "shutdown could not confirm QEMU exit; machine remains running" }

abbrev Ending := Except QuickCHRError ShutdownResult × List Action

section

variable (w : World)

/-- The wait for a process that has been killed. -/
def confirmed (s : Run) : Ending :=
  let s := w.now s
  let s := waitGone w (s.time + 1000) killPause s
  if w.isRunning s.looks then (.error notConfirmed, (w.look s).log)
  else (.ok ⟨.forced, w.requestError⟩, (w.look s).log)

def forced (s : Run) : Ending :=
  let s := s.record .forceStop
  if w.forceStopRejects then
    if w.isRunning s.looks then (.error notTerminated, (w.look s).log) else confirmed w (w.look s)
  else confirmed w s

def shutdownGuest (timeoutMs : ℚ) : Ending :=
  let s := w.now ⟨0, 0, 0, false, []⟩
  let deadline := s.time + timeoutMs
  let s := waitGone w deadline (gracePause w deadline) s
  let guestExited := !w.isRunning s.looks
  let s := (w.issue deadline (w.look s)).record .settled
  if guestExited then (.ok ⟨.guestExited, w.requestError⟩, s.log)
  else if !w.isRunning s.looks then (.ok ⟨.guestExited, w.requestError⟩, (w.look s).log)
  else forced w (w.look s)

end

/-- The log is of a conversation with this world: the `n`-th look has the `n`-th answer, a reading
gives the time that sleeps and lapses have come to, and a request has the budget left at the reading
before it. The indices are the time, the looks and the readings so far. -/
inductive Told (w : World) (deadline : ℚ) : ℚ → ℕ → ℕ → List Action → Prop
  | nil : Told w deadline 0 0 0 []
  | looked {time n r log} : Told w deadline time n r log →
      Told w deadline time (n + 1) r (log ++ [.looked (w.isRunning n)])
  | read {time n r log} : Told w deadline time n r log →
      Told w deadline (time + w.lapse r) n (r + 1) (log ++ [.read (time + w.lapse r)])
  | slept {time n r log} ms : Told w deadline time n r log →
      Told w deadline (time + ms) n r (log ++ [.slept ms])
  | request {time n r log} : Told w deadline time n r (log ++ [.read time]) →
      Told w deadline time n r (log ++ [.read time] ++ [.request (max 1 ⌈deadline - time⌉)])
  | settled {time n r log} : Told w deadline time n r log →
      Told w deadline time n r (log ++ [.settled])
  | forceStop {time n r log} : Told w deadline time n r log →
      Told w deadline time n r (log ++ [.forceStop])

def Run.Told (w : World) (deadline : ℚ) (s : Run) : Prop :=
  Shutdown.Told w deadline s.time s.looks s.readings s.log

def Action.isRequest : Action → Bool
  | .request _ => true
  | _ => false

def Action.sight : Action → Option Bool
  | .looked running => some running
  | _ => none

def lastLook (log : List Action) : Option Bool := (log.filterMap Action.sight).getLast?

@[simp] theorem lastLook_looked (log : List Action) (running : Bool) :
    lastLook (log ++ [.looked running]) = some running := by
  simp [lastLook, Action.sight]

theorem lastLook_other {log : List Action} {a : Action} (h : a.sight = none) :
    lastLook (log ++ [a]) = lastLook log := by
  simp [lastLook, h]

section

variable {w : World} {deadline : ℚ} {pause : Pause} {s : Run}

theorem waitGone_keeps {P : Run → Prop} (looked : ∀ s, P s → P (w.look s))
    (read : ∀ s, P s → P (w.now s)) (paused : ∀ s, P s → P (pause.run s)) (h : P s) :
    P (waitGone w deadline pause s) := by
  induction s using waitGone.induct w deadline pause with
  | case1 s running seen early ih =>
      rw [waitGone, if_pos running, if_pos early]
      exact ih (paused _ (read _ (looked _ h)))
  | case2 s running seen late =>
      rw [waitGone, if_pos running, if_neg late]
      exact read _ (looked _ h)
  | case3 s stopped =>
      rw [waitGone, if_neg stopped]
      exact looked _ h

/-- The loop ends because the process is gone, or because the deadline has passed. -/
theorem waitGone_ends : w.isRunning (waitGone w deadline pause s).looks = false ∨
    ∃ time, deadline ≤ time ∧ .read time ∈ (waitGone w deadline pause s).log := by
  induction s using waitGone.induct w deadline pause with
  | case1 s running seen early ih =>
      rw [waitGone, if_pos running, if_pos early]
      exact ih
  | case2 s running seen late =>
      rw [waitGone, if_pos running, if_neg late]
      exact .inr ⟨seen.time, not_lt.mp late, List.mem_append_right _ List.mem_cons_self⟩
  | case3 s stopped =>
      rw [waitGone, if_neg stopped]
      exact .inl (w.gone _ (Bool.eq_false_iff.mpr stopped))

theorem Run.Told.issue (h : s.Told w deadline) : (w.issue deadline s).Told w deadline := by
  unfold World.issue
  split
  · exact h
  · exact Told.request (Told.read h)

theorem Run.Told.waited (paused : ∀ s, s.Told w deadline → (pause.run s).Told w deadline) {till : ℚ}
    (h : s.Told w deadline) : (waitGone w till pause s).Told w deadline :=
  waitGone_keeps (fun _ => Told.looked) (fun _ => Told.read) paused h

theorem Run.Told.gracePause (h : s.Told w deadline) :
    ((gracePause w deadline).run s).Told w deadline :=
  Told.slept _ (Run.Told.issue (Told.read h))

theorem Run.Told.killPause (h : s.Told w deadline) : (killPause.run s).Told w deadline :=
  Told.slept 50 h

end

/-- The request is made once, with a budget inside that of the whole, and nothing is killed. -/
structure Before (start timeoutMs : ℚ) (s : Run) : Prop where
  started : s.log.head? = some (.read start)
  later : start ≤ s.time
  once : s.log.countP Action.isRequest = if s.requested then 1 else 0
  budget : ∀ ms : ℤ, .request ms ∈ s.log → 1 ≤ ms ∧ ms ≤ timeoutMs
  calm : .forceStop ∉ s.log

section

variable {w : World} {start timeoutMs : ℚ} {s : Run}

theorem Before.record {a : Action} (h : Before start timeoutMs s) (quiet : a.isRequest = false)
    (spared : a ≠ .forceStop) : Before start timeoutMs (s.record a) := by
  refine ⟨?_, h.later, ?_, fun ms member => ?_, fun member => ?_⟩
  · rw [Run.record, List.head?_append, h.started, Option.some_or]
  · rw [Run.record, List.countP_append, h.once, List.countP_singleton, quiet]
    simp only [Bool.false_eq_true, if_false, Nat.add_zero]
  · rcases List.mem_append.mp member with old | new
    · exact h.budget ms old
    · rw [List.mem_singleton] at new
      subst new
      cases quiet
  · rcases List.mem_append.mp member with old | new
    · exact h.calm old
    · rw [List.mem_singleton] at new
      exact spared new.symm

theorem Before.look (h : Before start timeoutMs s) : Before start timeoutMs (w.look s) :=
  let recorded := h.record (a := .looked (w.isRunning s.looks)) rfl (by intro is; cases is)
  ⟨recorded.started, recorded.later, recorded.once, recorded.budget, recorded.calm⟩

theorem Before.now (h : Before start timeoutMs s) : Before start timeoutMs (w.now s) :=
  let recorded := h.record (a := .read (w.now s).time) rfl (by intro is; cases is)
  ⟨recorded.started, h.later.trans (w.now_time s), recorded.once, recorded.budget, recorded.calm⟩

theorem Before.sleep {ms : ℚ} (h : Before start timeoutMs s) (nonneg : 0 ≤ ms) :
    Before start timeoutMs (s.sleep ms) :=
  let recorded := h.record (a := .slept ms) rfl (by intro is; cases is)
  ⟨recorded.started, h.later.trans (le_add_of_nonneg_right nonneg), recorded.once, recorded.budget,
    recorded.calm⟩

theorem Before.issue (h : Before start timeoutMs s) {whole : ℤ} (is : (whole : ℚ) = timeoutMs)
    (positive : 1 ≤ whole) : Before start timeoutMs (w.issue (start + timeoutMs) s) := by
  unfold World.issue
  split
  · exact h
  · rename_i fresh
    have now := h.now (w := w)
    have requested : (w.now s).requested = false := Bool.eq_false_iff.mpr fresh
    refine ⟨?_, now.later, ?_, fun ms member => ?_, fun member => ?_⟩
    · change ((w.now s).log ++ _).head? = _
      rw [List.head?_append, now.started, Option.some_or]
    · change ((w.now s).log ++ [_]).countP _ = _
      rw [List.countP_append, now.once, requested]
      rfl
    · rcases List.mem_append.mp member with old | new
      · exact now.budget ms old
      · rw [List.mem_singleton] at new
        cases new
        have left : ⌈start + timeoutMs - (w.now s).time⌉ ≤ whole := by
          have later := now.later
          exact Int.ceil_le.mpr (by linarith)
        refine ⟨le_max_left _ _, ?_⟩
        calc ((max 1 ⌈start + timeoutMs - (w.now s).time⌉ : ℤ) : ℚ) ≤ whole :=
              Int.cast_le.mpr (max_le positive left)
          _ = timeoutMs := is
    · rcases List.mem_append.mp member with old | new
      · exact now.calm old
      · rw [List.mem_singleton] at new
        cases new

theorem Before.waited (h : Before start timeoutMs s) {whole : ℤ} (is : (whole : ℚ) = timeoutMs)
    (positive : 1 ≤ whole) : Before start timeoutMs
      (waitGone w (start + timeoutMs) (gracePause w (start + timeoutMs)) s) := by
  refine waitGone_keeps (fun _ => Before.look) (fun _ => Before.now) (fun s h => ?_) h
  refine (h.now.issue is positive).sleep ?_
  exact le_min (by norm_num) (le_trans zero_le_one (le_max_left _ _))

theorem issue_requested {deadline : ℚ} : (w.issue deadline s).requested = true := by
  unfold World.issue
  split
  · assumption
  · rfl

theorem lastLook_issue {deadline : ℚ} : lastLook (w.issue deadline s).log = lastLook s.log := by
  unfold World.issue
  split
  · rfl
  · change lastLook ((s.log ++ [_]) ++ [_]) = _
    rw [lastLook_other rfl, lastLook_other rfl]

theorem mem_issue {deadline : ℚ} {a : Action} (h : a ∈ s.log) : a ∈ (w.issue deadline s).log := by
  unfold World.issue
  split
  · exact h
  · exact List.mem_append_left _ (List.mem_append_left _ h)

structure After (before : List Action) (s : Run) : Prop where
  log : ∃ after, s.log = before ++ .forceStop :: after ∧ .forceStop ∉ after ∧
    after.countP Action.isRequest = 0

theorem After.record {before : List Action} {a : Action} (h : After before s)
    (quiet : a.isRequest = false) (spared : a ≠ .forceStop) : After before (s.record a) := by
  obtain ⟨after, is, calm, none_⟩ := h.log
  refine ⟨after ++ [a], ?_, ?_, ?_⟩
  · rw [Run.record, is, List.append_assoc, List.cons_append]
  · rw [List.mem_append, List.mem_singleton, not_or]
    exact ⟨calm, Ne.symm spared⟩
  · rw [List.countP_append, none_, List.countP_singleton, quiet]
    rfl

theorem After.look {before : List Action} (h : After before s) : After before (w.look s) :=
  ⟨(h.record (a := .looked (w.isRunning s.looks)) rfl (by intro is; cases is)).log⟩

theorem After.sleep {before : List Action} (h : After before s) (ms : ℚ) : After before (s.sleep ms) :=
  ⟨(h.record (a := .slept ms) rfl (by intro is; cases is)).log⟩

theorem After.now {before : List Action} (h : After before s) : After before (w.now s) :=
  ⟨(h.record (a := .read (w.now s).time) rfl (by intro is; cases is)).log⟩

end

/-- What a caller can rely on, read off the log of one call. -/
structure Observed (w : World) (start timeoutMs : ℚ) (ending : Ending) : Prop where
  told : ∃ time looks readings, Told w (start + timeoutMs) time looks readings ending.2
  started : ending.2.head? = some (.read start)
  /-- The request is made exactly once, and the kill at most once. -/
  asked : ending.2.countP Action.isRequest = 1
  killed : ending.2.count .forceStop ≤ 1
  budget : ∀ ms : ℤ, .request ms ∈ ending.2 → 1 ≤ ms ∧ ms ≤ timeoutMs
  /-- At the kill the grace period was over, the request had settled and the guest was running. -/
  late : ∀ before after, ending.2 = before ++ .forceStop :: after →
    lastLook before = some true ∧ .settled ∈ before ∧
      ∃ time, start + timeoutMs ≤ time ∧ .read time ∈ before
  returned : ∀ result, ending.1 = .ok result →
    lastLook ending.2 = some false ∧ result.requestError = w.requestError ∧
    (result.outcome = .guestExited → .forceStop ∉ ending.2) ∧
    (result.outcome = .forced → .forceStop ∈ ending.2)
  thrown : ∀ error, ending.1 = .error error →
    error.code = .STATE_ERROR ∧ lastLook ending.2 = some true

section

variable {w : World} {start timeoutMs : ℚ} {s : Run}

theorem Before.exited (h : Before start timeoutMs s) (told : s.Told w (start + timeoutMs))
    (requested : s.requested = true) (last : lastLook s.log = some false) :
    Observed w start timeoutMs (.ok ⟨.guestExited, w.requestError⟩, s.log) := by
  have once := h.once
  rw [requested, if_pos rfl] at once
  refine ⟨⟨_, _, _, told⟩, h.started, once, ?_, h.budget, fun before after is => ?_,
    fun result is => ?_, fun _ is => by cases is⟩
  · rw [List.count_eq_zero.mpr h.calm]
    exact Nat.zero_le 1
  · dsimp only at is
    refine absurd ?_ h.calm
    rw [is]
    exact List.mem_append_right _ List.mem_cons_self
  · cases is
    exact ⟨last, rfl, fun _ => h.calm, fun is => by cases is⟩

/-- The state in which the guest is killed. -/
structure Doomed (start timeoutMs : ℚ) (s : Run) : Prop extends Before start timeoutMs s where
  requested : s.requested = true
  running : lastLook s.log = some true
  settled : .settled ∈ s.log
  elapsed : ∃ time, start + timeoutMs ≤ time ∧ .read time ∈ s.log

theorem Doomed.killed {t : Run} (h : Doomed start timeoutMs s) (after : After s.log t)
    (told : t.Told w (start + timeoutMs)) {result : Except QuickCHRError ShutdownResult}
    (returned : ∀ r, result = .ok r → r = ⟨.forced, w.requestError⟩ ∧ lastLook t.log = some false)
    (thrown : ∀ error, result = .error error →
      error.code = .STATE_ERROR ∧ lastLook t.log = some true) :
    Observed w start timeoutMs (result, t.log) := by
  obtain ⟨rest, log, calm, quiet⟩ := after.log
  have once := h.once
  rw [h.requested, if_pos rfl] at once
  have asked : t.log.countP Action.isRequest = 1 := by
    rw [log, List.countP_append, once, List.countP_cons_of_neg (by decide), quiet]
  have member : .forceStop ∈ t.log := by
    rw [log]
    exact List.mem_append_right _ List.mem_cons_self
  have started : t.log.head? = some (.read start) := by
    rw [log, List.head?_append, h.started, Option.some_or]
  refine ⟨⟨_, _, _, told⟩, started, asked, ?_, fun ms asked => ?_, fun before after is => ?_,
    fun r is => ?_, thrown⟩
  · change t.log.count .forceStop ≤ 1
    rw [log, List.count_append, List.count_eq_zero.mpr h.calm, List.count_cons_self,
      List.count_eq_zero.mpr calm]
  · change Action.request ms ∈ t.log at asked
    rw [log] at asked
    rcases List.mem_append.mp asked with early | late
    · exact h.budget ms early
    · rcases List.mem_cons.mp late with is | late
      · cases is
      · exact absurd rfl (List.countP_eq_zero.mp quiet _ late)
  · change t.log = _ at is
    rw [log] at is
    -- There is one kill, so this is where the log is cut.
    obtain ⟨cut, -, -⟩ := (List.append_cons_inj_of_notMem h.calm calm).mp is
    rw [← cut]
    exact ⟨h.running, h.settled, h.elapsed⟩
  · obtain ⟨rfl, last⟩ := returned r is
    exact ⟨last, rfl, nofun, fun _ => member⟩

theorem Doomed.confirmed {t : Run} (h : Doomed start timeoutMs s) (after : After s.log t)
    (told : t.Told w (start + timeoutMs)) : Observed w start timeoutMs (confirmed w t) := by
  have waited : After s.log (waitGone w ((w.now t).time + 1000) killPause (w.now t)) :=
    waitGone_keeps (fun _ => After.look) (fun _ => After.now) (fun _ h => h.sleep 50) after.now
  have watched : (waitGone w ((w.now t).time + 1000) killPause (w.now t)).Told w (start + timeoutMs) :=
    Run.Told.waited (fun _ => Run.Told.killPause) (Told.read told)
  unfold Shutdown.confirmed
  dsimp only
  split
  · rename_i running
    refine h.killed waited.look (Told.looked watched) ?_ ?_
    · rintro _ ⟨⟩
    · rintro _ ⟨⟩
      refine ⟨rfl, ?_⟩
      change lastLook (_ ++ [.looked _]) = _
      rw [lastLook_looked, running]
  · rename_i gone
    refine h.killed waited.look (Told.looked watched) ?_ ?_
    · rintro _ ⟨⟩
      refine ⟨rfl, ?_⟩
      change lastLook (_ ++ [.looked _]) = _
      rw [lastLook_looked, Bool.eq_false_iff.mpr gone]
    · rintro _ ⟨⟩

theorem Doomed.forced (h : Doomed start timeoutMs s) (told : s.Told w (start + timeoutMs)) :
    Observed w start timeoutMs (forced w s) := by
  have stopped : After s.log (s.record .forceStop) := ⟨[], rfl, List.not_mem_nil, rfl⟩
  have stop : (s.record .forceStop).Told w (start + timeoutMs) := Told.forceStop told
  unfold Shutdown.forced
  dsimp only
  split
  · split
    · rename_i stuck
      refine h.killed stopped.look (Told.looked stop) ?_ ?_
      · rintro _ ⟨⟩
      · rintro _ ⟨⟩
        refine ⟨rfl, ?_⟩
        change lastLook (_ ++ [.looked _]) = _
        rw [lastLook_looked, stuck]
    · exact h.confirmed stopped.look (Told.looked stop)
  · exact h.confirmed stopped stop

theorem Before.doomed {deadline : ℚ} (h : Before start timeoutMs s) (is : deadline = start + timeoutMs)
    (elapsed : ∃ time, deadline ≤ time ∧ .read time ∈ s.log) (requested : s.requested = true)
    (settled : .settled ∈ s.log) (running : w.isRunning s.looks = true) :
    Doomed start timeoutMs (w.look s) := by
  refine ⟨h.look, requested, ?_, List.mem_append_left _ settled, ?_⟩
  · change lastLook (_ ++ [.looked _]) = _
    rw [lastLook_looked, running]
  · obtain ⟨time, late, read⟩ := elapsed
    exact ⟨time, is ▸ late, List.mem_append_left _ read⟩

end

/-- A graceful shutdown, whatever the process, the clock, the request and the killer do: it always
ends, and its log is of what they have answered; the request is made exactly once; the kill comes at most once, after the grace period and the
request, when the last look has seen the guest running; a result is returned only if the last look
saw it gone, as that of a guest that has exited only without a kill and as forced only with one; and
otherwise `STATE_ERROR` is thrown. -/
theorem shutdownGuest_observed (w : World) {timeoutMs t : ℚ}
    (accepted : validateShutdownTimeout timeoutMs = .ok t) :
    ∃ start, Observed w start t (shutdownGuest w t) := by
  obtain ⟨whole, is, positive⟩ : ∃ whole : ℤ, (whole : ℚ) = t ∧ 1 ≤ whole := by
    unfold validateShutdownTimeout at accepted
    split at accepted
    · cases accepted
    · rename_i valid
      cases accepted
      rw [not_or, not_or, Bool.not_eq_false, isSafeInteger, decide_eq_true_eq, not_le] at valid
      have integral : ((timeoutMs.num : ℤ) : ℚ) = timeoutMs := Rat.coe_int_num_of_den_eq_one valid.1.1
      refine ⟨timeoutMs.num, integral, ?_⟩
      have := Rat.num_pos.mpr valid.2.1
      omega
  set first := w.now ⟨0, 0, 0, false, []⟩
  have begun : Before first.time t first := by
    refine ⟨rfl, le_rfl, rfl, fun ms member => ?_, fun member => ?_⟩
    · cases List.mem_singleton.mp member
    · cases List.mem_singleton.mp member
  set s := waitGone w (first.time + t) (gracePause w (first.time + t)) first
  have waited : Before first.time t s := begun.waited is positive
  have watched : s.Told w (first.time + t) :=
    Run.Told.waited (fun _ => Run.Told.gracePause) (Told.read Told.nil)
  set s' := (w.issue (first.time + t) (w.look s)).record .settled
  have settled : Before first.time t s' :=
    (waited.look.issue is positive).record rfl (by intro is; cases is)
  have told : s'.Told w (first.time + t) := Told.settled (Run.Told.issue (Told.looked watched))
  have requested : s'.requested = true := issue_requested
  have last : lastLook s'.log = some (w.isRunning s.looks) := by
    change lastLook ((w.issue (first.time + t) (w.look s)).log ++ [Action.settled]) = _
    rw [lastLook_other rfl, lastLook_issue]
    change lastLook (_ ++ [.looked _]) = _
    rw [lastLook_looked]
  have ending : Observed w first.time t (shutdownGuest w t) := by
    change Observed w first.time t (if !w.isRunning s.looks then (.ok ⟨.guestExited, w.requestError⟩, s'.log)
      else if !w.isRunning s'.looks then (.ok ⟨.guestExited, w.requestError⟩, (w.look s').log)
      else forced w (w.look s'))
    cases running : w.isRunning s.looks with
    | false => exact settled.exited told requested (last.trans (congrArg some running))
    | true =>
        have elapsed : ∃ time, first.time + t ≤ time ∧ .read time ∈ s'.log := by
          rcases @waitGone_ends w (first.time + t) _ _ with gone | ⟨time, late, read⟩
          · cases running.symm.trans gone
          · exact ⟨time, late, List.mem_append_left _ (mem_issue (List.mem_append_left _ read))⟩
        cases running' : w.isRunning s'.looks with
        | false =>
            refine settled.look.exited (Told.looked told) requested ?_
            change lastLook (_ ++ [.looked _]) = _
            rw [lastLook_looked, running']
        | true =>
            refine (settled.doomed rfl elapsed requested ?_ running').forced (Told.looked told)
            exact List.mem_append_right _ List.mem_cons_self
  exact ⟨first.time, ending⟩

/-- A guest that halts, and answers the request with an error. -/
def interrupted : World where
  isRunning _ := false
  gone _ _ := rfl
  lapse _ := 0
  lapse_nonneg _ := le_rfl
  requestError := some "HTTP 400 interrupted"
  forceStopRejects := false

/-- The error of the answer is passed on, and the guest is not killed. -/
theorem shutdownGuest_observed_interrupted :
    (∃ start, Observed interrupted start 10000 (shutdownGuest interrupted 10000)) ∧
      (shutdownGuest interrupted 10000).1 = .ok ⟨.guestExited, some "HTTP 400 interrupted"⟩ := by
  have accepted : validateShutdownTimeout 10000 = .ok 10000 := by decide +kernel
  exact ⟨shutdownGuest_observed interrupted accepted, rfl⟩

end Quickchr.Shutdown
