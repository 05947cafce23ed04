import Quickchr.ApiLogin
import Quickchr.Lib.JsonText
import Quickchr.Lib.Record
import Quickchr.Lib.Streak
import Quickchr.RestDelivery

/-!
# Waiting for a boot

A guest is ready when two probes in a row were answered by a settled service. Every probe is also
classified and counted, so that a wait that fails can say what it saw. Texts are UTF-16 code units, for a
detail may be cut anywhere.
-/
namespace Quickchr.BootWait

/-- What a probe throws: the code of the system, if there is one, and the message. -/
structure Caught where
  code : Option String
  message : String

inductive BootProbeOutcome
  | refused | reset | probeTimeout | unauthorized | wrongBody | httpError | ready | other
  deriving DecidableEq

def BootProbeOutcome.text : BootProbeOutcome → String
  | .refused => "refused"
  | .reset => "reset"
  | .probeTimeout => "probe-timeout"
  | .unauthorized => "unauthorized"
  | .wrongBody => "wrong-body"
  | .httpError => "http-error"
  | .ready => "ready"
  | .other => "other"

abbrev Look := BootProbeOutcome × Option (List UInt16)

def units (s : String) : List UInt16 := Text.utf16 s.toList

def includes (s pattern : String) : Bool := (Text.indexOf pattern.toList s.toList).isSome

def classifyProbeError (e : Caught) : Look :=
  if e.code = some "ECONNREFUSED" then (.refused, e.code.map units)
  else if e.code = some "ECONNRESET" ∨ e.code = some "EPIPE" then (.reset, e.code.map units)
  else if e.code = some "ETIMEDOUT" ∨ includes e.message "restGet timeout" ∨
      includes e.message "apiLogin timeout" then
    (.probeTimeout, some (units (e.code.getD "probe deadline")))
  else if e.message = "closed before reply" then (.reset, some (units e.message))
  else
    match e.code.filter (· ≠ "") with
    | some code => (.other, some (units (code ++ ": " ++ e.message)))
    | none => (.other, some (units e.message))

/-- The answer is the object of `/system/resource`. -/
def isResourceBody (body : String) : Bool :=
  match JsonText.parse body.toList with
  | some (.obj members) => members.any fun member => member.1 = units "board-name"
  | _ => false

def restLook : Except Caught RestResponse → Look
  | .error e => classifyProbeError e
  | .ok answer =>
      if answer.status = 401 ∨ answer.status = 403 then (.unauthorized, some (units (toString answer.status)))
      else if 200 ≤ answer.status ∧ answer.status < 300 then
        if isResourceBody answer.body then (.ready, none)
        else (.wrongBody, some ((units answer.body).take 80))
      else (.httpError, some (units (toString answer.status)))

def apiLook : Except Caught ApiLogin.ApiLoginResult → Look
  | .error e => classifyProbeError e
  | .ok .done => (.ready, none)
  | .ok (.trap message) => (.unauthorized, some (units message))
  | .ok (.fatal message) => (.other, some (units ("!fatal " ++ message)))

/-- An answer that counts towards readiness: refused credentials do. -/
def BootProbeOutcome.settled (outcome : BootProbeOutcome) : Bool := outcome = .unauthorized ∨ outcome = .ready

structure ProbeEntry where
  atMs : ℕ
  outcome : BootProbeOutcome
  detail : Option (List UInt16)

inductive ReadinessProbe
  | rest | api
  deriving DecidableEq

structure BootProbeStats where
  kind : Option ReadinessProbe := none
  attempts : ℕ := 0
  counts : Record ℕ := []
  firstHttpAtMs : Option ℕ := none
  first : Option ProbeEntry := none
  last : Option ProbeEntry := none

def newBootProbeStats : BootProbeStats := {}

def BootProbeOutcome.sawHttp (outcome : BootProbeOutcome) : Bool :=
  outcome = .unauthorized ∨ outcome = .wrongBody ∨ outcome = .httpError ∨ outcome = .ready

def entry (elapsedMs : ℕ) (look : Look) : ProbeEntry := ⟨elapsedMs, look.1, look.2.filter (· ≠ [])⟩

def recordBootProbe (stats : BootProbeStats) (elapsedMs : ℕ) (look : Look) : BootProbeStats where
  kind := stats.kind
  attempts := stats.attempts + 1
  counts := stats.counts.set look.1.text ((stats.counts.get look.1.text).getD 0 + 1)
  firstHttpAtMs := stats.firstHttpAtMs.or (if look.1.sawHttp then some elapsedMs else none)
  first := stats.first.or (some (entry elapsedMs look))
  last := some (entry elapsedMs look)

/-- The clock as a loop reads it: before a probe and after it, with a sleep behind. -/
structure Times (restMs : ℕ) where
  start : ℕ
  now : ℕ → ℕ
  told : ℕ → ℕ
  begun : start ≤ now 0
  later : ∀ i, now i ≤ told i
  rests : ∀ i, told i + restMs ≤ now (i + 1)

def Times.clock {restMs : ℕ} [NeZero restMs] (times : Times restMs) : Polling.Clock where
  now := times.now
  advances i := by
    have := times.later i
    have := times.rests i
    have := Nat.pos_of_neZero restMs
    omega

section Loop

variable (times : Times 2000) (timeoutMs : ℕ) (look : ℕ → Look)

def probeLoop (i consecutiveReady : ℕ) (stats : BootProbeStats) : Bool × BootProbeStats :=
  if times.now i < times.start + timeoutMs then
    let consecutiveReady := if (look i).1.settled then consecutiveReady + 1 else 0
    let stats := recordBootProbe stats (times.told i - times.start) (look i)
    if 2 ≤ consecutiveReady then (true, stats) else probeLoop (i + 1) consecutiveReady stats
  else (false, stats)
termination_by times.start + timeoutMs - times.now i
decreasing_by
  have := times.clock.advances i
  change times.now i < times.now (i + 1) at this
  omega

end Loop

/-- `waitForBoot`, with statistics: what it returns and what it has recorded. -/
def waitForBoot (times : Times 2000) (timeoutMs : ℕ) (answers : ℕ → Except Caught RestResponse)
    (stats : BootProbeStats) : Bool × BootProbeStats :=
  probeLoop times timeoutMs (fun i => restLook (answers i)) 0 0 stats

def waitForApiReady (times : Times 2000) (timeoutMs : ℕ) (answers : ℕ → Except Caught ApiLogin.ApiLoginResult)
    (stats : BootProbeStats) : Bool × BootProbeStats :=
  probeLoop times timeoutMs (fun i => apiLook (answers i)) 0 0 { stats with kind := some .api }

section

variable (times : Times 2000) (timeoutMs : ℕ) (look : ℕ → Look)

/-- What is kept of probe `i`. -/
def probed (i : ℕ) : ProbeEntry := entry (times.told i - times.start) (look i)

/-- The statistics are those of the first `k` probes. -/
structure Tally (kind : Option ReadinessProbe) (k : ℕ) (stats : BootProbeStats) : Prop where
  kind : stats.kind = kind
  attempts : stats.attempts = k
  counts : ∀ outcome : BootProbeOutcome,
    (stats.counts.get outcome.text).getD 0 = (List.range k).countP fun i => (look i).1 = outcome
  http : stats.firstHttpAtMs =
    ((List.range k).find? fun i => (look i).1.sawHttp).map fun i => times.told i - times.start
  first : stats.first = (List.range k).head?.map (probed times look)
  last : stats.last = (List.range k).getLast?.map (probed times look)

def settledAt (i : ℕ) : Bool := (look i).1.settled

/-- Two settled probes in a row, the last of them number `n`. -/
abbrev Ready (n : ℕ) : Prop := Streak.Ends 2 (settledAt look) n

/-- A wait makes the probes that can be begun in time until two in a row were settled. It succeeds just
when one of them makes two, and records them all. -/
structure Waits (kind : Option ReadinessProbe) (r : Bool × BootProbeStats) : Prop where
  ready : r.1 = true ↔ ∃ n, Ready look n ∧ times.now n < times.start + timeoutMs
  made : ∃ k, Tally times look kind k r.2 ∧
    ∀ i, i < k ↔ times.now i < times.start + timeoutMs ∧ ∀ m, m < i → ¬ Ready look m

end

variable {times : Times 2000} {timeoutMs : ℕ} {look : ℕ → Look} {kind : Option ReadinessProbe} {stats : BootProbeStats}

theorem BootProbeOutcome.text_injective : Function.Injective BootProbeOutcome.text := by
  intro a b same
  cases a <;> cases b <;> first | rfl | exact absurd same (by decide)

theorem Tally.start (fresh : stats = { newBootProbeStats with kind := kind }) : Tally times look kind 0 stats := by
  subst fresh
  exact ⟨rfl, rfl, fun _ => rfl, rfl, rfl, rfl⟩

theorem Tally.record {k : ℕ} (h : Tally times look kind k stats) :
    Tally times look kind (k + 1) (recordBootProbe stats (times.told k - times.start) (look k)) where
  kind := h.kind
  attempts := congrArg (· + 1) h.attempts
  counts outcome := by
    rw [List.range_succ, List.countP_append, ← h.counts outcome, List.countP_singleton]
    unfold recordBootProbe
    by_cases here : (look k).1 = outcome
    · subst here
      simp
    · have ne : outcome.text ≠ (look k).1.text := fun same => here (BootProbeOutcome.text_injective same).symm
      simp [Record.get_set_ne _ _ _ ne, here]
  http := by
    rw [List.range_succ, List.find?_append, Option.map_or, ← h.http]
    unfold recordBootProbe
    cases http : (look k).1.sawHttp <;> simp [http]
  first := by
    rw [List.range_succ, List.head?_append, Option.map_or, ← h.first]
    rfl
  last := by
    rw [List.range_succ, List.getLast?_concat]
    rfl

theorem probeLoop_spec {i count : ℕ} (h : Tally times look kind i stats) {r : Bool × ℕ}
    (run : Streak.wait times.clock (times.start + timeoutMs) 2 (settledAt look) i count = r) :
    (probeLoop times timeoutMs look i count stats).1 = r.1 ∧
      Tally times look kind r.2 (probeLoop times timeoutMs look i count stats).2 := by
  subst run
  fun_induction probeLoop times timeoutMs look i count stats with
  | case1 i count stats early count' stats' enough =>
      have early' : times.clock.now i < times.start + timeoutMs := early
      have enough' : 2 ≤ if settledAt look i then count + 1 else 0 := enough
      rw [Streak.wait, if_pos early', if_pos enough']
      exact ⟨rfl, h.record⟩
  | case2 i count stats early count' stats' few ih =>
      have early' : times.clock.now i < times.start + timeoutMs := early
      have few' : ¬ 2 ≤ if settledAt look i then count + 1 else 0 := few
      rw [Streak.wait, if_pos early', if_neg few']
      exact ih h.record
  | case3 i count stats late =>
      have late' : ¬ times.clock.now i < times.start + timeoutMs := late
      rw [Streak.wait, if_neg late']
      exact ⟨rfl, h⟩

theorem probeLoop_waits (h : Tally times look kind 0 stats) :
    Waits times timeoutMs look kind (probeLoop times timeoutMs look 0 0 stats) := by
  obtain ⟨r, run⟩ : ∃ r, Streak.wait times.clock (times.start + timeoutMs) 2 (settledAt look) 0 0 = r := ⟨_, rfl⟩
  obtain ⟨found, tally⟩ := probeLoop_spec h run
  obtain ⟨-, made, ready⟩ := Streak.wait_spec .start (fun m early => absurd early (Nat.not_lt_zero m)) run
  refine ⟨by rw [found]; exact ready, r.2, tally, fun i => (made i (Nat.zero_le i)).trans ?_⟩
  exact ⟨fun made => ⟨made.early, made.pending⟩, fun ⟨early, pending⟩ => ⟨early, pending⟩⟩

/-- Both waits, for whatever the guest answers. -/
theorem readiness (times : Times 2000) (timeoutMs : ℕ) (rest : ℕ → Except Caught RestResponse)
    (api : ℕ → Except Caught ApiLogin.ApiLoginResult) :
    Waits times timeoutMs (fun i => restLook (rest i)) none (waitForBoot times timeoutMs rest newBootProbeStats) ∧
      Waits times timeoutMs (fun i => apiLook (api i)) (some .api)
        (waitForApiReady times timeoutMs api newBootProbeStats) :=
  ⟨probeLoop_waits (.start rfl), probeLoop_waits (.start rfl)⟩

def Times.steady (restMs : ℕ) : Times restMs where
  start := 0
  now i := (restMs + 100) * i
  told i := (restMs + 100) * i + 100
  begun := Nat.zero_le _
  later i := Nat.le_add_right _ _
  rests i := by
    rw [Nat.mul_succ]
    omega

def booted : RestResponse where
  status := 200
  body := "\x7b\"board-name\":\"CHR\"\x7d"

/-- The port refuses connections three times. -/
def booting (i : ℕ) : Except Caught RestResponse :=
  if i < 3 then .error { code := some "ECONNREFUSED", message := "connect ECONNREFUSED" } else .ok booted

theorem booting_ready : Ready (fun i => restLook (booting i)) 4 := by
  refine ⟨3, rfl, fun j from_ _ => ?_⟩
  show (restLook (booting j)).1.settled = true
  rw [booting, if_neg (by omega)]
  decide +kernel

theorem readiness_booting : (waitForBoot (.steady 2000) 60000 booting newBootProbeStats).1 = true :=
  (readiness (.steady 2000) 60000 booting fun _ => .ok .done).1.ready.mpr ⟨4, booting_ready, by decide⟩

end Quickchr.BootWait
