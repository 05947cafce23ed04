import Quickchr.DeviceModeChange
import Quickchr.PackageReboot

/-!
# Applying a device mode

RouterOS holds the update request open until the machine is power-cycled, so QEMU is ended while the request
is pending. A request that returns early has not been committed and is made again, but a refusal is an
answer. The guest's own record is read last, and it decides.
-/
namespace Quickchr.DeviceModeUpdate

open BootWait DeviceMode PackageReboot

/-- What is thrown: the code of a `QuickCHRError`, none for another error, and the message. -/
structure Failure where
  code : Option ErrorCode
  message : List UInt16

def fail (code : ErrorCode) (message : String) : Failure := ⟨some code, units message⟩

def succeeded (answer : RestResponse) : Bool := 200 ≤ answer.status ∧ answer.status < 300

/-- The first item of an array, and anything else as it is. -/
def firstRecord : JsonText.Value → Option JsonText.Value
  | .arr items => items.head?
  | data => some data

def hasKey (members : List (List UInt16 × JsonText.Value)) (key : String) : Bool :=
  members.any fun member => member.1 = units key

def isDeviceModeBody (body : String) : Bool :=
  match (JsonText.parse body.toList).bind firstRecord with
  | some (.obj keys) => !(hasKey keys "board-name" || hasKey keys "architecture-name") && hasKey keys "mode"
  | _ => false

section Api

variable (httpPort : ℕ) (probes : Probes 1000) (timeoutMs : ℕ)

def apiLoop (i : ℕ) (lastBody : String) : Except Failure Unit :=
  if probes.times.now i < probes.times.start + timeoutMs then
    match probes.answers i with
    | .error _ => apiLoop (i + 1) lastBody
    | .ok answer =>
        if succeeded answer then
          if isDeviceModeBody answer.body then .ok () else apiLoop (i + 1) answer.body
        else if answer.status = 401 then
          .error (fail .PROCESS_FAILED "Device-mode API auth failed: HTTP 401")
        else apiLoop (i + 1) lastBody
  else .error
    { code := some .BOOT_TIMEOUT
      message := units s!"Device-mode API did not become ready on port {httpPort}" ++
        if lastBody = "" then []
        else units " (last response was not device-mode data: " ++ (units lastBody).take 200 ++ units ")" }
termination_by probes.times.start + timeoutMs - probes.times.now i
decreasing_by
  all_goals
    have := probes.times.clock.advances i
    change probes.times.now i < probes.times.now (i + 1) at this
    omega

def waitForDeviceModeApi : Except Failure Unit := apiLoop httpPort probes timeoutMs 0 ""

end Api

/-- What the race between the update request and two seconds comes to. -/
inductive PostOutcome
  | rejected (error : Failure)
  | pending
  | resolved (answer : RestResponse)

/-- What one attempt meets. `offline` is the probe that follows an answer, the rest only matters where it is
reached. -/
structure Attempt where
  outcome : PostOutcome
  offline : Bool
  back : Probes 2000
  ready : Probes 1000
  reading : Except Failure (Record String)

structure Cycle where
  pid : Option Pid
  monitorAnswers : Bool
  exited : Bool
  spawned : Except Failure Pid
  back : Probes 2000
  ready : Probes 1000

structure Env where
  ready : Probes 1000
  before : Except Failure (Record String)
  attempts : ℕ → Attempt
  cycle : Cycle
  reading : Except Failure (Record String)

/-- What is done to the machine and what is learnt from the guest. -/
inductive Action
  | post (outcome : PostOutcome)
  | read (actual : Record String)
  /-- QEMU is asked to quit over its monitor. -/
  | quit
  /-- QEMU is terminated. -/
  | stop
  | spawn (pid : Pid)

section Update

variable (inherited : String → Option String) (httpPort bootTimeoutS : ℕ) (resolved : ResolvedDeviceModeOptions)

def verifies (actual : Record String) : Bool := (verifyDeviceMode inherited resolved actual).ok

def mismatches (actual : Record String) : String :=
  Text.join "; " (verifyDeviceMode inherited resolved actual).mismatches

/-- The request is an answer at once where nothing is to be applied. -/
def startDeviceModeUpdate (outcome : PostOutcome) : PostOutcome :=
  if shouldApplyDeviceMode resolved then outcome else .resolved { status := 200, body := "" }

/-- A wait for REST, if there is one, and for the endpoint after it. -/
def comeBack (timedOut : String) (back : Probes 2000) (ready : Probes 1000) : Except Failure Unit :=
  if back.waitForBoot (bootTimeoutS * 1000) then waitForDeviceModeApi httpPort ready (bootTimeoutS * 1000)
  else .error (fail .BOOT_TIMEOUT timedOut)

/-- How the attempts end: the mode is active, or they are left for a power cycle or without one. -/
inductive Left
  | active
  | ended (requiresPowerCycle : Bool)

/-- The attempts from number `attempt` on, with so many to go. -/
def tryUpdate (attempts : ℕ → Attempt) : ℕ → ℕ → List Action × Except Failure Left
  | 0, _ => ([], .ok (.ended false))
  | left + 1, attempt =>
      let this := attempts attempt
      let outcome := startDeviceModeUpdate resolved this.outcome
      match outcome with
      | .rejected error => ([.post outcome], .error error)
      | .pending => ([.post outcome], .ok (.ended true))
      | .resolved answer =>
          if !succeeded answer then
            let said := if Text.trim answer.body = "" then "(empty body)" else Text.trim answer.body
            ([.post outcome], .error (fail .PROCESS_FAILED
              s!"Device-mode update rejected by RouterOS: HTTP {answer.status} — {said}"))
          else
            let back := if this.offline then
              comeBack httpPort bootTimeoutS "RouterOS device-mode internal reboot timed out" this.back this.ready
              else .ok ()
            match back, this.reading with
            | .error e, _ => ([.post outcome], .error e)
            | .ok (), .error e => ([.post outcome], .error e)
            | .ok (), .ok actual =>
                if verifies inherited resolved actual then ([.post outcome, .read actual], .ok .active)
                else if left = 0 then ([.post outcome, .read actual], .error (fail .PROCESS_FAILED
                  (s!"Device-mode update did not activate after {attempt} attempts; last mismatch: " ++
                    mismatches inherited resolved actual)))
                else
                  let (actions, result) := tryUpdate attempts left (attempt + 1)
                  (.post outcome :: .read actual :: actions, result)

def hardRebootMachine (cycle : Cycle) : List Action × Except Failure Unit :=
  if cycle.pid.isNone then
    ([], .error (fail .PROCESS_FAILED "Cannot hard-reboot machine: missing QEMU pid"))
  else
    let ended := if cycle.exited then [.quit] else [.quit, .stop]
    match cycle.spawned with
    | .error e => (ended, .error e)
    | .ok pid => (ended ++ [.spawn pid], .ok ())

def finish (reading : Except Failure (Record String)) : List Action × Except Failure Unit :=
  match reading with
  | .error e => ([], .error e)
  | .ok actual =>
      ([.read actual], if verifies inherited resolved actual then .ok () else .error (fail .PROCESS_FAILED
        ("Device-mode verification failed after hard reboot: " ++ mismatches inherited resolved actual)))

/-- The power cycle that confirms a pending request, and the reading after it. -/
def confirm (env : Env) (requiresPowerCycle : Bool) : List Action × Except Failure Unit :=
  if requiresPowerCycle then
    match hardRebootMachine env.cycle with
    | (actions, .error e) => (actions, .error e)
    | (actions, .ok ()) =>
        match comeBack httpPort bootTimeoutS
          s!"Device-mode activation reboot did not come back within {bootTimeoutS}s" env.cycle.back env.cycle.ready with
        | .error e => (actions, .error e)
        | .ok () =>
            let (last, result) := finish inherited resolved env.reading
            (actions ++ last, result)
  else finish inherited resolved env.reading

/-- The update, where the mode was not active before. -/
def update (env : Env) : List Action × Except Failure Unit :=
  match tryUpdate inherited httpPort bootTimeoutS resolved env.attempts 5 1 with
  | (actions, .error e) => (actions, .error e)
  | (actions, .ok .active) => (actions, .ok ())
  | (actions, .ok (.ended requiresPowerCycle)) =>
      let (confirmed, result) := confirm inherited httpPort bootTimeoutS resolved env requiresPowerCycle
      (actions ++ confirmed, result)

def applyDeviceMode (env : Env) : List Action × Except Failure Unit :=
  match waitForDeviceModeApi httpPort env.ready 60000, env.before with
  | .error e, _ => ([], .error e)
  | .ok (), .error _ => update inherited httpPort bootTimeoutS resolved env
  | .ok (), .ok before =>
      if verifies inherited resolved before then ([.read before], .ok ())
      else
        let (actions, result) := update inherited httpPort bootTimeoutS resolved env
        (.read before :: actions, result)

end Update

def Action.isPost : Action → Bool
  | .post _ => true
  | _ => false

def Action.onProcess : Action → Bool
  | .quit | .stop | .spawn _ => true
  | _ => false

section

variable (inherited : String → Option String) (resolved : ResolvedDeviceModeOptions)

def EndsVerified (actions : List Action) : Prop :=
  ∃ front actual, actions = front ++ [.read actual] ∧ verifies inherited resolved actual = true

/-- A request with another one after it returned early, and the record read next does not verify. -/
def Repeats (actions : List Action) : Prop :=
  ∀ front outcome back, actions = front ++ .post outcome :: back → back.any Action.isPost = true →
    ∃ answer actual rest, outcome = .resolved answer ∧ succeeded answer = true ∧ back = .read actual :: rest ∧
      verifies inherited resolved actual = false

/-- The process is touched only to confirm a pending request: it is told to quit, once, and no request follows. -/
def Confirms (actions : List Action) : Prop :=
  actions.any Action.onProcess = true → ∃ front back, actions = front ++ .post .pending :: .quit :: back ∧
    front.any Action.onProcess = false ∧ ∀ a ∈ back, a ≠ .quit ∧ a.isPost = false

/-- A run makes at most so many requests and succeeds only with a record that verifies. -/
structure Sound (n : ℕ) (r : List Action × Except Failure Unit) : Prop where
  verified : r.2 = .ok () → EndsVerified inherited resolved r.1
  few : r.1.countP Action.isPost ≤ n
  repeated : Repeats inherited resolved r.1
  confirmed : Confirms r.1

/-- Nothing is asked of a guest whose record verifies already. -/
structure Applies (env : Env) (r : List Action × Except Failure Unit) : Prop extends
    Sound inherited resolved 5 r where
  spared : ∀ actual, env.before = .ok actual → verifies inherited resolved actual = true →
    r.1.any Action.isPost = false ∧ r.1.any Action.onProcess = false

inductive Rounds : ℕ → List Action → Prop
  | nil : Rounds 0 []
  | cons {answer : RestResponse} {actual : Record String} {n : ℕ} {actions : List Action} : succeeded answer = true →
      verifies inherited resolved actual = false → Rounds n actions →
      Rounds (n + 1) (.post (.resolved answer) :: .read actual :: actions)

/-- The last attempt and how it leaves the loop. -/
inductive LastAttempt : List Action → Except Failure Left → Prop
  | stopped (outcome : PostOutcome) (e : Failure) : LastAttempt [.post outcome] (.error e)
  | inactive (answer : RestResponse) (actual : Record String) (e : Failure) :
      LastAttempt [.post (.resolved answer), .read actual] (.error e)
  | active (answer : RestResponse) {actual : Record String} : verifies inherited resolved actual = true →
      LastAttempt [.post (.resolved answer), .read actual] (.ok .active)
  | pending : LastAttempt [.post .pending] (.ok (.ended true))

def Cycled (actions : List Action) : Prop :=
  actions = [] ∨ ∃ back, actions = .quit :: back ∧ ∀ a ∈ back, a ≠ .quit ∧ a.isPost = false

/-- The last attempt and the power cycle that confirms it. -/
inductive Closing : List Action → Except Failure Unit → Prop
  | stopped (outcome : PostOutcome) (e : Failure) : Closing [.post outcome] (.error e)
  | inactive (answer : RestResponse) (actual : Record String) (e : Failure) :
      Closing [.post (.resolved answer), .read actual] (.error e)
  | active (answer : RestResponse) {actual : Record String} : verifies inherited resolved actual = true →
      Closing [.post (.resolved answer), .read actual] (.ok ())
  | cycled {actions : List Action} {result : Except Failure Unit} : Cycled actions →
      (result = .ok () → EndsVerified inherited resolved actions) → Closing (.post .pending :: actions) result

end

section

variable {inherited : String → Option String} {resolved : ResolvedDeviceModeOptions} {httpPort bootTimeoutS : ℕ}
  {env : Env}

theorem tryUpdate_cases (attempts : ℕ → Attempt) (left attempt : ℕ) :
    let r := tryUpdate inherited httpPort bootTimeoutS resolved attempts (left + 1) attempt
    let rest := tryUpdate inherited httpPort bootTimeoutS resolved attempts left (attempt + 1)
    LastAttempt inherited resolved r.1 r.2 ∨ left ≠ 0 ∧ ∃ answer actual, succeeded answer = true ∧
      verifies inherited resolved actual = false ∧ r = (.post (.resolved answer) :: .read actual :: rest.1, rest.2) := by
  dsimp only
  rw [tryUpdate]
  generalize startDeviceModeUpdate resolved (attempts attempt).outcome = outcome
  cases outcome with
  | rejected error => exact .inl (.stopped _ error)
  | pending => exact .inl .pending
  | resolved answer =>
      dsimp only
      split
      · exact .inl (.stopped _ _)
      rename_i success
      split
      · exact .inl (.stopped _ _)
      · exact .inl (.stopped _ _)
      rename_i actual _ _
      split
      · rename_i active
        exact .inl (.active answer active)
      rename_i mismatched
      split
      · exact .inl (.inactive answer actual _)
      · rename_i more
        exact .inr ⟨more, answer, actual, by simpa using success, by simpa using mismatched, rfl⟩

theorem tryUpdate_spec {attempts : ℕ → Attempt} {left attempt : ℕ} {r : List Action × Except Failure Left}
    (run : tryUpdate inherited httpPort bootTimeoutS resolved attempts (left + 1) attempt = r) :
    ∃ n rounds last, r.1 = rounds ++ last ∧ Rounds inherited resolved n rounds ∧
      LastAttempt inherited resolved last r.2 ∧ n ≤ left := by
  subst run
  induction left generalizing attempt with
  | zero =>
      rcases tryUpdate_cases attempts 0 attempt with last | ⟨more, -⟩
      · exact ⟨0, [], _, rfl, .nil, last, Nat.le_refl 0⟩
      · exact absurd rfl more
  | succ left ih =>
      rcases tryUpdate_cases attempts (left + 1) attempt with last | ⟨-, answer, actual, success, mismatched, run⟩
      · exact ⟨0, [], _, rfl, .nil, last, Nat.zero_le _⟩
      · obtain ⟨n, rounds, last, whole, repeated, ending, few⟩ := @ih (attempt + 1)
        rw [run]
        exact ⟨n + 1, _, last, by rw [whole]; rfl, .cons success mismatched repeated, ending, by omega⟩

theorem finish_spec (reading : Except Failure (Record String)) :
    let r := finish inherited resolved reading
    (∀ a ∈ r.1, a ≠ .quit ∧ a.isPost = false) ∧ (r.2 = .ok () → EndsVerified inherited resolved r.1) := by
  unfold finish
  cases reading with
  | error e => exact ⟨by simp, by simp⟩
  | ok actual =>
      refine ⟨by simp [Action.isPost], fun ok => ⟨[], actual, rfl, ?_⟩⟩
      by_contra bad
      simp [bad] at ok

theorem hardRebootMachine_spec {cycle : Cycle} {actions : List Action} {result : Except Failure Unit}
    (run : hardRebootMachine cycle = (actions, result)) :
    Cycled actions ∧ (result = .ok () → ∃ back, actions = .quit :: back ∧ ∀ a ∈ back, a ≠ .quit ∧ a.isPost = false) := by
  unfold hardRebootMachine at run
  split at run
  · cases run
    exact ⟨.inl rfl, by simp⟩
  · have ended : ∃ back, (if cycle.exited then [Action.quit] else [.quit, .stop]) = .quit :: back ∧
        ∀ a ∈ back, a ≠ .quit ∧ a.isPost = false := by
      cases cycle.exited
      · exact ⟨[.stop], rfl, by simp [Action.isPost]⟩
      · exact ⟨[], rfl, by simp⟩
    obtain ⟨back, first, rest⟩ := ended
    dsimp only at run
    rw [first] at run
    cases spawned : cycle.spawned with
    | error e =>
        rw [spawned] at run
        cases run
        exact ⟨.inr ⟨back, rfl, rest⟩, by simp⟩
    | ok pid =>
        rw [spawned] at run
        cases run
        have whole : ∃ back', Action.quit :: back ++ [.spawn pid] = .quit :: back' ∧
            ∀ a ∈ back', a ≠ .quit ∧ a.isPost = false := by
          refine ⟨back ++ [.spawn pid], rfl, fun a member => ?_⟩
          rcases List.mem_append.mp member with earlier | last
          · exact rest a earlier
          · rw [List.mem_singleton.mp last]
            exact ⟨by simp, rfl⟩
        exact ⟨.inr whole, fun _ => whole⟩

theorem confirm_spec {r : List Action × Except Failure Unit}
    (run : confirm inherited httpPort bootTimeoutS resolved env true = r) :
    Cycled r.1 ∧ (r.2 = .ok () → EndsVerified inherited resolved r.1) := by
  subst run
  unfold confirm
  rw [if_pos rfl]
  split
  · rename_i actions e run
    exact ⟨(hardRebootMachine_spec run).1, by simp⟩
  rename_i actions _ run
  obtain ⟨cycled, some⟩ := hardRebootMachine_spec run
  split
  · exact ⟨cycled, by simp⟩
  obtain ⟨last, verified⟩ := @finish_spec inherited resolved env.reading
  obtain ⟨back, rfl, rest⟩ := some rfl
  refine ⟨.inr ⟨back ++ (finish inherited resolved env.reading).1, rfl, fun a member => ?_⟩, fun ok => ?_⟩
  · exact (List.mem_append.mp member).elim (rest a) (last a)
  · obtain ⟨front, actual, whole, fine⟩ := verified ok
    exact ⟨.quit :: back ++ front, actual, by simp [whole], fine⟩

/-- Every update is a number of attempts that are repeated and a closing one. -/
theorem update_spec {r : List Action × Except Failure Unit}
    (run : update inherited httpPort bootTimeoutS resolved env = r) :
    ∃ n rounds closing, r.1 = rounds ++ closing ∧ Rounds inherited resolved n rounds ∧
      Closing inherited resolved closing r.2 ∧ n ≤ 4 := by
  subst run
  unfold update
  split
  · rename_i actions e run
    obtain ⟨n, rounds, last, whole, repeated, ending, few⟩ := tryUpdate_spec run
    refine ⟨n, rounds, last, whole, repeated, ?_, few⟩
    cases ending with
    | stopped outcome => exact .stopped outcome e
    | inactive answer actual => exact .inactive answer actual e
  · rename_i actions run
    obtain ⟨n, rounds, last, whole, repeated, ending, few⟩ := tryUpdate_spec run
    refine ⟨n, rounds, last, whole, repeated, ?_, few⟩
    cases ending with
    | active answer fine => exact .active answer fine
  · rename_i actions requiresPowerCycle run
    obtain ⟨n, rounds, last, whole, repeated, ending, few⟩ := tryUpdate_spec run
    cases ending with
    | pending =>
        obtain ⟨cycled, verified⟩ := @confirm_spec inherited resolved httpPort bootTimeoutS env _ rfl
        dsimp only at whole ⊢
        rw [whole, List.append_assoc]
        exact ⟨n, rounds, _, rfl, repeated, .cycled cycled verified, few⟩

theorem EndsVerified.append {actions : List Action} (h : EndsVerified inherited resolved actions) (before : List Action) :
    EndsVerified inherited resolved (before ++ actions) := by
  obtain ⟨front, actual, rfl, fine⟩ := h
  exact ⟨before ++ front, actual, (List.append_assoc _ _ _).symm, fine⟩

theorem Repeats.cons {a : Action} {actions : List Action} (h : Repeats inherited resolved actions)
    (other : a.isPost = false) : Repeats inherited resolved (a :: actions) := by
  intro front outcome back whole again
  cases front with
  | nil =>
      obtain ⟨rfl, -⟩ := List.cons.inj whole
      cases other
  | cons b front => exact h front outcome back (List.cons.inj whole).2 again

theorem Repeats.last {outcome : PostOutcome} {actions : List Action} (none : ∀ a ∈ actions, a.isPost = false) :
    Repeats inherited resolved (.post outcome :: actions) := by
  intro front outcome' back whole again
  obtain ⟨a, member, post⟩ := List.any_eq_true.mp again
  have later : a ∈ actions := by
    cases front with
    | nil => exact (List.cons.inj whole).2 ▸ member
    | cons b front =>
        rw [(List.cons.inj whole).2]
        exact List.mem_append_right front (List.mem_cons_of_mem _ member)
  rw [none a later] at post
  cases post

theorem Repeats.round {answer : RestResponse} {actual : Record String} {actions : List Action}
    (h : Repeats inherited resolved actions) (success : succeeded answer = true)
    (mismatched : verifies inherited resolved actual = false) :
    Repeats inherited resolved (.post (.resolved answer) :: .read actual :: actions) := by
  intro front outcome back whole again
  cases front with
  | nil =>
      obtain ⟨same, rfl⟩ := List.cons.inj whole
      exact ⟨answer, actual, actions, (Action.post.inj same).symm, success, rfl, mismatched⟩
  | cons b front => exact h.cons rfl front outcome back (List.cons.inj whole).2 again

theorem Confirms.cons {a : Action} {actions : List Action} (h : Confirms actions) (other : a.onProcess = false) :
    Confirms (a :: actions) := by
  intro touched
  rw [List.any_cons, other, Bool.false_or] at touched
  obtain ⟨front, back, rfl, before, after⟩ := h touched
  exact ⟨a :: front, back, rfl, by simp [other, before], after⟩

theorem Cycled.no_post {actions : List Action} (h : Cycled actions) : ∀ a ∈ actions, a.isPost = false := by
  rcases h with rfl | ⟨back, rfl, rest⟩
  · simp
  · intro a member
    rcases List.mem_cons.mp member with rfl | later
    · rfl
    · exact (rest a later).2

theorem Closing.sound {actions : List Action} {result : Except Failure Unit}
    (h : Closing inherited resolved actions result) : Sound inherited resolved 1 (actions, result) := by
  cases h with
  | stopped outcome e => exact ⟨by simp, Nat.le_refl 1, .last (by simp), by simp [Confirms, Action.onProcess]⟩
  | inactive answer actual e =>
      exact ⟨by simp, Nat.le_refl 1, .last (by simp [Action.isPost]), by simp [Confirms, Action.onProcess]⟩
  | active answer fine =>
      exact ⟨fun _ => ⟨[_], _, rfl, fine⟩, Nat.le_refl 1, .last (by simp [Action.isPost]),
        by simp [Confirms, Action.onProcess]⟩
  | cycled cycled verified =>
      refine ⟨fun ok => (verified ok).append [_], ?_, .last cycled.no_post, ?_⟩
      · rw [List.countP_cons_of_pos rfl, List.countP_eq_zero.mpr fun a member => by simp [cycled.no_post a member]]
      · rcases cycled with rfl | ⟨back, rfl, rest⟩
        · simp [Confirms, Action.onProcess]
        · exact fun _ => ⟨[], back, rfl, rfl, rest⟩

theorem Sound.read {n : ℕ} {actions : List Action} {result : Except Failure Unit}
    (h : Sound inherited resolved n (actions, result)) (actual : Record String) :
    Sound inherited resolved n (.read actual :: actions, result) where
  verified ok := (h.verified ok).append [_]
  few := by
    rw [List.countP_cons_of_neg (by simp [Action.isPost])]
    exact h.few
  repeated := h.repeated.cons rfl
  confirmed := h.confirmed.cons rfl

theorem Sound.round {n : ℕ} {answer : RestResponse} {actual : Record String} {actions : List Action}
    {result : Except Failure Unit} (h : Sound inherited resolved n (actions, result)) (success : succeeded answer = true)
    (mismatched : verifies inherited resolved actual = false) :
    Sound inherited resolved (n + 1) (.post (.resolved answer) :: .read actual :: actions, result) where
  verified ok := (h.verified ok).append [_, _]
  few := by
    rw [List.countP_cons_of_pos rfl]
    exact Nat.succ_le_succ (h.read actual).few
  repeated := h.repeated.round success mismatched
  confirmed := (h.confirmed.cons rfl).cons rfl

theorem Rounds.sound {n : ℕ} {rounds closing : List Action} {result : Except Failure Unit}
    (h : Rounds inherited resolved n rounds) (last : Sound inherited resolved 1 (closing, result)) :
    Sound inherited resolved (n + 1) (rounds ++ closing, result) := by
  induction h with
  | nil => exact last
  | cons success mismatched _ ih => exact ih.round success mismatched

theorem update_sound (env : Env) :
    Sound inherited resolved 5 (update inherited httpPort bootTimeoutS resolved env) := by
  obtain ⟨n, rounds, closing, whole, repeated, last, few⟩ := @update_spec inherited resolved httpPort bootTimeoutS env _ rfl
  have sound := repeated.sound last.sound
  rw [← whole] at sound
  exact ⟨sound.verified, sound.few.trans (by omega), sound.repeated, sound.confirmed⟩

end

theorem applies (inherited : String → Option String) (httpPort bootTimeoutS : ℕ)
    (resolved : ResolvedDeviceModeOptions) (env : Env) :
    Applies inherited resolved env (applyDeviceMode inherited httpPort bootTimeoutS resolved env) := by
  unfold applyDeviceMode
  split
  · exact ⟨⟨by simp, by simp, by simp [Repeats], by simp [Confirms]⟩, by simp⟩
  · rename_i unread
    exact ⟨update_sound env, fun actual before => by simp [unread] at before⟩
  · rename_i before _ was
    split
    · rename_i fine
      refine ⟨⟨fun _ => ⟨[], before, rfl, fine⟩, by simp [Action.isPost], ?_, ?_⟩, by simp [Action.isPost, Action.onProcess]⟩
      · intro front outcome back whole
        rcases front with _ | ⟨_, front⟩ <;> simp at whole
      · simp [Confirms, Action.onProcess]
    · rename_i mismatched
      refine ⟨(update_sound env).read before, fun actual same fine => absurd fine ?_⟩
      rw [was] at same
      cases same
      exact mismatched

def atHome : Env where
  ready := ⟨.steady 1000, fun _ => .ok { status := 200, body := "\x7b\"mode\":\"home\"\x7d" }⟩
  before := .ok [("mode", "home")]
  attempts _ :=
    { outcome := .pending, offline := false, back := ⟨.steady 2000, booting⟩
      ready := ⟨.steady 1000, booting⟩, reading := .ok [("mode", "home")] }
  cycle :=
    { pid := some 100, monitorAnswers := true, exited := true, spawned := .ok 101
      back := ⟨.steady 2000, booting⟩, ready := ⟨.steady 1000, booting⟩ }
  reading := .ok [("mode", "home")]

theorem applies_atHome : (applyDeviceMode (fun _ => none) 9100 60 (resolveDeviceModeOptions (some { mode := some "home" }))
    atHome).1.any Action.isPost = false :=
  ((applies (fun _ => none) 9100 60 (resolveDeviceModeOptions (some { mode := some "home" })) atHome).spared _ rfl
    (by decide +kernel)).1

end Quickchr.DeviceModeUpdate
