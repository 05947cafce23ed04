import Quickchr.Download

/-!
# The retry policy of downloads

Why an attempt failed is told by what happened in it: the status of its response, the deadline that
had fired when something was thrown, or what was thrown. The policy asks for the last attempt and
its error by that cause, while the code decides by the deadline noted at the end.
-/
namespace Quickchr.Download
open Transition

variable {ε : Type}

def isClientError (status : ℕ) : Bool :=
  400 ≤ status ∧ status ≤ 499 ∧ status ≠ 408 ∧ status ≠ 429

inductive Cause (ε : Type)
  | clientError (status : ℕ)
  | proxyRefusal (error : AttemptError ε)
  | budget
  | other

/-- The cause of a failure without a client error: the first deadline, or else what was thrown. -/
def Record.fault (host : Host ε) (r : Record ε) : Cause ε :=
  match r.first, r.error with
  | some .transferBudget, _ => .budget
  | some .stall, _ => .other
  | none, .refusedStatus _ => .other
  | none, error => if host.isProxyRefusal (.error error) then .proxyRefusal error else .other

def Record.cause (host : Host ε) (r : Record ε) : Cause ε :=
  match r.status with
  | some status => if isClientError status then .clientError status else r.fault host
  | none => r.fault host

/-- The error a cause calls for, when it is one that ends the call. -/
def Cause.Determines : Cause ε → DownloadError ε → Prop
  | .clientError status, error => error = .http status
  | .proxyRefusal e, error => error = .refused (.error e)
  | .budget, error => ∃ outcome, error = .tooSlow outcome
  | .other, _ => False

structure PolicyKept (host : Host ε) (req : Request) (c : Call ε) : Prop where
  terminal : ∀ r ∈ c.failed, r.cause host ≠ .other →
    c.failed.head? = some r ∧ ∃ error, c.phase = .threw error ∧ (r.cause host).Determines error
  retried : ∀ r ∈ c.failed, r.cause host = .other → r.number < req.attempts →
    ∀ error, c.phase = .threw error → c.failed.head? ≠ some r
  stalled : ∀ outcome, c.phase = .threw (.stalled outcome) →
    ∃ r, c.failed.head? = some r ∧ req.stall ≤ r.silence

/-- No deadline fires that the cause is not, and what is reported is not taken for something else. -/
def Record.Undisturbed (host : Host ε) (req : Request) (r : Record ε) : Prop :=
  match r.cause host with
  | .clientError _ => r.last = none
  | .proxyRefusal _ => r.last = none
  | .budget => r.last = some .transferBudget ∧ host.isProxyRefusal r.thrown = false
  | .other => r.number < req.attempts →
      match r.last with
      | none => ∀ status, r.status = some status → isOk status ∨ 400 ≤ status
      | some .stall => host.isProxyRefusal r.thrown = false
      | some .transferBudget => False

/-- A stall deadline that `setTimeout` cannot represent fires at once; the last attempt is not left
with one that did so early. -/
def Record.OnTime (host : Host ε) (req : Request) (r : Record ε) : Prop :=
  DOWNLOAD_MAX_BUDGET_MS < req.stall → r.number = req.attempts → r.last = some .stall →
    host.isProxyRefusal r.thrown = false → req.stall ≤ r.silence

def calls (host : Host ε) (req : Request) : System (Call ε) (Moment ε) where
  Initial c := c = {}
  next c m := (Call.step host req m c).map Prod.fst

/-- What is known of an attempt by what it waits for. -/
def Awaits.Sound (a : Attempt ε) : Awaits ε → Prop
  | .response => a.seen.status = none ∧ a.budgetTimer = none ∧ a.fired ≠ some .transferBudget
  | .release status => a.seen.status = some status ∧ isOk status = false ∧ a.budgetTimer = none ∧
      a.fired ≠ some .transferBudget
  | .chunk => ∃ status, a.seen.status = some status ∧ isOk status = true
  | .sinkEnd => ∃ status, a.seen.status = some status ∧ isOk status = true
  | .sinkClose error before => (∃ status, a.seen.status = some status ∧ isOk status = true) ∧
      (∃ e, error = .foreign e) ∧ (a.fired = none → before = none)

/-- What is known of an attempt whose last event was at `clock`. -/
structure Attempt.Sound (req : Request) (clock : ℕ) (a : Attempt ε) : Prop where
  past : a.seen.lastByte ≤ clock
  first : a.fired = none → a.seen.first = none
  timer : ∀ due, a.stallTimer = some due → a.seen.lastByte + timerDelay req.stall ≤ due
  silence : req.stall ≤ DOWNLOAD_MAX_BUDGET_MS → a.fired = some .stall → req.stall ≤ a.seen.silence
  awaits : a.awaits.Sound a

structure Record.Sound (req : Request) (r : Record ε) : Prop where
  reported : ∀ d, r.last = some d → ∃ o, r.thrown = .deadline o ∧ o.deadline = some d
  unreported : r.last = none → r.thrown = .error r.error ∧ r.first = none
  ofStatus : ∀ status, r.error = .refusedStatus status → r.status = some status ∧
    isOk status = false ∧ isRetriableStatus status = false
  status : ∀ status, r.status = some status → isOk status = false →
    r.error = (if isRetriableStatus status then .httpStatus status else .refusedStatus status) ∧
      r.last ≠ some .transferBudget
  number : r.number ≤ req.attempts
  silence : req.stall ≤ DOWNLOAD_MAX_BUDGET_MS → r.last = some .stall → req.stall ≤ r.silence

section Attempt

variable {host : Host ε} {req : Request} {now : ℕ} {a : Attempt ε}

theorem Attempt.launch_sound : (Attempt.launch req now : Attempt ε).Sound req now where
  past := Nat.le_refl _
  first _ := rfl
  timer due armed := by cases armed; exact Nat.le_refl _
  silence _ fired := by cases fired
  awaits := ⟨rfl, rfl, fun fired => by cases fired⟩

theorem Attempt.Sound.observe {clock : ℕ} (h : a.Sound req clock) (later : clock ≤ now) :
    (a.observe now).Sound req now where
  past := h.past.trans later
  first := h.first
  timer := h.timer
  silence small fired := (h.silence small fired).trans (Nat.le_max_left _ _)
  awaits := by
    have awaits := h.awaits
    unfold Attempt.observe
    cases at_ : a.awaits <;> rw [at_] at awaits <;> exact awaits

/-- What is known when an attempt throws. -/
structure Thrown (req : Request) (a : Attempt ε) (error : AttemptError ε)
    (before : Option DownloadDeadline) : Prop where
  before : a.fired = none → before = none
  silence : req.stall ≤ DOWNLOAD_MAX_BUDGET_MS → a.fired = some .stall → req.stall ≤ a.seen.silence
  ofStatus : ∀ status, error = .refusedStatus status → a.seen.status = some status ∧
    isOk status = false ∧ isRetriableStatus status = false
  status : ∀ status, a.seen.status = some status → isOk status = false →
    error = (if isRetriableStatus status then .httpStatus status else .refusedStatus status) ∧
      a.fired ≠ some .transferBudget

/-- What is known of an attempt that goes on or throws. -/
def Progress.Sound (req : Request) (now : ℕ) : Progress ε → Prop
  | .goes a _ => a.Sound req now
  | .returns a _ => ∃ status, a.seen.status = some status ∧ isOk status = true
  | .throws a error before => Thrown req a error before

/-- An error that is no status, of an attempt without a status that says so. -/
theorem Thrown.own {error : AttemptError ε} {before : Option DownloadDeadline}
    (before_ : a.fired = none → before = none)
    (silence : req.stall ≤ DOWNLOAD_MAX_BUDGET_MS → a.fired = some .stall →
      req.stall ≤ a.seen.silence)
    (own : ∀ status, error ≠ .refusedStatus status)
    (ok : ∀ status, a.seen.status = some status → isOk status = true) :
    Thrown req a error before where
  before := before_
  silence := silence
  ofStatus status eq := absurd eq (own status)
  status status at_ notOk := by
    rw [ok status at_] at notOk
    cases notOk

theorem Attempt.Sound.fire {deadline : DownloadDeadline} (h : a.Sound req now)
    (stall : req.stall ≤ DOWNLOAD_MAX_BUDGET_MS → deadline = .stall → req.stall ≤ a.seen.silence)
    (budget : deadline = .transferBudget → ∃ status, a.seen.status = some status ∧
      isOk status = true) : (a.fire deadline).Sound req now where
  past := h.past
  first fired := by cases fired
  timer := h.timer
  silence small fired := by
    cases fired
    exact stall small rfl
  awaits := by
    have awaits := h.awaits
    unfold Attempt.fire
    dsimp only
    cases at_ : a.awaits with
    | response =>
        rw [at_] at awaits
        refine ⟨awaits.1, awaits.2.1, fun fired => ?_⟩
        cases fired
        obtain ⟨status, isStatus, -⟩ := budget rfl
        rw [awaits.1] at isStatus
        cases isStatus
    | release status =>
        rw [at_] at awaits
        refine ⟨awaits.1, awaits.2.1, awaits.2.2.1, fun fired => ?_⟩
        cases fired
        obtain ⟨status', isStatus, isOk_⟩ := budget rfl
        rw [awaits.1] at isStatus
        cases isStatus
        exact absurd (awaits.2.1.symm.trans isOk_) Bool.false_ne_true
    | chunk => rw [at_] at awaits; exact awaits
    | sinkEnd => rw [at_] at awaits; exact awaits
    | sinkClose error before =>
        rw [at_] at awaits
        exact ⟨awaits.1, awaits.2.1, fun fired => by cases fired⟩

theorem Attempt.Sound.budget_armed (h : a.Sound req now) {due : ℕ} (armed : a.budgetTimer = some due) :
    ∃ status, a.seen.status = some status ∧ isOk status = true := by
  have awaits := h.awaits
  cases at_ : a.awaits with
  | response =>
      rw [at_] at awaits
      rw [awaits.2.1] at armed
      cases armed
  | release status =>
      rw [at_] at awaits
      rw [awaits.2.2.1] at armed
      cases armed
  | chunk => rw [at_] at awaits; exact awaits
  | sinkEnd => rw [at_] at awaits; exact awaits
  | sinkClose error before => rw [at_] at awaits; exact awaits.1

theorem onResponse_sound (h : a.Sound req now) (at_ : a.awaits = .response) {status : ℕ}
    {contentLength : Option String} {hasBody : Bool} {openFails : Option ε} :
    (a.onResponse host req now status contentLength hasBody openFails).Sound req now := by
  have awaits := h.awaits
  rw [at_] at awaits
  unfold Attempt.onResponse
  dsimp only
  split
  · rename_i notOk
    exact ⟨h.past, h.first, h.timer, h.silence, rfl, eq_false_of_ne_true notOk, awaits.2.1, awaits.2.2⟩
  · rename_i isOk_
    have isOk_ : isOk status = true := not_not.mp isOk_
    have ok : ∀ status', some status = some status' → isOk status' = true := by
      rintro _ ⟨⟩
      exact isOk_
    split
    · exact Thrown.own h.first h.silence (fun _ eq => by cases eq) ok
    · split
      · exact Thrown.own h.first h.silence (fun _ eq => by cases eq) ok
      · exact ⟨h.past, h.first, h.timer, h.silence, status, rfl, isOk_⟩

theorem onReleased_sound (h : a.Sound req now) {status : ℕ} (at_ : a.awaits = .release status) :
    (a.onReleased status).Sound req now := by
  have awaits := h.awaits
  rw [at_] at awaits
  obtain ⟨isStatus, notOk, -, notBudget⟩ := awaits
  refine ⟨h.first, h.silence, fun status' eq => ?_, fun status' at' _ => ?_⟩
  · split at eq
    · cases eq
    · rename_i notRetriable
      cases eq
      exact ⟨isStatus, notOk, eq_false_of_ne_true notRetriable⟩
  · rw [isStatus] at at'
    cases at'
    exact ⟨rfl, notBudget⟩

theorem complete_sound (h : a.Sound req now) (at_ : a.awaits = .sinkEnd) :
    (a.complete now).Sound req now := by
  have awaits := h.awaits
  rw [at_] at awaits
  obtain ⟨status, isStatus, isOk_⟩ := awaits
  have ok : ∀ status', a.seen.status = some status' → isOk status' = true := by
    intro status' at'
    rw [isStatus] at at'
    cases at'
    exact isOk_
  unfold Attempt.complete
  split
  · exact Thrown.own h.first h.silence (fun _ eq => by cases eq) ok
  · split
    · exact Thrown.own h.first h.silence (fun _ eq => by cases eq) ok
    · exact ⟨status, isStatus, isOk_⟩

theorem closesAfter_sound (h : a.Sound req now) {e : ε}
    (ok : ∃ status, a.seen.status = some status ∧ isOk status = true) :
    (a.closesAfter e).Sound req now :=
  ⟨h.past, h.first, h.timer, h.silence, ok, ⟨e, rfl⟩, h.first⟩

theorem Attempt.steps_sound {event : Event ε} {p : Progress ε} {clock : ℕ}
    (h : Attempt.Steps host req now (a.observe now) event p) (sound : a.Sound req clock)
    (later : clock ≤ now) : p.Sound req now := by
  have quiet : now - a.seen.lastByte ≤ (a.observe now).seen.silence := Nat.le_max_right _ _
  have sound := sound.observe later
  have lastByte : (a.observe now).seen.lastByte = a.seen.lastByte := rfl
  generalize a.observe now = a' at h quiet sound lastByte
  cases h with
  | @stallFires due armed isDue =>
      have fires : (a'.fire .stall).Sound req now := by
        refine sound.fire (fun small _ => ?_) fun eq => (by cases eq)
        have after := sound.timer due armed
        have wait := le_timerDelay small
        omega
      exact ⟨fires.past, fires.first, fun _ none => (by cases none), fires.silence, fires.awaits⟩
  | @budgetFires due armed isDue =>
      have fires : (a'.fire .transferBudget).Sound req now :=
        sound.fire (fun _ eq => (by cases eq)) fun _ => sound.budget_armed armed
      refine ⟨fires.past, fires.first, fires.timer, fires.silence, ?_⟩
      have awaits := fires.awaits
      dsimp only
      cases at_ : (a'.fire .transferBudget).awaits <;> rw [at_] at awaits
      · exact ⟨awaits.1, rfl, awaits.2.2⟩
      · exact ⟨awaits.1, awaits.2.1, rfl, awaits.2.2.2⟩
      · exact awaits
      · exact awaits
      · exact awaits
  | response at_ => exact onResponse_sound sound at_
  | fetchFails at_ =>
      have awaits := sound.awaits
      rw [at_] at awaits
      refine Thrown.own sound.first sound.silence (fun _ eq => by cases eq) fun status isStatus => ?_
      rw [awaits.1] at isStatus
      cases isStatus
  | released at_ => exact onReleased_sound sound at_
  | @chunk data at_ =>
      have awaits := sound.awaits
      rw [at_] at awaits
      have past := sound.past
      refine ⟨?_, sound.first, fun due armed => ?_, sound.silence, ?_⟩
      · dsimp only
        split <;> omega
      · cases armed
        dsimp only
        split <;> omega
      · dsimp only
        rw [at_]
        exact awaits
  | bodyFails at_ =>
      have awaits := sound.awaits
      rw [at_] at awaits
      exact closesAfter_sound sound awaits
  | bodyEnds at_ =>
      have awaits := sound.awaits
      rw [at_] at awaits
      exact ⟨sound.past, sound.first, sound.timer, sound.silence, awaits⟩
  | sinkFails at_ =>
      have awaits := sound.awaits
      rw [at_] at awaits
      exact closesAfter_sound sound awaits
  | sinkEnds at_ => exact complete_sound sound at_
  | @sinkClosed error before at_ =>
      have awaits := sound.awaits
      rw [at_] at awaits
      obtain ⟨⟨status, isStatus, isOk_⟩, ⟨e, rfl⟩, fired⟩ := awaits
      refine Thrown.own fired sound.silence (fun _ eq => by cases eq) fun status' at' => ?_
      rw [isStatus] at at'
      cases at'
      exact isOk_

end Attempt

section Verdict

variable {host : Host ε} {req : Request} {r : Record ε}

theorem isOk_of_isClientError {status : ℕ} (h : isClientError status = true) :
    isOk status = false ∧ isRetriableStatus status = false := by
  obtain ⟨low, high, not408, not429⟩ := of_decide_eq_true h
  refine ⟨decide_eq_false (by omega), ?_⟩
  rw [isRetriableStatus, if_neg (by omega)]
  exact decide_eq_false (by omega)

/-- A status that is refused, though no client error, is below 400. -/
theorem status_low {status : ℕ} (notRetriable : isRetriableStatus status = false)
    (notClient : ¬ isClientError status = true) : status < 400 := by
  have outside : ¬ (400 ≤ status ∧ status ≤ 499 ∧ status ≠ 408 ∧ status ≠ 429) := fun h =>
    notClient (decide_eq_true h)
  unfold isRetriableStatus at notRetriable
  split at notRetriable
  · cases notRetriable
  · have small := of_decide_eq_false notRetriable
    omega

theorem not_retriable_of_low {status : ℕ} (low : status < 400) : isRetriableStatus status = false := by
  rw [isRetriableStatus, if_neg (by omega)]
  exact decide_eq_false (by omega)

theorem verdict_deadline {o : TransferOutcome} (h : host.isProxyRefusal (.deadline o) = false) :
    verdict host (.deadline o) =
      if o.deadline = some .transferBudget then .throws (.tooSlow o) else .retries := by
  unfold verdict
  simp only [h, Bool.false_eq_true, if_false]

theorem verdict_refused {failure : Failure ε} (own : ∀ s, failure ≠ .error (.refusedStatus s))
    (h : host.isProxyRefusal failure = true) : verdict host failure = .throws (.refused failure) := by
  cases failure with
  | deadline o => simp only [verdict, h, if_true]
  | error e =>
      cases e with
      | refusedStatus s => exact absurd rfl (own s)
      | httpStatus s => simp only [verdict, h, if_true]
      | noBody => simp only [verdict, h, if_true]
      | empty o => simp only [verdict, h, if_true]
      | truncated o => simp only [verdict, h, if_true]
      | foreign e => simp only [verdict, h, if_true]

theorem verdict_retries {e : AttemptError ε} (own : ∀ s, e ≠ .refusedStatus s)
    (h : host.isProxyRefusal (.error e) = false) : verdict host (.error e) = .retries := by
  cases e with
  | refusedStatus s => exact absurd rfl (own s)
  | httpStatus s => simp only [verdict, h, Bool.false_eq_true, if_false]
  | noBody => simp only [verdict, h, Bool.false_eq_true, if_false]
  | empty o => simp only [verdict, h, Bool.false_eq_true, if_false]
  | truncated o => simp only [verdict, h, Bool.false_eq_true, if_false]
  | foreign e => simp only [verdict, h, Bool.false_eq_true, if_false]

theorem verdict_ne_stalled {failure : Failure ε} {outcome : TransferOutcome} :
    verdict host failure ≠ .throws (.stalled outcome) := by
  intro eq
  cases refused : host.isProxyRefusal failure with
  | true =>
      cases failure with
      | deadline o => rw [verdict_refused (fun _ own => by cases own) refused] at eq; cases eq
      | error e =>
          by_cases own : ∃ s, e = .refusedStatus s
          · obtain ⟨s, rfl⟩ := own
            cases eq
          · rw [verdict_refused (fun s same => own ⟨s, Failure.error.inj same⟩) refused] at eq
            cases eq
  | false =>
      cases failure with
      | deadline o =>
          rw [verdict_deadline refused] at eq
          split at eq <;> cases eq
      | error e =>
          by_cases own : ∃ s, e = .refusedStatus s
          · obtain ⟨s, rfl⟩ := own
            cases eq
          · rw [verdict_retries (fun s same => own ⟨s, same⟩) refused] at eq
            cases eq

/-- What the policy asks of the verdict on a failed attempt. -/
def Record.Judged (host : Host ε) (req : Request) (r : Record ε) : Prop :=
  (r.cause host ≠ .other →
      ∃ error, verdict host r.thrown = .throws error ∧ (r.cause host).Determines error) ∧
    (r.cause host = .other → r.number < req.attempts → verdict host r.thrown = .retries)

/-- With a deadline that is reported, the verdict is the deadline's. -/
theorem Record.Sound.verdict_last (h : r.Sound req) {d : DownloadDeadline} (last : r.last = some d) :
    ∃ o, r.thrown = .deadline o ∧ verdict host r.thrown =
      if host.isProxyRefusal r.thrown then .throws (.refused r.thrown)
      else if d = .transferBudget then .throws (.tooSlow o) else .retries := by
  obtain ⟨o, thrown, isDeadline⟩ := h.reported d last
  refine ⟨o, thrown, ?_⟩
  rw [thrown]
  split
  · rename_i refused
    exact verdict_refused (fun _ eq => by cases eq) refused
  · rename_i notRefused
    rw [verdict_deadline (eq_false_of_ne_true notRefused), isDeadline]
    simp only [Option.some.injEq]

theorem Record.cause_cases :
    (∃ status, r.status = some status ∧ isClientError status = true ∧
        r.cause host = .clientError status) ∨
      (∀ status, r.status = some status → ¬ isClientError status = true) ∧
        r.cause host = r.fault host := by
  unfold Record.cause
  cases isStatus : r.status with
  | none =>
      refine .inr ⟨?_, rfl⟩
      rintro _ ⟨⟩
  | some status =>
      dsimp only
      by_cases client : isClientError status = true
      · exact .inl ⟨status, rfl, client, if_pos client⟩
      · refine .inr ⟨?_, if_neg client⟩
        rintro _ ⟨⟩
        exact client

theorem Record.fault_cases :
    (r.first = some .transferBudget ∧ r.fault host = .budget) ∨
      (r.first = some .stall ∧ r.fault host = .other) ∨
      (r.first = none ∧ (∃ status, r.error = .refusedStatus status) ∧ r.fault host = .other) ∨
      r.first = none ∧ (∀ status, r.error ≠ .refusedStatus status) ∧ r.fault host =
        if host.isProxyRefusal (.error r.error) then .proxyRefusal r.error else .other := by
  unfold Record.fault
  cases r.first with
  | some d => cases d <;> simp
  | none => cases r.error <;> simp

/-- A verdict on a deadline throws neither a status nor the refusal of what was thrown. -/
theorem Record.Sound.last_none (h : r.Sound req) {error : DownloadError ε}
    (throws : verdict host r.thrown = .throws error)
    (notLast : (∃ status, error = .http status) ∨ ∃ e, error = .refused (.error e)) :
    r.last = none := by
  cases last : r.last with
  | none => rfl
  | some d =>
      obtain ⟨o, thrown, eq⟩ := @Record.Sound.verdict_last ε host req r h d last
      rw [throws, thrown] at eq
      rcases notLast with ⟨status, rfl⟩ | ⟨e, rfl⟩
      · split at eq
        · cases eq
        · split at eq <;> cases eq
      · split at eq
        · cases eq
        · split at eq <;> cases eq

/-- Of a failure for no reason that ends a call, the verdict is to retry, unless a deadline that is
taken for the end or a status below 400 is in the way. -/
theorem Record.Sound.retries_iff (h : r.Sound req)
    (notClient : ∀ status, r.status = some status → ¬ isClientError status = true)
    (other : r.fault host = .other) :
    verdict host r.thrown = .retries ↔ match r.last with
      | none => ∀ status, r.status = some status → isOk status ∨ 400 ≤ status
      | some .stall => host.isProxyRefusal r.thrown = false
      | some .transferBudget => False := by
  cases last : r.last with
  | some d =>
      obtain ⟨o, -, eq⟩ := @Record.Sound.verdict_last ε host req r h d last
      rw [eq]
      cases d with
      | stall => cases host.isProxyRefusal r.thrown <;> simp
      | transferBudget => cases host.isProxyRefusal r.thrown <;> simp
  | none =>
      obtain ⟨thrown, first⟩ := h.unreported last
      rw [thrown]
      rcases @Record.fault_cases ε host r with ⟨isFirst, -⟩ | ⟨isFirst, -⟩ | ⟨-, ⟨status, isError⟩, -⟩ |
        ⟨-, own, fault⟩
      · rw [first] at isFirst; cases isFirst
      · rw [first] at isFirst; cases isFirst
      · obtain ⟨isStatus, notOk, notRetriable⟩ := h.ofStatus status isError
        have low := status_low notRetriable (notClient status isStatus)
        rw [isError]
        refine ⟨fun eq => (by cases eq), fun all => ?_⟩
        rcases all status isStatus with isOk_ | high
        · exact absurd (notOk.symm.trans isOk_) Bool.false_ne_true
        · omega
      · rw [other] at fault
        have notRefused : host.isProxyRefusal (.error r.error) = false := by
          cases refused : host.isProxyRefusal (.error r.error) with
          | false => rfl
          | true => rw [refused] at fault; cases fault
        refine ⟨fun _ status isStatus => ?_, fun _ => verdict_retries own notRefused⟩
        by_contra neither
        rw [not_or, Nat.not_le] at neither
        obtain ⟨isError, -⟩ := h.status status isStatus (eq_false_of_ne_true neither.1)
        rw [not_retriable_of_low neither.2] at isError
        exact own status isError

theorem Record.Sound.judged_iff (h : r.Sound req) : r.Judged host req ↔ r.Undisturbed host req := by
  unfold Record.Judged Record.Undisturbed
  rcases @Record.cause_cases ε host r with ⟨status, isStatus, client, cause⟩ | ⟨notClient, cause⟩
  · -- a client error is thrown as such when no deadline is reported
    rw [cause]
    obtain ⟨notOk, notRetriable⟩ := isOk_of_isClientError client
    have isError := (h.status status isStatus notOk).1
    rw [notRetriable] at isError
    constructor
    · rintro ⟨terminal, -⟩
      obtain ⟨error, throws, rfl⟩ := terminal fun eq => by cases eq
      exact h.last_none throws (.inl ⟨status, rfl⟩)
    · intro last
      refine ⟨fun _ => ⟨.http status, ?_, rfl⟩, fun eq => by cases eq⟩
      rw [(h.unreported last).1, isError]
      rfl
  rw [cause]
  have otherwise : r.fault host = .other → (r.Judged host req ↔ r.Undisturbed host req) := by
    intro fault
    unfold Record.Judged Record.Undisturbed
    rw [cause, fault]
    have retries := h.retries_iff notClient fault
    exact ⟨fun judged more => retries.mp (judged.2 rfl more),
      fun undisturbed => ⟨fun ne => absurd rfl ne, fun _ more => retries.mpr (undisturbed more)⟩⟩
  unfold Record.Judged Record.Undisturbed at otherwise
  rw [cause] at otherwise
  rcases @Record.fault_cases ε host r with ⟨first, fault⟩ | ⟨-, fault⟩ | ⟨-, -, fault⟩ |
    ⟨first, own, fault⟩
  · -- the budget came first
    rw [fault]
    constructor
    · rintro ⟨terminal, -⟩
      obtain ⟨error, throws, o, rfl⟩ := terminal fun eq => by cases eq
      cases last : r.last with
      | none =>
          rw [(h.unreported last).2] at first
          cases first
      | some d =>
          obtain ⟨o', -, eq⟩ := @Record.Sound.verdict_last ε host req r h d last
          rw [throws] at eq
          split at eq
          · cases eq
          · rename_i notRefused
            split at eq
            · rename_i isBudget
              exact ⟨congrArg some isBudget, eq_false_of_ne_true notRefused⟩
            · cases eq
    · rintro ⟨last, notRefused⟩
      obtain ⟨o, -, eq⟩ := @Record.Sound.verdict_last ε host req r h _ last
      rw [notRefused] at eq
      exact ⟨fun _ => ⟨_, eq, o, rfl⟩, fun eq => by cases eq⟩
  · exact otherwise fault
  · exact otherwise fault
  · cases refused : host.isProxyRefusal (.error r.error) with
    | false =>
        rw [refused] at fault
        simp only [Bool.false_eq_true, if_false] at fault
        exact otherwise fault
    | true =>
        rw [refused, if_pos rfl] at fault
        rw [fault]
        constructor
        · rintro ⟨terminal, -⟩
          obtain ⟨error, throws, rfl⟩ := terminal fun eq => by cases eq
          exact h.last_none throws (.inr ⟨r.error, rfl⟩)
        · intro last
          refine ⟨fun _ => ⟨.refused (.error r.error), ?_, rfl⟩, fun eq => by cases eq⟩
          rw [(h.unreported last).1]
          refine verdict_refused (fun s eq => ?_) refused
          exact own s (Failure.error.inj eq)

end Verdict

/-- The attempt was followed by another one. -/
def Record.Followed (host : Host ε) (req : Request) (r : Record ε) : Prop :=
  verdict host r.thrown = .retries ∧ r.number < req.attempts

/-- The attempt ended the call with `error`. -/
def Record.Ends (host : Host ε) (req : Request) (r : Record ε) (error : DownloadError ε) : Prop :=
  verdict host r.thrown = .throws error ∨
    verdict host r.thrown = .retries ∧ r.number = req.attempts ∧ error = exhausted r.thrown

/-- The phase of a call that has not thrown, and of one that has, with the failed attempts. -/
def Call.Accounted (host : Host ε) (req : Request) (c : Call ε) : Prop :=
  match c.phase with
  | .idle => c.failed = []
  | .attempting number a => number ≤ req.attempts ∧ a.Sound req c.clock ∧
      ∀ r ∈ c.failed, r.Followed host req
  | .sleeping number _ => number < req.attempts ∧ ∀ r ∈ c.failed, r.Followed host req
  | .returned _ => ∀ r ∈ c.failed, r.Followed host req
  | .threw error => c.failed = [] ∧ error = .failed none ∨
      ∃ r rest, c.failed = r :: rest ∧ r.Ends host req error ∧ ∀ r ∈ rest, r.Followed host req

/-- What is known of a call between two events. -/
structure Call.Ledger (host : Host ε) (req : Request) (c : Call ε) : Prop where
  sound : ∀ r ∈ c.failed, r.Sound req
  accounted : c.Accounted host req

section Ledger

variable {host : Host ε} {req : Request} {m : Moment ε} {c : Call ε}

theorem fails_ledger {record : Record ε} (sound : ∀ r ∈ c.failed, r.Sound req)
    (followed : ∀ r ∈ c.failed, r.Followed host req) (isSound : record.Sound req) :
    (c.fails host req m record).1.Ledger host req := by
  refine ⟨fun r member => ?_, ?_⟩
  · rcases List.mem_cons.mp member with rfl | earlier
    · exact isSound
    · exact sound r earlier
  · unfold Call.Accounted Call.fails Call.afterFailure
    dsimp only
    cases judged : verdict host record.thrown with
    | throws error => exact .inr ⟨record, c.failed, rfl, .inl judged, followed⟩
    | retries =>
        by_cases more : record.number < req.attempts
        · simp only [if_pos more]
          refine ⟨more, fun r member => ?_⟩
          rcases List.mem_cons.mp member with rfl | earlier
          · exact ⟨judged, more⟩
          · exact followed r earlier
        · simp only [if_neg more]
          have isLast : record.number = req.attempts :=
            Nat.le_antisymm isSound.number (Nat.le_of_not_lt more)
          exact .inr ⟨record, c.failed, rfl, .inr ⟨judged, isLast, rfl⟩, followed⟩

theorem renameFails_sound {number : ℕ} (inLoop : number ≤ req.attempts) {a : Attempt ε}
    (ok : ∃ status, a.seen.status = some status ∧ isOk status = true) {e : ε} {unlinked : Bool} :
    ({ number := number, status := a.seen.status, error := .foreign e, first := none, last := none
       thrown := .error (.foreign e), silence := a.seen.silence
       unlinked := unlinked } : Record ε).Sound req where
  reported _ last := by cases last
  unreported _ := ⟨rfl, rfl⟩
  ofStatus _ eq := by cases eq
  status status isStatus notOk := by
    obtain ⟨status', at_, isOk_⟩ := ok
    cases at_.symm.trans isStatus
    exact absurd (notOk.symm.trans isOk_) Bool.false_ne_true
  number := inLoop
  silence _ last := by cases last

theorem throws_sound {number : ℕ} (inLoop : number ≤ req.attempts) {a : Attempt ε}
    {error : AttemptError ε} {before : Option DownloadDeadline} (h : Thrown req a error before)
    {now : ℕ} {unlinked : Bool} :
    ({ number := number, status := a.seen.status, error := error, first := before, last := a.fired
       thrown := a.failure now error, silence := a.seen.silence
       unlinked := unlinked } : Record ε).Sound req where
  reported d fired := by
    have fired : a.fired = some d := fired
    exact ⟨a.outcome now, by rw [Attempt.failure, fired], fired⟩
  unreported fired := by
    have fired : a.fired = none := fired
    exact ⟨by rw [Attempt.failure, fired], h.before fired⟩
  ofStatus := h.ofStatus
  status := h.status
  number := inLoop
  silence := h.silence

theorem Call.steps_ledger {next : Call ε × List FileOp} (h : Call.Steps host req m c next)
    (later : c.clock ≤ m.now) (ledger : c.Ledger host req) : next.1.Ledger host req := by
  obtain ⟨sound, accounted⟩ := ledger
  unfold Call.Accounted at accounted
  cases h with
  | begins at_ =>
      rw [at_] at accounted
      refine ⟨sound, ?_⟩
      unfold Call.Accounted Call.begins
      dsimp only
      by_cases some_ : 1 ≤ req.attempts
      · simp only [if_pos some_]
        refine ⟨some_, Attempt.launch_sound, fun r member => ?_⟩
        rw [accounted] at member
        cases member
      · simp only [if_neg some_]
        exact .inl ⟨accounted, trivial⟩
  | wakes at_ awake =>
      rw [at_] at accounted
      exact ⟨sound, accounted.1, Attempt.launch_sound, accounted.2⟩
  | @attempts number a p at_ stepped =>
      rw [at_] at accounted
      obtain ⟨inLoop, isSound, followed⟩ := accounted
      have progress := Attempt.steps_sound stepped isSound later
      cases p with
      | goes a' op => exact ⟨sound, inLoop, progress, followed⟩
      | throws a' error before => exact fails_ledger sound followed (throws_sound inLoop progress)
      | returns a' outcome =>
          unfold Call.onProgress
          cases m.renameFails with
          | none => exact ⟨sound, followed⟩
          | some e => exact fails_ledger sound followed (renameFails_sound inLoop progress)

theorem calls_ledger (h : (calls host req).Reachable c) : c.Ledger host req := by
  refine System.ReachableUnder.invariant (I := fun c => c.Ledger host req) ?_ ?_ h
  · rintro c rfl
    exact ⟨fun r member => (by cases member), rfl⟩
  · rintro c m c' - ledger - next
    obtain ⟨after, stepped, rfl⟩ := Option.map_eq_some_iff.mp next
    obtain ⟨later, steps⟩ := Call.steps_of_step stepped
    exact Call.steps_ledger steps later ledger

/-- A failed attempt was followed by another, or is the last and ended the call. -/
theorem Call.Ledger.cases (ledger : c.Ledger host req) {r : Record ε} (member : r ∈ c.failed) :
    r.Followed host req ∨ ∃ error, c.phase = .threw error ∧ c.failed.head? = some r ∧
      r.Ends host req error := by
  have accounted := ledger.accounted
  unfold Call.Accounted at accounted
  cases at_ : c.phase with
  | idle =>
      rw [at_] at accounted
      rw [accounted] at member
      cases member
  | attempting number a =>
      rw [at_] at accounted
      exact .inl (accounted.2.2 r member)
  | sleeping number wakesAt =>
      rw [at_] at accounted
      exact .inl (accounted.2 r member)
  | returned outcome =>
      rw [at_] at accounted
      exact .inl (accounted r member)
  | threw error =>
      rw [at_] at accounted
      rcases accounted with ⟨none, -⟩ | ⟨last, rest, failed, ends, followed⟩
      · rw [none] at member
        cases member
      · rw [failed] at member ⊢
        rcases List.mem_cons.mp member with rfl | earlier
        · exact .inr ⟨error, rfl, rfl, ends⟩
        · exact .inl (followed r earlier)

theorem Call.Ledger.ends (ledger : c.Ledger host req) {error : DownloadError ε} {r : Record ε}
    (threw : c.phase = .threw error) (isHead : c.failed.head? = some r) : r.Ends host req error := by
  have accounted := ledger.accounted
  unfold Call.Accounted at accounted
  rw [threw] at accounted
  rcases accounted with ⟨none, -⟩ | ⟨last, rest, failed, ends, -⟩
  · rw [none] at isHead
    cases isHead
  · rw [failed] at isHead
    cases isHead
    exact ends

theorem Cause.determines_exhausted {cause : Cause ε} {failure : Failure ε}
    (h : cause.Determines (exhausted failure)) : False := by
  cases failure with
  | error e =>
      cases cause with
      | clientError status => cases h
      | proxyRefusal e => cases h
      | budget => obtain ⟨o, ⟨⟩⟩ := h
      | other => exact h
  | deadline o =>
      cases cause with
      | clientError status => cases h
      | proxyRefusal e => cases h
      | budget => obtain ⟨o, ⟨⟩⟩ := h
      | other => exact h

theorem Call.Ledger.judged (ledger : c.Ledger host req) (kept : PolicyKept host req c)
    {r : Record ε} (member : r ∈ c.failed) : r.Judged host req := by
  refine ⟨fun cause => ?_, fun cause more => ?_⟩
  · obtain ⟨isHead, error, threw, determines⟩ := kept.terminal r member cause
    rcases ledger.ends threw isHead with throws | ⟨-, -, rfl⟩
    · exact ⟨error, throws, determines⟩
    · exact (Cause.determines_exhausted determines).elim
  · rcases ledger.cases member with followed | ⟨error, threw, isHead, -⟩
    · exact followed.1
    · exact absurd isHead (kept.retried r member cause more error threw)

/-- A stall that the call reports is the deadline its last attempt was left with. -/
theorem Record.Sound.stalled_iff {r : Record ε} (h : r.Sound req) {outcome : TransferOutcome}
    (ends : r.Ends host req (.stalled outcome)) :
    r.number = req.attempts ∧ r.last = some .stall ∧ host.isProxyRefusal r.thrown = false := by
  rcases ends with throws | ⟨retries, isLast, eq⟩
  · exact absurd throws verdict_ne_stalled
  · refine ⟨isLast, ?_⟩
    cases last : r.last with
    | none =>
        rw [(h.unreported last).1] at eq
        cases eq
    | some d =>
        obtain ⟨o, -, verdict_⟩ := @Record.Sound.verdict_last ε host req r h d last
        rw [retries] at verdict_
        split at verdict_
        · cases verdict_
        · rename_i notRefused
          split at verdict_
          · cases verdict_
          · rename_i notBudget
            cases d with
            | stall => exact ⟨rfl, eq_false_of_ne_true notRefused⟩
            | transferBudget => exact absurd rfl notBudget

theorem Record.Sound.ends_stalled {r : Record ε} (h : r.Sound req) (last : r.last = some .stall)
    (notRefused : host.isProxyRefusal r.thrown = false) :
    verdict host r.thrown = .retries ∧ ∃ outcome, exhausted r.thrown = .stalled outcome := by
  obtain ⟨o, thrown, eq⟩ := @Record.Sound.verdict_last ε host req r h _ last
  rw [notRefused] at eq
  exact ⟨eq, o, by rw [thrown]; rfl⟩

/-- The policy is kept if and only if no failed attempt was disturbed, and the stall that a call
reports was no early one. -/
theorem retry_policy_kept_iff (h : (calls host req).Reachable c) :
    PolicyKept host req c ↔
      (∀ r ∈ c.failed, r.Undisturbed host req) ∧ ∀ r ∈ c.failed, r.OnTime host req := by
  have ledger := calls_ledger h
  constructor
  · intro kept
    refine ⟨fun r member => (ledger.sound r member).judged_iff.mp (ledger.judged kept member),
      fun r member _ isLast last notRefused => ?_⟩
    obtain ⟨retries, outcome, stalled⟩ := (ledger.sound r member).ends_stalled last notRefused
    rcases ledger.cases member with followed | ⟨error, threw, isHead, ends⟩
    · exact absurd isLast (Nat.ne_of_lt followed.2)
    · rcases ends with throws | ⟨-, -, rfl⟩
      · rw [retries] at throws
        cases throws
      · rw [stalled] at threw
        obtain ⟨r', isHead', silent⟩ := kept.stalled outcome threw
        rw [isHead] at isHead'
        cases isHead'
        exact silent
  · rintro ⟨undisturbed, onTime⟩
    have judged : ∀ r ∈ c.failed, r.Judged host req := fun r member =>
      (ledger.sound r member).judged_iff.mpr (undisturbed r member)
    refine ⟨fun r member cause => ?_, fun r member cause more error threw isHead => ?_,
      fun outcome threw => ?_⟩
    · obtain ⟨error, throws, determines⟩ := (judged r member).1 cause
      rcases ledger.cases member with followed | ⟨error', threw, isHead, ends⟩
      · rw [followed.1] at throws
        cases throws
      · rcases ends with throws' | ⟨retries, -, -⟩
        · rw [throws] at throws'
          cases throws'
          exact ⟨isHead, error, threw, determines⟩
        · rw [throws] at retries
          cases retries
    · have retries := (judged r member).2 cause more
      rcases ledger.ends threw isHead with throws | ⟨-, isLast, -⟩
      · rw [retries] at throws
        cases throws
      · omega
    · cases isHead : c.failed.head? with
      | none =>
          have accounted := ledger.accounted
          unfold Call.Accounted at accounted
          rw [threw] at accounted
          rcases accounted with ⟨-, ⟨⟩⟩ | ⟨r, rest, failed, -, -⟩
          rw [failed] at isHead
          cases isHead
      | some r =>
          have member : r ∈ c.failed := List.mem_of_head? isHead
          obtain ⟨isLast, last, notRefused⟩ :=
            (ledger.sound r member).stalled_iff (ledger.ends threw isHead)
          refine ⟨r, rfl, ?_⟩
          rcases Nat.lt_or_ge DOWNLOAD_MAX_BUDGET_MS req.stall with large | small
          · exact onTime r member large isLast last notRefused
          · exact (ledger.sound r member).silence small last

end Ledger

def oneImage : Request where
  url := "https://download.mikrotik.com/chr.img.zip"
  hostname := "download.mikrotik.com"
  proxyConfigured := false
  destPath := "cache/chr.img.zip"
  suffix := "a"
  maxAttempts := none
  stallMs := none
  budgetMs := none

/-- No length is read, and no error is a proxy's. -/
def plainHost : Host Unit where
  number _ := none
  isProxyRefusal _ := false

/-- The headers of a 404 come, and its body is not released for as long as a stall takes. -/
def slowRelease : List (Moment Unit) :=
  [{ now := 0, event := .begins }, { now := 100, event := .response 404 none true none },
   { now := 30000, event := .stallFires }, { now := 30001, event := .released }]

def promptRelease : List (Moment Unit) :=
  [{ now := 0, event := .begins }, { now := 100, event := .response 404 none true none },
   { now := 101, event := .released }]

theorem retry_policy_kept_iff_prompt : ∃ c, (calls plainHost oneImage).Reachable c ∧
    c.phase = .threw (.http 404) ∧ PolicyKept plainHost oneImage c := by
  have reached := @System.reachable_of_replay _ _ (calls plainHost oneImage) {} _ promptRelease rfl rfl
  refine ⟨_, reached, rfl, (retry_policy_kept_iff reached).mpr ⟨?_, fun r _ large => ?_⟩⟩
  · exact List.forall_mem_singleton.mpr rfl
  · exact absurd large (by decide)

/-- The attempt that was answered 404 is not the last one. -/
theorem retry_policy_kept_fails : ¬ ∀ (host : Host Unit) (req : Request) (c : Call Unit),
    (calls host req).Reachable c → PolicyKept host req c := by
  intro claim
  have reached := @System.reachable_of_replay _ _ (calls plainHost oneImage) {} _ slowRelease rfl rfl
  obtain ⟨-, error, threw, -⟩ := (claim plainHost oneImage _ reached).terminal _ List.mem_cons_self
    fun cause => by cases cause
  cases threw

end Quickchr.Download
