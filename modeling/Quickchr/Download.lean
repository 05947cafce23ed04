import Quickchr.Lib.Text
import Quickchr.Lib.Transition
import Mathlib.Data.Rat.Defs

/-!
# Downloads

One call makes up to `maxAttempts` attempts. An attempt is bounded by two timers: one that every
chunk arms anew, one for the whole transfer. A timer that fires notes so and aborts; whatever the
attempt throws then is reported as that deadline. The events of a call are what its awaits come to
and its timers, in any order.
-/
namespace Quickchr.Download

def COLD_DOWNLOAD_FLOOR_BYTES_PER_S : ℕ := 120000
def DOWNLOAD_STALL_MS : ℕ := 30000
def DOWNLOAD_BUDGET_BASE_MS : ℕ := 30000
def DOWNLOAD_NO_LENGTH_BUDGET_MS : ℕ := 15 * 60000
def DOWNLOAD_MAX_ATTEMPTS : ℕ := 3
def DOWNLOAD_MAX_BUDGET_MS : ℕ := 2147483647

def transferBudgetMs : Option ℕ → ℕ
  | none => DOWNLOAD_NO_LENGTH_BUDGET_MS
  | some bytes =>
      min (DOWNLOAD_BUDGET_BASE_MS +
          (bytes * 1000 + (COLD_DOWNLOAD_FLOOR_BYTES_PER_S - 1)) / COLD_DOWNLOAD_FLOOR_BYTES_PER_S)
        DOWNLOAD_MAX_BUDGET_MS

/-- What `setTimeout` waits: a delay it cannot represent is one millisecond. -/
def timerDelay (ms : ℕ) : ℕ := if ms = 0 ∨ DOWNLOAD_MAX_BUDGET_MS < ms then 1 else ms

theorem le_timerDelay {ms : ℕ} (h : ms ≤ DOWNLOAD_MAX_BUDGET_MS) : ms ≤ timerDelay ms := by
  unfold timerDelay
  split <;> omega

inductive DownloadDeadline
  | stall | transferBudget
  deriving DecidableEq, Repr

structure TransferOutcome where
  bytes : ℕ
  expected : Option ℕ
  elapsedMs : ℕ
  deadline : Option DownloadDeadline
  budgetMs : ℕ
  deriving DecidableEq, Repr

/-- `response.ok`. -/
def isOk (status : ℕ) : Bool := 200 ≤ status ∧ status ≤ 299

def isRetriableStatus (status : ℕ) : Bool :=
  if status = 408 ∨ status = 429 then true else 500 ≤ status

section Errors

variable (ε : Type)

/-- What goes wrong in an attempt. An `ε` is an error of the connection, the body or a file. -/
inductive AttemptError
  | refusedStatus (status : ℕ)
  | httpStatus (status : ℕ)
  | noBody
  | empty (outcome : TransferOutcome)
  | truncated (outcome : TransferOutcome)
  | foreign (e : ε)
  deriving DecidableEq, Repr

/-- What an attempt throws: what went wrong, or the deadline that fired. -/
inductive Failure
  | error (e : AttemptError ε)
  | deadline (outcome : TransferOutcome)
  deriving DecidableEq, Repr

inductive DownloadError
  | http (status : ℕ)
  | refused (failure : Failure ε)
  | tooSlow (outcome : TransferOutcome)
  | stalled (outcome : TransferOutcome)
  | failed (last : Option (AttemptError ε))
  deriving DecidableEq, Repr

/-- What surrounds a call: `Number`, with none for what is not finite, and `isProxyRefusal`. -/
structure Host where
  number : String → Option ℚ
  isProxyRefusal : Failure ε → Bool

end Errors

structure Request where
  url : String
  hostname : String
  proxyConfigured : Bool
  destPath : String
  /-- The process and the random part of the name of the part file. -/
  suffix : String
  maxAttempts : Option ℕ
  stallMs : Option ℕ
  budgetMs : Option ℕ

def Request.attempts (req : Request) : ℕ := req.maxAttempts.getD DOWNLOAD_MAX_ATTEMPTS

def Request.stall (req : Request) : ℕ := req.stallMs.getD DOWNLOAD_STALL_MS

def Request.partPath (req : Request) : String := req.destPath ++ "." ++ req.suffix ++ ".part"

section

variable {ε : Type}

inductive DownloadCode
  | DOWNLOAD_STALLED | DOWNLOAD_TOO_SLOW | DOWNLOAD_FAILED
  deriving DecidableEq, Repr

def DownloadError.code : DownloadError ε → DownloadCode
  | .http _ => .DOWNLOAD_FAILED
  | .refused _ => .DOWNLOAD_FAILED
  | .tooSlow _ => .DOWNLOAD_TOO_SLOW
  | .stalled _ => .DOWNLOAD_STALLED
  | .failed _ => .DOWNLOAD_FAILED

/-- The messages, given those of the errors they quote. -/
def DownloadError.message (text : Failure ε → String) (req : Request) : DownloadError ε → String
  | .http status =>
      if status = 403 && req.proxyConfigured then
        s!"Download failed: HTTP 403 for {req.url} via the egress proxy — the origin refused the " ++
          s!"request, or on Bun older than 1.4.3 the proxy refused CONNECT for {req.hostname}"
      else s!"Download failed: HTTP {status} for {req.url}"
  | .refused failure =>
      s!"Download failed: the egress proxy refused {req.hostname} — {text failure}"
  | .tooSlow outcome => text (.deadline outcome)
  | .stalled outcome => s!"Download stalled on {tries}: {text (.deadline outcome)}"
  | .failed last =>
      let detail := match last with
        | some e => text (.error e)
        | none => "unknown error"
      s!"Download failed after {tries}: {detail}"
where
  tries : String := if req.attempts = 1 then "1 attempt" else s!"all {req.attempts} attempts"

/-- The length a response declares: an absent, blank or malformed one is unknown. -/
def declaredLength (host : Host ε) (contentLength : Option String) : Option ℕ :=
  match contentLength.map Text.trim with
  | none => none
  | some text =>
      if text = "" then none
      else match host.number text with
        | some q => if q.den = 1 ∧ 0 ≤ q then some q.num.toNat else none
        | none => none

/-- What an attempt waits for. With an error is kept which deadline had fired before it, if any. -/
inductive Awaits (ε : Type)
  | response
  | release (status : ℕ)
  | chunk
  | sinkEnd
  | sinkClose (error : AttemptError ε) (before : Option DownloadDeadline)

/-- What an attempt has seen so far; nothing it does depends on it. -/
structure Seen where
  status : Option ℕ := none
  contentLength : Option String := none
  first : Option DownloadDeadline := none
  wrote : List UInt8 := []
  lastByte : ℕ
  /-- The longest time without a byte. -/
  silence : ℕ := 0

structure Attempt (ε : Type) where
  started : ℕ
  fired : Option DownloadDeadline := none
  /-- When a timer that is armed is due. -/
  stallTimer : Option ℕ
  budgetTimer : Option ℕ := none
  bytes : ℕ := 0
  expected : Option ℕ := none
  budgetMs : ℕ
  awaits : Awaits ε := .response
  seen : Seen

inductive Event (ε : Type)
  | begins
  | response (status : ℕ) (contentLength : Option String) (hasBody : Bool) (openFails : Option ε)
  | fetchFails (e : ε)
  | released
  | chunk (data : List UInt8)
  | bodyFails (e : ε)
  | bodyEnds
  | sinkEnds (fails : Option ε)
  | sinkClosed
  | stallFires
  | budgetFires
  | wakes

inductive FileOp
  | openPart
  | write (data : List UInt8)
  | publish
  | unlink
  deriving DecidableEq, Repr

inductive Progress (ε : Type)
  | goes (a : Attempt ε) (op : Option FileOp)
  | returns (a : Attempt ε) (outcome : TransferOutcome)
  | throws (a : Attempt ε) (error : AttemptError ε) (before : Option DownloadDeadline)

namespace Attempt

variable (host : Host ε) (req : Request) (now : ℕ) (a : Attempt ε)

def launch : Attempt ε where
  started := now
  stallTimer := some (now + timerDelay req.stall)
  budgetMs := req.budgetMs.getD (transferBudgetMs none)
  seen := { lastByte := now }

def outcome : TransferOutcome where
  bytes := a.bytes
  expected := a.expected
  elapsedMs := now - a.started
  deadline := a.fired
  budgetMs := a.budgetMs

/-- The `catch`: a deadline that has fired takes the place of what was thrown. -/
def failure (error : AttemptError ε) : Failure ε :=
  match a.fired with
  | some _ => .deadline (a.outcome now)
  | none => .error error

def observe : Attempt ε :=
  { a with seen := { a.seen with silence := max a.seen.silence (now - a.seen.lastByte) } }

def fire (deadline : DownloadDeadline) : Attempt ε :=
  { a with
    fired := some deadline
    seen := { a.seen with first := some (a.seen.first.getD deadline) } }

def throws (error : AttemptError ε) : Progress ε := .throws a error a.seen.first

def onResponse (status : ℕ) (contentLength : Option String) (hasBody : Bool)
    (openFails : Option ε) : Progress ε :=
  let a := { a with seen := { a.seen with status := some status, contentLength := contentLength } }
  if ¬ isOk status then .goes { a with awaits := .release status } none
  else
    let expected := declaredLength host contentLength
    let budgetMs := req.budgetMs.getD (transferBudgetMs expected)
    let a :=
      { a with
        expected := expected
        budgetMs := budgetMs
        budgetTimer := some (now + timerDelay budgetMs) }
    if ¬ hasBody then a.throws .noBody
    else match openFails with
      | some e => a.throws (.foreign e)
      | none => .goes { a with awaits := .chunk } (some .openPart)

def onReleased (status : ℕ) : Progress ε :=
  a.throws (if isRetriableStatus status then .httpStatus status else .refusedStatus status)

def onChunk (data : List UInt8) : Progress ε :=
  .goes
    { a with
      bytes := a.bytes + data.length
      stallTimer := some (now + timerDelay req.stall)
      seen :=
        { a.seen with
          wrote := a.seen.wrote ++ data
          lastByte := if data = [] then a.seen.lastByte else now } }
    (some (.write data))

/-- The inner `catch`, which closes the sink before the error goes on. -/
def closesAfter (e : ε) : Progress ε :=
  .goes { a with awaits := .sinkClose (.foreign e) a.seen.first } none

def complete : Progress ε :=
  if a.bytes = 0 then a.throws (.empty (a.outcome now))
  else if a.expected.any (a.bytes ≠ ·) then a.throws (.truncated (a.outcome now))
  else .returns a (a.outcome now)

def onTimer (due : Option ℕ) (fired : Attempt ε) : Option (Progress ε) :=
  if due.any (· ≤ now) then some (.goes fired none) else none

def step : Event ε → Option (Progress ε)
  | .stallFires => onTimer now a.stallTimer { a.fire .stall with stallTimer := none }
  | .budgetFires => onTimer now a.budgetTimer { a.fire .transferBudget with budgetTimer := none }
  | event =>
      match a.awaits, event with
      | .response, .response status contentLength hasBody openFails =>
          some (a.onResponse host req now status contentLength hasBody openFails)
      | .response, .fetchFails e => some (a.throws (.foreign e))
      | .release status, .released => some (a.onReleased status)
      | .chunk, .chunk data => some (a.onChunk req now data)
      | .chunk, .bodyFails e => some (a.closesAfter e)
      | .chunk, .bodyEnds => some (.goes { a with awaits := .sinkEnd } none)
      | .sinkEnd, .sinkEnds (some e) => some (a.closesAfter e)
      | .sinkEnd, .sinkEnds none => some (a.complete now)
      | .sinkClose error before, .sinkClosed => some (.throws a error before)
      | _, _ => none

/-- The steps of an attempt, by what it waits for. -/
inductive Steps : Event ε → Progress ε → Prop
  | stallFires {due : ℕ} : a.stallTimer = some due → due ≤ now →
      Steps .stallFires (.goes { a.fire .stall with stallTimer := none } none)
  | budgetFires {due : ℕ} : a.budgetTimer = some due → due ≤ now →
      Steps .budgetFires (.goes { a.fire .transferBudget with budgetTimer := none } none)
  | response {status : ℕ} {contentLength : Option String} {hasBody : Bool} {openFails : Option ε} :
      a.awaits = .response → Steps (.response status contentLength hasBody openFails)
        (a.onResponse host req now status contentLength hasBody openFails)
  | fetchFails {e : ε} : a.awaits = .response → Steps (.fetchFails e) (a.throws (.foreign e))
  | released {status : ℕ} : a.awaits = .release status → Steps .released (a.onReleased status)
  | chunk {data : List UInt8} : a.awaits = .chunk → Steps (.chunk data) (a.onChunk req now data)
  | bodyFails {e : ε} : a.awaits = .chunk → Steps (.bodyFails e) (a.closesAfter e)
  | bodyEnds : a.awaits = .chunk → Steps .bodyEnds (.goes { a with awaits := .sinkEnd } none)
  | sinkFails {e : ε} : a.awaits = .sinkEnd → Steps (.sinkEnds (some e)) (a.closesAfter e)
  | sinkEnds : a.awaits = .sinkEnd → Steps (.sinkEnds none) (a.complete now)
  | sinkClosed {error : AttemptError ε} {before : Option DownloadDeadline} :
      a.awaits = .sinkClose error before → Steps .sinkClosed (.throws a error before)

variable {host req now a}

theorem steps_of_onTimer {due : Option ℕ} {fired : Attempt ε} {p : Progress ε}
    (h : onTimer now due fired = some p) :
    ∃ t, due = some t ∧ t ≤ now ∧ p = .goes fired none := by
  unfold onTimer at h
  split at h
  · rename_i isDue
    obtain ⟨t, isSome, le⟩ := (Option.any_eq_true _ _).mp isDue
    cases h
    exact ⟨t, isSome, of_decide_eq_true le, rfl⟩
  · cases h

theorem steps_of_step {event : Event ε} {p : Progress ε} (h : a.step host req now event = some p) :
    Steps host req now a event p := by
  unfold step at h
  split at h
  · obtain ⟨t, armed, due, rfl⟩ := steps_of_onTimer h
    exact .stallFires armed due
  · obtain ⟨t, armed, due, rfl⟩ := steps_of_onTimer h
    exact .budgetFires armed due
  · split at h
    · rename_i at_ _ _; cases h; exact .response at_
    · rename_i at_ _ _; cases h; exact .fetchFails at_
    · rename_i at_ _ _; cases h; exact .released at_
    · rename_i at_ _ _; cases h; exact .chunk at_
    · rename_i at_ _ _; cases h; exact .bodyFails at_
    · rename_i at_ _ _; cases h; exact .bodyEnds at_
    · rename_i at_ _ _; cases h; exact .sinkFails at_
    · rename_i at_ _ _; cases h; exact .sinkEnds at_
    · rename_i at_ _ _; cases h; exact .sinkClosed at_
    · cases h

end Attempt

/-- A failed attempt: what was thrown in it, and what had fired before that and before its end. -/
structure Record (ε : Type) where
  number : ℕ
  status : Option ℕ
  error : AttemptError ε
  first : Option DownloadDeadline
  last : Option DownloadDeadline
  thrown : Failure ε
  silence : ℕ
  unlinked : Bool

inductive Phase (ε : Type)
  | idle
  | attempting (number : ℕ) (a : Attempt ε)
  | sleeping (number : ℕ) (wakesAt : ℕ)
  | returned (outcome : TransferOutcome)
  | threw (error : DownloadError ε)

/-- A call, with the failed attempts, the last one first. -/
structure Call (ε : Type) where
  clock : ℕ := 0
  phase : Phase ε := .idle
  failed : List (Record ε) := []

/-- An event, when it is, and what renaming and deleting the part file come to there. -/
structure Moment (ε : Type) where
  now : ℕ
  event : Event ε
  renameFails : Option ε := none
  unlinks : Bool := true

inductive Verdict (ε : Type)
  | throws (error : DownloadError ε)
  | retries

/-- The order in which the `catch` of a call looks at what an attempt threw. -/
def verdict (host : Host ε) : Failure ε → Verdict ε
  | .error (.refusedStatus status) => .throws (.http status)
  | .error e =>
      if host.isProxyRefusal (.error e) then .throws (.refused (.error e)) else .retries
  | .deadline outcome =>
      if host.isProxyRefusal (.deadline outcome) then .throws (.refused (.deadline outcome))
      else if outcome.deadline = some .transferBudget then .throws (.tooSlow outcome)
      else .retries

def exhausted : Failure ε → DownloadError ε
  | .deadline outcome => .stalled outcome
  | .error e => .failed (some e)

namespace Call

variable (host : Host ε) (req : Request) (m : Moment ε) (c : Call ε)

def afterFailure (number : ℕ) (failure : Failure ε) : Phase ε :=
  match verdict host failure with
  | .throws error => .threw error
  | .retries =>
      if number < req.attempts then .sleeping number (m.now + number * 2000)
      else .threw (exhausted failure)

/-- The `catch` of a call, after an attempt or a rename that failed. -/
def fails (record : Record ε) : Call ε × List FileOp :=
  ({ clock := m.now
     phase := afterFailure host req m record.number record.thrown
     failed := record :: c.failed },
    if m.unlinks then [.unlink] else [])

def onProgress (number : ℕ) : Progress ε → Call ε × List FileOp
  | .goes a op => ({ c with clock := m.now, phase := .attempting number a }, op.toList)
  | .throws a error before =>
      c.fails host req m
        { number := number, status := a.seen.status, error := error, first := before
          last := a.fired, thrown := a.failure m.now error, silence := a.seen.silence
          unlinked := m.unlinks }
  | .returns a outcome =>
      match m.renameFails with
      | none => ({ c with clock := m.now, phase := .returned outcome }, [.publish])
      | some e =>
          c.fails host req m
            { number := number, status := a.seen.status, error := .foreign e, first := none
              last := none, thrown := .error (.foreign e), silence := a.seen.silence
              unlinked := m.unlinks }

/-- The loop is entered, or there is nothing to do in it. -/
def begins : Phase ε :=
  if 1 ≤ req.attempts then .attempting 1 (Attempt.launch req m.now) else .threw (.failed none)

def step : Option (Call ε × List FileOp) :=
  if m.now < c.clock then none
  else
    match c.phase, m.event with
    | .idle, .begins => some ({ c with clock := m.now, phase := begins req m }, [])
    | .sleeping number wakesAt, .wakes =>
        if wakesAt ≤ m.now then
          some ({ c with clock := m.now, phase := .attempting (number + 1) (Attempt.launch req m.now) },
            [])
        else none
    | .attempting number a, event =>
        ((a.observe m.now).step host req m.now event).map (c.onProgress host req m number)
    | _, _ => none

inductive Steps : Call ε × List FileOp → Prop
  | begins : c.phase = .idle → Steps ({ c with clock := m.now, phase := begins req m }, [])
  | wakes {number wakesAt : ℕ} : c.phase = .sleeping number wakesAt → wakesAt ≤ m.now →
      Steps ({ c with clock := m.now, phase := .attempting (number + 1) (Attempt.launch req m.now) },
        [])
  | attempts {number : ℕ} {a : Attempt ε} {p : Progress ε} : c.phase = .attempting number a →
      Attempt.Steps host req m.now (a.observe m.now) m.event p →
      Steps (c.onProgress host req m number p)

variable {host req m c}

theorem steps_of_step {next : Call ε × List FileOp} (h : c.step host req m = some next) :
    c.clock ≤ m.now ∧ Steps host req m c next := by
  unfold step at h
  split at h
  · cases h
  rename_i notBefore
  refine ⟨Nat.le_of_not_lt notBefore, ?_⟩
  split at h
  · rename_i at_ _; cases h; exact .begins at_
  · rename_i at_ _
    split at h
    · rename_i awake; cases h; exact .wakes at_ awake
    · cases h
  · rename_i at_
    obtain ⟨p, stepped, rfl⟩ := Option.map_eq_some_iff.mp h
    exact .attempts at_ (Attempt.steps_of_step stepped)
  · cases h

end Call

end

end Quickchr.Download
