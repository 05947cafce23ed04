import Quickchr.MachineState
import Quickchr.Versions
import Quickchr.Lib.Retry

/-!
# Delivery of requests

`rest()` and `exec()` of an instance send a request over HTTP, again when an attempt failed in a
certain way. What an attempt ends in says whether the server processed its request: an answer
and a refused connection leave no doubt, a reset or a timeout may come before or after.
-/
namespace Quickchr

inductive Errno
  | ECONNREFUSED | EHOSTUNREACH | ENETUNREACH | ECONNRESET
  deriving DecidableEq, Repr

/-- An `Error`, with the code the system gives its own. -/
structure PlainError where
  code : Option Errno := none
  message : String
  deriving DecidableEq, Repr

inductive Thrown
  | plain (error : PlainError)
  | quickchr (error : QuickCHRError) (cause : Option PlainError)
  deriving DecidableEq, Repr

/-- What `btoa` and `atob` throw. -/
def Thrown.invalidCharacter : Thrown := .plain { message := "The string contains invalid characters." }

structure RestResponse where
  status : ℕ
  body : String
  deriving DecidableEq, Repr

inductive Unconnected
  | refused | hostUnreachable | networkUnreachable
  deriving DecidableEq, Repr

def Unconnected.code : Unconnected → Errno
  | .refused => .ECONNREFUSED
  | .hostUnreachable => .EHOSTUNREACH
  | .networkUnreachable => .ENETUNREACH

inductive Outcome
  | response (answer : RestResponse)
  | unconnected (why : Unconnected) (message : String)
  | reset (processed : Bool) (message : String)
  | timeout (processed : Bool)
  deriving DecidableEq, Repr

def Outcome.processed : Outcome → Bool
  | .response _ => true
  | .unconnected .. => false
  | .reset processed _ => processed
  | .timeout processed => processed

structure Sent where
  url : String
  method : String
  authorization : String
  body : Option String
  timeoutMs : ℕ
  deriving DecidableEq, Repr

/-- What the client sees of an attempt; its own timeout has a text of its own. -/
def answered (timedOut : String) : Outcome → Except PlainError RestResponse
  | .response answer => .ok answer
  | .unconnected why message => .error { code := why.code, message := message }
  | .reset _ message => .error { code := Errno.ECONNRESET, message := message }
  | .timeout _ => .error { message := timedOut }

def restRequest (sent : Sent) (outcome : Outcome) : Except PlainError RestResponse :=
  answered s!"restRequest timeout after {sent.timeoutMs}ms: {sent.method} {sent.url}" outcome

def restPost (sent : Sent) (outcome : Outcome) : Except PlainError RestResponse :=
  answered s!"restPost timeout after {sent.timeoutMs}ms: {sent.url}" outcome

/-- A finished call: its attempts, whether another channel ran the command, what it returned. -/
structure Call (β : Type) where
  tries : List (Sent × Outcome) := []
  elsewhere : Bool := false
  result : Except Thrown β

/-- How often the server has processed the request. -/
def Call.deliveries {β : Type} (call : Call β) : ℕ :=
  call.tries.countP (fun t => t.2.processed) + call.elsewhere.toNat

structure Machine where
  name : String
  version : String
  arch : Arch

def assertRestAvailable (machine : Machine) (operation : String) : Except QuickCHRError Unit :=
  if !isRouterOs6 machine.version then .ok ()
  else .error
    { code := .REST_UNAVAILABLE
      message := s!"RouterOS 6: not available — {operation} uses the REST API, which RouterOS " ++
        s!"{machine.version} does not have. {ROUTEROS6_BOOT_ONLY} Reach it over the native API " ++
        s!"instead, e.g. centrs retrieve --quickchr {machine.name} /system/resource --via " ++
        "native-api --no-validate (centrs validates against the 7.x command tree, so a 6.x read " ++
        "skips it)" }

structure RequestInit where
  method : Option String := none
  body : Option String := none
  /-- The `Authorization` among the headers. -/
  authorization : Option String := none
  deriving DecidableEq, Repr

def MAX_RETRIES : ℕ := 3

section Rest

variable {Json : Type} (parse : String → Option Json)

/-- The body of a good answer: parsed, or as it came. -/
def restResult (response : RestResponse) : Except Thrown (Json ⊕ String) :=
  if response.status < 200 ∨ response.status ≥ 300 then
    .error (.plain { message := s!"REST {response.status}: {response.body}" })
  else match parse response.body with
    | some value => .ok (.inl value)
    | none => .ok (.inr response.body)

/-- The request of one attempt; `auth` is resolved anew for each. -/
def restSent (url : String) (opts : RequestInit) (auth : String) : Sent where
  url := url
  method := Text.toUpperCase (opts.method.getD "GET")
  authorization :=
    match opts.authorization with
    | some override => if override.isEmpty then auth else override
    | none => auth
  body := opts.body
  timeoutMs := 10000

/-- The attempts from `attempt` on, with `left` of them to spare. -/
def restLoop (url : String) (opts : RequestInit) (auth : ℕ → String) (outcomes : ℕ → Outcome) :
    (left attempt : ℕ) → Call (Json ⊕ String)
  | left, attempt =>
      let sent := restSent url opts (auth attempt)
      match restRequest sent (outcomes attempt) with
      | .ok response => { tries := [(sent, outcomes attempt)], result := restResult parse response }
      | .error e =>
          match left with
          | 0 => { tries := [(sent, outcomes attempt)], result := .error (.plain e) }
          | left + 1 =>
              if e.code = some .ECONNRESET then
                let rest := restLoop url opts auth outcomes left (attempt + 1)
                { rest with tries := (sent, outcomes attempt) :: rest.tries }
              else { tries := [(sent, outcomes attempt)], result := .error (.plain e) }

def rest (machine : Machine) (restUrl path : String) (opts : RequestInit) (auth : ℕ → String)
    (outcomes : ℕ → Outcome) : Call (Json ⊕ String) :=
  match assertRestAvailable machine "rest()" with
  | .error e => { result := .error (.quickchr e none) }
  | .ok () =>
      let url := s!"{restUrl}/rest" ++ (if Text.startsWith path "/" then path else "/" ++ path)
      restLoop parse url opts auth outcomes MAX_RETRIES 0

end Rest

inductive ExecTransport
  | auto | rest | ssh | console | qga
  deriving DecidableEq, Repr

def ExecTransport.text : ExecTransport → String
  | .auto => "auto"
  | .rest => "rest"
  | .ssh => "ssh"
  | .console => "console"
  | .qga => "qga"

structure ExecOptions where
  via : Option ExecTransport := none
  timeout : Option ℕ := none
  deriving DecidableEq, Repr

structure ExecResult where
  output : String
  via : ExecTransport
  deriving DecidableEq, Repr

/-- A channel into the guest: whether the command got there, and what came back. -/
structure Channel where
  ran : Bool
  result : Except Thrown String

def Channel.call (channel : Channel) (via : ExecTransport) : Call ExecResult where
  elsewhere := channel.ran
  result := channel.result.map fun output => { output := output, via := via }

section Exec

variable (output : String → String)

def execSent (restUrl auth body : String) (opts : ExecOptions) : Sent where
  url := s!"{restUrl}/rest/execute"
  method := "POST"
  authorization := auth
  body := some body
  timeoutMs := opts.timeout.getD 30000

/-- What one `/execute` request comes to; `output` reads the value out of the answer. -/
def execResult (sent : Sent) (outcome : Outcome) : Except Thrown ExecResult :=
  match restPost sent outcome with
  | .error e =>
      .error (.quickchr
        { code := .EXEC_FAILED, message := s!"exec timed out or failed: {e.message}" } (some e))
  | .ok response =>
      if response.status < 200 ∨ response.status ≥ 300 then
        let data := if response.body.isEmpty then "unknown error" else response.body
        .error (.quickchr
          { code := .EXEC_FAILED, message := s!"exec failed (HTTP {response.status}): {data}" } none)
      else .ok { output := output response.body, via := .rest }

def restExecute (sent : Sent) (outcome : Outcome) : Call ExecResult where
  tries := [(sent, outcome)]
  result := execResult output sent outcome

/-- The failures that establish that the command was not sent. -/
def isExecTransportFailure : Thrown → Bool
  | .quickchr e (some cause) =>
      e.code = .EXEC_FAILED ∧ (cause.code = some .ECONNREFUSED ∨ cause.code = some .EHOSTUNREACH ∨
        cause.code = some .ENETUNREACH)
  | _ => false

def restExecuteWithRetry (sent : Sent) (outcomes : ℕ → Outcome) :
    (left attempt : ℕ) → Call ExecResult
  | left, attempt =>
      match execResult output sent (outcomes attempt) with
      | .ok result => { tries := [(sent, outcomes attempt)], result := .ok result }
      | .error e =>
          match left with
          | 0 => { tries := [(sent, outcomes attempt)], result := .error e }
          | left + 1 =>
              if isExecTransportFailure e then
                let rest := restExecuteWithRetry sent outcomes left (attempt + 1)
                { rest with tries := (sent, outcomes attempt) :: rest.tries }
              else { tries := [(sent, outcomes attempt)], result := .error e }

def exec (machine : Machine) (restUrl auth body : String) (opts : ExecOptions)
    (outcomes : ℕ → Outcome) (console qga : Channel) : Call ExecResult :=
  match opts.via.getD .auto with
  | .qga =>
      if machine.arch = .arm64 then
        { result := .error (.quickchr
            { code := .QGA_UNSUPPORTED
              message := "QEMU Guest Agent is not yet functional on ARM64 CHR — MikroTik arm64 " ++
                "guest agent support is planned but not yet released" } none) }
      else qga.call .qga
  | .console => console.call .console
  | .ssh =>
      { result := .error (.quickchr
          { code := .EXEC_FAILED
            message := s!"exec transport \"{ExecTransport.ssh.text}\" is not yet implemented" } none) }
  | .rest =>
      match assertRestAvailable machine "exec" with
      | .error e => { result := .error (.quickchr e none) }
      | .ok () => restExecute output (execSent restUrl auth body opts) (outcomes 0)
  | .auto =>
      match assertRestAvailable machine "exec" with
      | .error e => { result := .error (.quickchr e none) }
      | .ok () =>
          let sent := execSent restUrl auth body { opts with timeout := some (opts.timeout.getD 10000) }
          let call := restExecuteWithRetry output sent outcomes 3 0
          match call.result with
          | .ok _ => call
          | .error e =>
              -- only what was never sent goes to the console
              if isExecTransportFailure e then { console.call .console with tries := call.tries }
              else call

end Exec

def Outcome.isUnconnected : Outcome → Bool
  | .unconnected .. => true
  | _ => false

theorem Outcome.isUnconnected_harmless (outcome : Outcome) (h : outcome.isUnconnected) :
    ¬ outcome.processed := by
  cases outcome with
  | unconnected why message => exact Bool.false_ne_true
  | response answer => cases h
  | reset processed message => cases h
  | timeout processed => cases h

/-- An attempt fails as not sent exactly when it met no connection. -/
theorem execResult_error {output : String → String} {sent : Sent} {outcome : Outcome} {e : Thrown}
    (h : execResult output sent outcome = .error e) :
    isExecTransportFailure e = outcome.isUnconnected := by
  cases outcome with
  | response answer =>
      simp only [execResult, restPost, answered] at h
      split at h
      · cases h; rfl
      · cases h
  | unconnected why message => cases h; cases why <;> rfl
  | reset processed message => cases h; rfl
  | timeout processed => cases h; rfl

theorem execResult_ok {output : String → String} {sent : Sent} {outcome : Outcome}
    {result : ExecResult} (h : execResult output sent outcome = .ok result) :
    outcome.isUnconnected = false := by
  cases outcome with
  | unconnected why message => cases h
  | response answer => rfl
  | reset processed message => rfl
  | timeout processed => rfl

/-- The attempts of the loop, and that it fails as not sent when its last attempt does. -/
theorem restExecuteWithRetry_tries (output : String → String) (sent : Sent) (outcomes : ℕ → Outcome)
    (left attempt : ℕ) :
    (restExecuteWithRetry output sent outcomes left attempt).tries.map Prod.snd =
        Retry.attempts Outcome.isUnconnected outcomes left attempt ∧
      (restExecuteWithRetry output sent outcomes left attempt).elsewhere = false ∧
      ∀ e, (restExecuteWithRetry output sent outcomes left attempt).result = .error e →
        isExecTransportFailure e =
          (Retry.last Outcome.isUnconnected outcomes left attempt).isUnconnected := by
  induction left generalizing attempt with
  | zero =>
      unfold restExecuteWithRetry
      split
      · exact ⟨rfl, rfl, fun e fails => by cases fails⟩
      · rename_i failed
        refine ⟨rfl, rfl, fun e fails => ?_⟩
        cases fails
        exact execResult_error failed
  | succ left ih =>
      unfold restExecuteWithRetry
      rw [Retry.attempts, Retry.last]
      split
      · rename_i done
        rw [if_neg (by rw [execResult_ok done]; exact Bool.false_ne_true)]
        exact ⟨rfl, rfl, fun e fails => by cases fails⟩
      · rename_i e failed
        have same := execResult_error failed
        obtain ⟨tries, elsewhere, fails⟩ := ih (attempt + 1)
        dsimp only
        by_cases unsent : isExecTransportFailure e
        · rw [if_pos unsent, if_pos (same ▸ unsent), if_pos (same ▸ unsent)]
          exact ⟨congrArg (outcomes attempt :: ·) tries, elsewhere, fails⟩
        · rw [if_neg unsent, if_neg (same ▸ unsent), if_neg (same ▸ unsent)]
          refine ⟨rfl, rfl, fun e' fails => ?_⟩
          cases fails
          exact same

theorem restExecuteWithRetry_ok (output : String → String) (sent : Sent) (outcomes : ℕ → Outcome)
    (left attempt : ℕ) {result : ExecResult}
    (h : (restExecuteWithRetry output sent outcomes left attempt).result = .ok result) :
    (Retry.last Outcome.isUnconnected outcomes left attempt).processed := by
  have answer : ∀ {outcome : Outcome} {result : ExecResult},
      execResult output sent outcome = .ok result → outcome.processed := by
    intro outcome result ok
    cases outcome with
    | response answer => rfl
    | unconnected why message => cases ok
    | reset processed message => cases ok
    | timeout processed => cases ok
  induction left generalizing attempt with
  | zero =>
      unfold restExecuteWithRetry at h
      split at h
      · rename_i done
        exact answer done
      · cases h
  | succ left ih =>
      unfold restExecuteWithRetry at h
      rw [Retry.last]
      split at h
      · rename_i done
        rw [if_neg (by rw [execResult_ok done]; exact Bool.false_ne_true)]
        exact answer done
      · rename_i e failed
        have same := execResult_error failed
        dsimp only at h
        split at h
        · rename_i unsent
          rw [if_pos (same ▸ unsent)]
          exact ih (attempt + 1) h
        · cases h

theorem Call.deliveries_of_tries {β : Type} {call : Call β} {outcomes : List Outcome}
    (tries : call.tries.map Prod.snd = outcomes) :
    call.deliveries = outcomes.countP Outcome.processed + call.elsewhere.toNat := by
  rw [deliveries, ← tries, List.countP_map]
  rfl

/-- However its attempts end, `exec()` has its command run at most once. -/
theorem exec_delivers_at_most_once (output : String → String) (machine : Machine)
    (restUrl auth body : String) (opts : ExecOptions) (outcomes : ℕ → Outcome)
    (console qga : Channel) :
    (exec output machine restUrl auth body opts outcomes console qga).deliveries ≤ 1 := by
  have single : ∀ channel : Channel, ∀ via, (channel.call via).deliveries ≤ 1 := fun channel via =>
    (Nat.zero_add _).trans_le (Bool.toNat_le _)
  unfold exec
  split
  · split
    · exact Nat.zero_le 1
    · exact single qga .qga
  · exact single console .console
  · exact Nat.zero_le 1
  · split
    · exact Nat.zero_le 1
    · exact List.countP_le_length
  · split
    · exact Nat.zero_le 1
    · obtain ⟨tries, elsewhere, fails⟩ := restExecuteWithRetry_tries output
        (execSent restUrl auth body { opts with timeout := some (opts.timeout.getD 10000) })
        outcomes 3 0
      have count := @Retry.countP_attempts_last _ _ outcomes _ Outcome.isUnconnected_harmless 3 0
      dsimp only
      split
      · rw [Call.deliveries_of_tries tries, elsewhere, count]
        split <;> decide
      · rename_i e failed
        split
        · rename_i unsent
          have harmless := Outcome.isUnconnected_harmless _ (fails e failed ▸ unsent)
          rw [@Call.deliveries_of_tries _ { console.call .console with tries := _ } _ tries,
            count, if_neg harmless, Nat.zero_add]
          exact Bool.toNat_le _
        · rw [Call.deliveries_of_tries tries, elsewhere, count]
          split <;> decide

def Outcome.isReset : Outcome → Bool
  | .reset .. => true
  | _ => false

theorem restRequest_reset {sent : Sent} {outcome : Outcome} {e : PlainError}
    (h : restRequest sent outcome = .error e) : e.code = some .ECONNRESET ↔ outcome.isReset := by
  cases outcome with
  | response answer => cases h
  | unconnected why message =>
      cases h
      exact iff_of_false (by cases why <;> exact fun code => by cases code) Bool.false_ne_true
  | reset processed message => cases h; exact iff_of_true rfl rfl
  | timeout processed =>
      cases h
      exact iff_of_false (fun code => by cases code) Bool.false_ne_true

variable {Json : Type} {parse : String → Option Json}

theorem restLoop_tries (url : String) (opts : RequestInit) (auth : ℕ → String)
    (outcomes : ℕ → Outcome) (left attempt : ℕ) :
    (restLoop parse url opts auth outcomes left attempt).tries.map Prod.snd =
        Retry.attempts Outcome.isReset outcomes left attempt ∧
      (restLoop parse url opts auth outcomes left attempt).elsewhere = false := by
  induction left generalizing attempt with
  | zero =>
      unfold restLoop
      simp only []
      split <;> exact ⟨rfl, rfl⟩
  | succ left ih =>
      unfold restLoop
      rw [Retry.attempts]
      simp only []
      split
      · rename_i response answered
        have ended : ¬ (outcomes attempt).isReset := by
          cases at_ : outcomes attempt with
          | response answer => exact Bool.false_ne_true
          | unconnected why message => exact Bool.false_ne_true
          | reset processed message => rw [at_] at answered; cases answered
          | timeout processed => exact Bool.false_ne_true
        rw [if_neg ended]
        exact ⟨rfl, rfl⟩
      · rename_i e failed
        have again := restRequest_reset failed
        obtain ⟨tries, elsewhere⟩ := ih (attempt + 1)
        by_cases reset : e.code = some .ECONNRESET
        · rw [if_pos reset, if_pos (again.mp reset)]
          exact ⟨congrArg (outcomes attempt :: ·) tries, elsewhere⟩
        · rw [if_neg reset, if_neg fun is => reset (again.mpr is)]
          exact ⟨rfl, rfl⟩

/-- A reset that came after the server had processed the request, and after it, through resets
only, another attempt that it processed. -/
def Replayed (outcomes : ℕ → Outcome) : Prop :=
  Retry.Repeated Outcome.isReset Outcome.processed outcomes MAX_RETRIES

/-- `rest()` has its request processed at most once exactly when there is no REST, or no attempt
is made after one that the server has processed. -/
theorem rest_delivers_at_most_once (machine : Machine) (restUrl path : String) (opts : RequestInit)
    (auth : ℕ → String) (outcomes : ℕ → Outcome) :
    (rest parse machine restUrl path opts auth outcomes).deliveries ≤ 1 ↔
      isRouterOs6 machine.version ∨ ¬ Replayed outcomes := by
  unfold rest assertRestAvailable
  cases old : isRouterOs6 machine.version with
  | true => exact iff_of_true (Nat.zero_le 1) (.inl rfl)
  | false =>
      obtain ⟨tries, elsewhere⟩ := @restLoop_tries _ parse
        (s!"{restUrl}/rest" ++ (if Text.startsWith path "/" then path else "/" ++ path))
        opts auth outcomes MAX_RETRIES 0
      simp only [Bool.not_false, if_true, Bool.false_eq_true, false_or]
      rw [Call.deliveries_of_tries tries, elsewhere, Bool.toNat_false, Nat.add_zero,
        Retry.countP_attempts, Replayed]

/-- The user record is created before the connection is reset, and again by the next attempt. -/
def replayedOutcomes : ℕ → Outcome
  | 0 => .reset true "socket hang up"
  | _ => .response { status := 201, body := "" }

theorem rest_delivers_at_most_once_fails :
    Text.toUpperCase ((some "PUT").getD "GET") ∈ ["POST", "PUT"] ∧
      (rest (fun _ => (none : Option Unit)) { name := "r1", version := "7.22", arch := .x86 }
        "http://127.0.0.1:9100" "/user" { method := some "PUT", body := some "\x7b\"name\":\"u\"\x7d" }
        (fun _ => "Basic YWRtaW46") replayedOutcomes).deliveries = 2 := by
  decide +kernel

end Quickchr
