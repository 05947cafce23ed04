import Quickchr.Lib.Polling
import Quickchr.RestDelivery

/-!
# Commands over the serial console

`consoleExec` writes the command and, as a line of its own, one that has the guest print a marker.
The reply ends where the marker shows; failing that, where a prompt stands last and stays, or the
stream has ended.
-/
namespace Quickchr

def PROMPT_PATTERN : List Char := "] > ".toList

def isAnsiParameter (c : Char) : Bool := c.isDigit ∨ c = ';'

/-- The rest of the text after an escape sequence, for what follows the escape character. -/
def afterEscape : List Char → Option (List Char)
  | '[' :: text =>
      match text.dropWhile isAnsiParameter with
      | '?' :: text' =>
          -- the mark of a private sequence stands first
          if text.head? = some '?' then
            match text'.dropWhile isAnsiParameter with
            | c :: rest => if c = 'h' ∨ c = 'l' ∨ c = 'm' then some rest else none
            | [] => none
          else none
      | c :: rest => if c.isAlpha then some rest else none
      | [] => none
  | ']' :: text => if '\x07' ∈ text then some (text.dropWhile (· ≠ '\x07')).tail else none
  | '(' :: c :: rest => if c.isDigit ∨ c = 'A' ∨ c = 'B' then some rest else none
  | ')' :: c :: rest => if c.isDigit ∨ c = 'A' ∨ c = 'B' then some rest else none
  | '>' :: rest => some rest
  | '=' :: rest => some rest
  | '<' :: rest => some rest
  | _ => none

/-- `stripAnsi` of a text of at most so many characters. -/
def stripAnsiWithin : ℕ → List Char → List Char
  | 0, text => text
  | _ + 1, [] => []
  | n + 1, c :: text =>
      if c = '\x1b' then
        match afterEscape text with
        | some rest => stripAnsiWithin n rest
        | none => c :: stripAnsiWithin n text
      else c :: stripAnsiWithin n text

def stripAnsi (text : List Char) : List Char := stripAnsiWithin text.length text

def trimmed (text : List Char) : List Char := (Text.trim (String.ofList text)).toList

/-- The prompt at `i` is the last thing in the text, but for what only paints. -/
def isTrailingPrompt (text : List Char) (i : ℕ) : Bool :=
  (trimmed (stripAnsi (text.drop (i + PROMPT_PATTERN.length)))).isEmpty

def trailingPrompt (text : List Char) : Option ℕ :=
  match Text.lastIndexOf PROMPT_PATTERN text with
  | some i => if isTrailingPrompt text i then some i else none
  | none => none

/-- What is in the buffer of the session at one look, from the command on. -/
structure Look where
  reply : List Char
  streamDone : Bool
  deriving DecidableEq, Repr

/-- The looks of one wait. Nothing can arrive between the command and the first of them. -/
structure Looks where
  look : ℕ → Look
  clock : Polling.Clock
  first : (look 0).reply = []
  grows : ∀ i, (look i).reply <+: (look (i + 1)).reply

def FALLBACK_PROMPT_STABLE_MS : ℕ := 2000

def MIN_PROMPT_STABLE_MS : ℕ := 250

def promptStableWindow (timeoutMs : ℕ) : ℕ :=
  min FALLBACK_PROMPT_STABLE_MS (max MIN_PROMPT_STABLE_MS (timeoutMs / 8))

inductive ReplyEnd
  | sentinel (index : ℕ)
  | prompt (index : ℕ)
  deriving DecidableEq, Repr

def ReplyEnd.index : ReplyEnd → ℕ
  | .sentinel index => index
  | .prompt index => index

def ReplyEnd.framed : ReplyEnd → Bool
  | .sentinel _ => true
  | .prompt _ => false

/-- When the reply was last seen to have grown, as of look `i`. -/
def Looks.lastGrowthAt (looks : Looks) : ℕ → ℕ
  | 0 => 0
  | i + 1 =>
      if (looks.look i).reply.length < (looks.look (i + 1)).reply.length then
        looks.clock.now (i + 1)
      else looks.lastGrowthAt i

def Looks.quiet (looks : Looks) (stableMs i : ℕ) : Bool :=
  stableMs ≤ looks.clock.now i - looks.lastGrowthAt i

/-- What look `i` decides: that the reply has ended, or, with no end of it, that none will come. -/
def Looks.decide (looks : Looks) (marker : List Char) (stableMs i : ℕ) :
    Option (Option (ReplyEnd × List Char)) :=
  match Text.indexOf marker (looks.look i).reply with
  | some index => some (some (.sentinel index, (looks.look i).reply))
  | none =>
      match trailingPrompt (looks.look i).reply with
      | some index =>
          if looks.quiet stableMs i ∨ (looks.look i).streamDone then
            some (some (.prompt index, (looks.look i).reply))
          else none
      | none => if (looks.look i).streamDone then some none else none

/-- The end of the reply, and the buffer it was found in. -/
def waitForReplyEnd (looks : Looks) (marker : List Char) (timeoutMs : ℕ) :
    Option (ReplyEnd × List Char) :=
  Polling.poll looks.clock timeoutMs (looks.decide marker (promptStableWindow timeoutMs))
    (fun _ => none) 0

/-- Split at `\n`, with a `\r` before it or without. -/
def splitLines (text : List Char) : List (List Char) :=
  let pieces := text.splitOn '\n'
  pieces.dropLast.map (fun line => if line.getLast? = some '\r' then line.dropLast else line) ++
    pieces.getLast?.toList

/-- The line is the command as the terminal repeated it. -/
def isEcho (command : String) (line : List Char) : Bool :=
  let cmdPrefix := (Text.utf16 (Text.trim command).toList).take 24
  (Text.indexOf PROMPT_PATTERN line).isSome ∨
    (cmdPrefix ≠ [] ∧ cmdPrefix.isPrefixOf (Text.utf16 (line.dropWhile Text.isSpace)))

def isBlank (line : List Char) : Bool := (trimmed line).isEmpty

/-- The lines without those that hold the nonce, the echo and the prompts after the output. -/
def outputLines (command : String) (nonce : List Char) (raw : List Char) : List (List Char) :=
  let lines := (splitLines (stripAnsi raw)).filter fun line => (Text.indexOf nonce line).isNone
  let lines :=
    match lines with
    | first :: rest => if isEcho command first then rest else lines
    | [] => []
  (lines.dropWhile isBlank).rdropWhile fun line =>
    isBlank line || (trimmed PROMPT_PATTERN).isSuffixOf (trimmed line)

def extractOutput (raw : List Char) (command : String) (nonce : List Char) : String :=
  Text.trim (Text.join "\n" ((outputLines command nonce raw).map String.ofList))

structure Sentinel where
  command : List Char
  marker : List Char
  nonce : List Char

/-- The guest puts the marker together, so that the echo of the line does not hold it. -/
def makeSentinel (nonce : List Char) : Sentinel where
  command := ":put (\"QCHR\" . \"".toList ++ nonce ++ "\" . \"END\")".toList
  marker := "QCHR".toList ++ nonce ++ "END".toList
  nonce := nonce

/-- What follows the command: whether the guest has read its line, and what came back. The marker
is printed by the line after it. -/
structure Conversation (nonce : List Char) where
  received : Bool
  looks : Looks
  marked : ∀ i, (makeSentinel nonce).marker <:+: (looks.look i).reply → received

/-- What opening the channel and logging in comes to. -/
inductive Attach (nonce : List Char)
  | noChannel
  | refused
  | failed (error : PlainError)
  | noPrompt
  | loggedIn (conversation : Conversation nonce)

structure ConsoleExecResult where
  output : String
  framed : Bool
  deriving DecidableEq, Repr

/-- A finished `consoleExec`: whether the guest has read the command, and what was returned. -/
structure ConsoleRun where
  received : Bool
  result : Except Thrown ConsoleExecResult

/-- The reply up to the line on which its end was found. -/
def rawOutput (index : ℕ) (reply : List Char) : List Char :=
  match Text.lastIndexOf ['\n'] (reply.take (index + 1)) with
  | some lineStart => reply.take lineStart
  | none => reply.take index

def consoleExec (nonce : List Char) (command : String) (timeoutMs : ℕ) :
    Attach nonce → ConsoleRun
  | .noChannel =>
      { received := false
        result := .error (.quickchr
          { code := .MACHINE_STOPPED
            message := "Serial socket not found — is the machine running in background mode?" } none) }
  | .refused =>
      { received := false
        result := .error (.quickchr
          { code := .MACHINE_STOPPED
            message := "Serial channel not found — is the machine running in background mode?" } none) }
  | .failed error => { received := false, result := .error (.plain error) }
  | .noPrompt =>
      { received := false
        result := .error (.quickchr
          { code := .BOOT_TIMEOUT
            message := "Console exec: could not reach CLI prompt (login timed out)" } none) }
  | .loggedIn conversation =>
      { received := conversation.received
        result :=
          match waitForReplyEnd conversation.looks (makeSentinel nonce).marker timeoutMs with
          | none => .error (.quickchr
              { code := .BOOT_TIMEOUT
                message := "Console exec: no end-of-reply sentinel and no prompt after command " ++
                  s!"(timed out after {timeoutMs}ms)" } none)
          | some (ended, reply) =>
              .ok { output := extractOutput (rawOutput ended.index reply) command nonce
                    framed := ended.framed } }

/-- The console as the channel that `exec()` falls back to, which drops how the reply ended. -/
def ConsoleRun.channel (run : ConsoleRun) : Channel where
  ran := run.received
  result := run.result.map (·.output)

/-- At look `n` a prompt stands last, and stays or the stream has ended; no look before it had one
or the end of the stream, and none was too late. -/
structure TakenForEnd (looks : Looks) (timeoutMs n : ℕ) : Prop where
  prompt : (trailingPrompt (looks.look n).reply).isSome
  settled : looks.quiet (promptStableWindow timeoutMs) n ∨ (looks.look n).streamDone
  open_ : ∀ j < n, (looks.look j).streamDone = false ∧ looks.clock.now j < timeoutMs
  unsettled : ∀ j < n, (trailingPrompt (looks.look j).reply).isSome →
    looks.quiet (promptStableWindow timeoutMs) j = false

section ReplyEnd

variable {looks : Looks} {marker : List Char} {timeoutMs : ℕ}

theorem Looks.decide_unmarked {stableMs i : ℕ}
    (unmarked : Text.indexOf marker (looks.look i).reply = none) :
    (looks.decide marker stableMs i = none ↔ (looks.look i).streamDone = false ∧
        ((trailingPrompt (looks.look i).reply).isSome → looks.quiet stableMs i = false)) ∧
      ((∃ ended, looks.decide marker stableMs i = some (some ended)) ↔
        (trailingPrompt (looks.look i).reply).isSome ∧
          (looks.quiet stableMs i ∨ (looks.look i).streamDone)) := by
  unfold Looks.decide
  rw [unmarked]
  cases prompt : trailingPrompt (looks.look i).reply with
  | none => cases (looks.look i).streamDone <;> simp
  | some index =>
      cases (looks.look i).streamDone <;> cases looks.quiet stableMs i <;> simp

theorem waitForReplyEnd_unmarked
    (unmarked : ∀ i, Text.indexOf marker (looks.look i).reply = none) :
    (∃ ended, waitForReplyEnd looks marker timeoutMs = some ended) ↔
      ∃ n, TakenForEnd looks timeoutMs n := by
  have decides := fun i => @Looks.decide_unmarked looks marker (promptStableWindow timeoutMs) i
    (unmarked i)
  constructor
  · rintro ⟨ended, eq⟩
    obtain ⟨n, -, decided, before⟩ :=
      Polling.decided_of_poll eq fun i late => by cases late
    obtain ⟨prompt, settled⟩ := (decides n).2.mp ⟨ended, decided⟩
    refine ⟨n, prompt, settled, fun j earlier => ?_, fun j earlier => ?_⟩
    · obtain ⟨undecided, early⟩ := before j (Nat.zero_le j) earlier
      exact ⟨((decides j).1.mp undecided).1, early⟩
    · exact ((decides j).1.mp (before j (Nat.zero_le j) earlier).1).2
  · rintro ⟨n, taken⟩
    obtain ⟨ended, decided⟩ := (decides n).2.mpr ⟨taken.prompt, taken.settled⟩
    have stop : Polling.StopsAt looks.clock timeoutMs
        (looks.decide marker (promptStableWindow timeoutMs)) 0 n :=
      ⟨Nat.zero_le n, fun j _ earlier => ⟨(decides j).1.mpr
        ⟨(taken.open_ j earlier).1, taken.unsettled j earlier⟩, (taken.open_ j earlier).2⟩,
        .inl (by rw [decided]; exact fun none => by cases none)⟩
    refine ⟨ended, ?_⟩
    rw [waitForReplyEnd, Polling.poll_at stop, decided]
    rfl

end ReplyEnd

/-- A session in which the guest never read the command, and a prompt was taken for the end of its
reply. -/
def Unread {nonce : List Char} (timeoutMs : ℕ) : Attach nonce → Prop
  | .loggedIn conversation =>
      conversation.received = false ∧ ∃ n, TakenForEnd conversation.looks timeoutMs n
  | _ => False

theorem Conversation.unmarked {nonce : List Char} {conversation : Conversation nonce}
    (unread : conversation.received = false) (i : ℕ) :
    Text.indexOf (makeSentinel nonce).marker (conversation.looks.look i).reply = none := by
  cases found : Text.indexOf (makeSentinel nonce).marker (conversation.looks.look i).reply with
  | none => rfl
  | some index =>
      have read := conversation.marked i (Text.infix_of_indexOf found)
      rw [unread] at read
      exact absurd read Bool.false_ne_true

/-- `consoleExec` returns a result for a command that was not read only in such a session. -/
theorem consoleExec_unread_iff {nonce : List Char} {command : String} {timeoutMs : ℕ}
    {attach : Attach nonce} :
    ((∃ result, (consoleExec nonce command timeoutMs attach).result = .ok result) ∧
        (consoleExec nonce command timeoutMs attach).received = false) ↔
      Unread timeoutMs attach := by
  cases attach with
  | noChannel => exact iff_of_false (fun h => by obtain ⟨_, ok⟩ := h.1; cases ok) id
  | refused => exact iff_of_false (fun h => by obtain ⟨_, ok⟩ := h.1; cases ok) id
  | failed error => exact iff_of_false (fun h => by obtain ⟨_, ok⟩ := h.1; cases ok) id
  | noPrompt => exact iff_of_false (fun h => by obtain ⟨_, ok⟩ := h.1; cases ok) id
  | loggedIn conversation =>
      rw [and_comm]
      refine and_congr_right fun unread => ?_
      rw [← waitForReplyEnd_unmarked (conversation.unmarked unread)]
      simp only [consoleExec]
      cases waitForReplyEnd conversation.looks (makeSentinel nonce).marker timeoutMs with
      | none => simp
      | some ended => simp

def executeBody (command : String) : String :=
  "\x7b\"script\":" ++ Text.json command ++ ",\"as-string\":true\x7d"

/-- None of the attempts over REST met a connection. -/
def Unreachable (outcomes : ℕ → Outcome) : Prop := ∀ i ≤ 3, (outcomes i).isUnconnected

section Auto

variable (output : String → String) (machine : Machine) (restUrl auth command : String)
  {opts : ExecOptions} (outcomes : ℕ → Outcome) (qga : Channel) {nonce : List Char}
  (attach : Attach nonce)

/-- `exec()` with the console it falls back to. -/
def autoExec (opts : ExecOptions) : Call ExecResult :=
  exec output machine restUrl auth (executeBody command) opts outcomes
    (consoleExec nonce command (opts.timeout.getD 30000) attach).channel qga

/-- The command is run at most once, and where `exec()` returns a result exactly once, if and only
if it does not come to a console that takes a prompt for the reply to a command it never read. -/
theorem autoExec_delivers_iff (auto : opts.via.getD .auto = .auto) :
    ((autoExec output machine restUrl auth command outcomes qga attach opts).deliveries ≤ 1 ∧
      ∀ result, (autoExec output machine restUrl auth command outcomes qga attach opts).result =
          .ok result →
        (autoExec output machine restUrl auth command outcomes qga attach opts).deliveries = 1) ↔
      ¬ (isRouterOs6 machine.version = false ∧ Unreachable outcomes ∧
        Unread (opts.timeout.getD 30000) attach) := by
  unfold autoExec
  rw [and_iff_right (exec_delivers_at_most_once ..)]
  unfold exec
  simp only [auto]
  unfold assertRestAvailable
  cases old : isRouterOs6 machine.version with
  | true => exact iff_of_true (fun result ok => by cases ok) fun h => by cases h.1
  | false =>
      have unread := @consoleExec_unread_iff nonce command (opts.timeout.getD 30000) attach
      generalize consoleExec nonce command (opts.timeout.getD 30000) attach = console at unread ⊢
      generalize execSent restUrl auth (executeBody command)
        { opts with timeout := some (opts.timeout.getD 10000) } = sent
      obtain ⟨tries, elsewhere, fails⟩ := restExecuteWithRetry_tries output sent outcomes 3 0
      have answered := fun result => @restExecuteWithRetry_ok output sent outcomes 3 0 result
      have count := @Retry.countP_attempts_last _ _ outcomes _ Outcome.isUnconnected_harmless 3 0
      have unreachable : (Retry.last Outcome.isUnconnected outcomes 3 0).isUnconnected ↔
          Unreachable outcomes := by
        simpa only [Nat.zero_add, Unreachable] using
          @Retry.last_again _ Outcome.isUnconnected outcomes 3 0
      simp only [Bool.not_false, if_true, true_and]
      cases ended : (restExecuteWithRetry output sent outcomes 3 0).result with
      | ok result =>
          have processed := answered result ended
          refine iff_of_true (fun _ _ => ?_) fun both => ?_
          · rw [Call.deliveries_of_tries tries, elsewhere, count, if_pos processed]
            rfl
          · exact Outcome.isUnconnected_harmless _ (unreachable.mpr both.1) processed
      | error e =>
          have same := fails e ended
          by_cases unsent : isExecTransportFailure e
          · have last := same ▸ unsent
            have harmless := Outcome.isUnconnected_harmless _ last
            simp only [if_pos unsent]
            rw [@Call.deliveries_of_tries _ { console.channel.call .console with tries := _ } _ tries,
              count, if_neg harmless, Nat.zero_add, ← unread, and_iff_right (unreachable.mp last)]
            cases read : console.received with
            | true => exact iff_of_true (fun _ _ => by
                rw [ConsoleRun.channel, Channel.call, read, Bool.toNat_true]) fun h => by cases h.2
            | false =>
                cases result : console.result with
                | ok reply =>
                    refine iff_of_false (fun once => ?_) (not_not.mpr ⟨⟨reply, rfl⟩, rfl⟩)
                    have one := once { output := reply.output, via := .console } (by
                      rw [ConsoleRun.channel, Channel.call, result]
                      rfl)
                    rw [ConsoleRun.channel, Channel.call, read, Bool.toNat_false] at one
                    exact Nat.zero_ne_one one
                | error e' =>
                    refine iff_of_true (fun r ok => ?_) fun h => by obtain ⟨⟨_, ok⟩, -⟩ := h; cases ok
                    rw [ConsoleRun.channel, Channel.call, result] at ok
                    cases ok
          · simp only [if_neg unsent]
            refine iff_of_true (fun result ok => ?_) fun both => ?_
            · rw [ended] at ok
              cases ok
            · exact unsent (same ▸ unreachable.mpr both.1)

end Auto

def r1 : Machine where
  name := "r1"
  version := "7.22"
  arch := .x86

/-- The web server of the guest is not up yet at the first attempt. -/
def answeredOutcomes : ℕ → Outcome
  | 0 => .unconnected .refused "connect ECONNREFUSED 127.0.0.1:9100"
  | _ => .response { status := 200, body := "[]" }

theorem autoExec_delivers_answered :
    (autoExec id r1 "http://127.0.0.1:9100" "Basic YWRtaW46" "/log/info message=up"
        answeredOutcomes ⟨false, .ok ""⟩ (.noChannel : Attach ['a']) {}).deliveries ≤ 1 ∧
      ∀ result, (autoExec id r1 "http://127.0.0.1:9100" "Basic YWRtaW46" "/log/info message=up"
          answeredOutcomes ⟨false, .ok ""⟩ (.noChannel : Attach ['a']) {}).result = .ok result →
        (autoExec id r1 "http://127.0.0.1:9100" "Basic YWRtaW46" "/log/info message=up"
          answeredOutcomes ⟨false, .ok ""⟩ (.noChannel : Attach ['a']) {}).deliveries = 1 :=
  (autoExec_delivers_iff id r1 "http://127.0.0.1:9100" "Basic YWRtaW46" "/log/info message=up"
    answeredOutcomes ⟨false, .ok ""⟩ (.noChannel : Attach ['a']) rfl).mpr fun h => h.2.2

def pollClock : Polling.Clock where
  now i := 50 * i
  advances i := by omega

/-- The second drawing of the prompt after a login, and QEMU gone with it. -/
def promptRedrawn : Looks where
  look
    | 0 => { reply := [], streamDone := false }
    | _ + 1 => { reply := "\r[admin@MikroTik] > ".toList, streamDone := true }
  clock := pollClock
  first := rfl
  grows i := by
    cases i with
    | zero => exact List.nil_prefix
    | succ i => exact List.prefix_rfl

def goneGuest : Conversation ['a'] where
  received := false
  looks := promptRedrawn
  marked i shown := by
    have marker : 'Q' ∈ (makeSentinel ['a']).marker := by decide
    have drawn := shown.subset marker
    cases i with
    | zero => cases drawn
    | succ i => exact absurd drawn (by decide : 'Q' ∉ "\r[admin@MikroTik] > ".toList)

theorem goneGuest_unread : Unread 30000 (.loggedIn goneGuest) := by
  refine ⟨rfl, 1, by decide, .inr rfl, fun j before => ?_, fun j before shown => ?_⟩
  · rw [Nat.lt_one_iff.mp before]
    exact ⟨rfl, by decide⟩
  · rw [Nat.lt_one_iff.mp before] at shown
    cases shown

theorem autoExec_delivers_fails :
    ¬ ((autoExec id r1 "http://127.0.0.1:9100" "Basic YWRtaW46" "/log/info message=up"
        (fun _ => .unconnected .refused "connect ECONNREFUSED 127.0.0.1:9100") ⟨false, .ok ""⟩
        (.loggedIn goneGuest) {}).deliveries ≤ 1 ∧
      ∀ result, (autoExec id r1 "http://127.0.0.1:9100" "Basic YWRtaW46" "/log/info message=up"
          (fun _ => .unconnected .refused "connect ECONNREFUSED 127.0.0.1:9100") ⟨false, .ok ""⟩
          (.loggedIn goneGuest) {}).result = .ok result →
        (autoExec id r1 "http://127.0.0.1:9100" "Basic YWRtaW46" "/log/info message=up"
          (fun _ => .unconnected .refused "connect ECONNREFUSED 127.0.0.1:9100") ⟨false, .ok ""⟩
          (.loggedIn goneGuest) {}).deliveries = 1) := by
  rintro ⟨-, once⟩
  obtain ⟨⟨reply, ok⟩, -⟩ := (@consoleExec_unread_iff _ "/log/info message=up" 30000 _).mpr
    goneGuest_unread
  refine absurd (once { output := reply.output, via := .console } ?_) (by decide)
  show ((consoleExec ['a'] "/log/info message=up" 30000 (.loggedIn goneGuest)).channel.call
    .console).result = _
  rw [ConsoleRun.channel, Channel.call, ok]
  rfl

end Quickchr
