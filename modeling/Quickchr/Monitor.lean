import Quickchr.ConsoleOutput
import Quickchr.MachineState
import Quickchr.Lib.Marker
import Quickchr.Lib.Utf8

/-!
# The QEMU monitor

A command is written to the monitor once the monitor has prompted, and its response ends with the next prompt.
The monitor repeats a command piece by piece before it answers, with sequences that only paint. Bytes arrive in
chunks that follow neither the prompts nor the lines.
-/
namespace Quickchr.Monitor

open Utf8

def PROMPT : List Char := "(qemu)".toList

/-- The rest of the text after the parameters of an escape sequence and its letter. -/
def afterParameters (text : List Char) : Option (List Char) :=
  match text.dropWhile isAnsiParameter with
  | c :: rest => if c.isAlpha then some rest else none
  | [] => none

/-- The rest of the text after an escape sequence at its beginning. -/
def escaped : List Char → Option (List Char)
  | '\x1b' :: '[' :: text => afterParameters text
  | _ => none

theorem suffix_escaped {text rest : List Char} (h : escaped text = some rest) :
    rest <:+ text ∧ rest.length < text.length := by
  unfold escaped afterParameters at h
  split at h
  · rename_i text'
    have behind := @List.dropWhile_suffix _ text' isAnsiParameter
    split at h
    · rename_i c rest' dropped
      rw [dropped] at behind
      split at h
      · cases h
        have later : rest <:+ '\x1b' :: '[' :: text' :=
          (List.suffix_cons c rest).trans (behind.trans ((List.suffix_cons _ _).trans (List.suffix_cons _ _)))
        have shorter := behind.length_le
        refine ⟨later, ?_⟩
        simp only [List.length_cons] at shorter ⊢
        omega
      · cases h
    · cases h
  · cases h

def stripEscapes (text : List Char) : List Char :=
  match _found : escaped text with
  | some rest => stripEscapes rest
  | none =>
      match text with
      | [] => []
      | c :: text => c :: stripEscapes text
termination_by text.length
decreasing_by
  · exact (suffix_escaped _found).2
  · exact Nat.lt_succ_self _

def cleanMonitorResponse (raw : List Char) : String := ConsoleOutput.textOf (splitLines (stripEscapes raw)).tail

/-- Every prompt taken out, with the white space after it. -/
def removePrompts (text : List Char) : List Char :=
  match _found : text.dropPrefix? PROMPT with
  | some rest => removePrompts (rest.dropWhile Text.isSpace)
  | none =>
      match text with
      | [] => []
      | c :: text => c :: removePrompts text
termination_by text.length
decreasing_by
  · have shorter := (@List.dropWhile_suffix _ rest Text.isSpace).length_le
    rw [Text.dropPrefix?_eq_some _found, List.length_append]
    have : 0 < PROMPT.length := by decide
    omega
  · exact Nat.lt_succ_self _

structure MonitorPhaseTimings where
  connectedAtMs : Option ℕ := none
  firstByteAtMs : Option ℕ := none
  promptAtMs : Option ℕ := none
  commandWrittenAtMs : Option ℕ := none
  responseFirstByteAtMs : Option ℕ := none
  bytesReceived : ℕ := 0

def newMonitorPhaseTimings : MonitorPhaseTimings := {}

def summarizeMonitorPhases (t : MonitorPhaseTimings) : String :=
  let ms (v : Option ℕ) : String := v.elim "never" fun v => s!"{v}ms"
  s!"connect={ms t.connectedAtMs} first-byte={ms t.firstByteAtMs} prompt={ms t.promptAtMs} " ++
    s!"command-written={ms t.commandWrittenAtMs} response-first-byte={ms t.responseFirstByteAtMs} " ++
    s!"bytes={t.bytesReceived}"

inductive Event
  | connect (atMs : ℕ)
  | data (atMs : ℕ) (chunk : List UInt8)
  | close
  | error (code : Option String) (message : String)
  | timer

structure State where
  buffer : List Char := []
  sentCommand : Bool := false
  /-- What was written to the socket. -/
  written : List String := []
  phases : MonitorPhaseTimings := newMonitorPhaseTimings
  settled : Option (Except QuickCHRError String) := none

/-- Only the first call has an effect. -/
def State.settle (s : State) (result : Except QuickCHRError String) : State :=
  { s with settled := s.settled.or (some result) }

section

variable (command : String) (timeoutMs : ℕ)

def State.receive (s : State) (since : ℕ) (chunk : List UInt8) : State :=
  { s with
    buffer := s.buffer ++ decode chunk
    phases := { s.phases with
      bytesReceived := s.phases.bytesReceived + chunk.length
      firstByteAtMs := s.phases.firstByteAtMs.or (some since)
      responseFirstByteAtMs :=
        if s.sentCommand then s.phases.responseFirstByteAtMs.or (some since) else s.phases.responseFirstByteAtMs } }

def State.send (s : State) (since : ℕ) : State :=
  { s with
    sentCommand := true
    buffer := []
    written := s.written ++ [command ++ "\n"]
    phases := { s.phases with promptAtMs := some since, commandWrittenAtMs := some since } }

def State.response (s : State) : String := cleanMonitorResponse (removePrompts s.buffer)

def next (s : State) : Event → State
  | .connect since => { s with phases := { s.phases with connectedAtMs := some since } }
  | .data since chunk =>
      let s := s.receive since chunk
      if (Text.indexOf PROMPT s.buffer).isSome then
        if s.sentCommand then s.settle (.ok s.response) else s.send command since
      else s
  | .close =>
      if s.sentCommand then s.settle (.ok s.response)
      else s.settle (.error
        { code := .MACHINE_STOPPED
          message := "Monitor socket closed before command could be sent — " ++ summarizeMonitorPhases s.phases })
  | .error code message =>
      if code = some "ENOENT" ∨ code = some "ECONNREFUSED" then s.settle (.error
        { code := .MACHINE_STOPPED
          message := "Monitor not available — is the machine running in background mode?" })
      else s.settle (.error { code := .PROCESS_FAILED, message := "Monitor connection failed: " ++ message })
  | .timer => s.settle (.error
      { code := .BOOT_TIMEOUT
        message := s!"Monitor command timed out after {timeoutMs}ms: \"{command}\" — " ++
          summarizeMonitorPhases s.phases })

def monitorCommand (events : List Event) : State := events.foldl (next command timeoutMs) {}

end

/-- A banner with the first prompt, and what follows the command: its echo, the rows of the response and the
next prompt. -/
structure Dialogue where
  banner : List Char
  echo : List Char
  rows : List (List Char)
  banner_open : ¬ PROMPT <:+: banner
  echo_line : '\n' ∉ echo
  row_plain : ∀ row ∈ rows, '\n' ∉ row ∧ '\x1b' ∉ row
  response_open : ¬ PROMPT <:+: ' ' :: (echo ++ '\r' :: '\n' :: rows.flatMap (· ++ ['\r', '\n']))

def Dialogue.greeting (d : Dialogue) : List Char := d.banner ++ PROMPT ++ [' ']

def Dialogue.body (d : Dialogue) : List Char := d.echo ++ '\r' :: '\n' :: d.rows.flatMap (· ++ ['\r', '\n'])

def Dialogue.reply (d : Dialogue) : List Char := d.body ++ PROMPT ++ [' ']

def Dialogue.response (d : Dialogue) : String := ConsoleOutput.textOf d.rows

def arriving (chunks : List (ℕ × List UInt8)) : List Event := chunks.map fun chunk => .data chunk.1 chunk.2

def texts (chunks : List (ℕ × List UInt8)) : List Char := decodeAll (chunks.map Prod.snd)

/-- The chunks of a dialogue, none of which begins inside a character. The monitor replies to the command, so
its reply comes after the chunks that end the first prompt; the space behind that prompt may come later too. -/
structure Chunks (d : Dialogue) where
  greeting : List (ℕ × List UInt8)
  reply : List (ℕ × List UInt8)
  space : List Char
  rest : List Char
  whole_space : space ++ rest = [' ']
  greeting_eq : (greeting.map Prod.snd).flatten = encode (d.banner ++ PROMPT ++ space)
  reply_eq : (reply.map Prod.snd).flatten = encode (rest ++ d.reply)
  aligned : ∀ chunk ∈ greeting ++ reply, ∀ b, chunk.2.head? = some b → isContinuation b = false

theorem afterParameters_newline (text more : List Char) :
    afterParameters (text ++ '\n' :: more) = (afterParameters text).map (· ++ '\n' :: more) := by
  unfold afterParameters
  rw [List.dropWhile_append]
  cases dropped : text.dropWhile isAnsiParameter with
  | nil =>
      have stops : ('\n' :: more).dropWhile isAnsiParameter = '\n' :: more :=
        List.dropWhile_cons_of_neg (by decide)
      simp [stops, show '\n'.isAlpha = false by decide]
  | cons c rest => cases letter : c.isAlpha <;> simp [letter]

theorem escaped_newline (text more : List Char) :
    escaped (text ++ '\n' :: more) = (escaped text).map (· ++ '\n' :: more) := by
  rw [escaped.eq_def text]
  split
  · rename_i text
    exact afterParameters_newline text more
  · rename_i other
    unfold escaped
    split
    · rename_i text' same
      match text, other, same with
      | [], _, same => exact absurd (List.cons.inj same).1 (by decide)
      | [c], _, same => exact absurd (List.cons.inj (List.cons.inj same).2).1 (by decide)
      | c :: c' :: text, other, same =>
          obtain ⟨rfl, second⟩ := List.cons.inj same
          obtain ⟨rfl, -⟩ := List.cons.inj second
          exact absurd rfl (other text)
    · rfl

theorem stripEscapes_nil : stripEscapes [] = [] := by
  rw [stripEscapes]
  rfl

theorem stripEscapes_some {text rest : List Char} (h : escaped text = some rest) :
    stripEscapes text = stripEscapes rest := by
  rw [stripEscapes.eq_def]
  split
  · rename_i rest' found
    rw [h] at found
    cases found
    rfl
  · rename_i found
    rw [h] at found
    cases found

theorem stripEscapes_cons {c : Char} {text : List Char} (h : escaped (c :: text) = none) :
    stripEscapes (c :: text) = c :: stripEscapes text := by
  rw [stripEscapes.eq_def]
  split
  · rename_i rest found
    rw [h] at found
    cases found
  · rfl

theorem stripEscapes_newline (text more : List Char) :
    stripEscapes (text ++ '\n' :: more) = stripEscapes text ++ '\n' :: stripEscapes more := by
  fun_induction stripEscapes text with
  | case1 text rest found ih =>
      have some : escaped (text ++ '\n' :: more) = some (rest ++ '\n' :: more) := by
        rw [escaped_newline, found]
        rfl
      rw [stripEscapes_some some, ih]
  | case2 found => exact stripEscapes_cons (by rw [← List.nil_append ('\n' :: more), escaped_newline, found]; rfl)
  | case3 c text found ih =>
      have none : escaped (c :: (text ++ '\n' :: more)) = none := by
        rw [← List.cons_append, escaped_newline, found]
        rfl
      rw [List.cons_append, stripEscapes_cons none, ih]
      rfl

theorem stripEscapes_eq_self {text : List Char} (plain : '\x1b' ∉ text) : stripEscapes text = text := by
  induction text with
  | nil => exact stripEscapes_nil
  | cons c text ih =>
      rw [List.mem_cons, not_or] at plain
      have none : escaped (c :: text) = none := by
        unfold escaped
        split
        · rename_i same
          exact absurd (List.cons.inj same).1.symm plain.1
        · rfl
      rw [stripEscapes_cons none, ih plain.2]

theorem mem_of_mem_stripEscapes {c : Char} {text : List Char} (h : c ∈ stripEscapes text) : c ∈ text := by
  fun_induction stripEscapes text with
  | case1 text rest found ih => exact (suffix_escaped found).1.subset (ih h)
  | case2 found => exact h
  | case3 d text found ih =>
      rcases List.mem_cons.mp h with rfl | later
      · exact List.mem_cons_self
      · exact List.mem_cons_of_mem d (ih later)

theorem splitLines_tail {front : List Char} (one : '\n' ∉ front) (text : List Char) :
    (splitLines (front ++ '\n' :: text)).tail = splitLines text := by
  have some := List.splitOn_ne_nil '\n' text
  rw [splitLines, splitLines, List.splitOn_append_cons_self_of_not_mem one]
  rw [List.dropLast_cons_of_ne_nil some, List.map_cons, List.getLast?_cons_of_ne_nil some]
  rfl

theorem splitLines_rows {rows : List (List Char)} (clean : ∀ row ∈ rows, '\n' ∉ row) :
    splitLines (rows.flatMap (· ++ ['\r', '\n'])) = rows ++ [[]] := by
  induction rows with
  | nil => exact ConsoleOutput.splitLines_singleton List.not_mem_nil
  | cons row rows ih =>
      obtain ⟨first, others⟩ := List.forall_mem_cons.mp clean
      rw [List.flatMap_cons, List.append_assoc]
      exact (ConsoleOutput.splitLines_cons first _).trans (congrArg (row :: ·) (ih others))

/-- The response is what the rows say, whatever stands before the end of the echo. -/
theorem Dialogue.clean (d : Dialogue) {lead : List Char} (line : '\n' ∉ lead) :
    cleanMonitorResponse (lead ++ d.body) = d.response := by
  have rows_plain : '\x1b' ∉ d.rows.flatMap (· ++ ['\r', '\n']) := by
    intro member
    obtain ⟨row, listed, inside⟩ := List.mem_flatMap.mp member
    rcases List.mem_append.mp inside with own | ending
    · exact (d.row_plain row listed).2 own
    · revert ending
      decide
  have one : '\n' ∉ lead ++ (d.echo ++ ['\r']) := by
    simp [line, d.echo_line]
  have whole : lead ++ d.body = (lead ++ (d.echo ++ ['\r'])) ++ '\n' :: d.rows.flatMap (· ++ ['\r', '\n']) := by
    simp [Dialogue.body]
  rw [cleanMonitorResponse, whole, stripEscapes_newline, stripEscapes_eq_self rows_plain,
    splitLines_tail fun member => one (mem_of_mem_stripEscapes member),
    splitLines_rows fun row listed => (d.row_plain row listed).1]
  have blank : ∀ line ∈ [([] : List Char)], ConsoleOutput.ink line = [] := by simp [ConsoleOutput.ink]
  exact ConsoleOutput.textOf_blank (fun line none => absurd none List.not_mem_nil) blank d.rows

theorem prompt_once : Marker.Once PROMPT := ⟨'(', "qemu)".toList, rfl, by decide⟩

theorem removePrompts_some {text rest : List Char} (h : text.dropPrefix? PROMPT = some rest) :
    removePrompts text = removePrompts (rest.dropWhile Text.isSpace) := by
  rw [removePrompts.eq_def]
  split
  · rename_i rest' found
    rw [h] at found
    cases found
    rfl
  · rename_i found
    rw [h] at found
    cases found

theorem removePrompts_cons {c : Char} {text : List Char} (h : (c :: text).dropPrefix? PROMPT = none) :
    removePrompts (c :: text) = c :: removePrompts text := by
  rw [removePrompts.eq_def]
  split
  · rename_i rest found
    rw [h] at found
    cases found
  · rfl

theorem removePrompts_last {text spaces : List Char} (lacks : ¬ PROMPT <:+: text)
    (blank : ∀ c ∈ spaces, Text.isSpace c = true) : removePrompts (text ++ PROMPT ++ spaces) = text := by
  induction text with
  | nil =>
      rw [List.nil_append, removePrompts_some (Text.dropPrefix?_append PROMPT spaces), List.dropWhile_eq_nil_iff.mpr blank,
        removePrompts]
      rfl
  | cons c text ih =>
      have none : (c :: (text ++ PROMPT ++ spaces)).dropPrefix? PROMPT = none := by
        cases found : (c :: (text ++ PROMPT ++ spaces)).dropPrefix? PROMPT with
        | none => rfl
        | some rest =>
            have early := prompt_once.first (s := []) (Text.dropPrefix?_eq_some found).symm lacks
            cases early
      rw [List.cons_append, List.cons_append, removePrompts_cons none,
        ih fun inside => lacks (inside.trans (List.suffix_cons c text).isInfix)]

section

variable {command : String} {timeoutMs : ℕ} {s : State}

theorem settle_settled (result r : Except QuickCHRError String) (is : s.settled = some r) :
    (s.settle result).settled = some r := by
  rw [State.settle, is]
  rfl

theorem next_settled {r : Except QuickCHRError String} (is : s.settled = some r) (event : Event) :
    (next command timeoutMs s event).settled = some r := by
  cases event with
  | connect since => exact is
  | data since chunk =>
      have received : (s.receive since chunk).settled = some r := is
      rw [next]
      split
      · split
        · exact settle_settled _ r received
        · exact received
      · exact received
  | close =>
      rw [next]
      split <;> exact settle_settled _ r is
  | error code message =>
      rw [next]
      split <;> exact settle_settled _ r is
  | timer => exact settle_settled _ r is

theorem foldl_settled {r : Except QuickCHRError String} (is : s.settled = some r) (events : List Event) :
    (events.foldl (next command timeoutMs) s).settled = some r := by
  induction events generalizing s with
  | nil => exact is
  | cons event events ih => exact ih (next_settled is event)

theorem next_sent (sent : s.sentCommand = true) (event : Event) :
    (next command timeoutMs s event).sentCommand = true ∧ (next command timeoutMs s event).written = s.written := by
  cases event with
  | connect since => exact ⟨sent, rfl⟩
  | data since chunk =>
      have received : (s.receive since chunk).sentCommand = true := sent
      rw [next]
      rw [if_pos received]
      split <;> exact ⟨sent, rfl⟩
  | close =>
      rw [next]
      rw [if_pos sent]
      exact ⟨sent, rfl⟩
  | error code message =>
      rw [next]
      split <;> exact ⟨sent, rfl⟩
  | timer => exact ⟨sent, rfl⟩

theorem foldl_sent (sent : s.sentCommand = true) (events : List Event) :
    (events.foldl (next command timeoutMs) s).sentCommand = true ∧
      (events.foldl (next command timeoutMs) s).written = s.written := by
  induction events generalizing s with
  | nil => exact ⟨sent, rfl⟩
  | cons event events ih =>
      obtain ⟨still, same⟩ := @next_sent command timeoutMs s sent event
      obtain ⟨last, whole⟩ := ih still
      exact ⟨last, whole.trans same⟩

theorem next_open {since : ℕ} {chunk : List UInt8} (lacks : ¬ PROMPT <:+: s.buffer ++ decode chunk) :
    next command timeoutMs s (.data since chunk) = s.receive since chunk := by
  have none : (Text.indexOf PROMPT (s.receive since chunk).buffer).isSome = false := by
    rw [Option.isSome_eq_false_iff, Option.isNone_iff_eq_none]
    exact Text.indexOf_eq_none.mpr lacks
  unfold next
  dsimp only
  rw [none]
  rfl

theorem next_prompted {since : ℕ} {chunk : List UInt8} (prompt : PROMPT <:+: s.buffer ++ decode chunk) :
    next command timeoutMs s (.data since chunk) =
      if s.sentCommand then (s.receive since chunk).settle (.ok (s.receive since chunk).response)
      else (s.receive since chunk).send command since := by
  have found : (Text.indexOf PROMPT (s.receive since chunk).buffer).isSome = true := by
    rw [Option.isSome_iff_ne_none]
    exact fun none => Text.indexOf_eq_none.mp none prompt
  unfold next
  dsimp only
  rw [found]
  rfl

theorem texts_cons (chunk : ℕ × List UInt8) (chunks : List (ℕ × List UInt8)) :
    texts (chunk :: chunks) = decode chunk.2 ++ texts chunks := rfl

theorem foldl_open {chunks : List (ℕ × List UInt8)} (lacks : ¬ PROMPT <:+: s.buffer ++ texts chunks) :
    let t := (arriving chunks).foldl (next command timeoutMs) s
    t.buffer = s.buffer ++ texts chunks ∧ t.sentCommand = s.sentCommand ∧ t.written = s.written ∧
      t.settled = s.settled := by
  induction chunks generalizing s with
  | nil => exact ⟨(List.append_nil _).symm, rfl, rfl, rfl⟩
  | cons chunk chunks ih =>
      rw [texts_cons, ← List.append_assoc] at lacks
      have first : ¬ PROMPT <:+: s.buffer ++ decode chunk.2 :=
        fun inside => lacks (inside.trans (List.prefix_append _ _).isInfix)
      obtain ⟨buffer, sent, written, settled⟩ := @ih (s.receive chunk.1 chunk.2) lacks
      rw [arriving, List.map_cons, List.foldl_cons, next_open first, texts_cons, ← List.append_assoc]
      exact ⟨buffer, sent, written, settled⟩

/-- The command is written with the chunk that ends the first prompt. -/
theorem foldl_greeting {chunks : List (ℕ × List UInt8)} {front back : List Char} (unsent : s.sentCommand = false)
    (whole : s.buffer ++ texts chunks = front ++ PROMPT ++ back) (before : ¬ PROMPT <:+: s.buffer)
    (first : ¬ PROMPT <:+: front) (last : ¬ PROMPT <:+: back) :
    let t := (arriving chunks).foldl (next command timeoutMs) s
    t.buffer <:+ back ∧ t.sentCommand = true ∧ t.written = s.written ++ [command ++ "\n"] ∧ t.settled = s.settled := by
  induction chunks generalizing s with
  | nil =>
      rw [texts, List.map_nil, decodeAll, List.flatMap_nil, List.append_nil] at whole
      rw [whole] at before
      exact absurd ⟨front, back, rfl⟩ before
  | cons chunk chunks ih =>
      rw [texts_cons, ← List.append_assoc] at whole
      have read := prompt_once.read_iff ⟨_, whole⟩ first
      rw [arriving, List.map_cons, List.foldl_cons]
      by_cases prompt : PROMPT <:+: s.buffer ++ decode chunk.2
      · obtain ⟨more, reached⟩ := read.mp prompt
        have rest : more ++ texts chunks = back := by
          rw [← reached, List.append_assoc] at whole
          exact List.append_cancel_left whole
        rw [next_prompted prompt, unsent, if_neg Bool.false_ne_true]
        have behind : texts chunks <:+ back := ⟨more, rest⟩
        obtain ⟨buffer, sent, written, settled⟩ := @foldl_open command timeoutMs
          ((s.receive chunk.1 chunk.2).send command chunk.1) chunks fun inside => last (inside.trans behind.isInfix)
        exact ⟨by rw [← List.nil_append (texts chunks)] at behind; exact buffer ▸ behind, sent, written, settled⟩
      · rw [next_open prompt]
        exact @ih (s.receive chunk.1 chunk.2) unsent whole prompt

/-- The response is taken with the chunk that ends the next prompt. -/
theorem foldl_reply {chunks : List (ℕ × List UInt8)} {front spaces : List Char} (sent : s.sentCommand = true)
    (pending : s.settled = none) (whole : s.buffer ++ texts chunks = front ++ PROMPT ++ spaces)
    (before : ¬ PROMPT <:+: s.buffer) (first : ¬ PROMPT <:+: front) (blank : ∀ c ∈ spaces, Text.isSpace c = true) :
    ((arriving chunks).foldl (next command timeoutMs) s).settled = some (.ok (cleanMonitorResponse front)) := by
  induction chunks generalizing s with
  | nil =>
      rw [texts, List.map_nil, decodeAll, List.flatMap_nil, List.append_nil] at whole
      rw [whole] at before
      exact absurd ⟨front, spaces, rfl⟩ before
  | cons chunk chunks ih =>
      rw [texts_cons, ← List.append_assoc] at whole
      have read := prompt_once.read_iff ⟨_, whole⟩ first
      rw [arriving, List.map_cons, List.foldl_cons]
      by_cases prompt : PROMPT <:+: s.buffer ++ decode chunk.2
      · obtain ⟨more, reached⟩ := read.mp prompt
        have rest : more ++ texts chunks = spaces := by
          rw [← reached, List.append_assoc] at whole
          exact List.append_cancel_left whole
        rw [next_prompted prompt, sent, if_pos rfl]
        refine foldl_settled ?_ _
        have taken : (s.receive chunk.1 chunk.2).response = cleanMonitorResponse front := by
          have buffer : (s.receive chunk.1 chunk.2).buffer = front ++ PROMPT ++ more := reached.symm
          rw [State.response, buffer, removePrompts_last first fun c member =>
            blank c (rest ▸ List.mem_append_left _ member)]
        have unsettled : (s.receive chunk.1 chunk.2).settled = none := pending
        rw [State.settle, unsettled, taken]
        rfl
      · rw [next_open prompt]
        exact @ih (s.receive chunk.1 chunk.2) sent pending whole prompt

theorem Chunks.texts_greeting {d : Dialogue} (c : Chunks d) : texts c.greeting = d.banner ++ PROMPT ++ c.space := by
  rw [texts, decodeAll_eq, c.greeting_eq, decode_encode]
  intro piece member
  obtain ⟨chunk, listed, rfl⟩ := List.mem_map.mp (List.mem_of_mem_tail member)
  exact c.aligned chunk (List.mem_append_left _ listed)

theorem Chunks.texts_reply {d : Dialogue} (c : Chunks d) : texts c.reply = c.rest ++ d.reply := by
  rw [texts, decodeAll_eq, c.reply_eq, decode_encode]
  intro piece member
  obtain ⟨chunk, listed, rfl⟩ := List.mem_map.mp (List.mem_of_mem_tail member)
  exact c.aligned chunk (List.mem_append_right _ listed)

theorem blank_or_space {front back : List Char} (h : front ++ back = [' ']) :
    front = [] ∧ back = [' '] ∨ front = [' '] ∧ back = [] := by
  rcases List.append_eq_singleton_iff.mp h with both | both
  · exact .inl both
  · exact .inr both

end

/-- However the bytes of a dialogue are cut into chunks, the command is written once and its response is
what the monitor said, and nothing that happens later changes that. -/
theorem responds (command : String) (timeoutMs since : ℕ) (d : Dialogue) (c : Chunks d) (later : List Event) :
    let s := monitorCommand command timeoutMs
      (.connect since :: arriving (c.greeting ++ c.reply) ++ later)
    s.settled = some (.ok d.response) ∧ s.written = [command ++ "\n"] := by
  dsimp only
  generalize started : next command timeoutMs {} (.connect since) = s₀
  have fresh : s₀.buffer = [] ∧ s₀.sentCommand = false ∧ s₀.written = [] ∧ s₀.settled = none := by
    rw [← started]
    exact ⟨rfl, rfl, rfl, rfl⟩
  obtain ⟨empty, unsent, unwritten, pending⟩ := fresh
  have lone : ¬ PROMPT <:+: ([] : List Char) ∧ ¬ PROMPT <:+: [' '] :=
    ⟨fun inside => absurd inside.length_le (by decide), fun inside => absurd inside.length_le (by decide)⟩
  -- the greeting
  have space_open : ¬ PROMPT <:+: c.space := by
    rcases blank_or_space c.whole_space with ⟨same, -⟩ | ⟨same, -⟩ <;> rw [same]
    · exact lone.1
    · exact lone.2
  generalize greeted : (arriving c.greeting).foldl (next command timeoutMs) s₀ = s₁
  obtain ⟨behind, sent, written, settled⟩ := @foldl_greeting command timeoutMs s₀ c.greeting d.banner c.space unsent
    (by rw [empty, c.texts_greeting]; rfl) (by rw [empty]; exact lone.1) d.banner_open space_open
  rw [greeted] at behind sent written settled
  -- what is left of the space goes before the echo
  obtain ⟨lead, lead_eq, short⟩ : ∃ lead, s₁.buffer ++ c.rest = lead ∧ lead <:+ [' '] := by
    obtain ⟨read, whole⟩ := behind
    exact ⟨_, rfl, read, by rw [← List.append_assoc, whole, c.whole_space]⟩
  have body_open : ¬ PROMPT <:+: lead ++ d.body := by
    obtain ⟨read, whole⟩ := short
    intro inside
    have wider : lead ++ d.body <:+: ' ' :: d.body := by
      rw [← List.singleton_append (l := d.body), ← whole]
      exact ⟨read, [], by simp⟩
    exact d.response_open (inside.trans wider)
  have line : '\n' ∉ lead := fun member => absurd (short.subset member) (by decide)
  have answered : ((arriving c.reply).foldl (next command timeoutMs) s₁).settled = some (.ok d.response) := by
    rw [← d.clean line]
    refine @foldl_reply command timeoutMs s₁ c.reply (lead ++ d.body) [' '] sent (settled.trans pending) ?_
      (fun inside => ?_) body_open (by simp [Text.isSpace])
    · rw [c.texts_reply, ← List.append_assoc, lead_eq]
      simp [Dialogue.reply]
    · exact space_open (inside.trans behind.isInfix)
  have run : monitorCommand command timeoutMs (.connect since :: arriving (c.greeting ++ c.reply) ++ later) =
      later.foldl (next command timeoutMs) ((arriving c.reply).foldl (next command timeoutMs) s₁) := by
    rw [monitorCommand, arriving, List.map_append, List.foldl_append, List.foldl_cons, List.foldl_append, started,
      ← greeted]
    rfl
  obtain ⟨still, same⟩ := @foldl_sent command timeoutMs s₁ sent (arriving c.reply)
  rw [run, (foldl_sent still later).2, same, written, unwritten]
  exact ⟨foldl_settled answered later, rfl⟩

def infoStatus : Dialogue where
  banner := "QEMU 9.2.0 monitor\r\n".toList
  echo := "info status".toList
  rows := ["VM status: running".toList]
  banner_open := by decide +kernel
  echo_line := by decide +kernel
  row_plain := by decide +kernel
  response_open := by decide +kernel

/-- The prompt and the reply are each cut in two. -/
def infoStatusChunks : Chunks infoStatus where
  greeting := [(3, encode "QEMU 9.2.0 monitor\r\n(qe".toList), (4, encode "mu) ".toList)]
  reply := [(9, encode "info sta".toList), (9, encode "tus\r\nVM status: running\r\n(qemu) ".toList)]
  space := [' ']
  rest := []
  whole_space := rfl
  greeting_eq := by decide +kernel
  reply_eq := by decide +kernel
  aligned := by decide +kernel

theorem responds_status : (monitorCommand "info status" 5000 (.connect 2 ::
      arriving (infoStatusChunks.greeting ++ infoStatusChunks.reply) ++ [.close])).settled =
    some (.ok "VM status: running") := by
  have response : infoStatus.response = "VM status: running" := by decide +kernel
  rw [← response]
  exact (responds "info status" 5000 2 infoStatus infoStatusChunks [.close]).1

/-- The bytes of the chunks among the events. -/
def Event.chunk : Event → Option (ℕ × List UInt8)
  | .data since chunk => some (since, chunk)
  | _ => none

def received (events : List Event) : List (ℕ × List UInt8) := events.filterMap Event.chunk

def Event.isEnd : Event → Bool
  | .close | .error .. | .timer => true
  | _ => false

/-- The clock reading of an event that is timed. -/
def Event.time : Event → Option ℕ
  | .connect since | .data since _ => some since
  | _ => none

/-- The clock does not go back, and nothing is received before the socket has connected. -/
structure Timely (events : List Event) : Prop where
  clock : (events.filterMap Event.time).Pairwise (· ≤ ·)
  connects : ∀ before since after, events = before ++ .connect since :: after → received before = []

def MonitorPhaseTimings.Ordered (t : MonitorPhaseTimings) : Prop :=
  (∀ a ∈ t.connectedAtMs, ∀ b ∈ t.firstByteAtMs, a ≤ b) ∧ (∀ a ∈ t.firstByteAtMs, ∀ b ∈ t.promptAtMs, a ≤ b) ∧
    ∀ a ∈ t.commandWrittenAtMs, ∀ b ∈ t.responseFirstByteAtMs, a ≤ b

/-- The command is written at most once, as soon as a prompt has been received and not before. The phases say
how far the exchange came. It has a response only if the command was written, and a result once it has ended. -/
structure Exchanges (command : String) (events : List Event) (s : State) : Prop where
  sent : s.sentCommand = true ↔ PROMPT <:+: texts (received events)
  written : s.written = if s.sentCommand then [command ++ "\n"] else []
  unsent : s.sentCommand = false → s.buffer = texts (received events)
  bytes : s.phases.bytesReceived = ((received events).map fun chunk => chunk.2.length).sum
  firstByte : s.phases.firstByteAtMs = (received events).head?.map Prod.fst
  prompt : s.phases.promptAtMs.isSome = s.sentCommand
  commandWritten : s.phases.commandWrittenAtMs = s.phases.promptAtMs
  responseFirstByte : s.phases.responseFirstByteAtMs.isSome = true → s.sentCommand = true
  response : ∀ text, s.settled = some (.ok text) → s.sentCommand = true
  ended : events.any Event.isEnd = true → s.settled.isSome = true

theorem received_append (events : List Event) (event : Event) :
    received (events ++ [event]) = received events ++ event.chunk.toList := by
  cases event <;> simp [received, Event.chunk]

theorem texts_append (chunks : List (ℕ × List UInt8)) (chunk : ℕ × List UInt8) :
    texts (chunks ++ [chunk]) = texts chunks ++ decode chunk.2 := by
  simp [texts, decodeAll]

theorem Exchanges.settle {command : String} {events : List Event} {event : Event} {s : State}
    {result : Except QuickCHRError String} (h : Exchanges command events s) (noChunk : event.chunk = none)
    (ok : ∀ text, result = .ok text → s.sentCommand = true) :
    Exchanges command (events ++ [event]) (s.settle result) := by
  have same : received (events ++ [event]) = received events := by
    rw [received_append, noChunk]
    exact List.append_nil _
  refine ⟨by rw [same]; exact h.sent, h.written, by rw [same]; exact h.unsent, by rw [same]; exact h.bytes,
    by rw [same]; exact h.firstByte, h.prompt, h.commandWritten, h.responseFirstByte, fun text is => ?_, fun _ => ?_⟩
  · cases settled : s.settled with
    | none =>
        rw [State.settle, settled] at is
        exact ok text (Option.some.inj is)
    | some r =>
        rw [settle_settled result r settled] at is
        exact h.response text (settled.trans is)
  · rw [State.settle]
    cases s.settled <;> rfl

theorem Exchanges.more {command : String} {events : List Event} {s : State} (h : Exchanges command events s)
    (sent : s.sentCommand = true) (since : ℕ) (chunk : List UInt8) :
    Exchanges command (events ++ [.data since chunk]) (s.receive since chunk) := by
  have prompt := h.sent.mp sent
  refine ⟨iff_of_true sent ?_, h.written, fun unsent => ?_, ?_, ?_, h.prompt, h.commandWritten, fun _ => sent,
    h.response, fun ended => h.ended ?_⟩
  · rw [received_append, Event.chunk, Option.toList_some, texts_append]
    exact prompt.trans (List.prefix_append _ _).isInfix
  · exact absurd (sent.symm.trans unsent) Bool.noConfusion
  · rw [received_append, Event.chunk, Option.toList_some, List.map_append, List.sum_append, ← h.bytes]
    rfl
  · rw [received_append, Event.chunk, Option.toList_some, List.head?_append, Option.map_or, ← h.firstByte]
    rfl
  · rw [List.any_append] at ended
    simpa [Event.isEnd] using ended

theorem Exchanges.early {command : String} {events : List Event} {s : State} (h : Exchanges command events s)
    (unsent : s.sentCommand = false) (since : ℕ) (chunk : List UInt8) (lacks : ¬ PROMPT <:+: s.buffer ++ decode chunk) :
    Exchanges command (events ++ [.data since chunk]) (s.receive since chunk) := by
  have text : texts (received (events ++ [.data since chunk])) = s.buffer ++ decode chunk := by
    rw [received_append, Event.chunk, Option.toList_some, texts_append, ← h.unsent unsent]
  refine ⟨iff_of_false ?_ (by rw [text]; exact lacks), h.written, fun _ => text.symm, ?_, ?_, h.prompt, h.commandWritten,
    fun some => ?_, h.response, fun ended => h.ended ?_⟩
  · exact Bool.eq_false_iff.mp unsent
  · rw [received_append, Event.chunk, Option.toList_some, List.map_append, List.sum_append, ← h.bytes]
    rfl
  · rw [received_append, Event.chunk, Option.toList_some, List.head?_append, Option.map_or, ← h.firstByte]
    rfl
  · exact h.responseFirstByte (by simpa [State.receive, unsent] using some)
  · rw [List.any_append] at ended
    simpa [Event.isEnd] using ended

theorem Exchanges.first {command : String} {events : List Event} {s : State} (h : Exchanges command events s)
    (unsent : s.sentCommand = false) (since : ℕ) (chunk : List UInt8) (prompt : PROMPT <:+: s.buffer ++ decode chunk) :
    Exchanges command (events ++ [.data since chunk]) ((s.receive since chunk).send command since) := by
  have none : s.written = [] := by
    rw [h.written, unsent]
    rfl
  refine ⟨iff_of_true rfl ?_, ?_, nofun, ?_, ?_, rfl, rfl, fun _ => rfl, fun _ _ => rfl, fun ended => h.ended ?_⟩
  · rw [received_append, Event.chunk, Option.toList_some, texts_append, ← h.unsent unsent]
    exact prompt
  · change s.written ++ _ = _
    rw [none]
    rfl
  · rw [received_append, Event.chunk, Option.toList_some, List.map_append, List.sum_append, ← h.bytes]
    rfl
  · rw [received_append, Event.chunk, Option.toList_some, List.head?_append, Option.map_or, ← h.firstByte]
    rfl
  · rw [List.any_append] at ended
    simpa [Event.isEnd] using ended

theorem Exchanges.settled {command : String} {events : List Event} {s : State} {result : Except QuickCHRError String}
    (h : Exchanges command events s) (sent : s.sentCommand = true) : Exchanges command events (s.settle result) :=
  ⟨h.sent, h.written, h.unsent, h.bytes, h.firstByte, h.prompt, h.commandWritten, h.responseFirstByte,
    fun _ _ => sent, fun _ => by rw [State.settle]; cases s.settled <;> rfl⟩

theorem Exchanges.next {command : String} {timeoutMs : ℕ} {events : List Event} {s : State}
    (h : Exchanges command events s) (event : Event) :
    Exchanges command (events ++ [event]) (next command timeoutMs s event) := by
  cases event with
  | connect since =>
      have same : received (events ++ [.connect since]) = received events := by
        rw [received_append]
        exact List.append_nil _
      refine ⟨by rw [same]; exact h.sent, h.written, by rw [same]; exact h.unsent, by rw [same]; exact h.bytes,
        by rw [same]; exact h.firstByte, h.prompt, h.commandWritten, h.responseFirstByte, h.response, fun ended => h.ended ?_⟩
      rw [List.any_append] at ended
      simpa [Event.isEnd] using ended
  | data since chunk =>
      cases sent : s.sentCommand with
      | true =>
          by_cases prompt : PROMPT <:+: s.buffer ++ decode chunk
          · rw [next_prompted prompt, sent, if_pos rfl]
            exact (h.more sent since chunk).settled sent
          · rw [next_open prompt]
            exact h.more sent since chunk
      | false =>
          by_cases prompt : PROMPT <:+: s.buffer ++ decode chunk
          · rw [next_prompted prompt, sent, if_neg Bool.false_ne_true]
            exact h.first sent since chunk prompt
          · rw [next_open prompt]
            exact h.early sent since chunk prompt
  | close =>
      rw [Monitor.next]
      split
      · rename_i sent
        exact h.settle rfl fun _ _ => sent
      · exact h.settle rfl (by simp)
  | error code message =>
      rw [Monitor.next]
      split <;> exact h.settle rfl (by simp)
  | timer => exact h.settle rfl (by simp)

theorem Exchanges.of_monitorCommand (command : String) (timeoutMs : ℕ) (events : List Event) :
    Exchanges command events (monitorCommand command timeoutMs events) := by
  induction events using List.reverseRecOn with
  | nil =>
      refine ⟨?_, rfl, fun _ => rfl, rfl, rfl, rfl, rfl, fun some => absurd some Bool.false_ne_true,
        fun _ is => (by cases is), fun some => absurd some Bool.false_ne_true⟩
      exact iff_of_false Bool.false_ne_true fun inside => absurd inside.length_le (by decide)
  | append_singleton events event ih =>
      rw [monitorCommand, List.foldl_append]
      exact ih.next event

theorem Timely.init {events : List Event} {event : Event} (h : Timely (events ++ [event])) : Timely events := by
  refine ⟨?_, fun before since after is => h.connects before since (after ++ [event]) (by simp [is])⟩
  have clock := h.clock
  rw [List.filterMap_append] at clock
  exact (List.pairwise_append.mp clock).1

theorem Timely.le {events : List Event} {event : Event} (h : Timely (events ++ [event])) {now t : ℕ}
    (at_ : event.time = some now) (earlier : t ∈ events.filterMap Event.time) : t ≤ now := by
  have clock := h.clock
  rw [List.filterMap_append] at clock
  exact (List.pairwise_append.mp clock).2.2 t earlier now (by simp [at_])

/-- The phases happened in order, each at the time of an event. -/
structure Phased (events : List Event) (t : MonitorPhaseTimings) : Prop where
  ordered : t.Ordered
  greeted : t.promptAtMs.isSome = true → t.firstByteAtMs.isSome = true
  known : ∀ a, a ∈ t.connectedAtMs ∨ a ∈ t.firstByteAtMs ∨ a ∈ t.commandWrittenAtMs →
    a ∈ events.filterMap Event.time

theorem Phased.same {events : List Event} {event : Event} {t : MonitorPhaseTimings} (h : Phased events t) :
    Phased (events ++ [event]) t :=
  ⟨h.ordered, h.greeted, fun a is => by rw [List.filterMap_append]; exact List.mem_append_left _ (h.known a is)⟩

theorem mem_or_some {o : Option ℕ} {now a : ℕ} (h : a ∈ o.or (some now)) : a ∈ o ∨ o = none ∧ a = now := by
  cases o with
  | none => exact .inr ⟨rfl, (Option.some.inj h).symm⟩
  | some b => exact .inl h

theorem mem_times {events : List Event} {event : Event} {now : ℕ} (at_ : event.time = some now) :
    now ∈ (events ++ [event]).filterMap Event.time := by
  simp [at_]

theorem Phased.receive {events : List Event} {since : ℕ} {chunk : List UInt8} {s : State}
    (timely : Timely (events ++ [.data since chunk])) (h : Phased events s.phases) :
    Phased (events ++ [.data since chunk]) (s.receive since chunk).phases := by
  obtain ⟨⟨connect, greet, reply⟩, greeted, known⟩ := h
  have past {a : ℕ} (is : a ∈ events.filterMap Event.time) : a ≤ since := timely.le rfl is
  refine ⟨⟨fun a is b first => ?_, fun a first b prompt => ?_, fun a is b first => ?_⟩, fun prompt => ?_,
    fun a is => ?_⟩
  · rcases mem_or_some first with earlier | ⟨-, rfl⟩
    · exact connect a is b earlier
    · exact past (known a (.inl is))
  · rcases mem_or_some first with earlier | ⟨none, -⟩
    · exact greet a earlier b prompt
    · have some := greeted (Option.isSome_iff_exists.mpr ⟨b, prompt⟩)
      rw [none] at some
      cases some
  · have first : b ∈ if s.sentCommand then s.phases.responseFirstByteAtMs.or (some since)
        else s.phases.responseFirstByteAtMs := first
    split at first
    · rcases mem_or_some first with earlier | ⟨-, rfl⟩
      · exact reply a is b earlier
      · exact past (known a (.inr (.inr is)))
    · exact reply a is b first
  · show (s.phases.firstByteAtMs.or (some since)).isSome = true
    cases s.phases.firstByteAtMs <;> rfl
  · rcases is with is | first | is
    · rw [List.filterMap_append]
      exact List.mem_append_left _ (known a (.inl is))
    · rcases mem_or_some first with earlier | ⟨-, rfl⟩
      · rw [List.filterMap_append]
        exact List.mem_append_left _ (known a (.inr (.inl earlier)))
      · exact mem_times rfl
    · rw [List.filterMap_append]
      exact List.mem_append_left _ (known a (.inr (.inr is)))

theorem Phased.send {command : String} {events : List Event} {since : ℕ} {chunk : List UInt8} {s : State}
    (timely : Timely (events ++ [.data since chunk])) (unanswered : s.phases.responseFirstByteAtMs = none)
    (first : s.phases.firstByteAtMs.isSome = true) (h : Phased (events ++ [.data since chunk]) s.phases) :
    Phased (events ++ [.data since chunk]) (s.send command since).phases := by
  obtain ⟨⟨connect, -, -⟩, -, known⟩ := h
  refine ⟨⟨connect, fun a is b now => ?_, fun a _ b reply => ?_⟩, fun _ => first, fun a is => ?_⟩
  · cases Option.some.inj now
    have listed := known a (.inr (.inl is))
    rw [List.filterMap_append] at listed
    rcases List.mem_append.mp listed with earlier | now
    · exact timely.le rfl earlier
    · simp [Event.time] at now
      exact now.le
  · have none : b ∈ s.phases.responseFirstByteAtMs := reply
    rw [unanswered] at none
    cases none
  · rcases is with is | is | now
    · exact known a (.inl is)
    · exact known a (.inr (.inl is))
    · cases Option.some.inj now
      exact mem_times rfl

theorem Phased.next {command : String} {timeoutMs : ℕ} {events : List Event} {event : Event} {s : State}
    (timely : Timely (events ++ [event])) (exchanges : Exchanges command events s) (h : Phased events s.phases) :
    Phased (events ++ [event]) (Monitor.next command timeoutMs s event).phases := by
  cases event with
  | connect since =>
      have silent : s.phases.firstByteAtMs = none := by
        rw [exchanges.firstByte, timely.connects events since [] rfl]
        rfl
      obtain ⟨⟨-, greet, reply⟩, greeted, known⟩ := h
      refine ⟨⟨fun a _ b first => ?_, greet, reply⟩, greeted, fun a is => ?_⟩
      · have first : b ∈ s.phases.firstByteAtMs := first
        rw [silent] at first
        cases first
      · rcases is with now | is
        · cases Option.some.inj now
          exact mem_times rfl
        · rw [List.filterMap_append]
          exact List.mem_append_left _ (known a (.inr is))
  | data since chunk =>
      have received := h.receive timely
      by_cases prompt : PROMPT <:+: s.buffer ++ decode chunk
      · rw [next_prompted prompt]
        cases sent : s.sentCommand with
        | true => exact received
        | false =>
            have unanswered : s.phases.responseFirstByteAtMs = none := by
              cases reply : s.phases.responseFirstByteAtMs with
              | none => rfl
              | some b =>
                  have early := exchanges.responseFirstByte (by rw [reply]; rfl)
                  rw [sent] at early
                  cases early
            refine received.send timely ?_ ?_
            · show (if s.sentCommand then _ else s.phases.responseFirstByteAtMs) = none
              rw [sent]
              exact unanswered
            · show (s.phases.firstByteAtMs.or (some since)).isSome = true
              cases s.phases.firstByteAtMs <;> rfl
      · rw [next_open prompt]
        exact received
  | close =>
      rw [Monitor.next]
      split <;> exact h.same
  | error code message =>
      rw [Monitor.next]
      split <;> exact h.same
  | timer => exact h.same

theorem phased (command : String) (timeoutMs : ℕ) {events : List Event} (timely : Timely events) :
    Phased events (monitorCommand command timeoutMs events).phases := by
  induction events using List.reverseRecOn with
  | nil => exact ⟨⟨nofun, nofun, nofun⟩, nofun, fun a is => by simp [monitorCommand, newMonitorPhaseTimings] at is⟩
  | append_singleton events event ih =>
      have before := ih timely.init
      rw [monitorCommand, List.foldl_append]
      exact before.next timely (.of_monitorCommand command timeoutMs events)

/-- Whatever happens, and in whatever order: the first result stays, and the phases are timed in their order. -/
theorem exchanges (command : String) (timeoutMs : ℕ) (events : List Event) :
    let s := monitorCommand command timeoutMs events
    Exchanges command events s ∧ (Timely events → s.phases.Ordered) ∧
      ∀ result, s.settled = some result → ∀ later,
        (monitorCommand command timeoutMs (events ++ later)).settled = some result := by
  refine ⟨.of_monitorCommand command timeoutMs events, fun timely => (phased command timeoutMs timely).ordered,
    fun result is later => ?_⟩
  rw [monitorCommand, List.foldl_append]
  exact foldl_settled is later

end Quickchr.Monitor
