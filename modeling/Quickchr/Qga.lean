import Quickchr.MachineState
import Quickchr.Lib.Json
import Quickchr.Lib.Utf8

/-!
# The guest agent's answers

The agent answers on a socket, one line of JSON for each message, and may put bytes 0xFF between
the messages. The bytes arrive in chunks, and each chunk is decoded by itself.
-/
namespace Quickchr.Qga

open Utf8

/-- The values of `JSON.parse`, and what the language makes of them. Its numbers are floating point,
so they stay a parameter. -/
structure Values where
  Value : Type
  /-- `none` where it throws. -/
  parse : String → Option Value
  isNull : Value → Bool
  /-- A property, `none` for `undefined`. -/
  get : Value → String → Option Value
  truthy : Value → Bool
  /-- `String(value)`; an object can be made to throw. -/
  text : Value → Option String
  stringify : Value → String
  /-- No JSON text begins with a replacement character. -/
  parse_replacement : ∀ text : List Char, parse (String.ofList (REPLACEMENT :: text)) = none

inductive Response (V : Values)
  | result (value : Option V.Value)
  | failed (error : QuickCHRError)
  /-- An exception in the listener. -/
  | thrown

section

variable (V : Values)

def stripSyncMarkers (data : String) : String := String.ofList (data.toList.filter (· ≠ '\xff'))

def parseLine (line : String) : Option V.Value :=
  let trimmed := Text.trim line
  if trimmed = "" then none else V.parse trimmed

/-- The messages in the buffer, and what is left of it. -/
def parseQgaMessages (buffer : String) : List V.Value × String :=
  let lines := Text.split (stripSyncMarkers buffer) '\n'
  (lines.dropLast.filterMap (parseLine V), lines.getLast?.getD "")

/-- What a message settles the request with. -/
def respond (message : V.Value) : Response V :=
  if V.isNull message then .thrown
  else match (V.get message "error").filter V.truthy with
    | some err =>
        match ((V.get err "desc").filter V.truthy).elim (some (V.stringify err)) V.text with
        | some desc => .failed { code := .PROCESS_FAILED, message := s!"QGA error: {desc}" }
        | none => .thrown
    | none => .result (V.get message "return")

structure State where
  buffer : String := ""
  settled : Option (Response V) := none

inductive Event
  | data (chunk : List UInt8)
  | error (message : String)
  | close
  | timeout
  | writeFailed (message : String)

variable {V}

def State.finish (s : State V) (code : ErrorCode) (message : String) : State V :=
  { s with settled := s.settled.or (some (.failed { code, message })) }

/-- One event of `sendAndReceive`. Once it is settled it does not listen any more. -/
def next (s : State V) : Event → State V
  | .data chunk =>
      match s.settled with
      | some _ => s
      | none =>
          let read := parseQgaMessages V (s.buffer ++ String.ofList (decode chunk))
          { buffer := read.2, settled := read.1.head?.map (respond V) }
  | .error message => s.finish .PROCESS_FAILED s!"QGA connection failed: {message}"
  | .close => s.finish .PROCESS_FAILED "QGA socket closed before a response was received"
  | .timeout =>
      s.finish .QGA_TIMEOUT
        "QGA command timed out — guest agent may not be running (requires KVM on Linux)"
  | .writeFailed message => s.finish .PROCESS_FAILED s!"QGA write failed: {message}"

variable (V)

def sendAndReceive (events : List Event) : Option (Response V) :=
  (events.foldl next ({} : State V)).settled

/-- The response to a stream that arrives in these chunks, if there is one by then. -/
def received (chunks : List (List UInt8)) : Option (Response V) :=
  sendAndReceive V (chunks.map .data)

end

/-- A message, with the number of markers right before it. -/
structure Sent where
  markers : ℕ
  text : List Char
  line : '\n' ∉ text

/-- The bytes of the messages, with so many markers after them. -/
def marked (sent : List Sent) (after : ℕ) : List UInt8 :=
  sent.flatMap (fun m => List.replicate m.markers 0xff ++ (encode m.text ++ [0x0a])) ++
    List.replicate after 0xff

def unmarked (sent : List Sent) : List UInt8 := sent.flatMap fun m => encode m.text ++ [0x0a]

/-- Each message with its markers, as it is decoded from the pieces it arrives in. -/
def arrived : List Sent → List (List UInt8) → List (ℕ × List Char)
  | [], _ => []
  | m :: sent, chunks =>
      let own := cut (encode m.text).length (cut m.markers chunks).2
      (m.markers, decodeAll own.1) :: arrived sent (cut 1 own.2).2

/-- The texts without a marker before them. -/
def through (sent : List Sent) (chunks : List (List UInt8)) : List (List Char) :=
  ((arrived sent chunks).filter (·.1 = 0)).map Prod.snd

def answer (V : Values) (text : List Char) : Option (Response V) :=
  (parseLine V (stripSyncMarkers (String.ofList text))).map (respond V)

section

variable {V : Values} {sent : List Sent} {chunks : List (List UInt8)} {after : ℕ}

/-- What a line is answered with once the marker characters are out of it. -/
def answerLine (V : Values) (line : List Char) : Option (Response V) :=
  (parseLine V (String.ofList line)).map (respond V)

def completeLines (text : List Char) : List (List Char) :=
  ((text.filter (· ≠ '\xff')).splitOn '\n').dropLast

theorem parseQgaMessages_fst (buffer : List Char) :
    (parseQgaMessages V (String.ofList buffer)).1.head?.map (respond V) =
      (completeLines buffer).findSome? (answerLine V) := by
  unfold parseQgaMessages
  dsimp only
  rw [List.head?_filterMap, List.map_findSome?, Text.split, stripSyncMarkers, String.toList_ofList,
    String.toList_ofList, ← List.map_dropLast, List.findSome?_map]
  unfold completeLines answerLine
  simp only [Function.comp_def]

theorem next_data (rest : List Char) (chunk : List UInt8) :
    next ({ buffer := String.ofList rest } : State V) (.data chunk) =
      { buffer := (parseQgaMessages V (String.ofList (rest ++ decode chunk))).2
        settled := (parseQgaMessages V (String.ofList (rest ++ decode chunk))).1.head?.map (respond V) } := by
  rw [String.ofList_append]
  rfl

theorem foldl_settled {s : State V} {r : Response V} (is : s.settled = some r) :
    (chunks.foldl (fun s chunk => next s (.data chunk)) s).settled = some r := by
  induction chunks generalizing s with
  | nil => exact is
  | cons chunk chunks ih =>
      rw [List.foldl_cons]
      refine ih ?_
      simp only [next, is]

theorem completeLines_open {rest : List Char} (line : '\n' ∉ rest) : completeLines rest = [] := by
  have clean : '\n' ∉ rest.filter (· ≠ '\xff') := fun member => line (List.mem_filter.mp member).1
  rw [completeLines, List.splitOn_eq_singleton clean]
  rfl

/-- Where a text is cut, the complete lines of the front are read, and the rest of its last line
stands before what follows. -/
theorem completeLines_append (text : List Char) :
    ∃ rest, '\n' ∉ rest ∧
      (parseQgaMessages V (String.ofList text)).2 = String.ofList rest ∧
      ∀ more, completeLines (text ++ more) = completeLines text ++ completeLines (rest ++ more) := by
  obtain ⟨front, rest, pieces, inside, later⟩ :=
    Text.splitOn_append '\n' (text.filter (· ≠ '\xff'))
  have clean : '\xff' ∉ rest := fun member => by
    have kept := (List.mem_filter.mp (inside _ member)).2
    exact absurd kept (by decide)
  have line : '\n' ∉ rest := Text.not_mem_of_mem_splitOn (by rw [pieces]; exact List.mem_concat_self)
  refine ⟨rest, line, ?_, fun more => ?_⟩
  · unfold parseQgaMessages
    dsimp only
    rw [Text.split, stripSyncMarkers, String.toList_ofList, String.toList_ofList, pieces,
      List.map_append, List.map_singleton, List.getLast?_concat, Option.getD_some]
  · have kept : rest.filter (· ≠ '\xff') = rest := by
      refine List.filter_eq_self.mpr fun c member => decide_eq_true ?_
      rintro rfl
      exact clean member
    rw [completeLines, completeLines, completeLines, List.filter_append, List.filter_append, kept, later,
      pieces, List.dropLast_concat, List.dropLast_append_of_ne_nil (List.splitOn_ne_nil _ _)]

/-- The lines of the whole text are read, whatever the chunks: what is left of a line waits in the
buffer. -/
theorem foldl_data {rest : List Char} (line : '\n' ∉ rest) :
    (chunks.foldl (fun s chunk => next s (.data chunk))
        ({ buffer := String.ofList rest } : State V)).settled =
      (completeLines (rest ++ decodeAll chunks)).findSome? (answerLine V) := by
  induction chunks generalizing rest with
  | nil =>
      rw [decodeAll, List.flatMap_nil, List.append_nil, completeLines_open line]
      rfl
  | cons chunk chunks ih =>
      obtain ⟨rest', line', remainder, later⟩ := completeLines_append (V := V) (rest ++ decode chunk)
      have lines : completeLines (rest ++ decodeAll (chunk :: chunks)) =
          completeLines (rest ++ decode chunk) ++ completeLines (rest' ++ decodeAll chunks) := by
        rw [decodeAll, List.flatMap_cons, ← List.append_assoc]
        exact later _
      rw [lines, List.findSome?_append, List.foldl_cons, ← parseQgaMessages_fst, next_data, remainder]
      cases first : (parseQgaMessages V (String.ofList (rest ++ decode chunk))).1.head?.map (respond V) with
      | some r => exact foldl_settled rfl
      | none => rw [Option.none_or, ← ih line']

theorem received_eq : received V chunks = (completeLines (decodeAll chunks)).findSome? (answerLine V) := by
  rw [received, sendAndReceive, List.foldl_map]
  exact foldl_data List.not_mem_nil

theorem findSome?_eq_bind {α β : Type*} (f : α → Option β) (l : List α) :
    l.findSome? f = (l.find? fun a => (f a).isSome).bind f := by
  induction l with
  | nil => rfl
  | cons a l ih =>
      rw [List.findSome?_cons, List.find?_cons]
      cases is : f a with
      | none => exact ih
      | some b => exact is.symm

/-- What messages look like, decoded: each with its markers, on a line of its own. -/
def laidOut (arrivals : List (ℕ × List Char)) : List Char :=
  arrivals.flatMap fun a => List.replicate a.1 REPLACEMENT ++ (a.2 ++ ['\n'])

theorem decodeAll_of_bytes {pieces : List (List UInt8)}
    (h : ∀ b ∈ pieces.flatten, isContinuation b = false) : decodeAll pieces = decode pieces.flatten :=
  decodeAll_eq fun piece member b is => h b (List.mem_flatten.mpr
    ⟨piece, List.mem_of_mem_tail member, List.mem_of_mem_head? is⟩)

theorem decode_markers (n : ℕ) (bytes : List UInt8) :
    decode (List.replicate n 0xff ++ bytes) = List.replicate n REPLACEMENT ++ decode bytes := by
  induction n with
  | zero => rfl
  | succ n ih =>
      rw [List.replicate_succ, List.cons_append, decode_marker, ih, List.replicate_succ, List.cons_append]

theorem decodeAll_markers {n : ℕ} {pieces : List (List UInt8)}
    (h : pieces.flatten = List.replicate n 0xff) : decodeAll pieces = List.replicate n REPLACEMENT := by
  rw [decodeAll_of_bytes, h]
  · have markers := decode_markers n []
    rwa [List.append_nil, show decode [] = [] from rfl, List.append_nil] at markers
  · intro b member
    rw [h] at member
    rw [List.eq_of_mem_replicate member]
    decide

theorem marked_cons (m : Sent) : marked (m :: sent) after =
    List.replicate m.markers 0xff ++ (encode m.text ++ 0x0a :: marked sent after) := by
  rw [marked, marked, List.flatMap_cons, List.append_assoc, List.append_assoc, List.append_assoc]
  rfl

theorem head_line {text : List Char} {bytes : List UInt8} {b : UInt8}
    (h : (encode text ++ 0x0a :: bytes).head? = some b) : isContinuation b = false := by
  cases own : encode text with
  | nil =>
      rw [own] at h
      rw [← Option.some.inj h]
      decide
  | cons c rest =>
      rw [own] at h
      exact head_encode (by rw [own]; exact h)

/-- Where a message begins, markers or not, a character may begin. -/
theorem head_marked {b : UInt8} (h : (marked sent after).head? = some b) : isContinuation b = false := by
  have marker : isContinuation 0xff = false := by decide
  cases sent with
  | nil =>
      rw [marked, List.flatMap_nil, List.nil_append] at h
      rw [List.eq_of_mem_replicate (List.mem_of_mem_head? h)]
      exact marker
  | cons m sent =>
      rw [marked_cons] at h
      cases markers : m.markers with
      | succ n =>
          rw [markers, List.replicate_succ] at h
          rw [← Option.some.inj h]
          exact marker
      | zero =>
          rw [markers] at h
          exact head_line h

theorem decodeAll_marked (h : chunks.flatten = marked sent after) :
    decodeAll chunks = laidOut (arrived sent chunks) ++ List.replicate after REPLACEMENT ∧
      ∀ a ∈ arrived sent chunks, '\n' ∉ a.2 := by
  induction sent generalizing chunks with
  | nil =>
      rw [marked, List.flatMap_nil, List.nil_append] at h
      exact ⟨decodeAll_markers h, fun a none => absurd none List.not_mem_nil⟩
  | cons m sent ih =>
      rw [marked_cons] at h
      obtain ⟨markers, fromText⟩ := flatten_cut m.markers chunks
      rw [h, List.take_left' List.length_replicate] at markers
      rw [h, List.drop_left' List.length_replicate] at fromText
      have first := @decodeAll_cut m.markers chunks fun b is => by
        rw [h, List.drop_left' List.length_replicate] at is
        exact head_line is
      obtain ⟨text, fromEnd⟩ := flatten_cut (encode m.text).length (cut m.markers chunks).2
      rw [fromText, List.take_left' rfl] at text
      rw [fromText, List.drop_left' rfl] at fromEnd
      have second := @decodeAll_cut (encode m.text).length (cut m.markers chunks).2 fun b is => by
        rw [fromText, List.drop_left' rfl] at is
        rw [← Option.some.inj is]
        decide
      have line := flatten_cut 1 (cut (encode m.text).length (cut m.markers chunks).2).2
      rw [fromEnd] at line
      have third := @decodeAll_cut 1 (cut (encode m.text).length (cut m.markers chunks).2).2 fun b is => by
        rw [fromEnd] at is
        exact head_marked is
      have newline : decodeAll (cut 1 (cut (encode m.text).length (cut m.markers chunks).2).2).1 = ['\n'] := by
        have one : (cut 1 (cut (encode m.text).length (cut m.markers chunks).2).2).1.flatten = [0x0a] := line.1
        rw [decodeAll_of_bytes, one]
        · rfl
        · rw [one]
          exact List.forall_mem_singleton.mpr (by decide)
      obtain ⟨later, lines⟩ := ih line.2
      constructor
      · rw [first, second, third, newline, later, decodeAll_markers markers]
        simp only [arrived, laidOut, List.flatMap_cons, List.append_assoc]
      · rw [arrived]
        refine List.forall_mem_cons.mpr ⟨fun member => ?_, lines⟩
        obtain ⟨piece, inside, member⟩ := List.mem_flatMap.mp member
        have byte : 0x0a ∈ encode m.text := text ▸ List.mem_flatten.mpr ⟨piece, inside, newline_of_mem_run member⟩
        exact m.line (newline_of_mem_encode byte)

theorem decode_unmarked : decode (unmarked sent) = laidOut (sent.map fun m => (0, m.text)) := by
  induction sent with
  | nil => rfl
  | cons m sent ih =>
      rw [unmarked, List.flatMap_cons, List.append_assoc, decode_encode_append, List.singleton_append,
        decode_newline, ← unmarked, ih, laidOut, laidOut, List.map_cons, List.flatMap_cons]
      simp only [List.replicate_zero, List.nil_append, List.append_assoc, List.singleton_append]

/-- No line that begins with a replacement character is answered. -/
theorem answerLine_replacement (line : List Char) : answerLine V (REPLACEMENT :: line) = none := by
  have kept : Text.isSpace REPLACEMENT = false := by decide +kernel
  obtain ⟨rest, trimmed⟩ := Text.trim_cons kept line
  have filled : String.ofList (REPLACEMENT :: rest) ≠ "" := by
    rw [ne_eq, ← String.toList_eq_nil_iff, String.toList_ofList]
    exact List.cons_ne_nil _ _
  rw [answerLine, parseLine, trimmed, if_neg filled, V.parse_replacement, Option.map_none]

theorem completeLines_line {line : List Char} (open_ : '\n' ∉ line) (more : List Char) :
    completeLines (line ++ '\n' :: more) = line.filter (· ≠ '\xff') :: completeLines more := by
  have clean : '\n' ∉ line.filter (· ≠ '\xff') := fun member => open_ (List.mem_filter.mp member).1
  have newline : ('\n' :: more).filter (· ≠ '\xff') = '\n' :: more.filter (· ≠ '\xff') :=
    List.filter_cons_of_pos (by decide)
  rw [completeLines, List.filter_append, newline, List.splitOn_append_cons_self_of_not_mem clean,
    List.dropLast_cons_of_ne_nil (List.splitOn_ne_nil _ _)]
  rfl

theorem answerLine_filter (text : List Char) :
    answerLine V (text.filter (· ≠ '\xff')) = answer V text := by
  rw [answerLine, answer, stripSyncMarkers, String.toList_ofList]

theorem answer_laidOut {arrivals : List (ℕ × List Char)} (lines : ∀ a ∈ arrivals, '\n' ∉ a.2) :
    (completeLines (laidOut arrivals ++ List.replicate after REPLACEMENT)).findSome? (answerLine V) =
      ((arrivals.filter (·.1 = 0)).map Prod.snd).findSome? (answer V) := by
  have apart : ∀ n, '\n' ∉ List.replicate n REPLACEMENT := fun n member =>
    absurd (List.eq_of_mem_replicate member) (by decide)
  induction arrivals with
  | nil =>
      rw [laidOut, List.flatMap_nil, List.nil_append, completeLines_open (apart after), List.filter_nil,
        List.map_nil, List.findSome?_nil, List.findSome?_nil]
  | cons a arrivals ih =>
      rw [List.forall_mem_cons] at lines
      have line : '\n' ∉ List.replicate a.1 REPLACEMENT ++ a.2 := by
        rw [List.mem_append, not_or]
        exact ⟨apart a.1, lines.1⟩
      have text : laidOut (a :: arrivals) ++ List.replicate after REPLACEMENT =
          (List.replicate a.1 REPLACEMENT ++ a.2) ++
            '\n' :: (laidOut arrivals ++ List.replicate after REPLACEMENT) := by
        simp only [laidOut, List.flatMap_cons, List.append_assoc, List.cons_append, List.nil_append]
      rw [text, completeLines_line line, List.findSome?_cons, ih lines.2]
      cases markers : a.1 with
      | zero =>
          have kept : (a :: arrivals).filter (·.1 = 0) = a :: arrivals.filter (·.1 = 0) :=
            List.filter_cons_of_pos (decide_eq_true markers)
          rw [List.replicate_zero, List.nil_append, answerLine_filter, kept, List.map_cons,
            List.findSome?_cons]
      | succ n =>
          have dropped : (a :: arrivals).filter (·.1 = 0) = arrivals.filter (·.1 = 0) :=
            List.filter_cons_of_neg (by simp [markers])
          have stays : (REPLACEMENT :: (List.replicate n REPLACEMENT ++ a.2)).filter (· ≠ '\xff') =
              REPLACEMENT :: (List.replicate n REPLACEMENT ++ a.2).filter (· ≠ '\xff') :=
            List.filter_cons_of_pos (by decide)
          rw [List.replicate_succ, List.cons_append, stays, answerLine_replacement, dropped]

theorem received_marked (h : chunks.flatten = marked sent after) :
    received V chunks = (through sent chunks).findSome? (answer V) := by
  obtain ⟨text, lines⟩ := decodeAll_marked h
  rw [received_eq, text, answer_laidOut lines, through]

theorem received_unmarked :
    received V [unmarked sent] = (sent.map (·.text)).findSome? (answer V) := by
  have lines : ∀ a ∈ sent.map fun m => (0, m.text), '\n' ∉ a.2 := by
    intro a member
    obtain ⟨m, -, rfl⟩ := List.mem_map.mp member
    exact m.line
  have all : ((sent.map fun m => (0, m.text)).filter (·.1 = 0)).map Prod.snd = sent.map (·.text) := by
    rw [List.filter_eq_self.mpr, List.map_map]
    · rfl
    · intro a member
      obtain ⟨m, -, rfl⟩ := List.mem_map.mp member
      rfl
  rw [received_eq, decodeAll, List.flatMap_singleton, decode_unmarked, ← all,
    ← @answer_laidOut V 0 _ lines, List.replicate_zero, List.append_nil]

/-- No marker stands before the first message, and no chunk begins inside one of its characters. -/
def Intact (sent : List Sent) (chunks : List (List UInt8)) : Prop :=
  ∀ m, sent.head? = some m → m.markers = 0 ∧
    ∀ piece ∈ (cut (encode m.text).length chunks).1.tail, ∀ b, piece.head? = some b →
      isContinuation b = false

theorem through_intact {m : Sent} (stream : chunks.flatten = marked (m :: sent) after)
    (intact : Intact (m :: sent) chunks) : ∃ rest, through (m :: sent) chunks = m.text :: rest := by
  obtain ⟨unmarked, whole⟩ := intact m rfl
  have own : decodeAll (cut (encode m.text).length chunks).1 = m.text := by
    rw [decodeAll_eq whole, (flatten_cut _ chunks).1, stream, marked_cons, unmarked, List.replicate_zero,
      List.nil_append, List.take_left' rfl, decode_encode]
  have kept : (arrived (m :: sent) chunks).head? = some (0, m.text) := by
    rw [arrived, unmarked, cut_zero]
    dsimp only
    rw [own]
    rfl
  obtain ⟨rest, is⟩ := List.head?_eq_some_iff.mp kept
  refine ⟨(rest.filter (·.1 = 0)).map Prod.snd, ?_⟩
  rw [through, is]
  rfl

/-- What gets through first as JSON has the response of the first message: a later message without
markers, or what the cut characters have left of the first. -/
def Coincides (V : Values) (sent : List Sent) (chunks : List (List UInt8)) : Prop :=
  ∃ m text, sent.head? = some m ∧
    (through sent chunks).find? (fun text => (answer V text).isSome) = some text ∧
    answer V text = answer V m.text

/-- When markers and chunks make no difference to the first response. -/
theorem received_eq_iff (stream : chunks.flatten = marked sent after)
    (json : ∀ m ∈ sent, (answer V m.text).isSome = true) :
    received V chunks = received V [unmarked sent] ↔ Intact sent chunks ∨ Coincides V sent chunks := by
  rw [received_marked stream, received_unmarked]
  cases sent with
  | nil => exact iff_of_true rfl (.inl fun m none => by cases none)
  | cons m sent =>
      obtain ⟨r, is⟩ := Option.isSome_iff_exists.mp (json m List.mem_cons_self)
      rw [List.map_cons, List.findSome?_cons, is, findSome?_eq_bind]
      dsimp only
      constructor
      · intro same
        obtain ⟨text, found, read⟩ := Option.bind_eq_some_iff.mp same
        exact .inr ⟨m, text, rfl, found, read.trans is.symm⟩
      · rintro (intact | ⟨m', text, first, found, same⟩)
        · obtain ⟨rest, text⟩ := through_intact stream intact
          rw [← findSome?_eq_bind, text, List.findSome?_cons, is]
        · obtain rfl : m = m' := Option.some.inj first
          rw [found, Option.bind_some, same, is]

end

/-- Messages whose numbers are integers and whose errors are described in words. -/
def plainValues : Values where
  Value := Json
  parse text := Json.parse text.toList
  isNull
    | .null => true
    | _ => false
  get
    | .obj members, key => Record.get members key
    | _, _ => none
  truthy
    | .null => false
    | .bool b => b
    | .num n => n ≠ 0
    | .str s => s ≠ ""
    | .arr _ | .obj _ => true
  text
    | .str s => some s
    | _ => none
  stringify value := String.ofList (Json.stringify value)
  parse_replacement text := by
    rw [String.toList_ofList, Json.parse, JsonText.parse, JsonText.run_cons]
    rfl

def pong : Sent where
  markers := 0
  text := "\x7b\"return\":\"pöng\"\x7d".toList
  line := by decide +kernel

theorem answer_pong : (answer plainValues pong.text).isSome = true := by
  decide +kernel

/-- The markers are behind the first message, and the chunks end between its characters. -/
theorem received_eq_iff_pong :
    received plainValues
        [encode "\x7b\"return\":\"p".toList, encode "öng\"\x7d".toList ++ [0x0a, 0xff],
          [0xff] ++ encode pong.text ++ [0x0a]] =
      received plainValues [unmarked [pong, { pong with markers := 2 }]] := by
  refine (@received_eq_iff plainValues [pong, { pong with markers := 2 }]
    _ 0 (by decide +kernel) (by simp [answer_pong])).mpr (.inl ?_)
  rintro m ⟨⟩
  refine ⟨rfl, fun piece member b is => ?_⟩
  have second : (cut (encode pong.text).length [encode "\x7b\"return\":\"p".toList,
      encode "öng\"\x7d".toList ++ [0x0a, 0xff], [0xff] ++ encode pong.text ++ [0x0a]]).1.tail =
        [encode "öng\"\x7d".toList] := by
    decide +kernel
  rw [second, List.mem_singleton] at member
  exact head_encode (member ▸ is)

/-- One marker before the only message, and there is no response. -/
theorem received_eq_fails : ¬ ∀ (sent : List Sent) (after : ℕ) (chunks : List (List UInt8)),
    chunks.flatten = marked sent after →
      (∀ m ∈ sent, (answer plainValues m.text).isSome = true) →
      received plainValues chunks = received plainValues [unmarked sent] := by
  intro all
  have stream : [0xff :: encode pong.text ++ [0x0a]].flatten = marked [{ pong with markers := 1 }] 0 := rfl
  have same := congrArg Option.isSome (all [{ pong with markers := 1 }] 0
    [0xff :: encode pong.text ++ [0x0a]] stream (List.forall_mem_singleton.mpr answer_pong))
  have lost : (received plainValues [0xff :: encode pong.text ++ [0x0a]]).isSome = false := by
    rw [received_marked stream]
    rfl
  have answered : (received plainValues [unmarked [{ pong with markers := 1 }]]).isSome = true := by
    rw [received_unmarked, List.map_singleton, List.findSome?_singleton]
    exact answer_pong
  rw [lost, answered] at same
  cases same

end Quickchr.Qga
