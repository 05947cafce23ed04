import Quickchr.Lib.JsonText
import Mathlib.Data.List.Range

/-!
# JSON in a console reply

A query prints its result as JSON on one line. The terminal wraps that line and may have repeated the
command before it, so the line breaks are taken out and the places where the JSON could begin are tried,
the last one first.
-/
namespace Quickchr.GuestSnapshot

open JsonText

def startsPayload (line : String) : Bool :=
  let trimmed := Text.trimStart line
  Text.startsWith trimmed "[" || Text.startsWith trimmed "\x7b"

def payload (lines : List String) (start : ℕ) : String := Text.trim (Text.join "" (lines.drop start))

/-- The places one after another; the text of the last error is returned. `syntaxError` is what the
parser says of a text that is no JSON. -/
def tryStarts (syntaxError : String → String) (lines : List String) :
    (starts : List ℕ) → (lastError : String) → Except String Value
  | [], lastError => .error lastError
  | start :: starts, _ =>
      match JsonText.parse (payload lines start).toList with
      | some v => .ok v
      | none => tryStarts syntaxError lines starts (syntaxError (payload lines start))

def parseSerializedJson (syntaxError : String → String) (raw : String) (framed : Option Bool) :
    Except String Value :=
  let cleaned := String.ofList (raw.toList.filter (· ≠ '\r'))
  let lines := Text.split cleaned '\n'
  let starts := (List.range lines.length).filter fun i => startsPayload (lines.getD i "")
  if starts = [] then
    if Text.trim cleaned ≠ "" then .error "no JSON payload in console reply"
    else
      match framed with
      | some true => .error "empty console reply — RouterOS printed nothing"
      | some false => .error "empty console reply — the reader could not frame it (payload may have been lost)"
      | none => .error "empty console reply — framing unknown, so a lost payload cannot be ruled out"
  else tryStarts syntaxError lines starts.reverse "unparsable console reply"

structure Serialization (v : Value) (text : List Char) : Prop where
  reads : JsonText.parse text = some v
  line : ∀ c ∈ text, c ≠ '\n' ∧ c ≠ '\r'
  begins : ∃ c rest, text = c :: rest ∧ Bracket c
  ends : ∀ c, text.getLast? = some c → Text.isSpace c = false

section

variable {v : Value} {text : List Char}

variable {syntaxError : String → String} {lines : List String} {early late : List ℕ} {lastError : String}

/-- Once a place gives the value and no place before gives another, it is returned. -/
theorem tryStarts_append (own : ∀ i ∈ late, JsonText.parse (payload lines i).toList = none ∨
      JsonText.parse (payload lines i).toList = some v)
    (found : ∃ i ∈ late, JsonText.parse (payload lines i).toList = some v) :
    tryStarts syntaxError lines (late ++ early) lastError = .ok v := by
  induction late generalizing lastError with
  | nil =>
      obtain ⟨i, none, -⟩ := found
      cases none
  | cons i late ih =>
      rw [List.cons_append, tryStarts]
      rcases own i List.mem_cons_self with none | is
      · rw [none]
        refine ih (fun j member => own j (List.mem_cons_of_mem _ member)) ?_
        obtain ⟨j, member, is⟩ := found
        rcases List.mem_cons.mp member with rfl | member
        · rw [none] at is
          cases is
        · exact ⟨j, member, is⟩
      · rw [is]

theorem startsPayload_ofList {line : List Char} (h : startsPayload (String.ofList line) = true) :
    ∃ c rest, line.dropWhile Text.isSpace = c :: rest ∧ Bracket c := by
  have begins : ∀ (c : Char) (start : String), start.toList = [c] → Bracket c →
      Text.startsWith (Text.trimStart (String.ofList line)) start = true →
      ∃ c rest, line.dropWhile Text.isSpace = c :: rest ∧ Bracket c := by
    intro c start is bracket starts
    rw [Text.startsWith, is, Text.trimStart, String.toList_ofList, String.toList_ofList,
      List.isPrefixOf_iff_prefix] at starts
    obtain ⟨rest, whole⟩ := starts
    exact ⟨c, rest, whole.symm, bracket⟩
  rcases (Bool.or_eq_true _ _).mp h with arr | obj
  · exact begins '[' "[" rfl (.inl rfl) arr
  · exact begins '{' "\x7b" rfl (.inr rfl) obj

theorem startsPayload_bracket {c : Char} (bracket : Bracket c) (line : List Char) :
    startsPayload (String.ofList (c :: line)) = true := by
  have noSpace : Text.isSpace c = false := by rcases bracket with rfl | rfl <;> rfl
  have trimmed : (Text.trimStart (String.ofList (c :: line))).toList = c :: line := by
    rw [Text.trimStart, String.toList_ofList, String.toList_ofList,
      List.dropWhile_cons_of_neg (by rw [noSpace]; exact Bool.false_ne_true)]
  rw [startsPayload, Text.startsWith, Text.startsWith, trimmed, Bool.or_eq_true, List.isPrefixOf_iff_prefix,
    List.isPrefixOf_iff_prefix]
  rcases bracket with rfl | rfl
  · exact .inl ⟨line, rfl⟩
  · exact .inr ⟨line, rfl⟩

theorem rdropWhile_blank {c : Char} {rest blank : List Char} (spaces : ∀ d ∈ blank, Text.isSpace d = true)
    (last : ∀ d, (c :: rest).getLast? = some d → Text.isSpace d = false) :
    (c :: rest ++ blank).rdropWhile Text.isSpace = c :: rest := by
  induction blank using List.reverseRecOn with
  | nil =>
      rw [List.append_nil, List.rdropWhile_eq_self_iff]
      intro nonempty space
      have is := last _ (List.getLast?_eq_some_getLast nonempty)
      rw [space] at is
      cases is
  | append_singleton blank d ih =>
      obtain ⟨spaces, space⟩ := List.forall_mem_append.mp spaces
      rw [← List.append_assoc, List.rdropWhile_concat_pos _ _ _ (space d (List.mem_singleton_self d)), ih spaces]

/-- Of a text with blanks after it, an end that begins with a bracket is an end of the text. -/
theorem trim_end {text blank front back : List Char} {c : Char} {rest : List Char}
    (whole : text ++ blank = front ++ back) (spaces : ∀ d ∈ blank, Text.isSpace d = true)
    (last : ∀ d, text.getLast? = some d → Text.isSpace d = false)
    (begins : back.dropWhile Text.isSpace = c :: rest) :
    ∃ before tail, text = before ++ c :: tail ∧ (Text.trim (String.ofList back)).toList = c :: tail := by
  have nothing : ∀ {l : List Char}, (∀ d ∈ l, Text.isSpace d = true) → l.dropWhile Text.isSpace = [] :=
    fun all => List.dropWhile_eq_nil_iff.mpr all
  rcases List.append_eq_append_iff.mp whole with ⟨more, rfl, rfl⟩ | ⟨own, rfl, rfl⟩
  · rw [nothing fun d member => spaces d (List.mem_append_right _ member)] at begins
    cases begins
  · rw [List.dropWhile_append] at begins
    split at begins
    · rw [nothing spaces] at begins
      cases begins
    · rename_i filled
      cases dropped : own.dropWhile Text.isSpace with
      | nil => rw [dropped] at filled; exact absurd rfl filled
      | cons d tail =>
          rw [dropped, List.cons_append] at begins
          obtain ⟨rfl, rfl⟩ := List.cons.inj begins
          have split : own = own.takeWhile Text.isSpace ++ d :: tail := by
            rw [← dropped, List.takeWhile_append_dropWhile]
          have ends : ∀ e, (d :: tail).getLast? = some e → Text.isSpace e = false := fun e is => by
            refine last e ?_
            rw [split, ← List.append_assoc, List.getLast?_append, is]
            rfl
          refine ⟨front ++ own.takeWhile Text.isSpace, tail, ?_, ?_⟩
          · rw [List.append_assoc, ← split]
          · have kept : (own ++ blank).dropWhile Text.isSpace = d :: tail ++ blank := by
              rw [List.dropWhile_append, dropped]
              rfl
            rw [Text.trim, String.toList_ofList, String.toList_ofList, kept, rdropWhile_blank spaces ends]

/-- The lines from one of those after the first ones on, as one text. -/
theorem payload_late {before : List (List Char)} {back rest : List Char} {k : ℕ}
    (pieces : rest.splitOn '\n' = (back.splitOn '\n').drop k) :
    let lines := (before ++ back.splitOn '\n').map String.ofList
    (∃ line more, rest.splitOn '\n' = line :: more ∧ lines.getD (before.length + k) "" = String.ofList line ∧
      rest.filter (· ≠ '\n') = line ++ more.flatten) ∧
      payload lines (before.length + k) = Text.trim (String.ofList (rest.filter (· ≠ '\n'))) := by
  intro lines
  have dropped : lines.drop (before.length + k) = (rest.splitOn '\n').map String.ofList := by
    rw [← List.map_drop, List.drop_append, List.drop_of_length_le (Nat.le_add_right _ _), Nat.add_sub_cancel_left,
      List.nil_append, pieces]
  constructor
  · obtain ⟨line, more, is⟩ := List.exists_cons_of_ne_nil (List.splitOn_ne_nil '\n' rest)
    refine ⟨line, more, is, ?_, ?_⟩
    · rw [is, List.map_cons] at dropped
      have here : lines[before.length + k]? = some (String.ofList line) := by
        rw [← List.head?_drop, dropped]
        rfl
      rw [List.getD_eq_getElem?_getD, here]
      rfl
    · rw [← Text.flatten_splitOn, is, List.flatten_cons]
  · rw [payload, dropped]
    refine congrArg Text.trim (String.toList_inj.mp ?_)
    rw [Text.toList_join, String.toList_ofList, ← Text.flatten_splitOn, List.flatMap_map, List.flatMap_def]
    congr 1
    exact (List.map_congr_left fun line _ => String.toList_ofList).trans (List.map_id _)

/-- The text ends with a line, so that what comes after it is split by itself. -/
def Ended (text : List Char) : Prop :=
  ∃ before, ∀ rest, (text ++ rest).splitOn '\n' = before ++ rest.splitOn '\n'

theorem ended_line (line : List Char) : Ended (line ++ ['\n']) :=
  ⟨line.splitOn '\n', fun rest => by
    rw [List.append_assoc, List.singleton_append, List.splitOn_append_cons_self]⟩

theorem Ended.append {front back : List Char} (h : Ended front) (h' : Ended back) : Ended (front ++ back) := by
  obtain ⟨before, splits⟩ := h
  obtain ⟨before', splits'⟩ := h'
  exact ⟨before ++ before', fun rest => by rw [List.append_assoc, splits, splits', List.append_assoc]⟩

theorem ended_flatMap (pieces : List (List Char)) : Ended (pieces.flatMap (· ++ ['\n'])) := by
  induction pieces with
  | nil => exact ⟨[], fun rest => rfl⟩
  | cons piece pieces ih => exact (ended_line piece).append ih

/-- The lines before the payload end, and the payload begins after them. -/
theorem cleaned_eq (h : Serialization v text) (front : List (List Char)) {wrapped : List Char} (after : List Char)
    (wraps : wrapped.filter (fun c => c ≠ '\n' ∧ c ≠ '\r') = text) :
    ∃ first c back, (front.flatMap (· ++ ['\n']) ++ wrapped ++ after).filter (· ≠ '\r') = first ++ c :: back ∧
      Ended first ∧ Bracket c ∧
      (c :: back).filter (· ≠ '\n') = text ++ (after.filter (· ≠ '\r')).filter (· ≠ '\n') := by
  obtain ⟨c, rest, is, bracket⟩ := h.begins
  have clean : (wrapped.filter (· ≠ '\r')).filter (· ≠ '\n') = c :: rest := by
    rw [List.filter_filter, ← is, ← wraps]
    refine List.filter_congr fun d _ => ?_
    simp
  obtain ⟨newlines, more, split, only, kept, others⟩ := List.filter_eq_cons_iff.mp clean
  have lines : (front.flatMap (· ++ ['\n'])).filter (· ≠ '\r') =
      (front.map (·.filter (· ≠ '\r'))).flatMap (· ++ ['\n']) := by
    rw [List.filter_flatMap, List.flatMap_map]
    refine List.flatMap_congr fun line _ => ?_
    rw [List.filter_append]
    rfl
  have ends : ∀ newlines : List Char, (∀ d ∈ newlines, ¬ decide (d ≠ '\n') = true) → Ended newlines := by
    intro newlines only
    induction newlines with
    | nil => exact ⟨[], fun rest => rfl⟩
    | cons d newlines ih =>
        obtain ⟨is, only⟩ := List.forall_mem_cons.mp only
        have is : d = '\n' := not_not.mp fun other => is (decide_eq_true other)
        rw [is]
        exact (ended_line []).append (ih only)
  refine ⟨(front.map (·.filter (· ≠ '\r'))).flatMap (· ++ ['\n']) ++ newlines, c,
    more ++ after.filter (· ≠ '\r'), ?_, (ended_flatMap _).append (ends newlines only), bracket, ?_⟩
  · rw [List.filter_append, List.filter_append, lines, split]
    simp only [List.append_assoc, List.cons_append]
  · have begins : (c :: (more ++ after.filter (· ≠ '\r'))).filter (· ≠ '\n') =
        c :: (more ++ after.filter (· ≠ '\r')).filter (· ≠ '\n') := List.filter_cons_of_pos kept
    rw [begins, List.filter_append, others, is]
    rfl

/-- Of the places after the first lines, those that begin inside the text are refused. -/
theorem parse_late (h : Serialization v text) {before : List (List Char)} {back blank : List Char}
    (whole : back.filter (· ≠ '\n') = text ++ blank) (spaces : ∀ d ∈ blank, Text.isSpace d = true) {k : ℕ}
    (inside : k < (back.splitOn '\n').length) :
    let lines := (before ++ back.splitOn '\n').map String.ofList
    startsPayload (lines.getD (before.length + k) "") = true →
      JsonText.parse (payload lines (before.length + k)).toList = none ∨
        JsonText.parse (payload lines (before.length + k)).toList = some v := by
  intro lines starts
  obtain ⟨skipped, rest, split, pieces⟩ := Text.splitOn_drop inside
  obtain ⟨⟨line, more, -, here, read⟩, is⟩ := @payload_late before back rest k pieces
  rw [here] at starts
  obtain ⟨d, tail, trimmed, bracket⟩ := startsPayload_ofList starts
  rw [split, List.filter_append] at whole
  have begins : (rest.filter (· ≠ '\n')).dropWhile Text.isSpace = d :: (tail ++ more.flatten) := by
    rw [read, List.dropWhile_append, trimmed]
    rfl
  obtain ⟨front, tail', own, payload⟩ := trim_end whole.symm spaces h.ends begins
  have reads := h.reads
  rw [own] at reads
  rw [is, payload]
  cases front with
  | nil => exact .inr reads
  | cons first front =>
      obtain ⟨b, others, begins', opens⟩ := h.begins
      rw [own] at begins'
      obtain ⟨rfl, -⟩ := List.cons.inj begins'
      exact .inl (parse_inner reads opens bracket)

theorem parse_first (h : Serialization v text) {before : List (List Char)} {c : Char} {back blank : List Char}
    (bracket : Bracket c) (whole : (c :: back).filter (· ≠ '\n') = text ++ blank)
    (spaces : ∀ d ∈ blank, Text.isSpace d = true) :
    let lines := (before ++ (c :: back).splitOn '\n').map String.ofList
    startsPayload (lines.getD (before.length + 0) "") = true ∧
      JsonText.parse (payload lines (before.length + 0)).toList = some v := by
  intro lines
  obtain ⟨⟨line, more, first, here, -⟩, is⟩ := @payload_late before (c :: back) (c :: back) 0 rfl
  obtain ⟨b, others, rfl, opens⟩ := h.begins
  constructor
  · have inside : ¬ (c == '\n') = true := by rcases bracket with rfl | rfl <;> decide
    obtain ⟨piece, pieces, rest⟩ := List.exists_cons_of_ne_nil (List.splitOn_ne_nil '\n' back)
    rw [List.splitOn_cons_eq_if_modifyHead, if_neg inside, rest] at first
    rw [here, ← (List.cons.inj first).1]
    exact startsPayload_bracket bracket piece
  · have noSpace : Text.isSpace b = false := by rcases opens with rfl | rfl <;> rfl
    have kept : (b :: others ++ blank).dropWhile Text.isSpace = b :: others ++ blank :=
      List.dropWhile_cons_of_neg (by rw [noSpace]; exact Bool.false_ne_true)
    rw [is, whole, Text.trim, String.toList_ofList, String.toList_ofList, kept, rdropWhile_blank spaces h.ends]
    exact h.reads

/-- A serialized array or object is recovered, however it is wrapped and whatever lines come before it. -/
theorem parseSerializedJson_serialization {v : Value} {text : List Char} (h : Serialization v text)
    (syntaxError : String → String) (framed : Option Bool) (front : List (List Char)) {wrapped after : List Char}
    (wraps : wrapped.filter (fun c => c ≠ '\n' ∧ c ≠ '\r') = text) (blank : ∀ c ∈ after, Text.isSpace c = true) :
    parseSerializedJson syntaxError
        (String.ofList (front.flatMap (· ++ ['\n']) ++ wrapped ++ after)) framed = .ok v := by
  obtain ⟨first, c, back, cleaned, ⟨before, splits⟩, bracket, whole⟩ := cleaned_eq h front after wraps
  have spaces : ∀ d ∈ (after.filter (· ≠ '\r')).filter (· ≠ '\n'), Text.isSpace d = true := fun d member =>
    blank d (List.mem_filter.mp (List.mem_filter.mp member).1).1
  have split : Text.split (String.ofList
      ((String.ofList (front.flatMap (· ++ ['\n']) ++ wrapped ++ after)).toList.filter (· ≠ '\r'))) '\n' =
        (before ++ (c :: back).splitOn '\n').map String.ofList := by
    rw [Text.split, String.toList_ofList, String.toList_ofList, cleaned, splits]
  unfold parseSerializedJson
  dsimp only
  rw [split, List.length_map, List.length_append, List.range_add, List.filter_append, List.reverse_append]
  have found := @parse_first v text h before c back _ bracket whole spaces
  have pieces : 0 < ((c :: back).splitOn '\n').length := List.length_pos_iff.mpr (List.splitOn_ne_nil _ _)
  have candidate : before.length + 0 ∈ (((List.range ((c :: back).splitOn '\n').length).map
      (before.length + ·)).filter fun i =>
        startsPayload (((before ++ (c :: back).splitOn '\n').map String.ofList).getD i "")) :=
    List.mem_filter.mpr ⟨List.mem_map.mpr ⟨0, List.mem_range.mpr pieces, rfl⟩, found.1⟩
  rw [if_neg (List.append_ne_nil_of_right_ne_nil _ (List.ne_nil_of_mem candidate))]
  refine tryStarts_append (fun i member => ?_) ⟨_, List.mem_reverse.mpr candidate, found.2⟩
  obtain ⟨late, starts⟩ := List.mem_filter.mp (List.mem_reverse.mp member)
  obtain ⟨k, inside, rfl⟩ := List.mem_map.mp late
  exact parse_late h whole spaces (List.mem_range.mp inside) starts

theorem serialization_compact (distinct : Distinct v) (collection : v.isCollection = true) :
    Serialization v (compact v) := by
  obtain ⟨first, inner, last, is, begins, ends⟩ := compact_collection collection
  refine ⟨parse_compact distinct collection, fun c member => ?_, ⟨first, inner ++ [last], is, begins⟩, fun c is' => ?_⟩
  · have printable := printable_compact v c member
    constructor
    · rintro rfl
      exact absurd printable (by decide)
    · rintro rfl
      exact absurd printable (by decide)
  · rw [is, List.getLast?_concat] at is'
    cases is'
    rcases ends with rfl | rfl <;> rfl

end

/-- Every array or object can be written on one line, and however it is written there, it is recovered from
the wrapped text. -/
theorem wrapped_is_recovered (v : Value) (distinct : Distinct v) (collection : v.isCollection = true) :
    Serialization v (compact v) ∧
      ∀ text, Serialization v text → ∀ (syntaxError : String → String) (framed : Option Bool)
        (front : List (List Char)) (wrapped after : List Char),
        wrapped.filter (fun c => c ≠ '\n' ∧ c ≠ '\r') = text → (∀ c ∈ after, Text.isSpace c = true) →
          parseSerializedJson syntaxError
            (String.ofList (front.flatMap (· ++ ['\n']) ++ wrapped ++ after)) framed = .ok v :=
  ⟨serialization_compact distinct collection, fun _ h syntaxError framed front _ _ wraps blank =>
    parseSerializedJson_serialization h syntaxError framed front wraps blank⟩

/-- The topics of a log line begin with a bracket, and the terminal wraps there. -/
theorem wrapped_is_recovered_log :
    let v := Value.arr [.obj [(Text.utf16 "a".toList, .str (Text.utf16 "[1] b".toList))], .arr []]
    parseSerializedJson (fun _ => "JSON Parse error")
      "[admin@MikroTik] > :put [:serialize to=json [/log print]]\n[\x7b\"a\":\"\n[1] b\"\x7d,\r\n[]]\n \n" none = .ok v := by
  intro v
  have distinct : Distinct v := .arr (by
    intro w member
    rcases List.mem_cons.mp member with rfl | member
    · exact .obj (by decide) fun m member => by rw [List.mem_singleton.mp member]; exact .str _
    · rw [List.mem_singleton.mp member]
      exact .arr fun w none => (List.not_mem_nil none).elim)
  have recovered := (wrapped_is_recovered v distinct rfl).2 (compact v) (serialization_compact distinct rfl)
    (fun _ => "JSON Parse error") none ["[admin@MikroTik] > :put [:serialize to=json [/log print]]".toList]
    "[\x7b\"a\":\"\n[1] b\"\x7d,\r\n[]]".toList "\n \n".toList (by decide +kernel) (List.all_eq_true.mp (by decide +kernel))
  exact recovered

end Quickchr.GuestSnapshot
