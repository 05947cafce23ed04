import Quickchr.Lib.JsonText
import Quickchr.Lib.Record

/-!
# Plain JSON

Values whose numbers are integers and whose strings are made of characters, read by `JsonText` as all
texts are. `Json.stringify` lays a value out with one tab for each level; reading inverts writing, and a
text that was cut off does not read as anything.
-/

inductive Json
  | null
  | bool (b : Bool)
  | num (n : ℤ)
  | str (s : String)
  | arr (items : List Json)
  | obj (members : List (String × Json))

namespace Json

open JsonText (Value Literal Part Frame Mode State Due Separated due_arr due_key finish finishString isSpace run run_cons)

def newline (indent : ℕ) : List Char := '\n' :: List.replicate indent '\t'

def integerText : ℤ → List Char
  | .ofNat n => Nat.toDigits 10 n
  | .negSucc n => '-' :: Nat.toDigits 10 (n + 1)

mutual

def text (indent : ℕ) : Json → List Char
  | .null => ['n', 'u', 'l', 'l']
  | .bool true => ['t', 'r', 'u', 'e']
  | .bool false => ['f', 'a', 'l', 's', 'e']
  | .num n => integerText n
  | .str s => (Text.json s).toList
  | .arr [] => ['[', ']']
  | .arr (v :: vs) =>
      '[' :: newline (indent + 1) ++ text (indent + 1) v ++ items (indent + 1) vs ++
        newline indent ++ [']']
  | .obj [] => ['{', '}']
  | .obj ((k, v) :: ms) =>
      '{' :: newline (indent + 1) ++ (Text.json k).toList ++ ':' :: ' ' :: text (indent + 1) v ++
        members (indent + 1) ms ++ newline indent ++ ['}']

def items (indent : ℕ) : List Json → List Char
  | [] => []
  | v :: vs => ',' :: newline indent ++ text indent v ++ items indent vs

def members (indent : ℕ) : List (String × Json) → List Char
  | [] => []
  | (k, v) :: ms =>
      ',' :: newline indent ++ (Text.json k).toList ++ ':' :: ' ' :: text indent v ++
        members indent ms

end

def stringify (v : Json) : List Char := text 0 v

/-- The integer that a number is, if it is one. -/
def integer : List Char → Option ℤ
  | '-' :: digits => if digits.all Char.isDigit then some (-(Nat.ofDigitChars 10 digits 0 : ℤ)) else none
  | digits => if digits.all Char.isDigit then some (Nat.ofDigitChars 10 digits 0 : ℤ) else none

mutual

def ofValue : Value → Option Json
  | .null => some .null
  | .bool b => some (.bool b)
  | .num literal => (integer literal.text).map .num
  | .str units => (Text.ofUtf16 units).map fun s => .str (String.ofList s)
  | .arr vs => (ofItems vs).map .arr
  | .obj ms => (ofMembers ms).map .obj

def ofItems : List Value → Option (List Json)
  | [] => some []
  | v :: vs => do
      let first ← ofValue v
      return first :: (← ofItems vs)

def ofMembers : List (List UInt16 × Value) → Option (List (String × Json))
  | [] => some []
  | (k, v) :: ms => do
      let key ← Text.ofUtf16 k
      let first ← ofValue v
      return (String.ofList key, first) :: (← ofMembers ms)

end

def parse (cs : List Char) : Option Json := (JsonText.parse cs).bind ofValue

theorem toDigits_head {n : ℕ} (positive : 0 < n) :
    ∃ c cs, Nat.toDigits 10 n = c :: cs ∧ c ≠ '0' := by
  induction n using Nat.strongRecOn with
  | ind n ih =>
      by_cases small : n < 10
      · refine ⟨_, [], Nat.toDigits_of_lt_base small, ?_⟩
        have : ∀ d < 10, 0 < d → Nat.digitChar d ≠ '0' := by decide
        exact this n small positive
      · obtain ⟨c, cs, head, nonzero⟩ := ih (n / 10) (by omega) (by omega)
        refine ⟨c, cs ++ [Nat.digitChar (n % 10)], ?_, nonzero⟩
        rw [Nat.toDigits_of_base_le (by decide) (by omega), head, List.cons_append]

theorem toDigits_digit {n : ℕ} {c : Char} (h : c ∈ Nat.toDigits 10 n) : c.isDigit = true :=
  Nat.isDigit_of_mem_toDigits (by decide) (by decide) h

theorem foldlM_whole {cs : List Char} (digits : ∀ c ∈ cs, c.isDigit = true) :
    cs.foldlM Part.next .whole = some .whole := by
  induction cs with
  | nil => rfl
  | cons c cs ih =>
      obtain ⟨digit, digits⟩ := List.forall_mem_cons.mp digits
      have other : ∀ d : Char, d.isDigit = false → c ≠ d := by
        rintro d notDigit rfl
        rw [digit] at notDigit
        cases notDigit
      have next : Part.next .whole c = some .whole := by
        rw [Part.next, if_neg (other _ rfl), Part.tail, if_neg (not_or.mpr ⟨other _ rfl, other _ rfl⟩), Part.digit,
          if_pos digit]
        rfl
      rw [List.foldlM_cons, next]
      exact ih digits

/-- A natural number is one, alone or after a sign. -/
theorem foldlM_toDigits {part : Part} (begins : part = .start ∨ part = .minus) (n : ℕ) :
    ((Nat.toDigits 10 n).foldlM Part.next part).any Part.ends = true := by
  by_cases zero : n = 0
  · rw [zero, Nat.toDigits_zero]
    rcases begins with rfl | rfl <;> rfl
  · obtain ⟨c, cs, is, nonzero⟩ := toDigits_head (Nat.pos_of_ne_zero zero)
    have digits : ∀ d ∈ c :: cs, d.isDigit = true := fun d member => toDigits_digit (is ▸ member)
    obtain ⟨digit, digits⟩ := List.forall_mem_cons.mp digits
    have minus : c ≠ '-' := by rintro rfl; cases digit
    have next : Part.next part c = some .whole := by
      rcases begins with rfl | rfl
      · rw [Part.next, if_neg minus, if_neg nonzero, Part.digit, if_pos digit]
      · rw [Part.next, if_neg nonzero, Part.digit, if_pos digit]
    rw [is, List.foldlM_cons, next]
    exact (congrArg (Option.any Part.ends) (foldlM_whole digits)).trans rfl

/-- The number that an integer is written as. -/
def literal (n : ℤ) : Literal where
  text := integerText n
  number := by
    cases n with
    | ofNat n => exact foldlM_toDigits (.inl rfl) n
    | negSucc n => exact foldlM_toDigits (.inr rfl) (n + 1)

theorem integer_integerText (n : ℤ) : integer (integerText n) = some n := by
  have digits (n : ℕ) : (Nat.toDigits 10 n).all Char.isDigit = true :=
    List.all_eq_true.mpr fun c member => toDigits_digit member
  cases n with
  | ofNat n =>
      rw [integerText]
      unfold integer
      split
      · rename_i sign
        have digit := toDigits_digit (n := n) (sign ▸ List.mem_cons_self)
        cases digit
      · rw [if_pos (digits n), Nat.ofDigitChars_ten_toDigits]
        rfl
  | negSucc n =>
      simp only [integerText, integer, digits (n + 1), if_true, Nat.ofDigitChars_ten_toDigits]
      rfl

mutual

/-- The value as it is read of a text. -/
def value : Json → Value
  | .null => .null
  | .bool b => .bool b
  | .num n => .num (literal n)
  | .str s => .str (Text.utf16 s.toList)
  | .arr vs => .arr (valueItems vs)
  | .obj ms => .obj (valueMembers ms)

def valueItems : List Json → List Value
  | [] => []
  | v :: vs => value v :: valueItems vs

def valueMembers : List (String × Json) → List (List UInt16 × Value)
  | [] => []
  | (k, v) :: ms => (Text.utf16 k.toList, value v) :: valueMembers ms

end

mutual

theorem ofValue_value : (v : Json) → ofValue (value v) = some v
  | .null => rfl
  | .bool _ => rfl
  | .num n => by rw [value, ofValue, literal, integer_integerText, Option.map_some]
  | .str s => by rw [value, ofValue, Text.ofUtf16_utf16, Option.map_some, String.ofList_toList]
  | .arr vs => by rw [value, ofValue, ofItems_valueItems vs, Option.map_some]
  | .obj ms => by rw [value, ofValue, ofMembers_valueMembers ms, Option.map_some]

theorem ofItems_valueItems : (vs : List Json) → ofItems (valueItems vs) = some vs
  | [] => rfl
  | v :: vs => by
      rw [valueItems, ofItems, ofValue_value v, ofItems_valueItems vs]
      rfl

theorem ofMembers_valueMembers : (ms : List (String × Json)) → ofMembers (valueMembers ms) = some ms
  | [] => rfl
  | (k, v) :: ms => by
      rw [valueMembers, ofMembers, Text.ofUtf16_utf16, ofValue_value v, ofMembers_valueMembers ms, Option.bind_eq_bind,
        Option.bind_some, String.ofList_toList]
      rfl

end

/-- No two members of an object have one key. -/
inductive Distinct : Json → Prop
  | null : Distinct .null
  | bool (b : Bool) : Distinct (.bool b)
  | num (n : ℤ) : Distinct (.num n)
  | str (s : String) : Distinct (.str s)
  | arr {items : List Json} : (∀ v ∈ items, Distinct v) → Distinct (.arr items)
  | obj {members : List (String × Json)} : (members.map Prod.fst).Nodup →
      (∀ m ∈ members, Distinct m.2) → Distinct (.obj members)

theorem run_jsonChar (frames : List Frame) (read : List UInt16) (rest : List Char) (c : Char) :
    run (frames, .string read) ((Text.jsonChar c).toList ++ rest) =
      run (frames, .string (read ++ Text.units c)) rest := by
  unfold Text.jsonChar
  split
  iterate 7 rfl
  rename_i notQuote notBackslash _ _ _ _ _
  split
  · rename_i control
    have high := JsonText.hexDigit_digitChar (c.toNat / 16) (by omega)
    have low := JsonText.hexDigit_digitChar (c.toNat % 16) (by omega)
    have code : ([0, 0, c.toNat / 16] ++ [c.toNat % 16]).foldl (fun n d => 16 * n + d) 0 = c.toNat := by
      simp only [List.cons_append, List.nil_append, List.foldl_cons, List.foldl_nil]
      omega
    have text : ("\\u00" ++ String.ofList [Nat.digitChar (c.toNat / 16),
        Nat.digitChar (c.toNat % 16)]).toList ++ rest = '\\' :: 'u' :: '0' :: '0' ::
          Nat.digitChar (c.toNat / 16) :: Nat.digitChar (c.toNat % 16) :: rest := by
      simp only [String.toList_append, String.toList_ofList]
      rfl
    have started : ∀ cs, run (frames, .string read) ('\\' :: 'u' :: '0' :: '0' :: cs) =
        run (frames, .unicode read [0, 0]) cs := fun _ => rfl
    have own : Text.units c = [.ofNat c.toNat] := if_pos (by omega)
    rw [text, started, run_cons]
    simp only [JsonText.step, high, Option.map_some, List.length_cons, List.length_nil]
    rw [if_pos (by decide), Option.bind_some, run_cons]
    simp only [JsonText.step, low, Option.map_some, List.length_append, List.length_cons, List.length_nil]
    rw [if_neg (by decide), show [0, 0] ++ [c.toNat / 16] ++ [c.toNat % 16] = [0, 0, c.toNat / 16] ++ [c.toNat % 16] from rfl,
      code, Option.bind_some, own]
  · rename_i printable
    rw [show c.toString.toList ++ rest = c :: rest by simp, run_cons]
    simp only [JsonText.step]
    rw [if_neg notQuote, if_neg notBackslash, if_neg printable, Option.bind_some]

theorem run_jsonChars (frames : List Frame) (read : List UInt16) (rest s : List Char) :
    run (frames, .string read) ((s.flatMap fun c => (Text.jsonChar c).toList) ++ rest) =
      run (frames, .string (read ++ Text.utf16 s)) rest := by
  induction s generalizing read with
  | nil => rw [Text.utf16, List.flatMap_nil, List.flatMap_nil, List.nil_append, List.append_nil]
  | cons c s ih =>
      rw [List.flatMap_cons, List.append_assoc, run_jsonChar, ih, List.append_assoc, Text.utf16, Text.utf16,
        List.flatMap_cons]

theorem toList_json (s : String) :
    (Text.json s).toList = '"' :: ((s.toList.flatMap fun c => (Text.jsonChar c).toList) ++ ['"']) := by
  simp only [Text.json, String.toList_append, String.toList_join, List.flatMap_map]
  rfl

theorem run_json (frames : List Frame) (s : String) (rest : List Char) :
    run (frames, .string [])
        ((s.toList.flatMap fun c => (Text.jsonChar c).toList) ++ '"' :: rest) =
      (finishString frames (Text.utf16 s.toList)).bind fun t => run t rest := by
  rw [run_jsonChars, List.nil_append, run_cons]
  rfl

theorem run_newline {frames : List Frame} {mode : Mode} (indent : ℕ) (rest : List Char)
    (spaces : ∀ c, isSpace c → JsonText.step (frames, mode) c = some (frames, mode)) :
    run (frames, mode) (newline indent ++ rest) = run (frames, mode) rest := by
  have tabs : run (frames, mode) (List.replicate indent '\t' ++ rest) = run (frames, mode) rest := by
    induction indent with
    | zero => rfl
    | succ indent ih =>
        rw [List.replicate_succ, List.cons_append, run_cons, spaces '\t' rfl, Option.bind_some, ih]
  rw [newline, List.cons_append, run_cons, spaces '\n' rfl, Option.bind_some, tabs]

theorem step_value_space {frames : List Frame} {opened : Bool} (c : Char) (space : isSpace c) :
    JsonText.step (frames, .value opened) c = some (frames, .value opened) := by
  simp only [JsonText.step, space, if_true]

theorem step_key_space {frames : List Frame} {opened : Bool} (c : Char) (space : isSpace c) :
    JsonText.step (frames, .key opened) c = some (frames, .key opened) := by
  simp only [JsonText.step, space, if_true]

theorem step_next_space {frames : List Frame} (c : Char) (space : isSpace c) :
    JsonText.step (frames, .next) c = some (frames, .next) := by
  simp only [JsonText.step, JsonText.after, space, if_true]

theorem separated_newline (indent : ℕ) (rest : List Char) : Separated (newline indent ++ rest) :=
  ⟨'\n', List.replicate indent '\t' ++ rest, rfl, fun part => by cases part <;> rfl⟩

theorem separated_items {indent : ℕ} {vs : List Json} {rest : List Char} (h : Separated rest) :
    Separated (items indent vs ++ rest) := by
  cases vs with
  | nil => rwa [items, List.nil_append]
  | cons v vs => exact ⟨',', _, by rw [items]; rfl, fun part => by cases part <;> rfl⟩

theorem separated_members {indent : ℕ} {ms : List (String × Json)} {rest : List Char}
    (h : Separated rest) : Separated (members indent ms ++ rest) := by
  cases ms with
  | nil => rwa [members, List.nil_append]
  | cons m ms => exact ⟨',', _, by rw [members]; rfl, fun part => by cases part <;> rfl⟩

theorem run_colon (frames : List Frame) (rest : List Char) :
    run (frames, .colon) (':' :: ' ' :: rest) = run (frames, .value false) rest := rfl

/-- The keys stay different as code units. -/
theorem nodup_valueMembers {ms : List (String × Json)} (nodup : (ms.map Prod.fst).Nodup) :
    ((valueMembers ms).map Prod.fst).Nodup := by
  have keys : (valueMembers ms).map Prod.fst = (ms.map Prod.fst).map fun k => Text.utf16 k.toList := by
    induction ms with
    | nil => rfl
    | cons m ms ih =>
        rw [valueMembers, List.map_cons, List.map_cons, List.map_cons, ih (List.nodup_cons.mp nodup).2]
  rw [keys]
  exact List.Pairwise.map _ (fun a b apart same => apart (String.toList_inj.mp (Text.utf16_injective same))) nodup

mutual

/-- What is written for a value is read as that value, whatever is open around it. -/
theorem run_text {v : Json} (distinct : Distinct v) {frames : List Frame} (due : Due frames)
    (opened : Bool) (indent : ℕ) {rest : List Char}
    (separated : (value v).isCollection = true ∨ Separated rest) :
    run (frames, .value opened) (text indent v ++ rest) =
      (finish frames (value v)).bind fun s => run s rest := by
  match v, distinct with
  | .null, _ => rfl
  | .bool true, _ => rfl
  | .bool false, _ => rfl
  | .num n, _ =>
      rw [text]
      exact JsonText.run_literal (literal n) opened (separated.resolve_left Bool.false_ne_true)
  | .str s, _ =>
      have quotes : ∀ cs, run (frames, .value opened) ('"' :: cs) = run (frames, .string []) cs :=
        fun _ => rfl
      rw [text, toList_json]
      simp only [List.cons_append, List.append_assoc, List.nil_append]
      rw [quotes, run_json, JsonText.finishString_due due, value]
  | .arr [], _ => rfl
  | .arr (v :: vs), .arr distinct =>
      obtain ⟨first, others⟩ := List.forall_mem_cons.mp distinct
      have opens : ∀ cs, run (frames, .value opened) ('[' :: cs) =
          run (.arr [] :: frames, .value true) cs := fun _ => rfl
      have closes : run (.arr (value v :: valueItems vs) :: frames, .next) (']' :: rest) =
          (finish frames (.arr (value v :: valueItems vs))).bind fun s => run s rest := rfl
      rw [text]
      simp only [List.cons_append, List.append_assoc, List.nil_append]
      rw [opens, run_newline _ _ step_value_space, run_text first (due_arr _ _) true (indent + 1)
        (.inr (separated_items (separated_newline indent _))), finish, Option.bind_some,
        run_items others _ (indent + 1) (separated_newline indent _), List.nil_append,
        run_newline _ _ step_next_space]
      exact closes
  | .obj [], _ => rfl
  | .obj ((k, v) :: ms), .obj nodup distinct =>
      obtain ⟨first, others⟩ := List.forall_mem_cons.mp distinct
      have opens : ∀ cs, run (frames, .value opened) ('\x7b' :: cs) =
          run (.obj [] none :: frames, .key true) cs := fun _ => rfl
      have quotes : ∀ cs, run (.obj [] none :: frames, .key true) ('"' :: cs) =
          run (.obj [] none :: frames, .string []) cs := fun _ => rfl
      have closes : run (.obj (valueMembers ((k, v) :: ms)) none :: frames, .next) ('\x7d' :: rest) =
          (finish frames (.obj (valueMembers ((k, v) :: ms)))).bind fun s => run s rest := rfl
      rw [text, toList_json]
      simp only [List.cons_append, List.append_assoc, List.nil_append]
      rw [opens, run_newline _ _ step_key_space, quotes, run_json, finishString, Option.bind_some, run_colon,
        run_text first (due_key _ _ _) false (indent + 1) (.inr (separated_members (separated_newline indent _))),
        finish, Option.bind_some, JsonText.put, run_members others (nodup_valueMembers nodup) (indent + 1)
        (separated_newline indent _), run_newline _ _ step_next_space]
      exact closes

theorem run_items {vs : List Json} (distinct : ∀ v ∈ vs, Distinct v) {frames : List Frame}
    (before : List Value) (indent : ℕ) {rest : List Char} (separated : Separated rest) :
    run (.arr before :: frames, .next) (items indent vs ++ rest) =
      run (.arr (before ++ valueItems vs) :: frames, .next) rest := by
  match vs with
  | [] => rw [items, List.nil_append, valueItems, List.append_nil]
  | v :: vs =>
      obtain ⟨first, others⟩ := List.forall_mem_cons.mp distinct
      have comma : ∀ cs, run (.arr before :: frames, .next) (',' :: cs) =
          run (.arr before :: frames, .value false) cs := fun _ => rfl
      rw [items]
      simp only [List.cons_append, List.append_assoc]
      rw [comma, run_newline _ _ step_value_space, run_text first (due_arr _ _) false indent
        (.inr (separated_items separated)), finish, Option.bind_some, run_items others _ indent separated,
        List.append_assoc, List.singleton_append, valueItems]

theorem run_members {ms : List (String × Json)} (distinct : ∀ m ∈ ms, Distinct m.2)
    {frames : List Frame} {before : List (List UInt16 × Value)}
    (nodup : ((before ++ valueMembers ms).map Prod.fst).Nodup) (indent : ℕ) {rest : List Char}
    (separated : Separated rest) :
    run (.obj before none :: frames, .next) (members indent ms ++ rest) =
      run (.obj (before ++ valueMembers ms) none :: frames, .next) rest := by
  match ms with
  | [] => rw [members, List.nil_append, valueMembers, List.append_nil]
  | (k, v) :: ms =>
      obtain ⟨first, others⟩ := List.forall_mem_cons.mp distinct
      rw [valueMembers] at nodup ⊢
      have new : Text.utf16 k.toList ∉ before.map Prod.fst := by
        rw [List.map_append, List.map_cons] at nodup
        exact fun member => (List.nodup_append.mp nodup).2.2 _ member _ List.mem_cons_self rfl
      have nodup' : ((before ++ [(Text.utf16 k.toList, value v)] ++ valueMembers ms).map Prod.fst).Nodup := by
        rwa [List.append_assoc, List.singleton_append]
      have comma : ∀ cs, run (.obj before none :: frames, .next) (',' :: cs) =
          run (.obj before none :: frames, .key false) cs := fun _ => rfl
      have quotes : ∀ cs, run (.obj before none :: frames, .key false) ('"' :: cs) =
          run (.obj before none :: frames, .string []) cs := fun _ => rfl
      rw [members, toList_json]
      simp only [List.cons_append, List.append_assoc, List.nil_append]
      rw [comma, run_newline _ _ step_key_space, quotes, run_json, finishString, Option.bind_some, run_colon,
        run_text first (due_key _ _ _) false indent (.inr (separated_members separated)), finish, Option.bind_some,
        JsonText.put_of_not_mem new, run_members others nodup' indent separated, List.append_assoc,
        List.singleton_append]

end

theorem run_spaces {v : Value} {cs : List Char} (spaces : ∀ c ∈ cs, isSpace c) :
    run ([], .done v) cs = some ([], .done v) := by
  induction cs with
  | nil => rfl
  | cons c cs ih =>
      obtain ⟨space, spaces⟩ := List.forall_mem_cons.mp spaces
      rw [run_cons]
      simp only [JsonText.step, JsonText.after, space, if_true, Option.bind_some]
      exact ih spaces

/-- After the value only white space is read. -/
theorem run_done {v : Value} {cs : List Char} {s : State} (h : run ([], .done v) cs = some s) :
    ∀ c ∈ cs, isSpace c := by
  induction cs with
  | nil => exact fun _ none => nomatch none
  | cons c cs ih =>
      rw [run_cons] at h
      obtain ⟨t, stepped, h⟩ := Option.bind_eq_some_iff.mp h
      obtain ⟨space, same⟩ := Option.ite_none_right_eq_some.mp stepped
      cases same
      exact List.forall_mem_cons.mpr ⟨space, ih h⟩

theorem run_stringify {ms : List (String × Json)} (distinct : Distinct (.obj ms)) {spaces : List Char}
    (blank : ∀ c ∈ spaces, isSpace c) :
    run ([], .value false) (stringify (.obj ms) ++ spaces) = some ([], .done (value (.obj ms))) := by
  rw [stringify, run_text distinct (fun _ _ same => by cases same) false 0 (.inl (by rw [value]; rfl)), finish,
    Option.bind_some, run_spaces blank]

theorem parse_stringify {ms : List (String × Json)} (distinct : Distinct (.obj ms)) {spaces : List Char}
    (blank : ∀ c ∈ spaces, isSpace c) : parse (stringify (.obj ms) ++ spaces) = some (.obj ms) := by
  rw [parse, JsonText.parse, run_stringify distinct blank, Option.bind_some, JsonText.conclude, Option.bind_some,
    ofValue_value]

theorem stringify_obj (ms : List (String × Json)) :
    ∃ inner, stringify (.obj ms) = '\x7b' :: (inner ++ ['\x7d']) := by
  cases ms with
  | nil => exact ⟨[], by rw [stringify, text]; rfl⟩
  | cons m ms => exact ⟨_, by rw [stringify, text]; rfl⟩

/-- What a text that was cut off ends in: nothing, or what stands for half a character. -/
def Broken (tail : List Char) : Prop := tail = [] ∨ tail = ['\ufffd']

/-- What stands for half a character closes nothing. -/
theorem conclude_open {s : State} (opened : s.1 ≠ []) {tail : List Char} (broken : Broken tail) {v : Value} :
    (run s tail).bind JsonText.conclude ≠ some v := by
  intro h
  obtain ⟨t, rest, ended⟩ := Option.bind_eq_some_iff.mp h
  have closed := (JsonText.conclude_outside ended).1
  obtain ⟨-, length⟩ := JsonText.run_moves rest
  have kept : ∀ place, JsonText.balance place tail = 0 := by
    intro place
    rcases broken with rfl | rfl
    · rfl
    · cases place <;> rfl
  rw [kept, closed] at length
  exact opened (List.length_eq_zero_iff.mp (by simpa using length.symm))

/-- Of the text of an object and the line end after it, all but the line end has to be there for
it to be read, and then it is read as the object. -/
theorem parse_cut {ms : List (String × Json)} (distinct : Distinct (.obj ms))
    {front back tail : List Char} (cut : stringify (.obj ms) ++ ['\n'] = front ++ back)
    (broken : Broken tail) {v : Json} (h : parse (front ++ tail) = some v) :
    tail = [] ∧ (back = [] ∨ back = ['\n']) := by
  obtain ⟨inner, whole⟩ := stringify_obj ms
  obtain ⟨w, reads, -⟩ := Option.bind_eq_some_iff.mp h
  rw [JsonText.parse, JsonText.run_append, Option.bind_assoc] at reads
  obtain ⟨s, first, concluded⟩ := Option.bind_eq_some_iff.mp reads
  have ended : ∃ v, s = ([], .done v) := by
    cases front with
    | nil =>
        cases first
        rcases broken with rfl | rfl <;> cases concluded
    | cons c front =>
        rw [whole, List.cons_append, List.cons_append, List.cons.injEq] at cut
        obtain ⟨rfl, -⟩ := cut
        have inside : JsonText.Inner ([Frame.obj [] none], .key true) := .inl (List.cons_ne_nil _ _)
        exact (JsonText.run_inner inside first).resolve_left fun opened => conclude_open opened broken concluded
  obtain ⟨w, rfl⟩ := ended
  have noTail : tail = [] := by
    rcases broken with rfl | rfl
    · rfl
    · cases concluded
  refine ⟨noTail, ?_⟩
  have full : run ([], .value false) (front ++ back) = some ([], .done (value (.obj ms))) := by
    rw [← cut]
    exact run_stringify distinct (by simp [isSpace])
  rw [JsonText.run_append, first, Option.bind_some] at full
  have blank := run_done full
  rw [whole] at cut
  rcases List.eq_nil_or_concat back with rfl | ⟨before, last, rfl⟩
  · exact .inl rfl
  rw [List.concat_eq_append, ← List.append_assoc] at cut
  obtain ⟨cut, lineEnd⟩ := List.append_inj' cut rfl
  rcases List.eq_nil_or_concat before with rfl | ⟨earlier, bracket, rfl⟩
  · exact .inr lineEnd.symm
  rw [List.concat_eq_append, ← List.append_assoc, ← List.cons_append] at cut
  obtain ⟨-, isBracket⟩ := List.append_inj' cut rfl
  have space := blank bracket (by simp)
  rw [← List.cons.inj isBracket |>.1] at space
  exact absurd space (by decide)

end Json
