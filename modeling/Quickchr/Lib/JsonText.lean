import Quickchr.Lib.Text
import Mathlib.Data.Int.Notation

/-!
# JSON with every number and every string

A number is kept as it is written, and a string is its UTF-16 code units, so that half of a pair is a
string too. Whether a character stands inside a string, and how many brackets are open there, depends on
the characters before it alone; so what begins with a bracket inside a text is no text.
-/
namespace JsonText

open Text (units)

inductive Part
  | start | minus | zero | whole | point | fraction | e | sign | exponent

def Part.digit (c : Char) (next : Part) : Option Part := if c.isDigit then some next else none

def Part.tail (c : Char) : Option Part := if c = 'e' ∨ c = 'E' then some .e else none

def Part.next : Part → Char → Option Part
  | .start, c => if c = '-' then some .minus else if c = '0' then some .zero else digit c .whole
  | .minus, c => if c = '0' then some .zero else digit c .whole
  | .zero, c => if c = '.' then some .point else tail c
  | .whole, c => if c = '.' then some .point else (tail c).or (digit c .whole)
  | .point, c => digit c .fraction
  | .fraction, c => (tail c).or (digit c .fraction)
  | .e, c => if c = '+' ∨ c = '-' then some .sign else digit c .exponent
  | .sign, c => digit c .exponent
  | .exponent, c => digit c .exponent

def Part.ends : Part → Bool
  | .zero | .whole | .fraction | .exponent => true
  | _ => false

def scan (text : List Char) : Option Part := text.foldlM Part.next .start

structure Literal where
  text : List Char
  number : (scan text).any Part.ends = true

inductive Value
  | null
  | bool (b : Bool)
  | num (literal : Literal)
  | str (units : List UInt16)
  | arr (items : List Value)
  | obj (members : List (List UInt16 × Value))

def Value.isCollection : Value → Bool
  | .arr _ | .obj _ => true
  | _ => false

/-- A member is set in place, or added at the end. -/
def put : List (List UInt16 × Value) → List UInt16 → Value → List (List UInt16 × Value)
  | [], key, v => [(key, v)]
  | (k, w) :: members, key, v => if k = key then (k, v) :: members else (k, w) :: put members key v

/-- An array or object that is open: what has been read of it. -/
inductive Frame
  | arr (items : List Value)
  | obj (members : List (List UInt16 × Value)) (key : Option (List UInt16))

structure Word where
  left : List Char
  letters : left.all Char.isAlpha = true

theorem letters_tail {c : Char} {left : List Char} (h : (c :: left).all Char.isAlpha = true) :
    left.all Char.isAlpha = true := by
  rw [List.all_cons, Bool.and_eq_true] at h
  exact h.2

inductive Mode
  /-- Before a value; `opened` right after the bracket, where the array may end. -/
  | value (opened : Bool)
  | key (opened : Bool)
  | colon
  | string (read : List UInt16)
  | escape (read : List UInt16)
  | unicode (read : List UInt16) (digits : List ℕ)
  | number (read : List Char)
  | word (word : Word) (v : Value)
  /-- After a value inside an array or object. -/
  | next
  | done (v : Value)

abbrev State := List Frame × Mode

def finish : List Frame → Value → Option State
  | [], v => some ([], .done v)
  | .arr items :: frames, v => some (.arr (items ++ [v]) :: frames, .next)
  | .obj members (some key) :: frames, v => some (.obj (put members key v) none :: frames, .next)
  | .obj _ none :: _, _ => none

/-- A string is complete, a key where one is due. -/
def finishString : List Frame → List UInt16 → Option State
  | .obj members none :: frames, read => some (.obj members (some read) :: frames, .colon)
  | frames, read => finish frames (.str read)

def close : List Frame → Char → Option State
  | .arr items :: frames, ']' => finish frames (.arr items)
  | .obj members none :: frames, '}' => finish frames (.obj members)
  | _, _ => none

def separate : List Frame → Option State
  | .arr items :: frames => some (.arr items :: frames, .value false)
  | .obj members none :: frames => some (.obj members none :: frames, .key false)
  | _ => none

def isSpace (c : Char) : Bool := c ∈ [' ', '\t', '\n', '\r']

def hexDigit (c : Char) : Option ℕ :=
  if c.isDigit then some (c.toNat - 48)
  else if 'a' ≤ c ∧ c ≤ 'f' then some (c.toNat - 87)
  else if 'A' ≤ c ∧ c ≤ 'F' then some (c.toNat - 55)
  else none

def after : State → Char → Option State
  | (frames, .done v), c => if isSpace c then some (frames, .done v) else none
  | (frames, .next), c =>
      if isSpace c then some (frames, .next)
      else if c = ',' then separate frames
      else close frames c
  | _, _ => none

def numberOf (read : List Char) : Option Value :=
  if number : (scan read).any Part.ends = true then some (.num { text := read, number }) else none

def escaped (c : Char) : Option UInt16 :=
  match c with
  | '"' => some 0x22
  | '\\' => some 0x5c
  | '/' => some 0x2f
  | 'b' => some 0x08
  | 'f' => some 0x0c
  | 'n' => some 0x0a
  | 'r' => some 0x0d
  | 't' => some 0x09
  | _ => none

def step : State → Char → Option State
  | (frames, .value opened), c =>
      if isSpace c then some (frames, .value opened)
      else if c = '"' then some (frames, .string [])
      else if c = '[' then some (.arr [] :: frames, .value true)
      else if c = '{' then some (.obj [] none :: frames, .key true)
      else if c = 't' then some (frames, .word ⟨['r', 'u', 'e'], rfl⟩ (.bool true))
      else if c = 'f' then some (frames, .word ⟨['a', 'l', 's', 'e'], rfl⟩ (.bool false))
      else if c = 'n' then some (frames, .word ⟨['u', 'l', 'l'], rfl⟩ .null)
      else if (scan [c]).isSome then some (frames, .number [c])
      else if opened then close frames c
      else none
  | (frames, .key opened), c =>
      if isSpace c then some (frames, .key opened)
      else if c = '"' then some (frames, .string [])
      else if opened then close frames c
      else none
  | (frames, .colon), c =>
      if isSpace c then some (frames, .colon)
      else if c = ':' then some (frames, .value false)
      else none
  | (frames, .string read), c =>
      if c = '"' then finishString frames read
      else if c = '\\' then some (frames, .escape read)
      else if c.toNat < 32 then none
      else some (frames, .string (read ++ units c))
  | (frames, .escape read), c =>
      if c = 'u' then some (frames, .unicode read [])
      else (escaped c).map fun unit => (frames, .string (read ++ [unit]))
  | (frames, .unicode read digits), c =>
      (hexDigit c).map fun d =>
        if digits.length < 3 then (frames, .unicode read (digits ++ [d]))
        else
          let code := (digits ++ [d]).foldl (fun n d => 16 * n + d) 0
          (frames, .string (read ++ [.ofNat code]))
  | (frames, .number read), c =>
      if (scan (read ++ [c])).isSome then some (frames, .number (read ++ [c]))
      else (numberOf read).bind fun v => (finish frames v).bind fun s => after s c
  | (frames, .word word v), c =>
      match word with
      | ⟨[], _⟩ => none
      | ⟨[last], _⟩ => if c = last then finish frames v else none
      | ⟨first :: left, letters⟩ => if c = first then some (frames, .word ⟨left, letters_tail letters⟩ v) else none
  | s, c => after s c

def run (s : State) (cs : List Char) : Option State := cs.foldlM step s

def conclude : State → Option Value
  | ([], .done v) => some v
  | ([], .number read) => numberOf read
  | _ => none

def parse (cs : List Char) : Option Value := (run ([], .value false) cs).bind conclude

theorem run_cons (s : State) (c : Char) (cs : List Char) :
    run s (c :: cs) = (step s c).bind fun t => run t cs := List.foldlM_cons

theorem run_append (s : State) (cs ds : List Char) :
    run s (cs ++ ds) = (run s cs).bind fun t => run t ds := List.foldlM_append

inductive Place
  | outside
  | string
  | escape
  | unicode (digits : ℕ)
  deriving DecidableEq

def Mode.place : Mode → Place
  | .string _ => .string
  | .escape _ => .escape
  | .unicode _ digits => .unicode digits.length
  | _ => .outside

def Place.next : Place → Char → Place
  | .outside, c => if c = '"' then .string else .outside
  | .string, c => if c = '"' then .outside else if c = '\\' then .escape else .string
  | .escape, c => if c = 'u' then .unicode 0 else .string
  | .unicode digits, _ => if digits < 3 then .unicode (digits + 1) else .string

/-- By how much more brackets are open after a character. -/
def change : Place → Char → ℤ
  | .outside, c => if c = '[' ∨ c = '{' then 1 else if c = ']' ∨ c = '}' then -1 else 0
  | _, _ => 0

def walk (p : Place) (cs : List Char) : Place := cs.foldl Place.next p

def balance : Place → List Char → ℤ
  | _, [] => 0
  | p, c :: cs => change p c + balance (p.next c) cs

section

variable {s s' t t' : State} {frames : List Frame} {v : Value} {c : Char} {cs : List Char}

/-- What a step makes of the place and of the number of open brackets. -/
def Moves (s : State) (c : Char) (s' : State) : Prop :=
  s'.2.place = s.2.place.next c ∧ (s'.1.length : ℤ) = s.1.length + change s.2.place c

theorem finish_place (h : finish frames v = some s) : s.2.place = .outside ∧ s.1.length = frames.length := by
  unfold finish at h
  split at h
  · cases h; exact ⟨rfl, rfl⟩
  · cases h; exact ⟨rfl, rfl⟩
  · cases h; exact ⟨rfl, rfl⟩
  · cases h

theorem finishString_place {read : List UInt16} (h : finishString frames read = some s) :
    s.2.place = .outside ∧ s.1.length = frames.length := by
  unfold finishString at h
  split at h
  · cases h; exact ⟨rfl, rfl⟩
  · exact finish_place h

theorem close_place (h : close frames c = some s) :
    (c = ']' ∨ c = '}') ∧ s.2.place = .outside ∧ s.1.length + 1 = frames.length := by
  unfold close at h
  split at h
  · obtain ⟨place, length⟩ := finish_place h
    exact ⟨.inl rfl, place, congrArg (· + 1) length⟩
  · obtain ⟨place, length⟩ := finish_place h
    exact ⟨.inr rfl, place, congrArg (· + 1) length⟩
  · cases h

theorem separate_place (h : separate frames = some s) :
    s.2.place = .outside ∧ s.1.length = frames.length := by
  unfold separate at h
  split at h
  · cases h; exact ⟨rfl, rfl⟩
  · cases h; exact ⟨rfl, rfl⟩
  · cases h

theorem moves_same (noQuote : c ≠ '"') (noBracket : c ∉ ['[', '{', ']', '}']) {mode mode' : Mode}
    (place : mode.place = .outside) (place' : mode'.place = .outside) {frames' : List Frame}
    (length : frames'.length = frames.length) : Moves (frames, mode) c (frames', mode') := by
  simp only [List.mem_cons, List.not_mem_nil, or_false, not_or] at noBracket
  constructor
  · rw [place, place', Place.next, if_neg noQuote]
  · rw [place, change, if_neg (not_or.mpr ⟨noBracket.1, noBracket.2.1⟩),
      if_neg (not_or.mpr ⟨noBracket.2.2.1, noBracket.2.2.2⟩), length, Int.add_zero]

/-- The characters that have a meaning of their own outside of strings. -/
def Marks (c : Char) : Prop := c ∈ ['"', '[', '{', ']', '}', '\\', ',']

instance (c : Char) : Decidable (Marks c) := inferInstanceAs (Decidable (c ∈ _))

theorem marks_space (h : isSpace c = true) : ¬ Marks c := by
  rintro marks
  simp only [Marks, List.mem_cons, List.not_mem_nil, or_false] at marks
  rcases marks with rfl | rfl | rfl | rfl | rfl | rfl | rfl <;> cases h

theorem marks_next {p q : Part} (h : p.next c = some q) : ¬ Marks c := by
  rintro marks
  simp only [Marks, List.mem_cons, List.not_mem_nil, or_false] at marks
  cases p <;> rcases marks with rfl | rfl | rfl | rfl | rfl | rfl | rfl <;> cases h

theorem marks_scan {read : List Char} (h : (scan (read ++ [c])).isSome = true) : ¬ Marks c := by
  obtain ⟨q, is⟩ := Option.isSome_iff_exists.mp h
  rw [scan, List.foldlM_append] at is
  obtain ⟨p, -, last⟩ := Option.bind_eq_some_iff.mp is
  rw [List.foldlM_cons] at last
  obtain ⟨q', next, -⟩ := Option.bind_eq_some_iff.mp last
  exact marks_next next

theorem moves_plain (plain : ¬ Marks c) {mode mode' : Mode} (place : mode.place = .outside)
    (place' : mode'.place = .outside) : Moves (frames, mode) c (frames, mode') := by
  simp only [Marks, List.mem_cons, List.not_mem_nil, or_false, not_or] at plain
  obtain ⟨quote, openArr, openObj, closeArr, closeObj, -, -⟩ := plain
  refine moves_same quote ?_ place place' rfl
  simp only [List.mem_cons, List.not_mem_nil, or_false, not_or]
  exact ⟨openArr, openObj, closeArr, closeObj⟩

theorem moves_close {mode : Mode} (place : mode.place = .outside) (h : close frames c = some s') :
    Moves (frames, mode) c s' := by
  obtain ⟨bracket, outside, length⟩ := close_place h
  have shorter : (s'.1.length : ℤ) = frames.length + -1 := by omega
  rcases bracket with rfl | rfl
  · exact ⟨by rw [place, outside]; rfl, by rw [place]; exact shorter⟩
  · exact ⟨by rw [place, outside]; rfl, by rw [place]; exact shorter⟩

theorem after_moves (h : after s c = some s') : Moves s c s' := by
  obtain ⟨frames, mode⟩ := s
  cases mode with
  | done v =>
      obtain ⟨space, same⟩ := Option.ite_none_right_eq_some.mp h
      cases same
      exact moves_plain (marks_space space) rfl rfl
  | next =>
      simp only [after] at h
      split at h
      · rename_i space
        cases h
        exact moves_plain (marks_space space) rfl rfl
      · split at h
        · rename_i comma
          obtain ⟨place, length⟩ := separate_place h
          obtain ⟨frames', mode'⟩ := s'
          rw [comma]
          exact moves_same (by decide) (by decide) rfl place length
        · exact moves_close rfl h
  | value | key | colon | string | escape | unicode | number | word => cases h

theorem moves_quote {mode : Mode} (place : mode.place = .outside) :
    Moves (frames, mode) '"' (frames, .string []) := by
  constructor
  · rw [place]
    rfl
  · rw [place, change, if_neg (by decide), if_neg (by decide), Int.add_zero]

theorem moves_open (frame : Frame) (mode' : Mode) (bracket : c = '[' ∨ c = '{') (place' : mode'.place = .outside)
    (opened : Bool) : Moves (frames, .value opened) c (frame :: frames, mode') := by
  constructor
  · rw [place']
    rcases bracket with rfl | rfl <;> rfl
  · rcases bracket with rfl | rfl <;> exact Int.natCast_succ _

theorem moves_finish {mode : Mode} (place : mode.place = .outside) (plain : ¬ Marks c)
    (h : finish frames v = some s') : Moves (frames, mode) c s' := by
  obtain ⟨outside, length⟩ := finish_place h
  obtain ⟨frames', mode'⟩ := s'
  have moves : Moves (frames, mode) c (frames, mode') := moves_plain plain place outside
  exact ⟨moves.1, by rw [← moves.2]; exact congrArg _ length⟩

theorem marks_letter (h : c.isAlpha = true) : ¬ Marks c := by
  rintro marks
  simp only [Marks, List.mem_cons, List.not_mem_nil, or_false] at marks
  rcases marks with rfl | rfl | rfl | rfl | rfl | rfl | rfl <;> cases h

theorem step_moves (h : step s c = some s') : Moves s c s' := by
  obtain ⟨frames, mode⟩ := s
  cases mode with
  | value opened =>
      simp only [step] at h
      by_cases space : isSpace c = true
      · rw [if_pos space] at h
        cases h
        exact moves_plain (marks_space space) rfl rfl
      rw [if_neg space] at h
      by_cases quote : c = '"'
      · rw [if_pos quote] at h
        cases h
        rw [quote]
        exact moves_quote rfl
      rw [if_neg quote] at h
      by_cases arr : c = '['
      · rw [if_pos arr] at h
        cases h
        exact moves_open _ _ (.inl arr) rfl opened
      rw [if_neg arr] at h
      by_cases obj : c = '{'
      · rw [if_pos obj] at h
        cases h
        exact moves_open _ _ (.inr obj) rfl opened
      rw [if_neg obj] at h
      split at h
      · rename_i letter
        cases h
        exact moves_plain (by rw [letter]; exact marks_letter rfl) rfl rfl
      split at h
      · rename_i letter
        cases h
        exact moves_plain (by rw [letter]; exact marks_letter rfl) rfl rfl
      split at h
      · rename_i letter
        cases h
        exact moves_plain (by rw [letter]; exact marks_letter rfl) rfl rfl
      split at h
      · rename_i number
        cases h
        have digit : (scan ([] ++ [c])).isSome = true := number
        exact moves_plain (marks_scan digit) rfl rfl
      split at h
      · exact moves_close rfl h
      · cases h
  | key opened =>
      simp only [step] at h
      split at h
      · rename_i space
        cases h
        exact moves_plain (marks_space space) rfl rfl
      split at h
      · rename_i quote
        cases h
        rw [quote]
        exact moves_quote rfl
      split at h
      · exact moves_close rfl h
      · cases h
  | colon =>
      simp only [step] at h
      split at h
      · rename_i space
        cases h
        exact moves_plain (marks_space space) rfl rfl
      split at h
      · rename_i colon
        cases h
        exact moves_plain (by rw [colon]; decide) rfl rfl
      · cases h
  | string read =>
      simp only [step] at h
      split at h
      · rename_i quote
        obtain ⟨place, length⟩ := finishString_place h
        refine ⟨?_, by rw [length]; exact (Int.add_zero _).symm⟩
        rw [place, quote]
        rfl
      rename_i quote
      split at h
      · rename_i backslash
        cases h
        refine ⟨?_, (Int.add_zero _).symm⟩
        rw [backslash]
        rfl
      rename_i backslash
      split at h
      · cases h
      · cases h
        refine ⟨?_, (Int.add_zero _).symm⟩
        dsimp only [Mode.place, Place.next]
        rw [if_neg quote, if_neg backslash]
  | escape read =>
      simp only [step] at h
      split at h
      · rename_i u
        cases h
        refine ⟨?_, (Int.add_zero _).symm⟩
        rw [u]
        rfl
      · rename_i u
        obtain ⟨unit, -, rfl⟩ := Option.map_eq_some_iff.mp h
        refine ⟨?_, (Int.add_zero _).symm⟩
        dsimp only [Mode.place, Place.next]
        rw [if_neg u]
  | unicode read digits =>
      obtain ⟨d, -, h⟩ := Option.map_eq_some_iff.mp h
      dsimp only at h
      split at h
      · rename_i few
        cases h
        refine ⟨?_, (Int.add_zero _).symm⟩
        dsimp only [Mode.place, Place.next]
        rw [if_pos few, List.length_append]
        rfl
      · rename_i few
        cases h
        refine ⟨?_, (Int.add_zero _).symm⟩
        dsimp only [Mode.place, Place.next]
        rw [if_neg few]
  | number read =>
      simp only [step] at h
      split at h
      · rename_i goes
        cases h
        exact moves_plain (marks_scan goes) rfl rfl
      · obtain ⟨v, -, h⟩ := Option.bind_eq_some_iff.mp h
        obtain ⟨t, finished, h⟩ := Option.bind_eq_some_iff.mp h
        obtain ⟨place, length⟩ := finish_place finished
        have moves := after_moves h
        rw [Moves, place, length] at moves
        exact moves
  | word word v =>
      simp only [step] at h
      split at h
      · cases h
      · rename_i last letters
        have letter := List.all_eq_true.mp letters last List.mem_cons_self
        split at h
        · rename_i is
          exact moves_finish rfl (by rw [is]; exact marks_letter letter) h
        · cases h
      · rename_i first left letters _
        have letter := List.all_eq_true.mp letters first List.mem_cons_self
        split at h
        · rename_i is
          cases h
          exact moves_plain (by rw [is]; exact marks_letter letter) rfl rfl
        · cases h
  | next => exact after_moves h
  | done v => exact after_moves h

theorem run_moves (h : run s cs = some s') :
    s'.2.place = walk s.2.place cs ∧ (s'.1.length : ℤ) = s.1.length + balance s.2.place cs := by
  induction cs generalizing s with
  | nil => cases h; exact ⟨rfl, (Int.add_zero _).symm⟩
  | cons c cs ih =>
      rw [run_cons] at h
      obtain ⟨t, stepped, h⟩ := Option.bind_eq_some_iff.mp h
      obtain ⟨place, length⟩ := step_moves stepped
      obtain ⟨place', length'⟩ := ih h
      rw [place'] at *
      rw [length', length, place]
      exact ⟨rfl, Int.add_assoc _ _ _⟩

theorem conclude_outside (h : conclude s = some v) : s.1 = [] ∧ s.2.place = .outside := by
  unfold conclude at h
  split at h
  · exact ⟨rfl, rfl⟩
  · exact ⟨rfl, rfl⟩
  · cases h

/-- Something is open, or the value is complete. -/
def Inner (s : State) : Prop := s.1 ≠ [] ∨ ∃ v, s = ([], .done v)

theorem finish_inner (h : finish frames v = some s) : Inner s := by
  unfold finish at h
  split at h
  · cases h; exact .inr ⟨_, rfl⟩
  · cases h; exact .inl (List.cons_ne_nil _ _)
  · cases h; exact .inl (List.cons_ne_nil _ _)
  · cases h

theorem close_inner (h : close frames c = some s) : Inner s := by
  unfold close at h
  split at h
  · exact finish_inner h
  · exact finish_inner h
  · cases h

theorem after_inner (inner : Inner s) (h : after s c = some s') : Inner s' := by
  unfold after at h
  split at h
  · obtain ⟨-, same⟩ := Option.ite_none_right_eq_some.mp h
    cases same
    exact inner
  · rename_i frames
    split at h
    · cases h
      exact inner
    · split at h
      · unfold separate at h
        split at h
        · cases h; exact .inl (List.cons_ne_nil _ _)
        · cases h; exact .inl (List.cons_ne_nil _ _)
        · cases h
      · exact close_inner h
  · cases h

/-- As long as something is open, only a bracket that completes the value changes that. -/
theorem step_inner (inner : Inner s) (h : step s c = some s') : Inner s' := by
  rcases inner with opened | ⟨v, rfl⟩
  · obtain ⟨frames, mode⟩ := s
    have goes : ∀ {mode' : Mode}, Inner (frames, mode') := .inl opened
    cases mode with
    | value isOpened =>
        simp only [step] at h
        (repeat' split at h) <;> first
          | exact close_inner h
          | (cases h <;> first | exact goes | exact .inl (List.cons_ne_nil _ _))
    | key isOpened =>
        simp only [step] at h
        (repeat' split at h) <;> first
          | exact close_inner h
          | (cases h <;> exact goes)
    | colon =>
        simp only [step] at h
        (repeat' split at h) <;> (cases h <;> exact goes)
    | string read =>
        simp only [step] at h
        split at h
        · unfold finishString at h
          split at h
          · cases h; exact .inl (List.cons_ne_nil _ _)
          · exact finish_inner h
        · (repeat' split at h) <;> (cases h <;> exact goes)
    | escape read =>
        simp only [step] at h
        split at h
        · cases h; exact goes
        · obtain ⟨unit, -, rfl⟩ := Option.map_eq_some_iff.mp h
          exact goes
    | unicode read digits =>
        obtain ⟨d, -, h⟩ := Option.map_eq_some_iff.mp h
        dsimp only at h
        split at h
        · cases h; exact goes
        · cases h; exact goes
    | number read =>
        simp only [step] at h
        split at h
        · cases h; exact goes
        · obtain ⟨v, -, h⟩ := Option.bind_eq_some_iff.mp h
          obtain ⟨t, finished, h⟩ := Option.bind_eq_some_iff.mp h
          exact after_inner (finish_inner finished) h
    | word word v =>
        simp only [step] at h
        (repeat' split at h) <;> first
          | exact finish_inner h
          | (cases h <;> exact goes)
    | next => exact after_inner (.inl opened) h
    | done v => exact after_inner (.inl opened) h
  · exact after_inner (.inr ⟨v, rfl⟩) h

theorem run_inner (inner : Inner s) (h : run s cs = some s') : Inner s' := by
  induction cs generalizing s with
  | nil => cases h; exact inner
  | cons c cs ih =>
      rw [run_cons] at h
      obtain ⟨t, stepped, h⟩ := Option.bind_eq_some_iff.mp h
      exact ih (step_inner inner stepped) h

def Bracket (c : Char) : Prop := c = '[' ∨ c = '{'

theorem step_bracket (bracket : Bracket c) (opened : Bool) :
    ∃ frame mode, step (frames, .value opened) c = some (frame :: frames, mode) := by
  rcases bracket with rfl | rfl
  · exact ⟨_, _, rfl⟩
  · exact ⟨_, _, rfl⟩

theorem step_backslash (outside : s.2.place = .outside) : step s '\\' = none := by
  cases stepped : step s '\\' with
  | none => rfl
  | some t =>
      exfalso
      obtain ⟨frames, mode⟩ := s
      have closes : ∀ {frames s}, close frames '\\' ≠ some s := fun h => by
        rcases (close_place h).1 with is | is <;> cases is
      have opened : ∀ (isOpened : Bool) {frames s}, (if isOpened then close frames '\\' else none) ≠ some s := by
        intro isOpened frames s h
        split at h
        · exact closes h
        · cases h
      have ends : ∀ {s s'}, after s '\\' ≠ some s' := by
        intro s s' h
        unfold after at h
        split at h
        · cases h
        · exact closes h
        · cases h
      cases mode with
      | value isOpened => exact opened isOpened stepped
      | key isOpened => exact opened isOpened stepped
      | colon => cases stepped
      | number read =>
          simp only [step] at stepped
          split at stepped
          · rename_i goes
            exact marks_scan goes (by decide)
          · obtain ⟨v, -, stepped⟩ := Option.bind_eq_some_iff.mp stepped
            obtain ⟨t, -, stepped⟩ := Option.bind_eq_some_iff.mp stepped
            exact ends stepped
      | word word v =>
          simp only [step] at stepped
          split at stepped
          · cases stepped
          · rename_i last letters
            obtain ⟨rfl, -⟩ := Option.ite_none_right_eq_some.mp stepped
            cases letters
          · rename_i first left letters _
            obtain ⟨rfl, -⟩ := Option.ite_none_right_eq_some.mp stepped
            cases letters
      | next =>
          simp only [step] at stepped
          exact ends stepped
      | done v =>
          simp only [step] at stepped
          exact ends stepped
      | string | escape | unicode => cases outside

/-- Of two readers of one text, one inside a string and the other outside, each goes where the other was at
every quote, and no backslash lets them meet. -/
theorem run_apart (h : run s cs = some s') (h' : run t cs = some t')
    (apart : s.2.place = .string ∧ t.2.place = .outside ∨ s.2.place = .outside ∧ t.2.place = .string) :
    s'.2.place = .string ∧ t'.2.place = .outside ∨ s'.2.place = .outside ∧ t'.2.place = .string := by
  induction cs generalizing s t with
  | nil => cases h; cases h'; exact apart
  | cons c cs ih =>
      rw [run_cons] at h h'
      obtain ⟨u, stepped, h⟩ := Option.bind_eq_some_iff.mp h
      obtain ⟨u', stepped', h'⟩ := Option.bind_eq_some_iff.mp h'
      refine ih h h' ?_
      rw [(step_moves stepped).1, (step_moves stepped').1]
      have noBackslash : c ≠ '\\' := by
        rintro rfl
        rcases apart with ⟨-, outside⟩ | ⟨outside, -⟩
        · rw [step_backslash outside] at stepped'
          cases stepped'
        · rw [step_backslash outside] at stepped
          cases stepped
      by_cases quote : c = '"'
      · rcases apart with ⟨string, outside⟩ | ⟨outside, string⟩
        · rw [string, outside, quote]
          exact .inr ⟨rfl, rfl⟩
        · rw [string, outside, quote]
          exact .inl ⟨rfl, rfl⟩
      · rcases apart with ⟨string, outside⟩ | ⟨outside, string⟩
        · rw [string, outside, Place.next, Place.next, if_neg quote, if_neg quote, if_neg noBackslash]
          exact .inl ⟨rfl, rfl⟩
        · rw [string, outside, Place.next, Place.next, if_neg quote, if_neg quote, if_neg noBackslash]
          exact .inr ⟨rfl, rfl⟩

/-- What begins with a bracket inside the text of an array or object is no text: outside of strings a bracket
would stay open, and inside of one the quotes would not pair up. -/
theorem parse_inner {first : Char} {front back : List Char} (reads : parse (first :: front ++ c :: back) = some v)
    (begins : Bracket first) (bracket : Bracket c) : parse (c :: back) = none := by
  cases other : parse (c :: back) with
  | none => rfl
  | some w =>
      exfalso
      obtain ⟨whole, run_whole, concludes⟩ := Option.bind_eq_some_iff.mp reads
      obtain ⟨part, run_part, concludes'⟩ := Option.bind_eq_some_iff.mp other
      obtain ⟨closed, outside⟩ := conclude_outside concludes
      obtain ⟨closed', outside'⟩ := conclude_outside concludes'
      rw [run_append] at run_whole
      obtain ⟨s, run_front, run_back⟩ := Option.bind_eq_some_iff.mp run_whole
      have opened : s.1 ≠ [] := by
        rw [run_cons] at run_front
        obtain ⟨t, stepped, run_front⟩ := Option.bind_eq_some_iff.mp run_front
        obtain ⟨frame, mode, is⟩ : ∃ frame mode, step ([], .value false) first = some ([frame], mode) :=
          step_bracket begins false
        have inner : Inner t := by
          rw [is] at stepped
          cases stepped
          exact .inl (List.cons_ne_nil _ _)
        rcases run_inner inner run_front with opened | ⟨v, rfl⟩
        · exact opened
        · rw [run_cons] at run_back
          obtain ⟨t', stepped, -⟩ := Option.bind_eq_some_iff.mp run_back
          rcases bracket with rfl | rfl <;> cases stepped
      have here : s.2.place = .outside ∨ s.2.place = .string := by
        rw [run_cons] at run_back
        obtain ⟨t', stepped, -⟩ := Option.bind_eq_some_iff.mp run_back
        obtain ⟨frames, mode⟩ := s
        cases mode with
        | string => exact .inr rfl
        | escape | unicode => rcases bracket with rfl | rfl <;> cases stepped
        | value | key | colon | number | word | next | done => exact .inl rfl
      rcases here with here | here
      · have height := (run_moves run_back).2
        have height' := (run_moves run_part).2
        rw [here, closed] at height
        rw [closed'] at height'
        have some := List.length_pos_iff.mpr opened
        have same : balance (Mode.value false).place (c :: back) = balance .outside (c :: back) := rfl
        rw [same] at height'
        simp only [List.length_nil] at height height'
        omega
      · rcases run_apart run_back run_part (.inl ⟨here, rfl⟩) with ⟨string, -⟩ | ⟨-, string⟩
        · rw [string] at outside
          cases outside
        · rw [string] at outside'
          cases outside'

end

def hex (n : ℕ) : List Char :=
  [Nat.digitChar (n / 4096 % 16), Nat.digitChar (n / 256 % 16), Nat.digitChar (n / 16 % 16),
    Nat.digitChar (n % 16)]

def unitText (unit : UInt16) : List Char :=
  if 0x20 ≤ unit.toNat ∧ unit.toNat < 0x7f ∧ unit.toNat ≠ 0x22 ∧ unit.toNat ≠ 0x5c then [Char.ofNat unit.toNat]
  else '\\' :: 'u' :: hex unit.toNat

def stringText (units : List UInt16) : List Char := '"' :: (units.flatMap unitText ++ ['"'])

mutual

def compact : Value → List Char
  | .null => ['n', 'u', 'l', 'l']
  | .bool true => ['t', 'r', 'u', 'e']
  | .bool false => ['f', 'a', 'l', 's', 'e']
  | .num literal => literal.text
  | .str units => stringText units
  | .arr [] => ['[', ']']
  | .arr (v :: vs) => '[' :: (compact v ++ items vs ++ [']'])
  | .obj [] => ['{', '}']
  | .obj ((k, v) :: ms) => '{' :: (stringText k ++ ':' :: (compact v ++ members ms) ++ ['}'])

def items : List Value → List Char
  | [] => []
  | v :: vs => ',' :: (compact v ++ items vs)

def members : List (List UInt16 × Value) → List Char
  | [] => []
  | (k, v) :: ms => ',' :: (stringText k ++ ':' :: (compact v ++ members ms))

end

/-- No two members of an object have one key. -/
inductive Distinct : Value → Prop
  | null : Distinct .null
  | bool (b : Bool) : Distinct (.bool b)
  | num (literal : Literal) : Distinct (.num literal)
  | str (units : List UInt16) : Distinct (.str units)
  | arr {items : List Value} : (∀ v ∈ items, Distinct v) → Distinct (.arr items)
  | obj {members : List (List UInt16 × Value)} : (members.map Prod.fst).Nodup →
      (∀ m ∈ members, Distinct m.2) → Distinct (.obj members)

section

variable {v : Value} {frames : List Frame} {rest : List Char}

theorem hexDigit_digitChar : ∀ d < 16, hexDigit (Nat.digitChar d) = some d := by decide

theorem run_unit (frames : List Frame) (read : List UInt16) (unit : UInt16) :
    run (frames, .string read) (unitText unit ++ rest) = run (frames, .string (read ++ [unit])) rest := by
  have small : unit.toNat < 65536 := unit.toNat_lt
  unfold unitText
  split
  · rename_i plain
    have valid : unit.toNat.isValidChar := .inl (by omega)
    have toNat : (Char.ofNat unit.toNat).toNat = unit.toNat := by
      rw [Char.ofNat, dif_pos valid]
      rfl
    have other : ∀ d : Char, unit.toNat ≠ d.toNat → Char.ofNat unit.toNat ≠ d :=
      fun d differs same => differs (by rw [← same, toNat])
    have own : units (Char.ofNat unit.toNat) = [unit] := by
      rw [units, toNat, if_pos small, UInt16.ofNat_toNat]
    rw [List.singleton_append, run_cons]
    simp only [step]
    rw [if_neg (other '"' plain.2.2.1), if_neg (other '\\' plain.2.2.2), toNat, if_neg (by omega), own,
      Option.bind_some]
  · have digit : ∀ n, hexDigit (Nat.digitChar (n % 16)) = some (n % 16) := fun n =>
      hexDigit_digitChar (n % 16) (Nat.mod_lt n (by decide))
    have code : [unit.toNat / 4096 % 16, unit.toNat / 256 % 16, unit.toNat / 16 % 16, unit.toNat % 16].foldl
        (fun n d => 16 * n + d) 0 = unit.toNat := by
      simp only [List.foldl_cons, List.foldl_nil]
      omega
    have starts : ∀ cs, run (frames, .string read) ('\\' :: 'u' :: cs) = run (frames, .unicode read []) cs :=
      fun _ => rfl
    rw [List.cons_append, List.cons_append, starts]
    simp only [hex, List.cons_append, List.nil_append, run_cons, step, digit, Option.map_some, Option.bind_some,
      List.length_nil, List.length_cons, Nat.reduceAdd, Nat.reduceLT, if_true, if_false]
    rw [code, UInt16.ofNat_toNat]

theorem run_units (frames : List Frame) (read units : List UInt16) :
    run (frames, .string read) (units.flatMap unitText ++ rest) = run (frames, .string (read ++ units)) rest := by
  induction units generalizing read with
  | nil => rw [List.append_nil]; rfl
  | cons unit units ih =>
      rw [List.flatMap_cons, List.append_assoc, run_unit, ih, List.append_assoc, List.singleton_append]

theorem run_string (frames : List Frame) (units : List UInt16) :
    run (frames, .string []) (units.flatMap unitText ++ '"' :: rest) =
      (finishString frames units).bind fun t => run t rest := by
  rw [run_units, List.nil_append, run_cons]
  rfl

def Separated (rest : List Char) : Prop := ∃ c cs, rest = c :: cs ∧ ∀ part : Part, part.next c = none

theorem ends_of_marks {c : Char} (marks : Marks c) (part : Part) : part.next c = none :=
  Option.eq_none_iff_forall_ne_some.mpr fun _ next => marks_next next marks

theorem scan_append (read more : List Char) :
    scan (read ++ more) = (scan read).bind fun part => more.foldlM Part.next part := List.foldlM_append

theorem run_number (frames : List Frame) (read more : List Char) (goes : (scan (read ++ more)).isSome = true) :
    run (frames, .number read) (more ++ rest) = run (frames, .number (read ++ more)) rest := by
  induction more generalizing read with
  | nil => rw [List.append_nil, List.nil_append]
  | cons c more ih =>
      have longer : read ++ c :: more = (read ++ [c]) ++ more := by rw [List.append_assoc, List.singleton_append]
      rw [longer] at goes ⊢
      have next : (scan (read ++ [c])).isSome = true := by
        rw [scan_append] at goes
        exact Option.isSome_of_isSome_bind goes
      rw [List.cons_append, run_cons]
      simp only [step]
      rw [if_pos next, Option.bind_some, ih _ goes]

theorem step_of_finish {s : State} (h : finish frames v = some s) (c : Char) : step s c = after s c := by
  unfold finish at h
  split at h <;> cases h <;> rfl

theorem numberOf_literal (literal : Literal) : numberOf literal.text = some (.num literal) := dif_pos literal.number

theorem start_number {c : Char} (h : (scan [c]).isSome = true) : c = '-' ∨ c.isDigit = true := by
  obtain ⟨q, is⟩ := Option.isSome_iff_exists.mp h
  rw [scan, List.foldlM_cons] at is
  obtain ⟨p, next, -⟩ := Option.bind_eq_some_iff.mp is
  rw [Part.next] at next
  split at next
  · rename_i minus
    exact .inl minus
  split at next
  · rename_i zero
    rw [zero]
    exact .inr rfl
  · exact .inr (Option.ite_none_right_eq_some.mp next).1

theorem step_number {c : Char} (h : (scan [c]).isSome = true) (opened : Bool) :
    step (frames, .value opened) c = some (frames, .number [c]) := by
  have other : ∀ d : Char, d ≠ '-' → d.isDigit = false → c ≠ d := by
    rintro d minus notDigit rfl
    rcases start_number h with is | is
    · exact minus is
    · rw [notDigit] at is
      cases is
  have noSpace : ¬ isSpace c = true := by
    simp only [isSpace, List.mem_cons, List.not_mem_nil, or_false, decide_eq_true_eq, not_or]
    exact ⟨other _ (by decide) rfl, other _ (by decide) rfl, other _ (by decide) rfl, other _ (by decide) rfl⟩
  simp only [step]
  rw [if_neg noSpace, if_neg (other _ (by decide) rfl), if_neg (other _ (by decide) rfl),
    if_neg (other _ (by decide) rfl), if_neg (other _ (by decide) rfl), if_neg (other _ (by decide) rfl),
    if_neg (other _ (by decide) rfl), if_pos h]

theorem run_literal (literal : Literal) (opened : Bool) (separated : Separated rest) :
    run (frames, .value opened) (literal.text ++ rest) =
      (finish frames (.num literal)).bind fun s => run s rest := by
  obtain ⟨part, whole, -⟩ := (Option.any_eq_true _ _).mp literal.number
  obtain ⟨c, cs, is⟩ : ∃ c cs, literal.text = c :: cs := by
    refine List.exists_cons_of_ne_nil fun empty => ?_
    have number := literal.number
    rw [empty] at number
    cases number
  have split : literal.text = [c] ++ cs := is
  have first : (scan [c]).isSome = true := by
    rw [split, scan_append] at whole
    exact Option.isSome_of_isSome_bind (Option.isSome_iff_exists.mpr ⟨part, whole⟩)
  obtain ⟨d, ds, rfl, ends⟩ := separated
  have ended : ¬ (scan (literal.text ++ [d])).isSome = true := by
    rw [scan_append, whole, Option.bind_some, List.foldlM_cons, ends]
    exact Bool.false_ne_true
  rw [is, List.cons_append, run_cons, step_number first, Option.bind_some, run_number _ _ _ (by
    rw [← split, whole]; rfl), ← split, run_cons]
  simp only [step]
  rw [if_neg ended, numberOf_literal, Option.bind_some, Option.bind_assoc]
  cases finished : finish frames (.num literal) with
  | none => rfl
  | some s => rw [Option.bind_some, Option.bind_some, run_cons, step_of_finish finished]

def Due (frames : List Frame) : Prop := ∀ members rest, frames ≠ .obj members none :: rest

theorem due_arr (items : List Value) (frames : List Frame) : Due (.arr items :: frames) :=
  fun _ _ same => by cases same

theorem due_key (members : List (List UInt16 × Value)) (key : List UInt16) (frames : List Frame) :
    Due (.obj members (some key) :: frames) := fun _ _ same => by cases same

theorem finishString_due (due : Due frames) (read : List UInt16) :
    finishString frames read = finish frames (.str read) := by
  unfold finishString
  split
  · exact absurd rfl (due _ _)
  · rfl

theorem put_of_not_mem {members : List (List UInt16 × Value)} {key : List UInt16} (h : key ∉ members.map Prod.fst) :
    put members key v = members ++ [(key, v)] := by
  induction members with
  | nil => rfl
  | cons m members ih =>
      obtain ⟨k, w⟩ := m
      rw [List.map_cons, List.mem_cons, not_or] at h
      rw [put, if_neg (Ne.symm h.1), ih h.2, List.cons_append]

theorem separated_items {vs : List Value} {close : Char} (marks : Marks close) :
    Separated (items vs ++ close :: rest) := by
  cases vs with
  | nil => exact ⟨close, rest, by rw [items, List.nil_append], ends_of_marks marks⟩
  | cons v vs => exact ⟨',', _, by rw [items]; rfl, ends_of_marks (by decide)⟩

theorem separated_members {ms : List (List UInt16 × Value)} {close : Char} (marks : Marks close) :
    Separated (members ms ++ close :: rest) := by
  cases ms with
  | nil => exact ⟨close, rest, by rw [members, List.nil_append], ends_of_marks marks⟩
  | cons m ms => exact ⟨',', _, by rw [members]; rfl, ends_of_marks (by decide)⟩

mutual

/-- What is written for a value is read as that value, whatever is open around it. -/
theorem run_compact {v : Value} (distinct : Distinct v) {frames : List Frame} (due : Due frames) (opened : Bool)
    {rest : List Char} (separated : v.isCollection = true ∨ Separated rest) :
    run (frames, .value opened) (compact v ++ rest) = (finish frames v).bind fun s => run s rest := by
  match v, distinct with
  | .null, _ => rfl
  | .bool true, _ => rfl
  | .bool false, _ => rfl
  | .num literal, _ =>
      rw [compact]
      exact run_literal literal opened (separated.resolve_left Bool.false_ne_true)
  | .str units, _ =>
      have quotes : ∀ cs, run (frames, .value opened) ('"' :: cs) = run (frames, .string []) cs := fun _ => rfl
      rw [compact, stringText]
      simp only [List.cons_append, List.append_assoc, List.nil_append]
      rw [quotes, run_string, finishString_due due]
  | .arr [], _ => rfl
  | .arr (v :: vs), .arr distinct =>
      obtain ⟨first, others⟩ := List.forall_mem_cons.mp distinct
      have opens : ∀ cs, run (frames, .value opened) ('[' :: cs) = run (.arr [] :: frames, .value true) cs :=
        fun _ => rfl
      have closes : run (.arr (v :: vs) :: frames, .next) (']' :: rest) =
          (finish frames (.arr (v :: vs))).bind fun s => run s rest := rfl
      rw [compact]
      simp only [List.cons_append, List.append_assoc, List.nil_append]
      rw [opens, run_compact first (due_arr _ _) true (.inr (separated_items (by decide))), finish,
        Option.bind_some, run_items others]
      exact closes
  | .obj [], _ => rfl
  | .obj ((k, v) :: ms), .obj nodup distinct =>
      obtain ⟨first, others⟩ := List.forall_mem_cons.mp distinct
      have opens : ∀ cs, run (frames, .value opened) ('{' :: '"' :: cs) =
          run (.obj [] none :: frames, .string []) cs := fun _ => rfl
      have colon : ∀ cs, run (.obj [] (some k) :: frames, .colon) (':' :: cs) =
          run (.obj [] (some k) :: frames, .value false) cs := fun _ => rfl
      have closes : run (.obj ((k, v) :: ms) none :: frames, .next) ('}' :: rest) =
          (finish frames (.obj ((k, v) :: ms))).bind fun s => run s rest := rfl
      rw [compact, stringText]
      simp only [List.cons_append, List.append_assoc, List.nil_append]
      rw [opens, run_string, finishString, Option.bind_some, colon,
        run_compact first (due_key _ _ _) false (.inr (separated_members (by decide))), finish, Option.bind_some,
        put, run_members others nodup]
      exact closes

theorem run_items {vs : List Value} (distinct : ∀ v ∈ vs, Distinct v) {frames : List Frame}
    {before : List Value} {rest : List Char} :
    run (.arr before :: frames, .next) (items vs ++ ']' :: rest) =
      run (.arr (before ++ vs) :: frames, .next) (']' :: rest) := by
  match vs with
  | [] => rw [items, List.nil_append, List.append_nil]
  | v :: vs =>
      obtain ⟨first, others⟩ := List.forall_mem_cons.mp distinct
      have comma : ∀ cs, run (.arr before :: frames, .next) (',' :: cs) =
          run (.arr before :: frames, .value false) cs := fun _ => rfl
      rw [items]
      simp only [List.cons_append, List.append_assoc]
      rw [comma, run_compact first (due_arr _ _) false (.inr (separated_items (by decide))), finish,
        Option.bind_some, run_items others, List.append_assoc, List.singleton_append]

theorem run_members {ms : List (List UInt16 × Value)} (distinct : ∀ m ∈ ms, Distinct m.2) {frames : List Frame}
    {before : List (List UInt16 × Value)} (nodup : ((before ++ ms).map Prod.fst).Nodup) {rest : List Char} :
    run (.obj before none :: frames, .next) (members ms ++ '}' :: rest) =
      run (.obj (before ++ ms) none :: frames, .next) ('}' :: rest) := by
  match ms with
  | [] => rw [members, List.nil_append, List.append_nil]
  | (k, v) :: ms =>
      obtain ⟨first, others⟩ := List.forall_mem_cons.mp distinct
      have new : k ∉ before.map Prod.fst := by
        rw [List.map_append, List.map_cons] at nodup
        exact fun member => (List.nodup_append.mp nodup).2.2 k member k List.mem_cons_self rfl
      have nodup' : ((before ++ [(k, v)] ++ ms).map Prod.fst).Nodup := by
        rwa [List.append_assoc, List.singleton_append]
      have comma : ∀ cs, run (.obj before none :: frames, .next) (',' :: '"' :: cs) =
          run (.obj before none :: frames, .string []) cs := fun _ => rfl
      have colon : ∀ cs, run (.obj before (some k) :: frames, .colon) (':' :: cs) =
          run (.obj before (some k) :: frames, .value false) cs := fun _ => rfl
      rw [members, stringText]
      simp only [List.cons_append, List.append_assoc, List.nil_append]
      rw [comma, run_string, finishString, Option.bind_some, colon,
        run_compact first (due_key _ _ _) false (.inr (separated_members (by decide))), finish, Option.bind_some,
        put_of_not_mem new, run_members others nodup', List.append_assoc, List.singleton_append]

end

theorem parse_compact {v : Value} (distinct : Distinct v) (collection : v.isCollection = true) :
    parse (compact v) = some v := by
  have whole := @run_compact v distinct [] (fun _ _ same => by cases same) false [] (.inl collection)
  rw [List.append_nil] at whole
  rw [parse, whole]
  rfl

def Printable (text : List Char) : Prop := ∀ c ∈ text, 32 ≤ c.toNat

instance (text : List Char) : Decidable (Printable text) :=
  decidable_of_iff (text.all (fun c => decide (32 ≤ c.toNat)) = true) (List.all_eq_true.trans (forall₂_congr fun _ _ => decide_eq_true_iff))

theorem Printable.append {front back : List Char} (h : Printable front) (h' : Printable back) :
    Printable (front ++ back) := List.forall_mem_append.mpr ⟨h, h'⟩

theorem Printable.cons {c : Char} {text : List Char} (h : 32 ≤ c.toNat) (h' : Printable text) :
    Printable (c :: text) := List.forall_mem_cons.mpr ⟨h, h'⟩

theorem printable_digit (n : ℕ) : 32 ≤ (Nat.digitChar (n % 16)).toNat := by
  have all : ∀ d < 16, 32 ≤ (Nat.digitChar d).toNat := by decide
  exact all _ (Nat.mod_lt n (by decide))

theorem printable_unit (unit : UInt16) : Printable (unitText unit) := by
  unfold unitText
  split
  · rename_i plain
    have valid : unit.toNat.isValidChar := .inl (by omega)
    have toNat : (Char.ofNat unit.toNat).toNat = unit.toNat := by
      rw [Char.ofNat, dif_pos valid]
      rfl
    exact List.forall_mem_singleton.mpr (by rw [toNat]; exact plain.1)
  · refine .cons (by decide) (.cons (by decide) ?_)
    exact .cons (printable_digit _) (.cons (printable_digit _) (.cons (printable_digit _)
      (.cons (printable_digit _) fun c none => (List.not_mem_nil none).elim)))

theorem printable_string (units : List UInt16) : Printable (stringText units) := by
  refine .cons (by decide) (.append (fun c member => ?_) (.cons (by decide) fun c none => (List.not_mem_nil none).elim))
  obtain ⟨unit, -, member⟩ := List.mem_flatMap.mp member
  exact printable_unit unit c member

theorem printable_next {p q : Part} {c : Char} (h : p.next c = some q) : 32 ≤ c.toNat := by
  by_contra control
  have other : ∀ d : Char, 32 ≤ d.toNat → c ≠ d := by
    rintro d printable rfl
    exact control printable
  have digit : ∀ part, Part.digit c part = none := by
    intro part
    refine if_neg fun isDigit => ?_
    have range := Char.isDigit_iff_toNat.mp isDigit
    have least : Char.toNat '0' = 48 := rfl
    omega
  have tail : Part.tail c = none := if_neg (not_or.mpr ⟨other _ (by decide), other _ (by decide)⟩)
  have minus := other '-' (by decide)
  have plus := other '+' (by decide)
  have zero := other '0' (by decide)
  have point := other '.' (by decide)
  cases p <;> simp only [Part.next, digit, tail, minus, plus, zero, point, if_false, or_self, Option.or_none] at h <;>
    cases h

theorem printable_literal (literal : Literal) : Printable literal.text := by
  have all : ∀ (text : List Char) (p q : Part), text.foldlM Part.next p = some q → Printable text := by
    intro text
    induction text with
    | nil => exact fun p q _ c none => (List.not_mem_nil none).elim
    | cons c text ih =>
        intro p q h
        rw [List.foldlM_cons] at h
        obtain ⟨part, next, rest⟩ := Option.bind_eq_some_iff.mp h
        exact .cons (printable_next next) (ih part q rest)
  obtain ⟨part, whole, -⟩ := (Option.any_eq_true _ _).mp literal.number
  exact all _ _ _ whole

mutual

theorem printable_compact : (v : Value) → Printable (compact v)
  | .null => by rw [compact]; decide
  | .bool true => by rw [compact]; decide
  | .bool false => by rw [compact]; decide
  | .num literal => by rw [compact]; exact printable_literal literal
  | .str units => by rw [compact]; exact printable_string units
  | .arr [] => by rw [compact]; decide
  | .arr (v :: vs) => by
      rw [compact]
      exact .cons (by decide) (.append (.append (printable_compact v) (printable_items vs)) (by decide))
  | .obj [] => by rw [compact]; decide
  | .obj ((k, v) :: ms) => by
      rw [compact]
      exact .cons (by decide) (.append (.append (printable_string k) (.cons (by decide)
        (.append (printable_compact v) (printable_members ms)))) (by decide))

theorem printable_items : (vs : List Value) → Printable (items vs)
  | [] => by rw [items]; exact fun c none => (List.not_mem_nil none).elim
  | v :: vs => by
      rw [items]
      exact .cons (by decide) (.append (printable_compact v) (printable_items vs))

theorem printable_members : (ms : List (List UInt16 × Value)) → Printable (members ms)
  | [] => by rw [members]; exact fun c none => (List.not_mem_nil none).elim
  | (k, v) :: ms => by
      rw [members]
      exact .cons (by decide) (.append (printable_string k) (.cons (by decide)
        (.append (printable_compact v) (printable_members ms))))

end

theorem compact_collection {v : Value} (collection : v.isCollection = true) :
    ∃ first inner last, compact v = first :: inner ++ [last] ∧ Bracket first ∧ (last = ']' ∨ last = '}') := by
  match v with
  | .arr [] => exact ⟨'[', [], ']', by rw [compact]; rfl, .inl rfl, .inl rfl⟩
  | .arr (v :: vs) => exact ⟨'[', _, ']', by rw [compact]; rfl, .inl rfl, .inl rfl⟩
  | .obj [] => exact ⟨'{', [], '}', by rw [compact]; rfl, .inr rfl, .inr rfl⟩
  | .obj ((k, v) :: ms) => exact ⟨'{', _, '}', by rw [compact]; rfl, .inr rfl, .inr rfl⟩
  | .null | .bool _ | .num _ | .str _ => cases collection

end

end JsonText
