import Mathlib.Algebra.GroupWithZero.Nat
import Mathlib.Data.List.DropRight

/-!
# Strings the way the program handles them

`trim`, `toLowerCase`, `split` and `join`. White space is the set the language trims;
letters outside ASCII keep their case, but for the one that is lowered into ASCII.
-/
namespace Text

def isSpace (c : Char) : Bool :=
  c ∈ ['\t', '\n', '\x0b', '\x0c', '\r', ' ', '\u00a0', '\u1680', '\u2028', '\u2029', '\u202f',
    '\u205f', '\u3000', '\ufeff'] ∨ ('\u2000' ≤ c ∧ c ≤ '\u200a')

def trim (s : String) : String :=
  String.ofList ((s.toList.dropWhile isSpace).rdropWhile isSpace)

def trimStart (s : String) : String := String.ofList (s.toList.dropWhile isSpace)

/-- The Kelvin sign is a `k`. -/
def lower (c : Char) : Char := if c = '\u212a' then 'k' else c.toLower

def toLowerCase (s : String) : String := String.ofList (s.toList.map lower)

def toUpperCase (s : String) : String := String.ofList (s.toList.map Char.toUpper)

def startsWith (s start : String) : Bool := start.toList.isPrefixOf s.toList

def split (s : String) (sep : Char) : List String := (s.toList.splitOn sep).map String.ofList

def length (s : String) : ℕ := (s.toList.map fun c => if c.toNat < 0x10000 then 1 else 2).sum

def units (c : Char) : List UInt16 :=
  if c.toNat < 0x10000 then [.ofNat c.toNat]
  else [.ofNat (0xd800 + (c.toNat - 0x10000) / 0x400), .ofNat (0xdc00 + (c.toNat - 0x10000) % 0x400)]

def utf16 (text : List Char) : List UInt16 := text.flatMap units

/-- The order of `sort()`. -/
def Before (a b : String) : Prop := utf16 a.toList ≤ utf16 b.toList

instance : DecidableRel Before := fun a b => inferInstanceAs (Decidable (utf16 a.toList ≤ utf16 b.toList))

/-- The characters of these code units, none of which is half of a pair. -/
def ofUtf16 : List UInt16 → Option (List Char)
  | [] => some []
  | [u] => if u.toNat < 0xd800 ∨ 0xe000 ≤ u.toNat then some [Char.ofNat u.toNat] else none
  | u :: v :: us =>
      if u.toNat < 0xd800 ∨ 0xe000 ≤ u.toNat then (ofUtf16 (v :: us)).map (Char.ofNat u.toNat :: ·)
      else if u.toNat < 0xdc00 ∧ 0xdc00 ≤ v.toNat ∧ v.toNat < 0xe000 then
        (ofUtf16 us).map (Char.ofNat (0x10000 + (u.toNat - 0xd800) * 0x400 + (v.toNat - 0xdc00)) :: ·)
      else none

def jsonChar (c : Char) : String :=
  match c with
  | '"' => "\\\""
  | '\\' => "\\\\"
  | '\x08' => "\\b"
  | '\t' => "\\t"
  | '\n' => "\\n"
  | '\x0c' => "\\f"
  | '\r' => "\\r"
  | c =>
      if c.toNat < 32 then "\\u00" ++ String.ofList [Nat.digitChar (c.toNat / 16), Nat.digitChar (c.toNat % 16)]
      else c.toString

/-- `JSON.stringify` of a string. -/
def json (s : String) : String := "\"" ++ String.join (s.toList.map jsonChar) ++ "\""

def join (sep : String) (parts : List String) : String := String.intercalate sep parts

def indexOf (pattern : List Char) : List Char → Option ℕ
  | [] => if pattern.isEmpty then some 0 else none
  | c :: text =>
      if pattern.isPrefixOf (c :: text) then some 0 else (indexOf pattern text).map (· + 1)

def lastIndexOf (pattern : List Char) : List Char → Option ℕ
  | [] => if pattern.isEmpty then some 0 else none
  | c :: text =>
      match lastIndexOf pattern text with
      | some i => some (i + 1)
      | none => if pattern.isPrefixOf (c :: text) then some 0 else none

theorem toLower_of_not_upper {c : Char} (h : ¬ ('A' ≤ c ∧ c ≤ 'Z')) : c.toLower = c := by
  unfold Char.toLower
  rw [dif_neg]
  exact fun upper => h ⟨upper.1, upper.2⟩

theorem toLower_upper {c : Char} (h : 'A' ≤ c ∧ c ≤ 'Z') : 'a' ≤ c.toLower ∧ c.toLower ≤ 'z' := by
  have low : 65 ≤ c.val.toNat := h.1
  have high : c.val.toNat ≤ 90 := h.2
  have val : c.toLower.val.toNat = c.val.toNat + 32 := by
    unfold Char.toLower
    rw [dif_pos ⟨h.1, h.2⟩]
    show (c.val + ('a'.val - 'A'.val)).toNat = _
    rw [UInt32.toNat_add]
    have : ('a'.val - 'A'.val).toNat = 32 := by decide
    omega
  constructor
  · show 97 ≤ c.toLower.val.toNat
    omega
  · show c.toLower.val.toNat ≤ 122
    omega

theorem toLower_toLower (c : Char) : c.toLower.toLower = c.toLower := by
  by_cases upper : 'A' ≤ c ∧ c ≤ 'Z'
  · refine toLower_of_not_upper fun again => ?_
    have low : 97 ≤ c.toLower.val.toNat := (toLower_upper upper).1
    have high : c.toLower.val.toNat ≤ 90 := again.2
    omega
  · rw [toLower_of_not_upper upper, toLower_of_not_upper upper]

/-- A character that is no letter is what only itself is lowered to. -/
theorem toLower_eq_iff {c d : Char} (noLetter : d < 'A' ∨ 'z' < d) : c.toLower = d ↔ c = d := by
  by_cases upper : 'A' ≤ c ∧ c ≤ 'Z'
  · obtain ⟨low, high⟩ := toLower_upper upper
    have low' : 65 ≤ c.val.toNat := upper.1
    have high' : c.val.toNat ≤ 90 := upper.2
    have low : 97 ≤ c.toLower.val.toNat := low
    have high : c.toLower.val.toNat ≤ 122 := high
    have outside : d.val.toNat < 65 ∨ 122 < d.val.toNat := noLetter
    constructor <;> rintro rfl <;> omega
  · rw [toLower_of_not_upper upper]

theorem isSpace_toLower (c : Char) : isSpace c.toLower = isSpace c := by
  by_cases upper : 'A' ≤ c ∧ c ≤ 'Z'
  · have space : ∀ d : Char, 'A' ≤ d → d ≤ 'z' → isSpace d = false := by
      intro d low high
      have low : 65 ≤ d.val.toNat := low
      have high : d.val.toNat ≤ 122 := high
      have ne : ∀ e : Char, e.val.toNat < 65 ∨ 122 < e.val.toNat → d ≠ e := by
        rintro e outside rfl
        omega
      have range : ¬ ('\u2000' ≤ d) := fun le => by
        have : 8192 ≤ d.val.toNat := le
        omega
      simp only [isSpace, List.mem_cons, List.not_mem_nil, or_false, range, false_and, or_false,
        decide_eq_false_iff_not, not_or]
      exact ⟨ne _ (by decide), ne _ (by decide), ne _ (by decide), ne _ (by decide),
        ne _ (by decide), ne _ (by decide), ne _ (by decide), ne _ (by decide),
        ne _ (by decide), ne _ (by decide), ne _ (by decide), ne _ (by decide),
        ne _ (by decide), ne _ (by decide)⟩
    obtain ⟨low, high⟩ := toLower_upper upper
    have low' : 97 ≤ c.toLower.val.toNat := low
    have upper' : c.val.toNat ≤ 90 := upper.2
    have above : 'A' ≤ c.toLower := show 65 ≤ c.toLower.val.toNat by omega
    have below : c ≤ 'z' := show c.val.toNat ≤ 122 by omega
    rw [space _ above high, space c upper.1 below]
  · rw [toLower_of_not_upper upper]

theorem lower_of_ne {c : Char} (h : c ≠ '\u212a') : lower c = c.toLower := if_neg h

/-- A character that is no letter is what only itself is lowered to. -/
theorem lower_eq_iff {c d : Char} (noLetter : d < 'A' ∨ 'z' < d ∧ d ≠ '\u212a') : lower c = d ↔ c = d := by
  by_cases kelvin : c = '\u212a'
  · rw [kelvin]
    refine iff_of_false ?_ ?_ <;> rintro rfl <;> exact absurd noLetter (by decide)
  · rw [lower_of_ne kelvin, toLower_eq_iff (noLetter.imp_right And.left)]

theorem lower_lower (c : Char) : lower (lower c) = lower c := by
  by_cases kelvin : c = '\u212a'
  · rw [kelvin]
    decide
  · have kept : c.toLower ≠ '\u212a' := fun is => kelvin ((toLower_eq_iff (.inr (by decide))).mp is)
    rw [lower_of_ne kelvin, lower_of_ne kept, toLower_toLower]

theorem isSpace_lower (c : Char) : isSpace (lower c) = isSpace c := by
  by_cases kelvin : c = '\u212a'
  · rw [kelvin]
    simp [isSpace, lower]
  · rw [lower_of_ne kelvin, isSpace_toLower]

@[simp] theorem toLowerCase_toLowerCase (s : String) :
    toLowerCase (toLowerCase s) = toLowerCase s := by
  simp only [toLowerCase, String.toList_ofList, List.map_map]
  exact congrArg _ (List.map_congr_left fun c _ => lower_lower c)

section Trim

variable {α : Type*} (p : α → Bool)

theorem dropWhile_rdropWhile (l : List α) :
    ((l.dropWhile p).rdropWhile p).dropWhile p = (l.dropWhile p).rdropWhile p := by
  rw [List.dropWhile_eq_self_iff]
  intro nonempty starts
  have isPrefix := List.rdropWhile_prefix p (l.dropWhile p)
  have head := List.dropWhile_eq_self_iff.mp (List.dropWhile_idempotent p l)
  have longer : 0 < (l.dropWhile p).length := nonempty.trans_le isPrefix.length_le
  refine head longer ?_
  rwa [isPrefix.getElem nonempty] at starts

theorem rdropWhile_map {β : Type*} (f : β → α) (l : List β) :
    (l.map f).rdropWhile p = (l.rdropWhile (p ∘ f)).map f := by
  simp only [List.rdropWhile, ← List.map_reverse, List.dropWhile_map]

end Trim

@[simp] theorem trim_trim (s : String) : trim (trim s) = trim s := by
  simp only [trim, String.toList_ofList, dropWhile_rdropWhile, List.rdropWhile_idempotent]

theorem trim_toLowerCase (s : String) : trim (toLowerCase s) = toLowerCase (trim s) := by
  have same : isSpace ∘ lower = isSpace := funext isSpace_lower
  simp only [trim, toLowerCase, String.toList_ofList, List.dropWhile_map, rdropWhile_map, same]

theorem trim_cons {c : Char} (h : isSpace c = false) (l : List Char) :
    ∃ rest, trim (String.ofList (c :: l)) = String.ofList (c :: rest) := by
  have kept : ¬ isSpace c = true := Bool.eq_false_iff.mp h
  have start := List.rdropWhile_prefix isSpace (c :: l)
  have nonempty : (c :: l).rdropWhile isSpace ≠ [] := fun none =>
    kept (List.rdropWhile_eq_nil_iff.mp none c List.mem_cons_self)
  obtain ⟨d, rest, is⟩ := List.exists_cons_of_ne_nil nonempty
  rw [is, List.cons_prefix_cons] at start
  refine ⟨rest, ?_⟩
  rw [trim, String.toList_ofList, List.dropWhile_cons_of_neg kept, is, start.1]

theorem trim_eq_self {s : String} (head : ∀ c, s.toList.head? = some c → isSpace c = false)
    (last : ∀ c, s.toList.getLast? = some c → isSpace c = false) : trim s = s := by
  have start : s.toList.dropWhile isSpace = s.toList := by
    cases is : s.toList with
    | nil => rfl
    | cons c l => exact List.dropWhile_cons_of_neg (Bool.eq_false_iff.mp (head c (by rw [is]; rfl)))
  have stop : s.toList.rdropWhile isSpace = s.toList := by
    rcases List.eq_nil_or_concat s.toList with is | ⟨l, c, is⟩
    · rw [is]
      rfl
    · have kept := last c (by rw [is, List.concat_eq_append, List.getLast?_concat])
      rw [is, List.concat_eq_append, List.rdropWhile_concat_neg _ _ _ (Bool.eq_false_iff.mp kept)]
  rw [trim, start, stop, String.ofList_toList]

theorem isSpace_head_trim {s : String} {c : Char} (h : (trim s).toList.head? = some c) :
    isSpace c = false := by
  obtain ⟨l, is⟩ := List.head?_eq_some_iff.mp h
  have kept := dropWhile_rdropWhile isSpace s.toList
  rw [trim, String.toList_ofList] at is
  rw [is] at kept
  by_contra space
  rw [List.dropWhile_cons_of_pos (eq_true_of_ne_false space)] at kept
  have shorter := (List.dropWhile_sublist (l := l) isSpace).length_le
  rw [kept, List.length_cons] at shorter
  omega

theorem isSpace_last_trim {s : String} {c : Char} (h : (trim s).toList.getLast? = some c) : isSpace c = false := by
  rw [trim, String.toList_ofList] at h
  have filled : (s.toList.dropWhile isSpace).rdropWhile isSpace ≠ [] := by
    intro none
    rw [none] at h
    cases h
  have last := List.rdropWhile_last_not _ _ filled
  rw [List.getLast?_eq_some_getLast filled] at h
  rw [← Option.some.inj h]
  exact Bool.eq_false_iff.mpr last

theorem mem_of_mem_trim {s : String} {c : Char} (h : c ∈ (trim s).toList) : c ∈ s.toList := by
  rw [trim, String.toList_ofList] at h
  exact (List.dropWhile_sublist isSpace).subset ((List.rdropWhile_prefix isSpace _).subset h)

theorem mem_of_mem_toLowerCase {s : String} {c : Char} (noLetter : c < 'A' ∨ 'z' < c ∧ c ≠ '\u212a')
    (h : c ∈ (toLowerCase s).toList) : c ∈ s.toList := by
  rw [toLowerCase, String.toList_ofList, List.mem_map] at h
  obtain ⟨d, member, eq⟩ := h
  rwa [← (lower_eq_iff noLetter).mp eq]

theorem dropPrefix?_eq_some {l p rest : List Char} (h : l.dropPrefix? p = some rest) : l = p ++ rest := by
  obtain ⟨p', rfl, same⟩ := List.dropPrefix?_eq_some_iff.mp h
  rw [eq_of_beq same]

theorem dropPrefix?_append (start rest : List Char) :
    (start ++ rest).dropPrefix? start = some rest :=
  List.dropPrefix?_append_of_beq rest BEq.rfl

/-- What follows `start`, where the text begins with it. -/
def after (start s : String) : Option String := (s.toList.dropPrefix? start.toList).map String.ofList

theorem after_eq_some {start s rest : String} : after start s = some rest ↔ s = start ++ rest := by
  constructor
  · intro h
    obtain ⟨l, dropped, is⟩ := Option.map_eq_some_iff.mp h
    refine String.toList_inj.mp ?_
    rw [dropPrefix?_eq_some dropped, String.toList_append, ← is, String.toList_ofList]
  · rintro rfl
    rw [after, String.toList_append, dropPrefix?_append, Option.map_some, String.ofList_toList]

theorem after_append_eq_none {start front : String} (rest : String)
    (apart : ¬ start.toList <+: front.toList ∧ ¬ front.toList <+: start.toList) :
    after start (front ++ rest) = none := by
  cases found : after start (front ++ rest) with
  | none => rfl
  | some tail =>
      have same := congrArg String.toList (after_eq_some.mp found)
      rw [String.toList_append, String.toList_append] at same
      have short := List.prefix_append start.toList tail.toList
      rw [← same] at short
      rcases List.prefix_or_prefix_of_prefix short (List.prefix_append front.toList rest.toList) with is | is
      · exact absurd is apart.1
      · exact absurd is apart.2

theorem infix_of_indexOf {pattern text : List Char} {i : ℕ} (h : indexOf pattern text = some i) :
    pattern <:+: text := by
  induction text generalizing i with
  | nil =>
      unfold indexOf at h
      split at h
      · rename_i empty
        obtain rfl : pattern = [] := List.isEmpty_iff.mp empty
        exact List.nil_infix
      · cases h
  | cons c text ih =>
      unfold indexOf at h
      split at h
      · rename_i starts
        exact (List.isPrefixOf_iff_prefix.mp starts).isInfix
      · obtain ⟨j, later, -⟩ := Option.map_eq_some_iff.mp h
        exact List.infix_cons (ih later)

theorem indexOf_eq_none {pattern text : List Char} : indexOf pattern text = none ↔ ¬ pattern <:+: text := by
  refine ⟨fun missing inside => ?_, fun outside => ?_⟩
  · induction text with
    | nil =>
        obtain rfl := List.infix_nil.mp inside
        cases missing
    | cons c text ih =>
        rw [indexOf] at missing
        split at missing
        · cases missing
        · rename_i other
          rcases List.infix_cons_iff.mp inside with starts | later
          · exact other (List.isPrefixOf_iff_prefix.mpr starts)
          · exact ih (Option.map_eq_none_iff.mp missing) later
  · cases found : indexOf pattern text with
    | none => rfl
    | some i => exact absurd (infix_of_indexOf found) outside

theorem indexOf_append {c : Char} {front : List Char} (first : c ∉ front) (rest : List Char) :
    indexOf [c] (front ++ c :: rest) = some front.length := by
  induction front with
  | nil => simp [indexOf]
  | cons d front ih =>
      rw [List.mem_cons, not_or] at first
      have other : [c].isPrefixOf (d :: (front ++ c :: rest)) = false := by
        rw [List.isPrefixOf_cons_cons, beq_eq_false_iff_ne.mpr first.1, Bool.false_and]
      rw [List.cons_append, indexOf, if_neg (Bool.eq_false_iff.mp other), ih first.2]
      rfl

theorem lastIndexOf_eq_none {c : Char} {l : List Char} (h : c ∉ l) : lastIndexOf [c] l = none := by
  induction l with
  | nil => rfl
  | cons d l ih =>
      rw [List.mem_cons, not_or] at h
      have other : [c].isPrefixOf (d :: l) = false := by
        rw [List.isPrefixOf_cons_cons, beq_eq_false_iff_ne.mpr h.1, Bool.false_and]
      rw [lastIndexOf, ih h.2]
      exact if_neg (Bool.eq_false_iff.mp other)

theorem lastIndexOf_append {c : Char} {rest : List Char} (last : c ∉ rest) (front : List Char) :
    lastIndexOf [c] (front ++ c :: rest) = some front.length := by
  induction front with
  | nil =>
      rw [List.nil_append, lastIndexOf, lastIndexOf_eq_none last]
      simp
  | cons d front ih => rw [List.cons_append, lastIndexOf, ih, List.length_cons]

theorem split_eq_singleton {s : String} {sep : Char} (h : sep ∉ s.toList) : split s sep = [s] := by
  rw [split, List.splitOn_eq_singleton h, List.map_singleton, String.ofList_toList]

/-- A piece is no longer than the whole, and nothing in it was split at. -/
theorem of_mem_splitOnP {α : Type*} {p : α → Bool} {l piece : List α} (h : piece ∈ l.splitOnP p) :
    piece.length ≤ l.length ∧ ∀ a ∈ piece, p a = false := by
  induction l generalizing piece with
  | nil =>
      rw [List.splitOnP_nil, List.mem_singleton] at h
      subst h
      exact ⟨Nat.le_refl _, fun a none => by cases none⟩
  | cons x l ih =>
      have longer := fun {piece : List α} (mem : piece ∈ l.splitOnP p) =>
        (ih mem).1.trans (Nat.le_succ l.length)
      rw [List.splitOnP_cons_eq_if_modifyHead] at h
      split at h
      · rcases List.mem_cons.mp h with rfl | later
        · exact ⟨Nat.zero_le _, fun a none => by cases none⟩
        · exact ⟨longer later, (ih later).2⟩
      · rename_i kept
        cases pieces : l.splitOnP p with
        | nil => exact absurd pieces (List.splitOnP_ne_nil p l)
        | cons first rest =>
            have first' : first ∈ l.splitOnP p := by rw [pieces]; exact List.mem_cons_self
            rw [pieces, List.modifyHead_cons, List.mem_cons] at h
            rcases h with rfl | later
            · obtain ⟨short, clean⟩ := ih first'
              exact ⟨Nat.succ_le_succ short,
                List.forall_mem_cons.mpr ⟨Bool.eq_false_iff.mpr kept, clean⟩⟩
            · have later' : piece ∈ l.splitOnP p := by rw [pieces]; exact List.mem_cons_of_mem _ later
              exact ⟨longer later', (ih later').2⟩

theorem not_mem_of_mem_splitOn {α : Type*} [BEq α] [LawfulBEq α] {a : α} {l piece : List α}
    (h : piece ∈ l.splitOn a) : a ∉ piece := fun member =>
  Bool.false_ne_true (((of_mem_splitOnP h).2 a member).symm.trans BEq.rfl)

theorem not_mem_of_mem_split {s piece : String} {sep : Char} (h : piece ∈ split s sep) :
    sep ∉ piece.toList := by
  obtain ⟨l, member, rfl⟩ := List.mem_map.mp h
  rw [String.toList_ofList]
  exact not_mem_of_mem_splitOn member

theorem split_join {parts : List String} {s : String} {sep : Char} (is : s.toList = [sep])
    (clean : ∀ part ∈ parts, sep ∉ part.toList) (nonempty : parts ≠ []) :
    split (join s parts) sep = parts := by
  have clean : ∀ l ∈ parts.map String.toList, sep ∉ l := by
    rintro _ member
    obtain ⟨part, mem, rfl⟩ := List.mem_map.mp member
    exact clean part mem
  have nonempty : parts.map String.toList ≠ [] := fun none => nonempty (List.map_eq_nil_iff.mp none)
  rw [split, join, String.toList_intercalate, is, List.splitOn_intercalate sep clean nonempty,
    List.map_map]
  exact (List.map_congr_left fun part _ => String.ofList_toList).trans (List.map_id parts)

theorem join_split {s sep : String} {c : Char} (is : sep.toList = [c]) : join sep (split s c) = s := by
  refine String.toList_inj.mp ?_
  rw [join, String.toList_intercalate, split, List.map_map, is]
  have back : (s.toList.splitOn c).map (String.toList ∘ String.ofList) = s.toList.splitOn c :=
    (List.map_congr_left fun l _ => String.toList_ofList).trans (List.map_id _)
  rw [back]
  exact List.intercalate_splitOn c

/-- What stands before the first separator goes to the first part. -/
theorem split_append {start s : String} {sep : Char} (clean : sep ∉ start.toList) :
    ∃ first rest, split s sep = first :: rest ∧ split (start ++ s) sep = (start ++ first) :: rest := by
  have lists : ∀ l : List Char, sep ∉ l → ∀ first rest, s.toList.splitOn sep = first :: rest →
      (l ++ s.toList).splitOn sep = (l ++ first) :: rest := by
    intro l clean first rest pieces
    induction l with
    | nil => exact pieces
    | cons c l ih =>
        rw [List.mem_cons, not_or] at clean
        have other : ¬ (c == sep) = true := fun same => clean.1 (eq_of_beq same).symm
        rw [List.cons_append, List.splitOn_cons_eq_if_modifyHead, if_neg other, ih clean.2]
        rfl
  obtain ⟨first, rest, pieces⟩ := List.exists_cons_of_ne_nil (List.splitOn_ne_nil sep s.toList)
  refine ⟨String.ofList first, rest.map String.ofList, by rw [split, pieces, List.map_cons], ?_⟩
  rw [split, String.toList_append, lists _ clean _ _ pieces, List.map_cons, String.ofList_append,
    String.ofList_toList]

theorem split_append_sep {start sep : String} {c : Char} (is : sep.toList = [c]) (clean : c ∉ start.toList)
    (s : String) : split (start ++ (sep ++ s)) c = start :: split s c := by
  have behind : split (sep ++ s) c = "" :: split s c := by
    rw [split, String.toList_append, is, List.singleton_append, List.splitOn_cons_eq_if_modifyHead, if_pos BEq.rfl]
    rfl
  obtain ⟨first, rest, pieces, whole⟩ := split_append (s := sep ++ s) clean
  rw [behind] at pieces
  obtain ⟨rfl, rfl⟩ := List.cons_eq_cons.mp pieces
  rw [whole, String.append_empty]

theorem splitOn_append {α : Type*} [BEq α] [LawfulBEq α] (a : α) (l : List α) :
    ∃ front last, l.splitOn a = front ++ [last] ∧ (∀ x ∈ last, x ∈ l) ∧
      ∀ more, (l ++ more).splitOn a = front ++ (last ++ more).splitOn a := by
  induction l with
  | nil => exact ⟨[], [], List.splitOn_nil a, fun x none => none, fun more => rfl⟩
  | cons x l ih =>
      obtain ⟨front, last, pieces, inside, rest⟩ := ih
      by_cases here : (x == a) = true
      · refine ⟨[] :: front, last, ?_, fun y member => List.mem_cons_of_mem _ (inside y member), fun more => ?_⟩
        · rw [List.splitOn_cons_eq_if_modifyHead, if_pos here, pieces]
          rfl
        · rw [List.cons_append, List.splitOn_cons_eq_if_modifyHead, if_pos here, rest]
          rfl
      · cases front with
        | nil =>
            refine ⟨[], x :: last, ?_, fun y member => ?_, fun more => ?_⟩
            · rw [List.splitOn_cons_eq_if_modifyHead, if_neg here, pieces]
              rfl
            · rcases List.mem_cons.mp member with rfl | later
              · exact List.mem_cons_self
              · exact List.mem_cons_of_mem _ (inside y later)
            · rw [List.cons_append, List.splitOn_cons_eq_if_modifyHead, if_neg here, rest,
                List.nil_append, List.nil_append, List.cons_append,
                List.splitOn_cons_eq_if_modifyHead, if_neg here]
        | cons first front =>
            refine ⟨(x :: first) :: front, last, ?_, fun y member => List.mem_cons_of_mem _ (inside y member),
              fun more => ?_⟩
            · rw [List.splitOn_cons_eq_if_modifyHead, if_neg here, pieces]
              rfl
            · rw [List.cons_append, List.splitOn_cons_eq_if_modifyHead, if_neg here, rest]
              rfl

/-- The pieces from one on are those of a text that begins there. -/
theorem splitOn_drop {α : Type*} [BEq α] {a : α} {l : List α} {k : ℕ} (h : k < (l.splitOn a).length) :
    ∃ front back, l = front ++ back ∧ back.splitOn a = (l.splitOn a).drop k := by
  induction l generalizing k with
  | nil =>
      rw [List.splitOn_nil] at h ⊢
      obtain rfl : k = 0 := Nat.lt_one_iff.mp h
      exact ⟨[], [], rfl, rfl⟩
  | cons x l ih =>
      cases k with
      | zero => exact ⟨[], x :: l, rfl, rfl⟩
      | succ k =>
          rw [List.splitOn_cons_eq_if_modifyHead] at h ⊢
          split at h
          · rename_i here
            obtain ⟨front, back, whole, pieces⟩ := ih (Nat.lt_of_succ_lt_succ h)
            rw [if_pos here]
            exact ⟨x :: front, back, by rw [whole]; rfl, pieces⟩
          · rename_i other
            rw [List.length_modifyHead] at h
            obtain ⟨front, back, whole, pieces⟩ := ih h
            rw [if_neg other]
            refine ⟨x :: front, back, by rw [whole]; rfl, ?_⟩
            rw [pieces]
            cases l.splitOn a with
            | nil => rfl
            | cons piece rest => rfl

theorem splitOn_flatMap {α : Type*} [BEq α] [LawfulBEq α] (a : α) {pieces : List (List α)}
    (clean : ∀ piece ∈ pieces, a ∉ piece) : (pieces.flatMap (· ++ [a])).splitOn a = pieces ++ [[]] := by
  induction pieces with
  | nil => exact List.splitOn_nil a
  | cons piece pieces ih =>
      obtain ⟨first, others⟩ := List.forall_mem_cons.mp clean
      rw [List.flatMap_cons, List.append_assoc, List.singleton_append,
        List.splitOn_append_cons_self_of_not_mem first, ih others, List.cons_append]

theorem flatten_splitOn {α : Type*} [DecidableEq α] (a : α) (l : List α) :
    (l.splitOn a).flatten = l.filter (· ≠ a) := by
  induction l with
  | nil => rfl
  | cons x l ih =>
      rw [List.splitOn_cons_eq_if_modifyHead]
      obtain ⟨piece, rest, pieces⟩ := List.exists_cons_of_ne_nil (List.splitOn_ne_nil a l)
      rw [pieces] at ih ⊢
      split
      · rename_i here
        have dropped : (x :: l).filter (· ≠ a) = l.filter (· ≠ a) := List.filter_cons_of_neg (by simpa using here)
        rw [dropped, ← ih]
        rfl
      · rename_i other
        have kept : (x :: l).filter (· ≠ a) = x :: l.filter (· ≠ a) := List.filter_cons_of_pos (by simpa using other)
        rw [kept, ← ih]
        rfl

/-- The last element that is kept has only dropped ones behind it. -/
theorem getLast?_filter_iff {α : Type*} {p : α → Bool} {l : List α} {last : α} :
    (l.filter p).getLast? = some last ↔
      p last = true ∧ ∃ front back, l = front ++ last :: back ∧ ∀ x ∈ back, p x = false := by
  rw [List.getLast?_filter, List.find?_eq_some_iff_append]
  simp only [Bool.not_eq_true']
  refine and_congr_right fun _ => ⟨?_, ?_⟩
  · rintro ⟨back, front, reversed, dropped⟩
    refine ⟨front.reverse, back.reverse, ?_, fun x member => dropped x (List.mem_reverse.mp member)⟩
    rw [← List.reverse_reverse l, reversed, List.reverse_append, List.reverse_cons, List.append_assoc]
    rfl
  · rintro ⟨front, back, rfl, dropped⟩
    refine ⟨back.reverse, front.reverse, ?_, fun x member => dropped x (List.mem_reverse.mp member)⟩
    rw [List.reverse_append, List.reverse_cons, List.append_assoc]
    rfl

theorem toList_join (parts : List String) : (join "" parts).toList = parts.flatMap String.toList := by
  rw [join]
  induction parts with
  | nil => rfl
  | cons part parts ih =>
      cases parts with
      | nil => rw [String.intercalate_singleton, List.flatMap_singleton]
      | cons next parts =>
          rw [String.intercalate_cons_cons, String.toList_append, String.toList_append, ih, List.flatMap_cons,
            List.append_assoc]
          rfl

theorem length_trim_le (s : String) : (trim s).toList.length ≤ s.toList.length := by
  rw [trim, String.toList_ofList]
  exact (List.rdropWhile_prefix isSpace _).length_le.trans (List.dropWhile_sublist isSpace).length_le

theorem ofUtf16_plain {u : UInt16} (plain : u.toNat < 0xd800 ∨ 0xe000 ≤ u.toNat) (us : List UInt16) :
    ofUtf16 (u :: us) = (ofUtf16 us).map (Char.ofNat u.toNat :: ·) := by
  cases us with
  | nil => simp only [ofUtf16, plain, if_true, Option.map_some]
  | cons v us => simp only [ofUtf16, plain, if_true]

theorem ofUtf16_units (c : Char) (us : List UInt16) : ofUtf16 (units c ++ us) = (ofUtf16 us).map (c :: ·) := by
  have valid : c.toNat < 0xd800 ∨ 0xdfff < c.toNat ∧ c.toNat < 0x110000 := c.valid
  unfold units
  split
  · rename_i small
    have same : (UInt16.ofNat c.toNat).toNat = c.toNat := UInt16.toNat_ofNat_of_lt small
    rw [List.singleton_append, ofUtf16_plain (by omega), same, Char.ofNat_toNat]
  · have high : (UInt16.ofNat (0xd800 + (c.toNat - 0x10000) / 0x400)).toNat = 0xd800 + (c.toNat - 0x10000) / 0x400 :=
      UInt16.toNat_ofNat_of_lt (by unfold UInt16.size; omega)
    have low : (UInt16.ofNat (0xdc00 + (c.toNat - 0x10000) % 0x400)).toNat = 0xdc00 + (c.toNat - 0x10000) % 0x400 :=
      UInt16.toNat_ofNat_of_lt (by unfold UInt16.size; omega)
    have code : 0x10000 + (0xd800 + (c.toNat - 0x10000) / 0x400 - 0xd800) * 0x400 +
        (0xdc00 + (c.toNat - 0x10000) % 0x400 - 0xdc00) = c.toNat := by omega
    rw [List.cons_append, List.singleton_append, ofUtf16, high, low, if_neg (by omega), if_pos (by omega), code,
      Char.ofNat_toNat]

theorem ofUtf16_utf16 (text : List Char) : ofUtf16 (utf16 text) = some text := by
  induction text with
  | nil => rfl
  | cons c text ih => rw [utf16, List.flatMap_cons, ofUtf16_units, ← utf16, ih, Option.map_some]

theorem utf16_injective : Function.Injective utf16 := by
  intro a b same
  rw [← Option.some.injEq, ← ofUtf16_utf16 a, same, ofUtf16_utf16]

instance : Std.Total Before := ⟨fun a b => List.le_total (utf16 a.toList) (utf16 b.toList)⟩

instance : IsTrans String Before := ⟨fun _ _ _ h k => @List.le_trans UInt16 _ _ _ _ _ _ _ h k⟩

instance : Std.Antisymm Before :=
  ⟨fun _ _ h k => String.toList_inj.mp (utf16_injective (@List.le_antisymm UInt16 _ _ _ _ h k))⟩

end Text
