import Quickchr.Lib.Number

/-!
# The texts of IP addresses

Every text an address can be written in, and the number it stands for: dotted quads, groups of
hexadecimal digits with or without `::`, and groups that end in a dotted quad.
-/
namespace Ip

structure Decimal where
  text : List Char
  nonempty : text ≠ []
  digits : text.all Char.isDigit = true

def Decimal.value (d : Decimal) : ℕ := Nat.ofDigitChars 10 d.text 0

structure Octet extends Decimal where
  small : toDecimal.value ≤ 255

def isHex (c : Char) : Bool := (Number.digitValue c).isSome

def hexValue (l : List Char) : ℕ := l.foldl (fun n c => n * 16 + (Number.digitValue c).getD 0) 0

structure Group where
  text : List Char
  nonempty : text ≠ []
  short : text.length ≤ 4
  hex : text.all isHex = true

def Group.value (g : Group) : ℕ := hexValue g.text

structure Quad where
  first : Octet
  second : Octet
  third : Octet
  fourth : Octet

namespace Quad

def octets (q : Quad) : List Octet := [q.first, q.second, q.third, q.fourth]

def text (q : Quad) : List Char := List.intercalate ['.'] (q.octets.map fun o => o.text)

def value (q : Quad) : ℕ := q.octets.foldl (fun n o => n * 256 + o.value) 0

end Quad

/-- The groups before `::` and after it, if it is there, and the quad at the end. -/
structure V6 where
  left : List Group
  right : Option (List Group)
  tail : Option Quad
  size : match right with
    | none => left.length + 2 * tail.toList.length = 8
    | some right => left.length + right.length + 2 * tail.toList.length ≤ 7

def colons (words : List (List Char)) : List Char := List.intercalate [':'] words

/-- The words, each with a colon behind it. -/
def lead (words : List (List Char)) : List Char := words.flatMap (· ++ [':'])

def join (groups : List ℕ) : ℕ := groups.foldl (fun n g => n * 65536 + g) 0

namespace V6

def texts (groups : List Group) : List (List Char) := groups.map fun g => g.text

def tailTexts (a : V6) : List (List Char) := a.tail.toList.map fun q => q.text

def text (a : V6) : List Char :=
  match a.right with
  | none => colons (texts a.left ++ a.tailTexts)
  | some right => colons (texts a.left) ++ "::".toList ++ colons (texts right ++ a.tailTexts)

def back (a : V6) : List Group := a.right.getD []

/-- The groups with the zeros that `::` stands for. -/
def groups (a : V6) : List ℕ :=
  a.left.map Group.value ++
    List.replicate (8 - a.left.length - a.back.length - 2 * a.tail.toList.length) 0 ++
    a.back.map Group.value ++ a.tail.toList.flatMap fun q => [q.value / 65536, q.value % 65536]

def value (a : V6) : ℕ := join a.groups

end V6

inductive Address
  | v4 (value : ℕ)
  | v6 (value : ℕ)
  deriving DecidableEq

namespace Address

def width : Address → ℕ
  | v4 _ => 32
  | v6 _ => 128

/-- Of one family, and equal on the first `bits` bits. -/
def Agree (bits : ℕ) : Address → Address → Prop
  | v4 a, v4 b => ∀ i, 32 - bits ≤ i → a.testBit i = b.testBit i
  | v6 a, v6 b => ∀ i, 128 - bits ≤ i → a.testBit i = b.testBit i
  | _, _ => False

end Address

inductive Literal
  | v4 (quad : Quad)
  | v6 (groups : V6)

namespace Literal

def text : Literal → List Char
  | v4 quad => quad.text
  | v6 groups => groups.text

def address : Literal → Address
  | v4 quad => .v4 quad.value
  | v6 groups => .v6 groups.value

/-- An IPv6 address that ends in a dotted quad. -/
def Dotted : Literal → Prop
  | v4 _ => False
  | v6 groups => groups.tail ≠ none

end Literal

section Words

variable {α β : Type*} {sep x : α} {ws : List (List α)}

theorem mem_intercalate (h : x ∈ [sep].intercalate ws) : x = sep ∨ ∃ w ∈ ws, x ∈ w := by
  induction ws with
  | nil => cases h
  | cons v ws ih =>
      cases ws with
      | nil =>
          rw [List.intercalate_singleton] at h
          exact .inr ⟨v, List.mem_cons_self, h⟩
      | cons w ws =>
          rw [List.intercalate_cons_cons, List.append_assoc, List.mem_append, List.mem_append,
            List.mem_singleton] at h
          obtain here | mark | later := h
          · exact .inr ⟨v, List.mem_cons_self, here⟩
          · exact .inl mark
          · exact (ih later).imp_right fun ⟨u, member, here⟩ => ⟨u, List.mem_cons_of_mem _ member, here⟩

theorem map_intercalate (f : α → β) :
    ([sep].intercalate ws).map f = [f sep].intercalate (ws.map (List.map f)) := by
  induction ws with
  | nil => rfl
  | cons v ws ih =>
      cases ws with
      | nil => rw [List.map_singleton, List.intercalate_singleton, List.intercalate_singleton]
      | cons w ws =>
          rw [List.intercalate_cons_cons, List.map_append, List.map_append, List.map_singleton, ih,
            List.map_cons, List.map_cons, List.map_cons, List.intercalate_cons_cons]

theorem colons_snoc {ws : List (List Char)} {w : List Char} : colons (ws ++ [w]) = lead ws ++ w := by
  induction ws with
  | nil => exact List.intercalate_singleton
  | cons v ws ih =>
      rw [colons, List.cons_append, List.intercalate_cons_of_ne_nil (by simp), ← colons, ih]
      simp only [lead, List.flatMap_cons, List.append_assoc]

end Words

theorem shiftRight_eq_iff {a b s : ℕ} :
    a >>> s = b >>> s ↔ ∀ i, s ≤ i → a.testBit i = b.testBit i := by
  constructor
  · intro same i h
    have bit := congrArg (Nat.testBit · (i - s)) same
    simpa only [Nat.testBit_shiftRight, Nat.add_sub_cancel' h] using bit
  · intro same
    refine Nat.eq_of_testBit_eq fun i => ?_
    rw [Nat.testBit_shiftRight, Nat.testBit_shiftRight]
    exact same _ (Nat.le_add_right s i)

theorem Address.agree_width {a b : Address} : a.Agree b.width b ↔ a = b := by
  cases a <;> cases b <;>
    simp only [Agree, width, Nat.sub_self, Nat.zero_le, true_imp_iff, v4.injEq, v6.injEq, reduceCtorEq]
  all_goals exact ⟨Nat.eq_of_testBit_eq, fun same _ => by rw [same]⟩

theorem isHex_of_isDigit {c : Char} (h : c.isDigit = true) : isHex c = true := by
  rw [isHex, Number.digitValue, if_pos h]
  rfl

theorem digitValue_lt {c : Char} {n : ℕ} (h : Number.digitValue c = some n) : n < 16 := by
  unfold Number.digitValue at h
  split at h
  · rename_i digit
    have high : c.toNat ≤ 57 := (Char.isDigit_iff_toNat.mp digit).2
    have is := Option.some.inj h
    omega
  · split at h
    · rename_i lower
      have high : c.toNat ≤ 102 := lower.2
      have is := Option.some.inj h
      omega
    · split at h
      · rename_i upper
        have high : c.toNat ≤ 70 := upper.2
        have is := Option.some.inj h
        omega
      · cases h

theorem hexValue_lt (l : List Char) : hexValue l < 16 ^ l.length := by
  induction l using List.reverseRecOn with
  | nil => exact Nat.one_pos
  | append_singleton l c ih =>
      have digit : (Number.digitValue c).getD 0 < 16 := by
        cases is : Number.digitValue c with
        | none => decide
        | some n => exact digitValue_lt is
      have step : hexValue (l ++ [c]) = hexValue l * 16 + (Number.digitValue c).getD 0 := by
        rw [hexValue, List.foldl_append]
        rfl
      rw [step, List.length_append, List.length_singleton, pow_succ]
      omega

theorem Group.value_lt (g : Group) : g.value < 2 ^ 16 :=
  lt_of_lt_of_le (hexValue_lt g.text) (Nat.pow_le_pow_right (by decide) g.short)

section

variable {c : Char} {a : V6}

theorem Quad.mem_text {q : Quad} (h : c ∈ q.text) : c.isDigit = true ∨ c = '.' := by
  obtain dot | ⟨w, member, here⟩ := mem_intercalate h
  · exact .inr dot
  · obtain ⟨o, -, rfl⟩ := List.mem_map.mp member
    exact .inl (List.all_eq_true.mp o.digits c here)

theorem mem_texts {groups : List Group} {w : List Char} (h : w ∈ V6.texts groups) (here : c ∈ w) :
    isHex c = true := by
  obtain ⟨g, -, rfl⟩ := List.mem_map.mp h
  exact List.all_eq_true.mp g.hex c here

theorem V6.mem_text (h : c ∈ a.text) : c = ':' ∨ isHex c = true ∨ a.tail ≠ none ∧ c = '.' := by
  have inTail {w : List Char} (member : w ∈ a.tailTexts) (here : c ∈ w) :
      isHex c = true ∨ a.tail ≠ none ∧ c = '.' := by
    obtain ⟨q, is, rfl⟩ := List.mem_map.mp member
    rw [Option.mem_toList] at is
    exact (Quad.mem_text here).imp isHex_of_isDigit fun dot => ⟨by rw [is]; exact Option.some_ne_none q, dot⟩
  have inWords {groups : List Group} (h : c ∈ colons (texts groups ++ a.tailTexts)) :
      c = ':' ∨ isHex c = true ∨ a.tail ≠ none ∧ c = '.' := by
    obtain colon | ⟨w, member, here⟩ := mem_intercalate h
    · exact .inl colon
    · obtain group | tail := List.mem_append.mp member
      · exact .inr (.inl (mem_texts group here))
      · exact .inr (inTail tail here)
  unfold text at h
  split at h
  · exact inWords h
  · rw [List.mem_append, List.mem_append] at h
    obtain (front | mark) | back := h
    · obtain colon | ⟨w, member, here⟩ := mem_intercalate front
      · exact .inl colon
      · exact .inr (.inl (mem_texts member here))
    · exact .inl (List.all_eq_true.mp (by decide : ("::".toList.all (· == ':')) = true) c mark |> eq_of_beq)
    · exact inWords back

theorem Literal.mem_text {l : Literal} (h : c ∈ l.text) : isHex c = true ∨ c = ':' ∨ c = '.' := by
  cases l with
  | v4 quad => exact (Quad.mem_text h).imp isHex_of_isDigit .inr
  | v6 groups =>
      obtain colon | hex | ⟨-, dot⟩ := V6.mem_text h
      · exact .inr (.inl colon)
      · exact .inl hex
      · exact .inr (.inr dot)

end

theorem digitValue_toLower (c : Char) : Number.digitValue c.toLower = Number.digitValue c := by
  by_cases upper : 'A' ≤ c ∧ c ≤ 'Z'
  · have low : 65 ≤ c.toNat := upper.1
    have high : c.toNat ≤ 90 := upper.2
    obtain ⟨n, bound, rfl⟩ : ∃ n, n < 26 ∧ c = Char.ofNat (65 + n) :=
      ⟨c.toNat - 65, by omega, by rw [Nat.add_sub_cancel' low, Char.ofNat_toNat]⟩
    clear upper low high
    revert n
    decide
  · rw [Text.toLower_of_not_upper upper]

theorem hexValue_map_toLower (l : List Char) : hexValue (l.map Char.toLower) = hexValue l := by
  rw [hexValue, hexValue, List.foldl_map]
  simp only [digitValue_toLower]

theorem toLower_of_digit {c : Char} (h : c.isDigit = true ∨ c = '.') : c.toLower = c := by
  refine Text.toLower_of_not_upper fun upper => ?_
  have low : 65 ≤ c.toNat := upper.1
  obtain digit | rfl := h
  · have high : c.toNat ≤ 57 := (Char.isDigit_iff_toNat.mp digit).2
    omega
  · exact absurd low (by decide)

theorem Decimal.map_toLower (d : Decimal) : d.text.map Char.toLower = d.text := by
  have each : ∀ c ∈ d.text, c.toLower = c := fun c member =>
    toLower_of_digit (.inl (List.all_eq_true.mp d.digits c member))
  exact (List.map_congr_left each).trans (List.map_id _)

theorem Quad.map_toLower (q : Quad) : q.text.map Char.toLower = q.text := by
  have each : ∀ c ∈ q.text, c.toLower = c := fun c member => toLower_of_digit (mem_text member)
  exact (List.map_congr_left each).trans (List.map_id _)

def Group.lower (g : Group) : Group where
  text := g.text.map Char.toLower
  nonempty := by rw [ne_eq, List.map_eq_nil_iff]; exact g.nonempty
  short := by rw [List.length_map]; exact g.short
  hex := by
    rw [List.all_map, ← g.hex]
    refine congrArg (List.all g.text) (funext fun c => ?_)
    rw [Function.comp_apply, isHex, isHex, digitValue_toLower]

theorem Group.value_lower (g : Group) : g.lower.value = g.value := hexValue_map_toLower g.text

def V6.lower (a : V6) : V6 where
  left := a.left.map Group.lower
  right := a.right.map (List.map Group.lower)
  tail := a.tail
  size := by
    have size := a.size
    cases is : a.right with
    | none =>
        rw [is] at size
        simpa only [Option.map_none, List.length_map] using size
    | some right =>
        rw [is] at size
        simpa only [Option.map_some, List.length_map] using size

theorem V6.text_lower (a : V6) : a.lower.text = a.text.map Char.toLower := by
  have groups (l : List Group) : texts (l.map Group.lower) = (texts l).map (List.map Char.toLower) := by
    rw [texts, texts, List.map_map, List.map_map]
    rfl
  have tail : a.lower.tailTexts = a.tailTexts.map (List.map Char.toLower) := by
    unfold tailTexts lower
    rw [List.map_map]
    refine List.map_congr_left fun q _ => ?_
    exact (Quad.map_toLower q).symm
  have lowered (words : List (List Char)) :
      (colons words).map Char.toLower = colons (words.map (List.map Char.toLower)) := map_intercalate _
  unfold text
  rw [tail]
  cases is : a.right with
  | none =>
      simp only [lower, is, Option.map_none]
      rw [lowered, List.map_append, groups]
  | some right =>
      simp only [lower, is, Option.map_some]
      rw [List.map_append, List.map_append, lowered, lowered, List.map_append, groups, groups]
      rfl

theorem V6.value_lower (a : V6) : a.lower.value = a.value := by
  have groups (l : List Group) : (l.map Group.lower).map Group.value = l.map Group.value := by
    rw [List.map_map]
    exact List.map_congr_left fun g _ => g.value_lower
  have back : a.lower.back = a.back.map Group.lower := by
    unfold V6.back
    cases is : a.right <;> simp only [lower, is, Option.map, Option.getD, List.map_nil]
  unfold value V6.groups
  rw [back, groups, List.length_map]
  simp only [lower, groups, List.length_map]

def Literal.lower : Literal → Literal
  | .v4 quad => .v4 quad
  | .v6 groups => .v6 groups.lower

theorem Literal.text_lower (l : Literal) : l.lower.text = l.text.map Char.toLower := by
  cases l with
  | v4 quad => exact quad.map_toLower.symm
  | v6 groups => exact groups.text_lower

theorem Literal.address_lower (l : Literal) : l.lower.address = l.address := by
  cases l with
  | v4 quad => rfl
  | v6 groups => exact congrArg Address.v6 groups.value_lower

theorem Literal.dotted_lower (l : Literal) : l.lower.Dotted ↔ l.Dotted := by cases l <;> rfl

namespace V6

variable {a b : V6} {q r : Quad}

def front (a : V6) : List Char :=
  match a.right with
  | none => lead (texts a.left)
  | some right => colons (texts a.left) ++ "::".toList ++ lead (texts right)

theorem text_of_tail (h : a.tail = some q) : a.text = a.front ++ q.text := by
  unfold text front tailTexts
  rw [h, Option.toList_some, List.map_singleton]
  split
  · exact colons_snoc
  · rw [colons_snoc, List.append_assoc _ (lead _)]

theorem lead_last {words : List (List Char)} (h : words ≠ []) : ∃ l, lead words = l ++ [':'] := by
  obtain ⟨front, last, rfl⟩ := List.eq_nil_or_concat words |>.resolve_left h
  refine ⟨lead front ++ last, ?_⟩
  simp only [lead, List.concat_eq_append, List.flatMap_append, List.flatMap_singleton, List.append_assoc]

theorem front_last (h : a.tail = some q) : ∃ l, a.front = l ++ [':'] := by
  have size := a.size
  unfold front
  cases is : a.right with
  | none =>
      rw [is, h] at size
      refine lead_last fun none => ?_
      have empty := congrArg List.length none
      rw [texts, List.length_map, List.length_nil] at empty
      rw [empty] at size
      cases size
  | some right =>
      dsimp only
      by_cases none : texts right = []
      · refine ⟨colons (texts a.left) ++ [':'], ?_⟩
        rw [none, List.append_assoc, List.append_assoc]
        rfl
      · obtain ⟨l, is⟩ := lead_last none
        exact ⟨colons (texts a.left) ++ "::".toList ++ l, by rw [is, List.append_assoc _ l]⟩

/-- What stands behind the last colon is behind it in any reading. -/
theorem last_colon {l m q r : List Char} (hq : ':' ∉ q) (hr : ':' ∉ r)
    (same : l ++ ':' :: q = m ++ ':' :: r) : q = r := by
  have behind {l q : List Char} (h : ':' ∉ q) :
      (l ++ ':' :: q).reverse.takeWhile (· ≠ ':') = q.reverse := by
    rw [List.reverse_append, List.reverse_cons, List.append_assoc, List.takeWhile_append_of_pos]
    · rw [List.singleton_append, List.takeWhile_cons_of_neg (by simp), List.append_nil]
    · intro c member
      rw [List.mem_reverse] at member
      refine decide_eq_true ?_
      rintro rfl
      exact h member
  have reversed : q.reverse = r.reverse := by rw [← @behind l q hq, same, behind hr]
  exact List.reverse_injective reversed

theorem front_eq (ha : a.tail = some q) (hb : b.tail = some r) (same : a.text = b.text) :
    a.front = b.front ∧ q.text = r.text := by
  have plain (q : Quad) : ':' ∉ q.text := fun colon => by
    obtain digit | dot := Quad.mem_text colon
    · exact absurd digit (by decide)
    · exact absurd dot (by decide)
  obtain ⟨l, la⟩ := front_last ha
  obtain ⟨m, lb⟩ := front_last hb
  rw [text_of_tail ha, text_of_tail hb] at same
  have quads : q.text = r.text := by
    rw [la, lb, List.append_assoc, List.append_assoc] at same
    exact last_colon (plain q) (plain r) same
  rw [quads] at same
  exact ⟨List.append_cancel_right same, quads⟩

def zero : Group := ⟨['0'], by decide, by decide, by decide⟩

def padded (a : V6) (q : Quad) (h : a.tail = some q) : V6 where
  left := if a.right = none then a.left ++ [zero, zero] else a.left
  right := a.right.map (· ++ [zero, zero])
  tail := none
  size := by
    have size := a.size
    cases is : a.right with
    | none =>
        rw [is, h] at size
        rw [Option.map_none, if_pos rfl, List.length_append]
        exact size
    | some right =>
        rw [is, h] at size
        rw [Option.map_some, if_neg (Option.some_ne_none right)]
        dsimp only
        rw [List.length_append, ← Nat.add_assoc]
        exact size

theorem text_padded (h : a.tail = some q) : (a.padded q h).text = a.front ++ "0:0".toList := by
  have zeros (groups : List Group) :
      colons (texts (groups ++ [zero, zero])) = lead (texts groups) ++ "0:0".toList := by
    rw [texts, List.map_append, List.map_cons, List.map_singleton, List.append_cons, colons_snoc, lead,
      List.flatMap_append, List.append_assoc]
    rfl
  unfold text front
  cases is : a.right with
  | none =>
      simp only [padded, is, tailTexts, if_true, Option.map_none, Option.toList_none, List.map_nil,
        List.append_nil, zeros]
  | some right =>
      simp only [padded, is, tailTexts, reduceCtorEq, if_false, Option.map_some, Option.toList_none,
        List.map_nil, List.append_nil, zeros, List.append_assoc]

theorem value_padded (h : a.tail = some q) : a.value = (a.padded q h).value + q.value := by
  have last (groups : List ℕ) : join (groups ++ [q.value / 65536, q.value % 65536]) =
      join (groups ++ [0, 0]) + q.value := by
    simp only [join, List.foldl_append, List.foldl_cons, List.foldl_nil]
    omega
  have size := a.size
  have padding : (a.padded q h).groups = (a.left.map Group.value ++
      List.replicate (8 - a.left.length - a.back.length - 2) 0 ++ a.back.map Group.value) ++ [0, 0] := by
    unfold groups back
    cases is : a.right with
    | none =>
        rw [is, h] at size
        have six : a.left.length = 6 := Nat.add_right_cancel size
        simp only [padded, is, if_true, Option.map_none, Option.getD_none, List.map_append,
          List.length_append, six, List.map_nil, Option.toList_none, List.flatMap_nil, List.append_nil,
          List.append_assoc]
        rfl
    | some right =>
        simp only [padded, is, reduceCtorEq, if_false, Option.map_some, Option.getD_some, List.map_append,
          List.length_append, Option.toList_none, List.flatMap_nil, List.append_nil, List.append_assoc]
        rw [Nat.sub_add_eq]
        rfl
  rw [value, value, padding, ← last, groups, h]
  rfl

end V6

end Ip
