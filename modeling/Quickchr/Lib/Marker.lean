import Quickchr.Lib.Text
import Mathlib.Data.List.Infix

/-!
# A marker in a text

A marker whose first element stands nowhere else in it cannot overlap with itself. So the part of a text that
has been read holds the marker just when it has been read to the end of the first one. And no marker reaches
over a character that it does not have, so parts with such a character between them are searched one by one.
-/
namespace Marker

variable {α : Type*} {marker : List α}

/-- The first element of the marker stands nowhere else in it. -/
def Once (marker : List α) : Prop := ∃ c rest, marker = c :: rest ∧ c ∉ rest

theorem Once.apart (h : Once marker) {s t a b : List α} (whole : s ++ marker ++ t = a ++ marker ++ b)
    (before : s.length < a.length) : s.length + marker.length ≤ a.length := by
  obtain ⟨c, rest, rfl, once⟩ := h
  by_contra overlap
  have inside : a.length - s.length - 1 < rest.length := by
    rw [List.length_cons] at overlap
    omega
  have left : (s ++ c :: rest ++ t)[a.length]? = rest[a.length - s.length - 1]? := by
    rw [List.append_assoc, List.getElem?_append_right before.le, List.cons_append,
      show a.length - s.length = a.length - s.length - 1 + 1 by omega, List.getElem?_cons_succ,
      List.getElem?_append_left (by omega)]
    simp
  have right : (a ++ c :: rest ++ b)[a.length]? = some c := by
    rw [List.append_assoc, List.getElem?_append_right (Nat.le_refl _), Nat.sub_self]
    rfl
  rw [whole, right] at left
  exact once (List.mem_of_getElem? left.symm)

theorem Once.first (h : Once marker) {s t a b : List α} (whole : s ++ marker ++ t = a ++ marker ++ b)
    (none : ¬ marker <:+: a) : a.length ≤ s.length := by
  by_contra before
  have apart := h.apart whole (by omega)
  have front : s ++ marker <+: a := by
    refine @List.prefix_of_prefix_length_le _ _ _ (a ++ marker ++ b) ⟨t, whole⟩ ⟨marker ++ b, by simp⟩ ?_
    rw [List.length_append]
    exact apart
  exact none ((List.suffix_append s marker).isInfix.trans front.isInfix)

/-- What has been read holds the marker just when the first one has been read whole. -/
theorem Once.read_iff (h : Once marker) {text a b : List α} (front : text <+: a ++ marker ++ b)
    (none : ¬ marker <:+: a) : marker <:+: text ↔ a ++ marker <+: text := by
  constructor
  · rintro ⟨s, t, rfl⟩
    obtain ⟨more, whole⟩ := front
    have later := h.first ((List.append_assoc _ _ _).symm.trans whole) none
    refine @List.prefix_of_prefix_length_le _ _ _ (a ++ marker ++ b) ⟨b, rfl⟩ ⟨more, whole⟩ ?_
    simp only [List.length_append]
    omega
  · exact fun reached => (List.suffix_append a marker).isInfix.trans reached.isInfix

section Separated

variable {marker front back : List Char} {c : Char} {i : ℕ}

theorem prefix_of_prefix_append (separate : c ∉ marker) (h : marker <+: front ++ c :: back) : marker <+: front := by
  have short : marker.length ≤ front.length := by
    by_contra long
    obtain ⟨rest, whole⟩ := h
    have here : (marker ++ rest)[front.length]? = some c := by
      rw [whole, List.getElem?_append_right (Nat.le_refl _), Nat.sub_self]
      rfl
    rw [List.getElem?_append_left (by omega)] at here
    exact separate (List.mem_of_getElem? here)
  exact List.prefix_of_prefix_length_le h (List.prefix_append front (c :: back)) short

theorem indexOf_append_cons (separate : c ∉ marker) (some : marker ≠ []) (none : ¬ marker <:+: front) :
    Text.indexOf marker (front ++ c :: back) = (Text.indexOf marker back).map (· + (front.length + 1)) := by
  induction front with
  | nil =>
      have other : ¬ marker.isPrefixOf (c :: back) = true := by
        rw [List.isPrefixOf_iff_prefix]
        exact fun starts => some (List.prefix_nil.mp (@prefix_of_prefix_append marker [] back c separate starts))
      rw [List.nil_append, Text.indexOf, if_neg other]
      rfl
  | cons d front ih =>
      have other : ¬ marker.isPrefixOf (d :: (front ++ c :: back)) = true := by
        rw [List.isPrefixOf_iff_prefix]
        exact fun starts => none (@prefix_of_prefix_append marker (d :: front) back c separate starts).isInfix
      rw [List.cons_append, Text.indexOf, if_neg other, ih fun inside => none (List.infix_cons inside), Option.map_map]
      rfl

theorem indexOf_append_of_some (h : Text.indexOf marker front = some i) :
    Text.indexOf marker (front ++ back) = some i := by
  induction front generalizing i with
  | nil =>
      unfold Text.indexOf at h
      split at h
      · rename_i empty
        rw [List.isEmpty_iff.mp empty, ← h]
        cases back <;> rfl
      · cases h
  | cons d front ih =>
      unfold Text.indexOf at h
      split at h
      · rename_i starts
        have starts' : marker.isPrefixOf (d :: (front ++ back)) = true := by
          rw [List.isPrefixOf_iff_prefix] at starts ⊢
          exact starts.trans (List.prefix_append (d :: front) back)
        rw [List.cons_append, Text.indexOf, if_pos starts', h]
      · rename_i other
        obtain ⟨j, later, is⟩ := Option.map_eq_some_iff.mp h
        have fits : marker.length ≤ (d :: front).length :=
          (Text.infix_of_indexOf later).length_le.trans (Nat.le_succ _)
        have other' : ¬ marker.isPrefixOf (d :: (front ++ back)) = true := by
          rw [List.isPrefixOf_iff_prefix] at other ⊢
          exact fun starts => other (List.prefix_of_prefix_length_le starts (List.prefix_append (d :: front) back) fits)
        rw [List.cons_append, Text.indexOf, if_neg other', ih later, ← is]
        rfl

theorem prefix_of_indexOf (h : Text.indexOf marker front = some i) : marker <+: front.drop i := by
  induction front generalizing i with
  | nil =>
      unfold Text.indexOf at h
      split at h
      · rename_i empty
        rw [List.isEmpty_iff.mp empty]
        exact List.nil_prefix
      · cases h
  | cons d front ih =>
      unfold Text.indexOf at h
      split at h
      · rename_i starts
        cases h
        exact List.isPrefixOf_iff_prefix.mp starts
      · obtain ⟨j, later, rfl⟩ := Option.map_eq_some_iff.mp h
        exact ih later

theorem indexOf_self_append (some : marker ≠ []) : Text.indexOf marker (marker ++ back) = Option.some 0 := by
  obtain ⟨d, rest, rfl⟩ := List.exists_cons_of_ne_nil some
  have starts : (d :: rest).isPrefixOf (d :: (rest ++ back)) = true :=
    List.isPrefixOf_iff_prefix.mpr (List.prefix_append (d :: rest) back)
  rw [List.cons_append, Text.indexOf, if_pos starts]

end Separated

end Marker
