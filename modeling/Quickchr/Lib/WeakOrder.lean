import Mathlib.Data.List.Perm.Basic
import Mathlib.Data.List.Sort
import Mathlib.Order.Antisymmetrization

/-!
# Sorting by a strict weak order

A comparison that ranks some elements equal leaves their order open, and no other.
-/

namespace WeakOrder

variable {α : Type*} (less : α → α → Prop)

def Alike (a b : α) : Prop := ¬ less a b ∧ ¬ less b a

theorem of_key {κ : Type*} [LinearOrder κ] (key : α → κ) (h : ∀ a b, less a b ↔ key a < key b) :
    IsStrictWeakOrder α less := by
  obtain rfl : less = Order.Preimage key (· < ·) := by
    funext a b
    exact propext (h a b)
  have connected : IsStrictWeakOrder κ (· < ·) := isStrictWeakOrder_of_isOrderConnected
  exact Order.Preimage.instIsStrictWeakOrder

section StrictWeak

variable [IsStrictWeakOrder α less]

variable {less} in
theorem not_less_trans {a b c : α} (first : ¬ less b a) (second : ¬ less c b) : ¬ less c a := by
  intro back
  by_cases up : less a b
  · exact second (Trans.trans back up)
  · by_cases up' : less b c
    · exact first (Trans.trans up' back)
    · exact (IsStrictWeakOrder.incomp_trans a b c ⟨up, first⟩ ⟨up', second⟩).2 back

abbrev preorder : Preorder α where
  le a b := ¬ less b a
  le_refl a := irrefl a
  le_trans _ _ _ := not_less_trans

variable {less} in
/-- Two sorted lists of the same elements are alike place by place. -/
theorem forall₂_alike {l l' : List α} (perm : l.Perm l') (sorted : l.Pairwise fun a b => ¬ less b a)
    (sorted' : l'.Pairwise fun a b => ¬ less b a) : List.Forall₂ (Alike less) l l' := by
  -- Up to likeness the order is antisymmetric.
  let _ := preorder less
  let ranked : α → Antisymmetrization α (· ≤ ·) := toAntisymmetrization _
  have ranks {l : List α} (sorted : l.Pairwise (· ≤ ·)) : (l.map ranked).Pairwise (· ≤ ·) :=
    List.pairwise_map.mpr (sorted.imp toAntisymmetrization_le_toAntisymmetrization_iff.mpr)
  have same := (perm.map ranked).eq_of_pairwise' (ranks sorted) (ranks sorted')
  rw [← List.forall₂_eq_eq_eq, List.forall₂_map_left_iff, List.forall₂_map_right_iff] at same
  refine same.imp fun a b rank => ?_
  obtain ⟨below, above⟩ := Quotient.exact rank
  exact ⟨above, below⟩

variable {less} in
theorem pairwise_insertionSort [DecidableRel less] (l : List α) :
    (l.insertionSort fun a b => ¬ less b a).Pairwise fun a b => ¬ less b a := by
  have trans : IsTrans α fun a b => ¬ less b a := ⟨fun _ _ _ => not_less_trans⟩
  have total : Std.Total fun a b => ¬ less b a := ⟨fun a b => by
    by_contra neither
    obtain ⟨down, up⟩ := not_or.mp neither
    exact irrefl a (Trans.trans (not_not.mp up) (not_not.mp down))⟩
  exact List.pairwise_insertionSort _ l

variable {less} in
/-- What is sorted comes out the same from every order, but for elements ranked equal. -/
theorem sort_alike [DecidableRel less] {l l' : List α} (perm : l.Perm l') :
    List.Forall₂ (Alike less) (l.insertionSort fun a b => ¬ less b a) (l'.insertionSort fun a b => ¬ less b a) :=
  forall₂_alike (((List.perm_insertionSort _ l).trans perm).trans (List.perm_insertionSort _ l').symm)
    (pairwise_insertionSort l) (pairwise_insertionSort l')

end StrictWeak

variable {less} [DecidableRel less]

theorem sort_alike_of_mem {s : Set α} (weak : IsStrictWeakOrder s fun a b => less a b) {l l' : List α}
    (inside : ∀ a ∈ l, a ∈ s) (perm : l.Perm l') :
    List.Forall₂ (Alike less) (l.insertionSort fun a b => ¬ less b a) (l'.insertionSort fun a b => ¬ less b a) := by
  obtain ⟨k, rfl⟩ : ∃ k : List s, k.map Subtype.val = l :=
    ⟨l.attachWith (· ∈ s) inside, List.attachWith_map_subtype_val inside⟩
  obtain ⟨k', rfl⟩ : ∃ k' : List s, k'.map Subtype.val = l' :=
    ⟨l'.attachWith (· ∈ s) fun a member => inside a (perm.mem_iff.mpr member),
      List.attachWith_map_subtype_val _⟩
  have sorts (k : List s) : (k.map Subtype.val).insertionSort (fun a b => ¬ less b a) =
      (k.insertionSort fun a b : s => ¬ less b a).map Subtype.val :=
    (List.map_insertionSort _ _ Subtype.val k fun _ _ _ _ => Iff.rfl).symm
  rw [sorts, sorts, List.forall₂_map_left_iff, List.forall₂_map_right_iff]
  have kept : k.Perm k' := (List.map_perm_map_iff Subtype.val_injective).mp perm
  exact @sort_alike s (fun a b => less a b) _ _ k k' kept

end WeakOrder
