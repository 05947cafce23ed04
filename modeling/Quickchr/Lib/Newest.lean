import Mathlib.Data.List.Sort

/-!
# Keeping the newest

Of a list so many of the last ones in an order are kept. Whoever adds one at a time and keeps so many each time keeps
none that is older than one that went.
-/
namespace Newest

variable {α : Type*}

section Split

variable (le : α → α → Bool) (keep : ℕ)

def ranked (l : List α) : List α := (l.mergeSort le).reverse

def kept (l : List α) : List α := (ranked le l).take keep

def stale (l : List α) : List α := (ranked le l).drop keep

variable {le keep} {l : List α}

theorem kept_append_stale_perm : (kept le keep l ++ stale le keep l).Perm l := by
  rw [kept, stale, List.take_append_drop]
  exact (List.reverse_perm _).trans (List.mergeSort_perm l le)

theorem length_kept : (kept le keep l).length = min keep l.length := by
  rw [kept, List.length_take, ranked, List.length_reverse, List.length_mergeSort]

structure Total (le : α → α → Bool) : Prop where
  trans : ∀ a b c, le a b = true → le b c = true → le a c = true
  total : ∀ a b, (le a b || le b a) = true

theorem Total.refl (order : Total le) (a : α) : le a a = true := by
  have both := order.total a a
  rwa [Bool.or_self] at both

theorem stale_le_kept (order : Total le) {a b : α} (old : a ∈ stale le keep l) (new : b ∈ kept le keep l) :
    le a b = true := by
  have sorted := List.pairwise_reverse.mpr
    ((List.pairwise_mergeSort order.trans order.total l).imp fun h => h)
  rw [← ranked, ← List.take_append_drop keep (ranked le l), List.pairwise_append] at sorted
  exact sorted.2.2 b new a old

end Split

variable {le : α → α → Bool} {keep : ℕ} {l : List α}

theorem length_kept_of_stale {a : α} (old : a ∈ stale le keep l) : (kept le keep l).length = keep := by
  have lengths := (@kept_append_stale_perm α le keep l).length_eq
  have some_ := List.length_pos_of_mem old
  rw [List.length_append] at lengths
  rw [length_kept] at lengths ⊢
  omega

/-- What was there at some time is still there, or so many that are no older are. -/
def Covers (le : α → α → Bool) (keep : ℕ) (there all : List α) : Prop :=
  ∀ a ∈ all, a ∈ there ∨ keep ≤ there.countP (le a)

variable {there there' all : List α}

theorem Covers.perm (h : Covers le keep there all) (same : there'.Perm there) : Covers le keep there' all := by
  intro a member
  rw [same.mem_iff, same.countP_eq]
  exact h a member

theorem Covers.add (h : Covers le keep there all) (x : α) : Covers le keep (x :: there) (x :: all) := by
  intro a member
  rcases List.mem_cons.mp member with rfl | before
  · exact .inl List.mem_cons_self
  · refine (h a before).imp (List.mem_cons_of_mem x) fun many => many.trans ?_
    exact (List.sublist_cons_self x there).countP_le

theorem Covers.prune (h : Covers le keep there all) (order : Total le) (nodup : there.Nodup)
    (newest : (kept le keep there).Subperm there') (others : ∀ b ∈ there, b ∈ there' ∨ b ∈ stale le keep there) :
    Covers le keep there' all := by
  have outdone {a b : α} (old : b ∈ stale le keep there) (newer : le a b = true) : keep ≤ there'.countP (le a) := by
    have every : ∀ c ∈ kept le keep there, le a c = true := fun c new =>
      order.trans a b c newer (stale_le_kept order old new)
    calc keep = (kept le keep there).countP (le a) := by rw [List.countP_eq_length.mpr every, length_kept_of_stale old]
      _ ≤ there'.countP (le a) := newest.countP_le _
  intro a member
  rcases h a member with still | many
  · exact (others a still).imp_right fun old => outdone old (order.refl a)
  · by_cases gone : ∃ b ∈ stale le keep there, le a b = true
    · obtain ⟨b, old, newer⟩ := gone
      exact .inr (outdone old newer)
    · refine .inr (many.trans ?_)
      rw [List.countP_eq_length_filter, List.countP_eq_length_filter]
      refine (List.subperm_of_subset (nodup.filter _) fun b inside => ?_).length_le
      obtain ⟨here, newer⟩ := List.mem_filter.mp inside
      exact List.mem_filter.mpr ⟨(others b here).resolve_right fun old => gone ⟨b, old, newer⟩, newer⟩

end Newest
