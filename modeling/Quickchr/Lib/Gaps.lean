import Mathlib.Algebra.Order.Group.Abs
import Mathlib.Data.List.Induction
import Mathlib.Order.Bounds.Basic
import Mathlib.Order.CompletePartialOrder
import Mathlib.Order.Interval.Set.Disjoint

/-!
# The first gap

Points stand on a line, each with a width to its right. One ascending pass over the points finds the
first place, from a start on, that is a width away from all of them.
-/

namespace Gaps

variable {α : Type*} [AddCommGroup α] [LinearOrder α] [IsOrderedAddMonoid α] (width : α)

def past (place point : α) : α := if |place - point| < width then point + width else place

/-- The places from `start` on that keep their distance. -/
def Free (start : α) (points : List α) : Set α := {b | start ≤ b ∧ ∀ u ∈ points, width ≤ |b - u|}

theorem disjoint_iff {width : α} (positive : 0 < width) (a b : α) :
    Disjoint (Set.Ico a (a + width)) (Set.Ico b (b + width)) ↔ width ≤ |a - b| := by
  rw [Set.Ico_disjoint_Ico, le_abs, neg_sub, le_sub_iff_add_le, le_sub_iff_add_le, add_comm width, add_comm width]
  rcases le_total a b with below | above
  · rw [min_eq_left (add_le_add_left below width), max_eq_right below]
    refine ⟨.inr, ?_⟩
    rintro (over_ | under)
    · exact absurd (le_trans over_ below) (not_le.mpr (lt_add_of_pos_right b positive))
    · exact under
  · rw [min_eq_right (add_le_add_left above width), max_eq_left above]
    refine ⟨.inl, ?_⟩
    rintro (over_ | under)
    · exact over_
    · exact absurd (le_trans under above) (not_le.mpr (lt_add_of_pos_right a positive))

variable {width}

theorem past_isLeast {start place point : α} {points : List α} (h : IsLeast (Free width start points) place)
    (below : ∀ u ∈ points, u ≤ point) :
    IsLeast (Free width start (points ++ [point])) (past width place point) := by
  obtain ⟨⟨reached, clear⟩, least⟩ := h
  have drop {b : α} (free : b ∈ Free width start (points ++ [point])) :
      b ∈ Free width start points ∧ width ≤ |b - point| :=
    ⟨⟨free.1, fun u member => free.2 u (List.mem_append_left _ member)⟩,
      free.2 point (List.mem_append_right _ List.mem_cons_self)⟩
  by_cases close : |place - point| < width
  · obtain ⟨left, right⟩ := abs_lt.mp close
    rw [past, if_pos close]
    have beyond : place < point + width := by rwa [sub_lt_iff_lt_add'] at right
    refine ⟨⟨le_trans reached (le_of_lt beyond), fun u member => ?_⟩, fun b free => ?_⟩
    · have under : u ≤ point := by
        rcases List.mem_append.mp member with old | new
        · exact below u old
        · exact le_of_eq (List.mem_singleton.mp new)
      refine le_trans ?_ (le_abs_self _)
      rw [le_sub_iff_add_le, add_comm width]
      exact add_le_add_left under width
    · -- what is before the point and far from it is before the place
      obtain ⟨before, far⟩ := drop free
      rcases le_abs'.mp far with under | over_
      · have back : b < place := (sub_lt_sub_iff_right point).mp (lt_of_le_of_lt under left)
        exact absurd (least before) (not_le.mpr back)
      · rwa [le_sub_iff_add_le, add_comm width] at over_
  · rw [past, if_neg close]
    refine ⟨⟨reached, fun u member => ?_⟩, fun b free => least (drop free).1⟩
    rcases List.mem_append.mp member with old | new
    · exact clear u old
    · rw [List.mem_singleton.mp new]
      exact not_lt.mp close

/-- One pass over the points in ascending order finds the first free place. -/
theorem foldl_past_isLeast {points : List α} (ascending : points.Pairwise (· ≤ ·)) (start : α) :
    IsLeast (Free width start points) (points.foldl (past width) start) := by
  induction points using List.reverseRecOn with
  | nil => exact ⟨⟨le_refl start, nofun⟩, fun b free => free.1⟩
  | append_singleton points point ih =>
    obtain ⟨before, -, under⟩ := List.pairwise_append.mp ascending
    rw [List.foldl_append]
    exact past_isLeast (ih before) fun u member => under u member point List.mem_cons_self

end Gaps
