import Mathlib.Algebra.Order.Group.Nat
import Mathlib.Data.List.Basic
import Mathlib.Data.Nat.Basic

/-!
# Edit distance

A text is edited by inserting, deleting and replacing symbols anywhere. The distance of two texts is the number of
edits that it takes at least, which a recursion over the heads of the texts computes.
-/
namespace Quickchr.EditDistance

variable {α : Type*}

inductive Edit : List α → List α → Prop
  | insert (front : List α) (x : α) (back : List α) : Edit (front ++ back) (front ++ x :: back)
  | delete (front : List α) (x : α) (back : List α) : Edit (front ++ x :: back) (front ++ back)
  | replace (front : List α) (x y : α) (back : List α) : Edit (front ++ x :: back) (front ++ y :: back)

inductive Edits : ℕ → List α → List α → Prop
  | refl (a : List α) : Edits 0 a a
  | step {n : ℕ} {a b c : List α} : Edit a b → Edits n b c → Edits (n + 1) a c

/-- So many edits are needed, and are enough. -/
structure Least (n : ℕ) (a b : List α) : Prop where
  enough : Edits n a b
  needed : ∀ m, Edits m a b → n ≤ m

theorem Least.eq {n m : ℕ} {a b : List α} (h : Least n a b) (h' : Least m a b) : n = m :=
  Nat.le_antisymm (h.needed m h'.enough) (h'.needed n h.enough)

section Edits

variable {a b c : List α} {n m : ℕ}

theorem Edits.trans (h : Edits n a b) (h' : Edits m b c) : Edits (n + m) a c := by
  induction h with
  | refl a =>
      rw [Nat.zero_add]
      exact h'
  | @step n a b c first rest ih =>
      rw [Nat.add_right_comm]
      exact .step first (ih h')

theorem Edit.once (h : Edit a b) : Edits 1 a b := .step h (.refl b)

theorem Edit.append (h : Edit a b) (front back : List α) : Edit (front ++ a ++ back) (front ++ b ++ back) := by
  cases h with
  | insert l x r => simpa only [List.append_assoc, List.cons_append] using Edit.insert (front ++ l) x (r ++ back)
  | delete l x r => simpa only [List.append_assoc, List.cons_append] using Edit.delete (front ++ l) x (r ++ back)
  | replace l x y r => simpa only [List.append_assoc, List.cons_append] using Edit.replace (front ++ l) x y (r ++ back)

theorem Edits.append (h : Edits n a b) (front back : List α) : Edits n (front ++ a ++ back) (front ++ b ++ back) := by
  induction h with
  | refl a => exact .refl _
  | step first _ ih => exact .step (first.append front back) ih

theorem Edits.cons (h : Edits n a b) (x : α) : Edits n (x :: a) (x :: b) := by
  simpa only [List.append_nil, List.singleton_append] using h.append [x] []

theorem Edit.reverse (h : Edit a b) : Edit a.reverse b.reverse := by
  cases h with
  | insert l x r => simpa using Edit.insert r.reverse x l.reverse
  | delete l x r => simpa using Edit.delete r.reverse x l.reverse
  | replace l x y r => simpa using Edit.replace r.reverse x y l.reverse

theorem Edits.reverse (h : Edits n a b) : Edits n a.reverse b.reverse := by
  induction h with
  | refl a => exact .refl _
  | step first _ ih => exact .step first.reverse ih

theorem Least.reverse (h : Least n a b) : Least n a.reverse b.reverse := by
  refine ⟨h.enough.reverse, fun m edits => h.needed m ?_⟩
  simpa only [List.reverse_reverse] using edits.reverse

end Edits

variable [DecidableEq α]

def distance : List α → List α → ℕ
  | [], b => b.length
  | x :: a, [] => a.length + 1
  | x :: a, y :: b =>
      min (min (distance a (y :: b) + 1) (distance (x :: a) b + 1)) (distance a b + if x = y then 0 else 1)
termination_by a b => a.length + b.length

theorem distance_nil_left (b : List α) : distance [] b = b.length := by rw [distance]

theorem distance_nil_right (a : List α) : distance a [] = a.length := by
  cases a <;> simp [distance]

theorem distance_cons_cons (x y : α) (a b : List α) : distance (x :: a) (y :: b) =
    min (min (distance a (y :: b) + 1) (distance (x :: a) b + 1)) (distance a b + if x = y then 0 else 1) := by
  rw [distance]

theorem distance_self (a : List α) : distance a a = 0 := by
  induction a with
  | nil => exact distance_nil_left []
  | cons x a ih =>
      rw [distance_cons_cons, ih, if_pos rfl]
      exact Nat.min_zero _

theorem distance_cons_left (x : α) (a b : List α) : distance (x :: a) b ≤ distance a b + 1 := by
  cases b with
  | nil =>
      rw [distance_nil_right, distance_nil_right]
      exact Nat.le_refl _
  | cons y b =>
      rw [distance_cons_cons]
      exact (Nat.min_le_left _ _).trans (Nat.min_le_left _ _)

theorem distance_cons_right (a : List α) (y : α) (b : List α) : distance a (y :: b) ≤ distance a b + 1 := by
  cases a with
  | nil =>
      rw [distance_nil_left, distance_nil_left]
      exact Nat.le_refl _
  | cons x a =>
      rw [distance_cons_cons]
      exact (Nat.min_le_left _ _).trans (Nat.min_le_right _ _)

/-- Whatever is behind a symbol costs as much as it does without the symbol. -/
theorem distance_cons_mono {b b' : List α} {k : ℕ} (h : ∀ a, distance a b' ≤ distance a b + k) (y : α) (a : List α) :
    distance a (y :: b') ≤ distance a (y :: b) + k := by
  induction a with
  | nil =>
      have same := h []
      simp only [distance_nil_left, List.length_cons] at same ⊢
      omega
  | cons x a ih =>
      have behind := h (x :: a)
      have both := h a
      rw [distance_cons_cons, distance_cons_cons]
      omega

theorem distance_append_mono {b b' : List α} {k : ℕ} (h : ∀ a, distance a b' ≤ distance a b + k) (front a : List α) :
    distance a (front ++ b') ≤ distance a (front ++ b) + k := by
  induction front generalizing a with
  | nil => exact h a
  | cons y front ih => exact distance_cons_mono ih y a

theorem distance_delete (x : α) (b a : List α) : distance a b ≤ distance a (x :: b) + 1 := by
  induction a with
  | nil =>
      simp only [distance_nil_left, List.length_cons]
      omega
  | cons z a ih =>
      have more := distance_cons_left z a b
      rw [distance_cons_cons]
      omega

theorem distance_replace (x y : α) (b a : List α) : distance a (y :: b) ≤ distance a (x :: b) + 1 := by
  induction a with
  | nil =>
      simp only [distance_nil_left, List.length_cons]
      omega
  | cons z a ih =>
      rw [distance_cons_cons, distance_cons_cons]
      split <;> split <;> omega

theorem Edit.distance_le {b b' : List α} (h : Edit b b') (a : List α) : distance a b' ≤ distance a b + 1 := by
  cases h with
  | insert front x back => exact distance_append_mono (fun a => distance_cons_right a x back) front a
  | delete front x back => exact distance_append_mono (distance_delete x back) front a
  | replace front x y back => exact distance_append_mono (distance_replace x y back) front a

theorem Edits.distance_le {n : ℕ} {b b' : List α} (h : Edits n b b') (a : List α) :
    distance a b' ≤ distance a b + n := by
  induction h with
  | refl b => exact Nat.le_refl _
  | @step n b c d first _ ih =>
      have once := first.distance_le a
      omega

theorem edits_distance (a b : List α) : Edits (distance a b) a b := by
  induction a, b using distance.induct with
  | case1 b =>
      rw [distance_nil_left]
      induction b with
      | nil => exact .refl []
      | cons y b ih => exact Edits.trans ih (Edit.insert [] y b).once
  | case2 x a =>
      rw [distance_nil_right]
      generalize x :: a = a
      induction a with
      | nil => exact .refl []
      | cons x a ih => exact .step (.delete [] x a) ih
  | case3 x a y b left right both =>
      have deleted : Edits (distance a (y :: b) + 1) (x :: a) (y :: b) := .step (.delete [] x a) left
      have inserted : Edits (distance (x :: a) b + 1) (x :: a) (y :: b) := right.trans (Edit.insert [] y b).once
      have replaced : Edits (distance a b + if x = y then 0 else 1) (x :: a) (y :: b) := by
        split
        · rename_i same
          rw [same]
          exact both.cons y
        · exact (both.cons x).trans (Edit.replace [] x y b).once
      rw [distance_cons_cons]
      obtain is | is := min_choice (min (distance a (y :: b) + 1) (distance (x :: a) b + 1))
          (distance a b + if x = y then 0 else 1)
      · rw [is]
        obtain is | is := min_choice (distance a (y :: b) + 1) (distance (x :: a) b + 1)
        · rw [is]
          exact deleted
        · rw [is]
          exact inserted
      · rw [is]
        exact replaced

theorem least_distance (a b : List α) : Least (distance a b) a b := by
  refine ⟨edits_distance a b, fun m edits => ?_⟩
  have bound := edits.distance_le a
  rwa [distance_self, Nat.zero_add] at bound

/-- The distance does not depend on the end that the texts are read from. -/
theorem distance_reverse (a b : List α) : distance a.reverse b.reverse = distance a b :=
  (least_distance a.reverse b.reverse).eq (least_distance a b).reverse

theorem distance_concat (a b : List α) (x y : α) : distance (a ++ [x]) (b ++ [y]) =
    min (min (distance a (b ++ [y]) + 1) (distance (a ++ [x]) b + 1)) (distance a b + if x = y then 0 else 1) := by
  have step := distance_cons_cons x y a.reverse b.reverse
  have ends (a : List α) (x : α) : x :: a.reverse = (a ++ [x]).reverse := by simp
  rw [ends, ends] at step
  simpa only [distance_reverse] using step

end Quickchr.EditDistance
