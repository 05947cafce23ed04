import Mathlib.Data.List.Basic

/-!
# Draining a queue

Taking from the front of a queue for as long as what was taken falls short of a goal. The goal
looks at the whole of what was taken, so it may count, weigh or skip items as it likes.
-/
namespace Drain

variable {α : Type*}

/-- What is taken from the queue, and what is left of it. -/
def drain : (short : List α → Bool) → List α → List α × List α
  | _, [] => ([], [])
  | short, x :: rest =>
      if short [] then
        let rest := drain (fun ahead => short (x :: ahead)) rest
        (x :: rest.1, rest.2)
      else ([], x :: rest)

/-- The queue was taken in its order, each item only while those ahead of it fell short, and no
further than they stopped to. -/
structure Drained (short : List α → Bool) (queue taken left : List α) : Prop where
  queue : taken ++ left = queue
  needed : ∀ ahead x behind, taken = ahead ++ x :: behind → short ahead = true
  enough : left = [] ∨ short taken = false

theorem drained (short : List α → Bool) (queue : List α) :
    Drained short queue (drain short queue).1 (drain short queue).2 := by
  induction queue generalizing short with
  | nil => exact ⟨rfl, fun ahead x behind eq => (by cases ahead <;> cases eq), .inl rfl⟩
  | cons x rest ih =>
      unfold drain
      split
      · rename_i more
        obtain ⟨queue, needed, enough⟩ := ih fun ahead => short (x :: ahead)
        refine ⟨congrArg (x :: ·) queue, fun ahead y behind eq => ?_, enough⟩
        cases ahead with
        | nil => exact more
        | cons z ahead =>
            obtain ⟨rfl, later⟩ := List.cons.inj eq
            exact needed ahead y behind later
      · rename_i stop
        exact ⟨rfl, fun ahead y behind eq => (by cases ahead <;> cases eq),
          .inr (Bool.eq_false_iff.mpr stop)⟩

theorem drain_append (short : List α → Bool) (queue : List α) :
    (drain short queue).1 ++ (drain short queue).2 = queue :=
  (drained short queue).queue

theorem drain_enough (queue : List α) : drain (fun _ => false) queue = ([], queue) := by
  cases queue <;> rfl

/-- Only what the goal says of the items that were taken matters. -/
theorem drain_congr {short short' : List α → Bool} {queue : List α}
    (h : ∀ ahead, ahead <+: (drain short queue).1 → short ahead = short' ahead) :
    drain short queue = drain short' queue := by
  induction queue generalizing short short' with
  | nil => rfl
  | cons x rest ih =>
      have first := h [] List.nil_prefix
      unfold drain at h ⊢
      rw [← first]
      split
      · rename_i more
        rw [if_pos more] at h
        rw [ih fun ahead before => h (x :: ahead) (List.cons_prefix_cons.mpr ⟨rfl, before⟩)]
      · rfl

end Drain
