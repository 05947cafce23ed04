import Mathlib.Data.List.Induction

/-!
# Guarded transition systems

A system is an executable step that refuses an event by returning `none`, so the guards
a proof uses are the guards a replayed run obeys. `ReachableUnder` collects the states of
the runs all of whose steps meet a condition, `Reachable` those of every run.
-/
namespace Transition

structure System (σ ε : Type*) where
  Initial : σ → Prop
  next : σ → ε → Option σ

namespace System

variable {σ ε : Type*} (S : System σ ε)

/-- The states of the runs in which `G` holds of every state and the event taken there. -/
inductive ReachableUnder (G : σ → ε → Prop) : σ → Prop
  | initial {s : σ} : S.Initial s → ReachableUnder G s
  | step {s t : σ} {e : ε} : ReachableUnder G s → G s e → S.next s e = some t → ReachableUnder G t

abbrev Reachable : σ → Prop := S.ReachableUnder fun _ _ => True

/-- `Leads s t`: some run takes the system from `s` to `t`. -/
inductive Leads : σ → σ → Prop
  | refl (s : σ) : Leads s s
  | tail {s t u : σ} {e : ε} : Leads s t → S.next t e = some u → Leads s u

/-- Replay a list of events; `none` when one of them is refused on the way. -/
def replay : σ → List ε → Option σ
  | s, [] => some s
  | s, e :: es => (S.next s e).bind fun t => replay t es

/-- The system that refuses what `G` rules out. -/
def restrict (G : σ → ε → Prop) [∀ s e, Decidable (G s e)] : System σ ε where
  Initial := S.Initial
  next s e := if G s e then S.next s e else none

variable {S}

/-- A run under one condition is a run under another that follows from it wherever the
other has led. -/
theorem ReachableUnder.mono {G H : σ → ε → Prop}
    (weaker : ∀ s e, S.ReachableUnder H s → G s e → H s e) {s : σ}
    (h : S.ReachableUnder G s) : S.ReachableUnder H s := by
  induction h with
  | initial h => exact .initial h
  | step _ g n ih => exact .step ih (weaker _ _ ih g) n

/-- The invariant rule, for runs under a condition: the step may use that its source is
reachable, the invariant there and the condition on the event. -/
theorem ReachableUnder.invariant {G : σ → ε → Prop} {I : σ → Prop}
    (start : ∀ s, S.Initial s → I s)
    (step : ∀ s e t, S.ReachableUnder G s → I s → G s e → S.next s e = some t → I t)
    {s : σ} (h : S.ReachableUnder G s) : I s := by
  induction h with
  | initial h => exact start _ h
  | step r g n ih => exact step _ _ _ r ih g n

theorem ReachableUnder.of_restrict {G : σ → ε → Prop} [∀ s e, Decidable (G s e)] {s : σ}
    (h : (S.restrict G).Reachable s) : S.ReachableUnder G s := by
  induction h with
  | initial h => exact .initial h
  | step _ _ n ih =>
      obtain ⟨g, n⟩ := Option.ite_none_right_eq_some.mp n
      exact .step ih g n

theorem Reachable.next {s t : σ} {e : ε} (h : S.Reachable s) (n : S.next s e = some t) :
    S.Reachable t := .step h trivial n

theorem Leads.reachable {s t : σ} (l : S.Leads s t) (h : S.Reachable s) : S.Reachable t := by
  induction l with
  | refl => exact h
  | tail _ n ih => exact ih.next n

/-- A property that no step from a reachable state destroys holds at the end of every run
that starts where it holds. -/
theorem Leads.stable {P : σ → Prop}
    (step : ∀ s e t, S.Reachable s → P s → S.next s e = some t → P t)
    {s t : σ} (l : S.Leads s t) (h : S.Reachable s) (p : P s) : P t := by
  induction l with
  | refl => exact p
  | tail l n ih => exact step _ _ _ (l.reachable h) ih n

theorem replay_append (s : σ) (es fs : List ε) :
    S.replay s (es ++ fs) = (S.replay s es).bind fun t => S.replay t fs := by
  induction es generalizing s with
  | nil => rfl
  | cons e es ih =>
      simp only [List.cons_append, replay, Option.bind_assoc]
      exact congrArg _ (funext ih)

/-- The invariant rule for one run, with what is known of its events. -/
theorem replay_invariant (S : System σ ε) {I : σ → Prop} {s t : σ} {es : List ε}
    (h : S.replay s es = some t) (start : I s)
    (step : ∀ s e s', e ∈ es → I s → S.next s e = some s' → I s') : I t := by
  induction es generalizing s with
  | nil => cases h; exact start
  | cons e es ih =>
      obtain ⟨u, first, rest⟩ := Option.bind_eq_some_iff.mp h
      exact ih rest (step s e u List.mem_cons_self start first)
        fun s e' s' member => step s e' s' (List.mem_cons_of_mem _ member)

theorem leads_of_replay {s t : σ} {es : List ε} (h : S.replay s es = some t) : S.Leads s t := by
  induction es using List.reverseRecOn generalizing t with
  | nil => cases h; exact .refl s
  | append_singleton es e ih =>
      rw [replay_append] at h
      obtain ⟨u, before, last⟩ := Option.bind_eq_some_iff.mp h
      obtain ⟨v, step, rest⟩ := Option.bind_eq_some_iff.mp last
      cases rest
      exact .tail (ih before) step

theorem reachable_of_replay {s t : σ} {es : List ε} (start : S.Initial s)
    (h : S.replay s es = some t) : S.Reachable t :=
  (leads_of_replay h).reachable (.initial start)

/-- A state with a decidable property, found by replaying a run to it. -/
theorem exists_reachable {P : σ → Prop} [DecidablePred P] {s : σ} (es : List ε)
    (start : S.Initial s) (h : (S.replay s es).any (fun t => decide (P t)) = true) :
    ∃ t, S.Reachable t ∧ P t := by
  obtain ⟨t, run, holds⟩ := (Option.any_eq_true _ _).mp h
  exact ⟨t, reachable_of_replay start run, of_decide_eq_true holds⟩

end System
end Transition
