import Mathlib.Data.List.Basic
import Mathlib.Data.List.Nodup

/-!
# A row of slots

A row has a fixed number of slots, each free or taken by one occupant. A claim takes the first
free slot, unless the occupant has one already; a release frees what the occupant holds.
-/
namespace Slots

variable {α : Type*}

def Distinct (slots : List (Option α)) : Prop :=
  ∀ (i j : ℕ) (a : α), slots[i]? = some (some a) → slots[j]? = some (some a) → i = j

theorem distinct_replicate (n : ℕ) : Distinct (List.replicate n (none : Option α)) := by
  intro i j a is
  rw [List.getElem?_replicate] at is
  split at is <;> cases is

variable [DecidableEq α]

/-- `none` when every slot is taken. -/
def claim (slots : List (Option α)) (a : α) : Option (List (Option α)) :=
  if some a ∈ slots then some slots
  else (slots.idxOf? none).map fun free => slots.set free (some a)

def release (slots : List (Option α)) (a : α) : List (Option α) :=
  slots.map fun slot => if slot = some a then none else slot

variable {slots slots' : List (Option α)} {a b : α} {i : ℕ}

theorem claim_eq_none : claim slots a = none ↔ some a ∉ slots ∧ none ∉ slots := by
  unfold claim
  split
  · rename_i held; simp only [held, not_true, false_and, reduceCtorEq]
  · rename_i held
    simp only [held, Option.map_eq_none_iff, List.idxOf?_eq_none_iff, not_false_eq_true, true_and]

theorem claim_cases (h : claim slots a = some slots') :
    (some a ∈ slots ∧ slots' = slots) ∨
      ∃ free, free < slots.length ∧ slots[free]? = some none ∧ some a ∉ slots ∧
        slots' = slots.set free (some a) := by
  unfold claim at h
  split at h
  · rename_i held; exact .inl ⟨held, (Option.some.inj h).symm⟩
  · rename_i held
    obtain ⟨free, found, rfl⟩ := Option.map_eq_some_iff.mp h
    obtain ⟨bound, is, -⟩ := List.idxOf?_eq_some_iff.mp found
    exact .inr ⟨free, bound, List.getElem?_eq_some_iff.mpr ⟨bound, is⟩, held, rfl⟩

theorem claim_length (h : claim slots a = some slots') : slots'.length = slots.length := by
  rcases claim_cases h with ⟨-, rfl⟩ | ⟨free, -, -, -, rfl⟩
  · rfl
  · exact List.length_set

theorem release_length : (release slots a).length = slots.length := List.length_map _

/-- What a slot holds after a claim: the claimant, or what it held before. -/
theorem claim_getElem (h : claim slots a = some slots') (is : slots'[i]? = some (some b)) :
    slots[i]? = some (some b) ∨ b = a ∧ slots[i]? = some none ∧ some a ∉ slots := by
  rcases claim_cases h with ⟨-, rfl⟩ | ⟨free, bound, empty, held, rfl⟩
  · exact .inl is
  · by_cases at_ : free = i
    · subst at_
      rw [List.getElem?_set_self bound] at is
      exact .inr ⟨(Option.some.inj (Option.some.inj is)).symm, empty, held⟩
    · rw [List.getElem?_set_ne at_] at is
      exact .inl is

theorem claim_keeps (h : claim slots a = some slots') (is : slots[i]? = some (some b)) :
    slots'[i]? = some (some b) := by
  rcases claim_cases h with ⟨-, rfl⟩ | ⟨free, -, empty, -, rfl⟩
  · exact is
  · rw [List.getElem?_set_ne, is]
    rintro rfl
    cases empty.symm.trans is

theorem claim_takes (h : claim slots a = some slots') : some a ∈ slots' := by
  rcases claim_cases h with ⟨held, rfl⟩ | ⟨free, bound, -, -, rfl⟩
  · exact held
  · exact List.mem_of_getElem? (List.getElem?_set_self bound)

theorem mem_claim (h : claim slots a = some slots') : some b ∈ slots' ↔ b = a ∨ some b ∈ slots := by
  constructor
  · intro held
    obtain ⟨i, is⟩ := List.mem_iff_getElem?.mp held
    rcases claim_getElem h is with is | ⟨rfl, -⟩
    · exact .inr (List.mem_of_getElem? is)
    · exact .inl rfl
  · rintro (rfl | held)
    · exact claim_takes h
    · obtain ⟨i, is⟩ := List.mem_iff_getElem?.mp held
      exact List.mem_of_getElem? (claim_keeps h is)

theorem release_getElem :
    (release slots a)[i]? = some (some b) ↔ slots[i]? = some (some b) ∧ b ≠ a := by
  rw [release, List.getElem?_map, Option.map_eq_some_iff]
  constructor
  · rintro ⟨slot, is, kept⟩
    split at kept
    · cases kept
    · rename_i other
      subst kept
      exact ⟨is, fun same => other (congrArg some same)⟩
  · rintro ⟨is, other⟩
    exact ⟨some b, is, if_neg fun same => other (Option.some.inj same)⟩

theorem mem_release : some b ∈ release slots a ↔ some b ∈ slots ∧ b ≠ a := by
  simp only [List.mem_iff_getElem?, release_getElem, exists_and_right]

theorem Distinct.claim (distinct : Distinct slots) (h : claim slots a = some slots') :
    Distinct slots' := by
  intro i j b ati atj
  rcases claim_cases h with ⟨-, rfl⟩ | ⟨free, bound, -, absent, rfl⟩
  · exact distinct i j b ati atj
  have taken : ∀ k : ℕ, (slots.set free (some a))[k]? = some (some b) →
      free = k ∧ b = a ∨ free ≠ k ∧ slots[k]? = some (some b) := by
    intro k is
    by_cases at_ : free = k
    · subst at_
      rw [List.getElem?_set_self bound] at is
      exact .inl ⟨rfl, (Option.some.inj (Option.some.inj is)).symm⟩
    · rw [List.getElem?_set_ne at_] at is
      exact .inr ⟨at_, is⟩
  rcases taken i ati with ⟨rfl, rfl⟩ | ⟨-, ati⟩ <;> rcases taken j atj with ⟨rfl, same⟩ | ⟨-, atj⟩
  · rfl
  · exact absurd (List.mem_of_getElem? atj) absent
  · rw [same] at ati
    exact absurd (List.mem_of_getElem? ati) absent
  · exact distinct i j b ati atj

theorem Distinct.release (distinct : Distinct slots) : Distinct (release slots a) :=
  fun i j b ati atj => distinct i j b (release_getElem.mp ati).1 (release_getElem.mp atj).1

theorem Distinct.idxOf?_eq_some (distinct : Distinct slots) :
    slots.idxOf? (some a) = some i ↔ slots[i]? = some (some a) := by
  rw [List.idxOf?_eq_some_iff]
  constructor
  · rintro ⟨bound, is, -⟩
    exact List.getElem?_eq_some_iff.mpr ⟨bound, is⟩
  · intro is
    obtain ⟨bound, at_⟩ := List.getElem?_eq_some_iff.mp is
    refine ⟨bound, at_, fun j before held => ?_⟩
    have same := distinct i j a is (List.getElem?_eq_some_iff.mpr ⟨Nat.lt_trans before bound, held⟩)
    omega

end Slots
