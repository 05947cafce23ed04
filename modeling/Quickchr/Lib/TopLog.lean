import Mathlib.Data.Finmap
import Mathlib.Data.Finset.Lattice.Fold
import Mathlib.Order.Lattice.Nat

/-!
# Numbered logs with a top

Finite maps whose keys are a name and a number. `gens` are the numbers in use under one
name and `top` the highest of them, `0` when there is none. Deleting below the top and
inserting an absent number never lower it.
-/
namespace TopLog

abbrev Log (κ α : Type*) := Finmap fun _ : κ × ℕ => α

variable {κ α : Type*} [DecidableEq κ]

def gens (m : Log κ α) (k : κ) : Finset ℕ :=
  (m.keys.filter fun n => n.1 = k).image Prod.snd

def top (m : Log κ α) (k : κ) : ℕ := (gens m k).sup fun g => g

@[simp] theorem mem_gens {m : Log κ α} {k : κ} {g : ℕ} : g ∈ gens m k ↔ (k, g) ∈ m := by
  simp only [gens, Finset.mem_image, Finset.mem_filter, Finmap.mem_keys, Prod.exists]
  constructor
  · rintro ⟨j, _, ⟨member, rfl⟩, rfl⟩
    exact member
  · intro member
    exact ⟨k, g, ⟨member, rfl⟩, rfl⟩

@[simp] theorem top_empty (k : κ) : top (∅ : Log κ α) k = 0 := rfl

theorem le_top {m : Log κ α} {k : κ} {g : ℕ} (h : (k, g) ∈ m) : g ≤ top m k :=
  Finset.le_sup (f := fun g => g) (mem_gens.mpr h)

theorem le_top_of_lookup {m : Log κ α} {k : κ} {g : ℕ} {a : α}
    (h : m.lookup (k, g) = some a) : g ≤ top m k :=
  le_top (Finmap.mem_of_lookup_eq_some h)

theorem top_mem {m : Log κ α} {k : κ} (h : 0 < top m k) : (k, top m k) ∈ m := by
  have nonempty : (gens m k).Nonempty := by
    by_contra empty
    rw [Finset.not_nonempty_iff_eq_empty] at empty
    simp [top, empty] at h
  obtain ⟨g, member, eq⟩ := Finset.exists_mem_eq_sup _ nonempty fun g => g
  rw [top, eq]
  exact mem_gens.mp member

theorem lookup_top {m : Log κ α} {k : κ} (h : 0 < top m k) :
    ∃ a, m.lookup (k, top m k) = some a :=
  Finmap.mem_iff.mp (top_mem h)

theorem gens_insert_self (m : Log κ α) (k : κ) (g : ℕ) (a : α) :
    gens (m.insert (k, g) a) k = insert g (gens m k) := by
  ext n
  simp only [mem_gens, Finmap.mem_insert, Prod.mk.injEq, true_and, Finset.mem_insert]

@[simp] theorem top_insert_self (m : Log κ α) (k : κ) (g : ℕ) (a : α) :
    top (m.insert (k, g) a) k = max g (top m k) := by
  rw [top, gens_insert_self, Finset.sup_insert, ← top]

theorem gens_insert_ne {m : Log κ α} {j k : κ} (h : j ≠ k) (g : ℕ) (a : α) :
    gens (m.insert (j, g) a) k = gens m k := by
  ext n
  simp only [mem_gens, Finmap.mem_insert, Prod.mk.injEq, h.symm, false_and, false_or]

theorem top_insert_ne {m : Log κ α} {j k : κ} (h : j ≠ k) (g : ℕ) (a : α) :
    top (m.insert (j, g) a) k = top m k := by rw [top, gens_insert_ne h, ← top]

theorem gens_erase_ne {m : Log κ α} {j k : κ} (h : j ≠ k) (g : ℕ) :
    gens (m.erase (j, g)) k = gens m k := by
  ext n
  simp only [mem_gens, Finmap.mem_erase, ne_eq, Prod.mk.injEq, h.symm, false_and,
    not_false_eq_true, true_and]

theorem top_erase_ne {m : Log κ α} {j k : κ} (h : j ≠ k) (g : ℕ) :
    top (m.erase (j, g)) k = top m k := by rw [top, gens_erase_ne h, ← top]

theorem top_erase_of_lt {m : Log κ α} {k : κ} {g : ℕ} (h : g < top m k) :
    top (m.erase (k, g)) k = top m k := by
  apply le_antisymm
  · apply Finset.sup_le
    intro n member
    exact le_top (Finmap.mem_erase.mp (mem_gens.mp member)).2
  · apply le_top
    rw [Finmap.mem_erase]
    exact ⟨fun eq => h.ne' (Prod.mk.inj eq).2, top_mem (Nat.zero_lt_of_lt h)⟩

end TopLog
