import Quickchr.Lib.Gaps
import Quickchr.MachineState
import Mathlib.Algebra.Order.Ring.Int
import Mathlib.Data.List.Sort
import Mathlib.Data.Int.ConditionallyCompleteOrder

/-!
# The search for a port block

The search starts at any base and steps past the blocks in use and past those whose probes meet a
bound port. A base is an integer, and the bases in use are in no order.
-/
namespace Quickchr.BlockSearch

def PORTS_PER_BLOCK : ℕ := 10
def DEFAULT_PORT_BASE : ℕ := 9100
def maxAttempts : ℕ := 20

/-- The lowest base at or above `start` whose block overlaps no used block. -/
def nextUnusedBase (start : ℤ) (usedBases : List ℤ) : ℤ :=
  (usedBases.insertionSort (· ≤ ·)).foldl
    (fun base used => if |base - used| < PORTS_PER_BLOCK then used + PORTS_PER_BLOCK else base) start

def allocatePortBlock (usedBases : List ℤ) (requestedBase : Option ℤ) : ℤ :=
  match requestedBase with
  | some requested => requested
  | none => nextUnusedBase DEFAULT_PORT_BASE usedBases

/-- The bases whose ports were probed, and what the search comes to. -/
structure Search where
  tried : List ℤ
  result : Except QuickCHRError ℤ

def portsExhausted (startBase : Option ℤ) (base : ℤ) : QuickCHRError :=
  { code := .PORT_CONFLICT
    message := s!"Could not find available port block after {maxAttempts} attempts " ++
      s!"(tried {startBase.getD DEFAULT_PORT_BASE}–{base})" }

/-- `conflicts` tells for each attempt and base whether a host port of the block was bound. -/
def probe (usedBases : List ℤ) (startBase : Option ℤ) (conflicts : ℕ → ℤ → Bool) : ℕ → ℤ → Search
  | 0, base => ⟨[], .error (portsExhausted startBase base)⟩
  | left + 1, base =>
      if conflicts (maxAttempts - (left + 1)) base then
        let rest := probe usedBases startBase conflicts left (nextUnusedBase (base + PORTS_PER_BLOCK) usedBases)
        { rest with tried := base :: rest.tried }
      else ⟨[base], .ok base⟩

def findAvailablePortBlock (usedBases : List ℤ) (startBase : Option ℤ) (conflicts : ℕ → ℤ → Bool) : Search :=
  probe usedBases startBase conflicts maxAttempts (startBase.getD (allocatePortBlock usedBases none))

def block (base : ℤ) : Set ℤ := {port | base ≤ port ∧ port < base + PORTS_PER_BLOCK}

theorem disjoint_block_iff (a b : ℤ) : Disjoint (block a) (block b) ↔ PORTS_PER_BLOCK ≤ |a - b| :=
  Gaps.disjoint_iff (by decide) a b

theorem nextUnusedBase_isLeast (start : ℤ) (usedBases : List ℤ) :
    IsLeast {b : ℤ | start ≤ b ∧ ∀ used ∈ usedBases, PORTS_PER_BLOCK ≤ |b - used|}
      (nextUnusedBase start usedBases) := by
  have ascending := List.pairwise_insertionSort (· ≤ ·) usedBases
  have least : IsLeast (Gaps.Free (PORTS_PER_BLOCK : ℤ) start _) (nextUnusedBase start usedBases) :=
    Gaps.foldl_past_isLeast ascending start
  simp only [Gaps.Free, List.mem_insertionSort] at least
  exact least

/-- A base at which a search may be: its block overlaps none of the used ones. -/
def Clear (usedBases : List ℤ) (base : ℤ) : Prop := ∀ used ∈ usedBases, Disjoint (block base) (block used)

theorem nextUnusedBase_clear (start : ℤ) (usedBases : List ℤ) : Clear usedBases (nextUnusedBase start usedBases) :=
  fun used member =>
    (disjoint_block_iff _ _).mpr ((nextUnusedBase_isLeast start usedBases).1.2 used member)

/-- What a search from a base on comes to. -/
structure Search.Sound (usedBases : List ℤ) (base : ℤ) (s : Search) : Prop where
  clear : ∀ b ∈ s.tried, Clear usedBases b
  above : ∀ b ∈ s.tried, base ≤ b
  ascending : s.tried.Pairwise (· < ·)
  found : ∀ b, s.result = .ok b → b ∈ s.tried

theorem probe_sound {usedBases : List ℤ} {startBase : Option ℤ} {conflicts : ℕ → ℤ → Bool} (left : ℕ)
    {base : ℤ} (clear : Clear usedBases base) : (probe usedBases startBase conflicts left base).Sound usedBases base := by
  induction left generalizing base with
  | zero => exact ⟨nofun, nofun, List.Pairwise.nil, nofun⟩
  | succ left ih =>
    have next := (nextUnusedBase_isLeast (base + PORTS_PER_BLOCK) usedBases).1.1
    have further : base < nextUnusedBase (base + PORTS_PER_BLOCK) usedBases :=
      lt_of_lt_of_le (lt_add_of_pos_right base (by decide)) next
    have rest := ih (nextUnusedBase_clear (base + PORTS_PER_BLOCK) usedBases)
    unfold probe
    split
    · exact {
        clear := List.forall_mem_cons.mpr ⟨clear, rest.clear⟩
        above := List.forall_mem_cons.mpr ⟨le_rfl, fun b member =>
          le_trans (le_of_lt further) (rest.above b member)⟩
        ascending := List.pairwise_cons.mpr ⟨fun b member => lt_of_lt_of_le further (rest.above b member),
          rest.ascending⟩
        found := fun b ok => List.mem_cons_of_mem _ (rest.found b ok) }
    · exact {
        clear := List.forall_mem_singleton.mpr clear
        above := List.forall_mem_singleton.mpr le_rfl
        ascending := List.pairwise_singleton _ _
        found := fun b ok => List.mem_singleton.mpr (Except.ok.inj ok).symm }

theorem findAvailablePortBlock_sound (usedBases : List ℤ) (conflicts : ℕ → ℤ → Bool) :
    (findAvailablePortBlock usedBases none conflicts).Sound usedBases (nextUnusedBase DEFAULT_PORT_BASE usedBases) :=
  probe_sound maxAttempts (nextUnusedBase_clear DEFAULT_PORT_BASE usedBases)

end Quickchr.BlockSearch
