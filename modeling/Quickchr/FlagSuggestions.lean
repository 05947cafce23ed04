import Quickchr.Flags
import Quickchr.Lib.EditDistance
import Mathlib.Data.List.Sort

/-!
# Unknown flags

A command that makes a machine refuses a flag that it does not know, and a flag that lacks its value. A flag that
looks like a known one is answered with that one.
-/
namespace Quickchr.Cli

open EditDistance

/-- The flags that make a machine, as `add` takes them. -/
def ADD_FLAGS : List String :=
  ["version", "channel", "arch", "name", "cpu", "mem", "accel", "add-package", "install-all-packages", "port-base",
    "forward", "winbox", "api-ssl", "add-network", "network", "boot-disk-format", "boot-size", "add-disk",
    "device-mode", "device-mode-enable", "device-mode-disable", "add-user", "disable-admin", "secure-login",
    "qemu-arg"]

def START_FLAGS : List String :=
  ADD_FLAGS ++
    ["all", "dry-run", "wait", "background", "bg", "fg", "foreground", "timeout-extra", "frozen", "license-level",
      "license-account", "license-password"]

def NEGATABLE_VALUE_FLAGS : List String := ["device-mode"]

section Distances

variable (a b : List UInt16)

/-- An entry of a row, from the row before and the entries before it. -/
def entry (i j : ℕ) (previous current : List ℕ) : ℕ :=
  let cost := if a[i - 1]? = b[j - 1]? then 0 else 1
  min (min (previous[j]?.getD 0 + 1) (current[j - 1]?.getD 0 + 1)) (previous[j - 1]?.getD 0 + cost)

def nextRow (previous : List ℕ) (i : ℕ) : List ℕ :=
  (List.range' 1 b.length).foldl (fun current j => current.set j (entry a b i j previous current))
    (i :: List.replicate b.length 0)

def lastRow : List ℕ := (List.range' 1 a.length).foldl (nextRow a b) (List.range (b.length + 1))

end Distances

def editDistance (a b : String) : ℕ :=
  let a := Text.utf16 a.toList
  let b := Text.utf16 b.toList
  (lastRow a b)[b.length]?.getD 0

/-- One round of the loop over the candidates. -/
def closer (name : String) (best : Option (String × ℕ)) (candidate : String) : Option (String × ℕ) :=
  let d := editDistance name candidate
  match best with
  | none => some (candidate, d)
  | some (best, bestDistance) => if d < bestDistance then some (candidate, d) else some (best, bestDistance)

/-- So many edits are few for a flag of this name. -/
def tolerance (name : String) : ℕ := max 1 ((Text.utf16 name.toList).length / 3)

def suggestFlag (name : String) (known : List String) : Option String :=
  match known.foldl (closer name) none with
  | none => none
  | some (best, bestDistance) => if bestDistance ≤ tolerance name then some best else none

structure Unknown where
  name : String
  suggestion : Option String

def unknownFlags (flags : Flags) (known : List String) : List Unknown :=
  ((flags.map Prod.fst).filter (· ∉ known)).map fun name => { name, suggestion := suggestFlag name known }

def unknownFlagMessage (unknown : List Unknown) (command : String) : String :=
  if unknown = [] then ""
  else
    Text.join "\n"
      (["Error: unknown flag" ++ (if unknown.length > 1 then "s" else "") ++ " for 'quickchr " ++ command ++ "':"] ++
        (unknown.map fun u =>
          match u.suggestion.filter (· ≠ "") with
          | some suggestion => "  --" ++ u.name ++ "  (did you mean --" ++ suggestion ++ "?)"
          | none => "  --" ++ u.name) ++
        ["Run 'quickchr " ++ command ++ " --help' for the full list."])

structure Valueless where
  name : String
  negated : Bool

/-- What is said of a flag that takes a value. -/
def complaint (flags : Flags) (name : String) : Option Valueless :=
  match flags.get name with
  | some (.text _) | some (.texts _) => none
  | value =>
      if value = some (.bool false) ∧ name ∈ NEGATABLE_VALUE_FLAGS then none
      else some { name, negated := decide (value = some (.bool false)) }

def valuelessFlags (flags : Flags) (known : List String) : List Valueless :=
  (flags.map Prod.fst).filterMap fun name =>
    if name ∉ known ∨ name ∉ VALUE_FLAGS then none else complaint flags name

def valuelessFlagMessage (valueless : List Valueless) (command : String) : String :=
  if valueless = [] then ""
  else
    Text.join "\n"
      (["Error: flag" ++ (if valueless.length > 1 then "s" else "") ++ " for 'quickchr " ++ command ++
          "' missing a value:"] ++
        (valueless.map fun v =>
          if v.negated then
            "  --no-" ++ v.name ++ "  (not a supported negation — --" ++ v.name ++ " takes a value)"
          else "  --" ++ v.name ++ " <value>") ++
        ["Run 'quickchr " ++ command ++ " --help' for the full list."])

/-- What is printed where the command ends. -/
def rejectUnknownFlags (flags : Flags) (known : List String) (command : String) : Except String Unit :=
  let unknown := unknownFlags flags known
  if unknown.length > 0 then .error (unknownFlagMessage unknown command)
  else
    let valueless := valuelessFlags flags known
    if valueless.length > 0 then .error (valuelessFlagMessage valueless command) else .ok ()

section Rows

variable {a b : List UInt16} {row : List ℕ}

/-- The distances of a text from the fronts of the other one. -/
def IsRow (a b : List UInt16) (row : List ℕ) : Prop :=
  ∀ j ≤ b.length, row[j]? = some (distance a (b.take j))

theorem isRow_range (b : List UInt16) : IsRow [] b (List.range (b.length + 1)) := by
  intro j short
  rw [List.getElem?_range (by omega), distance_nil_left, List.length_take, Nat.min_eq_left short]

theorem take_succ_of_lt {l : List UInt16} {n : ℕ} (h : n < l.length) : l.take (n + 1) = l.take n ++ [l[n]] := by
  rw [List.take_add_one, List.getElem?_eq_getElem h]
  rfl

theorem entry_eq {previous current : List ℕ} {i j : ℕ} (inside : i < a.length) (inside' : j < b.length)
    (before : IsRow (a.take i) b previous) (left : current[j]? = some (distance (a.take (i + 1)) (b.take j))) :
    entry a b (i + 1) (j + 1) previous current = distance (a.take (i + 1)) (b.take (j + 1)) := by
  rw [take_succ_of_lt inside] at left ⊢
  have above := before (j + 1) inside'
  have corner := before j inside'.le
  rw [take_succ_of_lt inside'] at above ⊢
  rw [distance_concat, entry, Nat.add_sub_cancel, Nat.add_sub_cancel, above, left, corner,
    List.getElem?_eq_getElem inside, List.getElem?_eq_getElem inside']
  simp only [Option.getD_some, Option.some.injEq]

theorem isRow_nextRow {previous : List ℕ} {i : ℕ} (inside : i < a.length) (before : IsRow (a.take i) b previous) :
    IsRow (a.take (i + 1)) b (nextRow a b previous (i + 1)) := by
  let fill (k : ℕ) : List ℕ :=
    (List.range' 1 k).foldl (fun current j => current.set j (entry a b (i + 1) j previous current))
      ((i + 1) :: List.replicate b.length 0)
  have filled (k : ℕ) : k ≤ b.length → (fill k).length = b.length + 1 ∧
      ∀ j ≤ k, (fill k)[j]? = some (distance (a.take (i + 1)) (b.take j)) := by
    induction k with
    | zero =>
        intro _
        refine ⟨by simp [fill], fun j none => ?_⟩
        obtain rfl := Nat.le_zero.mp none
        rw [List.take_zero, distance_nil_right, List.length_take, Nat.min_eq_left inside]
        rfl
    | succ k ih =>
        intro short
        obtain ⟨size, known⟩ := ih (by omega)
        have last : fill (k + 1) = (fill k).set (k + 1) (entry a b (i + 1) (k + 1) previous (fill k)) := by
          dsimp only [fill]
          rw [List.range'_concat, List.foldl_append, List.foldl_cons, List.foldl_nil, Nat.one_mul, Nat.add_comm 1 k]
        rw [last, entry_eq inside short before (known k (Nat.le_refl k))]
        refine ⟨by rw [List.length_set, size], fun j upTo => ?_⟩
        by_cases new : j = k + 1
        · subst new
          rw [List.getElem?_set_self (by omega)]
        · rw [List.getElem?_set_ne (Ne.symm new)]
          exact known j (by omega)
  exact (filled b.length (Nat.le_refl _)).2

theorem isRow_lastRow (a b : List UInt16) : IsRow a b (lastRow a b) := by
  have rows (k : ℕ) : k ≤ a.length →
      IsRow (a.take k) b ((List.range' 1 k).foldl (nextRow a b) (List.range (b.length + 1))) := by
    induction k with
    | zero => exact fun _ => isRow_range b
    | succ k ih =>
        intro short
        rw [List.range'_concat, List.foldl_append, List.foldl_cons, List.foldl_nil, Nat.one_mul, Nat.add_comm 1 k]
        exact isRow_nextRow short (ih (by omega))
  have whole := rows a.length (Nat.le_refl _)
  rwa [List.take_length] at whole

end Rows

/-- The number of edits that it takes to make one text of the other, in units of UTF-16. -/
theorem least_editDistance (a b : String) :
    Least (editDistance a b) (Text.utf16 a.toList) (Text.utf16 b.toList) := by
  rw [editDistance, isRow_lastRow _ _ _ (Nat.le_refl _), List.take_length, Option.getD_some]
  exact least_distance _ _

/-- The suggestion is the first of the flags that take the fewest edits, if these are few. -/
inductive Suggests (name : String) (known : List String) : Option String → Prop
  | close {n : ℕ} {before after : List String} {best : String} : known = before ++ best :: after →
      Least n (Text.utf16 name.toList) (Text.utf16 best.toList) → n ≤ tolerance name →
      (∀ k ∈ before, ∀ m, Edits m (Text.utf16 name.toList) (Text.utf16 k.toList) → n < m) →
      (∀ k ∈ after, ∀ m, Edits m (Text.utf16 name.toList) (Text.utf16 k.toList) → n ≤ m) →
      Suggests name known (some best)
  | far : (∀ k ∈ known, ∀ m, Edits m (Text.utf16 name.toList) (Text.utf16 k.toList) → tolerance name < m) →
      Suggests name known none

/-- What the loop over the candidates has found. -/
def Best (name : String) (seen : List String) : Option (String × ℕ) → Prop
  | none => seen = []
  | some (best, n) => ∃ before after, seen = before ++ best :: after ∧ n = editDistance name best ∧
      (∀ k ∈ before, n < editDistance name k) ∧ ∀ k ∈ after, n ≤ editDistance name k

theorem best_closer {name : String} {seen : List String} {best : Option (String × ℕ)} (h : Best name seen best)
    (candidate : String) : Best name (seen ++ [candidate]) (closer name best candidate) := by
  unfold closer
  dsimp only
  split
  · rw [Best] at h
    subst h
    exact ⟨[], [], rfl, rfl, by simp, by simp⟩
  · rename_i best n
    obtain ⟨before, after, rfl, is, less, leq⟩ := h
    split
    · rename_i nearer
      refine ⟨before ++ best :: after, [], rfl, rfl, fun k member => ?_, by simp⟩
      obtain front | back := List.mem_append.mp member
      · exact nearer.trans (less k front)
      · obtain rfl | back := List.mem_cons.mp back
        · rwa [← is]
        · exact nearer.trans_le (leq k back)
    · rename_i far
      refine ⟨before, after ++ [candidate], by simp, is, less, fun k member => ?_⟩
      obtain back | last := List.mem_append.mp member
      · exact leq k back
      · rw [List.mem_singleton.mp last]
        exact Nat.le_of_not_lt far

theorem best_foldl (name : String) (known : List String) : Best name known (known.foldl (closer name) none) := by
  induction known using List.reverseRecOn with
  | nil => rfl
  | append_singleton known candidate ih =>
      rw [List.foldl_append, List.foldl_cons, List.foldl_nil]
      exact best_closer ih candidate

theorem suggests_suggestFlag (name : String) (known : List String) : Suggests name known (suggestFlag name known) := by
  have found := best_foldl name known
  have needed (k : String) := (least_editDistance name k).needed
  unfold suggestFlag
  generalize known.foldl (closer name) none = best at found
  match best with
  | none =>
      rw [Best] at found
      subst found
      exact .far (by simp)
  | some (best, n) =>
      obtain ⟨before, after, rfl, rfl, less, leq⟩ := found
      dsimp only
      split
      · rename_i few
        exact .close rfl (least_editDistance name best) few
          (fun k member m edits => (less k member).trans_le (needed k m edits))
          (fun k member m edits => (leq k member).trans (needed k m edits))
      · rename_i many
        refine .far fun k member m edits => (Nat.lt_of_not_le many).trans_le (le_trans ?_ (needed k m edits))
        obtain front | back := List.mem_append.mp member
        · exact (less k front).le
        · obtain rfl | back := List.mem_cons.mp back
          · exact Nat.le_refl _
          · exact leq k back

example : suggestFlag "foward" ["name", "forward"] = some "forward" := by decide +kernel

/-- The flag has its value, or is negated where that means something. -/
def Valued (name : String) : Option FlagValue → Prop
  | some (.text _) => True
  | some (.texts _) => True
  | value => value = some (.bool false) ∧ name ∈ NEGATABLE_VALUE_FLAGS

/-- Why a command is not begun: flags that it does not know, each with what it may have meant, or else flags without
their values. -/
inductive Refuses (flags : Flags) (known : List String) (command : String) : String → Prop
  | unknown {unknown : List Unknown} : unknown ≠ [] →
      (unknown.map (·.name)).Perm ((flags.map Prod.fst).filter (· ∉ known)) →
      (∀ u ∈ unknown, Suggests u.name known u.suggestion) →
      Refuses flags known command (unknownFlagMessage unknown command)
  | valueless {valueless : List Valueless} : valueless ≠ [] → (∀ name ∈ flags.map Prod.fst, name ∈ known) →
      (∀ name, name ∈ valueless.map (·.name) ↔
        name ∈ flags.map Prod.fst ∧ name ∈ VALUE_FLAGS ∧ ¬ Valued name (flags.get name)) →
      (∀ v ∈ valueless, v.negated = true ↔ flags.get v.name = some (.bool false)) →
      Refuses flags known command (valuelessFlagMessage valueless command)

theorem complaint_eq (flags : Flags) (name : String) [Decidable (Valued name (flags.get name))] : complaint flags name =
    if Valued name (flags.get name) then none
    else some { name, negated := decide (flags.get name = some (.bool false)) } := by
  unfold complaint
  split
  · rename_i value is
    rw [if_pos (by rw [is]; trivial)]
  · rename_i values is
    rw [if_pos (by rw [is]; trivial)]
  · rename_i untext untexts
    have plain : Valued name (flags.get name) ↔ flags.get name = some (.bool false) ∧ name ∈ NEGATABLE_VALUE_FLAGS := by
      unfold Valued
      split
      · exact absurd ‹_› (untext _)
      · exact absurd ‹_› (untexts _)
      · exact Iff.rfl
    simp only [plain]

theorem mem_valuelessFlags {flags : Flags} {known : List String} {v : Valueless} : v ∈ valuelessFlags flags known ↔
    (v.name ∈ flags.map Prod.fst ∧ v.name ∈ known ∧ v.name ∈ VALUE_FLAGS ∧ ¬ Valued v.name (flags.get v.name)) ∧
      v.negated = decide (flags.get v.name = some (.bool false)) := by
  classical
  rw [valuelessFlags, List.mem_filterMap]
  constructor
  · rintro ⟨name, listed, made⟩
    split at made
    · cases made
    · rename_i checked
      rw [not_or, not_not, not_not] at checked
      rw [complaint_eq] at made
      split at made
      · cases made
      · rename_i unvalued
        cases made
        exact ⟨⟨listed, checked.1, checked.2, unvalued⟩, rfl⟩
  · rintro ⟨⟨listed, checked, takes, unvalued⟩, negated⟩
    refine ⟨v.name, listed, ?_⟩
    rw [if_neg (not_or.mpr ⟨not_not.mpr checked, not_not.mpr takes⟩), complaint_eq, if_neg unvalued, ← negated]

/-- A command is begun just when it knows every flag and each has its value. -/
theorem rejects (flags : Flags) (known : List String) (command : String) :
    match rejectUnknownFlags flags known command with
    | .ok () => ∀ name ∈ flags.map Prod.fst, name ∈ known ∧ (name ∈ VALUE_FLAGS → Valued name (flags.get name))
    | .error message => Refuses flags known command message := by
  have unknowns : ((unknownFlags flags known).map (·.name)).Perm ((flags.map Prod.fst).filter (· ∉ known)) := by
    rw [unknownFlags, List.map_map, Function.comp_def, List.map_id']
  unfold rejectUnknownFlags
  dsimp only
  split
  · rename_i passed
    split at passed
    · cases passed
    · rename_i none
      split at passed
      · cases passed
      · rename_i none'
        have empty := List.length_eq_zero_iff.mp (Nat.eq_zero_of_not_pos none)
        have empty' := List.length_eq_zero_iff.mp (Nat.eq_zero_of_not_pos none')
        rw [empty, List.map_nil, List.nil_perm, List.filter_eq_nil_iff] at unknowns
        intro name listed
        have is : name ∈ known := by simpa using unknowns name listed
        refine ⟨is, fun takes => by_contra fun unvalued => ?_⟩
        have member := (@mem_valuelessFlags flags known ⟨name, decide (flags.get name = some (.bool false))⟩).mpr
          ⟨⟨listed, is, takes, unvalued⟩, rfl⟩
        rw [empty'] at member
        cases member
  · rename_i message refused
    split at refused
    · rename_i some_
      cases refused
      refine .unknown (List.ne_nil_of_length_pos some_) unknowns fun u member => ?_
      obtain ⟨name, -, rfl⟩ := List.mem_map.mp member
      exact suggests_suggestFlag name known
    · rename_i none
      split at refused
      · rename_i some_
        cases refused
        have empty := List.length_eq_zero_iff.mp (Nat.eq_zero_of_not_pos none)
        rw [empty, List.map_nil, List.nil_perm, List.filter_eq_nil_iff] at unknowns
        have all : ∀ name ∈ flags.map Prod.fst, name ∈ known := fun name listed => by simpa using unknowns name listed
        refine .valueless (List.ne_nil_of_length_pos some_) all (fun name => ?_) fun v member => ?_
        · rw [List.mem_map]
          constructor
          · rintro ⟨v, member, rfl⟩
            obtain ⟨⟨listed, -, takes, unvalued⟩, -⟩ := mem_valuelessFlags.mp member
            exact ⟨listed, takes, unvalued⟩
          · rintro ⟨listed, takes, unvalued⟩
            exact ⟨⟨name, decide (flags.get name = some (.bool false))⟩,
              mem_valuelessFlags.mpr ⟨⟨listed, all name listed, takes, unvalued⟩, rfl⟩, rfl⟩
        · rw [(mem_valuelessFlags.mp member).2, decide_eq_true_iff]
      · cases refused

end Quickchr.Cli
