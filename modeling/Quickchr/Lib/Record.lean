import Mathlib.Data.List.Basic
import Mathlib.Data.List.Nodup
import Mathlib.Data.List.TakeWhile
import Mathlib.Tactic.Tauto

/-!
# Records with string keys

A plain object: its entries in the order in which it lists them. `get` reads a property, `set`
assigns one in place or adds it. The keys that number an element are listed first, in
ascending order; another new key comes last.
-/

abbrev Record (α : Type*) := List (String × α)

namespace Record

variable {α : Type*}

def get (r : Record α) (k : String) : Option α := r.lookup k

def digitsValue (key : String) : ℕ := key.toList.foldl (fun n c => 10 * n + (c.toNat - '0'.toNat)) 0

/-- A key that numbers an element: an array has at most `2^32 - 1` of them. -/
def isIndex (key : String) : Bool :=
  decide (key ≠ "") && key.toList.all Char.isDigit && (key = "0" || key.toList.head? ≠ some '0') &&
    decide (digitsValue key < 4294967295)

/-- The key `j` stays before a new key `k`. -/
def staysBefore (k j : String) : Bool :=
  !isIndex k || (isIndex j && decide (digitsValue j < digitsValue k))

def set (r : Record α) (k : String) (v : α) : Record α :=
  if k ∈ r.map Prod.fst then r.map fun e => (e.1, if e.1 = k then v else e.2)
  else r.takeWhile (fun e => staysBefore k e.1) ++ (k, v) :: r.dropWhile fun e => staysBefore k e.1

/-- `delete r[k]`. -/
def erase (r : Record α) (k : String) : Record α := r.filter fun e => decide (e.1 ≠ k)

def assign (r : Record α) (entries : List (String × α)) : Record α :=
  entries.foldl (fun r e => r.set e.1 e.2) r

variable (r : Record α) (k : String) (v : α)

@[simp] theorem get_nil : get ([] : Record α) k = none := rfl

theorem get_cons (j : String) (w : α) :
    get ((j, w) :: r) k = if k = j then some w else r.get k := by
  simp only [get, List.lookup_cons]
  by_cases eq : k = j
  · simp [eq]
  · have ne : (k == j) = false := beq_eq_false_iff_ne.mpr eq
    simp only [ne, eq, if_false]

theorem get_append (l m : Record α) : get (l ++ m) k = (get l k).or (get m k) := by
  induction l with
  | nil => rfl
  | cons e l ih =>
      obtain ⟨j, w⟩ := e
      rw [List.cons_append, get_cons, get_cons, ih]
      split <;> rfl

theorem get_map {β : Type*} (f : String → α → β) :
    get (r.map fun e => (e.1, f e.1 e.2)) k = (r.get k).map (f k) := by
  induction r with
  | nil => rfl
  | cons e r ih =>
      obtain ⟨j, w⟩ := e
      rw [List.map_cons, get_cons, get_cons, ih]
      split
      · rename_i same
        rw [same]
        rfl
      · rfl

theorem get_map_value {β : Type*} (f : α → β) :
    get (r.map fun e => (e.1, f e.2)) k = (r.get k).map f := get_map r k fun _ => f

theorem get_eq_none {r : Record α} {k : String} : r.get k = none ↔ k ∉ r.map Prod.fst := by
  induction r with
  | nil => simp
  | cons e r ih =>
      obtain ⟨j, w⟩ := e
      rw [get_cons, List.map_cons, List.mem_cons]
      split
      · rename_i eq
        simp [eq]
      · rename_i ne
        rw [ih]
        simp only [ne, false_or]

theorem keys_set_of_mem {r : Record α} {k : String} (h : k ∈ r.map Prod.fst) :
    (r.set k v).map Prod.fst = r.map Prod.fst := by
  rw [set, if_pos h, List.map_map]
  rfl

/-- A new key stands somewhere between the others. -/
theorem set_of_new {r : Record α} {k : String} (h : k ∉ r.map Prod.fst) :
    ∃ front back, r = front ++ back ∧ r.set k v = front ++ (k, v) :: back :=
  ⟨_, _, (List.takeWhile_append_dropWhile ..).symm, by rw [set, if_neg h]⟩

@[simp] theorem get_set_self : (r.set k v).get k = some v := by
  by_cases there : k ∈ r.map Prod.fst
  · rw [set, if_pos there, get_map r k fun j w => if j = k then v else w]
    cases is : r.get k with
    | none => exact absurd there (get_eq_none.mp is)
    | some w => rw [Option.map_some, if_pos rfl]
  · obtain ⟨front, back, same, placed⟩ := set_of_new v there
    have absent : get front k = none :=
      get_eq_none.mpr fun member => there (same ▸ List.map_append ▸ List.mem_append_left _ member)
    rw [placed, get_append, absent, Option.none_or, get_cons, if_pos rfl]

theorem get_set_ne {j : String} (h : j ≠ k) : (r.set k v).get j = r.get j := by
  by_cases there : k ∈ r.map Prod.fst
  · rw [set, if_pos there, get_map r j fun i w => if i = k then v else w]
    simp only [h, if_false, Option.map_id']
  · obtain ⟨front, back, same, placed⟩ := set_of_new v there
    rw [placed, get_append, get_cons, if_neg h, ← get_append, ← same]

theorem isIndex_of_mem {c : Char} {key : String} (member : c ∈ key.toList) (other : c.isDigit = false) :
    isIndex key = false := by
  have some : key.toList.all Char.isDigit = false :=
    List.all_eq_false.mpr ⟨c, member, by rw [other]; exact Bool.false_ne_true⟩
  rw [isIndex, some, Bool.and_false, Bool.false_and, Bool.false_and]

theorem set_of_not_mem {r : Record α} {k : String} {v : α} (h : k ∉ r.map Prod.fst)
    (named : isIndex k = false) : r.set k v = r ++ [(k, v)] := by
  have last : ∀ e ∈ r, staysBefore k e.1 = true := fun e _ => by
    rw [staysBefore, named, Bool.not_false, Bool.true_or]
  rw [set, if_neg h, List.takeWhile_eq_self_iff.mpr last, List.dropWhile_eq_nil_iff.mpr last]

theorem mem_keys_set {j : String} :
    j ∈ (r.set k v).map Prod.fst ↔ j = k ∨ j ∈ r.map Prod.fst := by
  by_cases there : k ∈ r.map Prod.fst
  · rw [keys_set_of_mem v there]
    exact ⟨.inr, fun h => h.elim (fun same => same ▸ there) id⟩
  · obtain ⟨front, back, same, placed⟩ := set_of_new v there
    rw [placed, same, List.map_append, List.map_append, List.map_cons, List.mem_append, List.mem_append,
      List.mem_cons]
    tauto

theorem nodup_set (h : (r.map Prod.fst).Nodup) : ((r.set k v).map Prod.fst).Nodup := by
  by_cases there : k ∈ r.map Prod.fst
  · rwa [keys_set_of_mem v there]
  · obtain ⟨front, back, same, placed⟩ := set_of_new v there
    rw [same, List.map_append] at h there
    rw [placed, List.map_append, List.map_cons]
    exact List.nodup_middle.mpr (List.nodup_cons.mpr ⟨there, h⟩)

theorem mem_set {r : Record α} {k : String} {v : α} {e : String × α} (h : e ∈ r.set k v) :
    e ∈ r ∨ e = (k, v) := by
  by_cases there : k ∈ r.map Prod.fst
  · rw [set, if_pos there] at h
    obtain ⟨old, member, rfl⟩ := List.mem_map.mp h
    by_cases same : old.1 = k
    · exact .inr (by rw [if_pos same, same])
    · exact .inl (by rwa [if_neg same])
  · obtain ⟨front, back, same, placed⟩ := set_of_new v there
    rw [placed, List.mem_append, List.mem_cons] at h
    rw [same, List.mem_append]
    tauto

theorem get_assign (entries : List (String × α)) :
    (r.assign entries).get k = (get entries.reverse k).or (r.get k) := by
  induction entries generalizing r with
  | nil => rfl
  | cons e entries ih =>
      obtain ⟨j, w⟩ := e
      have step : assign r ((j, w) :: entries) = assign (r.set j w) entries := rfl
      rw [step, ih, List.reverse_cons, get_append, get_cons, get_nil]
      by_cases eq : k = j
      · subst eq
        rw [get_set_self, if_pos rfl, Option.or_assoc, Option.some_or]
      · rw [get_set_ne _ _ _ eq, if_neg eq, Option.or_none]

theorem get_filter (P : String → Bool) (l : Record α) :
    get (l.filter fun e => P e.1) k = if P k then get l k else none := by
  induction l with
  | nil => simp
  | cons e l ih =>
      obtain ⟨j, w⟩ := e
      by_cases kept : P j
      · rw [List.filter_cons_of_pos (by exact kept), get_cons, get_cons, ih]
        by_cases eq : k = j
        · subst eq; simp only [if_true, kept]
        · simp only [eq, if_false]
      · rw [List.filter_cons_of_neg (by exact kept), ih, get_cons]
        by_cases eq : k = j
        · subst eq; simp only [kept, Bool.false_eq_true, if_false]
        · simp only [eq, if_false]

@[simp] theorem get_erase_self : (r.erase k).get k = none := by
  rw [erase, get_filter k fun j => decide (j ≠ k), if_neg (by simp only [ne_eq, not_true,
    decide_false, Bool.false_eq_true, not_false_eq_true])]

theorem get_erase_ne {j : String} (h : j ≠ k) : (r.erase k).get j = r.get j := by
  rw [erase, get_filter j fun j => decide (j ≠ k), if_pos (decide_eq_true h)]

theorem get_of_get_erase {r : Record α} {k j : String} {v : α} (h : (r.erase k).get j = some v) :
    r.get j = some v := by
  by_cases same : j = k
  · rw [same, get_erase_self] at h
    cases h
  · rwa [get_erase_ne _ _ same] at h

theorem get_map_const (keys : List String) :
    get (keys.map (·, v)) k = if k ∈ keys then some v else none := by
  induction keys with
  | nil => rfl
  | cons j keys ih =>
      rw [List.map_cons, get_cons, ih]
      by_cases eq : k = j
      · subst eq; simp only [if_true, List.mem_cons_self]
      · simp only [eq, if_false, List.mem_cons, false_or]

theorem nodup_assign (entries : List (String × α)) (h : (r.map Prod.fst).Nodup) :
    ((r.assign entries).map Prod.fst).Nodup := by
  induction entries generalizing r with
  | nil => exact h
  | cons e entries ih => exact ih _ (nodup_set r e.1 e.2 h)

theorem get_filterMap {β : Type*} (f : String → α → Option β) {r : Record α}
    (h : (r.map Prod.fst).Nodup) :
    get (r.filterMap fun e => (f e.1 e.2).map (e.1, ·)) k = (r.get k).bind (f k) := by
  induction r with
  | nil => rfl
  | cons e r ih =>
      obtain ⟨j, w⟩ := e
      rw [List.map_cons, List.nodup_cons] at h
      rw [List.filterMap_cons, get_cons]
      have rest := ih h.2
      by_cases same : k = j
      · subst same
        rw [if_pos rfl, Option.bind_some]
        rw [get_eq_none.mpr h.1, Option.bind_none] at rest
        cases made : f k w with
        | none => exact rest
        | some v =>
            change get ((k, v) :: _) k = some v
            rw [get_cons, if_pos rfl]
      · rw [if_neg same, ← rest]
        cases f j w with
        | none => rfl
        | some v =>
            change get ((j, v) :: _) k = _
            rw [get_cons, if_neg same]

theorem get_reverse {r : Record α} (h : (r.map Prod.fst).Nodup) (k : String) :
    get r.reverse k = r.get k := by
  induction r with
  | nil => rfl
  | cons e r ih =>
      obtain ⟨j, w⟩ := e
      rw [List.map_cons, List.nodup_cons] at h
      rw [List.reverse_cons, get_append, ih h.2, get_cons, get_cons, get_nil]
      by_cases eq : k = j
      · subst eq
        rw [get_eq_none.mpr h.1, Option.none_or]
      · simp only [eq, if_false, Option.or_none]

theorem get_of_mem {r : Record α} (h : (r.map Prod.fst).Nodup) {k : String} {v : α}
    (member : (k, v) ∈ r) : r.get k = some v := by
  induction r with
  | nil => cases member
  | cons e r ih =>
      obtain ⟨j, w⟩ := e
      rw [List.map_cons, List.nodup_cons] at h
      rw [get_cons]
      rcases List.mem_cons.mp member with same | later
      · cases same
        exact if_pos rfl
      · have ne : k ≠ j := fun eq => h.1 (List.mem_map.mpr ⟨(k, v), later, eq⟩)
        rw [if_neg ne, ih h.2 later]

/-- The last entry of its key is what the reversed list has for it. -/
theorem get_reverse_of_last {r : Record α} {i : ℕ} {e : String × α} (at_ : r[i]? = some e)
    (last : ∀ j e', i < j → r[j]? = some e' → e'.1 ≠ e.1) : get r.reverse e.1 = some e.2 := by
  induction r generalizing i with
  | nil => cases at_
  | cons head r ih =>
      rw [List.reverse_cons, get_append]
      cases i with
      | zero =>
          obtain rfl : head = e := Option.some.inj at_
          have absent : get r.reverse head.1 = none := by
            rw [get_eq_none, List.map_reverse, List.mem_reverse]
            intro member
            obtain ⟨e', member, same⟩ := List.mem_map.mp member
            obtain ⟨j, at_⟩ := List.mem_iff_getElem?.mp member
            exact last (j + 1) e' (Nat.succ_pos j) at_ same
          rw [absent, Option.none_or, get_cons, if_pos rfl]
      | succ i =>
          rw [ih at_ fun j e' after at_ => last (j + 1) e' (Nat.succ_lt_succ after) at_,
            Option.some_or]

theorem mem_assign {r : Record α} {entries : List (String × α)} {e : String × α}
    (h : e ∈ r.assign entries) : e ∈ r ∨ e ∈ entries := by
  induction entries generalizing r with
  | nil => exact .inl h
  | cons head entries ih =>
      rcases ih h with kept | later
      · refine (mem_set kept).imp_right fun same => ?_
        rw [same]
        exact List.mem_cons_self
      · exact .inr (List.mem_cons_of_mem _ later)

theorem mem_of_get {r : Record α} {k : String} {v : α} (h : r.get k = some v) : (k, v) ∈ r := by
  induction r with
  | nil => cases h
  | cons e r ih =>
      obtain ⟨j, w⟩ := e
      rw [get_cons] at h
      split at h
      · rename_i eq
        cases h
        rw [eq]
        exact List.mem_cons_self
      · exact List.mem_cons_of_mem _ (ih h)

end Record
