import Quickchr.Lib.Transition
import Mathlib.Logic.Function.Basic

/-!
# One name under machines/

The directory of a machine holds its lock, and removing the machine renames the directory away
with the lock inside, so that a directory made later under the same name is another incarnation
with a lock of its own. The steps are those of the operations that make, use and remove the
directory; each operation is its own process.
-/
namespace Quickchr.MachineDirectory

inductive RecordFile
  | absent
  | torn
  | whole (createdAt : ℕ)
  deriving DecidableEq, Repr

structure Dir where
  incarnation : ℕ
  /-- Who holds the lock in it. -/
  holder : Option ℕ
  record : RecordFile
  deriving DecidableEq, Repr

inductive Kind
  | start
  | add
  deriving DecidableEq, Repr

/-- Where an operation is. `created` is `dirCreatedHere` of `start()`, and true for `add()`. -/
inductive Phase
  | idle
  /-- `start()` has found no record of the name. -/
  | named
  | looked (kind : Kind) (created : Bool)
  | ensured (kind : Kind) (created : Bool)
  /-- Creating the machine under its lock. -/
  | holding (kind : Kind) (created : Bool)
  /-- `start()` has given up its lock and returns the relaunch on the terminal, which no handler of its
  own waits for. -/
  | lent
  /-- The error handler comes next. -/
  | failing (kind : Kind) (created : Bool)
  /-- The error handler has found an orphan. -/
  | condemned
  /-- The release of the lock comes next. -/
  | leaving
  /-- Another operation under the lock, for the machine created then. -/
  | serving (createdAt : ℕ)
  | orphanLooked
  | orphanHolding
  | orphanCondemned
  | finished
  deriving DecidableEq, Repr

structure State where
  dir : Option Dir
  /-- The incarnations so far. -/
  made : ℕ
  /-- Under `.removing/`: who moved it there, and which incarnation it was. -/
  removing : List (ℕ × ℕ)
  ops : ℕ → Phase

def State.goto (s : State) (i : ℕ) (phase : Phase) : State :=
  { s with ops := Function.update s.ops i phase }

def State.has (s : State) (i : ℕ) : Bool := s.dir.any fun d => d.holder = some i

def State.isOrphanMachineDir (s : State) : Bool :=
  s.dir.any fun d => match d.record with
    | .whole _ => false
    | .absent | .torn => true

def State.ensureDir (s : State) : State :=
  match s.dir with
  | some _ => s
  | none => { s with dir := some ⟨s.made, none, .absent⟩, made := s.made + 1 }

def State.hold (s : State) (i : ℕ) : State :=
  { s with dir := s.dir.map fun d => { d with holder := some i } }

/-- The released marker, while the lock in the directory is this holder's. -/
def State.release (s : State) (i : ℕ) : State :=
  if s.has i then { s with dir := s.dir.map fun d => { d with holder := none } } else s

def State.saveRecord (s : State) (record : RecordFile) : State :=
  { s with dir := s.dir.map fun d => { d with record := record } }

/-- `removeMachine()`: whatever directory has the name is moved aside. -/
def State.removeState (s : State) (i : ℕ) : State :=
  { s with dir := none, removing := (s.dir.toList.map fun d => (i, d.incarnation)) ++ s.removing }

/-- What earlier removals have left, those of processes that are gone or its own. -/
def State.sweepAbandonedRemovals (s : State) (i : ℕ) : State :=
  { s with removing := s.removing.filter fun entry => entry.1 ≠ i ∧ s.ops entry.1 ≠ .finished }

inductive Event
  | lookup (i : ℕ) (kind : Kind)
  | look (i : ℕ)
  | ensureDir (i : ℕ)
  | acquire (i : ℕ)
  /-- The directory has gone before the lock was taken. -/
  | retry (i : ℕ)
  /-- The call throws before it holds the lock. -/
  | refuse (i : ℕ)
  | tear (i : ℕ)
  | write (i : ℕ) (createdAt : ℕ)
  | succeed (i : ℕ)
  | fail (i : ℕ)
  /-- A boot timeout or failed provisioning removes the new machine. -/
  | cleanup (i : ℕ)
  | relinquish (i : ℕ)
  | check (i : ℕ)
  | discard (i : ℕ) (succeeds : Bool)
  | leave (i : ℕ)
  | serve (i : ℕ) (createdAt : ℕ)
  | served (i : ℕ)
  | remove (i : ℕ)
  | orphanLook (i : ℕ)
  | orphanLock (i : ℕ)
  | orphanCheck (i : ℕ)
  | orphanRemove (i : ℕ) (succeeds : Bool)
  | sweep (i : ℕ)
  | crash (i : ℕ)
  deriving DecidableEq, Repr

def Event.actor : Event → ℕ
  | .lookup i _ | .look i | .ensureDir i | .acquire i | .retry i | .refuse i | .tear i | .write i _
  | .succeed i | .fail i | .cleanup i | .relinquish i | .check i | .discard i _
  | .leave i | .serve i _ | .served i | .remove i | .orphanLook i | .orphanLock i | .orphanCheck i
  | .orphanRemove i _ | .sweep i | .crash i => i

/-- The lock can be taken: the directory is there and no one holds it. -/
def State.free (s : State) : Bool := s.dir.any fun d => d.holder = none

def State.recordIs (s : State) (record : RecordFile) : Bool := s.dir.any fun d => d.record = record

def State.next (s : State) : Event → Option State
  | .lookup i .start =>
      match s.ops i with
      | .idle => if s.dir.isNone || s.recordIs .absent then some (s.goto i .named) else none
      | _ => none
  | .lookup i .add =>
      match s.ops i with
      | .idle => if s.dir.isNone then some (s.goto i (.looked .add true)) else none
      | _ => none
  | .look i =>
      match s.ops i with
      | .named => some (s.goto i (.looked .start s.dir.isNone))
      | _ => none
  | .ensureDir i =>
      match s.ops i with
      | .looked kind created => some (s.ensureDir.goto i (.ensured kind created))
      | _ => none
  | .acquire i =>
      match s.ops i with
      | .ensured kind created =>
          if s.free then
            -- a machine.json by now is another creation's
            if s.recordIs .absent then some ((s.hold i).goto i (.holding kind created))
            else some (s.goto i .finished)
          else none
      | _ => none
  | .retry i =>
      match s.ops i with
      | .ensured kind created => if s.dir.isNone then some (s.goto i (.looked kind created)) else none
      | _ => none
  | .refuse i =>
      match s.ops i with
      | .named | .looked .. | .ensured .. | .lent | .orphanLooked => some (s.goto i .finished)
      | _ => none
  | .tear i =>
      match s.ops i with
      | .holding .. => some (s.saveRecord .torn)
      | .serving createdAt => if s.recordIs (.whole createdAt) then some (s.saveRecord .torn) else none
      | _ => none
  | .write i createdAt =>
      match s.ops i with
      | .holding .. => if s.recordIs .torn then some (s.saveRecord (.whole createdAt)) else none
      | .serving at_ => if s.recordIs .torn then some (s.saveRecord (.whole at_)) else none
      | _ => none
  | .succeed i =>
      match s.ops i with
      | .holding .. => some (s.goto i .leaving)
      | _ => none
  | .fail i =>
      match s.ops i with
      | .holding kind created => some (s.goto i (.failing kind created))
      | _ => none
  | .cleanup i =>
      match s.ops i with
      | .holding .start created => some ((s.removeState i).goto i (.failing .start created))
      | _ => none
  | .relinquish i =>
      match s.ops i with
      | .holding .start _ => some ((s.release i).goto i .lent)
      | _ => none
  | .check i =>
      match s.ops i with
      | .failing _ created =>
          some (s.goto i (if created && s.isOrphanMachineDir then .condemned else .leaving))
      | _ => none
  | .discard i succeeds =>
      match s.ops i with
      | .condemned => some ((if succeeds then s.removeState i else s).goto i .leaving)
      | _ => none
  | .leave i =>
      match s.ops i with
      | .leaving => some ((s.release i).goto i .finished)
      | _ => none
  | .serve i createdAt =>
      match s.ops i with
      | .idle | .lent => if s.free then some ((s.hold i).goto i (.serving createdAt)) else none
      | _ => none
  | .served i =>
      match s.ops i with
      | .serving _ => some (s.goto i .leaving)
      | _ => none
  | .remove i =>
      match s.ops i with
      | .serving createdAt =>
          if s.recordIs (.whole createdAt) then some ((s.removeState i).goto i .leaving) else none
      | _ => none
  | .orphanLook i =>
      match s.ops i with
      | .idle => if s.isOrphanMachineDir then some (s.goto i .orphanLooked) else none
      | _ => none
  | .orphanLock i =>
      match s.ops i with
      | .orphanLooked => if s.free then some ((s.hold i).goto i .orphanHolding) else none
      | _ => none
  | .orphanCheck i =>
      match s.ops i with
      | .orphanHolding =>
          some (s.goto i (if s.isOrphanMachineDir then .orphanCondemned else .leaving))
      | _ => none
  | .orphanRemove i succeeds =>
      match s.ops i with
      | .orphanCondemned => some ((if succeeds then s.removeState i else s).goto i .leaving)
      | _ => none
  | .sweep i => some (s.sweepAbandonedRemovals i)
  | .crash i => some ((s.release i).goto i .finished)

def name : Transition.System State Event where
  Initial s := s.made = 0 ∧ s.dir = none ∧ s.removing = [] ∧ s.ops = fun _ => .idle
  next := State.next

/-- The error handler of a failed `start()` looks at no orphan but its own: the name is free, or its
record can be read, or the call still holds the lock of the directory. -/
def ownOrphan (s : State) : Event → Bool
  | .check i =>
      match s.ops i with
      | .failing .start true => !s.isOrphanMachineDir || s.has i
      | _ => true
  | _ => true

variable {s t : State} {i j : ℕ}

theorem has_unique (hi : s.has i = true) (hj : s.has j = true) : i = j := by
  obtain ⟨d, is, holds⟩ := (Option.any_eq_true _ _).mp hi
  obtain ⟨d', is', holds'⟩ := (Option.any_eq_true _ _).mp hj
  cases is.symm.trans is'
  exact Option.some.inj ((of_decide_eq_true holds).symm.trans (of_decide_eq_true holds'))

theorem has_hold (free : s.free = true) : (s.hold i).has i = true := by
  obtain ⟨d, is, -⟩ := (Option.any_eq_true _ _).mp free
  rw [State.hold, State.has, is, Option.map_some, Option.any_some, decide_eq_true_eq]

theorem not_has_of_free (free : s.free = true) : s.has j = false := by
  obtain ⟨d, is, none⟩ := (Option.any_eq_true _ _).mp free
  rw [State.has, is, Option.any_some, of_decide_eq_true none, decide_eq_false_iff_not]
  nofun

theorem has_saveRecord (record : RecordFile) : (s.saveRecord record).has j = s.has j := by
  rw [State.saveRecord, State.has, Option.any_map]
  rfl

theorem has_ensureDir (h : s.has j = true) : s.ensureDir.has j = true := by
  unfold State.ensureDir
  split
  · exact h
  · rename_i none
    rw [State.has, none] at h
    cases h

theorem has_release (other : j ≠ i) (h : s.has j = true) : (s.release i).has j = true := by
  unfold State.release
  split
  · rename_i own
    exact absurd (has_unique h own) other
  · exact h

/-- The operation is to hold the lock here. -/
def Phase.locked : Phase → Bool
  | .holding .. | .failing .add _ | .condemned | .serving _ | .orphanHolding | .orphanCondemned => true
  | _ => false

/-- The directory is still there, as the same incarnation. -/
def Keeps (s t : State) : Prop :=
  ∀ d, s.dir = some d → ∃ d', t.dir = some d' ∧ d'.incarnation = d.incarnation

theorem keeps_map {f : Dir → Dir} (is : t.dir = s.dir.map f)
    (same : ∀ d, (f d).incarnation = d.incarnation) : Keeps s t := by
  intro d was
  exact ⟨f d, by rw [is, was]; rfl, same d⟩

/-- What a step of `i` does: the others keep their phase and their lock, and the directory goes only
under the lock of `i`. -/
structure Moves (s : State) (i : ℕ) (t : State) : Prop where
  ops : ∀ j, j ≠ i → t.ops j = s.ops j
  others : ∀ j, j ≠ i → s.has j = true → t.has j = true
  own : (t.ops i).locked = true → t.has i = true
  keeps : Keeps s t ∨ s.has i = true

theorem goto_ops_ne {phase : Phase} (other : j ≠ i) : (s.goto i phase).ops j = s.ops j :=
  Function.update_of_ne other _ _

theorem goto_ops_self (s : State) (i : ℕ) (phase : Phase) : (s.goto i phase).ops i = phase :=
  Function.update_self _ _ _

theorem Moves.goto {phase : Phase} (own : phase.locked = true → s.has i = true) :
    Moves s i (s.goto i phase) where
  ops _ := goto_ops_ne
  others _ _ h := h
  own locked := own (by rwa [goto_ops_self] at locked)
  keeps := .inl fun d is => ⟨d, is, rfl⟩

theorem Moves.hold {phase : Phase} (free : s.free = true) : Moves s i ((s.hold i).goto i phase) where
  ops _ := goto_ops_ne
  others j _ h := by rw [not_has_of_free free] at h; cases h
  own _ := has_hold free
  keeps := .inl (keeps_map rfl fun _ => rfl)

theorem Moves.release {phase : Phase} (unlocked : phase.locked = false) :
    Moves s i ((s.release i).goto i phase) where
  ops j other := by
    rw [goto_ops_ne other]
    unfold State.release
    split <;> rfl
  others j other h := has_release other h
  own locked := by
    rw [goto_ops_self, unlocked] at locked
    cases locked
  keeps := by
    refine .inl ?_
    unfold State.release
    split
    · exact keeps_map rfl fun _ => rfl
    · exact fun d is => ⟨d, is, rfl⟩

theorem Moves.remove {phase : Phase} (held : s.has i = true) (unlocked : phase.locked = false) :
    Moves s i ((s.removeState i).goto i phase) where
  ops _ := goto_ops_ne
  others j other h := absurd (has_unique h held) other
  own locked := by
    rw [goto_ops_self, unlocked] at locked
    cases locked
  keeps := .inr held

theorem Moves.saveRecord (record : RecordFile) (held : s.has i = true) :
    Moves s i (s.saveRecord record) where
  ops _ _ := rfl
  others _ _ h := (has_saveRecord record).trans h
  own _ := (has_saveRecord record).trans held
  keeps := .inl (keeps_map rfl fun _ => rfl)

/-- Every operation that is to hold the lock does. -/
def Held (s : State) : Prop := ∀ i, (s.ops i).locked = true → s.has i = true

theorem Moves.held (moves : Moves s i t) (held : Held s) : Held t := by
  intro j locked
  by_cases own : j = i
  · subst own
    exact moves.own locked
  · rw [moves.ops j own] at locked
    exact moves.others j own (held j locked)

theorem moves_of_next {e : Event} (held : Held s) (own : ownOrphan s e = true)
    (step : s.next e = some t) : Moves s e.actor t := by
  have has : ∀ {i : ℕ} {phase : Phase}, s.ops i = phase → phase.locked = true → s.has i = true :=
    fun {i} {_} is locked => held i (by rw [is]; exact locked)
  cases e with
  | lookup i kind =>
      cases kind with
      | start =>
          simp only [State.next] at step
          split at step
          · obtain ⟨-, step⟩ := Option.ite_none_right_eq_some.mp step
            cases step
            exact .goto nofun
          · cases step
      | add =>
          simp only [State.next] at step
          split at step
          · obtain ⟨-, step⟩ := Option.ite_none_right_eq_some.mp step
            cases step
            exact .goto nofun
          · cases step
  | look i =>
      simp only [State.next] at step
      split at step
      · cases step
        exact .goto nofun
      · cases step
  | ensureDir i =>
      simp only [State.next] at step
      split at step
      · cases step
        refine ⟨fun j (other : j ≠ i) => ?_, fun j _ h => has_ensureDir h, fun locked => ?_,
          .inl fun d is => ?_⟩
        · rw [goto_ops_ne other]
          unfold State.ensureDir
          split <;> rfl
        · rw [Event.actor, goto_ops_self] at locked
          cases locked
        · refine ⟨d, ?_, rfl⟩
          show s.ensureDir.dir = some d
          rw [State.ensureDir, is]
          exact is
      · cases step
  | acquire i =>
      simp only [State.next] at step
      split at step
      · obtain ⟨free, step⟩ := Option.ite_none_right_eq_some.mp step
        split at step
        · cases step
          exact .hold free
        · cases step
          exact .goto nofun
      · cases step
  | retry i =>
      simp only [State.next] at step
      split at step
      · obtain ⟨-, step⟩ := Option.ite_none_right_eq_some.mp step
        cases step
        exact .goto nofun
      · cases step
  | refuse i =>
      simp only [State.next] at step
      split at step <;> cases step <;> exact .goto nofun
  | tear i =>
      simp only [State.next] at step
      split at step
      · rename_i at_
        cases step
        exact .saveRecord _ (has at_ rfl)
      · rename_i at_
        obtain ⟨-, step⟩ := Option.ite_none_right_eq_some.mp step
        cases step
        exact .saveRecord _ (has at_ rfl)
      · cases step
  | write i createdAt =>
      simp only [State.next] at step
      split at step
      · rename_i at_
        obtain ⟨-, step⟩ := Option.ite_none_right_eq_some.mp step
        cases step
        exact .saveRecord _ (has at_ rfl)
      · rename_i at_
        obtain ⟨-, step⟩ := Option.ite_none_right_eq_some.mp step
        cases step
        exact .saveRecord _ (has at_ rfl)
      · cases step
  | succeed i =>
      simp only [State.next] at step
      split at step
      · cases step
        exact .goto nofun
      · cases step
  | fail i =>
      simp only [State.next] at step
      split at step
      · rename_i kind created at_
        cases step
        exact .goto fun _ => has at_ rfl
      · cases step
  | cleanup i =>
      simp only [State.next] at step
      split at step
      · rename_i at_
        cases step
        exact .remove (has at_ rfl) rfl
      · cases step
  | relinquish i =>
      simp only [State.next] at step
      split at step
      · cases step
        exact .release rfl
      · cases step
  | check i =>
      simp only [State.next] at step
      split at step
      · rename_i kind created at_
        cases step
        refine .goto fun locked => ?_
        split at locked
        · rename_i found
          obtain ⟨here, orphan⟩ := Bool.and_eq_true_iff.mp found
          cases kind with
          | add => exact has at_ rfl
          | start =>
              rw [here] at at_
              rw [ownOrphan, at_] at own
              simp only [orphan, Bool.not_true, Bool.false_or] at own
              exact own
        · cases locked
      · cases step
  | discard i succeeds =>
      simp only [State.next] at step
      split at step
      · rename_i at_
        cases step
        cases succeeds with
        | true => exact .remove (has at_ rfl) rfl
        | false => exact .goto nofun
      · cases step
  | leave i =>
      simp only [State.next] at step
      split at step
      · cases step
        exact .release rfl
      · cases step
  | serve i createdAt =>
      simp only [State.next] at step
      split at step
      · obtain ⟨free, step⟩ := Option.ite_none_right_eq_some.mp step
        cases step
        exact .hold free
      · obtain ⟨free, step⟩ := Option.ite_none_right_eq_some.mp step
        cases step
        exact .hold free
      · cases step
  | served i =>
      simp only [State.next] at step
      split at step
      · cases step
        exact .goto nofun
      · cases step
  | remove i =>
      simp only [State.next] at step
      split at step
      · rename_i at_
        obtain ⟨-, step⟩ := Option.ite_none_right_eq_some.mp step
        cases step
        exact .remove (has at_ rfl) rfl
      · cases step
  | orphanLook i =>
      simp only [State.next] at step
      split at step
      · obtain ⟨-, step⟩ := Option.ite_none_right_eq_some.mp step
        cases step
        exact .goto nofun
      · cases step
  | orphanLock i =>
      simp only [State.next] at step
      split at step
      · obtain ⟨free, step⟩ := Option.ite_none_right_eq_some.mp step
        cases step
        exact .hold free
      · cases step
  | orphanCheck i =>
      simp only [State.next] at step
      split at step
      · rename_i at_
        cases step
        exact .goto fun _ => has at_ rfl
      · cases step
  | orphanRemove i succeeds =>
      simp only [State.next] at step
      split at step
      · rename_i at_
        cases step
        cases succeeds with
        | true => exact .remove (has at_ rfl) rfl
        | false => exact .goto nofun
      · cases step
  | sweep i =>
      cases step
      exact ⟨fun _ _ => rfl, fun _ _ h => h, fun locked => held i locked, .inl fun d is => ⟨d, is, rfl⟩⟩
  | crash i =>
      cases step
      exact .release rfl

theorem Held.of_reachable (h : name.ReachableUnder (fun s e => ownOrphan s e = true) s) : Held s :=
  h.invariant (fun s start i locked => by
      rw [start.2.2.2] at locked
      cases locked)
    fun _ _ _ _ held own step => (moves_of_next held own step).held held

/-- A step after which the directory is gone, or another one, is of the operation that held its
lock. -/
theorem removed_by_its_holder {s t : State} {e : Event} {d : Dir}
    (h : name.ReachableUnder (fun s e => ownOrphan s e = true) s) (own : ownOrphan s e = true)
    (step : s.next e = some t) (was : s.dir = some d)
    (gone : ∀ d', t.dir = some d' → d'.incarnation ≠ d.incarnation) : d.holder = some e.actor := by
  rcases (moves_of_next (Held.of_reachable h) own step).keeps with keeps | held
  · obtain ⟨d', is, same⟩ := keeps d was
    exact absurd same (gone d' is)
  · rw [State.has, was, Option.any_some] at held
    exact of_decide_eq_true held

def nothing : State := { dir := none, made := 0, removing := [], ops := fun _ => .idle }

/-- `start()` up to its lock in a directory it has made. -/
def startCreates (i : ℕ) : List Event := [.lookup i .start, .look i, .ensureDir i, .acquire i]

def addCreates (i : ℕ) : List Event := [.lookup i .add, .ensureDir i, .acquire i]

theorem removed_by_its_holder_failed_start : ∃ s t : State, ∃ d,
    s.next (.discard 0 true) = some t ∧ s.dir = some d ∧ t.dir = none ∧ d.holder = some 0 := by
  obtain ⟨s, reachable, condemned, was⟩ := Transition.System.exists_reachable
    (S := name.restrict fun s e => ownOrphan s e = true)
    (P := fun s => s.ops 0 = .condemned ∧ s.dir = some ⟨0, some 0, .absent⟩)
    (startCreates 0 ++ [.fail 0, .check 0]) (s := nothing) ⟨rfl, rfl, rfl, rfl⟩ (by decide +kernel)
  have step : s.next (.discard 0 true) = some ((s.removeState 0).goto 0 .leaving) := by
    rw [State.next, condemned]
    rfl
  exact ⟨s, _, _, step, was, rfl, removed_by_its_holder (e := .discard 0 true)
    (Transition.System.ReachableUnder.of_restrict reachable) rfl step was nofun⟩

/-- The boot timeout of `start()` removes its machine, and `add()` makes one of that name before the
error handler looks at it. -/
def recreated : List Event :=
  startCreates 0 ++ [.tear 0, .write 0 7, .cleanup 0] ++ addCreates 1 ++ [.check 0]

theorem removed_by_its_holder_fails :
    (¬ ∀ (s t : State) (e : Event) (d : Dir), name.Reachable s → s.next e = some t →
      s.dir = some d → (∀ d', t.dir = some d' → d'.incarnation ≠ d.incarnation) →
      d.holder = some e.actor) ∧
    ∃ s t, name.replay nothing recreated = some s ∧ s.next (.discard 0 true) = some t ∧
      s.dir = some ⟨1, some 1, .absent⟩ ∧ s.ops 1 = .holding .add true ∧ t.dir = none := by
  have other : ∃ s t, name.replay nothing recreated = some s ∧ s.next (.discard 0 true) = some t ∧
      s.dir = some ⟨1, some 1, .absent⟩ ∧ s.ops 1 = .holding .add true ∧ t.dir = none :=
    ⟨_, _, rfl, rfl, rfl, rfl, rfl⟩
  refine ⟨fun claim => ?_, other⟩
  obtain ⟨s, t, run, step, was, -, gone⟩ := other
  have held := claim s t (.discard 0 true) _
    (Transition.System.reachable_of_replay ⟨rfl, rfl, rfl, rfl⟩ run) step was
    (by rw [gone]; nofun)
  cases held

end Quickchr.MachineDirectory
