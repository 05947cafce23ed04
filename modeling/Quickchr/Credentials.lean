import Quickchr.Lib.Record
import Quickchr.Lib.Transition
import Quickchr.Names

/-!
# Stored credentials

The credentials of all machines are the values of one JSON file. A save or delete reads the
file, changes the entry of its machine and writes all entries back, by a truncation and a
write; what cannot be parsed reads as an empty store. No lock orders the processes.
-/
namespace Quickchr.Credentials

structure InstanceCredentials where
  user : String
  password : String
  deriving DecidableEq, Repr

/-- The text of an entry: credentials as they were saved, or what does not parse to any. -/
inductive Value
  | saved (credentials : InstanceCredentials)
  | corrupt
  deriving DecidableEq, Repr

/-- The file: not there, cut off, or the entries of a store. -/
inductive File
  | absent
  | torn
  | holds (store : Record Value)
  deriving DecidableEq, Repr

def readConfigStore : File → Record Value
  | .absent => []
  | .torn => []
  | .holds store => store

def Value.parse : Value → Option InstanceCredentials
  | .saved credentials => some credentials
  | .corrupt => none

/-- The credentials in a store. What every object inherits parses to none. -/
def credentials (store : Record Value) (machineName : String) : Option InstanceCredentials :=
  (store.get machineName).bind Value.parse

def getInstanceCredentials (file : File) (machineName : String) : Option InstanceCredentials :=
  credentials (readConfigStore file) machineName

/-- The properties of an empty object whose names a machine can have. -/
def inherited : List String :=
  ["constructor", "hasOwnProperty", "isPrototypeOf", "propertyIsEnumerable", "toString",
    "valueOf", "toLocaleString"]

/-- A machine's name. It starts with a letter or a digit, so it is never `__proto__`. -/
abbrev MachineName := { name : String // VALID_NAME name = true }

inductive Call
  | saveInstanceCredentials (machine : MachineName) (credentials : InstanceCredentials)
  | deleteInstanceCredentials (machine : MachineName)
  deriving DecidableEq

def Call.machine : Call → MachineName
  | .saveInstanceCredentials machine _ => machine
  | .deleteInstanceCredentials machine => machine

/-- What a reader is to find of the machine after the call. -/
def Call.leaves : Call → Option InstanceCredentials
  | .saveInstanceCredentials _ credentials => some credentials
  | .deleteInstanceCredentials _ => none

/-- The store a call writes back; `none` when it finds nothing to delete. -/
def Call.apply (store : Record Value) : Call → Option (Record Value)
  | .saveInstanceCredentials machine credentials => some (store.set machine (.saved credentials))
  | .deleteInstanceCredentials machine =>
      if (store.get machine).isNone ∧ machine.val ∉ inherited then none
      else some (store.erase machine)

/-- Where a call is. `since` is the number of calls that had returned when it read the file. -/
inductive Phase
  | begun
  | truncating (store : Record Value) (since : ℕ)
  | writing (store : Record Value) (since : ℕ)
  /-- Returned, or dead with its process. -/
  | finished
  deriving DecidableEq

structure State where
  file : File
  calls : List (Call × Phase)
  returned : ℕ
  /-- For a machine whose last call has returned, what that call leaves. -/
  promised : Record (Option InstanceCredentials)

inductive Event
  | begin (call : Call)
  | read (i : ℕ)
  | truncate (i : ℕ)
  | write (i : ℕ)
  | crash (i : ℕ)

def State.goto (s : State) (i : ℕ) (call : Call) (phase : Phase) : State :=
  { s with calls := s.calls.set i (call, phase) }

def State.return (s : State) (i : ℕ) (call : Call) : State :=
  { s.goto i call .finished with
    returned := s.returned + 1
    promised := s.promised.set call.machine call.leaves }

/-- Calls that overlap are for different machines. -/
def State.free (s : State) (machine : MachineName) : Bool :=
  s.calls.all fun c => c.2 = .finished ∨ c.1.machine ≠ machine

def State.next (s : State) : Event → Option State
  | .begin call =>
      if s.free call.machine then
        some { s with
          calls := s.calls ++ [(call, .begun)]
          promised := s.promised.erase call.machine }
      else none
  | .read i =>
      match s.calls[i]? with
      | some (call, .begun) =>
          match call.apply (readConfigStore s.file) with
          | some store => some (s.goto i call (.truncating store s.returned))
          | none => some (s.return i call)
      | _ => none
  | .truncate i =>
      match s.calls[i]? with
      | some (call, .truncating store since) =>
          some { s.goto i call (.writing store since) with file := .torn }
      | _ => none
  | .write i =>
      match s.calls[i]? with
      | some (call, .writing store _) => some { s.return i call with file := .holds store }
      | _ => none
  | .crash i =>
      match s.calls[i]? with
      | some (call, _) => some (s.goto i call .finished)
      | none => none

def processes : Transition.System State Event where
  Initial s := s.calls = [] ∧ s.returned = 0 ∧ s.promised = []
  next := State.next

/-- The file is truncated while no machine has saved credentials, and a store written back while
no call has returned since it was read. -/
def undisturbed (s : State) : Event → Bool
  | .truncate _ => s.promised.all fun e => e.2.isNone
  | .write i =>
      match s.calls[i]? with
      | some (_, .writing _ since) => since = s.returned
      | _ => true
  | _ => true

theorem Call.apply_none {call : Call} {store : Record Value} (h : call.apply store = none) :
    credentials store call.machine = call.leaves := by
  cases call with
  | saveInstanceCredentials machine c => cases h
  | deleteInstanceCredentials machine =>
      have absent : (store.get machine).isNone ∧ machine.val ∉ inherited := by
        by_contra present
        rw [apply, if_neg present] at h
        cases h
      rw [credentials, Call.machine, Option.isNone_iff_eq_none.mp absent.1]
      rfl

/-- What a call writes: its own entry, and the other entries as it has read them. -/
theorem Call.apply_some {call : Call} {store written : Record Value}
    (h : call.apply store = some written) :
    credentials written call.machine = call.leaves ∧
      ∀ m : String, m ≠ call.machine → credentials written m = credentials store m := by
  cases call with
  | saveInstanceCredentials machine c =>
      cases h
      refine ⟨?_, fun m other => ?_⟩
      · rw [credentials, Call.machine, Record.get_set_self]; rfl
      · rw [Call.machine] at other
        rw [credentials, Record.get_set_ne _ _ _ other, credentials]
  | deleteInstanceCredentials machine =>
      obtain ⟨-, h⟩ := Option.ite_none_left_eq_some.mp h
      cases h
      refine ⟨?_, fun m other => ?_⟩
      · rw [credentials, Call.machine, Record.get_erase_self]; rfl
      · rw [Call.machine] at other
        rw [credentials, Record.get_erase_ne _ _ other, credentials]

/-- A store that a call has in memory: its own entry is right, and so are the others as long as
no call has returned since it was read. -/
structure Pending (s : State) (call : Call) (store : Record Value) (since : ℕ) : Prop where
  leaves : credentials store call.machine = call.leaves
  before : since ≤ s.returned
  others : since = s.returned → ∀ (m : String) (c : Option InstanceCredentials),
    m ≠ call.machine → s.promised.get m = some c → credentials store m = c

def Phase.Kept (s : State) (call : Call) : Phase → Prop
  | .begun | .finished => True
  | .truncating store since | .writing store since => Pending s call store since

structure Kept (s : State) : Prop where
  file : ∀ (m : String) (c : Option InstanceCredentials),
    s.promised.get m = some c → getInstanceCredentials s.file m = c
  calls : ∀ c ∈ s.calls, c.2.Kept s c.1

theorem mem_set {α : Type*} {l : List α} {i : ℕ} {x y : α} (h : y ∈ l.set i x) : y = x ∨ y ∈ l :=
  (List.mem_or_eq_of_mem_set h).symm

/-- A phase stays as it was when promises are only withdrawn, or a call has returned. -/
theorem Phase.Kept.mono {s t : State} {call : Call} {phase : Phase} (h : phase.Kept s call)
    (returned : s.returned ≤ t.returned)
    (promised : s.returned = t.returned → ∀ (m : String) (c : Option InstanceCredentials),
      t.promised.get m = some c → s.promised.get m = some c) : phase.Kept t call := by
  have pending : ∀ {store since}, Pending s call store since → Pending t call store since :=
    fun h => ⟨h.leaves, h.before.trans returned, fun same m c other is =>
      h.others (Nat.le_antisymm h.before (same ▸ returned)) m c other
        (promised (Nat.le_antisymm returned (same ▸ h.before)) m c is)⟩
  cases phase with
  | begun => trivial
  | finished => trivial
  | truncating store since => exact pending h
  | writing store since => exact pending h

theorem Kept.goto {s : State} (kept : Kept s) {i : ℕ} {call : Call} {phase : Phase}
    (holds : phase.Kept s call) : Kept (s.goto i call phase) := by
  refine ⟨kept.file, fun c member => ?_⟩
  rcases mem_set member with rfl | member
  · exact holds.mono le_rfl fun _ _ _ is => is
  · exact (kept.calls c member).mono le_rfl fun _ _ _ is => is

/-- A call returns with a file that has its own entry and keeps the promises of the others. -/
theorem Kept.return {s : State} (kept : Kept s) {i : ℕ} {call : Call} {file : File}
    (own : getInstanceCredentials file call.machine = call.leaves)
    (others : ∀ (m : String) (c : Option InstanceCredentials), m ≠ call.machine →
      s.promised.get m = some c → getInstanceCredentials file m = c) :
    Kept { s.return i call with file := file } := by
  refine ⟨fun m c is => ?_, fun c member => ?_⟩
  · by_cases same : m = call.machine
    · rw [same] at is ⊢
      rw [State.return, Record.get_set_self] at is
      exact own.trans (Option.some.inj is)
    · rw [State.return, Record.get_set_ne _ _ _ same] at is
      exact others m c same is
  · have left : c ∈ s.calls.set i (call, .finished) := member
    rcases mem_set left with rfl | member
    · trivial
    · exact (kept.calls c member).mono (Nat.le_succ _) fun same => absurd same (Nat.succ_ne_self _).symm

theorem Kept.step {s t : State} {e : Event} (kept : Kept s) (calm : undisturbed s e = true)
    (step : s.next e = some t) : Kept t := by
  cases e with
  | begin call =>
      obtain ⟨-, step⟩ := Option.ite_none_right_eq_some.mp step
      cases step
      have fewer := fun m c => @Record.get_of_get_erase _ s.promised call.machine m c
      refine ⟨fun m c is => kept.file m c (fewer m c is), fun c member => ?_⟩
      rcases List.mem_append.mp member with member | member
      · exact (kept.calls c member).mono le_rfl fun _ => fewer
      · rw [List.mem_singleton.mp member]
        trivial
  | read i =>
      simp only [State.next] at step
      split at step
      · rename_i call _
        split at step
        · rename_i store wrote
          cases step
          obtain ⟨own, others⟩ := Call.apply_some wrote
          exact kept.goto ⟨own, le_rfl, fun _ m c other is =>
            (others m other).trans (kept.file m c is)⟩
        · rename_i nothing
          cases step
          exact kept.return (Call.apply_none nothing) fun m c _ is => kept.file m c is
      · cases step
  | truncate i =>
      simp only [State.next] at step
      split at step
      · rename_i call store since at_
        cases step
        have moved : Kept (s.goto i call (.writing store since)) := kept.goto
          (kept.calls _ (List.mem_of_getElem? at_))
        refine ⟨fun m c is => ?_, fun c member => ?_⟩
        · have deleted := List.all_eq_true.mp calm _ (Record.mem_of_get is)
          exact (Option.isNone_iff_eq_none.mp deleted).symm
        · exact (moved.calls c member).mono le_rfl fun _ _ _ is => is
      · cases step
  | write i =>
      simp only [State.next] at step
      split at step
      · rename_i call store since at_
        cases step
        simp only [undisturbed, at_, decide_eq_true_eq] at calm
        have pending : Pending s call store since := kept.calls _ (List.mem_of_getElem? at_)
        exact kept.return pending.leaves fun m c other is => pending.others calm m c other is
      · cases step
  | crash i =>
      simp only [State.next] at step
      split at step
      · cases step
        exact kept.goto trivial
      · cases step

theorem Kept.of_reachable {s : State}
    (h : processes.ReachableUnder (fun s e => undisturbed s e = true) s) : Kept s :=
  h.invariant (fun s start => by
      obtain ⟨none, -, nothing⟩ := start
      refine ⟨fun m c is => ?_, fun c member => ?_⟩
      · rw [nothing] at is
        cases is
      · rw [none] at member
        cases member)
    fun _ _ _ _ kept calm step => kept.step calm step

def Phase.inside : Phase → Bool
  | .truncating .. | .writing .. => true
  | .begun | .finished => false

def Phase.isWriting : Phase → Bool
  | .writing .. => true
  | _ => false

/-- A call reads while no other is between its read and its write, and none dies with the file
cut off. -/
def ordered (s : State) : Event → Bool
  | .read _ => s.calls.all fun c => !c.2.inside
  | .crash i => s.calls[i]?.all fun c => !c.2.isWriting
  | _ => true

/-- What is promised of the machines other than the call's is in its store. -/
def Phase.Agrees (s : State) (call : Call) : Phase → Prop
  | .begun | .finished => True
  | .truncating store _ | .writing store _ =>
      credentials store call.machine = call.leaves ∧
        ∀ (m : String) (c : Option InstanceCredentials),
          m ≠ call.machine → s.promised.get m = some c → credentials store m = c

structure Ordered (s : State) : Prop where
  one : ∀ (i j : ℕ) (c d : Call × Phase), s.calls[i]? = some c → s.calls[j]? = some d →
    c.2.inside → d.2.inside → i = j
  calls : ∀ c ∈ s.calls, c.2.Agrees s c.1
  file : (∀ c ∈ s.calls, ¬ c.2.isWriting) → ∀ (m : String) (c : Option InstanceCredentials),
    s.promised.get m = some c → getInstanceCredentials s.file m = c

theorem Phase.Agrees.of_outside {s : State} {call : Call} {phase : Phase}
    (outside : ¬ phase.inside) : phase.Agrees s call := by
  cases phase with
  | begun => trivial
  | finished => trivial
  | truncating store since => exact absurd rfl outside
  | writing store since => exact absurd rfl outside

theorem Phase.Agrees.mono {s t : State} {call : Call} {phase : Phase} (h : phase.Agrees s call)
    (promised : ∀ (m : String) (c : Option InstanceCredentials),
      t.promised.get m = some c → s.promised.get m = some c) : phase.Agrees t call := by
  cases phase with
  | begun => trivial
  | finished => trivial
  | truncating store since => exact ⟨h.1, fun m c other is => h.2 m c other (promised m c is)⟩
  | writing store since => exact ⟨h.1, fun m c other is => h.2 m c other (promised m c is)⟩

theorem getElem_set {α : Type*} {l : List α} {i j : ℕ} {x y : α} (h : (l.set i x)[j]? = some y) :
    i = j ∧ y = x ∨ i ≠ j ∧ l[j]? = some y := by
  by_cases same : i = j
  · subst same
    rw [List.getElem?_set, if_pos rfl] at h
    split at h
    · cases h
      exact .inl ⟨rfl, rfl⟩
    · cases h
  · exact .inr ⟨same, (List.getElem?_set_ne same).symm.trans h⟩

/-- The call that a step moves was inside already, or no other is. -/
theorem Ordered.one_set {s : State} (order : Ordered s) {i : ℕ} {call : Call} {phase : Phase}
    (alone : phase.inside → ∀ (j : ℕ) (c : Call × Phase), i ≠ j → s.calls[j]? = some c →
      ¬ c.2.inside) :
    ∀ (j k : ℕ) (c d : Call × Phase), (s.calls.set i (call, phase))[j]? = some c →
      (s.calls.set i (call, phase))[k]? = some d → c.2.inside → d.2.inside → j = k := by
  intro j k c d atj atk insideJ insideK
  rcases getElem_set atj with ⟨rfl, rfl⟩ | ⟨nej, atj⟩ <;>
    rcases getElem_set atk with ⟨rfl, rfl⟩ | ⟨nek, atk⟩
  · rfl
  · exact absurd insideK (alone insideJ k d nek atk)
  · exact absurd insideJ (alone insideK j c nej atj)
  · exact order.one j k c d atj atk insideJ insideK

/-- A call that goes on to be inside, or leaves without touching the file. -/
theorem Ordered.goto {s : State} (order : Ordered s) {i : ℕ} {call : Call} {phase : Phase}
    (alone : phase.inside → ∀ (j : ℕ) (c : Call × Phase), i ≠ j → s.calls[j]? = some c →
      ¬ c.2.inside)
    (agrees : phase.Agrees s call)
    (before : (∀ c ∈ s.calls.set i (call, phase), ¬ c.2.isWriting) → ∀ c ∈ s.calls, ¬ c.2.isWriting) :
    Ordered (s.goto i call phase) := by
  refine ⟨order.one_set alone, fun c member => ?_, fun none => order.file (before none)⟩
  rcases mem_set member with rfl | member
  · exact agrees.mono fun _ _ is => is
  · exact (order.calls c member).mono fun _ _ is => is

theorem Ordered.others {s : State} (order : Ordered s) {i : ℕ} {call : Call} {phase : Phase}
    (at_ : s.calls[i]? = some (call, phase)) (inside : phase.inside) (j : ℕ) (c : Call × Phase)
    (ne : i ≠ j) (other : s.calls[j]? = some c) : ¬ c.2.inside :=
  fun isInside => ne (order.one i j _ c at_ other inside isInside)

theorem Phase.isWriting_inside {phase : Phase} (h : phase.isWriting) : phase.inside := by
  cases phase with
  | writing store since => rfl
  | begun => cases h
  | truncating store since => cases h
  | finished => cases h

theorem set_not_writing {s : State} {i : ℕ} {call : Call} {phase after : Phase}
    (at_ : s.calls[i]? = some (call, phase)) (still : ¬ phase.isWriting)
    (h : ∀ c ∈ s.calls.set i (call, after), ¬ c.2.isWriting) : ∀ c ∈ s.calls, ¬ c.2.isWriting := by
  intro c member
  obtain ⟨j, is⟩ := List.mem_iff_getElem?.mp member
  by_cases same : i = j
  · subst same
    cases at_.symm.trans is
    exact still
  · exact h c (List.mem_of_getElem? ((List.getElem?_set_ne same).trans is))

theorem Ordered.return {s : State} (order : Ordered s) {i : ℕ} {call : Call} {file : File}
    (alone : ∀ (j : ℕ) (c : Call × Phase), i ≠ j → s.calls[j]? = some c → ¬ c.2.inside)
    (own : getInstanceCredentials file call.machine = call.leaves)
    (others : ∀ (m : String) (c : Option InstanceCredentials), m ≠ call.machine →
      s.promised.get m = some c → getInstanceCredentials file m = c) :
    Ordered { s.return i call with file := file } := by
  refine ⟨order.one_set fun inside => absurd inside Bool.false_ne_true, fun c member => ?_,
    fun _ m c is => ?_⟩
  · obtain ⟨j, is⟩ := List.mem_iff_getElem?.mp member
    rcases getElem_set is with ⟨rfl, rfl⟩ | ⟨ne, is⟩
    · trivial
    · exact .of_outside (alone j c ne is)
  · by_cases same : m = call.machine
    · rw [same] at is ⊢
      rw [State.return, Record.get_set_self] at is
      exact own.trans (Option.some.inj is)
    · rw [State.return, Record.get_set_ne _ _ _ same] at is
      exact others m c same is

theorem Ordered.step {s t : State} {e : Event} (order : Ordered s) (calm : ordered s e = true)
    (step : s.next e = some t) : Ordered t := by
  cases e with
  | begin call =>
      obtain ⟨-, step⟩ := Option.ite_none_right_eq_some.mp step
      cases step
      have fewer := fun m c => @Record.get_of_get_erase _ s.promised call.machine m c
      have older : ∀ (j : ℕ) (c : Call × Phase), (s.calls ++ [(call, .begun)])[j]? = some c →
          c.2.inside → s.calls[j]? = some c := by
        intro j c is inside
        rw [List.getElem?_append] at is
        split at is
        · exact is
        · rw [List.getElem?_singleton] at is
          split at is
          · cases is; cases inside
          · cases is
      refine ⟨fun j k c d atj atk insideJ insideK => order.one j k c d (older j c atj insideJ)
          (older k d atk insideK) insideJ insideK, fun c member => ?_, fun none m c is => ?_⟩
      · rcases List.mem_append.mp member with member | member
        · exact (order.calls c member).mono fewer
        · rw [List.mem_singleton.mp member]
          trivial
      · exact order.file (fun c member => none c (List.mem_append_left _ member)) m c (fewer m c is)
  | read i =>
      have outside : ∀ c ∈ s.calls, ¬ c.2.inside := by
        intro c member
        have outside := List.all_eq_true.mp calm c member
        rw [Bool.not_eq_true'] at outside
        exact Bool.eq_false_iff.mp outside
      have alone : ∀ (j : ℕ) (c : Call × Phase), i ≠ j → s.calls[j]? = some c → ¬ c.2.inside :=
        fun j c _ is => outside c (List.mem_of_getElem? is)
      have kept := order.file fun c member writing =>
        outside c member (Phase.isWriting_inside writing)
      simp only [State.next] at step
      split at step
      · rename_i call at_
        split at step
        · rename_i store wrote
          cases step
          obtain ⟨own, others⟩ := Call.apply_some wrote
          exact order.goto (fun _ => alone)
            ⟨own, fun m c other is => (others m other).trans (kept m c is)⟩
            (set_not_writing at_ Bool.false_ne_true)
        · rename_i nothing
          cases step
          exact order.return alone (Call.apply_none nothing) fun m c _ is => kept m c is
      · cases step
  | truncate i =>
      simp only [State.next] at step
      split at step
      · rename_i call store since at_
        cases step
        have moved := order.calls _ (List.mem_of_getElem? at_)
        refine ⟨order.one_set fun _ => order.others at_ rfl, fun c member => ?_, fun none => ?_⟩
        · rcases mem_set member with rfl | member
          · exact moved.mono fun _ _ is => is
          · exact (order.calls c member).mono fun _ _ is => is
        · have bound := (List.getElem?_eq_some_iff.mp at_).1
          exact absurd rfl (none _ (List.mem_of_getElem? (List.getElem?_set_self bound)))
      · cases step
  | write i =>
      simp only [State.next] at step
      split at step
      · rename_i call store since at_
        cases step
        obtain ⟨own, others⟩ := order.calls _ (List.mem_of_getElem? at_)
        exact order.return (order.others at_ rfl) own others
      · cases step
  | crash i =>
      simp only [State.next] at step
      split at step
      · rename_i call phase at_
        cases step
        rw [ordered, at_, Option.all_some, Bool.not_eq_true'] at calm
        exact order.goto (fun inside => absurd inside Bool.false_ne_true) trivial
          (set_not_writing at_ (Bool.eq_false_iff.mp calm))
      · cases step

/-- Calls in order, as those of one process are: whenever no call is in the middle of its write,
a reader finds what the machine's last call leaves. -/
theorem credentials_kept_in_order {s : State}
    (h : processes.ReachableUnder (fun s e => ordered s e = true) s)
    (settled : ∀ c ∈ s.calls, ¬ c.2.isWriting) {machine : MachineName}
    {c : Option InstanceCredentials} (last : s.promised.get machine = some c) :
    getInstanceCredentials s.file machine = c := by
  have order : Ordered s := by
    refine h.invariant (fun s start => ?_) fun _ _ _ _ order calm step => order.step calm step
    obtain ⟨none, -, nothing⟩ := start
    refine ⟨fun i j c d is => ?_, fun c member => ?_, fun _ m c is => ?_⟩
    · rw [none] at is
      cases is
    · rw [none] at member
      cases member
    · rw [nothing] at is
      cases is
  exact order.file settled machine c last

/-- A reader finds what the machine's last call leaves, in the runs where no file with saved
credentials is truncated and no store is written back that another call has overtaken. -/
theorem instance_credentials_kept {s : State} {machine : MachineName}
    {c : Option InstanceCredentials}
    (h : processes.ReachableUnder (fun s e => undisturbed s e = true) s)
    (last : s.promised.get machine = some c) : getInstanceCredentials s.file machine = c :=
  (Kept.of_reachable h).file machine c last

def edge : MachineName := ⟨"edge", by decide⟩
def core : MachineName := ⟨"core", by decide⟩

def saveOf (machine : MachineName) : Call :=
  .saveInstanceCredentials machine { user := "quickchr", password := machine.val ++ "-secret" }

/-- The steps of one call, from its read to its write. -/
def steps (i : ℕ) : List Event := [.read i, .truncate i, .write i]

def fresh : State := { file := .absent, calls := [], returned := 0, promised := [] }

theorem instance_credentials_kept_edge : ∃ s : State,
    s.promised.get "edge" = some (some ⟨"quickchr", "edge-secret"⟩) ∧
      getInstanceCredentials s.file "edge" = some ⟨"quickchr", "edge-secret"⟩ := by
  obtain ⟨s, reachable, last⟩ := Transition.System.exists_reachable
    (S := processes.restrict fun s e => undisturbed s e = true)
    (P := fun s => s.promised.get edge = some (some ⟨"quickchr", "edge-secret"⟩))
    (.begin (saveOf edge) :: steps 0 ++ [.begin (saveOf core), .read 1, .crash 1]) (s := fresh)
    ⟨rfl, rfl, rfl⟩ (by decide +kernel)
  exact ⟨s, last, instance_credentials_kept
    (Transition.System.ReachableUnder.of_restrict reachable) last⟩

/-- Both calls read before either writes: the second puts back a store without the first. -/
def overwritten : List Event :=
  [.begin (saveOf edge), .begin (saveOf core), .read 0, .read 1, .truncate 0, .write 0,
    .truncate 1, .write 1]

/-- A call dies between its truncation and its write; the next one starts from an empty store. -/
def cutOff : List Event :=
  .begin (saveOf edge) :: steps 0 ++ [.begin (saveOf core), .read 1, .truncate 1, .crash 1] ++
    .begin (saveOf core) :: steps 2

theorem instance_credentials_kept_fails :
    (¬ ∀ s, processes.Reachable s → ∀ (m : MachineName) (c : Option InstanceCredentials),
      s.promised.get m = some c → getInstanceCredentials s.file m = c) ∧
    ∀ run ∈ [overwritten, cutOff], ∃ s, processes.replay fresh run = some s ∧
      s.promised.get edge = some (some ⟨"quickchr", "edge-secret"⟩) ∧
      getInstanceCredentials s.file edge = none ∧
      getInstanceCredentials s.file core = some ⟨"quickchr", "core-secret"⟩ := by
  have lost : ∀ run ∈ [overwritten, cutOff], ∃ s, processes.replay fresh run = some s ∧
      s.promised.get edge = some (some ⟨"quickchr", "edge-secret"⟩) ∧
      getInstanceCredentials s.file edge = none ∧
      getInstanceCredentials s.file core = some ⟨"quickchr", "core-secret"⟩ := by
    intro run member
    rcases List.mem_pair.mp member with rfl | rfl
    · exact ⟨_, rfl, by decide +kernel, by decide +kernel, by decide +kernel⟩
    · exact ⟨_, rfl, by decide +kernel, by decide +kernel, by decide +kernel⟩
  refine ⟨fun claim => ?_, lost⟩
  obtain ⟨s, run, last, gone, -⟩ := lost overwritten List.mem_cons_self
  have found := claim s (Transition.System.reachable_of_replay ⟨rfl, rfl, rfl⟩ run) edge _ last
  rw [gone] at found
  cases found

end Quickchr.Credentials
