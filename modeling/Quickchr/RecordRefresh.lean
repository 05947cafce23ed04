import Quickchr.StoppedRecords
import Mathlib.Logic.Function.Basic

/-!
# Refreshing a record without the lock

`list()` and `get()` read `machine.json`, test whether the QEMU it names is alive and write the
whole record back as stopped, all without the machine lock. What the lock holder saved stays, as
long as a refresh saves only over the record it has read.
-/
namespace Quickchr.Lifecycle

/-- Where a `list()` or `get()` is with this machine. -/
inductive Refresh
  | idle
  | loaded (m : MachineState)
  /-- The record says running and its QEMU is dead. -/
  | dead (m : MachineState)
  deriving DecidableEq

structure Shared where
  machine : State
  /-- The record as the last operation under the lock left it. -/
  base : Option MachineState
  refreshes : ℕ → Refresh

inductive Access
  | step (e : Event)
  | load (reader : ℕ)
  | test (reader : ℕ)
  | save (reader : ℕ)

/-- `saveMachine` by a reader: the lock holder's count of saves stays. -/
def Shared.refresh (s : Shared) (reader : ℕ) (m : MachineState) : Shared :=
  { s with
    machine := { s.machine with record := some m, signalled := none, undone := none }
    refreshes := Function.update s.refreshes reader .idle }

def Shared.goto (s : Shared) (reader : ℕ) (phase : Refresh) : Shared :=
  { s with refreshes := Function.update s.refreshes reader phase }

/-- The lock holder has taken a step to `t`. -/
def Shared.advanced (s : Shared) (t : State) : Shared :=
  { s with machine := t, base := if t.version = s.machine.version then s.base else t.record }

def Shared.next (s : Shared) : Access → Option Shared
  | .step e => (Lifecycle.next s.machine e).map s.advanced
  | .load reader =>
      match s.refreshes reader, s.machine.record with
      | .idle, some m => some (s.goto reader (.loaded m))
      | _, _ => none
  | .test reader =>
      match s.refreshes reader with
      | .loaded m =>
          some (s.goto reader
            (if m.status = .running ∧ !s.machine.isMachineRunning m then .dead m else .idle))
      | _ => none
  | .save reader =>
      match s.refreshes reader with
      | .dead m => some (s.refresh reader m.stopped)
      | _ => none

def shared : Transition.System Shared Access where
  Initial s := s = ⟨.init, none, fun _ => .idle⟩
  next := Shared.next

/-- A refresh saves over the record it has read, or over that record stopped already. -/
def standsStill (s : Shared) : Access → Bool
  | .save reader =>
      match s.refreshes reader with
      | .dead m => s.machine.record = some m ∨ s.machine.record = some m.stopped
      | _ => true
  | _ => true

/-- The record of a QEMU that has died. -/
structure Dead (s : State) (m : MachineState) : Prop where
  running : m.status = .running
  dead : ∀ p, m.pid = some p → s.alive p = false

/-- The record is what the lock holder left, or that record refreshed. -/
def Stands (s : State) (base : Option MachineState) : Prop :=
  s.record = base ∨ ∃ b, base = some b ∧ s.record = some b.stopped ∧ Dead s b

/-- The record says that the QEMU `p` runs. -/
structure Names (m : MachineState) (p : Pid) : Prop where
  running : m.status = .running
  pid : m.pid = some p

def Known (s : State) (m : MachineState) : Prop := ∀ p, m.pid = some p → p ∈ s.pids

/-- The QEMU of a completed start is named by the record while it lives. -/
def Follows (s : State) (m : Option MachineState) : Prop :=
  ∀ p, s.started = some p → s.alive p = true → ∃ b, m = some b ∧ Names b p

def Over (s : State) : Prop := ∀ p, s.started = some p → s.alive p = false

/-- What the lock holder has in memory of a launch, and what it has saved of it. -/
structure Launching (s : State) (state : MachineState) : Prop where
  onto : Over s
  known : Known s state
  running : state.status = .running

/-- The record names the QEMU of the launch while it lives. -/
def Carries (s : State) (m : Option MachineState) (state : MachineState) : Prop :=
  ∀ p, state.pid = some p → s.alive p = true → ∃ b, m = some b ∧ Names b p

def Phase.Keeps (s : State) (base : Option MachineState) : Phase → Prop
  | .idle => Follows s base
  | .entered op state =>
      (Follows s base ∧ Follows s (some state) ∧ Known s state) ∧ (op.creates = true → Over s)
  | .resumed state _ | .waiting state => Follows s base ∧ Follows s (some state) ∧ Known s state
  | .thawing state _ current =>
      (Follows s base ∧ Follows s (some state) ∧ Known s state) ∧
        Follows s (some current) ∧ Known s current
  | .console state _ => Over s ∧ Known s state
  | .spawned _ pid _ _ => Over s ∧ pid ∈ s.pids
  | .launched state _ _ _ | .ready state _ => Launching s state ∧ Carries s base state
  | .changing state _ _ current =>
      (Launching s state ∧ Carries s base state) ∧ Carries s (some current) state ∧ Known s current
  | .replacing state _ _ => Launching s state
  | .replaced state pid _ _ => Launching s state ∧ pid ∈ s.pids
  | .halted _ | .saving _ _ | .undoing _ | .removing => Over s

def Refresh.Keeps (s : State) : Refresh → Prop
  | .idle => True
  | .loaded m => Known s m
  | .dead m => Known s m ∧ Dead s m

structure Kept (s : Shared) : Prop where
  stands : Stands s.machine s.base
  known : ∀ b, s.base = some b → Known s.machine b
  started : ∀ p, s.machine.started = some p → p ∈ s.machine.pids
  phase : s.machine.phase.Keeps s.machine s.base
  refreshes : ∀ reader, (s.refreshes reader).Keeps s.machine

structure Onward (s t : State) : Prop where
  pids : ∀ p ∈ s.pids, p ∈ t.pids
  alive : ∀ p ∈ s.pids, s.alive p = false → t.alive p = false

structure Later (s t : State) : Prop extends Onward s t where
  started : t.started = s.started ∨ t.started = none

theorem Later.same {s t : State} (pids : t.pids = s.pids) (alive : t.alive = s.alive)
    (started : t.started = s.started) : Later s t :=
  ⟨⟨fun _ => pids ▸ id, fun _ _ => alive ▸ id⟩, .inl started⟩

theorem Later.stopQemu (s : State) (phase : Phase) (pid : Option Pid) :
    Later s ((s.goto phase).stopQemu pid) := by
  refine ⟨⟨fun _ => id, fun p _ dead => ?_⟩, ?_⟩
  · change (s.alive p && _) = false
    rw [dead, Bool.false_and]
  · cases pid with
    | none => exact .inl rfl
    | some p => exact .inr rfl

theorem Later.spawnQemu {s : State} {pid : Pid} (fresh : pid ∉ s.pids) (phase : Phase) :
    Later s ((s.goto phase).spawnQemu pid) := by
  refine ⟨⟨fun _ => List.mem_cons_of_mem pid, fun p old dead => ?_⟩, .inl rfl⟩
  change Function.update s.alive pid true p = false
  rw [Function.update_of_ne (ne_of_mem_of_not_mem old fresh), dead]

theorem Later.exit (s : State) (pid : Pid) : Later s
    { s with alive := Function.update s.alive pid false, signalled := none, undone := none } := by
  refine ⟨⟨fun _ => id, fun p _ dead => ?_⟩, .inl rfl⟩
  by_cases is : p = pid
  · subst is; exact Function.update_self p false s.alive
  · exact (Function.update_of_ne is false s.alive).trans dead

theorem Later.lives {s t : State} (h : Later s t) {p : Pid} (old : p ∈ s.pids)
    (alive : t.alive p = true) : s.alive p = true := by
  by_contra dead
  rw [h.alive p old (Bool.eq_false_iff.mpr dead)] at alive
  cases alive

theorem Later.was {s t : State} (h : Later s t) {p : Pid} (is : t.started = some p) :
    s.started = some p := by
  rcases h.started with same | none
  · rw [← same, is]
  · cases none.symm.trans is

theorem Known.onward {s t : State} {m : MachineState} (h : Known s m) (onward : Onward s t) :
    Known t m := fun p is => onward.pids p (h p is)

theorem Dead.onward {s t : State} {m : MachineState} (h : Dead s m) (known : Known s m)
    (onward : Onward s t) : Dead t m :=
  ⟨h.running, fun p is => onward.alive p (known p is) (h.dead p is)⟩

section

variable {s t : State} (known : ∀ p, s.started = some p → p ∈ s.pids) (after : Later s t)
include known after

theorem Follows.later {m : Option MachineState} (h : Follows s m) : Follows t m :=
  fun p is alive => h p (after.was is) (after.lives (known p (after.was is)) alive)

theorem Over.later (h : Over s) : Over t :=
  fun p is => after.alive p (known p (after.was is)) (h p (after.was is))

theorem Launching.later {state : MachineState} (h : Launching s state) : Launching t state :=
  ⟨h.onto.later known after, h.known.onward after.toOnward, h.running⟩

theorem Phase.Keeps.later {base : Option MachineState} {phase : Phase} (h : phase.Keeps s base) :
    phase.Keeps t base := by
  have carries : ∀ {m : Option MachineState} {state : MachineState}, Known s state →
      Carries s m state → Carries t m state :=
    fun known h p is alive => h p is (after.lives (known p is) alive)
  cases phase with
  | idle => exact Follows.later known after h
  | entered =>
      exact ⟨⟨h.1.1.later known after, h.1.2.1.later known after, h.1.2.2.onward after.toOnward⟩,
        fun creates => (h.2 creates).later known after⟩
  | resumed | waiting =>
      exact ⟨h.1.later known after, h.2.1.later known after, h.2.2.onward after.toOnward⟩
  | thawing =>
      exact ⟨⟨h.1.1.later known after, h.1.2.1.later known after, h.1.2.2.onward after.toOnward⟩,
        h.2.1.later known after, h.2.2.onward after.toOnward⟩
  | console => exact ⟨h.1.later known after, h.2.onward after.toOnward⟩
  | spawned => exact ⟨h.1.later known after, after.pids _ h.2⟩
  | launched | ready => exact ⟨h.1.later known after, carries h.1.known h.2⟩
  | changing =>
      exact ⟨⟨h.1.1.later known after, carries h.1.1.known h.1.2⟩, carries h.1.1.known h.2.1,
        h.2.2.onward after.toOnward⟩
  | replacing => exact Launching.later known after h
  | replaced => exact ⟨h.1.later known after, after.pids _ h.2⟩
  | halted | saving | undoing | removing => exact Over.later known after h

end

theorem Refresh.Keeps.onward {s t : State} {phase : Refresh} (h : phase.Keeps s)
    (onward : Onward s t) : phase.Keeps t := by
  cases phase with
  | idle => trivial
  | loaded m => exact Known.onward h onward
  | dead m => exact ⟨h.1.onward onward, h.2.onward h.1 onward⟩

theorem Over.follows {s : State} (h : Over s) (m : Option MachineState) : Follows s m :=
  fun p is alive => by rw [h p is] at alive; cases alive

theorem Names.isMachineRunning {s : State} {m : MachineState} {p : Pid} (h : Names m p)
    (alive : s.alive p = true) : s.isMachineRunning m = true := by
  rw [State.isMachineRunning, h.running, h.pid, Option.any_some, alive]
  rfl

theorem Follows.onto {s : State} {m : MachineState} (h : Follows s (some m))
    (stopped : s.isMachineRunning m = false) : Over s := by
  intro p is
  by_contra alive
  rw [Bool.not_eq_false] at alive
  obtain ⟨b, ⟨⟩, names⟩ := h p is alive
  rw [names.isMachineRunning alive] at stopped
  cases stopped

/-- `stopQemu` with the pid that the record names, when it is alive. -/
theorem Follows.stopped {s : State} {m : MachineState} {phase : Phase} {pid : Option Pid}
    (h : Follows s (some m)) (names : ∀ p, Names m p → s.alive p = true → pid = some p) :
    Over ((s.goto phase).stopQemu pid) := by
  intro p is
  cases pid with
  | some q => cases is
  | none =>
      change (s.alive p && _) = false
      rw [Bool.and_eq_false_iff]
      refine .inl (Bool.eq_false_iff.mpr fun alive => ?_)
      obtain ⟨b, ⟨⟩, named⟩ := h p is alive
      cases names p named alive

theorem Over.stopped {s : State} (h : Over s) (phase : Phase) (pid : Option Pid) :
    Over ((s.goto phase).stopQemu pid) := by
  intro p is
  cases pid with
  | some q => cases is
  | none =>
      change (s.alive p && _) = false
      rw [h p is, Bool.false_and]

theorem Stands.follows {s : State} {base : Option MachineState} (h : Stands s base)
    (follows : Follows s base) : Follows s s.record := by
  intro p is alive
  rcases h with same | ⟨b, base, -, dead⟩
  · rw [same]; exact follows p is alive
  · obtain ⟨b', is', names⟩ := follows p is alive
    rw [base] at is'
    cases is'
    rw [dead.dead p names.pid] at alive
    cases alive

theorem Stands.carries {s : State} {base : Option MachineState} {state : MachineState}
    (h : Stands s base) (carries : Carries s base state) : Carries s s.record state := by
  intro p is alive
  rcases h with same | ⟨b, base, -, dead⟩
  · rw [same]; exact carries p is alive
  · obtain ⟨b', is', names⟩ := carries p is alive
    rw [base] at is'
    cases is'
    rw [dead.dead p names.pid] at alive
    cases alive

theorem Stands.known {s : State} {base : Option MachineState} {m : MachineState}
    (h : Stands s base) (known : ∀ b, base = some b → Known s b) (is : s.record = some m) :
    Known s m := by
  rcases h with same | ⟨b, -, stopped, -⟩
  · exact known m (same ▸ is)
  · cases stopped.symm.trans is
    intro p is
    cases is

theorem Follows.thawed {s : State} {m : MachineState} (h : Follows s (some m)) :
    Follows s (some { m with frozen := none }) := by
  intro p is alive
  obtain ⟨b, ⟨⟩, names⟩ := h p is alive
  exact ⟨_, rfl, names.running, names.pid⟩

theorem Change.mirror_pid (change : Change) (m : MachineState) :
    (change.mirror m).pid = m.pid ∧ (change.mirror m).status = m.status := by
  cases change <;> exact ⟨rfl, rfl⟩

theorem Change.apply_pid (change : Change) (m : MachineState) :
    (change.apply m).pid = m.pid ∧ (change.apply m).status = m.status := by
  cases change <;> exact ⟨rfl, rfl⟩

theorem Launching.mirror {s : State} {state : MachineState} (h : Launching s state)
    (change : Change) : Launching s (change.mirror state) := by
  obtain ⟨pid, status⟩ := change.mirror_pid state
  exact ⟨h.onto, fun p is => h.known p (pid ▸ is), status.trans h.running⟩

theorem Carries.mirror {s : State} {base : Option MachineState} {state : MachineState}
    (h : Carries s base state) (change : Change) : Carries s base (change.mirror state) :=
  fun p is => h p ((change.mirror_pid state).1 ▸ is)

theorem Carries.self {s : State} {state : MachineState} (running : state.status = .running) :
    Carries s (some state) state := fun _ is _ => ⟨state, rfl, running, is⟩

theorem Over.after {s : State} (h : Over s) (base : Option MachineState) (target : Target) :
    target.after.Keeps s base := by
  cases target with
  | stop cleanup =>
      cases cleanup with
      | none => exact h.follows base
      | some cleanup => exact h
  | clean now => exact h.follows base

theorem Quiet.keeps {s : State} {e : Event} {base : Option MachineState} {from_ phase : Phase}
    (quiet : Quiet s e from_ phase) (h : from_.Keeps s base) : phase.Keeps s base := by
  cases quiet with
  | give => exact h.1.1
  | refused | resumed | answered => exact h.1
  | quit | died => exact h.1.follows base
  | diedAgain => exact h.1.onto.follows base
  | lost => exact h.onto.follows base
  | mirror => exact ⟨h.1.mirror _, h.2.mirror _⟩
  | resume => exact h.1
  | stopped dead => exact h.1.2.1.onto dead
  | wait => exact ⟨h.1, h.2.1.thawed, h.2.2⟩
  | unreset | left => exact Over.follows h base
  | gone => exact Over.after h base _
  | discard => exact h

theorem Load.keeps {s : State} {e : Event} {base : Option MachineState} {m : MachineState}
    {from_ phase : Phase} (load : Load e m from_ phase) (stands : Stands s base)
    (known : ∀ b, base = some b → Known s b) (is : s.record = some m) (h : from_.Keeps s base) :
    phase.Keeps s base := by
  cases load with
  | lock _ existing =>
      refine ⟨⟨h, is ▸ stands.follows h, stands.known known is⟩, fun creates => ?_⟩
      cases existing.symm.trans creates
  | change => exact ⟨h, is ▸ stands.carries h.2, stands.known known is⟩
  | thaw => exact ⟨h, is ▸ stands.follows h.1, stands.known known is⟩
  | stop => exact h

theorem Save.keeps {s : State} {base : Option MachineState} {m : MachineState} {from_ phase : Phase}
    (save : Save s from_ phase m) (h : from_.Keeps s base) : phase.Keeps s (some m) ∧ Known s m := by
  cases save with
  | add => exact h.1.2
  | foreground => exact ⟨h.1.follows _, h.2⟩
  | @launch state pid mode cleanup now accel =>
      have known : Known s (state.launched pid mode accel now) := fun p is => Option.some.inj is ▸ h.2
      exact ⟨⟨⟨h.1, known, rfl⟩, .self rfl⟩, known⟩
  | boot => exact ⟨⟨⟨h.1.onto, h.1.known, h.1.running⟩, .self h.1.running⟩, h.1.known⟩
  | @cycled state pid cleanup now =>
      have known : Known s (state.powerCycled pid now) := fun p is => Option.some.inj is ▸ h.2
      exact ⟨⟨⟨h.1.onto, known, rfl⟩, .self rfl⟩, known⟩
  | @respawned state pid cleanup =>
      have known : Known s { state with pid := some pid } := fun p is => Option.some.inj is ▸ h.2
      exact ⟨⟨⟨h.1.onto, known, h.1.running⟩, .self h.1.running⟩, known⟩
  | @change state cleanup change current =>
      obtain ⟨pid, status⟩ := change.apply_pid current
      refine ⟨⟨h.1.1.mirror change, .mirror (fun p is alive => ?_) change⟩,
        fun p is => h.2.2 p (pid ▸ is)⟩
      obtain ⟨b, ⟨⟩, names⟩ := h.2.1 p is alive
      exact ⟨_, rfl, status.trans names.running, pid.trans names.pid⟩
  | thaw => exact ⟨h.2.1.thawed, h.2.2⟩
  | thawWait => exact ⟨⟨h.2.1.thawed, h.1.2.1.thawed, h.1.2.2⟩, h.2.2⟩
  | @stop target current =>
      refine ⟨Over.after h _ target, fun p is => ?_⟩
      cases target <;> cases is

theorem Kill.keeps {s : State} {base : Option MachineState} {pid : Option Pid} {from_ phase : Phase}
    {e : Event} (known : ∀ p, s.started = some p → p ∈ s.pids) (kill : Kill s e from_ phase pid)
    (h : from_.Keeps s base) : phase.Keeps ((s.goto phase).stopQemu pid) base := by
  have recorded : ∀ {state : MachineState} p, Names state p → s.alive p = true →
      (if s.isMachineRunning state then state.pid else none) = some p := by
    intro state p names alive
    rw [names.isMachineRunning alive]
    exact names.pid
  cases kill with
  | boot | provision => exact h.1.onto.stopped _ _
  | cycle => exact h.onto.stopped _ _
  | unreplaced => exact h.1.onto.stopped _ _
  | respawn | replace => exact h.1.later known (.stopQemu s _ _)
  | relaunch => exact h.1.onto.stopped _ _
  | stop => exact h.1.2.1.stopped fun p names _ => names.pid
  | clean | remove => exact h.1.2.1.stopped recorded
  | wait => exact h.2.1.stopped fun p names _ => names.pid

theorem Spawn.keeps {s : State} {base : Option MachineState} {pid : Pid} {from_ phase : Phase}
    (known : ∀ p, s.started = some p → p ∈ s.pids) (fresh : pid ∉ s.pids)
    (spawn : Spawn s pid from_ phase) (h : from_.Keeps s base) :
    phase.Keeps ((s.goto phase).spawnQemu pid) base := by
  have later : ∀ phase, Later s ((s.goto phase).spawnQemu pid) := Later.spawnQemu fresh
  have new : ∀ phase, pid ∈ ((s.goto phase).spawnQemu pid).pids := fun _ => List.mem_cons_self
  cases spawn with
  | createForeground => exact ⟨(h.2 rfl).later known (later _), h.1.2.2.onward (later _).toOnward⟩
  | create => exact ⟨(h.2 rfl).later known (later _), new _⟩
  | foreground stopped =>
      exact ⟨(h.1.2.1.onto stopped).later known (later _), h.1.2.2.onward (later _).toOnward⟩
  | start _ stopped => exact ⟨(h.1.2.1.onto stopped).later known (later _), new _⟩
  | replace => exact ⟨h.later known (later _), new _⟩

theorem Stands.onward {s t : State} {base : Option MachineState} (h : Stands s base)
    (known : ∀ b, base = some b → Known s b) (onward : Onward s t) (same : t.record = s.record) :
    Stands t base := by
  rcases h with is | ⟨b, is, stopped, dead⟩
  · exact .inl (same.trans is)
  · exact .inr ⟨b, is, same.trans stopped, dead.onward (known b is) onward⟩

theorem Kept.later {s : Shared} {t : State} (h : Kept s) (later : Later s.machine t)
    (record : t.record = s.machine.record) (version : t.version = s.machine.version)
    (phase : t.phase.Keeps t s.base) : Kept (s.advanced t) := by
  have base : (s.advanced t).base = s.base := if_pos version
  refine ⟨?_, ?_, fun p is => later.pids p (h.started p (later.was is)), ?_,
    fun reader => (h.refreshes reader).onward later.toOnward⟩
  · rw [base]; exact h.stands.onward h.known later.toOnward record
  · rw [base]; exact fun b is => (h.known b is).onward later.toOnward
  · rw [base]; exact phase

theorem Kept.saved {s : Shared} {t : State} (h : Kept s) (later : Later s.machine t)
    (version : t.version = s.machine.version + 1) (known : ∀ m, t.record = some m → Known t m)
    (phase : t.phase.Keeps t t.record) : Kept (s.advanced t) := by
  have base : (s.advanced t).base = t.record := if_neg (by rw [version]; omega)
  refine ⟨.inl base.symm, ?_, fun p is => later.pids p (h.started p (later.was is)), ?_,
    fun reader => (h.refreshes reader).onward later.toOnward⟩
  · rw [base]; exact known
  · rw [base]; exact phase

theorem Kept.next {s : Shared} {e : Event} {t : State} (h : Kept s)
    (step : Lifecycle.next s.machine e = some t) : Kept (s.advanced t) := by
  have now := h.phase
  have goto : ∀ phase, Later s.machine (s.machine.goto phase) := fun _ => .same rfl rfl rfl
  have save : ∀ phase m, Later s.machine ((s.machine.goto phase).save m) :=
    fun _ _ => .same rfl rfl rfl
  cases move_of_next step with
  | new at_ none created =>
      rw [at_] at now
      have onto : Over s.machine := by
        intro p is
        refine Bool.eq_false_iff.mpr fun alive => ?_
        obtain ⟨b, is, -⟩ := h.stands.follows now p is alive
        cases none.symm.trans is
      refine h.later (goto _) rfl rfl ⟨⟨now, onto.follows _, fun p is => ?_⟩, fun _ => onto⟩
      obtain ⟨name, request, now, ⟨-, rfl⟩ | ⟨mode, -, rfl⟩⟩ := created <;> cases is
  | quiet quiet => exact h.later (goto _) rfl rfl ((quiet.keeps now).later h.started (goto _))
  | load is load =>
      exact h.later (goto _) rfl rfl
        ((load.keeps h.stands h.known is now).later h.started (goto _))
  | @save time accel phase m saves | @booted time accel phase m saves =>
      obtain ⟨phase, known⟩ := saves.keeps now
      exact h.saved (save _ m) rfl (fun m is => Option.some.inj is ▸ known)
        (phase.later h.started (save _ m))
  | undo at_ =>
      rw [at_] at now
      refine h.saved (.same rfl rfl rfl) rfl (fun m is => ?_) (Over.follows now _)
      cases is
      exact fun p is => by cases is
  | remove at_ =>
      rw [at_] at now
      exact h.saved (.same rfl rfl rfl) rfl (fun _ is => by cases is) (Over.follows now _)
  | kill kill => exact h.later (.stopQemu _ _ _) rfl rfl (kill.keeps h.started now)
  | spawn fresh spawn =>
      exact h.later (.spawnQemu fresh _) rfl rfl (spawn.keeps h.started fresh now)
  | @finish pid finish =>
      have carried : ∃ state, state.pid = pid ∧ Launching s.machine state ∧
          Carries s.machine s.base state := by
        generalize s.machine.phase = from_ at finish now
        cases finish <;> exact ⟨_, rfl, now⟩
      obtain ⟨state, rfl, launching, carries⟩ := carried
      have base : (s.advanced { s.machine.goto .idle with started := state.pid }).base = s.base :=
        if_pos rfl
      have onward : Onward s.machine { s.machine.goto .idle with started := state.pid } :=
        ⟨fun _ => id, fun _ _ => id⟩
      refine ⟨?_, ?_, launching.known, ?_, fun reader => (h.refreshes reader).onward onward⟩
      · rw [base]; exact h.stands.onward h.known onward rfl
      · rw [base]; exact h.known
      · rw [base]; exact carries
  | exit pid => exact h.later (.exit _ pid) rfl rfl (now.later h.started (.exit _ pid))

theorem Kept.goto {s : Shared} {reader : ℕ} {phase : Refresh} (h : Kept s)
    (keeps : phase.Keeps s.machine) : Kept (s.goto reader phase) := by
  refine ⟨h.stands, h.known, h.started, h.phase, fun other => ?_⟩
  change (Function.update s.refreshes reader phase other).Keeps s.machine
  by_cases is : other = reader
  · subst is; rw [Function.update_self]; exact keeps
  · rw [Function.update_of_ne is]; exact h.refreshes other

theorem Kept.refresh {s : Shared} {reader : ℕ} {m : MachineState} (h : Kept s)
    (at_ : s.refreshes reader = .dead m)
    (stands : s.machine.record = some m ∨ s.machine.record = some m.stopped) :
    Kept (s.refresh reader m.stopped) := by
  have dead := h.refreshes reader
  rw [at_] at dead
  have later : Later s.machine (s.refresh reader m.stopped).machine := .same rfl rfl rfl
  have onto : Stands (s.refresh reader m.stopped).machine s.base := by
    rcases stands with read | stopped
    · rcases h.stands with same | ⟨b, -, stopped, -⟩
      · exact .inr ⟨m, same.symm.trans read, rfl, dead.2.onward dead.1 later.toOnward⟩
      · cases stopped.symm.trans read
        cases dead.2.running
    · exact h.stands.onward h.known later.toOnward stopped.symm
  refine ⟨onto, h.known, h.started, h.phase.later h.started later, fun other => ?_⟩
  change (Function.update s.refreshes reader .idle other).Keeps _
  by_cases is : other = reader
  · subst is; rw [Function.update_self]; trivial
  · rw [Function.update_of_ne is]; exact (h.refreshes other).onward later.toOnward

theorem kept_initial : Kept ⟨.init, none, fun _ => .idle⟩ :=
  ⟨.inl rfl, fun _ is => (by cases is), fun _ is => (by cases is), fun _ is => (by cases is),
    fun _ => trivial⟩

theorem Kept.of_reachable {s : Shared}
    (h : shared.ReachableUnder (fun s e => standsStill s e = true) s) : Kept s := by
  refine h.invariant (fun s start => start ▸ kept_initial) fun s e t _ kept still step => ?_
  cases e with
  | step e =>
      obtain ⟨t, moves, rfl⟩ := Option.map_eq_some_iff.mp step
      exact kept.next moves
  | load reader =>
      simp only [shared, Shared.next] at step
      split at step
      · rename_i m _ is
        cases step
        exact kept.goto (kept.stands.known kept.known is)
      · cases step
  | test reader =>
      simp only [shared, Shared.next] at step
      split at step
      · rename_i m at_
        cases step
        have known := kept.refreshes reader
        rw [at_] at known
        refine kept.goto ?_
        split
        · rename_i dead
          refine ⟨known, dead.1, fun p is => ?_⟩
          have stopped := dead.2
          rw [State.isMachineRunning, dead.1, is, Option.any_some] at stopped
          simpa using stopped
        · trivial
      · cases step
  | save reader =>
      simp only [shared, Shared.next] at step
      split at step
      · rename_i m at_
        cases step
        rw [standsStill, at_, decide_eq_true_eq] at still
        exact kept.refresh at_ still
      · cases step

theorem Phase.Keeps.follows {s : State} {base : Option MachineState} {phase : Phase}
    (h : phase.Keeps s base) : Follows s base := by
  cases phase with
  | idle => exact h
  | entered => exact h.1.1
  | resumed | waiting => exact h.1
  | thawing => exact h.1.1
  | console | spawned => exact h.1.follows base
  | launched | ready => exact h.1.onto.follows base
  | changing => exact h.1.1.onto.follows base
  | replacing => exact h.onto.follows base
  | replaced => exact h.1.onto.follows base
  | halted | saving | undoing | removing => exact Over.follows h base

/-- As long as every refresh saves over the record it has read: the record is what the lock holder
left, or that very record after its QEMU has died, and a QEMU that a completed start has spawned
stays recorded as running while it lives. -/
theorem locked_record_stands {s : Shared}
    (h : shared.ReachableUnder (fun s e => standsStill s e = true) s) :
    (s.machine.record = s.base ∨ ∃ b, s.base = some b ∧ s.machine.record = some b.stopped ∧
        b.status = .running ∧ ∀ p, b.pid = some p → s.machine.alive p = false) ∧
      ∀ p, s.machine.started = some p → s.machine.alive p = true →
        ∃ m, s.machine.record = some m ∧ m.status = .running ∧ m.pid = some p := by
  have kept := Kept.of_reachable h
  refine ⟨?_, fun p is alive => ?_⟩
  · rcases kept.stands with same | ⟨b, base, stopped, dead⟩
    · exact .inl same
    · exact .inr ⟨b, base, stopped, dead.running, dead.dead⟩
  · obtain ⟨m, is, names⟩ := kept.stands.follows kept.phase.follows p is alive
    exact ⟨m, is, names.running, names.pid⟩

def refreshing : List Access := [.load 0, .test 0, .save 0]

theorem locked_record_stands_once : ∃ (s : Shared) (m : MachineState),
    s.machine.started = some 101 ∧ s.machine.record = some m ∧ m.pid = some 101 := by
  obtain ⟨s, reachable, started, alive⟩ := Transition.System.exists_reachable
    (S := shared.restrict fun s e => standsStill s e = true)
    (P := fun s => s.machine.started = some 101 ∧ s.machine.alive 101 = true)
    ((added ++ background 100 ++ [Event.exit 100]).map .step ++ refreshing ++
      (background 101).map .step) (s := ⟨.init, none, fun _ => .idle⟩) rfl (by decide +kernel)
  obtain ⟨m, is, -, pid⟩ := (locked_record_stands
    (Transition.System.ReachableUnder.of_restrict reachable)).2 101 started alive
  exact ⟨s, m, started, is, pid⟩

/-- A refresh has found QEMU dead; before it saves, the lock holder starts another one, or removes
the machine. -/
def overtaken (locked : List Event) : List Access :=
  (added ++ background 100 ++ [Event.exit 100]).map .step ++ [.load 0, .test 0] ++
    locked.map .step ++ [.save 0]

theorem locked_record_stands_fails :
    (¬ ∀ s, shared.Reachable s → s.base = none → s.machine.record = none) ∧
    ¬ ∀ s, shared.Reachable s → ∀ p, s.machine.started = some p → s.machine.alive p = true →
      ∃ m, s.machine.record = some m ∧ m.status = .running ∧ m.pid = some p := by
  constructor
  · obtain ⟨s, reachable, removed, back⟩ := Transition.System.exists_reachable (S := shared)
      (P := fun s => s.base = none ∧ s.machine.record.isSome = true)
      (overtaken [.lock .remove, .kill, .save 3 ""]) (s := ⟨.init, none, fun _ => .idle⟩) rfl
      (by decide +kernel)
    intro claim
    rw [claim s reachable removed] at back
    cases back
  · obtain ⟨s, reachable, started, alive, lost⟩ := Transition.System.exists_reachable (S := shared)
      (P := fun s => s.machine.started = some 101 ∧ s.machine.alive 101 = true ∧
        s.machine.record.any (fun m => m.status = .stopped) = true)
      (overtaken (background 101)) (s := ⟨.init, none, fun _ => .idle⟩) rfl (by decide +kernel)
    intro claim
    obtain ⟨m, is, running, -⟩ := claim s reachable 101 started alive
    rw [is, Option.any_some, running] at lost
    cases lost

end Quickchr.Lifecycle
