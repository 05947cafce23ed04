import Quickchr.Lifecycle
import Quickchr.Lib.Transition

/-!
# A stopped machine has no pid

`status`, `pid` and `frozen` are written from many places. They agree in every record, and only
the QEMU that was spawned last is signalled, as long as no foreground start begins from the
record of a QEMU that has died.
-/
namespace Quickchr.Lifecycle

open ProvisioningWindow Provisioning

/-- A step of an operation, or `list()` or `get()` between two operations. -/
inductive Call
  | step (e : Event)
  | refresh

def State.refreshed (s : State) : State :=
  match s.record with
  | some m =>
      if m.status = .running ∧ !s.isMachineRunning m then
        { s with record := some m.stopped, signalled := none, undone := none }
      else { s with signalled := none, undone := none }
  | none => { s with signalled := none, undone := none }

def sequential : Transition.System State Call where
  Initial s := s = .init
  next s
    | .step e => next s e
    | .refresh => if s.phase = .idle then some s.refreshed else none

/-- A foreground start begins with no pid and no frozen marker in the record. -/
def tidyForeground (s : State) : Call → Bool
  | .step (.spawn _) =>
      match s.phase with
      | .entered (.start .foreground) state => state.pid.isNone && state.frozen.isNone
      | _ => true
  | _ => true

/-- A QEMU that dies as it is spawned has no other before it on record. -/
def tidySpawn (s : State) : Call → Bool
  | .step .fail | .step .kill =>
      match s.phase with
      | .spawned .. => s.record.all (·.pid.isNone)
      | .replaced .. => false
      | _ => true
  | _ => true

structure Agrees (m : MachineState) : Prop where
  stopped : m.status = .stopped → m.pid = none ∧ m.frozen = none
  opened : isProvisioningWindowOpen m = true → m.pid = none ∧ m.frozen = none

/-- The recorded QEMU is the one that was spawned last. -/
def Own (pids : List Pid) (m : MachineState) : Prop := ∀ p, m.pid = some p → pids.head? = some p

/-- A record of a QEMU that runs, or ran. -/
structure Launched (pids : List Pid) (m : MachineState) : Prop where
  own : Own pids m
  running : m.status = .running
  started : m.lastStartedAt ≠ none

def BootFailureCleanup.Thawed : BootFailureCleanup → Prop
  | .resetFirstBoot restore => restore.frozen = none
  | _ => True

def Target.Thawed : Target → Prop
  | .stop (some cleanup) => cleanup.Thawed
  | _ => True

/-- What the holder of the lock has in memory. -/
def Phase.Sound (s : State) : Phase → Prop
  | .entered op state => Agrees state ∧ Own s.pids state ∧
      if op.creates then s.record = none ∧ state.pid = none ∧ state.frozen = none
      else s.record = some state
  | .console state _ => state.pid = none ∧ state.frozen = none ∧ ∀ m, s.record = some m → m.pid = none
  | .spawned _ pid _ cleanup => s.pids.head? = some pid ∧ cleanup.Thawed
  | .launched state _ cleanup _ | .ready state cleanup | .replacing state cleanup _ =>
      Launched s.pids state ∧ cleanup.Thawed
  | .replaced state pid cleanup _ => Launched s.pids { state with pid := some pid } ∧ cleanup.Thawed
  | .changing state cleanup _ current =>
      (Launched s.pids state ∧ cleanup.Thawed) ∧ Agrees current ∧ Own s.pids current
  | .resumed state _ | .waiting state => Own s.pids state
  | .thawing state _ current => Own s.pids state ∧ Agrees current ∧ Own s.pids current
  | .halted target | .saving target _ => target.Thawed
  | .undoing cleanup => cleanup.Thawed
  | .idle | .removing => True

/-- Between a spawn and the save of its pid the record can name the QEMU before. -/
def Phase.unsaved : Phase → Bool
  | .spawned .. | .replaced .. => true
  | _ => false

structure Settled (s : State) : Prop where
  agrees : ∀ m, s.record = some m → Agrees m
  own : ∀ m, s.record = some m → s.phase.unsaved = false → Own s.pids m
  sound : s.phase.Sound s
  signalled : ∀ p, s.signalled = some p → s.pids.head? = some p

theorem Agrees.of_none {m : MachineState} (pid : m.pid = none) (frozen : m.frozen = none) : Agrees m :=
  ⟨fun _ => ⟨pid, frozen⟩, fun _ => ⟨pid, frozen⟩⟩

theorem Own.of_none {pids : List Pid} {m : MachineState} (pid : m.pid = none) : Own pids m :=
  fun p is => by rw [pid] at is; cases is

theorem Launched.agrees {pids : List Pid} {m : MachineState} (h : Launched pids m) : Agrees m := by
  refine ⟨fun stopped => ?_, fun opened => ?_⟩
  · rw [h.running] at stopped; cases stopped
  · unfold isProvisioningWindowOpen at opened
    rw [Bool.and_eq_true, Option.isNone_iff_eq_none, Option.isNone_iff_eq_none] at opened
    exact absurd opened.2 h.started

theorem Launched.mirror {pids : List Pid} {m : MachineState} (h : Launched pids m) (change : Change) :
    Launched pids (change.mirror m) := by
  cases change <;> exact ⟨h.own, h.running, h.started⟩

theorem Agrees.apply {m : MachineState} (h : Agrees m) (change : Change) : Agrees (change.apply m) := by
  cases change with
  | provisioning record =>
      refine ⟨h.stopped, fun opened => ?_⟩
      rw [isProvisioningWindowOpen, Bool.and_eq_true] at opened
      cases opened.1
  | _ => exact ⟨h.stopped, h.opened⟩

theorem Own.apply {pids : List Pid} {m : MachineState} (h : Own pids m) (change : Change) :
    Own pids (change.apply m) := by
  cases change <;> exact h

theorem Target.apply_none (target : Target) (m : MachineState) :
    (target.apply m).pid = none ∧ (target.apply m).frozen = none := by
  cases target <;> exact ⟨rfl, rfl⟩

theorem Agrees.thawed {m : MachineState} (h : Agrees m) : Agrees { m with frozen := none } :=
  ⟨fun stopped => ⟨(h.stopped stopped).1, rfl⟩, fun opened => ⟨(h.opened opened).1, rfl⟩⟩

theorem thawed_cleanup {m : MachineState} (h : Agrees m) : (bootFailureCleanup m).Thawed := by
  unfold bootFailureCleanup
  split
  · rename_i opened; exact (h.opened opened).2
  · trivial

theorem Target.Thawed.after {s : State} {target : Target} (h : target.Thawed) :
    target.after.Sound s ∧ target.after.unsaved = false := by
  cases target with
  | stop cleanup =>
      cases cleanup with
      | none => exact ⟨trivial, rfl⟩
      | some cleanup => exact ⟨h, rfl⟩
  | clean now => exact ⟨trivial, rfl⟩

theorem Settled.goto {s : State} {phase : Phase} (h : Settled s) (sound : phase.Sound (s.goto phase))
    (saved : phase.unsaved = false → s.phase.unsaved = false) : Settled (s.goto phase) :=
  ⟨h.agrees, fun m is now => h.own m is (saved now), sound, fun p is => by cases is⟩

theorem Settled.quiet {s : State} {e : Event} {phase : Phase} (h : Settled s)
    (tidy : tidySpawn s (.step e) = true) (quiet : Quiet s e s.phase phase) :
    Settled (s.goto phase) := by
  have sound := h.sound
  simp only [tidySpawn] at tidy
  generalize at_ : s.phase = from_ at quiet sound tidy
  have saved : from_.unsaved = false → s.phase.unsaved = false := fun is => by rw [at_, is]
  cases quiet with
  | give | quit | lost | refused | resumed | answered | unreset | left =>
      exact h.goto trivial fun _ => saved rfl
  | died is =>
      subst is
      have none : ∀ m, s.record = some m → m.pid = none := fun m is => by
        simpa only [is, Option.all_some, Option.isNone_iff_eq_none] using tidy
      exact ⟨h.agrees, fun m is _ => .of_none (none m is), trivial, fun p is => by cases is⟩
  | diedAgain is => subst is; cases tidy
  | discard => exact h.goto trivial fun _ => saved rfl
  | mirror => exact h.goto ⟨sound.1.mirror _, sound.2⟩ fun _ => saved rfl
  | resume => exact h.goto sound.2.1 fun _ => saved rfl
  | stopped => exact h.goto trivial fun _ => saved rfl
  | wait => exact h.goto sound fun _ => saved rfl
  | gone => exact h.goto (Target.Thawed.after sound).1 fun _ => saved rfl

theorem Settled.load {s : State} {e : Event} {m : MachineState} {phase : Phase} (h : Settled s)
    (is : s.record = some m) (load : Load e m s.phase phase) : Settled (s.goto phase) := by
  have sound := h.sound
  have own := h.own m is
  generalize at_ : s.phase = from_ at load sound own
  have saved : from_.unsaved = false → s.phase.unsaved = false := fun is => by rw [at_, is]
  have agrees := h.agrees m is
  cases load with
  | lock _ existing =>
      refine h.goto ⟨agrees, own rfl, ?_⟩ fun _ => saved rfl
      rw [existing]
      exact is
  | change => exact h.goto ⟨sound, agrees, own rfl⟩ fun _ => saved rfl
  | thaw => exact h.goto ⟨sound, agrees, own rfl⟩ fun _ => saved rfl
  | stop => exact h.goto sound fun _ => saved rfl

theorem Settled.saves {s : State} {phase : Phase} {m : MachineState} (agrees : Agrees m)
    (own : Own s.pids m) (sound : phase.Sound ((s.goto phase).save m)) :
    Settled ((s.goto phase).save m) :=
  ⟨fun m' is => Option.some.inj is ▸ agrees, fun m' is _ => Option.some.inj is ▸ own, sound,
    fun p is => by cases is⟩

theorem Settled.save {s : State} {phase : Phase} {m : MachineState} (h : Settled s)
    (save : Save s s.phase phase m) : Settled ((s.goto phase).save m) := by
  have sound := h.sound
  generalize at_ : s.phase = from_ at save sound
  cases save with
  | add => exact .saves sound.1 sound.2.1 trivial
  | foreground => exact .saves (.of_none sound.1 sound.2.1) (.of_none sound.1) trivial
  | @launch state pid mode cleanup now accel =>
      have launched : Launched s.pids (state.launched pid mode accel now) :=
        ⟨fun p is => Option.some.inj is ▸ sound.1, rfl, Option.some_ne_none _⟩
      exact .saves launched.agrees launched.own ⟨launched, sound.2⟩
  | @boot state cleanup respawned accel bootMs =>
      have booted : Launched s.pids (state.booted accel bootMs) :=
        ⟨sound.1.own, sound.1.running, sound.1.started⟩
      exact .saves booted.agrees booted.own ⟨booted, sound.2⟩
  | @cycled state pid cleanup now =>
      have cycled : Launched s.pids (state.powerCycled pid now) :=
        ⟨sound.1.own, rfl, Option.some_ne_none _⟩
      exact .saves cycled.agrees cycled.own ⟨cycled, sound.2⟩
  | respawned => exact .saves sound.1.agrees sound.1.own sound
  | change => exact .saves (sound.2.1.apply _) (sound.2.2.apply _) ⟨sound.1.1.mirror _, sound.1.2⟩
  | thaw => exact .saves sound.2.1.thawed sound.2.2 trivial
  | thawWait => exact .saves sound.2.1.thawed sound.2.2 sound.1
  | stop =>
      obtain ⟨pid, frozen⟩ := Target.apply_none _ _
      exact .saves (.of_none pid frozen) (.of_none pid) (Target.Thawed.after sound).1

theorem Settled.undo {s : State} {restore : MachineState} (h : Settled s)
    (at_ : s.phase = .undoing (.resetFirstBoot restore)) :
    Settled { (s.goto .idle).save { restore with status := .stopped, pid := none } with
      undone := some restore } := by
  have frozen : restore.frozen = none := by
    have sound := h.sound
    rw [at_] at sound
    exact sound
  have saved : Settled ((s.goto .idle).save { restore with status := .stopped, pid := none }) :=
    .saves (.of_none rfl frozen) (.of_none rfl) trivial
  exact ⟨saved.agrees, saved.own, trivial, saved.signalled⟩

theorem Settled.kill {s : State} {e : Event} {phase : Phase} {pid : Option Pid} (h : Settled s)
    (tidy : tidySpawn s (.step e) = true) (kill : Kill s e s.phase phase pid) :
    Settled ((s.goto phase).stopQemu pid) := by
  have sound := h.sound
  simp only [tidySpawn] at tidy
  have own : ∀ {from_ : Phase}, s.phase = from_ → from_.unsaved = false →
      ∀ m, s.record = some m → Own s.pids m := fun at_ saved m is => h.own m is (by rw [at_, saved])
  generalize at_ : s.phase = from_ at kill sound tidy
  have stops : ∀ {phase : Phase} {pid : Option Pid}, (∀ p, pid = some p → s.pids.head? = some p) →
      from_.unsaved = false → phase.Sound ((s.goto phase).stopQemu pid) →
      Settled ((s.goto phase).stopQemu pid) :=
    fun mine saved sound => ⟨h.agrees, fun m is _ => own at_ saved m is, sound, mine⟩
  have recorded : ∀ {state : MachineState}, Own s.pids state →
      ∀ p, (if s.isMachineRunning state then state.pid else none) = some p → s.pids.head? = some p := by
    intro state own p is
    split at is
    · exact own p is
    · cases is
  cases kill with
  | boot | provision | cycle => exact stops sound.1.own rfl sound.2
  | unreplaced is => subst is; cases tidy
  | respawn | replace => exact stops sound.1.own rfl sound
  | relaunch => exact stops sound.1.own rfl trivial
  | stop => exact stops sound.2.1 rfl trivial
  | clean | remove => exact stops (recorded sound.2.1) rfl trivial
  | wait => exact stops sound rfl trivial

theorem Settled.spawn {s : State} {phase : Phase} {pid : Pid} (h : Settled s)
    (tidy : tidyForeground s (.step (.spawn pid)) = true) (spawn : Spawn s pid s.phase phase) :
    Settled ((s.goto phase).spawnQemu pid) := by
  have sound := h.sound
  simp only [tidyForeground] at tidy
  generalize at_ : s.phase = from_ at spawn sound tidy
  cases spawn with
  | createForeground =>
      obtain ⟨new, pid, frozen⟩ := sound.2.2
      refine ⟨h.agrees, fun m is => ?_, ⟨pid, frozen, fun m is => ?_⟩, fun p is => by cases is⟩ <;>
        cases new.symm.trans is
  | create => exact ⟨h.agrees, fun _ _ is => (by cases is), ⟨rfl, trivial⟩, fun p is => by cases is⟩
  | foreground =>
      dsimp only at tidy
      rw [Bool.and_eq_true, Option.isNone_iff_eq_none, Option.isNone_iff_eq_none] at tidy
      have recorded : s.record = some _ := sound.2.2
      have none : ∀ m, s.record = some m → m.pid = none := fun m is => by
        cases recorded.symm.trans is; exact tidy.1
      exact ⟨h.agrees, fun m is _ => .of_none (none m is), ⟨tidy.1, tidy.2, none⟩,
        fun p is => by cases is⟩
  | start =>
      exact ⟨h.agrees, fun _ _ is => (by cases is), ⟨rfl, thawed_cleanup sound.1⟩,
        fun p is => by cases is⟩
  | @replace state cleanup cycle =>
      have launched : Launched (pid :: s.pids) { state with pid := some pid } :=
        ⟨fun _ is => is, sound.1.running, sound.1.started⟩
      exact ⟨h.agrees, fun _ _ is => (by cases is), ⟨launched, sound.2⟩, fun p is => by cases is⟩

theorem Settled.finish {s : State} {pid : Option Pid} (h : Settled s) (finish : Finish s.phase pid) :
    Settled { s.goto .idle with started := pid } := by
  have saved : s.phase.unsaved = false := by
    generalize s.phase = from_ at finish
    cases finish <;> rfl
  exact ⟨h.agrees, fun m is _ => h.own m is saved, trivial, fun p is => by cases is⟩

theorem Settled.exit {s : State} (h : Settled s) (pid : Pid) :
    Settled { s with alive := Function.update s.alive pid false, signalled := none, undone := none } := by
  refine ⟨h.agrees, h.own, ?_, fun p is => by cases is⟩
  have sound := h.sound
  generalize s.phase = phase at sound ⊢
  cases phase <;> exact sound

theorem Settled.new {s : State} {op : Operation} {state : MachineState} (h : Settled s)
    (none : s.record = none)
    (created : ∃ name request now, op = .add name request now ∧
        state = created name request now .stopped ∨
      ∃ mode, op = .create name request now mode ∧ state = created name request now .running) :
    Settled (s.goto (.entered op state)) := by
  refine ⟨h.agrees, fun m is => ?_, ?_, fun p is => by cases is⟩
  · cases none.symm.trans is
  · obtain ⟨name, request, now, ⟨rfl, rfl⟩ | ⟨mode, rfl, rfl⟩⟩ := created <;>
      exact ⟨.of_none rfl rfl, .of_none rfl, none, rfl, rfl⟩

theorem Settled.next {s s' : State} {e : Event} (h : Settled s)
    (tidy : tidyForeground s (.step e) = true ∧ tidySpawn s (.step e) = true)
    (step : next s e = some s') : Settled s' := by
  cases move_of_next step with
  | new at_ none created => exact h.new none created
  | quiet quiet => exact h.quiet tidy.2 quiet
  | load is load => exact h.load is load
  | save save => exact h.save save
  | booted save => exact h.save save
  | undo at_ => exact h.undo at_
  | remove at_ =>
      exact ⟨fun _ is => (by cases is), fun _ is => (by cases is), trivial, fun p is => by cases is⟩
  | kill kill => exact h.kill tidy.2 kill
  | spawn _ spawn => exact h.spawn tidy.1 spawn
  | finish finish => exact h.finish finish
  | exit pid => exact h.exit pid

theorem Settled.refreshed {s : State} (h : Settled s) (idle : s.phase = .idle) :
    Settled s.refreshed := by
  have sound : ∀ s' : State, s'.phase = s.phase → s'.phase.Sound s' := fun s' same => by
    rw [same, idle]; trivial
  unfold State.refreshed
  split
  · rename_i m is
    split
    · refine ⟨fun m' is' => ?_, fun m' is' _ => ?_, sound _ rfl, fun p is => by cases is⟩ <;>
        rw [← Option.some.inj is']
      · exact .of_none rfl rfl
      · exact .of_none rfl
    · exact ⟨h.agrees, h.own, sound _ rfl, fun p is => by cases is⟩
  · exact ⟨h.agrees, h.own, sound _ rfl, fun p is => by cases is⟩

theorem settled_init : Settled .init :=
  ⟨fun _ is => (by cases is), fun _ is => (by cases is), trivial, fun _ is => by cases is⟩

/-- As long as no foreground start begins from the record of a QEMU that has died, and none that
is spawned in the background dies at once while another is on record: a record that says stopped
has no pid and no frozen marker, and only the last spawned QEMU is signalled. -/
theorem stopped_has_no_pid {s : State}
    (h : sequential.ReachableUnder
      (fun s c => tidyForeground s c = true ∧ tidySpawn s c = true) s) :
    (∀ m, s.record = some m → m.status = .stopped → m.pid = none ∧ m.frozen = none) ∧
      ∀ p, s.signalled = some p → s.pids.head? = some p := by
  have settled : Settled s := by
    refine h.invariant (fun s start => start ▸ settled_init) fun s c s' _ settled tidy step => ?_
    cases c with
    | step e => exact settled.next tidy step
    | refresh =>
        obtain ⟨idle, ⟨⟩⟩ := Option.ite_none_right_eq_some.mp step
        exact settled.refreshed idle
  exact ⟨fun m is => (settled.agrees m is).stopped, settled.signalled⟩

/-- A background launch of a machine there is. -/
def background (pid : Pid) : List Event :=
  [.lock (.start .background), .spawn pid, .save 1 "kvm", .boot "kvm" 9000, .finish]

def added : List Event := [.lock (.add "chr" {} 0), .save 0 ""]

def stopping : List Event := [.lock .stop, .kill, .reload, .save 3 ""]

theorem stopped_has_no_pid_once : ∃ (s : State) (m : MachineState), s.record = some m ∧
    m.status = .stopped ∧ m.pid = none ∧ m.frozen = none := by
  obtain ⟨s, reachable, stopped⟩ := Transition.System.exists_reachable
    (S := sequential.restrict fun s c => tidyForeground s c = true ∧ tidySpawn s c = true)
    (P := fun s => s.record.any (·.status = .stopped) = true)
    ((added ++ background 100 ++ stopping).map .step ++ [.refresh]) (s := .init) rfl
    (by decide +kernel)
  obtain ⟨m, is, stopped⟩ := (Option.any_eq_true _ _).mp stopped
  rw [decide_eq_true_eq] at stopped
  exact ⟨s, m, is, stopped,
    (stopped_has_no_pid (Transition.System.ReachableUnder.of_restrict reachable)).1 m is stopped⟩

/-- QEMU dies and a foreground start follows: the pid of the dead one stays in the record that
says stopped, and `stop` signals it. -/
def strayPid : List Event :=
  added ++ background 100 ++ [Event.exit 100, .lock (.start .foreground), .spawn 101, .exit 101,
    .save 2 "kvm", .lock .stop, .kill]

/-- QEMU dies and the next one dies as it is spawned: `stop` signals the first. -/
def failedSpawn : List Event :=
  added ++ background 100 ++ [Event.exit 100, .lock (.start .background), .spawn 101, .exit 101,
    .fail, .lock .stop, .kill]

theorem stopped_has_no_pid_fails :
    (¬ ∀ s, sequential.Reachable s → ∀ m, s.record = some m → m.status = .stopped →
      m.pid = none ∧ m.frozen = none) ∧
    (¬ ∀ s, sequential.Reachable s → ∀ p, s.signalled = some p → s.pids.head? = some p) ∧
    ¬ ∀ s, sequential.ReachableUnder (fun s c => tidyForeground s c = true) s →
      ∀ p, s.signalled = some p → s.pids.head? = some p := by
  obtain ⟨s, reachable, stray, signalled, last⟩ :=
    Transition.System.exists_reachable (S := sequential)
      (P := fun s => s.record.any (fun m => m.status = .stopped && m.pid.isSome) = true ∧
        s.signalled = some 100 ∧ s.pids.head? = some 101)
      (strayPid.map .step) (s := .init) rfl (by decide +kernel)
  refine ⟨?_, ?_, ?_⟩
  · intro claim
    obtain ⟨m, is, stray⟩ := (Option.any_eq_true _ _).mp stray
    rw [Bool.and_eq_true, decide_eq_true_eq] at stray
    rw [(claim s reachable m is stray.1).1] at stray
    cases stray.2
  · intro claim
    cases last.symm.trans (claim s reachable 100 signalled)
  · intro claim
    obtain ⟨t, reachable, signalled, last⟩ := Transition.System.exists_reachable
      (S := sequential.restrict fun s c => tidyForeground s c = true)
      (P := fun s => s.signalled = some 100 ∧ s.pids.head? = some 101)
      (failedSpawn.map .step) (s := .init) rfl (by decide +kernel)
    cases last.symm.trans
      (claim t (Transition.System.ReachableUnder.of_restrict reachable) 100 signalled)

end Quickchr.Lifecycle
