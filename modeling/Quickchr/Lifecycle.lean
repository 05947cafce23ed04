import Quickchr.Provisioning

/-!
# One machine under its lock

The operations on one machine, step by step as they touch `machine.json` and QEMU: every save,
every reload before a save, every QEMU that is spawned or stopped, and every point at which an
operation fails. The lock is exclusive, so one operation is under way at a time; QEMU can die
between any two steps.
-/
namespace Quickchr.Lifecycle

open ProvisioningWindow Provisioning

/-- What a launch that fails to boot or to provision does once the guest is stopped. -/
inductive BootFailureCleanup
  | removeNew
  | resetFirstBoot (restore : MachineState)
  | preserveExisting
  deriving DecidableEq

/-- A foreground launch is one without provisioning: with it, the guest is launched in the
background. -/
inductive Operation
  | add (name : String) (request : ProvisioningRequest) (now : Timestamp)
  | create (name : String) (request : ProvisioningRequest) (now : Timestamp) (mode : LaunchMode)
  | start (mode : LaunchMode)
  | stop
  | clean (now : Timestamp)
  | remove
  | continue (wait : Bool)
  deriving DecidableEq

def Operation.creates : Operation → Bool
  | .add .. | .create .. => true
  | _ => false

/-- What the steps of `_provisionInstance` change in `machine.json`. -/
inductive Change
  | packages (installed : List String)
  | license (level : String)
  | account (user : Option Login) (managedSshKey : Option ManagedSshKey)
  | provisioning (record : ProvisioningRecord)
  deriving DecidableEq

/-- The change to the record that was loaded again. -/
def Change.apply : Change → MachineState → MachineState
  | .packages installed, m => { m with packages := installed }
  | .license level, m => { m with licenseLevel := some level }
  | .account user key, m =>
      { m with
        user := (user.map fun login => ⟨login.name, STORED_IN_SECRETS_PASSWORD⟩).or m.user
        managedSshKey := key.or m.managedSshKey }
  | .provisioning record, m => { m with provisioning := some record }

/-- The same change to the state in memory, which keeps the real password. -/
def Change.mirror : Change → MachineState → MachineState
  | .account user key, m => { m with user := user.or m.user, managedSshKey := key.or m.managedSshKey }
  | change, m => change.apply m

/-- What is made of a record that is loaded again once QEMU is stopped. -/
inductive Target
  | stop (cleanup : Option BootFailureCleanup)
  | clean (now : Timestamp)
  deriving DecidableEq

def Target.apply : Target → MachineState → MachineState
  | .stop _, m => m.stopped
  | .clean now, m => m.cleaned now

/-- Where the holder of the machine lock is; `state` is the record it has in memory. -/
inductive Phase
  | idle
  | entered (op : Operation) (state : MachineState)
  /-- A foreground launch: `spawnQemu` returns when QEMU has exited. -/
  | console (state : MachineState) (pid : Pid)
  | spawned (state : MachineState) (pid : Pid) (mode : LaunchMode) (cleanup : BootFailureCleanup)
  /-- The launch record is saved; `respawned` once the boot has had its second QEMU. -/
  | launched (state : MachineState) (mode : LaunchMode) (cleanup : BootFailureCleanup)
    (respawned : Bool)
  /-- QEMU is stopped to be replaced, by the second try of a boot or by a power cycle. -/
  | replacing (state : MachineState) (cleanup : BootFailureCleanup) (cycle : Bool)
  /-- The next QEMU is spawned; `state` names the one before it. -/
  | replaced (state : MachineState) (pid : Pid) (cleanup : BootFailureCleanup) (cycle : Bool)
  | ready (state : MachineState) (cleanup : BootFailureCleanup)
  | changing (state : MachineState) (cleanup : BootFailureCleanup) (change : Change)
    (current : MachineState)
  | resumed (state : MachineState) (wait : Bool)
  | thawing (state : MachineState) (wait : Bool) (current : MachineState)
  /-- `continue` waits for the guest it has resumed. -/
  | waiting (state : MachineState)
  | halted (target : Target)
  | saving (target : Target) (current : MachineState)
  /-- The guest of a failed launch is stopped, its record says so. -/
  | undoing (cleanup : BootFailureCleanup)
  | removing
  deriving DecidableEq

structure State where
  /-- `machine.json`. -/
  record : Option MachineState
  /-- The QEMUs of this machine, newest first. -/
  pids : List Pid
  alive : Pid → Bool
  phase : Phase
  /-- The pid that the last step has signalled. -/
  signalled : Option Pid
  /-- The QEMU of the last start that has completed, until an operation stops it. -/
  started : Option Pid
  /-- The first boot that the last step has undone: the record before it. -/
  undone : Option MachineState
  /-- How often an operation has saved or removed `machine.json`. -/
  version : ℕ

inductive Event
  | lock (op : Operation)
  /-- The machine runs already: `start` hands back an instance. -/
  | handle
  | spawn (pid : Pid)
  | save (now : Timestamp) (accel : String)
  | boot (accel : String) (bootMs : ℕ)
  | respawn
  | cycle
  | change (change : Change)
  /-- The operation returns. -/
  | finish
  /-- The operation throws, or gives up what it was at. -/
  | fail
  /-- QEMU is stopped. -/
  | kill
  | resume
  | reload
  /-- QEMU dies. -/
  | exit (pid : Pid)
  deriving DecidableEq

def State.isMachineRunning (s : State) (m : MachineState) : Bool :=
  m.status = .running && m.pid.any s.alive

def State.goto (s : State) (phase : Phase) : State :=
  { s with phase := phase, signalled := none, undone := none }

def State.save (s : State) (m : MachineState) : State :=
  { s with record := some m, version := s.version + 1 }

def State.remove (s : State) : State := { s with record := none, version := s.version + 1 }

/-- `stopQemu`, when there is a pid. -/
def State.stopQemu (s : State) (pid : Option Pid) : State :=
  { s with
    alive := fun p => s.alive p && pid ≠ some p
    signalled := pid
    started := if pid.isSome then none else s.started }

def State.spawnQemu (s : State) (pid : Pid) : State :=
  { s with alive := Function.update s.alive pid true, pids := pid :: s.pids }

def Target.after : Target → Phase
  | .stop (some cleanup) => .undoing cleanup
  | .stop none | .clean _ => .idle

/-- A launch is a first boot while the provisioning window is open. -/
def bootFailureCleanup (state : MachineState) : BootFailureCleanup :=
  if isProvisioningWindowOpen state then .resetFirstBoot state else .preserveExisting

/-- A step of the operation that has the lock. -/
def advance (s : State) : Phase → Event → Option State
  | .idle, .lock (.add name request now) =>
      if s.record.isNone then
        some (s.goto (.entered (.add name request now) (created name request now .stopped)))
      else none
  | .idle, .lock (.create name request now mode) =>
      if s.record.isNone then
        some (s.goto (.entered (.create name request now mode) (created name request now .running)))
      else none
  | .idle, .lock op => s.record.map fun m => s.goto (.entered op m)
  | .entered (.add ..) state, .save .. => some ((s.goto .idle).save state)
  | .entered _ _, .fail => some (s.goto .idle)
  | .entered (.start _) state, .handle =>
      if s.isMachineRunning state then some (s.goto .idle) else none
  | .entered (.create _ _ _ mode) state, .spawn pid =>
      if pid ∈ s.pids then none
      else some ((s.goto (if mode = .foreground then .console state pid
        else .spawned state pid mode .removeNew)).spawnQemu pid)
  | .entered (.start mode) state, .spawn pid =>
      if pid ∈ s.pids ∨ s.isMachineRunning state then none
      else some ((s.goto (if mode = .foreground then .console state pid
        else .spawned state pid mode (bootFailureCleanup state))).spawnQemu pid)
  | .console state pid, .save now _ =>
      if s.alive pid then none else some ((s.goto .idle).save (state.foregroundExited now))
  -- QEMU has exited with an error status.
  | .console _ pid, .fail => if s.alive pid then none else some (s.goto .idle)
  | .spawned state pid mode cleanup, .save now accel =>
      let state := state.launched pid mode accel now
      some ((s.goto (.launched state mode cleanup false)).save state)
  -- `spawnQemu` finds it dead after 1.5 s and throws; the record is as it was.
  | .spawned _ pid _ _, .fail | .replaced _ pid _ false, .fail =>
      if s.alive pid then none else some (s.goto .idle)
  -- Frozen and `wait: false` launches return once QEMU runs.
  | .launched state .frozen _ _, .finish | .launched state .noWait _ _, .finish =>
      some { s.goto .idle with started := state.pid }
  | .launched state .background cleanup _, .boot accel bootMs =>
      let state := state.booted accel bootMs
      some ((s.goto (.ready state cleanup)).save state)
  | .launched state .background .removeNew false, .respawn =>
      some ((s.goto (.replacing state .removeNew false)).stopQemu state.pid)
  | .launched state .background cleanup _, .kill | .ready state cleanup, .kill
  | .replacing state cleanup true, .kill =>
      some ((s.goto (.halted (.stop (some cleanup)))).stopQemu state.pid)
  | .ready state cleanup, .cycle =>
      some ((s.goto (.replacing state cleanup true)).stopQemu state.pid)
  | .replacing state cleanup cycle, .spawn pid =>
      if pid ∈ s.pids then none
      else some ((s.goto (.replaced state pid cleanup cycle)).spawnQemu pid)
  -- The second QEMU of a boot does not come up: `start` throws.
  | .replacing _ _ false, .fail => some (s.goto .idle)
  | .replaced state pid cleanup true, .save now _ =>
      let state := state.powerCycled pid now
      some ((s.goto (.ready state cleanup)).save state)
  -- The rollback of a power cycle that fails stops the QEMU it knows of.
  | .replaced state pid cleanup true, .kill =>
      if s.alive pid then none
      else some ((s.goto (.halted (.stop (some cleanup)))).stopQemu state.pid)
  | .replaced state pid cleanup false, .save _ _ =>
      let state := { state with pid := some pid }
      some ((s.goto (.launched state .background cleanup true)).save state)
  | .ready state cleanup, .change change =>
      some (s.goto (match s.record with
        | some current => .changing state cleanup change current
        | none => .ready (change.mirror state) cleanup))
  | .changing state cleanup change current, .save .. =>
      some ((s.goto (.ready (change.mirror state) cleanup)).save (change.apply current))
  | .ready state _, .finish => some { s.goto .idle with started := state.pid }
  -- A foreground start with provisioning stops the guest and launches it again.
  | .ready state .removeNew, .fail => some ((s.goto (.halted (.stop none))).stopQemu state.pid)
  | .entered .stop state, .kill => some ((s.goto (.halted (.stop none))).stopQemu state.pid)
  | .entered (.clean now) state, .kill =>
      some ((s.goto (.halted (.clean now))).stopQemu (if s.isMachineRunning state then state.pid
        else none))
  | .entered .remove state, .kill =>
      some ((s.goto .removing).stopQemu (if s.isMachineRunning state then state.pid else none))
  | .entered (.continue wait) state, .resume =>
      some (s.goto (if s.isMachineRunning state then .resumed state wait else .halted (.stop none)))
  | .resumed _ _, .fail => some (s.goto .idle)
  | .resumed state wait, .reload =>
      some (s.goto (match s.record with
        | some current => .thawing state wait current
        | none => if wait then .waiting { state with frozen := none } else .idle))
  | .thawing state wait current, .save .. =>
      some ((s.goto (if wait then .waiting { state with frozen := none } else .idle)).save
        { current with frozen := none })
  | .waiting _, .finish => some (s.goto .idle)
  | .waiting state, .kill =>
      some ((s.goto (.halted (.stop (some .preserveExisting)))).stopQemu state.pid)
  -- The disk of a machine that is cleaned cannot be reset.
  | .halted (.clean _), .fail => some (s.goto .idle)
  | .halted target, .reload =>
      some (s.goto (match s.record with
        | some current => .saving target current
        | none => target.after))
  | .saving target current, .save .. => some ((s.goto target.after).save (target.apply current))
  | .undoing (.resetFirstBoot restore), .save .. =>
      some { (s.goto .idle).save { restore with status := .stopped, pid := none } with
        undone := some restore }
  | .undoing .removeNew, .kill => some (s.goto .removing)
  -- Nothing to undo, the flag to preserve it, or a reset that fails.
  | .undoing _, .fail => some (s.goto .idle)
  | .removing, .save .. => some (s.goto .idle).remove
  | _, _ => none

def next (s : State) : Event → Option State
  | .exit pid => some { s with alive := Function.update s.alive pid false, signalled := none, undone := none }
  | e => advance s s.phase e

def State.init : State where
  record := none
  pids := []
  alive _ := false
  phase := .idle
  signalled := none
  started := none
  undone := none
  version := 0

inductive Quiet (s : State) (e : Event) : Phase → Phase → Prop
  | give {op state} : Quiet s e (.entered op state) .idle
  | quit {state pid} : s.alive pid = false → Quiet s e (.console state pid) .idle
  | lost {state cleanup} : Quiet s e (.replacing state cleanup false) .idle
  | died {state pid mode cleanup} : e = .fail → s.alive pid = false →
      Quiet s e (.spawned state pid mode cleanup) .idle
  | diedAgain {state pid cleanup} : e = .fail → s.alive pid = false →
      Quiet s e (.replaced state pid cleanup false) .idle
  | mirror {state cleanup change} : s.record = none →
      Quiet s e (.ready state cleanup) (.ready (Change.mirror change state) cleanup)
  | resume {wait state} : s.isMachineRunning state = true →
      Quiet s e (.entered (.continue wait) state) (.resumed state wait)
  | stopped {wait state} : s.isMachineRunning state = false →
      Quiet s e (.entered (.continue wait) state) (.halted (.stop none))
  | refused {state wait} : Quiet s e (.resumed state wait) .idle
  | resumed {state} : s.record = none → Quiet s e (.resumed state false) .idle
  | wait {state} : s.record = none →
      Quiet s e (.resumed state true) (.waiting { state with frozen := none })
  | answered {state} : Quiet s e (.waiting state) .idle
  | unreset {now} : Quiet s e (.halted (.clean now)) .idle
  | gone {target} : s.record = none → Quiet s e (.halted target) target.after
  | left {cleanup} : e = .fail → Quiet s e (.undoing cleanup) .idle
  | discard : Quiet s e (.undoing .removeNew) .removing

/-- A step that reads `machine.json`. -/
inductive Load (e : Event) (m : MachineState) : Phase → Phase → Prop
  | lock {op} : e = .lock op → op.creates = false → Load e m .idle (.entered op m)
  | change {state cleanup change} :
      Load e m (.ready state cleanup) (.changing state cleanup change m)
  | thaw {state wait} : Load e m (.resumed state wait) (.thawing state wait m)
  | stop {target} : Load e m (.halted target) (.saving target m)

inductive Save (s : State) : Phase → Phase → MachineState → Prop
  | add {name request now state} : Save s (.entered (.add name request now) state) .idle state
  | foreground {state pid} now : s.alive pid = false →
      Save s (.console state pid) .idle (state.foregroundExited now)
  | launch {state pid mode cleanup} now accel :
      Save s (.spawned state pid mode cleanup)
        (.launched (state.launched pid mode accel now) mode cleanup false)
        (state.launched pid mode accel now)
  | boot {state cleanup respawned} accel bootMs :
      Save s (.launched state .background cleanup respawned)
        (.ready (state.booted accel bootMs) cleanup) (state.booted accel bootMs)
  | cycled {state pid cleanup} now :
      Save s (.replaced state pid cleanup true) (.ready (state.powerCycled pid now) cleanup)
        (state.powerCycled pid now)
  | respawned {state pid cleanup} :
      Save s (.replaced state pid cleanup false)
        (.launched { state with pid := some pid } .background cleanup true)
        { state with pid := some pid }
  | change {state cleanup change current} :
      Save s (.changing state cleanup change current) (.ready (Change.mirror change state) cleanup)
        (Change.apply change current)
  | thaw {state current} :
      Save s (.thawing state false current) .idle { current with frozen := none }
  | thawWait {state current} :
      Save s (.thawing state true current) (.waiting { state with frozen := none })
        { current with frozen := none }
  | stop {target current} : Save s (.saving target current) target.after (target.apply current)

/-- A step that stops the QEMU with this pid, if there is one. -/
inductive Kill (s : State) (e : Event) : Phase → Phase → Option Pid → Prop
  | boot {state cleanup respawned} :
      Kill s e (.launched state .background cleanup respawned) (.halted (.stop (some cleanup))) state.pid
  | provision {state cleanup} : Kill s e (.ready state cleanup) (.halted (.stop (some cleanup))) state.pid
  | cycle {state cleanup} : Kill s e (.replacing state cleanup true) (.halted (.stop (some cleanup))) state.pid
  | unreplaced {state pid cleanup} : e = .kill → s.alive pid = false →
      Kill s e (.replaced state pid cleanup true) (.halted (.stop (some cleanup))) state.pid
  | respawn {state} : Kill s e (.launched state .background .removeNew false)
      (.replacing state .removeNew false) state.pid
  | replace {state cleanup} : Kill s e (.ready state cleanup) (.replacing state cleanup true) state.pid
  | relaunch {state} : Kill s e (.ready state .removeNew) (.halted (.stop none)) state.pid
  | stop {state} : Kill s e (.entered .stop state) (.halted (.stop none)) state.pid
  | clean {now state} : Kill s e (.entered (.clean now) state) (.halted (.clean now))
      (if s.isMachineRunning state then state.pid else none)
  | remove {state} : Kill s e (.entered .remove state) .removing
      (if s.isMachineRunning state then state.pid else none)
  | wait {state} : Kill s e (.waiting state) (.halted (.stop (some .preserveExisting))) state.pid

inductive Spawn (s : State) (pid : Pid) : Phase → Phase → Prop
  | createForeground {name request now state} :
      Spawn s pid (.entered (.create name request now .foreground) state) (.console state pid)
  | create {name request now mode state} : mode ≠ .foreground →
      Spawn s pid (.entered (.create name request now mode) state) (.spawned state pid mode .removeNew)
  | foreground {state} : s.isMachineRunning state = false →
      Spawn s pid (.entered (.start .foreground) state) (.console state pid)
  | start {mode state} : mode ≠ .foreground → s.isMachineRunning state = false →
      Spawn s pid (.entered (.start mode) state) (.spawned state pid mode (bootFailureCleanup state))
  | replace {state cleanup cycle} : Spawn s pid (.replacing state cleanup cycle)
      (.replaced state pid cleanup cycle)

/-- A step after which a launch is complete. -/
inductive Finish : Phase → Option Pid → Prop
  | frozen {state cleanup respawned} : Finish (.launched state .frozen cleanup respawned) state.pid
  | noWait {state cleanup respawned} : Finish (.launched state .noWait cleanup respawned) state.pid
  | provisioned {state cleanup} : Finish (.ready state cleanup) state.pid

inductive Move (s : State) : Event → State → Prop
  | new {op state} : s.phase = .idle → s.record = none →
      (∃ name request now, op = .add name request now ∧ state = created name request now .stopped ∨
        ∃ mode, op = .create name request now mode ∧ state = created name request now .running) →
      Move s (.lock op) (s.goto (.entered op state))
  | quiet {e phase} : Quiet s e s.phase phase → Move s e (s.goto phase)
  | load {e m phase} : s.record = some m → Load e m s.phase phase → Move s e (s.goto phase)
  | save {now accel phase m} : Save s s.phase phase m →
      Move s (.save now accel) ((s.goto phase).save m)
  | booted {accel bootMs phase m} : Save s s.phase phase m →
      Move s (.boot accel bootMs) ((s.goto phase).save m)
  | undo {now accel restore} : s.phase = .undoing (.resetFirstBoot restore) →
      Move s (.save now accel)
        { (s.goto .idle).save { restore with status := .stopped, pid := none } with
          undone := some restore }
  | remove {now accel} : s.phase = .removing → Move s (.save now accel) (s.goto .idle).remove
  | kill {e phase pid} : Kill s e s.phase phase pid → Move s e ((s.goto phase).stopQemu pid)
  | spawn {phase pid} : pid ∉ s.pids → Spawn s pid s.phase phase →
      Move s (.spawn pid) ((s.goto phase).spawnQemu pid)
  | finish {pid} : Finish s.phase pid → Move s .finish { s.goto .idle with started := pid }
  | exit pid : Move s (.exit pid)
      { s with alive := Function.update s.alive pid false, signalled := none, undone := none }

theorem move_of_next {s s' : State} {e : Event} (h : next s e = some s') : Move s e s' := by
  unfold next at h
  split at h
  · cases h; exact .exit _
  unfold advance at h
  split at h
  case h_1 name request now at_ _ =>
      obtain ⟨new, ⟨⟩⟩ := Option.ite_none_right_eq_some.mp h
      exact .new at_ (Option.isNone_iff_eq_none.mp new) ⟨name, request, now, .inl ⟨rfl, rfl⟩⟩
  case h_2 name request now mode at_ _ =>
      obtain ⟨new, ⟨⟩⟩ := Option.ite_none_right_eq_some.mp h
      exact .new at_ (Option.isNone_iff_eq_none.mp new) ⟨name, request, now, .inr ⟨mode, rfl, rfl⟩⟩
  case h_3 op add create at_ _ =>
      obtain ⟨m, is, rfl⟩ := Option.map_eq_some_iff.mp h
      have existing : op.creates = false := by
        cases op with
        | add name request now => exact (add name request now rfl).elim
        | create name request now mode => exact (create name request now mode rfl).elim
        | _ => rfl
      exact .load is (by rw [at_]; exact .lock rfl existing)
  case h_4 at_ _ => cases h; exact .save (by rw [at_]; exact .add)
  case h_5 at_ _ => cases h; exact .quiet (by rw [at_]; exact .give)
  case h_6 at_ _ =>
      obtain ⟨_, ⟨⟩⟩ := Option.ite_none_right_eq_some.mp h
      exact .quiet (by rw [at_]; exact .give)
  case h_7 at_ _ =>
      obtain ⟨new, ⟨⟩⟩ := Option.ite_none_left_eq_some.mp h
      refine .spawn new ?_
      rw [at_]
      split
      · rename_i is; subst is; exact .createForeground
      · rename_i other; exact .create other
  case h_8 at_ _ =>
      obtain ⟨new, ⟨⟩⟩ := Option.ite_none_left_eq_some.mp h
      obtain ⟨new, stopped⟩ := not_or.mp new
      refine .spawn new ?_
      rw [at_]
      split
      · rename_i is; subst is; exact .foreground (Bool.eq_false_iff.mpr stopped)
      · rename_i other; exact .start other (Bool.eq_false_iff.mpr stopped)
  case h_9 at_ _ =>
      obtain ⟨dead, ⟨⟩⟩ := Option.ite_none_left_eq_some.mp h
      exact .save (by rw [at_]; exact .foreground _ (Bool.eq_false_iff.mpr dead))
  case h_10 at_ _ =>
      obtain ⟨dead, ⟨⟩⟩ := Option.ite_none_left_eq_some.mp h
      exact .quiet (by rw [at_]; exact .quit (Bool.eq_false_iff.mpr dead))
  case h_11 at_ _ => cases h; exact .save (by rw [at_]; exact .launch _ _)
  case h_12 at_ _ =>
      obtain ⟨dead, ⟨⟩⟩ := Option.ite_none_left_eq_some.mp h
      exact .quiet (by rw [at_]; exact .died rfl (Bool.eq_false_iff.mpr dead))
  case h_13 at_ _ =>
      obtain ⟨dead, ⟨⟩⟩ := Option.ite_none_left_eq_some.mp h
      exact .quiet (by rw [at_]; exact .diedAgain rfl (Bool.eq_false_iff.mpr dead))
  case h_14 at_ _ => cases h; exact .finish (by rw [at_]; exact .frozen)
  case h_15 at_ _ => cases h; exact .finish (by rw [at_]; exact .noWait)
  case h_16 at_ _ => cases h; exact .booted (by rw [at_]; exact .boot _ _)
  case h_17 at_ _ => cases h; exact .kill (by rw [at_]; exact .respawn)
  case h_18 at_ _ => cases h; exact .kill (by rw [at_]; exact .boot)
  case h_19 at_ _ => cases h; exact .kill (by rw [at_]; exact .provision)
  case h_20 at_ _ => cases h; exact .kill (by rw [at_]; exact .cycle)
  case h_21 at_ _ => cases h; exact .kill (by rw [at_]; exact .replace)
  case h_22 at_ _ =>
      obtain ⟨new, ⟨⟩⟩ := Option.ite_none_left_eq_some.mp h
      exact .spawn new (by rw [at_]; exact .replace)
  case h_23 at_ _ => cases h; exact .quiet (by rw [at_]; exact .lost)
  case h_24 at_ _ => cases h; exact .save (by rw [at_]; exact .cycled _)
  case h_25 at_ _ =>
      obtain ⟨dead, ⟨⟩⟩ := Option.ite_none_left_eq_some.mp h
      exact .kill (by rw [at_]; exact .unreplaced rfl (Bool.eq_false_iff.mpr dead))
  case h_26 at_ _ => cases h; exact .save (by rw [at_]; exact .respawned)
  case h_27 at_ _ =>
      cases h
      cases is : s.record with
      | some m => exact .load is (by rw [at_]; exact .change)
      | none => exact .quiet (by rw [at_]; exact .mirror is)
  case h_28 at_ _ => cases h; exact .save (by rw [at_]; exact .change)
  case h_29 at_ _ => cases h; exact .finish (by rw [at_]; exact .provisioned)
  case h_30 at_ _ => cases h; exact .kill (by rw [at_]; exact .relaunch)
  case h_31 at_ _ => cases h; exact .kill (by rw [at_]; exact .stop)
  case h_32 at_ _ => cases h; exact .kill (by rw [at_]; exact .clean)
  case h_33 at_ _ => cases h; exact .kill (by rw [at_]; exact .remove)
  case h_34 at_ _ =>
      cases h
      split
      · rename_i running; exact .quiet (by rw [at_]; exact .resume running)
      · rename_i stopped
        exact .quiet (by rw [at_]; exact .stopped (Bool.eq_false_iff.mpr stopped))
  case h_35 at_ _ => cases h; exact .quiet (by rw [at_]; exact .refused)
  case h_36 wait at_ _ =>
      cases h
      cases is : s.record with
      | some m => exact .load is (by rw [at_]; exact .thaw)
      | none =>
          cases wait with
          | true => exact .quiet (by rw [at_]; exact .wait is)
          | false => exact .quiet (by rw [at_]; exact .resumed is)
  case h_37 wait _ _ _ at_ _ =>
      cases h
      cases wait with
      | true => exact .save (by rw [at_]; exact .thawWait)
      | false => exact .save (by rw [at_]; exact .thaw)
  case h_38 at_ _ => cases h; exact .quiet (by rw [at_]; exact .answered)
  case h_39 at_ _ => cases h; exact .kill (by rw [at_]; exact .wait)
  case h_40 at_ _ => cases h; exact .quiet (by rw [at_]; exact .unreset)
  case h_41 at_ _ =>
      cases h
      cases is : s.record with
      | some m => exact .load is (by rw [at_]; exact .stop)
      | none => exact .quiet (by rw [at_]; exact .gone is)
  case h_42 at_ _ => cases h; exact .save (by rw [at_]; exact .stop)
  case h_43 at_ _ => cases h; exact .undo at_
  case h_44 at_ _ => cases h; exact .quiet (by rw [at_]; exact .discard)
  case h_45 at_ _ => cases h; exact .quiet (by rw [at_]; exact .left rfl)
  case h_46 at_ _ => cases h; exact .remove at_
  case h_47 => cases h

end Quickchr.Lifecycle
