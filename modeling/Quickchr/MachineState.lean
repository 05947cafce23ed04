import Quickchr.DeviceMode

/-!
# machine.json

The record of one machine, with the fields its operations read or write, and the errors
they throw. Times are numbers of milliseconds.
-/
namespace Quickchr

abbrev Timestamp := ℕ
abbrev Pid := ℕ

inductive ErrorCode
  | MACHINE_EXISTS | MACHINE_NOT_FOUND | MACHINE_STOPPED | INVALID_ARGUMENT | PORT_CONFLICT
  | PROVISIONING_WINDOW_CLOSED | INVALID_NAME | INVALID_NETWORK | NETWORK_UNAVAILABLE | STATE_ERROR
  | REST_UNAVAILABLE | EXEC_FAILED | QGA_UNSUPPORTED | INSUFFICIENT_DISK_SPACE | BOOT_TIMEOUT
  | PROCESS_FAILED | QGA_TIMEOUT | INVALID_FORWARD_SPEC | INVALID_SIZE_STRING | INVALID_SETTING_KEY
  | INVALID_SETTING_VALUE
  deriving DecidableEq, Repr

structure QuickCHRError where
  code : ErrorCode
  message : String
  deriving DecidableEq, Repr

theorem bind_eq_ok {ε α β : Type} {x : Except ε α} {f : α → Except ε β} {b : β} :
    (x >>= f) = .ok b ↔ ∃ a, x = .ok a ∧ f a = .ok b := by
  cases x with
  | error e => simp [bind, Except.bind]
  | ok a => simp [bind, Except.bind]

theorem map_eq_ok {ε α β : Type} {x : Except ε α} {f : α → β} {b : β} :
    x.map f = .ok b ↔ ∃ a, x = .ok a ∧ f a = b := by
  cases x with
  | error e => simp [Except.map]
  | ok a => simp [Except.map]

theorem ok_of_toOption {ε α : Type} {x : Except ε α} {a : α} (h : x.toOption = some a) : x = .ok a := by
  cases x with
  | error e => cases h
  | ok b => cases h; rfl

/-- One provisioning step, as recorded on `ProvisioningRecord.steps`. -/
inductive ProvisioningStep
  | packages | deviceMode | license | user | disableAdmin | secureLogin
  deriving DecidableEq, Repr

/-- What provisioning landed on the current guest disk. -/
structure ProvisioningRecord where
  time : Timestamp
  steps : List ProvisioningStep
  deriving DecidableEq, Repr

structure Login where
  name : String
  password : String
  deriving DecidableEq, Repr

inductive LicenseInput
  | level (level : String)
  | options (account password level : Option String)
  deriving DecidableEq, Repr

inductive Status
  | stopped | running | error
  deriving DecidableEq, Repr

structure ManagedSshKey where
  privateKeyPath : String
  batchVerified : Bool
  deriving DecidableEq, Repr

structure MachineState where
  name : String
  packages : List String
  installAllPackages : Option Bool := none
  deviceMode : Option DeviceModeOptions := none
  user : Option Login := none
  disableAdmin : Option Bool := none
  secureLogin : Option Bool := none
  licenseLevel : Option String := none
  managedSshKey : Option ManagedSshKey := none
  createdAt : Timestamp
  lastStartedAt : Option Timestamp := none
  provisioning : Option ProvisioningRecord := none
  cleanedAt : Option Timestamp := none
  status : Status
  pid : Option Pid := none
  frozen : Option Bool := none
  lastAccel : Option String := none
  lastBootMs : Option ℕ := none
  deriving DecidableEq, Repr

/-- `finalizeStoppedState`, `get`'s refresh and `refreshAllStatuses` write this. -/
def MachineState.stopped (state : MachineState) : MachineState :=
  { state with status := .stopped, pid := none, frozen := none }

/-- What `cleanUnderLock` writes: the facts about the erased disk go, the intent stays. -/
def MachineState.cleaned (state : MachineState) (now : Timestamp) : MachineState :=
  { state.stopped with
    user := none, managedSshKey := none, disableAdmin := none, provisioning := none
    lastStartedAt := none, licenseLevel := none, cleanedAt := some now }

/-- How `start` launches: `background`, with the boot waited for, unless asked otherwise. -/
inductive LaunchMode
  | background | noWait | frozen | foreground
  deriving DecidableEq, Repr

/-- What a launch saves once QEMU is spawned. -/
def MachineState.launched (state : MachineState) (pid : Pid) (mode : LaunchMode) (accel : String)
    (now : Timestamp) : MachineState :=
  { state with
    pid := some pid, status := .running, lastStartedAt := some now
    frozen := if mode = .frozen then some true else none
    lastAccel := if mode = .frozen then some accel else state.lastAccel }

/-- The state that `hardRebootMachine` saves. -/
def MachineState.powerCycled (state : MachineState) (pid : Pid) (now : Timestamp) : MachineState :=
  { state with pid := some pid, status := .running, lastStartedAt := some now, frozen := none }

/-- What a foreground launch saves once QEMU has exited. -/
def MachineState.foregroundExited (state : MachineState) (now : Timestamp) : MachineState :=
  { state with status := .stopped, lastStartedAt := some now }

/-- What a launch saves once the guest has booted. -/
def MachineState.booted (state : MachineState) (accel : String) (bootMs : ℕ) : MachineState :=
  { state with lastAccel := some accel, lastBootMs := some bootMs }

/-- The password `machine.json` carries once the real one is in the secret store. -/
def STORED_IN_SECRETS_PASSWORD : String := "(stored in secrets)"

/-- The account `secureLogin` creates. -/
def QUICKCHR_USER : String := "quickchr"

end Quickchr
