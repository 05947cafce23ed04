import Quickchr.ProvisioningWindow
import Quickchr.Lib.Transition

/-!
# Operations on one machine

`add`, `start`, `setDeviceMode`, `installPackage`, `clean` and `stop`, each run to the end
under the machine lock. `Disk` is the ghost of the model: what quickchr has applied to the
disk that is there now, starting from the factory image.
-/
namespace Quickchr.Provisioning

open DeviceMode ProvisioningWindow

/-- What was applied to the current disk, each setting as it was applied last. -/
structure Disk where
  deviceMode : Record String := []
  packages : List String := []
  allPackages : Bool := false
  license : Option String := none
  user : Option Login := none
  adminDisabled : Bool := false
  managedLogin : Bool := false
  deriving DecidableEq, Repr

/-- `stored` is the machine's entry of the secret store, `qemu` the QEMU that is alive. -/
structure World where
  record : Option MachineState
  stored : Option Login
  disk : Disk
  qemu : Option Pid
  deriving DecidableEq, Repr

/-- What the outside answers to one call: the QEMU that is spawned and the one a power cycle
spawns, whether the guest reports the device-mode asked for already, the packages of the
release, the password that is generated, the key that is installed, the license level that
is read back. -/
structure Env where
  now : Timestamp
  pid : Pid
  accel : String
  bootMs : ℕ
  deviceModeActive : Bool
  cyclePid : Pid
  available : List String
  generatedPassword : String
  managedSshKey : Option ManagedSshKey
  licenseLevel : String
  deriving DecidableEq, Repr

/-- `loadMachine`, a change to what it returned, `saveMachine`. -/
def World.update (w : World) (f : MachineState → MachineState) : World :=
  { w with record := w.record.map f }

def World.isMachineRunning (w : World) (state : MachineState) : Bool :=
  state.status = .running && state.pid.isSome && state.pid = w.qemu

def installPackages (env : Env) (packages : List String) : List String :=
  packages.filter (· ∈ env.available)

def packagesStep (env : Env) (opts : ProvisioningRequest) (w : World) : World :=
  let install (installed : List String) (all : Bool) : World :=
    { w.update fun m => { m with packages := installed } with
      disk := { w.disk with
        packages := w.disk.packages ++ installed, allPackages := w.disk.allPackages || all } }
  if opts.installAllPackages = some true then install env.available true
  else match someNames opts.packages with
    | some packages => install (installPackages env packages) false
    | none => w

/-- The replacement QEMU of a power cycle always boots normally. -/
def hardRebootMachine (env : Env) (w : World) : World :=
  { w.update (·.launched env.cyclePid .background env.accel env.now) with qemu := some env.cyclePid }

/-- Only the settings an update names move; a power cycle confirms it. -/
def applyDeviceMode (env : Env) (resolved : ResolvedDeviceModeOptions) (w : World) : World :=
  let cycled := if env.deviceModeActive then w else hardRebootMachine env w
  { cycled with disk := { w.disk with deviceMode := w.disk.deviceMode.assign (payload resolved) } }

def deviceModeStep (env : Env) (opts : ProvisioningRequest) (w : World) : World :=
  let resolved := resolveDeviceModeOptions opts.deviceMode
  if shouldApplyDeviceMode resolved then applyDeviceMode env resolved w else w

def licenseStep (env : Env) (opts : ProvisioningRequest) (w : World) : World :=
  match opts.license with
  | some _ =>
      { w.update fun m => { m with licenseLevel := some env.licenseLevel } with
        disk := { w.disk with license := some env.licenseLevel } }
  | none => w

/-- `provision()`, over REST or the serial console. An explicit user comes before the
managed one. -/
def provision (env : Env) (user : Option Login) (disableAdmin secureLogin : Bool) (w : World) :
    World × Option Login :=
  let effectiveUser :=
    user.or (if secureLogin then some ⟨QUICKCHR_USER, env.generatedPassword⟩ else none)
  match effectiveUser with
  | some login =>
      ({ w with
          stored := some login
          disk := { w.disk with
            user := some login
            managedLogin := w.disk.managedLogin || user.isNone
            adminDisabled := w.disk.adminDisabled || disableAdmin } }, some login)
  | none =>
      if disableAdmin then ({ w with disk := { w.disk with adminDisabled := true } }, none)
      else ({ w with stored := some ⟨"admin", ""⟩ }, none)

def accountStep (env : Env) (opts : ProvisioningRequest) (w : World) : World :=
  let disableAdmin : Bool := opts.disableAdmin = some true
  let secureLogin : Bool := opts.secureLogin = some true
  if opts.user.isSome || disableAdmin || secureLogin then
    let (w, user) := provision env opts.user disableAdmin secureLogin w
    match user with
    | some login => w.update fun m =>
        { m with
          user := some ⟨login.name, STORED_IN_SECRETS_PASSWORD⟩
          managedSshKey :=
            if secureLogin && opts.user.isNone then env.managedSshKey.or m.managedSshKey
            else m.managedSshKey }
    | none => w
  else w

/-- The steps `_provisionInstance` has applied when it returns. -/
def steps (opts : ProvisioningRequest) : List ProvisioningStep :=
  (if opts.installAllPackages = some true ∨ (someNames opts.packages).isSome then [.packages]
    else []) ++
  (if shouldApplyDeviceMode (resolveDeviceModeOptions opts.deviceMode) then [.deviceMode]
    else []) ++
  (if opts.license.isSome then [.license] else []) ++
  (if opts.user.isSome then [.user] else []) ++
  (if opts.disableAdmin = some true then [.disableAdmin] else []) ++
  (if opts.secureLogin = some true then [.secureLogin] else [])

def recordProvisioning (now : Timestamp) (steps : List ProvisioningStep) (w : World) : World :=
  w.update fun m => { m with provisioning := some ⟨now, steps⟩ }

/-- Add one step to the record, keeping whatever is already there. -/
def recordProvisioningStep (now : Timestamp) (step : ProvisioningStep) (w : World) : World :=
  w.update fun m => { m with provisioning := some ⟨now, (appliedSteps m ++ [step]).eraseDups⟩ }

def provisionInstance (env : Env) (opts : ProvisioningRequest) (w : World) : World :=
  let done :=
    accountStep env opts (licenseStep env opts (deviceModeStep env opts (packagesStep env opts w)))
  recordProvisioning env.now (steps opts) done

def wantsProvisioning (opts : ProvisioningRequest) : Bool :=
  opts.installAllPackages = some true || (someNames opts.packages).isSome ||
    opts.deviceMode.isSome || opts.user.isSome || opts.disableAdmin = some true ||
    opts.license.isSome || opts.secureLogin = some true

/-- The launch of `_launchExisting`: spawn, save, wait for the boot, provision. A foreground
launch without provisioning returns when QEMU has exited. -/
def launch (env : Env) (mode : LaunchMode) (provisioningOpts : Option ProvisioningRequest)
    (w : World) : World :=
  let hasProvisioning := (provisioningOpts.map wantsProvisioning).getD false
  if mode = .foreground ∧ !hasProvisioning then
    { w.update (·.foregroundExited env.now) with qemu := none }
  else
    let spawned : World :=
      { w.update (·.launched env.pid mode env.accel env.now) with qemu := some env.pid }
    if mode = .frozen ∨ mode = .noWait then spawned
    else
      let ready := spawned.update (·.booted env.accel env.bootMs)
      match provisioningOpts with
      | some opts => if wantsProvisioning opts then provisionInstance env opts ready else ready
      | none => ready

/-- The machine under the lock has to be the one the caller has read. -/
def assertSameMachine (snapshot : MachineState) (fresh : Option MachineState) :
    Except QuickCHRError Unit :=
  let removed (again : String) : QuickCHRError :=
    { code := .MACHINE_NOT_FOUND
      message := s!"Machine \"{snapshot.name}\" was removed{again} while this operation waited for it." }
  match fresh with
  | none => .error (removed "")
  | some state =>
      if state.createdAt = snapshot.createdAt then .ok () else .error (removed " and created again")

/-- `_launchExisting` once it has the lock, for a caller that has read `snapshot`. -/
def launchExisting (env : Env) (mode : LaunchMode) (snapshot : MachineState)
    (provisioningOpts : Option ProvisioningRequest) (w : World) : Except QuickCHRError World := do
  assertSameMachine snapshot w.record
  match w.record with
  | none => return w
  | some state =>
      if w.isMachineRunning state then .ok w
      else match provisioningOpts with
        | some opts =>
            if isProvisioningWindowOpen state then .ok (launch env mode provisioningOpts w)
            else (assertProvisioningWindow w.stored state opts).map fun _ => launch env mode none w
        | none => .ok (launch env mode none w)

theorem launchExisting_cases {env : Env} {mode : LaunchMode} {snapshot : MachineState}
    {pending : Option ProvisioningRequest} {w w' : World}
    (h : launchExisting env mode snapshot pending w = .ok w') :
    ∃ state, w.record = some state ∧ state.createdAt = snapshot.createdAt ∧
      (w.isMachineRunning state = true ∧ w' = w ∨
        w.isMachineRunning state = false ∧
          ((isProvisioningWindowOpen state = true ∧ w' = launch env mode pending w) ∨
            (isProvisioningWindowOpen state = false ∧ w' = launch env mode none w ∧
              ∀ opts, pending = some opts →
                ∃ asks, assertProvisioningWindow w.stored state opts = .ok asks))) := by
  unfold launchExisting at h
  obtain ⟨_, same, h⟩ := bind_eq_ok.mp h
  cases is : w.record with
  | none => rw [is] at same; cases same
  | some state =>
      rw [is] at same h
      have created : state.createdAt = snapshot.createdAt := by
        by_contra other
        simp only [assertSameMachine, other, if_false] at same
        cases same
      refine ⟨state, rfl, created, ?_⟩
      dsimp only at h
      split at h
      · rename_i running
        exact .inl ⟨running, (Except.ok.inj h).symm⟩
      · rename_i stopped
        refine .inr ⟨Bool.eq_false_iff.mpr stopped, ?_⟩
        cases pending with
        | none =>
            cases opened : isProvisioningWindowOpen state with
            | true => exact .inl ⟨rfl, (Except.ok.inj h).symm⟩
            | false => exact .inr ⟨rfl, (Except.ok.inj h).symm, fun _ none => by cases none⟩
        | some opts =>
            cases opened : isProvisioningWindowOpen state with
            | true =>
                simp only [opened, if_true] at h
                exact .inl ⟨rfl, (Except.ok.inj h).symm⟩
            | false =>
                simp only [opened] at h
                obtain ⟨asks, allowed, rfl⟩ := map_eq_ok.mp h
                exact .inr ⟨rfl, rfl, fun _ is => Option.some.inj is ▸ ⟨asks, allowed⟩⟩

def listProvisioningMutations (request : ProvisioningRequest) : List String :=
  (if request.installAllPackages = some true then ["install all packages"]
    else if (someNames request.packages).isSome then ["install extra packages"] else []) ++
  (if request.user.isSome then ["create a custom user"]
    else if request.secureLogin = some true then ["create a managed login"] else []) ++
  (if request.disableAdmin = some true then ["disable the default admin account"] else []) ++
  (if request.license.isSome then ["apply a license"] else []) ++
  (if shouldApplyDeviceMode (resolveDeviceModeOptions request.deviceMode) then
    ["change device-mode"] else [])

def joinHumanList : List String → String
  | [] => ""
  | [a] => a
  | [a, b] => s!"{a} and {b}"
  | items => Text.join ", " items.dropLast ++ ", and " ++ items.getLastD ""

def describeProvisioningOperation (request : ProvisioningRequest) : String :=
  match listProvisioningMutations request with
  | [] => "use post-boot provisioning"
  | [operation] => operation
  | operations => s!"use post-boot provisioning ({joinHumanList operations})"

/-- Provisioning needs a booted guest, so `wait: false` and `frozen` are refused with it.
`machine` is given when the provisioning is intent that `add()` recorded. -/
def assertModeAllowsProvisioning (mode : LaunchMode) (operation : String)
    (machine : Option String) : Except QuickCHRError Unit :=
  let source := match machine with
    | some name => s!"machine \"{name}\" has first-boot provisioning recorded by 'add' ({operation})"
    | none => s!"provisioning was requested ({operation})"
  match mode with
  | .noWait => .error
      { code := .INVALID_ARGUMENT
        message := s!"--no-wait (wait: false) cannot be combined with provisioning: {source}, and provisioning runs against the booted guest, so start has to wait for it. " ++
          "Drop --no-wait for this first boot — later starts can use it." }
  | .frozen => .error
      { code := .INVALID_ARGUMENT
        message := s!"--frozen (frozen: true) cannot be combined with provisioning: {source}, and provisioning runs against the booted guest, so a frozen start cannot provision it. " ++
          "Drop --frozen for this first boot — later starts can use it." }
  | _ => .ok ()

/-- What `start` on an existing machine does with what it read: hand back the instance, or
launch with these options. -/
inductive StartDecision
  | handle
  | launch (provisioningOpts : Option ProvisioningRequest)
  deriving DecidableEq, Repr

/-- The part of `start` before the machine lock, on the record it has read. -/
def decideStart (stored : Option Login) (existing : MachineState) (running : Bool)
    (mode : LaunchMode) (request : ProvisioningRequest) : Except QuickCHRError StartDecision := do
  if hasProvisioningRequest request then
    assertModeAllowsProvisioning mode (describeProvisioningOperation request) none
  let _ ← assertProvisioningWindow stored existing request
  if running then return .handle
  if isProvisioningWindowOpen existing then
    let pendingOpts := pendingProvisioningFor existing request
    if wantsProvisioning pendingOpts then
      assertModeAllowsProvisioning mode (describeProvisioningOperation pendingOpts)
        (some existing.name)
      return .launch (some pendingOpts)
  return .launch none

theorem modeAllowed {mode : LaunchMode} {operation : String} {machine : Option String} {u : Unit}
    (h : assertModeAllowsProvisioning mode operation machine = .ok u) :
    mode = .background ∨ mode = .foreground := by
  cases mode with
  | background => exact .inl rfl
  | foreground => exact .inr rfl
  | noWait => cases h
  | frozen => cases h

theorem decideStart_cases {stored : Option Login} {existing : MachineState} {running : Bool}
    {mode : LaunchMode} {request : ProvisioningRequest} {decision : StartDecision}
    (h : decideStart stored existing running mode request = .ok decision) :
    (∃ asks, assertProvisioningWindow stored existing request = .ok asks) ∧
    (running = true ∧ decision = .handle ∨
      running = false ∧ isProvisioningWindowOpen existing = true ∧
        wantsProvisioning (pendingProvisioningFor existing request) = true ∧
        (mode = .background ∨ mode = .foreground) ∧
        decision = .launch (some (pendingProvisioningFor existing request)) ∨
      running = false ∧ (isProvisioningWindowOpen existing = true →
        wantsProvisioning (pendingProvisioningFor existing request) = false) ∧
        decision = .launch none) := by
  have rest : ∃ asks, assertProvisioningWindow stored existing request = .ok asks ∧
      (if running then .ok .handle
      else if isProvisioningWindowOpen existing then
        if wantsProvisioning (pendingProvisioningFor existing request) then do
          assertModeAllowsProvisioning mode
            (describeProvisioningOperation (pendingProvisioningFor existing request))
            (some existing.name)
          return .launch (some (pendingProvisioningFor existing request))
        else .ok (.launch none)
      else .ok (.launch none)) = Except.ok decision := by
    unfold decideStart at h
    by_cases needed : hasProvisioningRequest request = true
    · simp only [needed, if_true] at h
      obtain ⟨_, _, h⟩ := bind_eq_ok.mp h
      exact bind_eq_ok.mp h
    · simp only [needed] at h
      exact bind_eq_ok.mp h
  obtain ⟨asks, allowed, rest⟩ := rest
  refine ⟨⟨asks, allowed⟩, ?_⟩
  cases running with
  | true => exact .inl ⟨rfl, (Except.ok.inj rest).symm⟩
  | false =>
      rw [if_neg Bool.false_ne_true] at rest
      split at rest
      · rename_i opened
        split at rest
        · rename_i wanted
          obtain ⟨_, mode, rest⟩ := bind_eq_ok.mp rest
          exact .inr (.inl ⟨rfl, opened, wanted, modeAllowed mode, (Except.ok.inj rest).symm⟩)
        · rename_i unwanted
          exact .inr (.inr ⟨rfl, fun _ => Bool.eq_false_iff.mpr unwanted,
            (Except.ok.inj rest).symm⟩)
      · rename_i closed
        exact .inr (.inr ⟨rfl, fun opened => absurd opened closed, (Except.ok.inj rest).symm⟩)

/-- The record a creation writes from its options. -/
def created (name : String) (request : ProvisioningRequest) (now : Timestamp) (status : Status) :
    MachineState where
  name := name
  packages := request.packages.getD []
  installAllPackages := request.installAllPackages
  deviceMode := request.deviceMode
  user := request.user
  disableAdmin := request.disableAdmin
  secureLogin := request.secureLogin
  createdAt := now
  status := status

def add (name : String) (request : ProvisioningRequest) (now : Timestamp) (w : World) : World :=
  { w with record := some (created name request now .stopped) }

/-- `start` of a machine that does not exist. A foreground start with provisioning runs in
the background first and is launched again on the console. -/
def startNew (name : String) (env : Env) (mode : LaunchMode) (request : ProvisioningRequest)
    (w : World) : Except QuickCHRError World := do
  let hasProvisioning := hasProvisioningRequest request
  if hasProvisioning then
    assertModeAllowsProvisioning mode (describeProvisioningOperation request) none
  let fresh := { w with record := some (created name request env.now .running) }
  if hasProvisioning then
    let provisioned := launch env .background (some request) fresh
    if mode = .foreground then
      return launch env .foreground none { provisioned.update (·.stopped) with qemu := none }
    else return provisioned
  else return launch env mode none fresh

/-- `start` with no one else about: the record read before the lock is the one under it. -/
def start (name : String) (env : Env) (mode : LaunchMode) (request : ProvisioningRequest)
    (w : World) : Except QuickCHRError World :=
  match w.record with
  | none => startNew name env mode request w
  | some existing => do
      match ← decideStart w.stored existing (w.isMachineRunning existing) mode request with
      | .handle => return w
      | .launch provisioningOpts => launchExisting env mode existing provisioningOpts w

theorem startNew_cases {name : String} {env : Env} {mode : LaunchMode}
    {request : ProvisioningRequest} {w w' : World} (h : startNew name env mode request w = .ok w') :
    let fresh := { w with record := some (created name request env.now .running) }
    w' = launch env mode none fresh ∨ w' = launch env .background (some request) fresh ∨
      w' = launch env .foreground none
        { (launch env .background (some request) fresh).update (·.stopped) with qemu := none } := by
  intro fresh
  unfold startNew at h
  by_cases needed : hasProvisioningRequest request = true
  · simp only [needed, if_true] at h
    obtain ⟨_, _, h⟩ := bind_eq_ok.mp h
    split at h
    · exact .inr (.inr (Except.ok.inj h).symm)
    · exact .inr (.inl (Except.ok.inj h).symm)
  · simp only [needed] at h
    exact .inl (Except.ok.inj h).symm

/-- All that a start of an existing machine can be when no one else is about. -/
theorem start_cases {name : String} {env : Env} {mode : LaunchMode} {request : ProvisioningRequest}
    {w w' : World} {m : MachineState} (is : w.record = some m)
    (h : start name env mode request w = .ok w') :
    (∃ asks, assertProvisioningWindow w.stored m request = .ok asks) ∧
    (w.isMachineRunning m = true ∧ w' = w ∨
      w.isMachineRunning m = false ∧ isProvisioningWindowOpen m = true ∧
        wantsProvisioning (pendingProvisioningFor m request) = true ∧
        (mode = .background ∨ mode = .foreground) ∧
        w' = launch env mode (some (pendingProvisioningFor m request)) w ∨
      w.isMachineRunning m = false ∧ (isProvisioningWindowOpen m = true →
        wantsProvisioning (pendingProvisioningFor m request) = false) ∧
        w' = launch env mode none w) := by
  unfold start at h
  rw [is] at h
  obtain ⟨decision, decided, h⟩ := bind_eq_ok.mp h
  obtain ⟨allowed, decided⟩ := decideStart_cases decided
  refine ⟨allowed, ?_⟩
  rcases decided with ⟨running, rfl⟩ | ⟨stopped, opened, wanted, waits, rfl⟩ | ⟨stopped, unwanted, rfl⟩
  · exact .inl ⟨running, (Except.ok.inj h).symm⟩
  all_goals
    obtain ⟨m', is', -, run⟩ := launchExisting_cases h
    cases is.symm.trans is'
    rw [stopped] at run
  · rcases run with ⟨running, _⟩ | ⟨_, ⟨_, done⟩ | ⟨closed, _⟩⟩
    · cases running
    · exact .inr (.inl ⟨stopped, opened, wanted, waits, done⟩)
    · rw [opened] at closed; cases closed
  · rcases run with ⟨running, _⟩ | ⟨_, ⟨_, done⟩ | ⟨_, done, _⟩⟩
    · cases running
    · exact .inr (.inr ⟨stopped, unwanted, done⟩)
    · exact .inr (.inr ⟨stopped, unwanted, done⟩)

/-- `setDeviceMode`: apply, power-cycle, record. -/
def setDeviceMode (env : Env) (options : DeviceModeOptions) (state : MachineState) (w : World) :
    Except QuickCHRError World :=
  let resolved := resolveDeviceModeOptions (some options)
  if !shouldApplyDeviceMode resolved then .error
    { code := .INVALID_ARGUMENT
      message := s!"Nothing to set: device-mode options for \"{state.name}\" resolved to no change " ++
        "(mode=skip disables device-mode entirely; pass a mode or a feature to enable/disable)." }
  else if !w.isMachineRunning state then .error
    { code := .MACHINE_STOPPED
      message := s!"Device-mode is applied through the guest's REST API, so \"{state.name}\" has to be running. " ++
        s!"Start it with 'quickchr start {Names.shellQuote state.name}', then set device-mode." }
  else
    let applied := (applyDeviceMode env resolved w).update fun m =>
      { m with deviceMode := some (appliedDeviceModeRecord state resolved) }
    .ok (recordProvisioningStep env.now .deviceMode applied)

theorem setDeviceMode_cases {env : Env} {options : DeviceModeOptions} {state : MachineState}
    {w w' : World} (h : setDeviceMode env options state w = .ok w') :
    let resolved := resolveDeviceModeOptions (some options)
    shouldApplyDeviceMode resolved = true ∧ w.isMachineRunning state = true ∧
      w' = recordProvisioningStep env.now .deviceMode ((applyDeviceMode env resolved w).update fun m =>
        { m with deviceMode := some (appliedDeviceModeRecord state resolved) }) := by
  unfold setDeviceMode at h
  generalize resolveDeviceModeOptions (some options) = resolved at h ⊢
  dsimp only at h
  split at h
  · cases h
  rename_i apply
  split at h
  · cases h
  rename_i running
  exact ⟨by simpa using apply, by simpa using running, (Except.ok.inj h).symm⟩

def mergePackages (installed : List String) (w : World) : World :=
  { w.update fun m => { m with packages := (m.packages ++ installed).eraseDups } with
    disk := { w.disk with packages := w.disk.packages ++ installed } }

/-- `installPackage`: the step is recorded only when everything `packages` names has been
installed. -/
def installPackage (env : Env) (names : List String) (state : MachineState) (w : World) :
    Except QuickCHRError World :=
  if names = [] then .ok w
  else if !w.isMachineRunning state then .error
    { code := .MACHINE_STOPPED
      message := s!"Packages are installed through the guest, so \"{state.name}\" has to be running. " ++
        s!"Start it with 'quickchr start {Names.shellQuote state.name}', then install packages." }
  else
    let installed := installPackages env names
    if installed = [] then .ok w
    else
      let stepWasApplied : Bool := .packages ∈ appliedSteps state
      let coversDesired : Bool :=
        state.installAllPackages ≠ some true ∧ ∀ pkg ∈ state.packages, pkg ∈ installed
      .ok (if stepWasApplied || coversDesired then
        recordProvisioningStep env.now .packages (mergePackages installed w)
      else mergePackages installed w)

theorem installPackage_cases {env : Env} {names : List String} {state : MachineState} {w w' : World}
    (h : installPackage env names state w = .ok w') :
    w' = w ∨ w.isMachineRunning state = true ∧ ∃ installed,
      ((.packages ∈ appliedSteps state ∨
          state.installAllPackages ≠ some true ∧ ∀ pkg ∈ state.packages, pkg ∈ installed) ∧
        w' = recordProvisioningStep env.now .packages (mergePackages installed w) ∨
      .packages ∉ appliedSteps state ∧ w' = mergePackages installed w) := by
  unfold installPackage at h
  split at h
  · exact .inl (Except.ok.inj h).symm
  split at h
  · cases h
  rename_i running
  dsimp only at h
  split at h
  · exact .inl (Except.ok.inj h).symm
  refine .inr ⟨by simpa using running, installPackages env names, ?_⟩
  rw [← Except.ok.inj h]
  split
  · rename_i covered
    rw [Bool.or_eq_true, decide_eq_true_eq, decide_eq_true_eq] at covered
    exact .inl ⟨covered, rfl⟩
  · rename_i uncovered
    rw [Bool.or_eq_true, not_or, decide_eq_true_eq] at uncovered
    exact .inr ⟨uncovered.1, rfl⟩

/-- `cleanUnderLock`: a factory disk, and the credentials of the old one forgotten. -/
def clean (now : Timestamp) (w : World) : World :=
  { record := w.record.map (·.cleaned now), stored := none, disk := {}, qemu := none }

def stop (w : World) : World := { w.update (·.stopped) with qemu := none }

inductive Event
  | add (name : String) (request : ProvisioningRequest) (now : Timestamp)
  | start (name : String) (env : Env) (mode : LaunchMode) (request : ProvisioningRequest)
  | setDeviceMode (env : Env) (options : DeviceModeOptions)
  | installPackage (env : Env) (names : List String)
  | clean (now : Timestamp)
  | stop
  /-- QEMU dies. -/
  | exit
  deriving DecidableEq, Repr

/-- A call that throws is no completed operation. -/
def next (w : World) : Event → Option World
  | .add name request now => if w.record.isNone then some (add name request now w) else none
  | .start name env mode request => (start name env mode request w).toOption
  | .setDeviceMode env options =>
      w.record.bind fun state => (setDeviceMode env options state w).toOption
  | .installPackage env names =>
      w.record.bind fun state => (installPackage env names state w).toOption
  | .clean now => if w.record.isSome then some (clean now w) else none
  | .stop => if w.record.isSome then some (stop w) else none
  | .exit => some { w with qemu := none }

/-- No machine of this name, a factory disk, no stored login. -/
def World.empty : World := ⟨none, none, {}, none⟩

def system : Transition.System World Event where
  Initial w := w = World.empty
  next := next

end Quickchr.Provisioning
