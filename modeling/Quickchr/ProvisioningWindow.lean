import Quickchr.MachineState

/-!
# The provisioning window

When quickchr may run provisioning against a guest, and what happens to an option that
arrives after the window has closed: it is satisfied already, or refused by name.
-/
namespace Quickchr.ProvisioningWindow

open DeviceMode Names

/-- The provisioning options `start()` accepts. -/
structure ProvisioningRequest where
  installAllPackages : Option Bool := none
  packages : Option (List String) := none
  deviceMode : Option DeviceModeOptions := none
  user : Option Login := none
  disableAdmin : Option Bool := none
  license : Option LicenseInput := none
  secureLogin : Option Bool := none
  deriving DecidableEq, Repr

def isProvisioningWindowOpen (state : MachineState) : Bool :=
  state.provisioning.isNone && state.lastStartedAt.isNone

/-- One provisioning option that was asked for on a machine past its first boot. -/
structure ProvisioningAsk where
  step : ProvisioningStep
  description : String
  satisfied : Bool
  deriving DecidableEq, Repr

/-- A device-mode request flattened to the settings it sends. -/
def deviceModeSelection (options : Option DeviceModeOptions) : Record String :=
  let resolved := resolveDeviceModeOptions options
  if shouldApplyDeviceMode resolved then payload resolved else []

theorem shouldApply_of_selection {o : Option DeviceModeOptions} (h : deviceModeSelection o ≠ []) :
    shouldApplyDeviceMode (resolveDeviceModeOptions o) = true := by
  by_contra skipped
  exact h (if_neg skipped)

/-- Does the applied record carry every setting this request names? -/
def deviceModeSatisfiedBy (applied requested : Record String) : Bool :=
  requested ≠ [] && requested.all fun e => applied.get e.1 = some e.2

def licenseLevelOf : LicenseInput → String
  | .level level => level
  | .options _ _ level => level.getD "p1"

/-- `stored` is what the secret store has for this machine, nothing when it cannot be read. -/
def userCredentialMatches (stored : Option Login) (state : MachineState) (user : Login) : Bool :=
  (state.user.map (·.name)) = some user.name && stored = some user

/-- The steps recorded as run on the current disk. -/
def appliedSteps (state : MachineState) : List ProvisioningStep :=
  (state.provisioning.map (·.steps)).getD []

/-- A list of packages that is given and not empty. -/
def someNames (packages : Option (List String)) : Option (List String) := packages.filter (· ≠ [])

def classifyProvisioningRequest (stored : Option Login) (state : MachineState)
    (request : ProvisioningRequest) : List ProvisioningAsk :=
  let applied := appliedSteps state
  let requestedDeviceMode := deviceModeSelection request.deviceMode
  (if request.installAllPackages = some true then
    [{ step := .packages, description := "--install-all-packages"
       satisfied := .packages ∈ applied ∧ state.installAllPackages = some true }]
  else match someNames request.packages with
    | some packages =>
        [{ step := .packages, description := "packages " ++ Text.join ", " packages
           satisfied := .packages ∈ applied ∧ ∀ pkg ∈ packages, pkg ∈ state.packages }]
    | none => []) ++
  (if requestedDeviceMode ≠ [] then
    [{ step := .deviceMode
       description :=
        s!"device-mode ({formatDeviceModeSelection (resolveDeviceModeOptions request.deviceMode)})"
       satisfied := .deviceMode ∈ applied ∧
        deviceModeSatisfiedBy (deviceModeSelection state.deviceMode) requestedDeviceMode }]
  else []) ++
  (match request.license with
    | some license =>
        [{ step := .license, description := s!"license ({licenseLevelOf license})"
           satisfied := .license ∈ applied ∧ state.licenseLevel = some (licenseLevelOf license) }]
    | none => []) ++
  (match request.user with
    | some user =>
        [{ step := .user, description := s!"user \"{user.name}\""
           satisfied := .user ∈ applied ∧ userCredentialMatches stored state user }]
    | none => []) ++
  (if request.disableAdmin = some true then
    [{ step := .disableAdmin, description := "--disable-admin"
       satisfied := .disableAdmin ∈ applied ∧ state.disableAdmin = some true }]
  else []) ++
  (if request.secureLogin = some true then
    [{ step := .secureLogin, description := "managed login (--secure-login)"
       satisfied := .secureLogin ∈ applied ∧ state.secureLogin = some true }]
  else [])

theorem forall_mem_ite_nil {α : Type} {P : α → Prop} {p : Prop} [Decidable p] {a : α} :
    (∀ x ∈ (if p then [a] else []), P x) ↔ (p → P a) := by
  split <;> simp [*]

/-- What holds of every ask: one condition for each option that is given. -/
theorem forall_classify (stored : Option Login) (state : MachineState)
    (request : ProvisioningRequest) (P : ProvisioningStep → Bool → Prop) :
    (∀ ask ∈ classifyProvisioningRequest stored state request, P ask.step ask.satisfied) ↔
      (request.installAllPackages = some true → P .packages
        (.packages ∈ appliedSteps state ∧ state.installAllPackages = some true : Bool)) ∧
      (request.installAllPackages ≠ some true → ∀ packages, someNames request.packages = some packages →
        P .packages (.packages ∈ appliedSteps state ∧ ∀ pkg ∈ packages, pkg ∈ state.packages : Bool)) ∧
      (deviceModeSelection request.deviceMode ≠ [] → P .deviceMode
        (.deviceMode ∈ appliedSteps state ∧
          deviceModeSatisfiedBy (deviceModeSelection state.deviceMode)
            (deviceModeSelection request.deviceMode) : Bool)) ∧
      (∀ license, request.license = some license → P .license (.license ∈ appliedSteps state ∧
          state.licenseLevel = some (licenseLevelOf license) : Bool)) ∧
      (∀ user, request.user = some user → P .user
        (.user ∈ appliedSteps state ∧ userCredentialMatches stored state user : Bool)) ∧
      (request.disableAdmin = some true → P .disableAdmin
        (.disableAdmin ∈ appliedSteps state ∧ state.disableAdmin = some true : Bool)) ∧
      (request.secureLogin = some true → P .secureLogin
        (.secureLogin ∈ appliedSteps state ∧ state.secureLogin = some true : Bool)) := by
  unfold classifyProvisioningRequest
  simp only [List.forall_mem_append, and_assoc, forall_mem_ite_nil]
  by_cases all : request.installAllPackages = some true
  · cases request.license <;> cases request.user <;> simp [all]
  · cases request.license <;> cases request.user <;> cases someNames request.packages <;> simp [all]

theorem all_satisfied_iff (stored : Option Login) (state : MachineState)
    (request : ProvisioningRequest) :
    (∀ ask ∈ classifyProvisioningRequest stored state request, ask.satisfied = true) ↔
      (request.installAllPackages = some true →
        .packages ∈ appliedSteps state ∧ state.installAllPackages = some true) ∧
      (request.installAllPackages ≠ some true → ∀ packages, someNames request.packages = some packages →
        .packages ∈ appliedSteps state ∧ ∀ pkg ∈ packages, pkg ∈ state.packages) ∧
      (deviceModeSelection request.deviceMode ≠ [] → .deviceMode ∈ appliedSteps state ∧
        deviceModeSatisfiedBy (deviceModeSelection state.deviceMode)
          (deviceModeSelection request.deviceMode) = true) ∧
      (∀ license, request.license = some license →
        .license ∈ appliedSteps state ∧ state.licenseLevel = some (licenseLevelOf license)) ∧
      (∀ user, request.user = some user →
        .user ∈ appliedSteps state ∧ userCredentialMatches stored state user = true) ∧
      (request.disableAdmin = some true →
        .disableAdmin ∈ appliedSteps state ∧ state.disableAdmin = some true) ∧
      (request.secureLogin = some true →
        .secureLogin ∈ appliedSteps state ∧ state.secureLogin = some true) := by
  rw [forall_classify stored state request fun _ satisfied => satisfied = true]
  simp only [decide_eq_true_eq]

/-- The device-mode record to persist after a post-boot apply. -/
def appliedDeviceModeRecord (state : MachineState) (applied : ResolvedDeviceModeOptions) :
    DeviceModeOptions :=
  mergeDeviceModeOptions
    (if .deviceMode ∈ appliedSteps state then state.deviceMode else none) applied

/-- What the first boot of an `add()`-created machine should provision. -/
def pendingProvisioningFor (existing : MachineState) (request : ProvisioningRequest) :
    ProvisioningRequest where
  installAllPackages := request.installAllPackages.or existing.installAllPackages
  packages := (someNames request.packages).or (someNames (some existing.packages))
  deviceMode := request.deviceMode.or existing.deviceMode
  user := request.user.or existing.user
  disableAdmin := request.disableAdmin.or existing.disableAdmin
  license := request.license
  secureLogin := request.secureLogin.or existing.secureLogin

/-- True when any step in this request would change something. -/
def hasProvisioningRequest (request : ProvisioningRequest) : Bool :=
  request.installAllPackages = some true || (someNames request.packages).isSome ||
    shouldApplyDeviceMode (resolveDeviceModeOptions request.deviceMode) ||
    request.license.isSome || request.user.isSome || request.disableAdmin = some true ||
    request.secureLogin = some true

/-- Where a step can still be applied once the window has closed. -/
def postBootRoute (ask : ProvisioningAsk) (request : ProvisioningRequest) (name : String) : String :=
  let quoted := shellQuote name
  let replay :=
    s!"quickchr clean {quoted}   # resets the disk, then repeat the original start command"
  match ask.step with
  | .license => s!"quickchr set {quoted} --license"
  | .deviceMode =>
      let flags := formatDeviceModeFlags (resolveDeviceModeOptions request.deviceMode)
      s!"quickchr set {quoted} {flags}   # power-cycles the machine"
  | .packages =>
      if request.installAllPackages = some true then replay
      else
        let packages := Text.join "," ((request.packages.getD []).map shellQuote)
        s!"quickchr set {quoted} --package {packages}   # reboots the machine to activate them"
  | _ => replay

/-- The message names every ask that is pending, each with its route. -/
def windowClosed (state : MachineState) (request : ProvisioningRequest)
    (asks : List ProvisioningAsk) : QuickCHRError :=
  let pending := asks.filter fun ask => !ask.satisfied
  let satisfied := asks.filter (·.satisfied)
  let lines :=
    pending.flatMap (fun ask =>
      [s!"  {ask.description} — apply it with:",
        s!"      {postBootRoute ask request state.name}"]) ++
    (if satisfied = [] then []
    else ["  (already applied, unchanged: " ++ Text.join "; " (satisfied.map (·.description)) ++ ")"])
  { code := .PROVISIONING_WINDOW_CLOSED
    message :=
      s!"Machine \"{state.name}\" has already booted, so provisioning cannot run against it — " ++
      "the guest may no longer hold the default configuration provisioning expects.\n" ++
      Text.join "\n" lines ++
      "\nTo provision from scratch, reset the disk to the factory image and reopen the window:\n" ++
      s!"      quickchr clean {shellQuote state.name}   # then repeat the original start command — a refused request is not remembered" }

/-- Refuse a provisioning option that arrived after the window closed, or return the asks
that are satisfied already. -/
def assertProvisioningWindow (stored : Option Login) (state : MachineState)
    (request : ProvisioningRequest) : Except QuickCHRError (List ProvisioningAsk) :=
  if isProvisioningWindowOpen state then .ok []
  else
    let asks := classifyProvisioningRequest stored state request
    if asks.all (·.satisfied) then .ok asks else .error (windowClosed state request asks)

end Quickchr.ProvisioningWindow
