import Quickchr.Provisioning

/-!
# What counts as already applied

`classifyProvisioningRequest` reads two things: the steps recorded as run, and the values
in `machine.json`. `Faithful` says that they are about the same thing, the disk that is
there now. A first boot breaks it when it applies something else than the record says:
`FirstBootAgrees` is the condition under which it does not.
-/
namespace Quickchr.Provisioning

open DeviceMode ProvisioningWindow

/-- The value `R` asks for is the last one applied to this disk. -/
def Disk.Applied (d : Disk) (R : ProvisioningRequest) : ProvisioningStep → Prop
  | .packages =>
      if R.installAllPackages = some true then d.allPackages = true
      else ∀ pkg ∈ R.packages.getD [], pkg ∈ d.packages
  | .deviceMode => ∀ e ∈ deviceModeSelection R.deviceMode, d.deviceMode.get e.1 = some e.2
  | .license => d.license = R.license.map licenseLevelOf
  | .user => d.user = R.user
  | .disableAdmin => d.adminDisabled = true
  | .secureLogin => d.managedLogin = true

/-- The guest has every setting the options name, those under a skipped mode included, and
no feature stands in for the mode. -/
structure Carried (o : DeviceModeOptions) (guest : Record String) : Prop where
  mode : feature o "mode" = none
  settings : ∀ s v, setting o s = some v → guest.get s = some v

/-- The steps `S` have run, and the record says of them what is on the disk. -/
structure Faithful (S : List ProvisioningStep) (m : MachineState) (d : Disk)
    (stored : Option Login) : Prop where
  packages : .packages ∈ S → ∀ pkg ∈ m.packages, pkg ∈ d.packages
  allPackages : .packages ∈ S → m.installAllPackages = some true → d.allPackages = true
  deviceMode : .deviceMode ∈ S → ∀ o, m.deviceMode = some o → Carried o d.deviceMode
  license : .license ∈ S → m.licenseLevel = d.license
  user : .user ∈ S → stored = d.user
  disableAdmin : .disableAdmin ∈ S → d.adminDisabled = true
  secureLogin : .secureLogin ∈ S → m.secureLogin = some true → d.managedLogin = true

theorem Faithful.nil (m : MachineState) (d : Disk) (stored : Option Login) :
    Faithful [] m d stored := by
  constructor <;> intro h <;> cases h

theorem get_selection {o : Option DeviceModeOptions} {s v : String}
    (h : (deviceModeSelection o).get s = some v) : ∃ o', o = some o' ∧ setting o' s = some v := by
  unfold deviceModeSelection at h
  dsimp only at h
  split at h
  · rename_i apply
    cases o with
    | none => cases apply
    | some o' =>
        rw [get_payload (skip_of_shouldApply apply)] at h
        exact ⟨o', rfl, h⟩
  · cases h

theorem Faithful.applied {m : MachineState} {d : Disk} {stored : Option Login}
    (h : Faithful (appliedSteps m) m d stored) {R : ProvisioningRequest} {ask : ProvisioningAsk}
    (asked : ask ∈ classifyProvisioningRequest stored m R) (satisfied : ask.satisfied = true) :
    d.Applied R ask.step := by
  unfold classifyProvisioningRequest at asked
  simp only [List.mem_append] at asked
  rcases asked with ((((asked | asked) | asked) | asked) | asked) | asked
  · split at asked
    · rename_i all
      rw [List.mem_singleton] at asked
      subst asked
      simp only [decide_eq_true_eq] at satisfied
      simp only [Disk.Applied, all, if_true]
      exact h.allPackages satisfied.1 satisfied.2
    · rename_i named
      split at asked
      · rename_i packages given
        rw [List.mem_singleton] at asked
        subst asked
        simp only [decide_eq_true_eq] at satisfied
        have list : R.packages = some packages := (Option.filter_eq_some_iff.mp given).1
        simp only [Disk.Applied, named, if_false, list, Option.getD_some]
        exact fun pkg member => h.packages satisfied.1 pkg (satisfied.2 pkg member)
      · cases asked
  · split at asked
    · rw [List.mem_singleton] at asked
      subst asked
      simp only [decide_eq_true_eq] at satisfied
      obtain ⟨ran, carried⟩ := satisfied
      unfold deviceModeSatisfiedBy at carried
      rw [Bool.and_eq_true, List.all_eq_true] at carried
      intro e member
      obtain ⟨o, is, value⟩ := get_selection (of_decide_eq_true (carried.2 e member))
      exact (h.deviceMode ran o is).settings e.1 e.2 value
    · cases asked
  · split at asked
    · rename_i license given
      rw [List.mem_singleton] at asked
      subst asked
      simp only [decide_eq_true_eq] at satisfied
      simp only [Disk.Applied, given, Option.map_some]
      rw [← h.license satisfied.1, satisfied.2]
    · cases asked
  · split at asked
    · rename_i user given
      rw [List.mem_singleton] at asked
      subst asked
      simp only [decide_eq_true_eq] at satisfied
      obtain ⟨ran, matched⟩ := satisfied
      unfold userCredentialMatches at matched
      rw [Bool.and_eq_true, decide_eq_true_eq, decide_eq_true_eq] at matched
      simp only [Disk.Applied, given]
      rw [← h.user ran, matched.2]
    · cases asked
  · split at asked
    · rw [List.mem_singleton] at asked
      subst asked
      simp only [decide_eq_true_eq] at satisfied
      exact h.disableAdmin satisfied.1
    · cases asked
  · split at asked
    · rw [List.mem_singleton] at asked
      subst asked
      simp only [decide_eq_true_eq] at satisfied
      exact h.secureLogin satisfied.1 satisfied.2
    · cases asked

/-- What the first boot applies is what the record says: no install-all left out while
packages are installed, every recorded device-mode setting applied, no recorded managed
login with a user in its place. -/
structure FirstBootAgrees (m : MachineState) (opts : ProvisioningRequest) : Prop where
  allPackages : m.installAllPackages = some true →
    opts.installAllPackages = some true ∨ someNames opts.packages = none
  deviceMode : shouldApplyDeviceMode (resolveDeviceModeOptions opts.deviceMode) = true →
    ∀ o, m.deviceMode = some o → Carried o (payload (resolveDeviceModeOptions opts.deviceMode))
  login : m.secureLogin = some true → opts.user.isSome = true → opts.secureLogin ≠ some true

/-- The record is there, is faithful for the steps `S`, and has the intent of `m₀`. -/
def World.Keeps (w : World) (S : List ProvisioningStep) (m₀ : MachineState) : Prop :=
  ∃ m, w.record = some m ∧ Faithful S m w.disk w.stored ∧
    m.installAllPackages = m₀.installAllPackages ∧ m.deviceMode = m₀.deviceMode ∧
    m.secureLogin = m₀.secureLogin

variable {env : Env} {opts : ProvisioningRequest} {w : World} {m₀ : MachineState}
  {S : List ProvisioningStep}

variable (env) in
theorem keeps_packagesStep (agrees : FirstBootAgrees m₀ opts) (h : w.Keeps [] m₀) :
    (packagesStep env opts w).Keeps
      (if opts.installAllPackages = some true ∨ (someNames opts.packages).isSome then [.packages]
        else []) m₀ := by
  obtain ⟨m, is, _, intent, mode, login⟩ := h
  unfold packagesStep
  by_cases all : opts.installAllPackages = some true
  · simp only [all, true_or, if_true]
    refine ⟨{ m with packages := env.available }, by simp [World.update, is], ?_, intent, mode, login⟩
    constructor <;> intro ran <;> simp at ran
    · exact fun pkg member => List.mem_append_right _ member
    · exact fun _ => Bool.or_true _
  · cases given : someNames opts.packages with
    | none =>
        simp only [all, if_false, Option.isSome_none, Bool.false_eq_true, or_false]
        exact ⟨m, is, .nil m w.disk w.stored, intent, mode, login⟩
    | some packages =>
        simp only [all, if_false, Option.isSome_some, or_true, if_true]
        refine ⟨{ m with packages := installPackages env packages },
          by simp [World.update, is], ?_, intent, mode, login⟩
        constructor <;> intro ran <;> simp at ran
        · exact fun pkg member => List.mem_append_right _ member
        · intro wanted
          rcases agrees.allPackages (intent ▸ wanted) with asked | none
          · exact absurd asked all
          · rw [given] at none; cases none

theorem nodup_payload (options : ResolvedDeviceModeOptions) : ((payload options).map Prod.fst).Nodup := by
  unfold payload
  refine Record.nodup_assign _ _ ?_
  cases options.truthyMode <;> simp

theorem get_assign_payload (r : Record String) (options : ResolvedDeviceModeOptions) (s : String) :
    (r.assign (payload options)).get s = ((payload options).get s).or (r.get s) := by
  rw [Record.get_assign, Record.get_reverse (nodup_payload options)]

theorem Carried.assign {o : DeviceModeOptions} {options : ResolvedDeviceModeOptions}
    (h : Carried o (payload options)) (r : Record String) :
    Carried o (r.assign (payload options)) := by
  refine ⟨h.mode, fun s v is => ?_⟩
  rw [get_assign_payload, h.settings s v is, Option.some_or]

theorem keeps_applyDeviceMode {resolved : ResolvedDeviceModeOptions} (h : w.Keeps S m₀)
    (carried : ∀ o, m₀.deviceMode = some o → Carried o (w.disk.deviceMode.assign (payload resolved))) :
    (applyDeviceMode env resolved w).Keeps (S ++ [.deviceMode]) m₀ := by
  obtain ⟨m, is, faithful, intent, mode, login⟩ := h
  have keep : ∀ m' : MachineState, m'.packages = m.packages →
      m'.installAllPackages = m.installAllPackages → m'.deviceMode = m.deviceMode →
      m'.licenseLevel = m.licenseLevel → m'.secureLogin = m.secureLogin → Faithful (S ++ [.deviceMode]) m'
        { w.disk with deviceMode := w.disk.deviceMode.assign (payload resolved) } w.stored := by
    intro m' packages all dm license secure
    constructor <;> intro ran <;> simp only [List.mem_append, List.mem_singleton, reduceCtorEq,
      or_false, or_true] at ran
    · rw [packages]; exact faithful.packages ran
    · rw [all]; exact faithful.allPackages ran
    · intro o eq; exact carried o (by rw [← mode, ← dm, eq])
    · rw [license]; exact faithful.license ran
    · exact faithful.user ran
    · exact faithful.disableAdmin ran
    · rw [secure]; exact faithful.secureLogin ran
  unfold applyDeviceMode
  cases env.deviceModeActive with
  | true => exact ⟨m, is, keep m rfl rfl rfl rfl rfl, intent, mode, login⟩
  | false =>
      exact ⟨m.launched env.cyclePid .background env.accel env.now,
        by simp [hardRebootMachine, World.update, is], keep _ rfl rfl rfl rfl rfl, intent, mode, login⟩

variable (env) in
theorem keeps_deviceModeStep (agrees : FirstBootAgrees m₀ opts) (h : w.Keeps S m₀) :
    (deviceModeStep env opts w).Keeps
      (S ++ if shouldApplyDeviceMode (resolveDeviceModeOptions opts.deviceMode) then [.deviceMode]
        else []) m₀ := by
  unfold deviceModeStep
  dsimp only
  split
  · rename_i apply
    exact keeps_applyDeviceMode h fun o is => (agrees.deviceMode apply o is).assign _
  · rw [List.append_nil]; exact h

variable (env opts) in
theorem keeps_licenseStep (h : w.Keeps S m₀) :
    (licenseStep env opts w).Keeps (S ++ if opts.license.isSome then [.license] else []) m₀ := by
  obtain ⟨m, is, faithful, intent, mode, login⟩ := h
  unfold licenseStep
  cases opts.license with
  | none => simpa using ⟨m, is, faithful, intent, mode, login⟩
  | some _ =>
      dsimp only
      refine ⟨{ m with licenseLevel := some env.licenseLevel }, by simp [World.update, is], ?_,
        intent, mode, login⟩
      constructor <;> intro ran <;> simp only [List.mem_append, List.mem_singleton, reduceCtorEq,
        Option.isSome_some, if_true, or_false, or_true] at ran
      · exact faithful.packages ran
      · exact faithful.allPackages ran
      · exact faithful.deviceMode ran
      · rfl
      · exact faithful.user ran
      · exact faithful.disableAdmin ran
      · exact faithful.secureLogin ran

/-- The account steps of a request, in the order they are recorded. -/
def accountSteps (opts : ProvisioningRequest) : List ProvisioningStep :=
  (if opts.user.isSome then [.user] else []) ++
  (if opts.disableAdmin = some true then [.disableAdmin] else []) ++
  (if opts.secureLogin = some true then [.secureLogin] else [])

theorem mem_accountSteps (opts : ProvisioningRequest) (step : ProvisioningStep) :
    step ∈ accountSteps opts ↔ (opts.user.isSome = true ∧ step = .user) ∨
      (opts.disableAdmin = some true ∧ step = .disableAdmin) ∨
      (opts.secureLogin = some true ∧ step = .secureLogin) := by
  unfold accountSteps
  simp only [List.mem_append, List.mem_ite_nil_right, List.mem_singleton, or_assoc]

/-- What the account step does to the record and to the disk. -/
structure AccountsDone (opts : ProvisioningRequest) (w w' : World) : Prop where
  record : ∀ m, w.record = some m → ∃ m', w'.record = some m' ∧ m'.packages = m.packages ∧
    m'.installAllPackages = m.installAllPackages ∧ m'.deviceMode = m.deviceMode ∧
    m'.licenseLevel = m.licenseLevel ∧ m'.secureLogin = m.secureLogin
  disk : w'.disk.packages = w.disk.packages ∧ w'.disk.allPackages = w.disk.allPackages ∧
    w'.disk.deviceMode = w.disk.deviceMode ∧ w'.disk.license = w.disk.license
  user : opts.user.isSome = true → w'.stored = w'.disk.user
  disableAdmin : opts.disableAdmin = some true → w'.disk.adminDisabled = true
  secureLogin : opts.secureLogin = some true → opts.user = none → w'.disk.managedLogin = true

theorem World.record_update {w : World} {m : MachineState} (is : w.record = some m)
    (f : MachineState → MachineState) : (w.update f).record = some (f m) := by
  rw [World.update, is]
  rfl

theorem AccountsDone.accountStep (env : Env) (opts : ProvisioningRequest) (w : World) :
    AccountsDone opts w (accountStep env opts w) := by
  unfold Provisioning.accountStep provision
  cases user : opts.user with
  | some login =>
      simp only [Option.isSome_some, Bool.true_or, if_true, Option.some_or]
      refine ⟨fun m is => ⟨_, World.record_update (by exact is) _, rfl, rfl, rfl, rfl, rfl⟩,
        ⟨rfl, rfl, rfl, rfl⟩, fun _ => rfl, fun asked => ?_, fun _ none => ?_⟩
      · simp [World.update, asked]
      · rw [user] at none; cases none
  | none =>
      by_cases secure : opts.secureLogin = some true
      · simp only [secure, decide_true, Bool.or_true, if_true, Option.none_or]
        refine ⟨fun m is => ⟨_, World.record_update (by exact is) _, rfl, rfl, rfl, rfl, rfl⟩,
          ⟨rfl, rfl, rfl, rfl⟩, fun _ => rfl, fun asked => ?_, fun _ _ => ?_⟩
        · simp [World.update, asked]
        · simp [World.update]
      · have given : opts.user.isSome ≠ true := by rw [user]; exact Bool.false_ne_true
        by_cases disable : opts.disableAdmin = some true
        · simp [secure, disable]
          exact ⟨fun m is => ⟨m, is, rfl, rfl, rfl, rfl, rfl⟩, ⟨rfl, rfl, rfl, rfl⟩,
            fun asked => absurd asked given, fun _ => rfl, fun asked => absurd asked secure⟩
        · simp [secure, disable]
          exact ⟨fun m is => ⟨m, is, rfl, rfl, rfl, rfl, rfl⟩, ⟨rfl, rfl, rfl, rfl⟩,
            fun asked => absurd asked given, fun asked => absurd asked disable,
            fun asked => absurd asked secure⟩

variable (env) in
theorem keeps_accountStep (agrees : FirstBootAgrees m₀ opts) (h : w.Keeps S m₀)
    (before : ∀ step ∈ S, step = .packages ∨ step = .deviceMode ∨ step = .license) :
    (accountStep env opts w).Keeps (S ++ accountSteps opts) m₀ := by
  obtain ⟨m, is, faithful, intent, mode, login⟩ := h
  have done := AccountsDone.accountStep env opts w
  obtain ⟨m', is', packages, all, dm, license, secure⟩ := done.record m is
  obtain ⟨packages', all', dm', license'⟩ := done.disk
  refine ⟨m', is', ?_, all.trans intent, dm.trans mode, secure.trans login⟩
  constructor <;> intro ran <;> rw [List.mem_append, mem_accountSteps] at ran <;>
    simp only [reduceCtorEq, and_false, and_true, or_false, false_or] at ran
  · rw [packages, packages']; exact faithful.packages ran
  · rw [all, all']; exact faithful.allPackages ran
  · rw [dm, dm']; exact faithful.deviceMode ran
  · rw [license, license']; exact faithful.license ran
  · rcases ran with ran | asked
    · rcases before _ ran with is | is | is <;> cases is
    · exact done.user asked
  · rcases ran with ran | asked
    · rcases before _ ran with is | is | is <;> cases is
    · exact done.disableAdmin asked
  · rcases ran with ran | asked
    · rcases before _ ran with is | is | is <;> cases is
    · intro recorded
      refine done.secureLogin asked (Option.not_isSome_iff_eq_none.mp fun given => ?_)
      exact agrees.login (login ▸ secure ▸ recorded) given asked

theorem steps_eq (opts : ProvisioningRequest) :
    steps opts = (((if opts.installAllPackages = some true ∨ (someNames opts.packages).isSome then
      [.packages] else []) ++
      if shouldApplyDeviceMode (resolveDeviceModeOptions opts.deviceMode) then [.deviceMode]
      else []) ++ if opts.license.isSome then [.license] else []) ++ accountSteps opts := by
  simp only [steps, accountSteps, List.append_assoc]

/-- The fields that say what is on the disk. -/
def facts (m : MachineState) :=
  (m.provisioning, m.packages, m.installAllPackages, m.deviceMode, m.licenseLevel, m.secureLogin)

def World.Faithful (w : World) : Prop :=
  ∀ m, w.record = some m → Provisioning.Faithful (appliedSteps m) m w.disk w.stored

theorem World.Faithful.of_record {m : MachineState} (is : w.record = some m)
    (h : Provisioning.Faithful (appliedSteps m) m w.disk w.stored) : w.Faithful := by
  intro m' is'
  cases is.symm.trans is'
  exact h

theorem Faithful.of_facts {m m' : MachineState} {d : Disk} {stored : Option Login}
    (h : Faithful S m d stored) (same : facts m' = facts m) : Faithful S m' d stored := by
  simp only [facts, Prod.mk.injEq] at same
  obtain ⟨-, packages, all, mode, license, secure⟩ := same
  exact ⟨packages ▸ h.packages, all ▸ h.allPackages, mode ▸ h.deviceMode, license ▸ h.license,
    h.user, h.disableAdmin, secure ▸ h.secureLogin⟩

theorem appliedSteps_of_facts {m m' : MachineState} (same : facts m' = facts m) :
    appliedSteps m' = appliedSteps m := by
  rw [appliedSteps, appliedSteps, (Prod.mk.inj same).1]

theorem World.Faithful.update {w' : World} (h : w.Faithful) (f : MachineState → MachineState)
    (same : ∀ m, facts (f m) = facts m) (is : w'.record = w.record.map f) (disk : w'.disk = w.disk)
    (stored : w'.stored = w.stored) : w'.Faithful := by
  intro m' is'
  rw [is, Option.map_eq_some_iff] at is'
  obtain ⟨m, was, rfl⟩ := is'
  rw [appliedSteps_of_facts (same m), disk, stored]
  exact (h m was).of_facts (same m)

theorem World.Faithful.updated (h : w.Faithful) {f : MachineState → MachineState}
    (same : ∀ m, facts (f m) = facts m) : (w.update f).Faithful :=
  h.update f same rfl rfl rfl

theorem FirstBootAgrees.of_facts {m m' : MachineState} (h : FirstBootAgrees m opts)
    (same : facts m' = facts m) : FirstBootAgrees m' opts := by
  simp only [facts, Prod.mk.injEq] at same
  obtain ⟨-, -, all, mode, -, secure⟩ := same
  exact ⟨all ▸ h.allPackages, mode ▸ h.deviceMode, secure ▸ h.login⟩

/-- A first boot that agrees with the record leaves a faithful record. -/
theorem faithful_provisionInstance {m : MachineState} (is : w.record = some m)
    (agrees : FirstBootAgrees m opts) : (provisionInstance env opts w).Faithful := by
  have kept : w.Keeps [] m := ⟨m, is, .nil m _ _, rfl, rfl, rfl⟩
  have packages := keeps_packagesStep env agrees kept
  have deviceMode := keeps_deviceModeStep env agrees packages
  have license := keeps_licenseStep env opts deviceMode
  obtain ⟨m', is', faithful, -, -, -⟩ := keeps_accountStep env agrees license (by
    intro step ran
    simp only [List.mem_append, List.mem_ite_nil_right, List.mem_singleton] at ran
    rcases ran with (⟨_, is⟩ | ⟨_, is⟩) | ⟨_, is⟩
    · exact .inl is
    · exact .inr (.inl is)
    · exact .inr (.inr is))
  rw [← steps_eq] at faithful
  refine .of_record (World.record_update is' _) ?_
  exact ⟨faithful.packages, faithful.allPackages, faithful.deviceMode, faithful.license,
    faithful.user, faithful.disableAdmin, faithful.secureLogin⟩

theorem faithful_launch (env : Env) (mode : LaunchMode) {pending : Option ProvisioningRequest}
    (h : w.Faithful)
    (agrees : ∀ opts, pending = some opts → ∃ m, w.record = some m ∧ FirstBootAgrees m opts) :
    (launch env mode pending w).Faithful := by
  unfold launch
  dsimp only
  split
  · exact h.update (·.foregroundExited env.now) (fun _ => rfl) rfl rfl rfl
  · have spawned : World.Faithful
        { w.update (·.launched env.pid mode env.accel env.now) with qemu := some env.pid } :=
      h.update (·.launched env.pid mode env.accel env.now) (fun _ => rfl) rfl rfl rfl
    split
    · exact spawned
    · have ready := spawned.updated (f := (·.booted env.accel env.bootMs)) fun _ => rfl
      split
      · rename_i opts _
        split
        · obtain ⟨m, is, agrees⟩ := agrees opts rfl
          refine faithful_provisionInstance (World.record_update (World.record_update is _) _) ?_
          exact agrees.of_facts rfl
        · exact ready
      · exact ready

theorem firstBootAgrees_created {name : String} {request : ProvisioningRequest} {now : Timestamp}
    {status : Status} (mode : ∀ o, request.deviceMode = some o → feature o "mode" = none)
    (login : request.user.isSome = true → request.secureLogin ≠ some true) :
    FirstBootAgrees (created name request now status) request := by
  refine ⟨fun asked => .inl asked, fun apply o is => ?_, fun _ => login⟩
  have is : request.deviceMode = some o := is
  rw [is] at apply ⊢
  exact ⟨mode o is, fun s v named => by rw [get_payload (skip_of_shouldApply apply), named]⟩

/-- The condition on a call: what it provisions on a first boot is what the record will say,
and it names no feature "mode". -/
def RecordAgrees (w : World) : Event → Prop
  | .start name env _ request =>
      match w.record with
      | none => FirstBootAgrees (created name request env.now .running) request
      | some m => isProvisioningWindowOpen m = true →
          FirstBootAgrees m (pendingProvisioningFor m request)
  | .setDeviceMode _ options => feature options "mode" = none
  | _ => True

theorem faithful_start {name : String} {mode : LaunchMode} {request : ProvisioningRequest}
    {w' : World} (faithful : w.Faithful) (agrees : RecordAgrees w (.start name env mode request))
    (h : start name env mode request w = .ok w') : w'.Faithful := by
  have plain : ∀ {w : World} (mode : LaunchMode), w.Faithful → (launch env mode none w).Faithful :=
    fun _ faithful => faithful_launch env _ faithful fun _ none => by cases none
  cases is : w.record with
  | none =>
      simp only [RecordAgrees, is] at agrees
      simp only [start, is] at h
      have fresh : World.Faithful
          { w with record := some (created name request env.now .running) } :=
        .of_record rfl (.nil _ _ _)
      have provisioned : World.Faithful (launch env .background (some request) _) :=
        faithful_launch env .background fresh fun opts is => ⟨_, rfl, Option.some.inj is ▸ agrees⟩
      rcases startNew_cases h with rfl | rfl | rfl
      · exact plain mode fresh
      · exact provisioned
      · exact plain .foreground (provisioned.update (·.stopped) (fun _ => rfl) rfl rfl rfl)
  | some m =>
      simp only [RecordAgrees, is] at agrees
      rcases (start_cases is h).2 with ⟨_, rfl⟩ | ⟨_, opened, _, _, rfl⟩ | ⟨_, _, rfl⟩
      · exact faithful
      · exact faithful_launch env mode faithful fun opts asked =>
          ⟨m, is, Option.some.inj asked ▸ agrees opened⟩
      · exact plain mode faithful

/-- A step is recorded once the record says of it what is on the disk. -/
theorem faithful_recordStep {now : Timestamp} {step : ProvisioningStep}
    (h : ∀ m, w.record = some m → Faithful (appliedSteps m ++ [step]) m w.disk w.stored) :
    (recordProvisioningStep now step w).Faithful := by
  intro m' is'
  obtain ⟨m, was, rfl⟩ := Option.map_eq_some_iff.mp is'
  have sound := h m was
  have recorded : ∀ ran, ran ∈ (appliedSteps m ++ [step]).eraseDups → ran ∈ appliedSteps m ++ [step] :=
    fun ran member => List.mem_eraseDups.mp member
  exact ⟨fun ran => sound.packages (recorded _ ran), fun ran => sound.allPackages (recorded _ ran),
    fun ran => sound.deviceMode (recorded _ ran), fun ran => sound.license (recorded _ ran),
    fun ran => sound.user (recorded _ ran), fun ran => sound.disableAdmin (recorded _ ran),
    fun ran => sound.secureLogin (recorded _ ran)⟩

/-- A post-boot update merges into the record what it applies to the guest. -/
theorem Carried.merge {current : Option DeviceModeOptions} {o : DeviceModeOptions}
    {guest : Record String} (old : ∀ o', current = some o' → Carried o' guest)
    (applied : (resolveDeviceModeOptions (some o)).skip = false) (mode : feature o "mode" = none) :
    Carried (mergeDeviceModeOptions current (resolveDeviceModeOptions (some o)))
      (guest.assign (payload (resolveDeviceModeOptions (some o)))) := by
  have oldMode : current.bind (feature · "mode") = none := by
    cases current with
    | none => rfl
    | some o' => exact (old o' rfl).mode
  refine ⟨by rw [feature_merge current applied, mode, oldMode, Option.none_or], fun s v is => ?_⟩
  rw [get_assign_payload, get_payload applied, setting]
  rw [setting_merge current applied] at is
  cases named : feature o s with
  | some value =>
      rw [named, Option.some_or, Option.map_some, Option.some_or] at is
      rw [Option.map_some, Option.some_or, Option.some_or, is]
  | none =>
      rw [named, Option.none_or] at is
      rw [Option.map_none, Option.none_or]
      by_cases isMode : s = "mode"
      · subst isMode
        rw [oldMode, Option.map_none, Option.none_or, if_pos rfl] at is
        rw [if_pos rfl, is, Option.some_or]
      · rw [if_neg isMode, Option.or_none] at is
        rw [if_neg isMode, Option.none_or]
        cases current with
        | none => cases is
        | some o' =>
            refine (old o' rfl).settings s v ?_
            rw [setting, if_neg isMode, Option.or_none]
            exact is

/-- Applying a device-mode moves the device-mode on the disk and nothing else. -/
theorem applyDeviceMode_spec (env : Env) (resolved : ResolvedDeviceModeOptions) {m : MachineState}
    (is : w.record = some m) :
    ((applyDeviceMode env resolved w).record = some m ∨ (applyDeviceMode env resolved w).record =
      some (m.launched env.cyclePid .background env.accel env.now)) ∧
    (applyDeviceMode env resolved w).disk =
      { w.disk with deviceMode := w.disk.deviceMode.assign (payload resolved) } ∧
    (applyDeviceMode env resolved w).stored = w.stored := by
  unfold applyDeviceMode
  cases env.deviceModeActive with
  | true => exact ⟨.inl is, rfl, rfl⟩
  | false => exact ⟨.inr (World.record_update is _), rfl, rfl⟩

theorem carried_appliedDeviceModeRecord {o : DeviceModeOptions} {m : MachineState} {d : Disk}
    {stored : Option Login} (h : Faithful (appliedSteps m) m d stored)
    (mode : feature o "mode" = none) (applied : (resolveDeviceModeOptions (some o)).skip = false) :
    Carried (appliedDeviceModeRecord m (resolveDeviceModeOptions (some o)))
      (d.deviceMode.assign (payload (resolveDeviceModeOptions (some o)))) := by
  refine Carried.merge (fun o' is => ?_) applied mode
  split at is
  · rename_i before; exact h.deviceMode before o' is
  · cases is

theorem faithful_setDeviceMode {o : DeviceModeOptions} {m : MachineState} {w' : World}
    (is : w.record = some m) (faithful : w.Faithful) (mode : feature o "mode" = none)
    (h : setDeviceMode env o m w = .ok w') : w'.Faithful := by
  have carried := carried_appliedDeviceModeRecord (faithful m is) mode
  have done := setDeviceMode_cases h
  generalize resolveDeviceModeOptions (some o) = resolved at done carried
  obtain ⟨apply, -, rfl⟩ := done
  have carried := carried (skip_of_shouldApply apply)
  obtain ⟨record, disk, stored⟩ := applyDeviceMode_spec env resolved is
  obtain ⟨m₁, is₁, same⟩ : ∃ m₁, (applyDeviceMode env resolved w).record = some m₁ ∧
      facts m₁ = facts m := by
    rcases record with is₁ | is₁ <;> exact ⟨_, is₁, rfl⟩
  have old := (faithful m is).of_facts same
  refine faithful_recordStep fun m' is' => ?_
  cases (World.record_update is₁ _).symm.trans is'
  show Faithful _ _ (applyDeviceMode env resolved w).disk (applyDeviceMode env resolved w).stored
  rw [disk, stored]
  have steps : ∀ ran, ran ∈ appliedSteps m₁ ++ [.deviceMode] →
      ran ∈ appliedSteps m ∨ ran = .deviceMode := fun ran member => by
    rw [appliedSteps_of_facts same] at member
    simpa using member
  constructor <;> intro ran <;> have ran := steps _ ran <;>
    simp only [reduceCtorEq, or_false, or_true] at ran
  · exact old.packages ran
  · exact old.allPackages ran
  · intro o' is'
    cases is'
    exact carried
  · exact old.license ran
  · exact old.user ran
  · exact old.disableAdmin ran
  · exact old.secureLogin ran

theorem faithful_installPackage {names : List String} {m : MachineState} {w' : World}
    (is : w.record = some m) (faithful : w.Faithful)
    (h : installPackage env names m w = .ok w') : w'.Faithful := by
  have old := faithful m is
  rcases installPackage_cases h with rfl | ⟨_, installed, ⟨covered, rfl⟩ | ⟨fresh, rfl⟩⟩
  · exact faithful
  all_goals
    have merged := World.record_update is fun m =>
      { m with packages := (m.packages ++ installed).eraseDups }
  · refine faithful_recordStep fun m' is' => ?_
    cases merged.symm.trans is'
    have steps : ∀ ran, ran ∈ appliedSteps m ++ [.packages] → ran ∈ appliedSteps m ∨ ran = .packages :=
      fun ran member => by simpa using member
    constructor <;> intro ran <;> have ran := steps _ ran <;>
      simp only [reduceCtorEq, or_false, or_true] at ran
    · intro pkg member
      rcases List.mem_append.mp (List.mem_eraseDups.mp member) with before | new
      · rcases covered with ran | ⟨_, named⟩
        · exact List.mem_append_left _ (old.packages ran pkg before)
        · exact List.mem_append_right _ (named pkg before)
      · exact List.mem_append_right _ new
    · intro all
      rcases covered with ran | ⟨some, _⟩
      · exact old.allPackages ran all
      · exact absurd all some
    · exact old.deviceMode ran
    · exact old.license ran
    · exact old.user ran
    · exact old.disableAdmin ran
    · exact old.secureLogin ran
  · refine .of_record merged ?_
    exact ⟨fun ran => absurd ran fresh, fun ran => absurd ran fresh, old.deviceMode,
      old.license, old.user, old.disableAdmin, old.secureLogin⟩

theorem faithful_next {e : Event} {w' : World} (faithful : w.Faithful) (agrees : RecordAgrees w e)
    (h : next w e = some w') : w'.Faithful := by
  cases e with
  | add name request now =>
      obtain ⟨_, ⟨⟩⟩ := Option.ite_none_right_eq_some.mp h
      intro m is
      cases is
      exact .nil _ _ _
  | start name env mode request =>
      exact faithful_start faithful agrees (ok_of_toOption h)
  | setDeviceMode env options =>
      obtain ⟨m, is, done⟩ := Option.bind_eq_some_iff.mp h
      exact faithful_setDeviceMode is faithful agrees (ok_of_toOption done)
  | installPackage env names =>
      obtain ⟨m, is, done⟩ := Option.bind_eq_some_iff.mp h
      exact faithful_installPackage is faithful (ok_of_toOption done)
  | clean now =>
      obtain ⟨_, ⟨⟩⟩ := Option.ite_none_right_eq_some.mp h
      intro m is
      obtain ⟨m', _, rfl⟩ := Option.map_eq_some_iff.mp is
      exact .nil _ _ _
  | stop =>
      obtain ⟨_, ⟨⟩⟩ := Option.ite_none_right_eq_some.mp h
      exact faithful.update (·.stopped) (fun _ => rfl) rfl rfl rfl
  | exit => cases h; exact faithful

theorem faithful_reachable (h : system.ReachableUnder RecordAgrees w) : w.Faithful := by
  refine h.invariant (fun w start => ?_) fun w e w' _ faithful agrees step =>
    faithful_next faithful agrees step
  cases start
  intro m is
  cases is

/-- An environment in which every package the tests name exists. -/
def Env.typical : Env where
  now := 1
  pid := 100
  accel := "kvm"
  bootMs := 20000
  deviceModeActive := false
  cyclePid := 101
  available := ["container", "dude"]
  generatedPassword := "generated"
  managedSshKey := none
  licenseLevel := "p1"

def deviceModeRequest (mode : String) : ProvisioningRequest where
  deviceMode := some { mode := some mode }

/-- The machine is past its first boot and reports the device-mode as applied. -/
def World.reports (mode : String) (w : World) : Bool :=
  w.record.any fun m => !isProvisioningWindowOpen m &&
    (classifyProvisioningRequest w.stored m (deviceModeRequest mode)).any fun ask =>
      ask.step = .deviceMode ∧ ask.satisfied = true

theorem World.reports_iff {mode : String} (h : w.reports mode = true) : ∃ m, w.record = some m ∧
    isProvisioningWindowOpen m = false ∧
    ∃ ask ∈ classifyProvisioningRequest w.stored m (deviceModeRequest mode),
      ask.step = .deviceMode ∧ ask.satisfied = true := by
  obtain ⟨m, is, h⟩ := (Option.any_eq_true _ _).mp h
  rw [Bool.and_eq_true, Bool.not_eq_true', List.any_eq_true] at h
  obtain ⟨closed, ask, asked, h⟩ := h
  exact ⟨m, is, closed, ask, asked, of_decide_eq_true h⟩

/-- `start` overrides the device-mode `add` recorded, and the record keeps the latter. -/
def overridden : List Event :=
  [.add "chr" (deviceModeRequest "home") 0,
    .start "chr" .typical .background (deviceModeRequest "rose")]

end Quickchr.Provisioning
