import Quickchr.Satisfaction

/-!
# Repeating a start

A script repeats its start line. The second time every option is to be reported as applied
already. What decides it is whether `machine.json` carries the value a first boot applied;
options of `start` that override or add to what `add` recorded are not written back.
-/
namespace Quickchr.Provisioning

open DeviceMode ProvisioningWindow

variable {env : Env} {opts : ProvisioningRequest} {w : World} {m : MachineState}

theorem packagesStep_spec (env : Env) (opts : ProvisioningRequest) (is : w.record = some m) :
    ∃ packages, (packagesStep env opts w).record = some { m with packages := packages } ∧
      (opts.installAllPackages = some true → packages = env.available) ∧
      (opts.installAllPackages ≠ some true → ∀ named, someNames opts.packages = some named →
        packages = installPackages env named) := by
  unfold packagesStep
  by_cases all : opts.installAllPackages = some true
  · simp only [all, if_true]
    exact ⟨_, World.record_update is _, fun _ => rfl, fun named => absurd rfl named⟩
  · simp only [all, if_false]
    cases given : someNames opts.packages with
    | none => exact ⟨m.packages, is, fun asked => absurd asked id, fun _ named is => by cases is⟩
    | some packages =>
        refine ⟨_, World.record_update is _, fun asked => absurd asked id, fun _ named is => ?_⟩
        rw [Option.some.inj is]

theorem deviceModeStep_spec (env : Env) (opts : ProvisioningRequest) (is : w.record = some m) :
    (deviceModeStep env opts w).record = some m ∨ (deviceModeStep env opts w).record =
      some (m.launched env.cyclePid .background env.accel env.now) := by
  unfold deviceModeStep
  dsimp only
  split
  · exact (applyDeviceMode_spec env _ is).1
  · exact .inl is

theorem licenseStep_spec (env : Env) (opts : ProvisioningRequest) (is : w.record = some m) :
    ∃ level, (licenseStep env opts w).record = some { m with licenseLevel := level } ∧
      (opts.license.isSome = true → level = some env.licenseLevel) := by
  unfold licenseStep
  cases opts.license with
  | none => exact ⟨m.licenseLevel, is, fun given => by cases given⟩
  | some license => exact ⟨_, World.record_update is _, fun _ => rfl⟩

theorem accountStep_spec (env : Env) (opts : ProvisioningRequest) (is : w.record = some m) :
    ∃ user key, (accountStep env opts w).record =
        some { m with user := user, managedSshKey := key } ∧
      ∀ login, opts.user = some login → (accountStep env opts w).stored = some login ∧
        user.map (·.name) = some login.name := by
  unfold accountStep provision
  cases opts.user with
  | some login =>
      simp only [Option.isSome_some, Bool.true_or, if_true, Option.some_or]
      refine ⟨_, _, World.record_update (by exact is) _, fun login' is => ?_⟩
      cases is
      exact ⟨rfl, rfl⟩
  | none =>
      by_cases secure : opts.secureLogin = some true
      · simp only [secure, decide_true, Bool.or_true, if_true, Option.none_or]
        exact ⟨_, _, World.record_update (by exact is) _, fun _ none => by cases none⟩
      · by_cases disable : opts.disableAdmin = some true
        · simp [secure, disable]
          exact ⟨m.user, m.managedSshKey, is⟩
        · simp [secure, disable]
          exact ⟨m.user, m.managedSshKey, is⟩

/-- What a provisioned machine's record says after `opts` has run on it. -/
structure Provisioned (env : Env) (opts : ProvisioningRequest) (m m' : MachineState)
    (stored : Option Login) : Prop where
  intent : m'.installAllPackages = m.installAllPackages ∧ m'.deviceMode = m.deviceMode ∧
    m'.disableAdmin = m.disableAdmin ∧ m'.secureLogin = m.secureLogin
  ran : appliedSteps m' = steps opts
  closed : isProvisioningWindowOpen m' = false
  started : m.lastStartedAt ≠ none → m'.lastStartedAt ≠ none
  all : opts.installAllPackages = some true → m'.packages = env.available
  packages : opts.installAllPackages ≠ some true → ∀ named, someNames opts.packages = some named →
    m'.packages = installPackages env named
  license : opts.license.isSome = true → m'.licenseLevel = some env.licenseLevel
  user : ∀ login, opts.user = some login →
    stored = some login ∧ m'.user.map (·.name) = some login.name

theorem provisionInstance_spec (env : Env) (opts : ProvisioningRequest) (is : w.record = some m) :
    ∃ m', (provisionInstance env opts w).record = some m' ∧
      Provisioned env opts m m' (provisionInstance env opts w).stored := by
  obtain ⟨packages, is₁, all, named⟩ := packagesStep_spec env opts is
  have two : ∃ m₂, (deviceModeStep env opts (packagesStep env opts w)).record = some m₂ ∧
      m₂.packages = packages ∧ m₂.installAllPackages = m.installAllPackages ∧
      m₂.deviceMode = m.deviceMode ∧ m₂.disableAdmin = m.disableAdmin ∧
      m₂.secureLogin = m.secureLogin ∧ (m.lastStartedAt ≠ none → m₂.lastStartedAt ≠ none) := by
    rcases deviceModeStep_spec env opts is₁ with is₂ | is₂
    · exact ⟨_, is₂, rfl, rfl, rfl, rfl, rfl, id⟩
    · exact ⟨_, is₂, rfl, rfl, rfl, rfl, rfl, fun _ => Option.some_ne_none _⟩
  obtain ⟨m₂, is₂, packages₂, all₂, mode₂, disable₂, secure₂, started₂⟩ := two
  obtain ⟨level, is₃, license⟩ := licenseStep_spec env opts is₂
  obtain ⟨user, key, is₄, account⟩ := accountStep_spec env opts is₃
  refine ⟨_, World.record_update is₄ _, ⟨all₂, mode₂, disable₂, secure₂⟩, rfl, rfl, started₂, ?_, ?_, ?_,
    ?_⟩
  · exact fun asked => packages₂.trans (all asked)
  · exact fun others given is => packages₂.trans (named others given is)
  · exact license
  · exact account

theorem mem_steps (opts : ProvisioningRequest) (step : ProvisioningStep) :
    step ∈ steps opts ↔ match step with
      | .packages => opts.installAllPackages = some true ∨ (someNames opts.packages).isSome = true
      | .deviceMode => shouldApplyDeviceMode (resolveDeviceModeOptions opts.deviceMode) = true
      | .license => opts.license.isSome = true
      | .user => opts.user.isSome = true
      | .disableAdmin => opts.disableAdmin = some true
      | .secureLogin => opts.secureLogin = some true := by
  unfold steps
  cases step <;> simp

/-- The outside gave every step what was asked of it. -/
structure AsAsked (env : Env) (request : ProvisioningRequest) : Prop where
  packages : request.installAllPackages ≠ some true →
    ∀ pkg ∈ request.packages.getD [], pkg ∈ env.available
  license : ∀ license, request.license = some license → env.licenseLevel = licenseLevelOf license

/-- The record had each of these options before the first boot. -/
structure Recorded (m : MachineState) (request : ProvisioningRequest) : Prop where
  all : request.installAllPackages = some true → m.installAllPackages = some true
  deviceMode : deviceModeSelection request.deviceMode ≠ [] →
    deviceModeSatisfiedBy (deviceModeSelection m.deviceMode)
      (deviceModeSelection request.deviceMode) = true
  disableAdmin : request.disableAdmin = some true → m.disableAdmin = some true
  secureLogin : request.secureLogin = some true → m.secureLogin = some true

theorem deviceMode_given {o : Option DeviceModeOptions}
    (h : shouldApplyDeviceMode (resolveDeviceModeOptions o) = true) : ∃ o', o = some o' := by
  cases o with
  | none => cases h
  | some o' => exact ⟨o', rfl⟩

theorem someNames_pending {request : ProvisioningRequest} {named : List String}
    (given : someNames request.packages = some named) :
    someNames (pendingProvisioningFor m request).packages = some named := by
  obtain ⟨_, nonempty⟩ := Option.filter_eq_some_iff.mp given
  rw [pendingProvisioningFor, given, Option.some_or]
  exact Option.filter_eq_some_iff.mpr ⟨rfl, nonempty⟩

/-- After a first boot that did what it was asked, an option is reported as applied exactly
if the record had it before. -/
theorem all_satisfied_iff_recorded {m' : MachineState} {stored : Option Login}
    {request : ProvisioningRequest} (asAsked : AsAsked env request)
    (after : Provisioned env (pendingProvisioningFor m request) m m' stored) :
    (∀ ask ∈ classifyProvisioningRequest stored m' request, ask.satisfied = true) ↔
      Recorded m request := by
  obtain ⟨all, mode, disable, secure⟩ := after.intent
  rw [all_satisfied_iff, after.ran, all, mode, disable, secure]
  simp only [mem_steps]
  constructor
  · rintro ⟨all, -, mode, -, -, disable, secure⟩
    exact ⟨fun asked => (all asked).2, fun asked => (mode asked).2, fun asked => (disable asked).2,
      fun asked => (secure asked).2⟩
  · intro recorded
    refine ⟨fun asked => ⟨.inl ?_, recorded.all asked⟩, fun others packages given => ⟨.inr ?_, ?_⟩,
      fun asked => ⟨?_, recorded.deviceMode asked⟩, fun license given => ⟨?_, ?_⟩,
      fun user given => ⟨?_, ?_⟩, fun asked => ⟨?_, recorded.disableAdmin asked⟩,
      fun asked => ⟨?_, recorded.secureLogin asked⟩⟩
    · rw [pendingProvisioningFor, asked, Option.some_or]
    · rw [someNames_pending given, Option.isSome_some]
    · intro pkg member
      have known : pkg ∈ env.available := asAsked.packages others pkg
        (by rw [(Option.filter_eq_some_iff.mp given).1]; exact member)
      by_cases installed : (pendingProvisioningFor m request).installAllPackages = some true
      · rw [after.all installed]; exact known
      · rw [after.packages installed packages (someNames_pending given)]
        exact List.mem_filter.mpr ⟨member, decide_eq_true known⟩
    · have apply := shouldApply_of_selection asked
      obtain ⟨o, is⟩ := deviceMode_given apply
      rw [is] at apply
      rw [pendingProvisioningFor, is, Option.some_or]
      exact apply
    · rw [pendingProvisioningFor, given, Option.isSome_some]
    · rw [after.license (by rw [pendingProvisioningFor, given, Option.isSome_some]),
        asAsked.license license given]
    · rw [pendingProvisioningFor, given, Option.some_or, Option.isSome_some]
    · obtain ⟨kept, name⟩ := after.user user (by rw [pendingProvisioningFor, given, Option.some_or])
      simp [userCredentialMatches, kept, name]
    · rw [pendingProvisioningFor, asked, Option.some_or]
    · rw [pendingProvisioningFor, asked, Option.some_or]

/-- A machine that has not been launched on its disk is not recorded as running. -/
def World.Unlaunched (w : World) : Prop :=
  ∀ m, w.record = some m → m.lastStartedAt = none → m.status ≠ .running

theorem launch_provisions {mode : LaunchMode} (wanted : wantsProvisioning opts = true)
    (waits : mode = .background ∨ mode = .foreground) :
    launch env mode (some opts) w = provisionInstance env opts
      (World.update { w.update (·.launched env.pid mode env.accel env.now) with
        qemu := some env.pid } (·.booted env.accel env.bootMs)) := by
  rcases waits with rfl | rfl <;> simp [launch, wanted]

theorem started_launch (env : Env) (mode : LaunchMode) (pending : Option ProvisioningRequest)
    (is : w.record = some m) :
    ∃ m', (launch env mode pending w).record = some m' ∧ m'.lastStartedAt ≠ none := by
  unfold launch
  dsimp only
  have spawned := World.record_update is (·.launched env.pid mode env.accel env.now)
  have ready := World.record_update (w := { w.update (·.launched env.pid mode env.accel env.now) with
    qemu := some env.pid }) spawned (·.booted env.accel env.bootMs)
  split
  · exact ⟨_, World.record_update is _, Option.some_ne_none _⟩
  · split
    · exact ⟨_, spawned, Option.some_ne_none _⟩
    · split
      · split
        · obtain ⟨m', is', provisioned⟩ := provisionInstance_spec env _ ready
          exact ⟨m', is', provisioned.started (Option.some_ne_none _)⟩
        · exact ⟨_, ready, Option.some_ne_none _⟩
      · exact ⟨_, ready, Option.some_ne_none _⟩

theorem World.Unlaunched.of_started {w : World} (h : ∃ m, w.record = some m ∧ m.lastStartedAt ≠ none) :
    w.Unlaunched := by
  obtain ⟨m, is, started⟩ := h
  intro m' is' never
  cases is.symm.trans is'
  exact absurd never started

theorem started_start {name : String} {mode : LaunchMode} {request : ProvisioningRequest}
    {w' : World} (h : start name env mode request w = .ok w') :
    w' = w ∨ ∃ m, w'.record = some m ∧ m.lastStartedAt ≠ none := by
  cases is : w.record with
  | none =>
      simp only [start, is] at h
      rcases startNew_cases h with rfl | rfl | rfl
      · exact .inr (started_launch env _ _ rfl)
      · exact .inr (started_launch env _ _ rfl)
      · obtain ⟨m, is, _⟩ := started_launch env .background (some request)
          (w := { w with record := some (created name request env.now .running) }) rfl
        exact .inr (started_launch env .foreground none (World.record_update is (·.stopped)))
  | some m =>
      rcases (start_cases is h).2 with ⟨_, rfl⟩ | ⟨_, _, _, _, rfl⟩ | ⟨_, _, rfl⟩
      · exact .inl rfl
      · exact .inr (started_launch env mode _ is)
      · exact .inr (started_launch env mode _ is)

theorem running_status (h : w.isMachineRunning m = true) : m.status = .running := by
  unfold World.isMachineRunning at h
  rw [Bool.and_eq_true, Bool.and_eq_true, decide_eq_true_eq] at h
  exact h.1.1

theorem unlaunched_reachable (h : system.Reachable w) : w.Unlaunched := by
  refine h.invariant (fun w start => ?_) fun w e w' _ unlaunched _ step => ?_
  · cases start
    intro m is
    cases is
  · cases e with
    | add name request now =>
        obtain ⟨_, ⟨⟩⟩ := Option.ite_none_right_eq_some.mp step
        intro m is _ running
        cases is
        cases running
    | start name env mode request =>
        rcases started_start (ok_of_toOption step) with rfl | started
        · exact unlaunched
        · exact .of_started started
    | setDeviceMode env options =>
        obtain ⟨m, is, done⟩ := Option.bind_eq_some_iff.mp step
        obtain ⟨_, running, rfl⟩ := setDeviceMode_cases (ok_of_toOption done)
        have started : m.lastStartedAt ≠ none := fun never =>
          unlaunched m is never (running_status running)
        rcases (applyDeviceMode_spec env (resolveDeviceModeOptions (some options)) is).1
          with is' | is'
        · exact .of_started ⟨_, World.record_update (World.record_update is' _) _, started⟩
        · exact .of_started ⟨_, World.record_update (World.record_update is' _) _,
            Option.some_ne_none _⟩
    | installPackage env names =>
        obtain ⟨m, is, done⟩ := Option.bind_eq_some_iff.mp step
        rcases installPackage_cases (ok_of_toOption done) with
          rfl | ⟨running, installed, ⟨_, rfl⟩ | ⟨_, rfl⟩⟩
        · exact unlaunched
        all_goals
          have started : m.lastStartedAt ≠ none := fun never =>
            unlaunched m is never (running_status running)
          have merged := World.record_update is fun m =>
            { m with packages := (m.packages ++ installed).eraseDups }
        · exact .of_started ⟨_, World.record_update (w := mergePackages installed w) merged _, started⟩
        · exact .of_started ⟨_, merged, started⟩
    | clean now =>
        obtain ⟨_, ⟨⟩⟩ := Option.ite_none_right_eq_some.mp step
        intro m is _ running
        obtain ⟨_, _, rfl⟩ := Option.map_eq_some_iff.mp is
        cases running
    | stop =>
        obtain ⟨_, ⟨⟩⟩ := Option.ite_none_right_eq_some.mp step
        intro m is _ running
        obtain ⟨_, _, rfl⟩ := Option.map_eq_some_iff.mp is
        cases running
    | exit => cases step; exact unlaunched

/-- A first boot that has nothing to provision was not asked for anything. -/
theorem asks_nothing {request : ProvisioningRequest}
    (unwanted : wantsProvisioning (pendingProvisioningFor m request) = false) :
    request.installAllPackages ≠ some true ∧ someNames request.packages = none ∧
      request.deviceMode = none ∧ request.license = none ∧ request.user = none ∧
      request.disableAdmin ≠ some true ∧ request.secureLogin ≠ some true := by
  simp only [wantsProvisioning, Bool.or_eq_false_iff] at unwanted
  obtain ⟨⟨⟨⟨⟨⟨all, packages⟩, mode⟩, user⟩, disable⟩, license⟩, secure⟩ := unwanted
  simp only [pendingProvisioningFor] at all mode user disable license secure
  refine ⟨fun asked => ?_, ?_, ?_, ?_, ?_, fun asked => ?_, fun asked => ?_⟩
  · simp [asked] at all
  · cases given : someNames request.packages with
    | none => rfl
    | some named => rw [someNames_pending given] at packages; cases packages
  · cases given : request.deviceMode with
    | none => rfl
    | some o => simp [given] at mode
  · cases given : request.license with
    | none => rfl
    | some license' => simp [given] at license
  · cases given : request.user with
    | none => rfl
    | some login => simp [given] at user
  · simp [asked] at disable
  · simp [asked] at secure

/-- The second start with the same options: nothing is refused, everything is reported as
applied. -/
def RepeatAccepted (stored : Option Login) (m : MachineState) (request : ProvisioningRequest) :
    Prop :=
  assertProvisioningWindow stored m request =
      .ok (classifyProvisioningRequest stored m request) ∧
    ∀ ask ∈ classifyProvisioningRequest stored m request, ask.satisfied = true

/-- After a first boot that did what it was asked, the same start is accepted again exactly if
the record had every option before. -/
theorem start_again_iff (h : system.Reachable w) (is : w.record = some m)
    (opened : isProvisioningWindowOpen m = true) {name : String} {mode : LaunchMode}
    {request : ProvisioningRequest} {w' : World} (started : start name env mode request w = .ok w')
    (asAsked : AsAsked env request) :
    ∃ m', w'.record = some m' ∧ (RepeatAccepted w'.stored m' request ↔ Recorded m request) := by
  have idle : w.isMachineRunning m = false := by
    refine Bool.eq_false_iff.mpr fun running => ?_
    refine unlaunched_reachable h m is ?_ (running_status running)
    unfold isProvisioningWindowOpen at opened
    rw [Bool.and_eq_true, Option.isNone_iff_eq_none, Option.isNone_iff_eq_none] at opened
    exact opened.2
  have accepted : ∀ {m' : MachineState}, isProvisioningWindowOpen m' = false →
      (RepeatAccepted w'.stored m' request ↔
        ∀ ask ∈ classifyProvisioningRequest w'.stored m' request, ask.satisfied = true) := by
    intro m' closed
    refine ⟨fun h => h.2, fun all => ⟨?_, all⟩⟩
    simp only [assertProvisioningWindow, closed, List.all_eq_true.mpr all, if_true]
    rfl
  rcases (start_cases is started).2 with ⟨running, _⟩ | ⟨_, _, wanted, waits, done⟩ | ⟨_, unwanted, done⟩
  · rw [idle] at running; cases running
  · subst done
    rw [launch_provisions wanted waits] at accepted ⊢
    obtain ⟨m', is', after⟩ := provisionInstance_spec env (pendingProvisioningFor m request)
      (World.record_update (w := { w.update (·.launched env.pid mode env.accel env.now) with
        qemu := some env.pid }) (World.record_update is _) (·.booted env.accel env.bootMs))
    refine ⟨m', is', (accepted after.closed).trans ?_⟩
    exact all_satisfied_iff_recorded asAsked ⟨after.intent, after.ran, after.closed,
      fun _ => after.started (Option.some_ne_none _), after.all, after.packages, after.license,
      after.user⟩
  · subst done
    obtain ⟨m', is', launched⟩ := started_launch env mode none is
    have closed : isProvisioningWindowOpen m' = false := by
      unfold isProvisioningWindowOpen
      rw [Option.isNone_eq_false_iff.mpr (Option.isSome_iff_ne_none.mpr launched), Bool.and_false]
    obtain ⟨all, packages, mode, license, user, disable, secure⟩ := asks_nothing (unwanted opened)
    have nothing : deviceModeSelection request.deviceMode = [] := by rw [mode]; rfl
    refine ⟨m', is', (accepted closed).trans (iff_of_true ?_ ?_)⟩
    · rw [all_satisfied_iff]
      exact ⟨fun asked => absurd asked all, fun _ named given => (by rw [packages] at given; cases given),
        fun asked => absurd nothing asked, fun _ given => (by rw [license] at given; cases given),
        fun _ given => (by rw [user] at given; cases given), fun asked => absurd asked disable,
        fun asked => absurd asked secure⟩
    · exact ⟨fun asked => absurd asked all, fun asked => absurd nothing asked,
        fun asked => absurd asked disable, fun asked => absurd asked secure⟩

theorem start_again_home : ∃ (w w' : World) (m' : MachineState),
    start "chr" .typical .background (deviceModeRequest "home") w = .ok w' ∧
    w'.record = some m' ∧ RepeatAccepted w'.stored m' (deviceModeRequest "home") := by
  have added : system.next .empty (.add "chr" (deviceModeRequest "home") 0) =
      some (add "chr" (deviceModeRequest "home") 0 .empty) := rfl
  obtain ⟨w', started⟩ := Option.isSome_iff_exists.mp (by decide +kernel :
    (start "chr" .typical .background (deviceModeRequest "home")
      (add "chr" (deviceModeRequest "home") 0 .empty)).toOption.isSome = true)
  have started := ok_of_toOption started
  obtain ⟨m', is', again⟩ := start_again_iff (.step (.initial rfl) trivial added) rfl rfl started
    ⟨fun _ _ member => (by cases member), fun _ given => (by cases given)⟩
  exact ⟨_, w', m', started, is', again.mpr ⟨fun asked => (by cases asked),
    fun _ => (by decide +kernel), fun asked => (by cases asked), fun asked => (by cases asked)⟩⟩

/-- `start` disables the admin account of a machine that `add` recorded without that wish. -/
def disabling : ProvisioningRequest where
  disableAdmin := some true

theorem start_again_fails : ¬ ∀ (w w' : World) (m : MachineState) (name : String) (env : Env)
    (mode : LaunchMode) (request : ProvisioningRequest), system.Reachable w → w.record = some m →
    isProvisioningWindowOpen m = true → start name env mode request w = .ok w' →
    AsAsked env request → ∃ m', w'.record = some m' ∧ RepeatAccepted w'.stored m' request := by
  intro claim
  have added : system.next .empty (.add "chr" {} 0) = some (add "chr" {} 0 .empty) := rfl
  obtain ⟨w', started, refused⟩ := (Option.any_eq_true _ _).mp (by decide +kernel :
    (start "chr" .typical .background disabling (add "chr" {} 0 .empty)).toOption.any
      (fun w' => w'.record.all fun m' =>
        (classifyProvisioningRequest w'.stored m' disabling).any fun ask => !ask.satisfied) = true)
  obtain ⟨m', is', -, satisfied⟩ := claim _ w' _ "chr" .typical .background disabling
    (.step (.initial rfl) trivial added) rfl rfl (ok_of_toOption started)
    ⟨fun _ _ member => (by cases member), fun _ given => (by cases given)⟩
  rw [is', Option.all_some, List.any_eq_true] at refused
  obtain ⟨ask, asked, pending⟩ := refused
  rw [satisfied ask asked] at pending
  cases pending

end Quickchr.Provisioning
