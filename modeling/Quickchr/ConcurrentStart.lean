import Quickchr.RepeatedStart

/-!
# Starts that run at the same time

A start reads `machine.json` and works out what to provision before it takes the machine
lock; stops, cleans and other starts come in between. `returned` tells for one step what the
start that has just returned stands for.
-/
namespace Quickchr.ConcurrentStart

open DeviceMode ProvisioningWindow Provisioning

/-- A start under way, with the record it has read and the number of cleans before it did. -/
inductive Phase
  | idle
  | read (snapshot : MachineState) (cleans : ℕ) (mode : LaunchMode) (request : ProvisioningRequest)
  | waiting (snapshot : MachineState) (cleans : ℕ) (mode : LaunchMode) (request : ProvisioningRequest)
      (pending : Option ProvisioningRequest)

/-- A start that has returned an instance: the machine before its last step, and what it stands for. -/
structure Return where
  before : World
  requests : List ProvisioningRequest

structure State where
  world : World
  procs : ℕ → Phase
  cleans : ℕ := 0
  /-- What the first boot of the disk was provisioned with, and what the outside answered it, when a
  start of this run did it. -/
  booted : Option (Env × ProvisioningRequest) := none
  returned : Option Return := none

inductive Event
  | call (p : ℕ) (mode : LaunchMode) (request : ProvisioningRequest)
  /-- The part of `start` before the lock. -/
  | decide (p : ℕ)
  /-- `_launchExisting`, under the lock. -/
  | launch (p : ℕ) (env : Env)
  /-- An error before QEMU is spawned. -/
  | throws (p : ℕ)
  /-- The boot, or the provisioning after `ran` of its steps, fails under the lock. -/
  | fails (p : ℕ) (env : Env) (ran : ℕ) (preserve : Bool)
  | stop
  | clean (now : Timestamp)
  /-- QEMU dies. -/
  | exit

/-- The request together with the intents of `machine.json` that it leaves open. -/
def withIntents (m : MachineState) (request : ProvisioningRequest) : ProvisioningRequest :=
  { pendingProvisioningFor m request with
    user := request.user, disableAdmin := request.disableAdmin }

/-- The launch is the first boot of the disk. -/
def firstBoot (w : World) (m : MachineState) : Bool := !w.isMachineRunning m && isProvisioningWindowOpen m

/-- What a start stands for when it has the lock: its request, and on a first boot also the intents. -/
def demanded (w : World) (m : MachineState) (request : ProvisioningRequest) : List ProvisioningRequest :=
  if firstBoot w m then [request, withIntents m request] else [request]

/-- A launch that fails once QEMU is spawned. A first boot goes back to the factory disk and
the record from before the launch, unless the failed machine is to be preserved. -/
def failedLaunch (env : Env) (mode : LaunchMode) (pending : Option ProvisioningRequest) (ran : ℕ)
    (preserve : Bool) (m : MachineState) (w : World) : World :=
  if isProvisioningWindowOpen m && !preserve then
    { record := some { m with status := .stopped, pid := none }
      stored := none, disk := {}, qemu := none }
  else
    let spawned := w.update (·.launched env.pid mode env.accel env.now)
    let partly : World := match pending with
      | some opts =>
          ([packagesStep env opts, deviceModeStep env opts, licenseStep env opts,
            accountStep env opts].take ran).foldl (fun w step => step w) spawned
      | none => spawned
    { partly.update (·.stopped) with qemu := none }

def State.move (s : State) (p : ℕ) (phase : Phase) : State :=
  { s with procs := Function.update s.procs p phase, returned := none }

def State.returns (s : State) (p : ℕ) (w : World) (requests : List ProvisioningRequest) : State :=
  { s with
    world := w, procs := Function.update s.procs p .idle, returned := some ⟨s.world, requests⟩ }

def next (s : State) : Event → Option State
  | .call p mode request => match s.procs p with
      | .idle => s.world.record.map fun m => s.move p (.read m s.cleans mode request)
      | _ => none
  | .decide p => match s.procs p with
      | .read snapshot cleans mode request =>
          match decideStart s.world.stored snapshot (s.world.isMachineRunning snapshot) mode request with
          | .error _ => some (s.move p .idle)
          | .ok .handle => some (s.returns p s.world [request])
          | .ok (.launch pending) => some (s.move p (.waiting snapshot cleans mode request pending))
      | _ => none
  | .launch p env => match s.procs p with
      | .waiting snapshot _ mode request pending =>
          s.world.record.map fun m =>
            match launchExisting env mode snapshot pending s.world with
            | .error _ => s.move p .idle
            | .ok w => { s.returns p w (demanded s.world m request) with
                booted := if firstBoot s.world m then pending.map fun opts => (env, opts) else s.booted }
      | _ => none
  | .throws p => some (s.move p .idle)
  | .fails p env ran preserve => match s.procs p with
      | .waiting _ _ mode _ pending =>
          s.world.record.bind fun m =>
            if s.world.isMachineRunning m then none
            else some { s.move p .idle with
              world := failedLaunch env mode
                (if isProvisioningWindowOpen m then pending else none) ran preserve m s.world
              booted := if isProvisioningWindowOpen m then none else s.booted }
      | _ => none
  | .stop => some { s with world := stop s.world, returned := none }
  | .clean now => some
      { s with world := clean now s.world, cleans := s.cleans + 1, booted := none, returned := none }
  | .exit => some { s with world := { s.world with qemu := none }, returned := none }

/-- Some machine that exists, and no start under way. -/
def system : Transition.System State Event where
  Initial s := s.world.record.isSome = true ∧ s.procs = (fun _ => .idle) ∧ s.booted = none ∧
    s.returned = none
  next := next

/-- Each option the start stands for was recorded as applied to the disk already, or is on the disk now. -/
def Honoured (r : Return) (w : World) : Prop :=
  ∀ R ∈ r.requests, ∃ m, r.before.record = some m ∧
    ∀ ask ∈ classifyProvisioningRequest r.before.stored m R,
      ask.satisfied = true ∧ w.disk = r.before.disk ∨ w.disk.Applied R ask.step

instance (env : Env) (R : ProvisioningRequest) : Decidable (AsAsked env R) :=
  decidable_of_iff ((R.installAllPackages ≠ some true → ∀ pkg ∈ R.packages.getD [], pkg ∈ env.available) ∧
      ∀ license ∈ R.license, env.licenseLevel = licenseLevelOf license)
    ⟨fun h => ⟨h.1, h.2⟩, fun h => ⟨h.packages, h.license⟩⟩

/-- A first boot with the options `q` has all that `R` asks for: the options name it, the release has the
packages, the license comes out at its level, and no user stands in for the managed login. -/
structure Given (env : Env) (q R : ProvisioningRequest) : Prop where
  asAsked : AsAsked env R
  all : R.installAllPackages = some true → q.installAllPackages = some true
  packages : R.installAllPackages ≠ some true → q.installAllPackages = some true ∨
    ∀ pkg ∈ R.packages.getD [], pkg ∈ q.packages.getD []
  deviceMode : R.deviceMode.isSome = true → q.deviceMode = R.deviceMode
  license : R.license.isSome = true → q.license.isSome = true
  user : R.user.isSome = true → q.user = R.user
  disableAdmin : R.disableAdmin = some true → q.disableAdmin = some true
  secureLogin : R.secureLogin = some true → q.secureLogin = some true ∧ q.user = none

instance (env : Env) (q R : ProvisioningRequest) : Decidable (Given env q R) :=
  decidable_of_iff (AsAsked env R ∧ (R.installAllPackages = some true → q.installAllPackages = some true) ∧
      (R.installAllPackages ≠ some true → q.installAllPackages = some true ∨
        ∀ pkg ∈ R.packages.getD [], pkg ∈ q.packages.getD []) ∧
      (R.deviceMode.isSome = true → q.deviceMode = R.deviceMode) ∧
      (R.license.isSome = true → q.license.isSome = true) ∧ (R.user.isSome = true → q.user = R.user) ∧
      (R.disableAdmin = some true → q.disableAdmin = some true) ∧
      (R.secureLogin = some true → q.secureLogin = some true ∧ q.user = none))
    ⟨fun ⟨asAsked, all, packages, deviceMode, license, user, disableAdmin, secureLogin⟩ =>
        ⟨asAsked, all, packages, deviceMode, license, user, disableAdmin, secureLogin⟩,
      fun h => ⟨h.asAsked, h.all, h.packages, h.deviceMode, h.license, h.user, h.disableAdmin, h.secureLogin⟩⟩

/-- The first boot of the disk was given what the request asks for. -/
def State.Gave (s : State) (request : ProvisioningRequest) : Prop :=
  ∃ b ∈ s.booted, Given b.1 b.2 request

instance (s : State) (request : ProvisioningRequest) : Decidable (s.Gave request) :=
  inferInstanceAs (Decidable (∃ b ∈ s.booted, Given b.1 b.2 request))

/-- The window was closed when the start read the record, and the machine has not been cleaned since. Else
the first boot of the disk was given what the start asks for. -/
def State.Answered (s : State) (snapshot : MachineState) (cleans : ℕ) (request : ProvisioningRequest) : Prop :=
  isProvisioningWindowOpen snapshot = false ∧ cleans = s.cleans ∨ s.Gave request

instance (s : State) (snapshot : MachineState) (cleans : ℕ) (request : ProvisioningRequest) :
    Decidable (s.Answered snapshot cleans request) :=
  inferInstanceAs (Decidable (_ ∨ _))

/-- A first boot that carries `opts` has what `machine.json` asks for under the lock: the packages named
there were read, the release has those that are named, the license comes out at its level, and no user is
asked for beside the managed login. -/
def Covers (env : Env) (snapshot : MachineState) (request opts : ProvisioningRequest) (m : MachineState) :
    Prop :=
  ((withIntents m request).installAllPackages = some true ∨ (someNames request.packages).isSome = true ∨
      ∀ pkg ∈ m.packages, pkg ∈ snapshot.packages) ∧
    AsAsked env request ∧ AsAsked env (withIntents m request) ∧
    ((withIntents m request).secureLogin = some true → opts.user = none)

instance (env : Env) (snapshot : MachineState) (request opts : ProvisioningRequest) (m : MachineState) :
    Decidable (Covers env snapshot request opts m) :=
  inferInstanceAs (Decidable (_ ∧ _))

/-- What a launch under the lock does not check again itself. -/
def launchRechecked (s : State) (env : Env) (snapshot : MachineState) (cleans : ℕ)
    (request : ProvisioningRequest) (pending : Option ProvisioningRequest) (m : MachineState) : Bool :=
  if s.world.isMachineRunning m then s.Answered snapshot cleans request
  else if isProvisioningWindowOpen m then
    match pending with
    | none => !hasProvisioningRequest (withIntents m request)
    | some opts => Covers env snapshot request opts m
  else
    match pending with
    | none => isProvisioningWindowOpen snapshot || s.Answered snapshot cleans request
    -- install-all from `machine.json` hides the packages that the request names
    | some opts => opts.installAllPackages ≠ some true || request.installAllPackages = some true ||
        (someNames request.packages).isNone || s.Gave request

/-- The condition on the steps of a run: what a start worked out from the record it has read
still stands where the code does not check it again. -/
def rechecked (s : State) : Event → Bool
  | .decide p => match s.procs p with
      | .read snapshot cleans _ request =>
          !s.world.isMachineRunning snapshot || s.Answered snapshot cleans request
      | _ => true
  | .launch p env => match s.procs p with
      | .waiting snapshot cleans _ request pending =>
          s.world.record.all (launchRechecked s env snapshot cleans request pending)
      | _ => true
  | _ => true

/-- The intents no operation on an existing machine changes. -/
def intent (m : MachineState) := (m.installAllPackages, m.deviceMode, m.secureLogin)

def KeepsIntent (f : World → World) : Prop :=
  ∀ w m, w.record = some m → ∃ m', (f w).record = some m' ∧ intent m' = intent m

theorem KeepsIntent.comp {f g : World → World} (hg : KeepsIntent g) (hf : KeepsIntent f) :
    KeepsIntent fun w => g (f w) := by
  intro w m is
  obtain ⟨m₁, is₁, same₁⟩ := hf w m is
  obtain ⟨m₂, is₂, same₂⟩ := hg (f w) m₁ is₁
  exact ⟨m₂, is₂, same₂.trans same₁⟩

theorem KeepsIntent.update {f : MachineState → MachineState} (same : ∀ m, intent (f m) = intent m) :
    KeepsIntent (·.update f) :=
  fun _ m is => ⟨f m, World.record_update is f, same m⟩

theorem keepsIntent_packagesStep (env : Env) (opts : ProvisioningRequest) :
    KeepsIntent (packagesStep env opts) := by
  intro w m is
  obtain ⟨_, is', _⟩ := packagesStep_spec env opts is
  exact ⟨_, is', rfl⟩

theorem keepsIntent_deviceModeStep (env : Env) (opts : ProvisioningRequest) :
    KeepsIntent (deviceModeStep env opts) := by
  intro w m is
  rcases deviceModeStep_spec env opts is with is' | is'
  · exact ⟨_, is', rfl⟩
  · exact ⟨_, is', rfl⟩

theorem keepsIntent_licenseStep (env : Env) (opts : ProvisioningRequest) :
    KeepsIntent (licenseStep env opts) := by
  intro w m is
  obtain ⟨_, is', _⟩ := licenseStep_spec env opts is
  exact ⟨_, is', rfl⟩

theorem keepsIntent_accountStep (env : Env) (opts : ProvisioningRequest) :
    KeepsIntent (accountStep env opts) := by
  intro w m is
  obtain ⟨_, _, is', _⟩ := accountStep_spec env opts is
  exact ⟨_, is', rfl⟩

theorem keepsIntent_foldl {steps : List (World → World)} (h : ∀ step ∈ steps, KeepsIntent step) :
    KeepsIntent fun w => steps.foldl (fun w step => step w) w := by
  induction steps with
  | nil => exact fun w m is => ⟨m, is, rfl⟩
  | cons step steps ih =>
      exact (ih fun step member => h step (List.mem_cons_of_mem _ member)).comp
        (h step List.mem_cons_self)

theorem keepsIntent_launch (env : Env) (mode : LaunchMode) (pending : Option ProvisioningRequest) :
    KeepsIntent (launch env mode pending) := by
  intro w m is
  have spawned : (w.update (·.launched env.pid mode env.accel env.now)).record = some _ :=
    World.record_update is _
  have ready := World.record_update (w := { w.update (·.launched env.pid mode env.accel env.now) with
    qemu := some env.pid }) spawned (·.booted env.accel env.bootMs)
  unfold launch
  dsimp only
  split
  · exact ⟨_, World.record_update is _, rfl⟩
  · split
    · exact ⟨_, spawned, rfl⟩
    · split
      · rename_i opts _
        split
        · obtain ⟨m', is', after⟩ := provisionInstance_spec env opts ready
          obtain ⟨all, mode, _, secure⟩ := after.intent
          refine ⟨m', is', ?_⟩
          rw [intent, all, mode, secure]
          rfl
        · exact ⟨_, ready, rfl⟩
      · exact ⟨_, ready, rfl⟩

theorem keepsIntent_failedLaunch {env : Env} {mode : LaunchMode}
    {pending : Option ProvisioningRequest} {ran : ℕ} {preserve : Bool} {w : World}
    {m : MachineState} (is : w.record = some m) :
    ∃ m', (failedLaunch env mode pending ran preserve m w).record = some m' ∧
      intent m' = intent m := by
  unfold failedLaunch
  split
  · exact ⟨_, rfl, rfl⟩
  · have spawned := KeepsIntent.update (f := (·.launched env.pid mode env.accel env.now))
      (fun _ => rfl)
    have stopped := KeepsIntent.update (f := (·.stopped)) fun _ => rfl
    cases pending with
    | none => exact (stopped.comp spawned) w m is
    | some opts =>
        have partly : KeepsIntent fun w => ([packagesStep env opts, deviceModeStep env opts,
            licenseStep env opts, accountStep env opts].take ran).foldl (fun w step => step w) w := by
          refine keepsIntent_foldl fun step member => ?_
          have member := List.mem_of_mem_take member
          simp only [List.mem_cons, List.not_mem_nil, or_false] at member
          rcases member with rfl | rfl | rfl | rfl
          · exact keepsIntent_packagesStep env opts
          · exact keepsIntent_deviceModeStep env opts
          · exact keepsIntent_licenseStep env opts
          · exact keepsIntent_accountStep env opts
        exact (stopped.comp (partly.comp spawned)) w m is

/-- The disk has what `q` asked for, as far as the environment had it. -/
structure Fitted (env : Env) (q : ProvisioningRequest) (d : Disk) : Prop where
  all : q.installAllPackages = some true → d.allPackages = true
  packages : ∀ pkg ∈ env.available,
    q.installAllPackages = some true ∨ pkg ∈ q.packages.getD [] → pkg ∈ d.packages
  deviceMode : ∀ e ∈ deviceModeSelection q.deviceMode, d.deviceMode.get e.1 = some e.2
  license : q.license.isSome = true → d.license = some env.licenseLevel
  user : q.user.isSome = true → d.user = q.user
  disableAdmin : q.disableAdmin = some true → d.adminDisabled = true
  secureLogin : q.secureLogin = some true → q.user = none → d.managedLogin = true

theorem mem_someNames {pkg : String} {packages : List String} :
    pkg ∈ (someNames (some packages)).getD [] ↔ pkg ∈ packages := by
  cases packages <;> simp [someNames, Option.filter]

theorem packages_fitted (env : Env) (opts : ProvisioningRequest) (w : World) :
    (opts.installAllPackages = some true → (packagesStep env opts w).disk.allPackages = true) ∧
      ∀ pkg ∈ env.available, opts.installAllPackages = some true ∨ pkg ∈ opts.packages.getD [] →
        pkg ∈ (packagesStep env opts w).disk.packages := by
  unfold packagesStep
  by_cases all : opts.installAllPackages = some true
  · simp only [all, if_true]
    exact ⟨fun _ => Bool.or_true _, fun pkg known _ => List.mem_append_right _ known⟩
  · simp only [all, if_false]
    refine ⟨fun asked => absurd asked id, fun pkg known named => ?_⟩
    have named : pkg ∈ opts.packages.getD [] := named.resolve_left id
    cases given : opts.packages with
    | none =>
        rw [given] at named
        cases named
    | some packages =>
        rw [given] at named
        have some_ : someNames (some packages) = some packages :=
          Option.filter_eq_some_iff.mpr ⟨rfl, decide_eq_true (List.ne_nil_of_mem named)⟩
        rw [some_]
        exact List.mem_append_right _ (List.mem_filter.mpr ⟨named, decide_eq_true known⟩)

theorem deviceMode_fitted (env : Env) (opts : ProvisioningRequest) (w : World) :
    ∀ e ∈ deviceModeSelection opts.deviceMode, (deviceModeStep env opts w).disk.deviceMode.get e.1 = some e.2 := by
  intro e member
  unfold deviceModeSelection at member
  dsimp only at member
  split at member
  · rename_i apply
    have got : (payload (resolveDeviceModeOptions opts.deviceMode)).get e.1 = some e.2 :=
      Record.get_of_mem (nodup_payload _) member
    unfold deviceModeStep
    dsimp only
    rw [if_pos apply]
    show (w.disk.deviceMode.assign (payload (resolveDeviceModeOptions opts.deviceMode))).get e.1 = _
    rw [get_assign_payload, got, Option.some_or]
  · cases member

theorem deviceModeStep_disk (env : Env) (opts : ProvisioningRequest) (w : World) :
    (deviceModeStep env opts w).disk.packages = w.disk.packages ∧
      (deviceModeStep env opts w).disk.allPackages = w.disk.allPackages := by
  unfold deviceModeStep
  dsimp only
  split <;> exact ⟨rfl, rfl⟩

theorem licenseStep_disk (env : Env) (opts : ProvisioningRequest) (w : World) :
    (licenseStep env opts w).disk =
      { w.disk with license := if opts.license.isSome then some env.licenseLevel else w.disk.license } := by
  unfold licenseStep
  cases opts.license <;> rfl

theorem accountStep_user (env : Env) {opts : ProvisioningRequest} (given : opts.user.isSome = true) (w : World) :
    (accountStep env opts w).disk.user = opts.user := by
  obtain ⟨login, is⟩ := Option.isSome_iff_exists.mp given
  simp [accountStep, provision, is, World.update]

theorem provisionInstance_fitted (env : Env) (opts : ProvisioningRequest) (w : World) :
    Fitted env opts (provisionInstance env opts w).disk := by
  obtain ⟨all, packages⟩ := packages_fitted env opts w
  have mode := deviceMode_fitted env opts (packagesStep env opts w)
  obtain ⟨packages', all'⟩ := deviceModeStep_disk env opts (packagesStep env opts w)
  have license := licenseStep_disk env opts (deviceModeStep env opts (packagesStep env opts w))
  let licensed := licenseStep env opts (deviceModeStep env opts (packagesStep env opts w))
  have done := AccountsDone.accountStep env opts licensed
  obtain ⟨samePackages, sameAll, sameMode, sameLicense⟩ := done.disk
  refine ⟨fun asked => ?_, fun pkg known named => ?_, fun e member => ?_, fun given => ?_,
    fun given => accountStep_user env given licensed, done.disableAdmin, done.secureLogin⟩
  · exact (sameAll.trans ((congrArg Disk.allPackages license).trans all')).trans (all asked)
  · have same := samePackages.trans ((congrArg Disk.packages license).trans packages')
    exact same ▸ packages pkg known named
  · have same := sameMode.trans (congrArg Disk.deviceMode license)
    exact (congrArg (Record.get · e.1) same).trans (mode e member)
  · exact (sameLicense.trans (congrArg Disk.license license)).trans (if_pos given)

/-- What the first boot was given and the environment had is on the disk. -/
theorem Given.applied {env : Env} {q R : ProvisioningRequest} {d : Disk} (h : Given env q R)
    (fitted : Fitted env q d) (stored : Option Login) (m : MachineState) :
    ∀ ask ∈ classifyProvisioningRequest stored m R, d.Applied R ask.step := by
  refine (forall_classify stored m R fun step _ => d.Applied R step).mpr ⟨fun asked => ?_,
    fun others named given => ?_, fun asked => ?_, fun license given => ?_, fun user given => ?_,
    fun asked => fitted.disableAdmin (h.disableAdmin asked), fun asked => ?_⟩
  · exact (if_pos asked).mpr (fitted.all (h.all asked))
  · refine (if_neg others).mpr fun pkg member => ?_
    refine fitted.packages pkg (h.asAsked.packages others pkg member) ((h.packages others).imp id fun all => ?_)
    exact all pkg member
  · obtain ⟨o, given⟩ := deviceMode_given (shouldApply_of_selection asked)
    have same := h.deviceMode (by rw [given]; rfl)
    intro e member
    rw [← same] at member
    exact fitted.deviceMode e member
  · have level := h.asAsked.license license given
    show d.license = R.license.map licenseLevelOf
    rw [fitted.license (h.license (by rw [given]; rfl)), level, given, Option.map_some]
  · have same := h.user (by rw [given]; rfl)
    show d.user = R.user
    rw [fitted.user (by rw [same, given]; rfl), same]
  · obtain ⟨secure, none⟩ := h.secureLogin asked
    exact fitted.secureLogin secure none

/-- The fields that answer whether an option is applied. -/
def answers (m : MachineState) :=
  (isProvisioningWindowOpen m, m.provisioning, m.packages, m.installAllPackages, m.deviceMode,
    m.licenseLevel, m.user, m.disableAdmin, m.secureLogin)

theorem classify_of_answers {m m' : MachineState} (same : answers m' = answers m) (stored : Option Login)
    (request : ProvisioningRequest) :
    classifyProvisioningRequest stored m' request = classifyProvisioningRequest stored m request := by
  simp only [answers, Prod.mk.injEq] at same
  obtain ⟨-, ran, packages, all, mode, license, user, disable, secure⟩ := same
  simp only [classifyProvisioningRequest, appliedSteps, userCredentialMatches, ran, packages, all, mode, license,
    user, disable, secure]
  rfl

theorem closed_of_answers {m m' : MachineState} (same : answers m' = answers m) :
    isProvisioningWindowOpen m' = isProvisioningWindowOpen m :=
  (Prod.mk.inj same).1

/-- What holds of the machine past its first boot stays: the answers and the disk. -/
def Stays (w w' : World) : Prop :=
  ∀ m, w.record = some m → isProvisioningWindowOpen m = false →
    ∃ m', w'.record = some m' ∧ answers m' = answers m ∧ w'.stored = w.stored ∧ w'.disk = w.disk

theorem Stays.refl (w : World) : Stays w w := fun m is _ => ⟨m, is, rfl, rfl, rfl⟩

theorem Stays.update (w : World) (qemu : Option Pid) {f : MachineState → MachineState}
    (same : ∀ m, isProvisioningWindowOpen m = false → answers (f m) = answers m) :
    Stays w { w.update f with qemu := qemu } :=
  fun m is closed => ⟨f m, World.record_update is f, same m closed, rfl, rfl⟩

theorem Stays.trans {w w' w'' : World} (h : Stays w w') (h' : Stays w' w'') : Stays w w'' := by
  intro m is closed
  obtain ⟨m', is', same, stored, disk⟩ := h m is closed
  obtain ⟨m'', is'', same', stored', disk'⟩ := h' m' is' ((closed_of_answers same).trans closed)
  exact ⟨m'', is'', same'.trans same, stored'.trans stored, disk'.trans disk⟩

theorem answers_launched {m : MachineState} (closed : isProvisioningWindowOpen m = false) (pid : Pid)
    (mode : LaunchMode) (accel : String) (now : Timestamp) :
    answers (m.launched pid mode accel now) = answers m := by
  simp only [answers, closed]
  simp [MachineState.launched, isProvisioningWindowOpen]

theorem stays_launch (env : Env) (mode : LaunchMode) (w : World) : Stays w (launch env mode none w) := by
  have spawned : Stays w { w.update (·.launched env.pid mode env.accel env.now) with qemu := some env.pid } :=
    .update w _ fun m closed => answers_launched closed _ _ _ _
  unfold launch
  dsimp only
  split
  · refine .update w _ fun m closed => ?_
    simp only [answers, closed]
    simp [MachineState.foregroundExited, isProvisioningWindowOpen]
  · split
    · exact spawned
    · exact spawned.trans (.update _ (some env.pid) fun _ _ => rfl)

theorem stays_failedLaunch (env : Env) (mode : LaunchMode) {pending : Option ProvisioningRequest} (ran : ℕ)
    (preserve : Bool) {w : World} {m : MachineState} (is : w.record = some m) :
    Stays w (failedLaunch env mode (if isProvisioningWindowOpen m then pending else none) ran preserve m w) := by
  intro m' is' closed
  cases is.symm.trans is'
  have spawned : Stays w (w.update (·.launched env.pid mode env.accel env.now)) :=
    .update w w.qemu fun m closed => answers_launched closed _ _ _ _
  have stopped := spawned.trans (.update _ none (f := (·.stopped)) fun _ _ => rfl)
  rw [failedLaunch, closed]
  exact stopped m is closed

/-- The snapshot still has the intents of the machine. -/
def SameIntent (w : World) (snapshot : MachineState) : Prop :=
  ∀ m, w.record = some m → intent snapshot = intent m

/-- The request a start carries to the lock is the one worked out from its snapshot. -/
structure Worked (snapshot : MachineState) (mode : LaunchMode) (request opts : ProvisioningRequest) :
    Prop where
  is : opts = pendingProvisioningFor snapshot request
  wanted : wantsProvisioning opts = true
  waits : mode = .background ∨ mode = .foreground

/-- The window was closed when the record was read, and the machine is still the one that was read. -/
def Unmoved (w : World) (snapshot : MachineState) : Prop :=
  isProvisioningWindowOpen snapshot = false → ∀ m, w.record = some m → answers m = answers snapshot

/-- The window was closed when the start was decided, so the request is applied to the machine. -/
def Settled (w : World) (snapshot : MachineState) (request : ProvisioningRequest) : Prop :=
  isProvisioningWindowOpen snapshot = false → ∀ m, w.record = some m → isProvisioningWindowOpen m = false ∧
    ∀ ask ∈ classifyProvisioningRequest w.stored m request, ask.satisfied = true

def Phase.Fine (w : World) (now : ℕ) : Phase → Prop
  | .idle => True
  | .read snapshot cleans _ _ =>
      SameIntent w snapshot ∧ cleans ≤ now ∧ (cleans = now → Unmoved w snapshot)
  | .waiting snapshot cleans mode request pending =>
      SameIntent w snapshot ∧ cleans ≤ now ∧ (cleans = now → Settled w snapshot request) ∧
        (∀ opts, pending = some opts → Worked snapshot mode request opts) ∧
        (pending = none → isProvisioningWindowOpen snapshot = true → hasProvisioningRequest request = false)

structure Inv (s : State) : Prop where
  present : s.world.record.isSome = true
  phases : ∀ p, (s.procs p).Fine s.world s.cleans
  fitted : ∀ b ∈ s.booted, Fitted b.1 b.2 s.world.disk

/-- A record with the intents of the one before. -/
def Follows (w w' : World) : Prop :=
  ∀ m, w.record = some m → ∃ m', w'.record = some m' ∧ intent m' = intent m

section Follows

variable {w w' : World} {snapshot : MachineState} (present : w.record.isSome = true)
include present

theorem SameIntent.follows (h : SameIntent w snapshot) (follows : Follows w w') : SameIntent w' snapshot := by
  obtain ⟨m, is⟩ := Option.isSome_iff_exists.mp present
  obtain ⟨m', is', same⟩ := follows m is
  intro m'' is''
  cases is'.symm.trans is''
  rw [h m is, same]

theorem Unmoved.stays (h : Unmoved w snapshot) (stays : Stays w w') : Unmoved w' snapshot := by
  intro closed m' is'
  obtain ⟨m, is⟩ := Option.isSome_iff_exists.mp present
  obtain ⟨m'', is'', same, -⟩ := stays m is ((closed_of_answers (h closed m is)).trans closed)
  cases is'.symm.trans is''
  exact same.trans (h closed m is)

theorem Settled.stays {request : ProvisioningRequest} (h : Settled w snapshot request) (stays : Stays w w') :
    Settled w' snapshot request := by
  intro closed m' is'
  obtain ⟨m, is⟩ := Option.isSome_iff_exists.mp present
  obtain ⟨shut, satisfied⟩ := h closed m is
  obtain ⟨m'', is'', same, stored, -⟩ := stays m is shut
  cases is'.symm.trans is''
  rw [stored, classify_of_answers same]
  exact ⟨(closed_of_answers same).trans shut, satisfied⟩

/-- A step of another process keeps what is known, unless it is a clean, which is counted. -/
theorem Phase.Fine.follows {phase : Phase} {now now' : ℕ} (h : phase.Fine w now) (follows : Follows w w')
    (stays : now' = now ∧ Stays w w' ∨ now < now') : phase.Fine w' now' := by
  have later {cleans : ℕ} {P P' : Prop} (le : cleans ≤ now) (known : cleans = now → P)
      (keeps : Stays w w' → P → P') : cleans ≤ now' ∧ (cleans = now' → P') := by
    rcases stays with ⟨rfl, stays⟩ | more
    · exact ⟨le, fun same => keeps stays (known same)⟩
    · exact ⟨by omega, fun same => by omega⟩
  cases phase with
  | idle => trivial
  | read =>
      obtain ⟨same, le, unmoved⟩ := h
      exact ⟨same.follows present follows, later le unmoved fun stays h => h.stays present stays⟩
  | waiting =>
      obtain ⟨same, le, settled, worked, nothing⟩ := h
      obtain ⟨le, settled⟩ := later le settled fun stays h => h.stays present stays
      exact ⟨same.follows present follows, le, settled, worked, nothing⟩

end Follows

/-- Every step leaves a record with the same intents and moves at most one start. -/
theorem Inv.step {s s' : State} (h : Inv s) (follows : Follows s.world s'.world)
    (stays : s'.cleans = s.cleans ∧ Stays s.world s'.world ∨ s.cleans < s'.cleans)
    (moves : ∀ p, s'.procs p = s.procs p ∨ (s'.procs p).Fine s'.world s'.cleans)
    (fitted : ∀ b ∈ s'.booted, Fitted b.1 b.2 s'.world.disk) : Inv s' := by
  obtain ⟨m, is⟩ := Option.isSome_iff_exists.mp h.present
  obtain ⟨m', is', _⟩ := follows m is
  refine ⟨Option.isSome_iff_exists.mpr ⟨m', is'⟩, fun p => ?_, fitted⟩
  rcases moves p with same | fine
  · rw [same]
    exact (h.phases p).follows h.present follows stays
  · exact fine

theorem update_fine {procs : ℕ → Phase} {p : ℕ} {phase : Phase} {w : World} {now : ℕ} (fine : phase.Fine w now)
    (q : ℕ) : Function.update procs p phase q = procs q ∨ (Function.update procs p phase q).Fine w now := by
  by_cases eq : q = p
  · subst eq; rw [Function.update_self]; exact .inr fine
  · rw [Function.update_of_ne eq]; exact .inl rfl

theorem Inv.move {s : State} (h : Inv s) {p : ℕ} {phase : Phase} (fine : phase.Fine s.world s.cleans) :
    Inv (s.move p phase) :=
  h.step (fun m is => ⟨m, is, rfl⟩) (.inl ⟨rfl, .refl _⟩) (update_fine fine) h.fitted

theorem follows_launchExisting {env : Env} {mode : LaunchMode} {snapshot : MachineState}
    {pending : Option ProvisioningRequest} {w w' : World}
    (h : launchExisting env mode snapshot pending w = .ok w') : Follows w w' := by
  intro m is
  obtain ⟨m', is', -, run⟩ := launchExisting_cases h
  cases is.symm.trans is'
  rcases run with ⟨_, rfl⟩ | ⟨_, ⟨_, rfl⟩ | ⟨_, rfl, _⟩⟩
  · exact ⟨m, is, rfl⟩
  · exact keepsIntent_launch env mode pending w m is
  · exact keepsIntent_launch env mode none w m is

/-- A machine that is running or past its first boot stays as it is over a launch. -/
theorem stays_launchExisting {env : Env} {mode : LaunchMode} {snapshot m : MachineState}
    {pending : Option ProvisioningRequest} {w w' : World} (is : w.record = some m)
    (h : launchExisting env mode snapshot pending w = .ok w') : Stays w w' := by
  obtain ⟨m', is', -, run⟩ := launchExisting_cases h
  cases is.symm.trans is'
  rcases run with ⟨_, rfl⟩ | ⟨_, ⟨opened, rfl⟩ | ⟨_, rfl, _⟩⟩
  · exact .refl _
  · intro m' is' closed
    cases is.symm.trans is'
    rw [opened] at closed
    cases closed
  · exact stays_launch env mode w

theorem launch_disk (env : Env) (mode : LaunchMode) (w : World) : (launch env mode none w).disk = w.disk := by
  unfold launch
  dsimp only
  split
  · rfl
  · split <;> rfl

theorem fitted_launchExisting {s : State} (inv : Inv s) {env : Env} {mode : LaunchMode}
    {snapshot m : MachineState} {cleans : ℕ} {request : ProvisioningRequest}
    {pending : Option ProvisioningRequest} {w : World} (is : s.world.record = some m)
    (fine : (Phase.waiting snapshot cleans mode request pending).Fine s.world s.cleans)
    (h : launchExisting env mode snapshot pending s.world = .ok w) :
    ∀ b ∈ if firstBoot s.world m then pending.map fun opts => (env, opts) else s.booted,
      Fitted b.1 b.2 w.disk := by
  obtain ⟨m', is', -, run⟩ := launchExisting_cases h
  cases is.symm.trans is'
  rcases run with ⟨running, rfl⟩ | ⟨stopped, ⟨opened, rfl⟩ | ⟨closed, rfl, -⟩⟩
  · rw [firstBoot, running]
    exact inv.fitted
  · rw [firstBoot, stopped, opened]
    intro b member
    obtain ⟨opts, carried, rfl⟩ := Option.map_eq_some_iff.mp (Option.mem_def.mp member)
    have worked := fine.2.2.2.1 opts carried
    rw [carried, launch_provisions worked.wanted worked.waits]
    exact provisionInstance_fitted env opts _
  · rw [firstBoot, closed, launch_disk, Bool.and_false]
    exact inv.fitted

theorem satisfied_of_assert {stored : Option Login} {m : MachineState} {opts : ProvisioningRequest}
    (closed : isProvisioningWindowOpen m = false) {asks : List ProvisioningAsk}
    (h : assertProvisioningWindow stored m opts = .ok asks) :
    ∀ ask ∈ classifyProvisioningRequest stored m opts, ask.satisfied = true := by
  simp only [assertProvisioningWindow, closed] at h
  by_cases all : (classifyProvisioningRequest stored m opts).all (·.satisfied) = true
  · exact List.all_eq_true.mp all
  · simp only [all] at h
    cases h

theorem Unmoved.settled {w : World} {snapshot : MachineState} {request : ProvisioningRequest}
    (h : Unmoved w snapshot) {asks : List ProvisioningAsk}
    (allowed : assertProvisioningWindow w.stored snapshot request = .ok asks) : Settled w snapshot request := by
  intro closed m is
  have answered := h closed m is
  rw [classify_of_answers answered]
  exact ⟨(closed_of_answers answered).trans closed, satisfied_of_assert closed allowed⟩

theorem nothing_asked {stored : Option Login} {m : MachineState} {request : ProvisioningRequest}
    (h : hasProvisioningRequest request = false) :
    classifyProvisioningRequest stored m request = [] := by
  simp only [hasProvisioningRequest, Bool.or_eq_false_iff, decide_eq_false_iff_not] at h
  obtain ⟨⟨⟨⟨⟨⟨all, packages⟩, mode⟩, license⟩, user⟩, disable⟩, secure⟩ := h
  refine List.eq_nil_iff_forall_not_mem.mpr ?_
  refine (forall_classify stored m request fun _ _ => False).mpr
    ⟨all, fun _ named given => ?_, fun asked => ?_, fun _ given => ?_, fun _ given => ?_, disable,
      secure⟩
  · rw [given] at packages; cases packages
  · rw [shouldApply_of_selection asked] at mode; cases mode
  · rw [given] at license; cases license
  · rw [given] at user; cases user

/-- When the request and the intents ask for nothing, neither does the request. -/
theorem nothing_requested {m : MachineState} {request : ProvisioningRequest}
    (h : hasProvisioningRequest (withIntents m request) = false) : hasProvisioningRequest request = false := by
  simp only [hasProvisioningRequest, withIntents, Bool.or_eq_false_iff] at h ⊢
  obtain ⟨⟨⟨⟨⟨⟨all, packages⟩, mode⟩, license⟩, user⟩, disable⟩, secure⟩ := h
  refine ⟨⟨⟨⟨⟨⟨decide_eq_false fun asked => of_decide_eq_false all ?_, ?_⟩, ?_⟩, license⟩, user⟩, disable⟩,
    decide_eq_false fun asked => of_decide_eq_false secure ?_⟩
  · rw [pendingProvisioningFor, asked, Option.some_or]
  · cases given : someNames request.packages with
    | none => rfl
    | some named =>
        rw [someNames_pending given] at packages
        cases packages
  · cases given : request.deviceMode with
    | none => rfl
    | some options =>
        rw [pendingProvisioningFor, given, Option.some_or] at mode
        exact mode
  · rw [pendingProvisioningFor, asked, Option.some_or]

/-- A start that carries no options: neither it nor the intents ask for anything. -/
theorem nothing_wanted {m : MachineState} {request : ProvisioningRequest}
    (h : wantsProvisioning (pendingProvisioningFor m request) = false) :
    hasProvisioningRequest (withIntents m request) = false := by
  simp only [wantsProvisioning, Bool.or_eq_false_iff] at h
  obtain ⟨⟨⟨⟨⟨⟨all, packages⟩, mode⟩, user⟩, disable⟩, license⟩, secure⟩ := h
  simp only [hasProvisioningRequest, withIntents, Bool.or_eq_false_iff]
  refine ⟨⟨⟨⟨⟨⟨all, packages⟩, ?_⟩, license⟩, ?_⟩,
    decide_eq_false fun asked => of_decide_eq_false disable ?_⟩, secure⟩
  · rw [Option.isSome_eq_false_iff, Option.isNone_iff_eq_none] at mode
    rw [mode]
    rfl
  · cases given : request.user with
    | none => rfl
    | some login =>
        rw [pendingProvisioningFor, given, Option.some_or] at user
        cases user
  · rw [pendingProvisioningFor, asked, Option.some_or]

theorem Inv.launches {s : State} (h : Inv s) {p : ℕ} {w : World} {requests : List ProvisioningRequest}
    {booted : Option (Env × ProvisioningRequest)} (follows : Follows s.world w) (stays : Stays s.world w)
    (fitted : ∀ b ∈ booted, Fitted b.1 b.2 w.disk) : Inv { s.returns p w requests with booted := booted } :=
  h.step follows (.inl ⟨rfl, stays⟩) (update_fine trivial) fitted

theorem Inv.fails {s : State} (h : Inv s) {p : ℕ} {env : Env} {mode : LaunchMode}
    {pending : Option ProvisioningRequest} {ran : ℕ} {preserve : Bool} {m : MachineState}
    (is : s.world.record = some m) : Inv { s.move p .idle with
      world := failedLaunch env mode (if isProvisioningWindowOpen m then pending else none) ran preserve m s.world
      booted := if isProvisioningWindowOpen m then none else s.booted } := by
  refine h.step (fun m' is' => ?_) (.inl ⟨rfl, stays_failedLaunch env mode ran preserve is⟩)
    (update_fine trivial) ?_
  · cases is.symm.trans is'
    exact keepsIntent_failedLaunch is
  · cases closed : isProvisioningWindowOpen m with
    | true => exact fun b member => by cases member
    | false =>
        rw [if_neg Bool.false_ne_true, failedLaunch, closed]
        exact h.fitted

theorem Inv.next {s s' : State} {e : Event} (h : Inv s) (step : next s e = some s') : Inv s' := by
  have stay : Follows s.world s.world := fun m is => ⟨m, is, rfl⟩
  cases e with
  | call p mode request =>
      simp only [ConcurrentStart.next] at step
      split at step
      · obtain ⟨m, is, rfl⟩ := Option.map_eq_some_iff.mp step
        refine h.move ⟨fun m' is' => ?_, le_rfl, fun _ _ m' is' => ?_⟩ <;> cases is.symm.trans is' <;> rfl
      · cases step
  | decide p =>
      simp only [ConcurrentStart.next] at step
      split at step
      · rename_i snapshot cleans mode request at_
        have fine := h.phases p
        rw [at_] at fine
        obtain ⟨same, le, unmoved⟩ := fine
        split at step
        · cases step; exact h.move trivial
        · cases step
          exact h.step stay (.inl ⟨rfl, .refl _⟩) (update_fine trivial) h.fitted
        · rename_i pending decided
          cases step
          obtain ⟨⟨asks, allowed⟩, decision⟩ := decideStart_cases decided
          refine h.move ⟨same, le, fun current => (unmoved current).settled allowed, ?_⟩
          · rcases decision with ⟨_, eq⟩ | ⟨_, _, wanted, waits, eq⟩ | ⟨_, nothing, eq⟩
            · cases eq
            · cases eq
              exact ⟨fun opts is => by cases is; exact ⟨rfl, wanted, waits⟩, fun is => (by cases is)⟩
            · cases eq
              exact ⟨fun opts is => (by cases is), fun _ opened => nothing_requested (nothing_wanted (nothing opened))⟩
      · cases step
  | launch p env =>
      simp only [ConcurrentStart.next] at step
      split at step
      · rename_i snapshot cleans mode request pending at_
        obtain ⟨m, is, rfl⟩ := Option.map_eq_some_iff.mp step
        have fine := h.phases p
        rw [at_] at fine
        split
        · exact h.move trivial
        · rename_i w launched
          exact h.launches (follows_launchExisting launched) (stays_launchExisting is launched)
            (fitted_launchExisting h is fine launched)
      · cases step
  | throws p => cases step; exact h.move trivial
  | fails p env ran preserve =>
      simp only [ConcurrentStart.next] at step
      split at step
      · obtain ⟨m, is, run⟩ := Option.bind_eq_some_iff.mp step
        split at run
        · cases run
        · cases run
          exact h.fails is
      · cases step
  | stop =>
      cases step
      exact h.step (fun m is => ⟨m.stopped, World.record_update is _, rfl⟩)
        (.inl ⟨rfl, .update _ none fun _ _ => rfl⟩) (fun p => .inl rfl) h.fitted
  | clean now =>
      cases step
      refine h.step (fun m is => ⟨m.cleaned now, ?_, rfl⟩) (.inr (Nat.lt_succ_self _)) (fun p => .inl rfl)
        fun b member => by cases member
      show s.world.record.map _ = _
      rw [is]
      rfl
  | exit =>
      cases step
      exact h.step stay (.inl ⟨rfl, fun m is _ => ⟨m, is, rfl, rfl, rfl⟩⟩) (fun p => .inl rfl) h.fitted

theorem Inv.reachable {G : State → Event → Prop} {s : State} (h : system.ReachableUnder G s) :
    Inv s := by
  refine h.invariant (fun s start => ?_) fun _ _ _ _ inv _ step => inv.next step
  obtain ⟨present, idle, fresh, _⟩ := start
  exact ⟨present, fun p => by rw [idle]; trivial, fun b member => by rw [fresh] at member; cases member⟩

theorem Settled.honoured {w w' : World} {snapshot m : MachineState} {request : ProvisioningRequest}
    (h : Settled w snapshot request) (closed : isProvisioningWindowOpen snapshot = false)
    (is : w.record = some m) (disk : w'.disk = w.disk) : Honoured ⟨w, [request]⟩ w' := by
  intro R member
  rw [List.mem_singleton.mp member]
  exact ⟨m, is, fun ask asked => .inl ⟨(h closed m is).2 ask asked, disk⟩⟩

theorem Inv.honoured {s : State} (inv : Inv s) {request : ProvisioningRequest} (gave : s.Gave request) {m : MachineState}
    {w : World} (is : s.world.record = some m) (disk : w.disk = s.world.disk) : Honoured ⟨s.world, [request]⟩ w := by
  obtain ⟨b, booted, given⟩ := gave
  intro R member
  rw [List.mem_singleton.mp member]
  exact ⟨m, is, fun ask asked => .inr (disk ▸ given.applied (inv.fitted b booted) _ m ask asked)⟩

theorem honoured_nothing {w w' : World} {m : MachineState} {requests : List ProvisioningRequest}
    (is : w.record = some m) (h : ∀ R ∈ requests, hasProvisioningRequest R = false) :
    Honoured ⟨w, requests⟩ w' := by
  refine fun R member => ⟨m, is, fun ask asked => ?_⟩
  rw [nothing_asked (h R member)] at asked
  cases asked

/-- When everything a start carries to the lock is recorded as applied, so is what it was
asked for, unless install-all hides the packages it names. -/
theorem Worked.recorded {snapshot m : MachineState} {mode : LaunchMode}
    {request opts : ProvisioningRequest} (worked : Worked snapshot mode request opts)
    {stored : Option Login}
    (h : ∀ ask ∈ classifyProvisioningRequest stored m opts, ask.satisfied = true)
    (shown : opts.installAllPackages = some true → request.installAllPackages ≠ some true →
      someNames request.packages = none) :
    ∀ ask ∈ classifyProvisioningRequest stored m request, ask.satisfied = true := by
  rw [all_satisfied_iff] at h
  obtain ⟨all, packages, mode, license, user, disable, secure⟩ := h
  have is := worked.is
  refine (all_satisfied_iff stored m request).mpr ⟨fun asked => ?_, fun others named given => ?_,
      fun asked => ?_, fun _ given => ?_, fun _ given => ?_, fun asked => ?_, fun asked => ?_⟩
  · exact all (by rw [is, pendingProvisioningFor, asked, Option.some_or])
  · have single : opts.installAllPackages ≠ some true := fun installed => by
      rw [shown installed others] at given
      cases given
    refine packages single named ?_
    rw [is]
    exact someNames_pending given
  · obtain ⟨o, given⟩ := deviceMode_given (shouldApply_of_selection asked)
    have same : opts.deviceMode = request.deviceMode := by
      rw [is, pendingProvisioningFor, given, Option.some_or]
    rw [same] at mode
    exact mode asked
  · exact license _ (by rw [is]; exact given)
  · exact user _ (by rw [is, pendingProvisioningFor, given, Option.some_or])
  · exact disable (by rw [is, pendingProvisioningFor, asked, Option.some_or])
  · exact secure (by rw [is, pendingProvisioningFor, asked, Option.some_or])

/-- The options of a first boot carry the request and the intents under the lock. -/
theorem Worked.given {env : Env} {snapshot m : MachineState} {mode : LaunchMode}
    {request opts : ProvisioningRequest} (worked : Worked snapshot mode request opts)
    (same : intent snapshot = intent m) (covers : Covers env snapshot request opts m) :
    Given env opts (withIntents m request) := by
  simp only [intent, Prod.mk.injEq] at same
  obtain ⟨all, deviceMode, secure⟩ := same
  obtain ⟨packages, -, asAsked, single⟩ := covers
  have is := worked.is
  have allSame : opts.installAllPackages = (withIntents m request).installAllPackages := by
    rw [is, withIntents, pendingProvisioningFor, pendingProvisioningFor, all]
  refine ⟨asAsked, fun asked => allSame.trans asked, fun others => .inr fun pkg member => ?_, fun _ => ?_,
    fun given => ?_, fun given => ?_, fun asked => ?_, fun asked => ⟨?_, single asked⟩⟩
  · rw [is]
    cases given : someNames request.packages with
    | some named =>
        rw [withIntents, pendingProvisioningFor, given, Option.some_or] at member
        rw [pendingProvisioningFor, given, Option.some_or]
        exact member
    | none =>
        rw [withIntents, pendingProvisioningFor, given, Option.none_or] at member
        rw [given] at packages
        have known : pkg ∈ snapshot.packages :=
          (packages.resolve_left others).resolve_left Bool.false_ne_true pkg (mem_someNames.mp member)
        rw [pendingProvisioningFor, given, Option.none_or]
        exact mem_someNames.mpr known
  · rw [is, withIntents, pendingProvisioningFor, pendingProvisioningFor, deviceMode]
  · rw [is]
    exact given
  · obtain ⟨login, given⟩ := Option.isSome_iff_exists.mp given
    have given : request.user = some login := given
    rw [is, withIntents, pendingProvisioningFor, given, Option.some_or]
  · have asked : request.disableAdmin = some true := asked
    rw [is, pendingProvisioningFor, asked, Option.some_or]
  · rw [is, pendingProvisioningFor, secure]
    exact asked

theorem Given.request {env : Env} {m : MachineState} {request opts : ProvisioningRequest}
    (h : Given env opts (withIntents m request)) (asAsked : AsAsked env request) : Given env opts request := by
  refine ⟨asAsked, fun asked => h.all ?_, fun others => ?_, fun given => ?_, h.license, h.user, h.disableAdmin,
    fun asked => h.secureLogin ?_⟩
  · rw [withIntents, pendingProvisioningFor, asked, Option.some_or]
  · by_cases all : (withIntents m request).installAllPackages = some true
    · exact .inl (h.all all)
    · refine (h.packages all).imp id fun named pkg member => named pkg ?_
      cases given : request.packages with
      | none =>
          rw [given] at member
          cases member
      | some packages =>
          rw [given] at member
          have some_ : someNames request.packages = some packages := by
            rw [given]
            exact Option.filter_eq_some_iff.mpr ⟨rfl, decide_eq_true (List.ne_nil_of_mem member)⟩
          rw [withIntents, pendingProvisioningFor, some_, Option.some_or]
          exact member
  · obtain ⟨options, given⟩ := Option.isSome_iff_exists.mp given
    have same : (withIntents m request).deviceMode = request.deviceMode := by
      rw [withIntents, pendingProvisioningFor, given, Option.some_or]
    exact (h.deviceMode (by rw [same, given]; rfl)).trans same
  · rw [withIntents, pendingProvisioningFor, asked, Option.some_or]

theorem honoured_launch {s : State} (inv : Inv s) {env : Env} {mode : LaunchMode} {snapshot m : MachineState}
    {cleans : ℕ} {request : ProvisioningRequest} {pending : Option ProvisioningRequest} {w : World}
    (is : s.world.record = some m)
    (fine : (Phase.waiting snapshot cleans mode request pending).Fine s.world s.cleans)
    (rechecks : launchRechecked s env snapshot cleans request pending m = true)
    (h : launchExisting env mode snapshot pending s.world = .ok w) :
    Honoured ⟨s.world, demanded s.world m request⟩ w := by
  obtain ⟨m', is', -, run⟩ := launchExisting_cases h
  cases is.symm.trans is'
  obtain ⟨intents, -, settled, worked, nothing⟩ := fine
  have answered {w : World} (disk : w.disk = s.world.disk) (known : s.Answered snapshot cleans request) :
      Honoured ⟨s.world, [request]⟩ w :=
    known.elim (fun ⟨closed, same⟩ => (settled same).honoured closed is disk) fun gave =>
      inv.honoured gave is disk
  unfold launchRechecked at rechecks
  unfold demanded firstBoot
  rcases run with ⟨running, rfl⟩ | ⟨stopped, ⟨opened, rfl⟩ | ⟨closed, rfl, asserted⟩⟩
  · -- Another start has QEMU running: the code hands it back unchecked.
    rw [running, if_pos rfl, decide_eq_true_eq] at rechecks
    rw [running]
    exact answered rfl rechecks
  · rw [stopped, if_neg Bool.false_ne_true, opened, if_pos rfl] at rechecks
    rw [stopped, opened]
    cases pending with
    | none =>
        -- The window is open and nothing is carried: nothing may be asked for either.
        have bare := Bool.not_eq_true' _ ▸ rechecks
        refine honoured_nothing is fun R member => ?_
        rcases List.mem_pair.mp member with rfl | rfl
        · exact nothing_requested bare
        · exact bare
    | some opts =>
        have worked := worked opts rfl
        have covers : Covers env snapshot request opts m := of_decide_eq_true rechecks
        have given := worked.given (intents m is) covers
        rw [launch_provisions worked.wanted worked.waits]
        have fitted := provisionInstance_fitted env opts
          (World.update { s.world.update (·.launched env.pid mode env.accel env.now) with
            qemu := some env.pid } (·.booted env.accel env.bootMs))
        refine fun R member => ⟨m, is, fun ask asked => .inr ?_⟩
        rcases List.mem_pair.mp member with rfl | rfl
        · exact (given.request covers.2.1).applied fitted _ m ask asked
        · exact given.applied fitted _ m ask asked
  · rw [stopped, if_neg Bool.false_ne_true, closed, if_neg Bool.false_ne_true] at rechecks
    rw [stopped, closed]
    have disk := launch_disk env mode s.world
    cases pending with
    | none =>
        rw [Bool.or_eq_true, decide_eq_true_eq] at rechecks
        rcases rechecks with opened | known
        · refine honoured_nothing is fun R member => ?_
          rw [List.mem_singleton.mp member]
          exact nothing rfl opened
        · exact answered disk known
    | some opts =>
        -- The options it carries are checked against the record under the lock.
        obtain ⟨asks, allowed⟩ := asserted opts rfl
        by_cases gave : s.Gave request
        · exact inv.honoured gave is disk
        · have satisfied := (worked opts rfl).recorded (satisfied_of_assert closed allowed) fun all others => by
            simpa [all, others, gave] using rechecks
          intro R member
          rw [List.mem_singleton.mp member]
          exact ⟨m, is, fun ask asked => .inl ⟨satisfied ask asked, disk⟩⟩

theorem honoured_next {s s' : State} {e : Event} (inv : Inv s) (rechecks : rechecked s e = true)
    (step : next s e = some s') {r : Return} (returned : s'.returned = some r) : Honoured r s'.world := by
  cases e with
  | call p mode request =>
      simp only [next] at step
      split at step
      · obtain ⟨_, _, rfl⟩ := Option.map_eq_some_iff.mp step
        cases returned
      · cases step
  | decide p =>
      simp only [next] at step
      simp only [rechecked] at rechecks
      split at step
      · rename_i snapshot cleans mode request at_
        have fine := inv.phases p
        rw [at_] at fine rechecks
        split at step
        · cases step; cases returned
        · rename_i decided
          cases step
          cases returned
          obtain ⟨m, is⟩ := Option.isSome_iff_exists.mp inv.present
          obtain ⟨⟨asks, allowed⟩, decision⟩ := decideStart_cases decided
          rcases decision with ⟨running, _⟩ | ⟨_, _, _, _, eq⟩ | ⟨_, _, eq⟩
          · simp only [running, Bool.not_true, Bool.false_or, decide_eq_true_eq] at rechecks
            rcases rechecks with ⟨closed, same⟩ | gave
            · exact ((fine.2.2 same).settled allowed).honoured closed is rfl
            · exact inv.honoured gave is rfl
          · cases eq
          · cases eq
        · cases step; cases returned
      · cases step
  | launch p env =>
      simp only [next] at step
      simp only [rechecked] at rechecks
      split at step
      · rename_i snapshot cleans mode request pending at_
        obtain ⟨m, is, rfl⟩ := Option.map_eq_some_iff.mp step
        have fine := inv.phases p
        rw [at_] at fine
        simp only [at_, is, Option.all_some] at rechecks
        split at returned
        · cases returned
        · rename_i w launched
          cases returned
          exact honoured_launch inv is fine rechecks launched
      · cases step
  | throws p => cases step; cases returned
  | fails p env ran preserve =>
      simp only [next] at step
      split at step
      · obtain ⟨_, _, run⟩ := Option.bind_eq_some_iff.mp step
        split at run
        · cases run
        · cases run; cases returned
      · cases step
  | stop => cases step; cases returned
  | clean now => cases step; cases returned
  | exit => cases step; cases returned

def State.init (m : MachineState) : State where
  world := { World.empty with record := some m }
  procs _ := .idle

/-- Two starts have read a machine that has never booted. The one without options boots it;
the other finds QEMU running and returns, its option dropped. -/
def overtaken : List Event :=
  [.call 1 .background {}, .call 2 .background disabling, .decide 1, .decide 2,
    .launch 1 .typical, .launch 2 .typical]

end Quickchr.ConcurrentStart
