import Quickchr.BootWait

/-!
# The reboot that activates packages

Packages are uploaded to a guest that answers, and they count as installed once the reboot was not refused,
the guest was seen to go down and it was seen to come back. The reboot request may be lost, for the guest
may drop the connection as it goes down.
-/
namespace Quickchr.PackageReboot

open BootWait

inductive ActivationErrorCode
  | PROCESS_FAILED | REBOOT_FAILED | BOOT_TIMEOUT
  deriving DecidableEq

structure ActivationError where
  code : ActivationErrorCode
  message : String
  deriving DecidableEq

/-- `Math.round(ms / 1000)` -/
def seconds (ms : ℕ) : ℕ := (ms + 500) / 1000

/-- The probes of one wait: when they are made and what they get. -/
structure Probes (restMs : ℕ) where
  times : Times restMs
  answers : ℕ → Except Caught RestResponse

def Probes.waitForBoot (probes : Probes 2000) (timeoutMs : ℕ) : Bool :=
  (BootWait.waitForBoot probes.times timeoutMs probes.answers newBootProbeStats).1

def assertRestAnswering (httpPort : ℕ) (machineName : String) (probes : Probes 2000) (budgetMs : ℕ) :
    Except ActivationError Unit :=
  if probes.waitForBoot budgetMs then .ok ()
  else .error
    { code := .BOOT_TIMEOUT
      message := s!"Machine \"{machineName}\" is running but its REST API did not answer on port {httpPort} " ++
        s!"within {seconds budgetMs}s, so packages cannot be installed (the activating reboot goes over " ++
        "REST). Check the guest's firewall and IP services." }

/-- Whether the answer to the reboot request lets the installation go on. -/
def accept (machineName : String) : Except Caught RestResponse → Except ActivationError Unit
  | .error _ => .ok ()
  | .ok answer =>
      if answer.status = 401 ∨ answer.status = 403 then .error
        { code := .PROCESS_FAILED
          message := s!"Machine \"{machineName}\" refused the package-install reboot: HTTP {answer.status} — " ++
            "the request was not authorized. The packages were uploaded but were not activated; check the " ++
            "machine's credentials before retrying." }
      else if answer.status < 200 ∨ 300 ≤ answer.status then
        let said := if Text.trim answer.body = "" then "(empty body)" else Text.trim answer.body
        .error
          { code := .REBOOT_FAILED
            message := s!"Machine \"{machineName}\" refused the package-install reboot: HTTP {answer.status} — " ++
              s!"{said}. The packages were uploaded but were not activated; check the guest before retrying." }
      else .ok ()

section Down

variable (probes : Probes 1000) (downBudgetMs : ℕ)

/-- The poll for the guest to go down: two failed probes in a row. -/
def wentDown (i consecutiveFailures : ℕ) : Bool :=
  if probes.times.now i < probes.times.start + downBudgetMs then
    match probes.answers i with
    | .ok _ => wentDown (i + 1) 0
    | .error _ => if 2 ≤ consecutiveFailures + 1 then true else wentDown (i + 1) (consecutiveFailures + 1)
  else false
termination_by probes.times.start + downBudgetMs - probes.times.now i
decreasing_by
  all_goals
    have := probes.times.clock.advances i
    change probes.times.now i < probes.times.now (i + 1) at this
    omega

end Down

/-- What the guest does from the reboot request on. -/
structure Reboot where
  answer : Except Caught RestResponse
  down : Probes 1000
  back : Probes 2000

def rebootForPackageActivation (machineName : String) (bootTimeoutMs downBudgetMs : ℕ) (reboot : Reboot) :
    Except ActivationError Unit :=
  match accept machineName reboot.answer with
  | .error e => .error e
  | .ok () =>
      if !wentDown reboot.down downBudgetMs 0 0 then .error
        { code := .REBOOT_FAILED
          message := s!"Machine \"{machineName}\" did not go down after the package-install reboot was " ++
            s!"accepted — its REST API kept answering for {seconds downBudgetMs}s. The packages were uploaded " ++
            "but may not have activated; check the guest before retrying." }
      else if !reboot.back.waitForBoot bootTimeoutMs then .error
        { code := .BOOT_TIMEOUT
          message := s!"Machine \"{machineName}\" did not come back up within {seconds bootTimeoutMs}s after " ++
            "the package-install reboot. The packages were uploaded; check the guest before retrying." }
      else .ok ()

inductive InstallError
  | activation (error : ActivationError)
  | push (error : Caught)

/-- Upload the files one after another: those that were pushed, and what a push threw. -/
def uploadPackages (push : ℕ → Except Caught Unit) : List String → List String × Except InstallError Unit
  | [] => ([], .ok ())
  | path :: paths =>
      match push 0 with
      | .error e => ([], .error (.push e))
      | .ok () =>
          let (pushed, result) := uploadPackages (fun i => push (i + 1)) paths
          (path :: pushed, result)

/-- What the guest does during an installation. -/
structure Guest where
  before : Probes 2000
  /-- What comes of each upload. -/
  push : ℕ → Except Caught Unit
  reboot : Reboot

/-- What an installation leaves: the files that were pushed, and whether the packages are recorded. -/
structure Installed where
  pushed : List String := []
  recorded : Bool := false
  result : Except InstallError Unit := .ok ()

/-- `installPackage` of an instance, from the files that were found on. -/
def installPackage (httpPort : ℕ) (machineName : String) (timeout : ℕ) (packagePaths : List String) (guest : Guest) :
    Installed :=
  if packagePaths = [] then {}
  else
    match assertRestAnswering httpPort machineName guest.before 30000 with
    | .error e => { result := .error (.activation e) }
    | .ok () =>
        match uploadPackages guest.push packagePaths with
        | (pushed, .error e) => { pushed := pushed, result := .error e }
        | (pushed, .ok ()) =>
            match rebootForPackageActivation machineName timeout 30000 guest.reboot with
            | .error e => { pushed := pushed, result := .error (.activation e) }
            | .ok () => { pushed := pushed, recorded := true }

/-- The request was answered with a success or lost. -/
def Accepted (answer : Except Caught RestResponse) : Prop :=
  ∀ response, answer = .ok response → 200 ≤ response.status ∧ response.status < 300

/-- Two probes in a row failed, the last of them begun within the budget. -/
def SeenDown (probes : Probes 1000) (budgetMs : ℕ) : Prop :=
  ∃ n, Streak.Ends 2 (fun i => !(probes.answers i).isOk) n ∧ probes.times.now n < probes.times.start + budgetMs

/-- Two probes in a row were settled, the last of them begun in time. -/
def SeenUp (probes : Probes 2000) (timeoutMs : ℕ) : Prop :=
  ∃ n, Ready (fun i => restLook (probes.answers i)) n ∧ probes.times.now n < probes.times.start + timeoutMs

/-- A guest that is up at all these times may miss a probe, but not two in a row. -/
def Tolerates (up : ℕ → Prop) (probes : Probes 1000) : Prop :=
  ∀ i, (∀ t, probes.times.now i ≤ t → t ≤ probes.times.told (i + 1) → up t) →
    (probes.answers i).isOk = true ∨ (probes.answers (i + 1)).isOk = true

/-- Nothing is pushed to a guest that does not answer. The packages are recorded just when every file was
pushed, the reboot was not refused and the guest was seen down and up again; then it was really down. -/
structure Installs (timeout : ℕ) (packagePaths : List String) (guest : Guest) (r : Installed) : Prop where
  answering : r.pushed ≠ [] → SeenUp guest.before 30000
  pushed : r.pushed <+: packagePaths
  recorded : r.recorded = true ↔ packagePaths ≠ [] ∧ SeenUp guest.before 30000 ∧
    (∀ i < packagePaths.length, guest.push i = .ok ()) ∧ Accepted guest.reboot.answer ∧
      SeenDown guest.reboot.down 30000 ∧ SeenUp guest.reboot.back timeout
  returned : r.result.isOk = true ↔ packagePaths = [] ∨ r.recorded = true
  all : r.recorded = true → r.pushed = packagePaths
  wasDown : ∀ up, Tolerates up guest.reboot.down → r.recorded = true → ∃ t n, ¬ up t ∧
    guest.reboot.down.times.start ≤ t ∧ t ≤ guest.reboot.down.times.told n ∧
      guest.reboot.down.times.now n < guest.reboot.down.times.start + 30000

theorem waitForBoot_iff {probes : Probes 2000} {timeoutMs : ℕ} :
    probes.waitForBoot timeoutMs = true ↔ SeenUp probes timeoutMs :=
  (probeLoop_waits (.start rfl)).ready

theorem wentDown_iff {probes : Probes 1000} {downBudgetMs : ℕ} :
    wentDown probes downBudgetMs 0 0 = true ↔ SeenDown probes downBudgetMs := by
  have same (i count : ℕ) : wentDown probes downBudgetMs i count =
      (Streak.wait probes.times.clock (probes.times.start + downBudgetMs) 2
        (fun i => !(probes.answers i).isOk) i count).1 := by
    fun_induction wentDown probes downBudgetMs i count with
    | case1 i count early answer answered ih =>
        have early' : probes.times.clock.now i < probes.times.start + downBudgetMs := early
        rw [Streak.wait, if_pos early', answered]
        exact ih
    | case2 i count early e lost enough =>
        have early' : probes.times.clock.now i < probes.times.start + downBudgetMs := early
        rw [Streak.wait, if_pos early', lost]
        simp [Except.isOk, Except.toBool, enough]
    | case3 i count early e lost few ih =>
        have early' : probes.times.clock.now i < probes.times.start + downBudgetMs := early
        rw [Streak.wait, if_pos early', lost]
        simpa [Except.isOk, Except.toBool, few] using ih
    | case4 i count late =>
        have late' : ¬ probes.times.clock.now i < probes.times.start + downBudgetMs := late
        rw [Streak.wait, if_neg late']
  rw [same]
  exact (Streak.wait_spec .start (fun m early => absurd early (Nat.not_lt_zero m)) rfl).2.2

theorem accept_iff {machineName : String} {answer : Except Caught RestResponse} :
    accept machineName answer = .ok () ↔ Accepted answer := by
  unfold accept Accepted
  cases answer with
  | error e => simp
  | ok response =>
      simp only [Except.ok.injEq, forall_eq']
      split
      · rename_i refused
        simp only [reduceCtorEq, false_iff]
        omega
      · split
        · rename_i refused
          simp only [reduceCtorEq, false_iff]
          omega
        · rename_i fine
          simp only [true_iff]
          omega

theorem rebootForPackageActivation_iff {machineName : String} {bootTimeoutMs downBudgetMs : ℕ} {reboot : Reboot} :
    rebootForPackageActivation machineName bootTimeoutMs downBudgetMs reboot = .ok () ↔
      Accepted reboot.answer ∧ SeenDown reboot.down downBudgetMs ∧ SeenUp reboot.back bootTimeoutMs := by
  rw [← accept_iff, ← wentDown_iff, ← waitForBoot_iff]
  unfold rebootForPackageActivation
  cases accept machineName reboot.answer with
  | error e => simp
  | ok _ =>
      cases wentDown reboot.down downBudgetMs 0 0 <;> cases reboot.back.waitForBoot bootTimeoutMs <;> simp

/-- The files that were pushed come first, and they are all of them when no push failed. -/
theorem uploadPackages_spec (push : ℕ → Except Caught Unit) (paths : List String) :
    (uploadPackages push paths).1 <+: paths ∧
      ((uploadPackages push paths).2 = .ok () ↔ ∀ i < paths.length, push i = .ok ()) ∧
      ((uploadPackages push paths).2 = .ok () → (uploadPackages push paths).1 = paths) := by
  induction paths generalizing push with
  | nil => exact ⟨List.prefix_rfl, by simp [uploadPackages], fun _ => rfl⟩
  | cons path paths ih =>
      obtain ⟨front, whole, all⟩ := ih fun i => push (i + 1)
      unfold uploadPackages
      cases pushed : push 0 with
      | error e =>
          refine ⟨List.nil_prefix, iff_of_false (by simp) fun every => ?_, fun h => by cases h⟩
          have first := every 0 (Nat.succ_pos _)
          rw [pushed] at first
          cases first
      | ok _ =>
          refine ⟨(List.prefix_cons_inj path).mpr front, ?_, fun h => congrArg (path :: ·) (all h)⟩
          rw [List.length_cons, Nat.forall_lt_succ_left, pushed]
          exact whole.trans ⟨fun rest => ⟨rfl, rest⟩, And.right⟩

/-- A guest that tolerates a lost probe and was seen down was down. -/
theorem not_up_of_seenDown {probes : Probes 1000} {budgetMs : ℕ} (h : SeenDown probes budgetMs) {up : ℕ → Prop}
    (tolerates : Tolerates up probes) : ∃ t n, ¬ up t ∧ probes.times.start ≤ t ∧ t ≤ probes.times.told n ∧
      probes.times.now n < probes.times.start + budgetMs := by
  obtain ⟨n, ⟨s, two, failed⟩, intime⟩ := h
  obtain rfl : n = s + 1 := by omega
  by_contra always
  have started (t : ℕ) (late : probes.times.now s ≤ t) : probes.times.start ≤ t := by
    have later : probes.times.clock.now 0 ≤ probes.times.clock.now s :=
      monotone_nat_of_le_succ (fun j => (probes.times.clock.advances j).le) (Nat.zero_le s)
    exact (probes.times.begun.trans later).trans late
  rcases tolerates s fun t late soon => by_contra fun down => always ⟨t, s + 1, down, started t late, soon, intime⟩ with
    answered | answered
  · have lost := failed s (Nat.le_refl s) (Nat.le_succ s)
    simp [answered] at lost
  · have lost := failed (s + 1) (Nat.le_succ s) (Nat.le_refl _)
    simp [answered] at lost

theorem assertRestAnswering_iff {httpPort : ℕ} {machineName : String} {probes : Probes 2000} {budgetMs : ℕ} :
    assertRestAnswering httpPort machineName probes budgetMs = .ok () ↔ SeenUp probes budgetMs := by
  rw [← waitForBoot_iff]
  unfold assertRestAnswering
  cases probes.waitForBoot budgetMs <;> simp

theorem installs (httpPort : ℕ) (machineName : String) (timeout : ℕ) (packagePaths : List String) (guest : Guest) :
    Installs timeout packagePaths guest (installPackage httpPort machineName timeout packagePaths guest) := by
  obtain ⟨front, whole, all⟩ := uploadPackages_spec guest.push packagePaths
  have answering := @assertRestAnswering_iff httpPort machineName guest.before 30000
  have activated := @rebootForPackageActivation_iff machineName timeout 30000 guest.reboot
  unfold installPackage
  split
  · rename_i none
    exact ⟨by simp, List.nil_prefix, by simp [none], by simp [none, Except.isOk, Except.toBool], by simp, by simp⟩
  rename_i some
  split
  · rename_i e silent
    have silent : ¬ SeenUp guest.before 30000 := by
      rw [← answering, silent]
      simp
    exact ⟨by simp, List.nil_prefix, by simp [silent], by simp [some, Except.isOk, Except.toBool], by simp, by simp⟩
  rename_i _ answers
  have up : SeenUp guest.before 30000 := answering.mp answers
  split
  · rename_i pushed e uploaded
    rw [uploaded] at front whole
    have broken : ¬ ∀ i < packagePaths.length, guest.push i = .ok () := by simp [← whole]
    exact ⟨fun _ => up, front, by simp [broken], by simp [some, Except.isOk, Except.toBool], by simp, by simp⟩
  rename_i pushed _ uploaded
  rw [uploaded] at front whole all
  have every : ∀ i < packagePaths.length, guest.push i = .ok () := whole.mp rfl
  split
  · rename_i e refused
    have inactive : ¬ (Accepted guest.reboot.answer ∧ SeenDown guest.reboot.down 30000 ∧
        SeenUp guest.reboot.back timeout) := by
      rw [← activated, refused]
      simp
    exact ⟨fun _ => up, front, by simp only [Bool.false_eq_true, false_iff]; tauto,
      by simp [some, Except.isOk, Except.toBool], by simp, by simp⟩
  · rename_i _ active
    obtain ⟨accepted, down, back⟩ := activated.mp active
    exact ⟨fun _ => up, front, iff_of_true rfl ⟨some, up, every, accepted, down, back⟩, iff_of_true rfl (.inr rfl),
      fun _ => all rfl, fun up tolerates _ => not_up_of_seenDown down tolerates⟩

/-- A guest that boots, takes the file, and reboots. -/
def rebooting : Guest where
  before := ⟨.steady 2000, booting⟩
  push _ := .ok ()
  reboot :=
    { answer := .ok { status := 200, body := "[]" }
      down := ⟨.steady 1000, fun _ => .error { code := some "ECONNREFUSED", message := "connect ECONNREFUSED" }⟩
      back := ⟨.steady 2000, booting⟩ }

theorem installs_rebooting : (installPackage 9100 "chr" 120000 ["container-7.22.npk"] rebooting).recorded = true := by
  have up (budgetMs : ℕ) (long : 8400 < budgetMs) : SeenUp ⟨.steady 2000, booting⟩ budgetMs :=
    ⟨4, booting_ready, by simpa [Times.steady] using long⟩
  refine (installs 9100 "chr" 120000 ["container-7.22.npk"] rebooting).recorded.mpr ⟨by simp, up 30000 (by decide),
    fun _ _ => rfl, fun response is => ?_, ⟨1, ⟨0, rfl, fun _ _ _ => rfl⟩, by decide⟩, up 120000 (by decide)⟩
  cases is
  exact ⟨by decide, by decide⟩

end Quickchr.PackageReboot
