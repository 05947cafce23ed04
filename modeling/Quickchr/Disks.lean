import Quickchr.MachineState
import Mathlib.Logic.Function.Basic

/-!
# The disks of a machine

A boot disk, raw or qcow2, and extra disks by number. What is missing of a machine that has not
booted is built: the boot disk under a temporary name, from which it is renamed once complete. Each
step can fail, or the process end in the middle of it.
-/
namespace Quickchr.Disks

inductive BootDiskFormat
  | raw | qcow2
  deriving DecidableEq, Repr

def BootDiskFormat.text : BootDiskFormat → String
  | .raw => "raw"
  | .qcow2 => "qcow2"

/-- Records from before the format was kept have a size for qcow2 disks only. -/
def bootDiskFormatOf (bootDiskFormat : Option BootDiskFormat) (bootSize : Option String) :
    BootDiskFormat :=
  bootDiskFormat.getD (if bootSize.any (· ≠ "") then .qcow2 else .raw)

/-- The files of the machine directory that hold disks, or disks being built. -/
inductive DiskName
  | diskImg | bootQcow2
  | extra (i : ℕ)
  | tmp (format : BootDiskFormat)
  deriving DecidableEq, Repr

def DiskName.text : DiskName → String
  | .diskImg => "disk.img"
  | .bootQcow2 => "boot.qcow2"
  | .extra i => s!"disk{i}.qcow2"
  | .tmp .raw => "disk.img.tmp"
  | .tmp .qcow2 => "boot.qcow2.tmp"

def bootDiskPath : BootDiskFormat → DiskName
  | .raw => .diskImg
  | .qcow2 => .bootQcow2

theorem bootDiskPath_ne_tmp (format format' : BootDiskFormat) : bootDiskPath format ≠ .tmp format' := by
  cases format <;> exact fun eq => by cases eq

theorem bootDiskPath_ne_extra (format : BootDiskFormat) (i : ℕ) : bootDiskPath format ≠ .extra i := by
  cases format <;> exact fun eq => by cases eq

/-- A file with its content; it is fresh when it was created in the call at hand. -/
structure DiskFile (δ : Type) where
  content : δ
  fresh : Bool
  deriving DecidableEq

abbrev Dir (δ : Type) := DiskName → Option (DiskFile δ)

/-- What `qemu-img` makes. -/
structure QemuImg (δ : Type) where
  convert : δ → δ
  resize : String → δ → δ
  create : String → δ

/-- Why an operation did not return: an error of its own or of the system, or the process is gone. -/
inductive Stop
  | thrown (error : Option QuickCHRError)
  | killed
  deriving DecidableEq, Repr

/-- What a step that changes one file at once comes to. -/
inductive Fate
  | done | fails | killed
  deriving DecidableEq, Repr

/-- What a step that writes a file comes to, and what it leaves there when it does not get done. -/
inductive WriteFate (δ : Type)
  | done
  | fails (stderr : String) (leaves : Option δ)
  | killed (leaves : Option δ)

structure Run (δ α : Type) where
  dir : Dir δ
  result : Except Stop α

section Steps

variable {δ α β : Type}

def Run.andThen (run : Run δ α) (next : Dir δ → α → Run δ β) : Run δ β :=
  match run.result with
  | .ok a => next run.dir a
  | .error stop => { dir := run.dir, result := .error stop }

theorem Run.andThen_cases (run : Run δ α) (next : Dir δ → α → Run δ β) :
    (∃ stop, run.result = .error stop ∧
        run.andThen next = { dir := run.dir, result := .error stop }) ∨
      ∃ a, run.result = .ok a ∧ run.andThen next = next run.dir a := by
  unfold Run.andThen
  cases run.result with
  | error stop => exact .inl ⟨stop, rfl, rfl⟩
  | ok a => exact .inr ⟨a, rfl, rfl⟩

theorem Run.andThen_ok {run : Run δ α} {next : Dir δ → α → Run δ β} {b : β}
    (h : (run.andThen next).result = .ok b) :
    ∃ a, run.result = .ok a ∧ run.andThen next = next run.dir a := by
  rcases Run.andThen_cases run next with ⟨stop, -, eq⟩ | same
  · rw [eq] at h
    cases h
  · exact same

def put (dir : Dir δ) (name : DiskName) (leaves : Option δ) : Dir δ :=
  Function.update dir name (leaves.map fun content => { content := content, fresh := true })

/-- `qemu-img` or a copy, writing the file `name`. -/
def write (failure : String → Option QuickCHRError) (fate : WriteFate δ) (name : DiskName)
    (content : δ) (dir : Dir δ) : Run δ Unit :=
  match fate with
  | .done => { dir := put dir name (some content), result := .ok () }
  | .fails stderr leaves => { dir := put dir name leaves, result := .error (.thrown (failure stderr)) }
  | .killed leaves => { dir := put dir name leaves, result := .error .killed }

/-- `rmSync` with `force`. -/
def rm (fate : Fate) (name : DiskName) (dir : Dir δ) : Run δ Unit :=
  match fate with
  | .done => { dir := put dir name none, result := .ok () }
  | .fails => { dir := dir, result := .error (.thrown none) }
  | .killed => { dir := dir, result := .error .killed }

def renameWithRetry (fate : Fate) (source target : DiskName) (dir : Dir δ) : Run δ Unit :=
  match fate with
  | .done =>
      { dir := Function.update (Function.update dir target (dir source)) source none
        result := .ok () }
  | .fails => { dir := dir, result := .error (.thrown none) }
  | .killed => { dir := dir, result := .error .killed }

def processFailed (message : String) : Option QuickCHRError :=
  some { code := .PROCESS_FAILED, message := message }

/-- What `qemu-img info` tells of a disk. -/
inductive Inspection
  | info (format : String) (backingFilename : Option String)
  | fails (stderr : String)
  | killed
  deriving DecidableEq, Repr

/-- The check that a disk is a standalone qcow2. -/
def inspect (inspection : Inspection) (dir : Dir δ) : Run δ Unit :=
  match inspection with
  | .info format backingFilename =>
      let backing := backingFilename.getD ""
      if format ≠ "qcow2" ∨ backing ≠ "" then
        let shown := if backing ≠ "" then s!", backing={backing}" else ""
        { dir := dir
          result := .error (.thrown (processFailed
            s!"Converted boot disk is not a standalone qcow2 (format={format}{shown})")) }
      else { dir := dir, result := .ok () }
  | .fails stderr =>
      { dir := dir
        result := .error (.thrown (processFailed s!"qemu-img info failed: {Text.trim stderr}")) }
  | .killed => { dir := dir, result := .error .killed }

end Steps

/-- What the steps of one build come to. -/
structure BuildFates (δ : Type) where
  rmTmp : Fate
  copy : WriteFate δ
  resize : WriteFate δ
  info : Inspection
  rename : Fate
  rmTmpAfter : Fate

section Boot

variable {δ : Type} (img : QemuImg δ) (fates : BuildFates δ) (source : δ) (format : BootDiskFormat)
  (bootSize : Option String)

def bootContent : δ :=
  match format with
  | .raw => source
  | .qcow2 =>
      match bootSize with
      | some size => if size ≠ "" then img.resize size (img.convert source) else img.convert source
      | none => img.convert source

def buildTmp (dir : Dir δ) : Run δ Unit :=
  match format with
  | .raw => write (fun _ => none) fates.copy (.tmp .raw) source dir
  | .qcow2 =>
      let converted := write
        (fun stderr => processFailed s!"qemu-img convert failed: {Text.trim stderr}") fates.copy
        (.tmp .qcow2) (img.convert source) dir
      let resized := converted.andThen fun dir _ =>
        match bootSize with
        | some size =>
            if size ≠ "" then
              write (fun stderr => processFailed s!"qemu-img resize failed: {Text.trim stderr}")
                fates.resize (.tmp .qcow2) (img.resize size (img.convert source)) dir
            else { dir := dir, result := .ok () }
        | none => { dir := dir, result := .ok () }
      resized.andThen fun dir _ => inspect fates.info dir

/-- The `finally` of a build. A process that is gone does not come to it. -/
def finallyRm (fate : Fate) (name : DiskName) (run : Run δ Unit) : Run δ Unit :=
  match run.result with
  | .error .killed => run
  | result => (rm fate name run.dir).andThen fun dir _ => { dir := dir, result := result }

def writeBootDisk (dir : Dir δ) : Run δ Unit :=
  (rm fates.rmTmp (.tmp format) dir).andThen fun dir _ =>
    finallyRm fates.rmTmpAfter (.tmp format)
      ((buildTmp img fates source format bootSize dir).andThen fun dir _ =>
        renameWithRetry fates.rename (.tmp format) (bootDiskPath format) dir)

end Boot

section Boot

variable {δ : Type} {img : QemuImg δ} {fates : BuildFates δ} {source : δ} {format : BootDiskFormat}
  {bootSize : Option String} {dir : Dir δ}

theorem put_of_ne {name n : DiskName} {leaves : Option δ} (h : n ≠ name) :
    put dir name leaves n = dir n := Function.update_of_ne h ..

theorem put_self {name : DiskName} {leaves : Option δ} :
    put dir name leaves name = leaves.map fun content => { content := content, fresh := true } :=
  Function.update_self ..

theorem write_others {failure : String → Option QuickCHRError} {fate : WriteFate δ}
    {name n : DiskName} {content : δ} (h : n ≠ name) :
    (write failure fate name content dir).dir n = dir n := by
  cases fate <;> exact put_of_ne h

theorem write_ok {failure : String → Option QuickCHRError} {fate : WriteFate δ} {name : DiskName}
    {content : δ} (h : (write failure fate name content dir).result = .ok ()) :
    (write failure fate name content dir).dir name = some { content := content, fresh := true } := by
  cases fate with
  | done => exact put_self
  | fails stderr leaves => cases h
  | killed leaves => cases h

theorem rm_others {fate : Fate} {name n : DiskName} (h : n ≠ name) :
    (rm fate name dir).dir n = dir n := by
  cases fate with
  | done => exact put_of_ne h
  | fails => rfl
  | killed => rfl

theorem renameWithRetry_done {from_ target : DiskName} (ne : target ≠ from_) :
    (renameWithRetry .done from_ target dir).dir target = dir from_ := by
  simp only [renameWithRetry]
  rw [Function.update_of_ne ne, Function.update_self]

theorem renameWithRetry_others {fate : Fate} {from_ target n : DiskName} (notTarget : n ≠ target)
    (notFrom : n ≠ from_) : (renameWithRetry fate from_ target dir).dir n = dir n := by
  cases fate with
  | done =>
      simp only [renameWithRetry]
      rw [Function.update_of_ne notFrom, Function.update_of_ne notTarget]
  | fails => rfl
  | killed => rfl

theorem inspect_dir {inspection : Inspection} : (inspect inspection dir).dir = dir := by
  cases inspection with
  | info format backingFilename =>
      unfold inspect
      dsimp only
      split <;> rfl
  | fails stderr => rfl
  | killed => rfl

/-- A build writes the temporary file only, and gets done with a complete disk in it. -/
theorem buildTmp_spec :
    (∀ n, n ≠ .tmp format → (buildTmp img fates source format bootSize dir).dir n = dir n) ∧
      ((buildTmp img fates source format bootSize dir).result = .ok () →
        (buildTmp img fates source format bootSize dir).dir (.tmp format) =
          some { content := bootContent img source format bootSize, fresh := true }) := by
  cases format with
  | raw => exact ⟨fun n other => write_others other, fun ok => write_ok ok⟩
  | qcow2 =>
      simp only [buildTmp]
      generalize converts : write _ fates.copy (.tmp .qcow2) (img.convert source) dir = converted
      have convertedOthers : ∀ n, n ≠ .tmp .qcow2 → converted.dir n = dir n :=
        fun n other => converts ▸ write_others other
      have convertedOk : converted.result = .ok () → converted.dir (.tmp .qcow2) =
          some { content := img.convert source, fresh := true } := fun ok => by
        subst converts
        exact write_ok ok
      -- the resize, if a size is asked for
      generalize resizes : converted.andThen _ = resized
      have resizedSpec : (∀ n, n ≠ .tmp .qcow2 → resized.dir n = dir n) ∧
          (resized.result = .ok () → resized.dir (.tmp .qcow2) =
            some { content := bootContent img source .qcow2 bootSize, fresh := true }) := by
        subst resizes
        rcases Run.andThen_cases converted _ with ⟨stop, -, eq⟩ | ⟨⟨⟩, ok, eq⟩
        · rw [eq]
          exact ⟨convertedOthers, fun ok => by cases ok⟩
        · rw [eq]
          cases bootSize with
          | none => exact ⟨convertedOthers, fun _ => convertedOk ok⟩
          | some size =>
              simp only [bootContent]
              split
              · exact ⟨fun n other => (write_others other).trans (convertedOthers n other),
                  fun ok => write_ok ok⟩
              · exact ⟨convertedOthers, fun _ => convertedOk ok⟩
      rcases Run.andThen_cases resized fun dir _ => inspect fates.info dir with
        ⟨stop, -, eq⟩ | ⟨⟨⟩, ok, eq⟩
      · rw [eq]
        exact ⟨resizedSpec.1, fun ok => by cases ok⟩
      · rw [eq, inspect_dir]
        exact ⟨resizedSpec.1, fun _ => resizedSpec.2 ok⟩

/-- What a build of the boot disk, done or not, makes of a directory. -/
structure Built (format : BootDiskFormat) (content : δ) (before after : Dir δ)
    (result : Except Stop Unit) : Prop where
  others : ∀ n, n ≠ bootDiskPath format → n ≠ .tmp format → after n = before n
  path : after (bootDiskPath format) = before (bootDiskPath format) ∨
    after (bootDiskPath format) = some { content := content, fresh := true }
  done : result = .ok () →
    after (bootDiskPath format) = some { content := content, fresh := true }

theorem Built.finallyRm {content : δ} {run : Run δ Unit} {fate : Fate}
    (h : Built format content dir run.dir run.result) :
    Built format content dir (finallyRm fate (.tmp format) run).dir
      (finallyRm fate (.tmp format) run).result := by
  have kept : ∀ n, n ≠ .tmp format → (rm fate (.tmp format) run.dir).dir n = run.dir n :=
    fun n other => rm_others other
  have path := kept _ (bootDiskPath_ne_tmp format format)
  have removed : ∀ result, (result = .ok () → run.result = .ok ()) →
      Built format content dir (rm fate (.tmp format) run.dir).dir result := fun result same =>
    ⟨fun n notPath notTmp => (kept n notTmp).trans (h.others n notPath notTmp),
      by rw [path]; exact h.path, fun ok => by rw [path]; exact h.done (same ok)⟩
  unfold Disks.finallyRm
  split
  · exact h
  · rcases Run.andThen_cases (rm fate (.tmp format) run.dir) _ with ⟨stop, -, eq⟩ | ⟨⟨⟩, -, eq⟩
    · rw [eq]
      exact removed _ fun ok => by cases ok
    · rw [eq]
      exact removed _ id

theorem writeBootDisk_built : Built format (bootContent img source format bootSize) dir
    (writeBootDisk img fates source format bootSize dir).dir
    (writeBootDisk img fates source format bootSize dir).result := by
  have removed : ∀ n, n ≠ .tmp format → (rm fates.rmTmp (.tmp format) dir).dir n = dir n :=
    fun n other => rm_others other
  unfold writeBootDisk
  rcases Run.andThen_cases (rm fates.rmTmp (.tmp format) dir) _ with ⟨stop, -, eq⟩ | ⟨⟨⟩, -, eq⟩
  · rw [eq]
    exact ⟨fun n _ notTmp => removed n notTmp, .inl (removed _ (bootDiskPath_ne_tmp format format)),
      fun ok => by cases ok⟩
  rw [eq]
  obtain ⟨others, complete⟩ := @buildTmp_spec δ img fates source format bootSize
    (rm fates.rmTmp (.tmp format) dir).dir
  generalize buildTmp img fates source format bootSize (rm fates.rmTmp (.tmp format) dir).dir =
    build at others complete ⊢
  have kept : ∀ n, n ≠ .tmp format → build.dir n = dir n :=
    fun n other => (others n other).trans (removed n other)
  refine Built.finallyRm ?_
  rcases Run.andThen_cases build _ with ⟨stop, -, eq⟩ | ⟨⟨⟩, ok, eq⟩
  · rw [eq]
    exact ⟨fun n _ notTmp => kept n notTmp, .inl (kept _ (bootDiskPath_ne_tmp format format)),
      fun ok => by cases ok⟩
  rw [eq]
  refine ⟨fun n notPath notTmp => (renameWithRetry_others notPath notTmp).trans (kept n notTmp),
    ?_, ?_⟩
  · cases fates.rename with
    | done => exact .inr ((renameWithRetry_done (bootDiskPath_ne_tmp format format)).trans (complete ok))
    | fails => exact .inl (kept _ (bootDiskPath_ne_tmp format format))
    | killed => exact .inl (kept _ (bootDiskPath_ne_tmp format format))
  · intro renamed
    cases fate : fates.rename with
    | done => exact (renameWithRetry_done (bootDiskPath_ne_tmp format format)).trans (complete ok)
    | fails => rw [fate] at renamed; cases renamed
    | killed => rw [fate] at renamed; cases renamed

theorem writeBootDisk_discards {leftover : Option (DiskFile δ)} (h : fates.rmTmp = .done) :
    writeBootDisk img fates source format bootSize (Function.update dir (.tmp format) leftover) =
      writeBootDisk img fates source format bootSize dir := by
  unfold writeBootDisk
  rw [h]
  simp only [rm, put, Function.update_idem]

end Boot

/-- The factory image, from which a boot disk is built that is missing. -/
inductive FactoryImage (δ : Type)
  | none
  | fails (error : Option QuickCHRError)
  | killed
  | image (content : δ)

structure DiskSources (δ : Type) where
  booted : Bool
  factoryImage : FactoryImage δ

structure ConfiguredDisks where
  bootDisk : DiskName
  extraDisks : Option (List DiskName)
  deriving DecidableEq, Repr

def ConfiguredDisks.all (disks : ConfiguredDisks) : List DiskName :=
  disks.bootDisk :: disks.extraDisks.getD []

/-- What the steps of `ensureConfiguredDisks` come to. -/
structure EnsureFates (δ : Type) where
  build : BuildFates δ
  create : ℕ → WriteFate δ

structure MachineDir where
  path : String
  basename : String

def missingDiskError (machine : MachineDir) (name : DiskName) : QuickCHRError where
  code := .MACHINE_NOT_FOUND
  message := s!"Disk image not found for \"{machine.basename}\": {machine.path}/{name.text}. The " ++
    "machine has booted before, so quickchr will not rebuild it from the factory image — that " ++
    s!"would silently reset the router. Restore the file, or run 'quickchr clean {machine.basename}' " ++
    "to reset it to factory."

section Ensure

variable {δ : Type} (img : QemuImg δ) (machine : MachineDir) (fates : EnsureFates δ)
  (bootSize : Option String) (format : BootDiskFormat) (sources : DiskSources δ)

/-- What a missing boot disk is built from: the raw copy of a legacy machine, or the image. -/
def bootSource (dir : Dir δ) : FactoryImage δ :=
  match format, dir .diskImg with
  | .qcow2, some legacyRaw => .image legacyRaw.content
  | _, _ => sources.factoryImage

def ensureBootDisk (dir : Dir δ) : Run δ Unit :=
  match dir (bootDiskPath format) with
  | some _ => { dir := dir, result := .ok () }
  | none =>
      if sources.booted then
        { dir := dir
          result := .error (.thrown (some (missingDiskError machine (bootDiskPath format)))) }
      else
        match bootSource format sources dir with
        | .image source => writeBootDisk img fates.build source format bootSize dir
        | .none =>
            { dir := dir
              result := .error (.thrown (some
                { code := .MACHINE_NOT_FOUND
                  message := s!"Disk image not found for \"{machine.basename}\": " ++
                    s!"{machine.path}/{(bootDiskPath format).text}" })) }
        | .fails error => { dir := dir, result := .error (.thrown error) }
        | .killed => { dir := dir, result := .error .killed }

def ensureExtraDisk (size : String) (i : ℕ) (dir : Dir δ) : Run δ Unit :=
  match dir (.extra i) with
  | some _ => { dir := dir, result := .ok () }
  | none =>
      if sources.booted then
        { dir := dir, result := .error (.thrown (some (missingDiskError machine (.extra i)))) }
      else
        write (fun stderr => processFailed s!"qemu-img create failed: {Text.trim stderr}")
          (fates.create i) (.extra i) (img.create size) dir

/-- The extra disks from number `i` on. -/
def ensureExtraDisks : List String → (i : ℕ) → Dir δ → Run δ (List DiskName)
  | [], _, dir => { dir := dir, result := .ok [] }
  | size :: sizes, i, dir =>
      (ensureExtraDisk img machine fates sources size i dir).andThen fun dir _ =>
        (ensureExtraDisks sizes (i + 1) dir).andThen fun dir later =>
          { dir := dir, result := .ok (.extra i :: later) }

def ensureConfiguredDisks (extraDiskSizes : Option (List String)) (dir : Dir δ) :
    Run δ ConfiguredDisks :=
  (ensureBootDisk img machine fates bootSize format sources dir).andThen fun dir _ =>
    match extraDiskSizes with
    | some (size :: sizes) =>
        (ensureExtraDisks img machine fates sources (size :: sizes) 1 dir).andThen fun dir extras =>
          { dir := dir, result := .ok { bootDisk := bootDiskPath format, extraDisks := some extras } }
    | _ => { dir := dir, result := .ok { bootDisk := bootDiskPath format, extraDisks := none } }

end Ensure

/-- A disk with what it may hold when it is built. -/
abbrev Wanted (δ : Type) := DiskName × (δ → Prop)

/-- What ensuring the wanted disks makes of a directory. -/
structure Ensured {δ : Type} (booted : Bool) (disks : List (Wanted δ)) (before after : Dir δ)
    (result : Except Stop Unit) : Prop where
  existing : ∀ n, (∀ format, n ≠ .tmp format) → before n ≠ none → after n = before n
  others : ∀ n, (∀ format, n ≠ .tmp format) → n ∉ disks.map Prod.fst → after n = before n
  booted : booted = true → after = before ∧ ∀ stop, result = .error stop → ∃ e, stop = .thrown e
  present : result = .ok () → ∀ d ∈ disks, after d.1 ≠ none ∧ (before d.1 = none →
    ∃ content, d.2 content ∧ after d.1 = some { content := content, fresh := true })

section Ensured

variable {δ : Type} {booted : Bool} {disks more : List (Wanted δ)} {a b c : Dir δ}
  {result : Except Stop Unit}

theorem Ensured.nil {dir : Dir δ} : Ensured booted [] dir dir (.ok ()) where
  existing _ _ _ := rfl
  others _ _ _ := rfl
  booted _ := ⟨rfl, fun stop ok => by cases ok⟩
  present _ d none := by cases none

theorem Ensured.stop {stop : Stop} (h : Ensured booted disks a b (.error stop)) :
    Ensured booted (disks ++ more) a b (.error stop) where
  existing := h.existing
  others n notTmp other := h.others n notTmp fun member =>
    other (by rw [List.map_append]; exact List.mem_append_left _ member)
  booted := h.booted
  present ok := by cases ok

theorem Ensured.append (first : Ensured booted disks a b (.ok ()))
    (second : Ensured booted more b c result)
    (distinct : ∀ d ∈ disks, d.1 ∉ more.map Prod.fst)
    (noTmp : ∀ d ∈ disks ++ more, ∀ format, d.1 ≠ .tmp format) :
    Ensured booted (disks ++ more) a c result := by
  have kept : ∀ d ∈ disks, c d.1 = b d.1 := fun d member =>
    second.existing d.1 (noTmp d (List.mem_append_left _ member)) (first.present rfl d member).1
  have untouched : ∀ d ∈ more, b d.1 = a d.1 := fun d member => by
    refine first.others d.1 (noTmp d (List.mem_append_right _ member)) fun twice => ?_
    obtain ⟨d', member', same⟩ := List.mem_map.mp twice
    exact distinct d' member' (same ▸ List.mem_map_of_mem member)
  refine ⟨fun n notTmp there => ?_, fun n notTmp other => ?_, fun yes => ?_, fun ok d member => ?_⟩
  · have same := first.existing n notTmp there
    rw [second.existing n notTmp (same ▸ there), same]
  · rw [List.map_append, List.mem_append, not_or] at other
    rw [second.others n notTmp other.2, first.others n notTmp other.1]
  · obtain ⟨same, stops⟩ := second.booted yes
    exact ⟨same.trans (first.booted yes).1, stops⟩
  · rcases List.mem_append.mp member with early | late
    · rw [kept d early]
      exact first.present rfl d early
    · rw [← untouched d late]
      exact second.present ok d late

end Ensured

section Materialized

variable {δ : Type} {img : QemuImg δ} {machine : MachineDir} {fates : EnsureFates δ}
  {bootSize : Option String} {format : BootDiskFormat} {sources : DiskSources δ} {dir : Dir δ}

/-- A boot disk that is built is complete, and made of what it is to be made of. -/
def wantedBoot (img : QemuImg δ) (bootSize : Option String) (format : BootDiskFormat)
    (sources : DiskSources δ) (dir : Dir δ) : Wanted δ :=
  (bootDiskPath format, fun content => ∃ source, bootSource format sources dir = .image source ∧
    content = bootContent img source format bootSize)

def wantedExtras (img : QemuImg δ) : List String → (i : ℕ) → List (Wanted δ)
  | [], _ => []
  | size :: sizes, i => (.extra i, (· = img.create size)) :: wantedExtras img sizes (i + 1)

theorem ensureBootDisk_ensured :
    Ensured sources.booted [wantedBoot img bootSize format sources dir] dir
      (ensureBootDisk img machine fates bootSize format sources dir).dir
      (ensureBootDisk img machine fates bootSize format sources dir).result := by
  have stopped : ∀ e, Ensured sources.booted [wantedBoot img bootSize format sources dir] dir dir
      (.error (.thrown e)) := fun e =>
    ⟨fun _ _ _ => rfl, fun _ _ _ => rfl, fun _ => ⟨rfl, fun stop eq => by cases eq; exact ⟨e, rfl⟩⟩,
      fun ok => by cases ok⟩
  unfold ensureBootDisk
  cases there : dir (bootDiskPath format) with
  | some file =>
      refine ⟨fun _ _ _ => rfl, fun _ _ _ => rfl, fun _ => ⟨rfl, fun stop ok => by cases ok⟩, ?_⟩
      rintro - d member
      rw [List.mem_singleton.mp member]
      have present : dir (bootDiskPath format) ≠ none := by rw [there]; exact Option.some_ne_none _
      exact ⟨present, fun missing => absurd missing present⟩
  | none =>
      dsimp only
      split
      · exact stopped _
      · rename_i notBooted
        cases from_ : bootSource format sources dir with
        | none => exact stopped _
        | fails error => exact stopped _
        | killed =>
            exact ⟨fun _ _ _ => rfl, fun _ _ _ => rfl, fun yes => absurd yes notBooted,
              fun ok => by cases ok⟩
        | image source =>
            have built := @writeBootDisk_built δ img fates.build source format bootSize dir
            refine ⟨fun n notTmp present => ?_, fun n notTmp other => ?_, fun yes => absurd yes notBooted,
              fun ok d member => ?_⟩
            · refine built.others n (fun isBoot => ?_) (notTmp format)
              rw [isBoot] at present
              exact present there
            · exact built.others n (fun isBoot => other (List.mem_singleton.mpr isBoot)) (notTmp format)
            · rw [List.mem_singleton.mp member]
              have done := built.done ok
              exact ⟨by rw [wantedBoot, done]; exact Option.some_ne_none _,
                fun _ => ⟨_, ⟨source, from_, rfl⟩, done⟩⟩

theorem ensureExtraDisk_ensured {size : String} {i : ℕ} :
    Ensured sources.booted [(.extra i, (· = img.create size))] dir
      (ensureExtraDisk img machine fates sources size i dir).dir
      (ensureExtraDisk img machine fates sources size i dir).result := by
  unfold ensureExtraDisk
  cases there : dir (.extra i) with
  | some file =>
      refine ⟨fun _ _ _ => rfl, fun _ _ _ => rfl, fun _ => ⟨rfl, fun stop ok => by cases ok⟩, ?_⟩
      rintro - d member
      rw [List.mem_singleton.mp member]
      have present : dir (.extra i) ≠ none := by rw [there]; exact Option.some_ne_none _
      exact ⟨present, fun missing => absurd missing present⟩
  | none =>
      dsimp only
      split
      · exact ⟨fun _ _ _ => rfl, fun _ _ _ => rfl,
          fun _ => ⟨rfl, fun stop eq => by cases eq; exact ⟨_, rfl⟩⟩, fun ok => by cases ok⟩
      · rename_i notBooted
        refine ⟨fun n _ present => write_others fun isExtra => ?_,
          fun n _ other => write_others fun isExtra => other (List.mem_singleton.mpr isExtra),
          fun yes => absurd yes notBooted, fun ok d member => ?_⟩
        · rw [isExtra] at present
          exact present there
        · rw [List.mem_singleton.mp member]
          have done := write_ok ok
          exact ⟨by rw [done]; exact Option.some_ne_none _, fun _ => ⟨_, rfl, done⟩⟩

theorem mem_wantedExtras {sizes : List String} {i : ℕ} {d : Wanted δ}
    (h : d ∈ wantedExtras img sizes i) : ∃ k, i ≤ k ∧ d.1 = .extra k := by
  induction sizes generalizing i with
  | nil => cases h
  | cons size sizes ih =>
      rcases List.mem_cons.mp h with rfl | later
      · exact ⟨i, Nat.le_refl i, rfl⟩
      · obtain ⟨k, le, eq⟩ := ih later
        exact ⟨k, by omega, eq⟩

/-- The result as one that says only whether there is one. -/
def Run.outcome {δ α : Type} (run : Run δ α) : Except Stop Unit := run.result.map fun _ => ()

theorem ensureExtraDisks_ensured {sizes : List String} {i : ℕ} :
    Ensured sources.booted (wantedExtras img sizes i) dir
        (ensureExtraDisks img machine fates sources sizes i dir).dir
        (ensureExtraDisks img machine fates sources sizes i dir).outcome ∧
      ∀ names, (ensureExtraDisks img machine fates sources sizes i dir).result = .ok names →
        names = (wantedExtras img sizes i).map Prod.fst := by
  induction sizes generalizing i dir with
  | nil => exact ⟨Ensured.nil, fun names ok => by cases ok; rfl⟩
  | cons size sizes ih =>
      have first := @ensureExtraDisk_ensured δ img machine fates sources dir size i
      unfold ensureExtraDisks
      rcases Run.andThen_cases (ensureExtraDisk img machine fates sources size i dir) _ with
        ⟨stop, failed, eq⟩ | ⟨⟨⟩, ok, eq⟩
      · rw [eq]
        rw [failed] at first
        exact ⟨first.stop, fun names ok => by cases ok⟩
      · rw [eq]
        rw [ok] at first
        obtain ⟨later, names⟩ := @ih (ensureExtraDisk img machine fates sources size i dir).dir (i + 1)
        have numbers : ∀ d ∈ wantedExtras img sizes (i + 1), ∃ k, i + 1 ≤ k ∧ d.1 = .extra k :=
          fun d member => mem_wantedExtras member
        have distinct : ∀ d ∈ [((.extra i, (· = img.create size)) : Wanted δ)],
            d.1 ∉ (wantedExtras img sizes (i + 1)).map Prod.fst := by
          intro d member twice
          rw [List.mem_singleton.mp member] at twice
          obtain ⟨d', member', same⟩ := List.mem_map.mp twice
          obtain ⟨k, le, isExtra⟩ := numbers d' member'
          rw [isExtra] at same
          cases same
          omega
        have noTmp : ∀ d ∈ [((.extra i, (· = img.create size)) : Wanted δ)] ++
            wantedExtras img sizes (i + 1), ∀ format, d.1 ≠ .tmp format := by
          intro d member format
          rcases List.mem_append.mp member with early | late
          · rw [List.mem_singleton.mp early]
            exact fun isTmp => by cases isTmp
          · obtain ⟨k, -, isExtra⟩ := numbers d late
            rw [isExtra]
            exact fun isTmp => by cases isTmp
        rcases Run.andThen_cases (ensureExtraDisks img machine fates sources sizes (i + 1)
          (ensureExtraDisk img machine fates sources size i dir).dir) _ with
          ⟨stop, failed, eq⟩ | ⟨others, ok', eq⟩
        · rw [eq]
          rw [Run.outcome, failed] at later
          exact ⟨first.append later distinct noTmp, fun names ok => by cases ok⟩
        · rw [eq]
          rw [Run.outcome, ok'] at later
          refine ⟨first.append later distinct noTmp, fun names' ok => ?_⟩
          cases ok
          rw [names others ok']
          rfl

/-- The disks of a configuration, each with what it may hold when it is built. -/
def wanted (img : QemuImg δ) (bootSize : Option String) (format : BootDiskFormat)
    (sources : DiskSources δ) (extraDiskSizes : Option (List String)) (dir : Dir δ) :
    List (Wanted δ) :=
  wantedBoot img bootSize format sources dir :: wantedExtras img (extraDiskSizes.getD []) 1

theorem wanted_noTmp {extraDiskSizes : Option (List String)} :
    ∀ d ∈ wanted img bootSize format sources extraDiskSizes dir, ∀ format', d.1 ≠ .tmp format' := by
  intro d member format'
  rcases List.mem_cons.mp member with rfl | extra
  · exact bootDiskPath_ne_tmp format format'
  · obtain ⟨k, -, isExtra⟩ := mem_wantedExtras extra
    rw [isExtra]
    exact fun isTmp => by cases isTmp

theorem boot_not_extra {format' : BootDiskFormat} {sizes : List String} {i : ℕ} :
    bootDiskPath format' ∉ (wantedExtras img sizes i).map Prod.fst := by
  intro twice
  obtain ⟨d, member, same⟩ := List.mem_map.mp twice
  obtain ⟨k, -, isExtra⟩ := mem_wantedExtras member
  exact bootDiskPath_ne_extra format' k (same.symm.trans isExtra)

theorem ensureConfiguredDisks_ensured {extraDiskSizes : Option (List String)} :
    Ensured sources.booted (wanted img bootSize format sources extraDiskSizes dir) dir
        (ensureConfiguredDisks img machine fates bootSize format sources extraDiskSizes dir).dir
        (ensureConfiguredDisks img machine fates bootSize format sources extraDiskSizes dir).outcome ∧
      ∀ disks, (ensureConfiguredDisks img machine fates bootSize format sources extraDiskSizes
          dir).result = .ok disks →
        disks.all = (wanted img bootSize format sources extraDiskSizes dir).map Prod.fst := by
  have boot := @ensureBootDisk_ensured δ img machine fates bootSize format sources dir
  unfold ensureConfiguredDisks
  rcases Run.andThen_cases (ensureBootDisk img machine fates bootSize format sources dir) _ with
    ⟨stop, failed, eq⟩ | ⟨⟨⟩, ok, eq⟩
  · rw [eq]
    rw [failed] at boot
    exact ⟨boot.stop, fun disks ok => by cases ok⟩
  · rw [eq]
    rw [ok] at boot
    cases extraDiskSizes with
    | none => exact ⟨boot, fun disks ok => by cases ok; rfl⟩
    | some sizes =>
        cases sizes with
        | nil => exact ⟨boot, fun disks ok => by cases ok; rfl⟩
        | cons size sizes =>
            obtain ⟨extras, names⟩ := @ensureExtraDisks_ensured δ img machine fates sources
              (ensureBootDisk img machine fates bootSize format sources dir).dir (size :: sizes) 1
            have distinct : ∀ d ∈ [wantedBoot img bootSize format sources dir],
                d.1 ∉ (wantedExtras img (size :: sizes) 1).map Prod.fst := fun d member => by
              rw [List.mem_singleton.mp member]
              exact boot_not_extra
            dsimp only
            rcases Run.andThen_cases (ensureExtraDisks img machine fates sources (size :: sizes) 1
              (ensureBootDisk img machine fates bootSize format sources dir).dir) _ with
              ⟨stop, failed, eq⟩ | ⟨others, ok', eq⟩
            · rw [eq]
              rw [Run.outcome, failed] at extras
              exact ⟨boot.append extras distinct
                (@wanted_noTmp _ _ _ _ _ _ (some (size :: sizes))), fun disks ok => by cases ok⟩
            · rw [eq]
              rw [Run.outcome, ok'] at extras
              refine ⟨boot.append extras distinct
                (@wanted_noTmp _ _ _ _ _ _ (some (size :: sizes))), fun disks ok => ?_⟩
              cases ok
              simp only [ConfiguredDisks.all, Option.getD_some]
              rw [names others ok']
              rfl

/-- At its final name a boot disk is the one that was there, or complete. -/
theorem ensureBootDisk_path :
    (ensureBootDisk img machine fates bootSize format sources dir).dir (bootDiskPath format) =
        dir (bootDiskPath format) ∨
      dir (bootDiskPath format) = none ∧ ∃ content,
        (wantedBoot img bootSize format sources dir).2 content ∧
        (ensureBootDisk img machine fates bootSize format sources dir).dir (bootDiskPath format) =
          some { content := content, fresh := true } := by
  unfold ensureBootDisk
  cases there : dir (bootDiskPath format) with
  | some file => exact .inl there
  | none =>
      dsimp only
      split
      · exact .inl there
      · cases from_ : bootSource format sources dir with
        | none => exact .inl there
        | fails error => exact .inl there
        | killed => exact .inl there
        | image source =>
            rcases (@writeBootDisk_built δ img fates.build source format bootSize dir).path with
              same | built
            · exact .inl (same.trans there)
            · exact .inr ⟨rfl, _, ⟨source, from_, rfl⟩, built⟩

theorem ensureConfiguredDisks_path {extraDiskSizes : Option (List String)} :
    (ensureConfiguredDisks img machine fates bootSize format sources extraDiskSizes dir).dir
        (bootDiskPath format) =
      (ensureBootDisk img machine fates bootSize format sources dir).dir (bootDiskPath format) := by
  unfold ensureConfiguredDisks
  rcases Run.andThen_cases (ensureBootDisk img machine fates bootSize format sources dir) _ with
    ⟨stop, -, eq⟩ | ⟨⟨⟩, -, eq⟩
  · rw [eq]
  · rw [eq]
    split
    · rename_i size sizes
      obtain ⟨extras, -⟩ := @ensureExtraDisks_ensured δ img machine fates sources
        (ensureBootDisk img machine fates bootSize format sources dir).dir (size :: sizes) 1
      have kept := extras.others (bootDiskPath format) (bootDiskPath_ne_tmp format) boot_not_extra
      rcases Run.andThen_cases (ensureExtraDisks img machine fates sources (size :: sizes) 1
        (ensureBootDisk img machine fates bootSize format sources dir).dir) _ with
        ⟨stop, -, eq⟩ | ⟨others, -, eq⟩
      · rw [eq]
        exact kept
      · rw [eq]
        exact kept
    · rfl

end Materialized

/-- What `ensureConfiguredDisks` does, wherever it is stopped. -/
structure Materialized {δ : Type} (img : QemuImg δ) (booted : Bool) (format : BootDiskFormat)
    (disks : List (Wanted δ)) (dir : Dir δ) (run : Run δ ConfiguredDisks) : Prop where
  /-- A booted machine has all its disks, or an error is thrown; no file changes. -/
  booted : booted = true → run.dir = dir ∧
    ((∃ found, run.result = .ok found ∧ found.all = disks.map Prod.fst ∧
        ∀ d ∈ found.all, dir d ≠ none) ∨ ∃ e, run.result = .error (.thrown e))
  /-- A machine that has not booted has all its disks on return, the missing ones complete. -/
  present : ∀ found, run.result = .ok found → found.all = disks.map Prod.fst ∧
    ∀ d ∈ disks, run.dir d.1 ≠ none ∧ (dir d.1 = none →
      ∃ content, d.2 content ∧ run.dir d.1 = some { content := content, fresh := true })
  /-- A disk that was there is unchanged. -/
  existing : ∀ n, (∀ format, n ≠ .tmp format) → dir n ≠ none → run.dir n = dir n
  /-- A boot disk is the one that was there, or its build was completed. -/
  boot : ∀ format', run.dir (bootDiskPath format') = dir (bootDiskPath format') ∨
    format' = format ∧ dir (bootDiskPath format') = none ∧ ∃ d ∈ disks, ∃ content,
      d.1 = bootDiskPath format' ∧ d.2 content ∧
      run.dir (bootDiskPath format') = some { content := content, fresh := true }
  /-- No other file changes, but for the temporary ones. -/
  others : ∀ n, (∀ format, n ≠ .tmp format) → n ∉ disks.map Prod.fst → run.dir n = dir n
  /-- What is left under a temporary name is discarded by the next build. -/
  discarded : ∀ (fates : BuildFates δ) source format' bootSize leftover, fates.rmTmp = .done →
    writeBootDisk img fates source format' bootSize
        (Function.update run.dir (.tmp format') leftover) =
      writeBootDisk img fates source format' bootSize run.dir

theorem configured_disks_materialized {δ : Type} (img : QemuImg δ) (machine : MachineDir)
    (fates : EnsureFates δ) (bootSize : Option String) (format : BootDiskFormat)
    (sources : DiskSources δ) (extraDiskSizes : Option (List String)) (dir : Dir δ) :
    Materialized img sources.booted format (wanted img bootSize format sources extraDiskSizes dir) dir
      (ensureConfiguredDisks img machine fates bootSize format sources extraDiskSizes dir) := by
  obtain ⟨ensured, names⟩ := @ensureConfiguredDisks_ensured δ img machine fates bootSize format
    sources dir extraDiskSizes
  have path := @ensureConfiguredDisks_path δ img machine fates bootSize format sources dir
    extraDiskSizes
  generalize ensureConfiguredDisks img machine fates bootSize format sources extraDiskSizes dir = run
    at ensured names path ⊢
  have returns : ∀ {found}, run.result = .ok found → run.outcome = .ok () := fun ok => by
    rw [Run.outcome, ok]
    rfl
  refine ⟨fun yes => ?_, fun found ok => ⟨names found ok, ensured.present (returns ok)⟩,
    ensured.existing, fun format' => ?_, ensured.others, fun fates' source format' bootSize' leftover
      done => writeBootDisk_discards done⟩
  · obtain ⟨same, thrown⟩ := ensured.booted yes
    refine ⟨same, ?_⟩
    cases result : run.result with
    | ok found =>
        refine .inl ⟨found, rfl, names found result, fun d member => ?_⟩
        rw [names found result] at member
        obtain ⟨d', member', rfl⟩ := List.mem_map.mp member
        rw [← same]
        exact (ensured.present (returns result) d' member').1
    | error stop =>
        obtain ⟨e, rfl⟩ := thrown stop (by rw [Run.outcome, result]; rfl)
        exact .inr ⟨e, rfl⟩
  · by_cases own : format' = format
    · subst own
      rcases @ensureBootDisk_path δ img machine fates bootSize format' sources dir with
        same | ⟨missing, content, isWanted, built⟩
      · exact .inl (path.trans same)
      · exact .inr ⟨rfl, missing, _, List.mem_cons_self, content, rfl, isWanted, path.trans built⟩
    · refine .inl (ensured.others _ (bootDiskPath_ne_tmp format') fun member => ?_)
      rcases List.mem_cons.mp member with boot | extra
      · cases format <;> cases format' <;> first | exact own rfl | cases boot
      · exact boot_not_extra extra

end Quickchr.Disks
