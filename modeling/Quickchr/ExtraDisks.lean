import Quickchr.Disks
import Quickchr.Lib.Transition

/-!
# Extra disks through interrupted calls

An extra disk is created under its final name, and its existence is all that a later call asks for.
What a call that was stopped leaves there is therefore what the next one resolves. The runs here are
those of a machine that has not booted: calls that create its disks, each stopped anywhere, and
files that are deleted between them.
-/
namespace Quickchr.Disks
open Transition

section Create

variable {δ : Type} (img : QemuImg δ)

def createQcow2Disk (fate : WriteFate δ) (name : DiskName) (size : String) (dir : Dir δ) :
    Run δ Unit :=
  write (fun stderr => processFailed s!"qemu-img create failed: {Text.trim stderr}") fate name
    (img.create size) dir

theorem ensureExtraDisk_eq (machine : MachineDir) (fates : EnsureFates δ) (sources : DiskSources δ)
    (size : String) (i : ℕ) (dir : Dir δ) :
    ensureExtraDisk img machine fates sources size i dir =
      if (dir (.extra i)).isSome then { dir := dir, result := .ok () }
      else if sources.booted then
        { dir := dir, result := .error (.thrown (some (missingDiskError machine (.extra i)))) }
      else createQcow2Disk img (fates.create i) (.extra i) size dir := by
  unfold ensureExtraDisk
  cases dir (.extra i) <;> rfl

/-- Creates the disks from number `i` on, over what is there. -/
def prepareExtraDisks (create : ℕ → WriteFate δ) : List String → (i : ℕ) → Dir δ →
    Run δ (List DiskName)
  | [], _, dir => { dir := dir, result := .ok [] }
  | size :: sizes, i, dir =>
      (createQcow2Disk img (create i) (.extra i) size dir).andThen fun dir _ =>
        (prepareExtraDisks create sizes (i + 1) dir).andThen fun dir later =>
          { dir := dir, result := .ok (.extra i :: later) }

end Create

/-- What the record of a machine that has not booted says of its disks. -/
structure DiskConfig where
  machine : MachineDir
  bootSize : Option String
  format : BootDiskFormat
  extraDisks : Option (List String)

/-- The size configured for an extra disk, which are numbered from 1. -/
def DiskConfig.size (cfg : DiskConfig) : ℕ → Option String
  | 0 => none
  | i + 1 => (cfg.extraDisks.getD [])[i]?

inductive DiskEvent (δ : Type)
  | ensure (fates : EnsureFates δ) (factoryImage : FactoryImage δ)
  | prepare (create : ℕ → WriteFate δ)
  | deleted (gone : DiskName → Bool)

/-- The directory, and what the last `ensureConfiguredDisks` resolved, if it returned. -/
structure DiskState (δ : Type) where
  dir : Dir δ
  resolved : Option ConfiguredDisks

section Runs

variable {δ : Type} (img : QemuImg δ) (cfg : DiskConfig)

def ensureRun (fates : EnsureFates δ) (factoryImage : FactoryImage δ) (dir : Dir δ) :
    Run δ ConfiguredDisks :=
  ensureConfiguredDisks img cfg.machine fates cfg.bootSize cfg.format
    { booted := false, factoryImage := factoryImage } cfg.extraDisks dir

def DiskState.after (s : DiskState δ) : DiskEvent δ → DiskState δ
  | .ensure fates factoryImage =>
      let run := ensureRun img cfg fates factoryImage s.dir
      { dir := run.dir, resolved := run.result.toOption }
  | .prepare create =>
      { dir := (prepareExtraDisks img create (cfg.extraDisks.getD []) 1 s.dir).dir, resolved := none }
  | .deleted gone => { dir := fun n => if gone n then none else s.dir n, resolved := none }

/-- A machine has none of its extra disks at first. -/
def diskRuns : System (DiskState δ) (DiskEvent δ) where
  Initial s := s.resolved = none ∧ ∀ i, s.dir (.extra i) = none
  next s e := some (s.after img cfg e)

/-- A file that is a complete disk of the size configured for its number. -/
def Usable (dir : Dir δ) (name : DiskName) : Prop :=
  ∃ i size file, name = .extra i ∧ cfg.size i = some size ∧ dir name = some file ∧
    file.content = img.create size

/-- What was resolved last holds no extra disk that is half built. -/
def ResolvesUsable (s : DiskState δ) : Prop :=
  ∀ found, s.resolved = some found → ∀ name ∈ found.extraDisks.getD [], Usable img cfg s.dir name

/-- A step that writes a file gets done, or leaves nothing there or all of it. -/
def WriteFate.Whole (content : δ) : WriteFate δ → Prop
  | .done => True
  | .fails _ leaves => leaves = none ∨ leaves = some content
  | .killed leaves => leaves = none ∨ leaves = some content

/-- The numbers and sizes of the disks that a call creates: those not there, up to the first whose
creation does not get done. -/
def creations (fate : ℕ → WriteFate δ) (there : ℕ → Bool) : List String → (i : ℕ) → List (ℕ × String)
  | [], _ => []
  | size :: sizes, i =>
      if there i then creations fate there sizes (i + 1)
      else (i, size) :: match fate i with
        | .done => creations fate there sizes (i + 1)
        | .fails _ _ | .killed _ => []

/-- No `qemu-img create` that the event comes to leaves a part of a disk. -/
def CreatesWhole (s : DiskState δ) : DiskEvent δ → Prop
  | .ensure fates factoryImage =>
      (ensureBootDisk img cfg.machine fates cfg.bootSize cfg.format
          { booted := false, factoryImage := factoryImage } s.dir).result = .ok () →
        ∀ c ∈ creations fates.create (fun i => (s.dir (.extra i)).isSome) (cfg.extraDisks.getD []) 1,
          (fates.create c.1).Whole (img.create c.2)
  | .prepare create => ∀ c ∈ creations create (fun _ => false) (cfg.extraDisks.getD []) 1,
      (create c.1).Whole (img.create c.2)
  | .deleted _ => True

end Runs

section Whole

variable {δ : Type} {img : QemuImg δ} {cfg : DiskConfig} {dir : Dir δ}

/-- Every configured extra disk that is there is complete. -/
def WholeExtras (img : QemuImg δ) (cfg : DiskConfig) (dir : Dir δ) : Prop :=
  ∀ i size, cfg.size i = some size → ∀ file, dir (.extra i) = some file →
    file.content = img.create size

/-- The configuration has the sizes from the number `i` on. -/
def DiskConfig.HasFrom (cfg : DiskConfig) (sizes : List String) (i : ℕ) : Prop :=
  ∀ k size, sizes[k]? = some size → cfg.size (i + k) = some size

theorem DiskConfig.hasFrom_all (cfg : DiskConfig) : cfg.HasFrom (cfg.extraDisks.getD []) 1 := by
  intro k size at_
  rw [Nat.add_comm]
  exact at_

theorem DiskConfig.HasFrom.head {size : String} {sizes : List String} {i : ℕ}
    (h : cfg.HasFrom (size :: sizes) i) : cfg.size i = some size := h 0 size rfl

theorem DiskConfig.HasFrom.tail {size : String} {sizes : List String} {i : ℕ}
    (h : cfg.HasFrom (size :: sizes) i) : cfg.HasFrom sizes (i + 1) := by
  intro k size' at_
  rw [Nat.add_assoc, Nat.add_comm 1 k]
  exact h (k + 1) size' at_

theorem createQcow2Disk_others {fate : WriteFate δ} {name n : DiskName} {size : String}
    (h : n ≠ name) : (createQcow2Disk img fate name size dir).dir n = dir n := write_others h

theorem createQcow2Disk_leaves {fate : WriteFate δ} {name : DiskName} {size : String}
    (whole : fate.Whole (img.create size)) {file : DiskFile δ}
    (there : (createQcow2Disk img fate name size dir).dir name = some file) :
    file.content = img.create size := by
  have left : ∀ leaves : Option δ, (leaves = none ∨ leaves = some (img.create size)) →
      put dir name leaves name = some file → file.content = img.create size := by
    intro leaves isWhole isThere
    rw [put_self] at isThere
    rcases isWhole with rfl | rfl
    · cases isThere
    · cases isThere
      rfl
  cases fate with
  | done => exact left _ (.inr rfl) there
  | fails stderr leaves => exact left leaves whole there
  | killed leaves => exact left leaves whole there

theorem WholeExtras.create {fate : WriteFate δ} {i : ℕ} {size : String}
    (h : WholeExtras img cfg dir) (configured : cfg.size i = some size)
    (whole : fate.Whole (img.create size)) :
    WholeExtras img cfg (createQcow2Disk img fate (.extra i) size dir).dir := by
  intro k size' isSize file there
  by_cases same : k = i
  · subst same
    rw [configured] at isSize
    cases isSize
    exact createQcow2Disk_leaves whole there
  · rw [createQcow2Disk_others fun eq => same (DiskName.extra.inj eq)] at there
    exact h k size' isSize file there

theorem WholeExtras.congr {after : Dir δ} (h : WholeExtras img cfg dir)
    (same : ∀ i, after (.extra i) = dir (.extra i)) : WholeExtras img cfg after := by
  intro i size isSize file there
  exact h i size isSize file (same i ▸ there)

theorem createQcow2Disk_done {fate : WriteFate δ} {name : DiskName} {size : String}
    (ok : (createQcow2Disk img fate name size dir).result = .ok ()) : fate = .done := by
  cases fate with
  | done => rfl
  | fails | killed => cases ok

theorem creations_next {fate : ℕ → WriteFate δ} {there : ℕ → Bool} {size : String} {sizes : List String}
    {i : ℕ} (missing : there i = false) :
    (i, size) ∈ creations fate there (size :: sizes) i ∧
      (fate i = .done → ∀ c ∈ creations fate there sizes (i + 1), c ∈ creations fate there (size :: sizes) i) := by
  constructor
  · simp [creations, missing]
  · intro done c member
    simp only [creations, missing, done]
    exact List.mem_cons_of_mem _ member

theorem WholeExtras.prepare {create : ℕ → WriteFate δ} {sizes : List String} {i : ℕ}
    (h : WholeExtras img cfg dir) (has : cfg.HasFrom sizes i)
    (whole : ∀ c ∈ creations create (fun _ => false) sizes i, (create c.1).Whole (img.create c.2)) :
    WholeExtras img cfg (prepareExtraDisks img create sizes i dir).dir := by
  induction sizes generalizing i dir with
  | nil => exact h
  | cons size sizes ih =>
      obtain ⟨head, tail⟩ := @creations_next δ create (fun _ => false) size sizes i rfl
      have first : WholeExtras img cfg (createQcow2Disk img (create i) (.extra i) size dir).dir :=
        h.create has.head (whole _ head)
      unfold prepareExtraDisks
      rcases Run.andThen_cases (createQcow2Disk img (create i) (.extra i) size dir) _ with
        ⟨stop, -, eq⟩ | ⟨⟨⟩, ok, eq⟩
      · rw [eq]
        exact first
      · rw [eq]
        have later := ih first has.tail fun c member =>
          whole c (tail (createQcow2Disk_done ok) c member)
        rcases Run.andThen_cases (prepareExtraDisks img create sizes (i + 1)
          (createQcow2Disk img (create i) (.extra i) size dir).dir) _ with
          ⟨stop, -, eq⟩ | ⟨names, -, eq⟩
        · rw [eq]
          exact later
        · rw [eq]
          exact later

end Whole

section Ensure

variable {δ : Type} {img : QemuImg δ} {cfg : DiskConfig} {machine : MachineDir}
  {fates : EnsureFates δ} {sources : DiskSources δ} {dir : Dir δ}

theorem ensureExtraDisk_others {size : String} {i k : ℕ} (h : k ≠ i) :
    (ensureExtraDisk img machine fates sources size i dir).dir (.extra k) = dir (.extra k) := by
  rw [ensureExtraDisk_eq]
  split
  · rfl
  · split
    · rfl
    · exact createQcow2Disk_others fun eq => h (DiskName.extra.inj eq)

theorem WholeExtras.ensureExtraDisk {size : String} {i : ℕ} (h : WholeExtras img cfg dir)
    (configured : cfg.size i = some size)
    (whole : dir (.extra i) = none → (fates.create i).Whole (img.create size)) :
    WholeExtras img cfg (ensureExtraDisk img machine fates sources size i dir).dir := by
  rw [ensureExtraDisk_eq]
  split
  · exact h
  · rename_i missing
    split
    · exact h
    · exact h.create configured (whole (Option.not_isSome_iff_eq_none.mp missing))

/-- The creations of a call are those of its first disk, if it is not there, and of the rest, once that
one is. -/
theorem creations_ensured {there : ℕ → Bool} {size : String} {sizes : List String} {i : ℕ}
    (same : (dir (.extra i)).isSome = there i) :
    (dir (.extra i) = none → (i, size) ∈ creations fates.create there (size :: sizes) i) ∧
      ((Disks.ensureExtraDisk img machine fates sources size i dir).result = .ok () →
        ∀ c ∈ creations fates.create there sizes (i + 1),
          c ∈ creations fates.create there (size :: sizes) i) := by
  rcases isThere : there i with _ | _
  · obtain ⟨head, tail⟩ := @creations_next δ fates.create there size sizes i isThere
    refine ⟨fun _ => head, fun ok => tail ?_⟩
    rw [ensureExtraDisk_eq, same, isThere, if_neg Bool.false_ne_true] at ok
    split at ok
    · cases ok
    · exact createQcow2Disk_done ok
  · refine ⟨fun missing => ?_, fun _ c member => ?_⟩
    · rw [missing, isThere] at same
      cases same
    · unfold creations
      rwa [if_pos isThere]

/-- The disks still to come are as they were, so what is asked of their creation still holds. -/
theorem WholeExtras.ensureExtraDisks {there : ℕ → Bool} {sizes : List String} {i : ℕ}
    (h : WholeExtras img cfg dir) (has : cfg.HasFrom sizes i)
    (same : ∀ k, i ≤ k → (dir (.extra k)).isSome = there k)
    (whole : ∀ c ∈ creations fates.create there sizes i, (fates.create c.1).Whole (img.create c.2)) :
    WholeExtras img cfg (ensureExtraDisks img machine fates sources sizes i dir).dir := by
  induction sizes generalizing i dir with
  | nil => exact h
  | cons size sizes ih =>
      obtain ⟨head, tail⟩ := @creations_ensured δ img machine fates sources dir there size sizes i
        (same i (Nat.le_refl i))
      have first : WholeExtras img cfg
          (Disks.ensureExtraDisk img machine fates sources size i dir).dir :=
        h.ensureExtraDisk has.head fun missing => whole _ (head missing)
      unfold Disks.ensureExtraDisks
      rcases Run.andThen_cases (Disks.ensureExtraDisk img machine fates sources size i dir) _ with
        ⟨stop, -, eq⟩ | ⟨⟨⟩, ok, eq⟩
      · rw [eq]
        exact first
      · rw [eq]
        have later := @ih (Disks.ensureExtraDisk img machine fates sources size i dir).dir (i + 1)
          first has.tail
          (fun k le => by rw [ensureExtraDisk_others (by omega)]; exact same k (by omega))
          fun c member => whole c (tail ok c member)
        rcases Run.andThen_cases (Disks.ensureExtraDisks img machine fates sources sizes (i + 1)
          (Disks.ensureExtraDisk img machine fates sources size i dir).dir) _ with
          ⟨stop, -, eq⟩ | ⟨names, -, eq⟩
        · rw [eq]
          exact later
        · rw [eq]
          exact later

theorem ensureBootDisk_extra {bootSize : Option String} {format : BootDiskFormat} (i : ℕ) :
    (ensureBootDisk img machine fates bootSize format sources dir).dir (.extra i) =
      dir (.extra i) := by
  refine (@ensureBootDisk_ensured δ img machine fates bootSize format sources dir).others (.extra i)
    (fun _ isTmp => by cases isTmp) fun isBoot => ?_
  exact bootDiskPath_ne_extra format i (List.mem_singleton.mp isBoot).symm

theorem WholeExtras.ensureRun {factoryImage : FactoryImage δ} (h : WholeExtras img cfg dir)
    (whole : CreatesWhole img cfg { dir := dir, resolved := none } (.ensure fates factoryImage)) :
    WholeExtras img cfg (ensureRun img cfg fates factoryImage dir).dir := by
  unfold CreatesWhole at whole
  dsimp only at whole
  unfold Disks.ensureRun ensureConfiguredDisks
  generalize ({ booted := false, factoryImage := factoryImage } : DiskSources δ) = sources at whole ⊢
  have kept := @ensureBootDisk_extra δ img cfg.machine fates sources dir cfg.bootSize cfg.format
  rcases Run.andThen_cases (ensureBootDisk img cfg.machine fates cfg.bootSize cfg.format sources dir)
    _ with ⟨stop, -, eq⟩ | ⟨⟨⟩, ok, eq⟩
  · rw [eq]
    exact h.congr kept
  rw [eq]
  have whole := whole ok
  generalize (ensureBootDisk img cfg.machine fates cfg.bootSize cfg.format sources dir).dir = booted
    at kept ⊢
  have afterBoot : WholeExtras img cfg booted := h.congr kept
  have has : ∀ sizes, cfg.extraDisks = some sizes → cfg.HasFrom sizes 1 := fun sizes given => by
    have all := cfg.hasFrom_all
    rwa [given] at all
  rcases given : cfg.extraDisks with _ | _ | ⟨size, sizes⟩
  · exact afterBoot
  · exact afterBoot
  · have extras := @WholeExtras.ensureExtraDisks δ img cfg cfg.machine fates sources booted
      (fun i => (dir (.extra i)).isSome) (size :: sizes) 1 afterBoot (has _ given)
      (fun k _ => by rw [kept k]) (by rwa [given] at whole)
    dsimp only
    rcases Run.andThen_cases (Disks.ensureExtraDisks img cfg.machine fates sources (size :: sizes) 1
      booted) _ with ⟨stop, -, eq⟩ | ⟨names, -, eq⟩
    · rw [eq]
      exact extras
    · rw [eq]
      exact extras

theorem number_of_wantedExtras_from {sizes : List String} {i : ℕ} {name : DiskName}
    (has : cfg.HasFrom sizes i) (h : name ∈ (wantedExtras img sizes i).map Prod.fst) :
    ∃ k size, name = .extra k ∧ cfg.size k = some size := by
  induction sizes generalizing i with
  | nil => cases h
  | cons size sizes ih =>
      rcases List.mem_cons.mp h with rfl | later
      · exact ⟨i, size, rfl, has.head⟩
      · exact ih has.tail later

/-- What a call resolves is there, under the numbers of the configuration. -/
theorem ensureRun_resolves {factoryImage : FactoryImage δ} {found : ConfiguredDisks}
    (ok : (ensureRun img cfg fates factoryImage dir).result = .ok found) {name : DiskName}
    (member : name ∈ found.extraDisks.getD []) :
    ∃ i size file, name = .extra i ∧ cfg.size i = some size ∧
      (ensureRun img cfg fates factoryImage dir).dir name = some file := by
  obtain ⟨names, present⟩ := (configured_disks_materialized img cfg.machine fates cfg.bootSize
    cfg.format { booted := false, factoryImage := factoryImage } cfg.extraDisks dir).present found ok
  have isExtra : name ∈ (wantedExtras img (cfg.extraDisks.getD []) 1).map Prod.fst := by
    have all : found.extraDisks.getD [] = (wantedExtras img (cfg.extraDisks.getD []) 1).map Prod.fst :=
      (List.cons.inj names).2
    rw [← all]
    exact member
  obtain ⟨d, wantedExtra, rfl⟩ := List.mem_map.mp isExtra
  obtain ⟨i, size, eq, isSize⟩ := number_of_wantedExtras_from cfg.hasFrom_all isExtra
  obtain ⟨file, there⟩ := Option.ne_none_iff_exists'.mp
    (present d (List.mem_cons_of_mem _ wantedExtra)).1
  exact ⟨i, size, file, eq, isSize, there⟩

end Ensure

section Runs

variable {δ : Type} {img : QemuImg δ} {cfg : DiskConfig}

theorem WholeExtras.after {s : DiskState δ} {e : DiskEvent δ} (h : WholeExtras img cfg s.dir)
    (whole : CreatesWhole img cfg s e) : WholeExtras img cfg (s.after img cfg e).dir := by
  cases e with
  | ensure fates factoryImage => exact h.ensureRun whole
  | prepare create => exact h.prepare cfg.hasFrom_all whole
  | deleted gone =>
      intro i size isSize file there
      obtain ⟨-, kept⟩ := Option.ite_none_left_eq_some.mp there
      exact h i size isSize file kept

theorem ResolvesUsable.after {s : DiskState δ} {e : DiskEvent δ}
    (whole : WholeExtras img cfg (s.after img cfg e).dir) :
    ResolvesUsable img cfg (s.after img cfg e) := by
  intro found resolved name member
  cases e with
  | ensure fates factoryImage =>
      have ok : (ensureRun img cfg fates factoryImage s.dir).result = .ok found := by
        cases result : (ensureRun img cfg fates factoryImage s.dir).result with
        | error stop =>
            simp only [DiskState.after, result, Except.toOption] at resolved
            cases resolved
        | ok found' =>
            simp only [DiskState.after, result, Except.toOption] at resolved
            cases resolved
            rfl
      obtain ⟨i, size, file, rfl, isSize, there⟩ := ensureRun_resolves ok member
      exact ⟨i, size, file, rfl, isSize, there, whole i size isSize file there⟩
  | prepare create => cases resolved
  | deleted gone => cases resolved

theorem wholeExtras_reachable {s : DiskState δ}
    (h : (diskRuns img cfg).ReachableUnder (CreatesWhole img cfg) s) :
    WholeExtras img cfg s.dir := by
  refine System.ReachableUnder.invariant (I := fun s => WholeExtras img cfg s.dir) ?_ ?_ h
  · rintro s ⟨-, none⟩ i size - file there
    rw [none i] at there
    cases there
  · rintro s e t - whole creates next
    cases next
    exact whole.after creates

/-- While no creation leaves a part of a disk, no call resolves one. -/
theorem extra_disks_whole {s : DiskState δ}
    (h : (diskRuns img cfg).ReachableUnder (CreatesWhole img cfg) s) : ResolvesUsable img cfg s := by
  cases h with
  | initial start =>
      intro found resolved
      rw [start.1] at resolved
      cases resolved
  | step before creates next =>
      cases next
      exact ResolvesUsable.after ((wholeExtras_reachable before).after creates)

end Runs

/-- Disks of which only their completeness is told. -/
def completeness : QemuImg Bool where
  convert := id
  resize _ := id
  create _ := true

def oneExtraDisk : DiskConfig where
  machine := { path := "machines/r1", basename := "r1" }
  bootSize := none
  format := .raw
  extraDisks := some ["1G"]

/-- A call in which `qemu-img create` comes to `fate`, and all else gets done. -/
def ensuring (fate : WriteFate Bool) : DiskEvent Bool :=
  .ensure
    { build :=
        { rmTmp := .done, copy := .done, resize := .done, info := .info "qcow2" none
          rename := .done, rmTmpAfter := .done }
      create := fun _ => fate }
    (.image true)

def newMachine : DiskState Bool where
  dir _ := none
  resolved := none

/-- A call in which the creation comes to `fate`, then one in which all gets done. -/
def retriedAfter (fate : WriteFate Bool) : DiskState Bool :=
  (newMachine.after completeness oneExtraDisk (ensuring fate)).after completeness oneExtraDisk
    (ensuring .done)

theorem retriedAfter_reachable {fate : WriteFate Bool}
    {G : DiskState Bool → DiskEvent Bool → Prop} (first : G newMachine (ensuring fate))
    (second : ∀ s, G s (ensuring .done)) :
    (diskRuns completeness oneExtraDisk).ReachableUnder G (retriedAfter fate) :=
  .step (.step (.initial ⟨rfl, fun _ => rfl⟩) first rfl) (second _) rfl

theorem extra_disks_whole_retried :
    (retriedAfter (.fails "No space left on device" none)).resolved =
        some { bootDisk := .diskImg, extraDisks := some [.extra 1] } ∧
      ResolvesUsable completeness oneExtraDisk
        (retriedAfter (.fails "No space left on device" none)) :=
  ⟨rfl, extra_disks_whole (retriedAfter_reachable (fun _ _ _ => .inl rfl) fun _ _ _ _ => trivial)⟩

/-- `qemu-img` is killed over a part of a disk, which the next call takes for the disk. -/
theorem extra_disks_whole_fails : ¬ ∀ (cfg : DiskConfig) (s : DiskState Bool),
    (diskRuns completeness cfg).Reachable s → ResolvesUsable completeness cfg s := by
  intro claim
  obtain ⟨i, size, file, eq, -, there, isWhole⟩ := claim oneExtraDisk
    (retriedAfter (.killed (some false))) (retriedAfter_reachable trivial fun _ => trivial) _ rfl
    (.extra 1) List.mem_cons_self
  cases eq
  have half : (retriedAfter (.killed (some false))).dir (.extra 1) =
      some { content := false, fresh := true } := rfl
  rw [half] at there
  cases there
  cases isWhole

end Quickchr.Disks
