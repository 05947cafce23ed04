import Quickchr.Disks

/-!
# Factory reset

A reset deletes the disks it finds, builds the boot disk from the cached image and ensures the
configured disks. The deletion counts up to the first number that is missing, and at most to 64.
-/
namespace Quickchr.Disks

section Reset

variable {δ : Type}

/-- A directory with what it held before the call. -/
def before (old : DiskName → Option δ) : Dir δ := fun n =>
  (old n).map fun content => { content := content, fresh := false }

/-- An `unlinkSync` whose error is ignored. -/
def unlinkIfPossible (unlinks : DiskName → Bool) (name : DiskName) (dir : Dir δ) : Dir δ :=
  if unlinks name then put dir name none else dir

/-- The extra disks from number `i` on, with `left` numbers to go. -/
def cleanExtraDisks (unlinks : DiskName → Bool) : (left i : ℕ) → Dir δ → Dir δ
  | 0, _, dir => dir
  | left + 1, i, dir =>
      if (dir (.extra i)).isNone then dir
      else cleanExtraDisks unlinks left (i + 1) (unlinkIfPossible unlinks (.extra i) dir)

def cleanDiskFiles (unlinks : DiskName → Bool) (dir : Dir δ) : Dir δ :=
  cleanExtraDisks unlinks 64 1
    (if (dir .bootQcow2).isSome then unlinkIfPossible unlinks .bootQcow2 dir else dir)

structure ResetFates (δ : Type) where
  unlinks : DiskName → Bool
  build : BuildFates δ
  rmDiskImg : Fate
  ensure : EnsureFates δ
  deleteInstanceCredentials : Fate
  rmSsh : Fate

/-- What of a machine's record a reset reads. -/
structure ResetState where
  version : String
  arch : String
  machineDir : MachineDir
  bootDiskFormat : Option BootDiskFormat
  bootSize : Option String
  extraDisks : Option (List String)

def ResetState.format (state : ResetState) : BootDiskFormat :=
  bootDiskFormatOf state.bootDiskFormat state.bootSize

/-- A step on something other than the disks. -/
def elsewhere (fate : Fate) (dir : Dir δ) : Run δ Unit :=
  match fate with
  | .done => { dir := dir, result := .ok () }
  | .fails => { dir := dir, result := .error (.thrown none) }
  | .killed => { dir := dir, result := .error .killed }

/-- `cachedImage` is the content of the cached image, if there is one. -/
def resetGuestToFactory (img : QemuImg δ) (fates : ResetFates δ) (state : ResetState)
    (cacheDir : String) (cachedImage : Option δ) (dir : Dir δ) : Run δ Unit :=
  match cachedImage with
  | none =>
      let arm := if state.arch = "arm64" then "-arm64" else ""
      { dir := dir
        result := .error (.thrown (some
          { code := .MACHINE_NOT_FOUND
            message := s!"Cached image not found: {cacheDir}/chr-{state.version}{arm}.img" })) }
  | some image =>
      (writeBootDisk img fates.build image state.format state.bootSize
        (cleanDiskFiles fates.unlinks dir)).andThen fun dir _ =>
      (if state.format = .qcow2 then rm fates.rmDiskImg .diskImg dir
        else { dir := dir, result := .ok () }).andThen fun dir _ =>
      (ensureConfiguredDisks img state.machineDir fates.ensure state.bootSize state.format
        { booted := false, factoryImage := .none } state.extraDisks dir).andThen fun dir _ =>
      (elsewhere fates.deleteInstanceCredentials dir).andThen fun dir _ =>
      elsewhere fates.rmSsh dir

end Reset

section Clean

variable {δ : Type} {unlinks : DiskName → Bool} {dir : Dir δ}

theorem unlinkIfPossible_others {name n : DiskName} (h : n ≠ name) :
    unlinkIfPossible unlinks name dir n = dir n := by
  unfold unlinkIfPossible
  split
  · exact put_of_ne h
  · rfl

/-- From number `i` on, `left` numbers to go, the deletion gets to number `k` and removes it. -/
structure Removed (unlinks : DiskName → Bool) (dir : Dir δ) (left i k : ℕ) : Prop where
  from_ : i ≤ k
  inReach : k < i + left
  noGap : ∀ j, i ≤ j → j ≤ k → dir (.extra j) ≠ none
  unlinked : unlinks (.extra k) = true

theorem cleanExtraDisks_extra (left i k : ℕ) (dir : Dir δ) :
    (Removed unlinks dir left i k → cleanExtraDisks unlinks left i dir (.extra k) = none) ∧
      (¬ Removed unlinks dir left i k →
        cleanExtraDisks unlinks left i dir (.extra k) = dir (.extra k)) := by
  induction left generalizing i dir with
  | zero => exact ⟨fun h => absurd h.inReach (by have := h.from_; omega), fun _ => rfl⟩
  | succ left ih =>
      unfold cleanExtraDisks
      split
      · rename_i gap
        refine ⟨fun h => absurd (Option.isNone_iff_eq_none.mp gap) (h.noGap i (Nat.le_refl i) h.from_),
          fun _ => rfl⟩
      · rename_i present
        rw [Option.isNone_iff_eq_none] at present
        obtain ⟨removes, keeps⟩ := ih (i + 1) (unlinkIfPossible unlinks (.extra i) dir)
        have later : ∀ j, i + 1 ≤ j →
            unlinkIfPossible unlinks (.extra i) dir (.extra j) = dir (.extra j) := fun j after =>
          unlinkIfPossible_others fun same => by cases same; omega
        rcases Nat.lt_trichotomy k i with early | rfl | late
        · have out : ¬ Removed unlinks (unlinkIfPossible unlinks (.extra i) dir) left (i + 1) k :=
            fun h => by have := h.from_; omega
          refine ⟨fun h => by have := h.from_; omega, fun _ => ?_⟩
          rw [keeps out, unlinkIfPossible_others fun same => by cases same; omega]
        · have out : ¬ Removed unlinks (unlinkIfPossible unlinks (.extra k) dir) left (k + 1) k :=
            fun h => by have := h.from_; omega
          rw [keeps out, unlinkIfPossible]
          constructor
          · intro h
            rw [if_pos h.unlinked]
            exact put_self
          · intro h
            rw [if_neg]
            exact fun unlinked => h ⟨Nat.le_refl k, by omega, fun j above below => by
              rw [Nat.le_antisymm below above]
              exact present, unlinked⟩
        · have same : Removed unlinks (unlinkIfPossible unlinks (.extra i) dir) left (i + 1) k ↔
              Removed unlinks dir (left + 1) i k := by
            constructor
            · intro h
              refine ⟨by omega, by have := h.inReach; omega, fun j above below => ?_, h.unlinked⟩
              rcases Nat.eq_or_lt_of_le above with rfl | after
              · exact present
              · rw [← later j after]
                exact h.noGap j after below
            · intro h
              refine ⟨late, by have := h.inReach; omega, fun j above below => ?_, h.unlinked⟩
              rw [later j above]
              exact h.noGap j (by omega) below
          exact ⟨fun h => removes (same.mpr h), fun h =>
            (keeps fun h' => h (same.mp h')).trans (later k late)⟩

end Clean

section Attached

variable {δ : Type} {img : QemuImg δ} {machine : MachineDir} {bootSize : Option String}
  {format : BootDiskFormat} {sources : DiskSources δ} {dir : Dir δ}

theorem wantedExtras_of_number {sizes : List String} {i k : ℕ} (from_ : i ≤ k)
    (inReach : k < i + sizes.length) : ∃ d ∈ wantedExtras img sizes i, d.1 = .extra k := by
  induction sizes generalizing i with
  | nil => exact absurd inReach (by rw [List.length_nil]; omega)
  | cons size sizes ih =>
      rcases Nat.eq_or_lt_of_le from_ with rfl | later
      · exact ⟨_, List.mem_cons_self, rfl⟩
      · rw [List.length_cons] at inReach
        obtain ⟨d, member, eq⟩ := ih later (by omega)
        exact ⟨d, List.mem_cons_of_mem _ member, eq⟩

theorem number_of_wantedExtras {sizes : List String} {i : ℕ} {d : Wanted δ}
    (h : d ∈ wantedExtras img sizes i) : ∃ k, i ≤ k ∧ k < i + sizes.length ∧ d.1 = .extra k := by
  induction sizes generalizing i with
  | nil => cases h
  | cons size sizes ih =>
      rw [List.length_cons]
      rcases List.mem_cons.mp h with rfl | later
      · exact ⟨i, Nat.le_refl i, by omega, rfl⟩
      · obtain ⟨k, le, lt, eq⟩ := ih later
        exact ⟨k, by omega, by omega, eq⟩

theorem ensureExtraDisks_present (fates : EnsureFates δ) {sizes : List String} {i : ℕ}
    (present : ∀ d ∈ wantedExtras img sizes i, dir d.1 ≠ none) :
    ensureExtraDisks img machine fates sources sizes i dir =
      { dir := dir, result := .ok ((wantedExtras img sizes i).map Prod.fst) } := by
  induction sizes generalizing i with
  | nil => rfl
  | cons size sizes ih =>
      obtain ⟨first, others⟩ := List.forall_mem_cons.mp present
      obtain ⟨file, there⟩ := Option.ne_none_iff_exists'.mp first
      simp only [ensureExtraDisks, ensureExtraDisk, there, Run.andThen, ih others]
      rfl

theorem ensureConfiguredDisks_present (fates : EnsureFates δ) {extraDiskSizes : Option (List String)}
    (present : ∀ d ∈ wanted img bootSize format sources extraDiskSizes dir, dir d.1 ≠ none) :
    ∃ found, ensureConfiguredDisks img machine fates bootSize format sources extraDiskSizes dir =
        { dir := dir, result := .ok found } ∧
      found.all = (wanted img bootSize format sources extraDiskSizes dir).map Prod.fst := by
  obtain ⟨boot, extras⟩ := List.forall_mem_cons.mp present
  obtain ⟨file, there⟩ := Option.ne_none_iff_exists'.mp boot
  have there : dir (bootDiskPath format) = some file := there
  cases extraDiskSizes with
  | none =>
      refine ⟨{ bootDisk := bootDiskPath format, extraDisks := none }, ?_, rfl⟩
      simp only [ensureConfiguredDisks, ensureBootDisk, there, Run.andThen]
  | some sizes =>
      cases sizes with
      | nil =>
          refine ⟨{ bootDisk := bootDiskPath format, extraDisks := none }, ?_, rfl⟩
          simp only [ensureConfiguredDisks, ensureBootDisk, there, Run.andThen]
      | cons size sizes =>
          refine ⟨{ bootDisk := bootDiskPath format
                    extraDisks := some ((wantedExtras img (size :: sizes) 1).map Prod.fst) }, ?_, rfl⟩
          simp only [ensureConfiguredDisks, ensureBootDisk, there, Run.andThen]
          have extras : ∀ d ∈ wantedExtras img (size :: sizes) 1, dir d.1 ≠ none := extras
          rw [ensureExtraDisks_present fates extras]

end Attached

section Reset

variable {δ : Type} {img : QemuImg δ} {fates : ResetFates δ} {state : ResetState}
  {cacheDir : String} {cachedImage : Option δ} {old : DiskName → Option δ}

theorem elsewhere_dir {fate : Fate} {dir : Dir δ} : (elsewhere fate dir).dir = dir := by
  cases fate <;> rfl

theorem cleanDiskFiles_extra {dir : Dir δ} (k : ℕ) :
    (Removed fates.unlinks dir 64 1 k → cleanDiskFiles fates.unlinks dir (.extra k) = none) ∧
      (¬ Removed fates.unlinks dir 64 1 k →
        cleanDiskFiles fates.unlinks dir (.extra k) = dir (.extra k)) := by
  have kept : ∀ j, (if (dir .bootQcow2).isSome then unlinkIfPossible fates.unlinks .bootQcow2 dir
      else dir) (.extra j) = dir (.extra j) := by
    intro j
    split
    · exact unlinkIfPossible_others fun same => by cases same
    · rfl
  obtain ⟨removes, keeps⟩ := @cleanExtraDisks_extra δ fates.unlinks 64 1 k
    (if (dir .bootQcow2).isSome then unlinkIfPossible fates.unlinks .bootQcow2 dir else dir)
  have same : Removed fates.unlinks (if (dir .bootQcow2).isSome then
      unlinkIfPossible fates.unlinks .bootQcow2 dir else dir) 64 1 k ↔
        Removed fates.unlinks dir 64 1 k := by
    constructor
    · exact fun h => ⟨h.from_, h.inReach, fun j above below => by
        rw [← kept j]
        exact h.noGap j above below, h.unlinked⟩
    · exact fun h => ⟨h.from_, h.inReach, fun j above below => by
        rw [kept j]
        exact h.noGap j above below, h.unlinked⟩
  exact ⟨fun h => removes (same.mpr h), fun h => (keeps fun h' => h (same.mp h')).trans (kept k)⟩

/-- After a reset that returns, the boot disk is a new one, and of the extra disks those that it had
deleted or that were missing. -/
theorem resetGuestToFactory_after
    (returns : (resetGuestToFactory img fates state cacheDir cachedImage (before old)).result =
      .ok ()) :
    (∃ content, (resetGuestToFactory img fates state cacheDir cachedImage (before old)).dir
        (bootDiskPath state.format) = some { content := content, fresh := true }) ∧
      ∀ d ∈ wantedExtras img (state.extraDisks.getD []) 1,
        (resetGuestToFactory img fates state cacheDir cachedImage (before old)).dir d.1 ≠ none ∧
        ((cleanDiskFiles fates.unlinks (before old) d.1 = none → ∃ content,
            (resetGuestToFactory img fates state cacheDir cachedImage (before old)).dir d.1 =
              some { content := content, fresh := true }) ∧
          (cleanDiskFiles fates.unlinks (before old) d.1 ≠ none →
            (resetGuestToFactory img fates state cacheDir cachedImage (before old)).dir d.1 =
              cleanDiskFiles fates.unlinks (before old) d.1)) := by
  unfold resetGuestToFactory at returns ⊢
  cases cachedImage with
  | none => cases returns
  | some image =>
      dsimp only at returns ⊢
      have built := @writeBootDisk_built δ img fates.build image state.format state.bootSize
        (cleanDiskFiles fates.unlinks (before old))
      obtain ⟨⟨⟩, wrote, eq⟩ := Run.andThen_ok returns
      rw [eq] at returns ⊢
      have newBoot := built.done wrote
      have extrasKept : ∀ k, (writeBootDisk img fates.build image state.format state.bootSize
          (cleanDiskFiles fates.unlinks (before old))).dir (.extra k) =
            cleanDiskFiles fates.unlinks (before old) (.extra k) := fun k =>
        built.others _ (bootDiskPath_ne_extra _ k).symm fun isTmp => by cases isTmp
      generalize (writeBootDisk img fates.build image state.format state.bootSize
        (cleanDiskFiles fates.unlinks (before old))).dir = dir₁ at returns newBoot extrasKept ⊢
      -- the raw copy of a legacy machine goes
      obtain ⟨⟨⟩, -, eq⟩ := Run.andThen_ok returns
      rw [eq] at returns ⊢
      have dropped : ∀ n, n = bootDiskPath state.format ∨ (∃ k, n = .extra k) →
          (if state.format = .qcow2 then rm fates.rmDiskImg .diskImg dir₁
            else { dir := dir₁, result := .ok () } : Run δ Unit).dir n = dir₁ n := by
        intro n isDisk
        split
        · rename_i qcow2
          refine rm_others fun isRaw => ?_
          rw [isRaw, qcow2] at isDisk
          rcases isDisk with boot | ⟨k, extra⟩
          · cases boot
          · cases extra
        · rfl
      generalize (if state.format = .qcow2 then rm fates.rmDiskImg .diskImg dir₁
        else { dir := dir₁, result := .ok () } : Run δ Unit).dir = dir₂ at returns dropped ⊢
      obtain ⟨found, ok, eq⟩ := Run.andThen_ok returns
      rw [eq] at returns ⊢
      obtain ⟨⟨⟩, -, eq⟩ := Run.andThen_ok returns
      rw [eq, elsewhere_dir, elsewhere_dir]
      obtain ⟨ensured, -⟩ := @ensureConfiguredDisks_ensured δ img state.machineDir fates.ensure
        state.bootSize state.format { booted := false, factoryImage := .none } dir₂ state.extraDisks
      have present := ensured.present (by rw [Run.outcome, ok]; rfl)
      have bootThere : dir₂ (bootDiskPath state.format) = dir₁ (bootDiskPath state.format) :=
        dropped _ (.inl rfl)
      refine ⟨⟨_, (ensured.existing _ (bootDiskPath_ne_tmp _) ?_).trans (bootThere.trans newBoot)⟩,
        fun d member => ?_⟩
      · rw [bootThere, newBoot]
        exact Option.some_ne_none _
      · obtain ⟨k, -, isExtra⟩ := mem_wantedExtras member
        have same : dir₂ d.1 = cleanDiskFiles fates.unlinks (before old) d.1 := by
          rw [isExtra]
          exact (dropped _ (.inr ⟨k, rfl⟩)).trans (extrasKept k)
        obtain ⟨there, new⟩ := present d (List.mem_cons_of_mem _ member)
        rw [← same]
        refine ⟨there, fun missing => ?_, fun kept => ?_⟩
        · obtain ⟨content, -, eq⟩ := new missing
          exact ⟨content, eq⟩
        · exact ensured.existing _ (fun format isTmp => by rw [isExtra] at isTmp; cases isTmp) kept

/-- Given that a reset returns, the disks that are resolved after it were all created by it if and
only if each configured extra disk that was there had a number up to 64 and no gap before it, and
could be deleted. -/
theorem reset_fresh_iff
    (returns : (resetGuestToFactory img fates state cacheDir cachedImage (before old)).result =
      .ok ()) (fates' : EnsureFates δ) (sources : DiskSources δ) :
    (∀ found, (ensureConfiguredDisks img state.machineDir fates' state.bootSize state.format sources
          state.extraDisks (resetGuestToFactory img fates state cacheDir cachedImage
            (before old)).dir).result = .ok found →
        ∀ d ∈ found.all, ∃ content, (ensureConfiguredDisks img state.machineDir fates' state.bootSize
          state.format sources state.extraDisks (resetGuestToFactory img fates state cacheDir
            cachedImage (before old)).dir).dir d = some { content := content, fresh := true }) ↔
      ∀ k, 1 ≤ k → k ≤ (state.extraDisks.getD []).length → old (.extra k) ≠ none →
        k ≤ 64 ∧ (∀ j, 1 ≤ j → j ≤ k → old (.extra j) ≠ none) ∧ fates.unlinks (.extra k) := by
  obtain ⟨boot, extras⟩ := resetGuestToFactory_after returns
  generalize (resetGuestToFactory img fates state cacheDir cachedImage (before old)).dir = after
    at boot extras ⊢
  obtain ⟨found, resolves, names⟩ := @ensureConfiguredDisks_present δ img state.machineDir
    state.bootSize state.format sources after fates' state.extraDisks (by
      intro d member
      rcases List.mem_cons.mp member with rfl | extra
      · obtain ⟨content, eq⟩ := boot
        exact fun missing => Option.some_ne_none _ (eq.symm.trans missing)
      · exact (extras d extra).1)
  have oldThere : ∀ k, before old (.extra k) ≠ none ↔ old (.extra k) ≠ none := fun k =>
    not_congr Option.map_eq_none_iff
  have removed : ∀ k, 1 ≤ k → (Removed fates.unlinks (before old) 64 1 k ↔ k ≤ 64 ∧
      (∀ j, 1 ≤ j → j ≤ k → old (.extra j) ≠ none) ∧ fates.unlinks (.extra k)) := by
    intro k positive
    constructor
    · intro h
      exact ⟨by have := h.inReach; omega, fun j above below => (oldThere j).mp (h.noGap j above below),
        h.unlinked⟩
    · rintro ⟨small, noGap, unlinked⟩
      exact ⟨positive, by omega, fun j above below => (oldThere j).mpr (noGap j above below), unlinked⟩
  rw [resolves]
  constructor
  · intro fresh k positive inReach there
    rw [← removed k positive]
    by_contra kept
    obtain ⟨d, member, isExtra⟩ := @wantedExtras_of_number δ img (state.extraDisks.getD []) 1 k
      positive (by omega)
    have inFound : d.1 ∈ found.all := by
      rw [names]
      exact List.mem_map_of_mem (List.mem_cons_of_mem _ member)
    obtain ⟨content, new⟩ := fresh found rfl d.1 inFound
    have stays := (cleanDiskFiles_extra k).2 kept
    obtain ⟨-, -, unchanged⟩ := extras d member
    rw [isExtra, stays] at unchanged
    have same := (unchanged ((oldThere k).mpr there)).symm.trans (isExtra ▸ new)
    obtain ⟨file, -, eq⟩ := Option.map_eq_some_iff.mp same
    cases eq
  · intro condition found' ok d member
    cases ok
    rw [names] at member
    rcases List.mem_cons.mp member with rfl | extra
    · exact boot
    · obtain ⟨w, wanted, rfl⟩ := List.mem_map.mp extra
      obtain ⟨k, positive, inReach, isExtra⟩ := number_of_wantedExtras wanted
      obtain ⟨-, new, -⟩ := extras w wanted
      refine new ?_
      rw [isExtra]
      by_cases there : old (.extra k) = none
      · have out : ¬ Removed fates.unlinks (before old) 64 1 k := fun h =>
          (oldThere k).mp (h.noGap k positive (Nat.le_refl k)) there
        rw [(cleanDiskFiles_extra k).2 out, before, there]
        rfl
      · exact (cleanDiskFiles_extra k).1 ((removed k positive).mpr
          (condition k positive (by omega) there))

end Reset

def smooth : ResetFates ℕ where
  unlinks _ := true
  build :=
    { rmTmp := .done, copy := .done, resize := .done, info := .info "qcow2" none
      rename := .done, rmTmpAfter := .done }
  rmDiskImg := .done
  ensure :=
    { build :=
        { rmTmp := .done, copy := .done, resize := .done, info := .info "qcow2" none
          rename := .done, rmTmpAfter := .done }
      create := fun _ => .done }
  deleteInstanceCredentials := .done
  rmSsh := .done

def numbers : QemuImg ℕ where
  convert := id
  resize _ := id
  create _ := 0

def twoExtraDisks : ResetState where
  version := "7.22"
  arch := "x86"
  machineDir := { path := "machines/r1", basename := "r1" }
  bootDiskFormat := some .qcow2
  bootSize := none
  extraDisks := some ["1G", "1G"]

/-- Both extra disks are there, and a guest has written to them. -/
def allThere : DiskName → Option ℕ
  | .bootQcow2 => some 7
  | .extra 1 => some 8
  | .extra 2 => some 9
  | _ => none

theorem reset_fresh_allThere :
    (resetGuestToFactory numbers smooth twoExtraDisks "cache" (some 1) (before allThere)).result =
        .ok () ∧
      ∀ found, (ensureConfiguredDisks numbers twoExtraDisks.machineDir smooth.ensure
          twoExtraDisks.bootSize twoExtraDisks.format ⟨false, .none⟩ twoExtraDisks.extraDisks
          (resetGuestToFactory numbers smooth twoExtraDisks "cache" (some 1)
            (before allThere)).dir).result = .ok found →
        ∀ d ∈ found.all, ∃ content, (ensureConfiguredDisks numbers twoExtraDisks.machineDir
          smooth.ensure twoExtraDisks.bootSize twoExtraDisks.format ⟨false, .none⟩
          twoExtraDisks.extraDisks (resetGuestToFactory numbers smooth twoExtraDisks "cache" (some 1)
            (before allThere)).dir).dir d = some { content := content, fresh := true } := by
  refine ⟨rfl, (reset_fresh_iff rfl smooth.ensure ⟨false, .none⟩).mpr fun k positive inReach _ => ?_⟩
  have small : k ≤ 2 := inReach
  refine ⟨by omega, fun j above below => ?_, rfl⟩
  have : j = 1 ∨ j = 2 := by omega
  rcases this with rfl | rfl
  · exact Option.some_ne_none _
  · exact Option.some_ne_none _

/-- The first extra disk has been deleted by hand. -/
def firstMissing : DiskName → Option ℕ
  | .bootQcow2 => some 7
  | .extra 2 => some 9
  | _ => none

theorem reset_fresh_fails :
    ¬ ((resetGuestToFactory numbers smooth twoExtraDisks "cache" (some 1)
        (before firstMissing)).result = .ok () →
      ∀ found, (ensureConfiguredDisks numbers twoExtraDisks.machineDir smooth.ensure
          twoExtraDisks.bootSize twoExtraDisks.format ⟨false, .none⟩ twoExtraDisks.extraDisks
          (resetGuestToFactory numbers smooth twoExtraDisks "cache" (some 1)
            (before firstMissing)).dir).result = .ok found →
        ∀ d ∈ found.all, ∃ content, (ensureConfiguredDisks numbers twoExtraDisks.machineDir
          smooth.ensure twoExtraDisks.bootSize twoExtraDisks.format ⟨false, .none⟩
          twoExtraDisks.extraDisks (resetGuestToFactory numbers smooth twoExtraDisks "cache" (some 1)
            (before firstMissing)).dir).dir d = some { content := content, fresh := true }) := by
  intro claim
  obtain ⟨content, new⟩ := claim rfl
    { bootDisk := .bootQcow2, extraDisks := some [.extra 1, .extra 2] } rfl (.extra 2) (by decide)
  have kept : (ensureConfiguredDisks numbers twoExtraDisks.machineDir smooth.ensure
      twoExtraDisks.bootSize twoExtraDisks.format ⟨false, .none⟩ twoExtraDisks.extraDisks
      (resetGuestToFactory numbers smooth twoExtraDisks "cache" (some 1)
        (before firstMissing)).dir).dir (.extra 2) = some { content := 9, fresh := false } := rfl
  rw [kept] at new
  cases new

end Quickchr.Disks
