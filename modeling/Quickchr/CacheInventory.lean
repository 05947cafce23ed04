import Quickchr.Cache
import Quickchr.ManagedNames
import Mathlib.Data.List.Pairwise
import Mathlib.Data.List.Perm.Basic

/-!
# What the inventory lists

The entries of the cache are made of the files that quickchr wrote, each file in one entry.
-/
namespace Quickchr

variable {view : CacheView} {used : List String} {f : CacheFile}

theorem artifact_written {p : PackagesName} (h : packageArtifact f = some p) :
    isValidVersion p.version = true ∧ WrittenFor p.version p.arch f := by
  obtain ⟨valid, chars, ⟨shape, type⟩ | ⟨shape, type⟩⟩ := packageArtifact_iff.mp h
  · refine ⟨valid, .archive type (String.toList_inj.mp ?_)⟩
    rw [chars, archive_chars]
    exact congrArg _ shape
  · refine ⟨valid, .packages type (String.toList_inj.mp ?_)⟩
    rw [chars, extraction_chars]
    exact congrArg _ shape

theorem parse_key {p : PackagesName} (valid : isValidVersion p.version = true) :
    parseCacheBasename p.key = (p.version, some p.arch) := by
  refine parse_packages (p := packagesName false p.version p.arch) ?_ valid
  rw [PackagesName.key_chars]
  simp [PackagesName.chars, packagesName]

theorem artifact_last {p : PackagesName} (h : packageArtifact f = some p) {c : Char}
    (last : f.name.toList.getLast? = some c) : c = 'p' ∨ c.isDigit = true := by
  obtain ⟨valid, chars, ⟨shape, -⟩ | ⟨shape, -⟩⟩ := packageArtifact_iff.mp h
  · left
    rw [chars, shape, PackagesName.chars, packagesName, if_pos rfl, if_pos rfl,
      List.getLast?_append] at last
    exact (Option.some.inj last).symm
  · right
    obtain ⟨d, ends, digit⟩ := ((version_ends valid).cons '-').append
      ("packages-".toList ++ p.arch.text.toList)
    rw [chars, shape] at last
    simp only [PackagesName.chars, packagesName, Bool.false_eq_true, if_false, List.nil_append,
      List.append_nil] at last
    rw [ends] at last
    exact Option.some.inj last ▸ digit

theorem no_artifact {c : Char} (head : f.name.toList.head? = some c) (other : c ≠ 'a' ∧ c ≠ 'p') :
    packageArtifact f = none := by
  cases found : packageArtifact f with
  | none => rfl
  | some p =>
      obtain ⟨packages, matched, -⟩ := Option.bind_eq_some_iff.mp found
      rw [packages_head matched] at head
      cases all : packages.all <;> rw [all] at head <;> cases head
      · exact absurd rfl other.2
      · exact absurd rfl other.1

theorem part_no_artifact {target : String} {digits id : List Char}
    (part : PartOf target f.name digits id) : packageArtifact f = none := by
  have last : f.name.toList.getLast? = some 't' := by
    have whole : f.name.toList = target.toList ++ '.' :: (digits ++ '-' :: id) ++ ".part".toList := by
      rw [part.chars]
      simp
    rw [whole, List.getLast?_append]
    rfl
  cases found : packageArtifact f with
  | none => rfl
  | some p => rcases artifact_last found last with other | digit <;> contradiction

theorem extraction_head (h : isExtraction f = true) : f.name.toList.head? = some '.' := by
  rcases Bool.or_eq_true_iff.mp (Bool.and_eq_true_iff.mp h).2 with starts | starts <;>
    obtain ⟨rest, eq⟩ := List.isPrefixOf_iff_prefix.mp starts <;> rw [← eq] <;> rfl

theorem parse_dot {name : String} (head : name.toList.head? = some '.') :
    parseCacheBasename name = ("unknown", none) := by
  have none : matchPackages name = none := by
    cases found : matchPackages name with
    | none => rfl
    | some p =>
        rw [packages_head found] at head
        cases all : p.all <;> rw [all] at head <;> cases head
  rw [parse_no_packages none rfl]
  cases matched : matchImage _ with
  | none => rfl
  | some found =>
      obtain ⟨ending, eq⟩ := stem_append name.toList
      rw [(matchImage_eq_some matched).2] at eq
      rw [eq] at head
      cases head

theorem single_of_download
    (h : (((matchPart f.name).filter fun part => isManagedDownloadTarget part.1).isSome ||
      isExtraction f) = true) : ∃ e, singleEntry view used f = some e :=
  ⟨_, if_pos h⟩

theorem single_of_image (type : f.type = .file) (known : (parseCacheBasename f.name).1 ≠ "unknown")
    (image : endsWith f.name ".img.zip" = true ∨ endsWith f.name ".img" = true) :
    ∃ e, singleEntry view used f = some e := by
  refine Option.isSome_iff_exists.mp ?_
  unfold singleEntry
  dsimp only
  split
  · rfl
  · rw [if_neg (not_not.mpr type)]
    by_cases zip : endsWith f.name ".img.zip" = true
    · rw [if_pos zip]
      rfl
    · rw [if_neg zip, if_pos (image.resolve_left zip)]
      rfl

theorem image_no_part {name : String} (image : endsWith name ".img.zip" = true ∨
    endsWith name ".img" = true) : matchPart name = none := by
  cases found : matchPart name with
  | none => rfl
  | some part =>
      obtain ⟨⟨before, ending⟩, -⟩ := matchPart_eq_some found
      rcases image with image | image <;> obtain ⟨before', image⟩ := endsWith_iff image
      · exact absurd (ends_differ (c := 'p') (d := 't') (image.symm.trans ending) rfl rfl) (by decide)
      · exact absurd (ends_differ (c := 'g') (d := 't') (image.symm.trans ending) rfl rfl) (by decide)

/-- The version reported is read off the name, or off the target's name for a download. -/
theorem single_version {e : CacheEntry} (h : singleEntry view used f = some e) :
    (e.version, e.arch) = parseCacheBasename (((matchPart f.name).map (·.1)).getD f.name) := by
  have image := singleEntry_cases h
  unfold singleEntry at h
  dsimp only at h
  generalize named : parseCacheBasename (((matchPart f.name).map (·.1)).getD f.name) = reported at h ⊢
  generalize own : parseCacheBasename f.name = parsed at h
  split at h
  · cases h
    rfl
  · rename_i download
    rw [Bool.or_eq_true_iff, not_or] at download
    rcases image.2 with ⟨part, found, managed⟩ | extraction | ⟨-, -, image, -⟩
    · rw [found, Option.filter_some, if_pos managed] at download
      exact absurd rfl download.1
    · exact absurd extraction download.2
    · rw [image_no_part image, Option.map_none, Option.getD_none] at named
      split at h
      · cases h
      · split at h
        · cases h
        · cases h
          exact own.symm.trans named

theorem extraction_version {e : CacheEntry} (h : singleEntry view used f = some e)
    (working : isExtraction f = true) : (e.version, e.arch) = ("unknown", none) := by
  rw [single_version h]
  refine parse_dot ?_
  cases found : matchPart f.name with
  | none => exact extraction_head working
  | some part => exact (matchPart_eq_some found).2.trans (extraction_head working)

/-- What stands alone is a working directory, or was written for the version it is reported
under. -/
theorem single_written {e : CacheEntry} (h : singleEntry view used f = some e) :
    isExtraction f = true ∧ (e.version, e.arch) = ("unknown", none) ∨
      ∃ version arch, isValidVersion version = true ∧ WrittenFor version arch f ∧
        (e.version, e.arch) = (version, some arch) := by
  have reported := single_version h
  rcases (singleEntry_cases h).2 with ⟨⟨target, pid⟩, found, managed⟩ | working |
    ⟨-, known, image, type⟩
  · obtain ⟨version, arch, valid, own⟩ := managed_target managed
    obtain ⟨-, digits, id, part⟩ := matchPart_parts found
    rw [found, Option.map_some, Option.getD_some, own.parse valid] at reported
    exact .inr ⟨version, arch, valid, .download own part, reported⟩
  · exact .inl ⟨working, extraction_version h working⟩
  · rw [image_no_part image, Option.map_none, Option.getD_none] at reported
    right
    rcases image with image | image
    · obtain ⟨before, ends⟩ := endsWith_iff image
      obtain ⟨version, arch, valid, chars⟩ := image_of_known known (.inl rfl) ends
      rw [parse_image valid arch chars (.inr (.inr rfl))] at reported
      rw [← imageZip_chars, String.toList_inj] at chars
      exact ⟨version, arch, valid, .imageZip type chars, reported⟩
    · obtain ⟨before, ends⟩ := endsWith_iff image
      obtain ⟨version, arch, valid, chars⟩ := image_of_known known (.inr rfl) ends
      rw [parse_image valid arch chars (.inr (.inl rfl))] at reported
      rw [← image_chars, String.toList_inj] at chars
      exact ⟨version, arch, valid, .image type chars, reported⟩

theorem known_version {version : String} (valid : isValidVersion version = true) :
    version ≠ "unknown" := by
  rintro rfl
  revert valid
  decide

theorem written_filed {version : String} {arch : Arch} (valid : isValidVersion version = true)
    (h : WrittenFor version arch f) :
    (∃ all, packageArtifact f = some (packagesName all version arch)) ∨
      packageArtifact f = none ∧
        ∃ e, singleEntry view used f = some e ∧ (e.version, e.arch) = (version, some arch) := by
  -- The name of an image or image ZIP is read back and stands alone.
  have image {ending : List Char} (type : f.type = .file)
      (chars : f.name.toList = imageStem version arch ++ ending)
      (known : ending = ".img".toList ∨ ending = ".img.zip".toList) : packageArtifact f = none ∧
        ∃ e, singleEntry view used f = some e ∧ (e.version, e.arch) = (version, some arch) := by
    have parse := parse_image valid arch chars (.inr known)
    have ends : endsWith f.name ".img.zip" = true ∨ endsWith f.name ".img" = true := by
      simp only [endsWith, chars]
      rcases known with rfl | rfl
      · exact .inr (by rw [dropSuffix?_append]; rfl)
      · exact .inl (by rw [dropSuffix?_append]; rfl)
    refine ⟨no_artifact (c := 'c') (by rw [chars]; rfl) (by decide), ?_⟩
    obtain ⟨e, entry⟩ := @single_of_image view used f type
      (by rw [parse]; exact known_version valid) ends
    refine ⟨e, entry, ?_⟩
    rw [single_version entry, image_no_part ends]
    exact parse
  cases h with
  | image type name => exact .inr (image type (name ▸ image_chars version arch) (.inl rfl))
  | imageZip type name => exact .inr (image type (name ▸ imageZip_chars version arch) (.inr rfl))
  | packages type name =>
      refine .inl ⟨false, packageArtifact_iff.mpr ⟨valid, ?_, .inr ⟨rfl, type⟩⟩⟩
      rw [name, extraction_chars]
  | archive type name =>
      refine .inl ⟨true, packageArtifact_iff.mpr ⟨valid, ?_, .inl ⟨rfl, type⟩⟩⟩
      rw [name, archive_chars]
  | download own part =>
      have found := own.part valid arch part
      obtain ⟨e, entry⟩ := @single_of_download view used f (by
        rw [found, Option.filter_some, if_pos (own.managed valid)]
        rfl)
      refine .inr ⟨part_no_artifact part, e, entry, ?_⟩
      rw [single_version entry, found]
      exact own.parse valid

theorem extraction_filed (h : isExtraction f = true) :
    packageArtifact f = none ∧ ∃ e, singleEntry view used f = some e :=
  ⟨no_artifact (extraction_head h) (by decide), single_of_download (Bool.or_eq_true_iff.mpr (.inr h))⟩

def standalone (view : CacheView) (used : List String) (f : CacheFile) : Option CacheEntry :=
  if (packageArtifact f).isNone then singleEntry view used f else none

/-- The package artifacts that are filed under a key. -/
def filedUnder (key : String) (f : CacheFile) : Bool :=
  (packageArtifact f).any fun p => p.key = key

structure PackageGroup (files : List CacheFile) (e : CacheEntry) : Prop where
  parsed : (e.version, e.arch) = parseCacheBasename e.basename
  paths : e.paths = (files.filter (filedUnder e.basename)).map CacheFile.name
  sizeBytes : e.sizeBytes = ((files.filter (filedUnder e.basename)).map CacheFile.sizeBytes).sum

/-- What a part of the listing has come to. -/
structure Catalogued (view : CacheView) (used : List String) (files : List CacheFile)
    (acc : CacheInventory × List CacheEntry) : Prop where
  single : acc.1.entries = files.filterMap (standalone view used)
  keys : (acc.2.map CacheEntry.basename).Nodup
  filed : ∀ key, key ∈ acc.2.map CacheEntry.basename ↔ ∃ f ∈ files, filedUnder key f = true
  groups : ∀ e ∈ acc.2, PackageGroup files e

theorem filter_concat (p : CacheFile → Bool) (files : List CacheFile) (f : CacheFile) :
    (files ++ [f]).filter p = files.filter p ++ if p f then [f] else [] := by
  rw [List.filter_append, List.filter_cons, List.filter_nil]

theorem PackageGroup.skip {files : List CacheFile} {e : CacheEntry} (h : PackageGroup files e)
    (other : filedUnder e.basename f = false) : PackageGroup (files ++ [f]) e := by
  have same : (files ++ [f]).filter (filedUnder e.basename) = files.filter (filedUnder e.basename) := by
    rw [filter_concat, other, if_neg Bool.false_ne_true, List.append_nil]
  exact ⟨h.parsed, same ▸ h.paths, same ▸ h.sizeBytes⟩

theorem filedUnder_iff {p : PackagesName} (artifact : packageArtifact f = some p) (key : String) :
    filedUnder key f = true ↔ p.key = key := by
  rw [filedUnder, artifact, Option.any_some, decide_eq_true_iff]

theorem filedUnder_artifact {key : String} (h : filedUnder key f = true) :
    ∃ p, packageArtifact f = some p ∧ p.key = key := by
  obtain ⟨p, artifact, same⟩ := (Option.any_eq_true _ _).mp h
  exact ⟨p, artifact, of_decide_eq_true same⟩

theorem filedUnder_unique {key key' : String} (h : filedUnder key f = true)
    (h' : filedUnder key' f = true) : key = key' := by
  obtain ⟨p, artifact, same⟩ := filedUnder_artifact h
  exact same.symm.trans ((filedUnder_iff artifact key').mp h')

theorem Catalogued.addPackages {files : List CacheFile} {acc : CacheInventory × List CacheEntry}
    (h : Catalogued view used files acc) {p : PackagesName} (artifact : packageArtifact f = some p) :
    Catalogued view used (files ++ [f]) (acc.1, addPackages acc.2 used f p) := by
  have own : filedUnder p.key f = true := (filedUnder_iff artifact p.key).mpr rfl
  have single : acc.1.entries = (files ++ [f]).filterMap (standalone view used) := by
    have grouped : standalone view used f = none := by
      rw [standalone, artifact]
      rfl
    rw [List.filterMap_append, h.single, List.filterMap_cons_none grouped, List.filterMap_nil,
      List.append_nil]
  have other {e : CacheEntry} (differ : e.basename ≠ p.key) : filedUnder e.basename f = false :=
    Bool.eq_false_iff.mpr fun same => differ ((filedUnder_iff artifact _).mp same).symm
  have filed (key : String) : (∃ g ∈ files ++ [f], filedUnder key g = true) ↔
      key ∈ acc.2.map CacheEntry.basename ∨ key = p.key := by
    rw [h.filed key]
    constructor
    · rintro ⟨g, member, under⟩
      rcases List.mem_append.mp member with old | new
      · exact .inl ⟨g, old, under⟩
      · rw [List.mem_singleton.mp new] at under
        exact .inr ((filedUnder_iff artifact key).mp under).symm
    · rintro (⟨g, member, under⟩ | rfl)
      · exact ⟨g, List.mem_append_left _ member, under⟩
      · exact ⟨f, List.mem_append_right _ List.mem_cons_self, own⟩
  by_cases known : p.key ∈ acc.2.map CacheEntry.basename
  · have found : (acc.2.any fun g => decide (g.basename = p.key)) = true := by
      obtain ⟨g, member, name⟩ := List.mem_map.mp known
      exact List.any_eq_true.mpr ⟨g, member, decide_eq_true name⟩
    have names : (Quickchr.addPackages acc.2 used f p).map CacheEntry.basename =
        acc.2.map CacheEntry.basename := by
      rw [Quickchr.addPackages, if_pos found, List.map_map]
      refine List.map_congr_left fun g _ => ?_
      dsimp only [Function.comp_apply]
      split <;> rfl
    refine ⟨single, names ▸ h.keys, fun key => ?_, fun e member => ?_⟩
    · rw [filed, names]
      exact ⟨.inl, fun either => either.elim id fun same => same ▸ known⟩
    · rw [Quickchr.addPackages, if_pos found] at member
      obtain ⟨g, old, rfl⟩ := List.mem_map.mp member
      have group := h.groups g old
      split
      · rename_i same
        refine ⟨group.parsed, ?_, ?_⟩
        · simp only [filter_concat, same, own, if_true, List.map_append, List.map_cons, List.map_nil]
          rw [← same, ← group.paths]
        · simp only [filter_concat, same, own, if_true, List.map_append, List.map_cons, List.map_nil,
            List.sum_append, List.sum_cons, List.sum_nil, add_zero]
          rw [← same, ← group.sizeBytes]
      · rename_i differ
        exact group.skip (other differ)
  · have absent : ¬ (acc.2.any fun g => decide (g.basename = p.key)) = true := by
      intro found
      obtain ⟨g, member, name⟩ := List.any_eq_true.mp found
      exact known (List.mem_map.mpr ⟨g, member, of_decide_eq_true name⟩)
    have none : files.filter (filedUnder p.key) = [] :=
      List.filter_eq_nil_iff.mpr fun g member under => known ((h.filed p.key).mpr ⟨g, member, under⟩)
    rw [Quickchr.addPackages, if_neg absent]
    rcases reported : parseCacheBasename p.key with ⟨version, arch⟩
    refine ⟨single, ?_, fun key => ?_, fun e member => ?_⟩
    · rw [List.map_append]
      exact List.nodup_append.mpr ⟨h.keys, List.nodup_singleton _, fun a old b new same =>
        known (by rwa [same, List.mem_singleton.mp new] at old)⟩
    · rw [filed, List.map_append, List.mem_append, List.map_singleton, List.mem_singleton]
    · rcases List.mem_append.mp member with old | new
      · refine (h.groups e old).skip (other fun same => known ?_)
        exact same ▸ List.mem_map_of_mem old
      · rw [List.mem_singleton.mp new]
        refine ⟨reported.symm, ?_, ?_⟩
        · simp only [filter_concat, none, own, if_true, List.nil_append, List.map_cons, List.map_nil]
        · simp only [filter_concat, none, own, if_true, List.nil_append, List.map_cons, List.map_nil,
            List.sum_cons, List.sum_nil, add_zero]

theorem Catalogued.addFile {files : List CacheFile} {acc : CacheInventory × List CacheEntry}
    (h : Catalogued view used files acc) (f : CacheFile) :
    Catalogued view used (files ++ [f]) (addFile view used acc f) := by
  unfold Quickchr.addFile
  cases artifact : packageArtifact f with
  | some p => exact h.addPackages artifact
  | none =>
      have none (key : String) : filedUnder key f = false := by
        rw [filedUnder, artifact]
        rfl
      have filed (key : String) : key ∈ acc.2.map CacheEntry.basename ↔
          ∃ g ∈ files ++ [f], filedUnder key g = true := by
        rw [h.filed key]
        simp [none]
      have alone : standalone view used f = singleEntry view used f := by
        rw [standalone, artifact]
        rfl
      have single : (files ++ [f]).filterMap (standalone view used) =
          acc.1.entries ++ (singleEntry view used f).toList := by
        rw [List.filterMap_append, h.single, ← alone]
        cases entry : standalone view used f with
        | none => rw [List.filterMap_cons_none entry]; rfl
        | some e => rw [List.filterMap_cons_some entry]; rfl
      have groups : ∀ e ∈ acc.2, PackageGroup (files ++ [f]) e :=
        fun e member => (h.groups e member).skip (none _)
      dsimp only
      cases entry : singleEntry view used f with
      | some e => exact ⟨by rw [single, entry]; rfl, h.keys, filed, groups⟩
      | none => exact ⟨by rw [single, entry]; exact (List.append_nil _).symm, h.keys, filed, groups⟩

theorem catalogued (view : CacheView) (used : List String) :
    Catalogued view used view.listing (view.listing.foldl (addFile view used) (⟨[], 0⟩, [])) := by
  have run (files done : List CacheFile) (acc : CacheInventory × List CacheEntry)
      (h : Catalogued view used done acc) :
      Catalogued view used (done ++ files) (files.foldl (addFile view used) acc) := by
    induction files generalizing done acc with
    | nil => exact (List.append_nil done).symm ▸ h
    | cons f rest ih =>
        rw [List.append_cons]
        exact ih (done ++ [f]) _ (h.addFile f)
  refine run view.listing [] _ ⟨rfl, List.nodup_nil, fun key => ?_, fun e member => (by cases member)⟩
  simp

/-- The entries that are groups of package artifacts. -/
def packageGroups (view : CacheView) (used : List String) : List CacheEntry :=
  (view.listing.foldl (addFile view used) (⟨[], 0⟩, [])).2

theorem entries_eq (view : CacheView) (pins : List String) :
    (cacheInventory view pins).entries =
      view.listing.filterMap (standalone view (inUseSet view.machines ++ pins)) ++
        packageGroups view (inUseSet view.machines ++ pins) := by
  rw [← (catalogued view _).single]
  rfl

/-- An entry but for its paths, which come in the order of the listing. -/
def CacheEntry.withoutPaths (e : CacheEntry) : CacheEntry := { e with paths := [] }

/-- What the package artifacts filed under a key come to. -/
def packageEntry (used : List String) (files : List CacheFile) (key : String) : CacheEntry where
  path := key
  paths := []
  basename := key
  kind := .packages
  version := (parseCacheBasename key).1
  arch := (parseCacheBasename key).2
  sizeBytes := ((files.filter (filedUnder key)).map CacheFile.sizeBytes).sum
  mtimeMs := ((files.filter (filedUnder key)).map CacheFile.mtimeMs).foldl max 0
  inUse := used.contains key

theorem packageEntry_skip {files : List CacheFile} {key : String} (other : filedUnder key f = false) :
    packageEntry used (files ++ [f]) key = packageEntry used files key := by
  unfold packageEntry
  rw [filter_concat, other, if_neg Bool.false_ne_true, List.append_nil]

theorem packageEntry_concat {files : List CacheFile} {key : String} (own : filedUnder key f = true) :
    packageEntry used (files ++ [f]) key =
      { packageEntry used files key with
        sizeBytes := (packageEntry used files key).sizeBytes + f.sizeBytes
        mtimeMs := max (packageEntry used files key).mtimeMs f.mtimeMs } := by
  unfold packageEntry
  rw [filter_concat, own, if_pos rfl, List.map_append, List.map_append, List.sum_append, List.foldl_append]
  rfl

theorem addPackages_entry {files : List CacheFile} {acc : CacheInventory × List CacheEntry}
    (h : Catalogued view used files acc) {p : PackagesName} (artifact : packageArtifact f = some p)
    (summed : ∀ e ∈ acc.2, e.withoutPaths = packageEntry used files e.basename) :
    ∀ e ∈ addPackages acc.2 used f p, e.withoutPaths = packageEntry used (files ++ [f]) e.basename := by
  have own : filedUnder p.key f = true := (filedUnder_iff artifact p.key).mpr rfl
  have other {key : String} (differ : key ≠ p.key) : filedUnder key f = false :=
    Bool.eq_false_iff.mpr fun same => differ ((filedUnder_iff artifact _).mp same).symm
  intro e member
  unfold addPackages at member
  split at member
  · obtain ⟨g, old, rfl⟩ := List.mem_map.mp member
    have group := summed g old
    split
    · rename_i same
      rw [← same] at own
      rw [packageEntry_concat own, ← group]
      rfl
    · rename_i differ
      rw [packageEntry_skip (other differ)]
      exact group
  · rename_i absent
    rcases reported : parseCacheBasename p.key with ⟨version, arch⟩
    rw [reported] at member
    rcases List.mem_append.mp member with old | new
    · have differ : e.basename ≠ p.key := fun same =>
        absent (List.any_eq_true.mpr ⟨e, old, decide_eq_true same⟩)
      rw [packageEntry_skip (other differ)]
      exact summed e old
    · -- no file before it was filed under the key
      have nothing : files.filter (filedUnder p.key) = [] := by
        refine List.filter_eq_nil_iff.mpr fun g listed under => absent ?_
        obtain ⟨e, old, name⟩ := List.mem_map.mp ((h.filed p.key).mpr ⟨g, listed, under⟩)
        exact List.any_eq_true.mpr ⟨e, old, decide_eq_true name⟩
      rw [List.mem_singleton.mp new, packageEntry_concat own]
      simp [packageEntry, nothing, CacheEntry.withoutPaths, reported]

theorem addFile_entry {files : List CacheFile} {acc : CacheInventory × List CacheEntry}
    (h : Catalogued view used files acc)
    (summed : ∀ e ∈ acc.2, e.withoutPaths = packageEntry used files e.basename) :
    ∀ e ∈ (addFile view used acc f).2, e.withoutPaths = packageEntry used (files ++ [f]) e.basename := by
  unfold addFile
  cases artifact : packageArtifact f with
  | some p => exact addPackages_entry h artifact summed
  | none =>
    have other (key : String) : filedUnder key f = false := by
      rw [filedUnder, artifact]
      rfl
    dsimp only
    split <;> exact fun e member => (packageEntry_skip (other _)).symm ▸ summed e member

theorem packageGroups_entry (view : CacheView) (used : List String) :
    ∀ e ∈ packageGroups view used, e.withoutPaths = packageEntry used view.listing e.basename := by
  have run (files done : List CacheFile) (acc : CacheInventory × List CacheEntry)
      (h : Catalogued view used done acc)
      (summed : ∀ e ∈ acc.2, e.withoutPaths = packageEntry used done e.basename) :
      ∀ e ∈ (files.foldl (addFile view used) acc).2, e.withoutPaths = packageEntry used (done ++ files) e.basename := by
    induction files generalizing done acc with
    | nil => rwa [List.append_nil]
    | cons f rest ih =>
        rw [List.append_cons]
        exact ih (done ++ [f]) _ (h.addFile f) (addFile_entry h summed)
  refine run view.listing [] _ ⟨rfl, List.nodup_nil, fun key => ?_, nofun⟩ nofun
  simp

theorem packageEntry_perm {files files' : List CacheFile} (perm : files.Perm files') (used : List String) :
    packageEntry used files = packageEntry used files' := by
  funext key
  have filed := perm.filter (filedUnder key)
  unfold packageEntry
  rw [(filed.map CacheFile.sizeBytes).sum_nat, (filed.map CacheFile.mtimeMs).foldl_eq]

/-- Another order of the directory gives the entries in another order, and their paths. -/
theorem entries_perm (view : CacheView) {files : List CacheFile} (perm : files.Perm view.listing)
    (pins : List String) :
    ((cacheInventory { view with listing := files } pins).entries.map CacheEntry.withoutPaths).Perm
      ((cacheInventory view pins).entries.map CacheEntry.withoutPaths) := by
  have groups (view : CacheView) (used : List String) :
      (packageGroups view used).map CacheEntry.withoutPaths =
        ((packageGroups view used).map CacheEntry.basename).map (packageEntry used view.listing) := by
    rw [List.map_map]
    exact List.map_congr_left (packageGroups_entry view used)
  have keys (used : List String) : ((packageGroups { view with listing := files } used).map CacheEntry.basename).Perm
      ((packageGroups view used).map CacheEntry.basename) := by
    have here := catalogued { view with listing := files } used
    have there := catalogued view used
    refine (List.perm_ext_iff_of_nodup here.keys there.keys).mpr fun key => (here.filed key).trans ?_
    rw [there.filed key]
    exact exists_congr fun f => and_congr_left fun _ => perm.mem_iff
  have sums : packageEntry _ files = packageEntry _ view.listing :=
    packageEntry_perm perm (inUseSet view.machines ++ pins)
  rw [entries_eq, entries_eq, List.map_append, List.map_append, groups, groups, sums]
  exact ((perm.filterMap _).map _).append ((keys _).map _)

theorem standalone_paths {e : CacheEntry} (h : standalone view used f = some e) :
    e.paths = [f.name] ∧ packageArtifact f = none ∧ singleEntry view used f = some e := by
  obtain ⟨none, single⟩ := Option.ite_none_right_eq_some.mp h
  exact ⟨(singleEntry_cases single).1, Option.isNone_iff_eq_none.mp none, single⟩

theorem standalone_flatMap (files : List CacheFile) :
    (files.filterMap (standalone view used)).flatMap CacheEntry.paths =
      (files.filter fun f => (standalone view used f).isSome).map CacheFile.name := by
  induction files with
  | nil => rfl
  | cons f rest ih =>
      cases entry : standalone view used f with
      | none =>
          rw [List.filterMap_cons_none entry, List.filter_cons_of_neg (by simp [entry]), ih]
      | some e =>
          rw [List.filterMap_cons_some entry, List.filter_cons_of_pos (by simp [entry]),
            List.flatMap_cons, (standalone_paths entry).1, ih]
          rfl

theorem mem_group {e : CacheEntry} (h : e ∈ packageGroups view used) {x : String} :
    x ∈ e.paths ↔ ∃ f ∈ view.listing, filedUnder e.basename f = true ∧ f.name = x := by
  rw [((catalogued view used).groups e h).paths]
  simp [and_assoc]

section Distinct

variable (distinct : (view.listing.map CacheFile.name).Nodup)
include distinct

theorem same_file {f g : CacheFile} (listed : f ∈ view.listing) (listed' : g ∈ view.listing)
    (name : f.name = g.name) : f = g :=
  List.inj_on_of_nodup_map distinct listed listed' name

theorem groups_nodup : ((packageGroups view used).flatMap CacheEntry.paths).Nodup := by
  have facts := catalogued view used
  refine List.nodup_flatMap.mpr ⟨fun e member => ?_, ?_⟩
  · rw [(facts.groups e member).paths]
    exact distinct.sublist (List.filter_sublist.map _)
  · refine (List.pairwise_map.mp facts.keys).imp_of_mem fun {a b} left right differ => ?_
    intro x inA inB
    obtain ⟨f, listed, under, name⟩ := (mem_group left).mp inA
    obtain ⟨g, listed', under', name'⟩ := (mem_group right).mp inB
    obtain rfl := same_file distinct listed listed' (name.trans name'.symm)
    exact differ (filedUnder_unique under under')

theorem paths_nodup (pins : List String) :
    ((cacheInventory view pins).entries.flatMap CacheEntry.paths).Nodup := by
  rw [entries_eq, List.flatMap_append, standalone_flatMap]
  refine List.nodup_append.mpr ⟨distinct.sublist (List.filter_sublist.map _), groups_nodup distinct,
    fun x single y grouped same => ?_⟩
  subst same
  obtain ⟨f, kept, rfl⟩ := List.mem_map.mp single
  obtain ⟨listed, entry⟩ := List.mem_filter.mp kept
  obtain ⟨e, alone⟩ := Option.isSome_iff_exists.mp entry
  obtain ⟨group, member, path⟩ := List.mem_flatMap.mp grouped
  obtain ⟨g, listed', under, name⟩ := (mem_group member).mp path
  obtain rfl := same_file distinct listed' listed name
  rw [filedUnder, (standalone_paths alone).2.1] at under
  cases under

end Distinct

theorem mem_entries_single {e : CacheEntry} {pins : List String} (listed : f ∈ view.listing)
    (none : packageArtifact f = none)
    (single : singleEntry view (inUseSet view.machines ++ pins) f = some e) :
    e ∈ (cacheInventory view pins).entries := by
  rw [entries_eq]
  refine List.mem_append_left _ (List.mem_filterMap.mpr ⟨f, listed, ?_⟩)
  rw [standalone, none]
  exact single

theorem mem_entries_group {e : CacheEntry} {pins : List String}
    (group : e ∈ packageGroups view (inUseSet view.machines ++ pins)) :
    e ∈ (cacheInventory view pins).entries := by
  rw [entries_eq]
  exact List.mem_append_right _ group

theorem group_of_artifact {p : PackagesName} (listed : f ∈ view.listing)
    (artifact : packageArtifact f = some p) :
    ∃ e ∈ packageGroups view used, e.basename = p.key ∧
      ∀ g ∈ view.listing, filedUnder p.key g = true → g.name ∈ e.paths := by
  obtain ⟨e, member, name⟩ := List.mem_map.mp (((catalogued view used).filed p.key).mpr
    ⟨f, listed, (filedUnder_iff artifact p.key).mpr rfl⟩)
  exact ⟨e, member, name, fun g listed under => (mem_group member).mpr ⟨g, listed, name ▸ under, rfl⟩⟩

/-- A file written for a version is in an entry that is reported under it. -/
theorem entry_of_written {version : String} {arch : Arch} (valid : isValidVersion version = true)
    (listed : f ∈ view.listing) (written : WrittenFor version arch f) (pins : List String) :
    ∃ e ∈ (cacheInventory view pins).entries, f.name ∈ e.paths ∧ e.version = version ∧
      e.arch = some arch := by
  rcases @written_filed view (inUseSet view.machines ++ pins) f version arch valid written with
    ⟨all, artifact⟩ | ⟨none, e, single, reported⟩
  · obtain ⟨e, member, name, paths⟩ := group_of_artifact listed artifact
    have reported := ((catalogued view (inUseSet view.machines ++ pins)).groups e member).parsed
    have key : parseCacheBasename (packagesName all version arch).key = (version, some arch) :=
      parse_key (p := packagesName all version arch) valid
    rw [name, key] at reported
    have under := (filedUnder_iff artifact (packagesName all version arch).key).mpr rfl
    exact ⟨e, mem_entries_group member, paths f listed under, Prod.mk.inj reported⟩
  · have own : f.name ∈ e.paths := (singleEntry_cases single).1 ▸ List.mem_cons_self
    exact ⟨e, mem_entries_single listed none single, own, Prod.mk.inj reported⟩

theorem entry_of_extraction (listed : f ∈ view.listing) (working : isExtraction f = true)
    (pins : List String) :
    ∃ e ∈ (cacheInventory view pins).entries, f.name ∈ e.paths ∧ e.version = "unknown" ∧
      e.arch = none := by
  obtain ⟨none, e, single⟩ := @extraction_filed view (inUseSet view.machines ++ pins) f working
  have own : f.name ∈ e.paths := (singleEntry_cases single).1 ▸ List.mem_cons_self
  exact ⟨e, mem_entries_single listed none single, own,
    Prod.mk.inj (extraction_version single working)⟩

section Distinct

variable (distinct : (view.listing.map CacheFile.name).Nodup)
include distinct

theorem entry_unique {pins : List String} {e e' : CacheEntry}
    (member : e ∈ (cacheInventory view pins).entries)
    (member' : e' ∈ (cacheInventory view pins).entries) {x : String} (path : x ∈ e.paths)
    (path' : x ∈ e'.paths) : e = e' := by
  by_contra differ
  have apart := (List.nodup_flatMap.mp (paths_nodup distinct pins)).2
  have symm : Std.Symm (Function.onFun List.Disjoint CacheEntry.paths) := ⟨fun _ _ apart _ right left => apart left right⟩
  exact apart.forall member member' differ path path'

/-- What an entry holds was written for the version it is reported under. -/
theorem entry_written {pins : List String} {e : CacheEntry}
    (member : e ∈ (cacheInventory view pins).entries) (listed : f ∈ view.listing)
    (path : f.name ∈ e.paths) :
    isExtraction f = true ∧ (e.version, e.arch) = ("unknown", none) ∨
      ∃ version arch, isValidVersion version = true ∧ WrittenFor version arch f ∧
        (e.version, e.arch) = (version, some arch) := by
  rw [entries_eq] at member
  rcases List.mem_append.mp member with single | group
  · obtain ⟨g, listed', alone⟩ := List.mem_filterMap.mp single
    obtain ⟨paths, -, single⟩ := standalone_paths alone
    rw [paths, List.mem_singleton] at path
    obtain rfl := same_file distinct listed listed' path
    exact single_written single
  · obtain ⟨g, listed', under, name⟩ := (mem_group group).mp path
    obtain rfl := same_file distinct listed' listed name
    obtain ⟨p, artifact, key⟩ := filedUnder_artifact under
    obtain ⟨valid, written⟩ := artifact_written artifact
    refine .inr ⟨p.version, p.arch, valid, written, ?_⟩
    rw [((catalogued view _).groups e group).parsed, ← key]
    exact parse_key valid

end Distinct

/-- The entries are made of the files quickchr writes, and of nothing else. -/
structure ManagesWritten (view : CacheView) (entries : List CacheEntry) : Prop where
  listed : ∀ e ∈ entries, ∀ x ∈ e.paths, ∃ f ∈ view.listing, f.name = x
  managed : ∀ f ∈ view.listing, (∃ e ∈ entries, f.name ∈ e.paths) ↔
    isExtraction f = true ∨
      ∃ version arch, isValidVersion version = true ∧ WrittenFor version arch f
  reported : ∀ f ∈ view.listing, ∀ version arch, isValidVersion version = true →
    WrittenFor version arch f → ∀ e ∈ entries, f.name ∈ e.paths →
      e.version = version ∧ e.arch = some arch
  unknown : ∀ f ∈ view.listing, isExtraction f = true → ∀ e ∈ entries, f.name ∈ e.paths →
    e.version = "unknown" ∧ e.arch = none
  /-- An archive and its extraction are one entry. -/
  together : ∀ f ∈ view.listing, ∀ g ∈ view.listing, ∀ (version : String) (arch : Arch),
    isValidVersion version = true →
    f.type = .file → f.name = s!"all_packages-{arch.text}-{version}.zip" →
    g.type = .directory → g.name = s!"packages-{arch.text}-{version}" →
      ∃ e ∈ entries, f.name ∈ e.paths ∧ g.name ∈ e.paths
  once : (entries.flatMap CacheEntry.paths).Nodup

theorem inventory_manages_written (view : CacheView) (pins : List String)
    (distinct : (view.listing.map CacheFile.name).Nodup) :
    ManagesWritten view (cacheInventory view pins).entries ∧
      (∀ version arch, isValidVersion version = true → ∀ ending ∈ ["", ".img", ".img.zip"],
        parseCacheBasename (chrImageBasename version arch ++ ending) = (version, some arch)) ∧
      ∀ rm opts, ∀ x ∈ (pruneCacheUnderLock rm view opts pins).attempted,
        ∃ f ∈ view.listing, f.name = x ∧ (isExtraction f = true ∨
          ∃ version arch, isValidVersion version = true ∧ WrittenFor version arch f) := by
  have written {e : CacheEntry} (member : e ∈ (cacheInventory view pins).entries) {f : CacheFile}
      (listed : f ∈ view.listing) (path : f.name ∈ e.paths) : isExtraction f = true ∨
        ∃ version arch, isValidVersion version = true ∧ WrittenFor version arch f := by
    rcases entry_written distinct member listed path with ⟨working, -⟩ | ⟨v, a, valid, own, -⟩
    · exact .inl working
    · exact .inr ⟨v, a, valid, own⟩
  refine ⟨⟨fun e member => (entry_paths member).2, fun f listed => ⟨?_, ?_⟩, ?_, ?_, ?_,
    paths_nodup distinct pins⟩, ?_, ?_⟩
  · rintro ⟨e, member, path⟩
    exact written member listed path
  · rintro (working | ⟨version, arch, valid, own⟩)
    · obtain ⟨e, member, path, -⟩ := entry_of_extraction listed working pins
      exact ⟨e, member, path⟩
    · obtain ⟨e, member, path, -⟩ := entry_of_written valid listed own pins
      exact ⟨e, member, path⟩
  · intro f listed version arch valid own e member path
    obtain ⟨e', member', path', reported⟩ := entry_of_written valid listed own pins
    exact entry_unique distinct member member' path path' ▸ reported
  · intro f listed working e member path
    obtain ⟨e', member', path', reported⟩ := entry_of_extraction listed working pins
    exact entry_unique distinct member member' path path' ▸ reported
  · intro f listed g listed' version arch valid file name directory name'
    have artifact : packageArtifact f = some (packagesName true version arch) :=
      packageArtifact_iff.mpr ⟨valid, name ▸ archive_chars version arch, .inl ⟨rfl, file⟩⟩
    have artifact' : packageArtifact g = some (packagesName false version arch) :=
      packageArtifact_iff.mpr ⟨valid, name' ▸ extraction_chars version arch, .inr ⟨rfl, directory⟩⟩
    obtain ⟨e, group, -, paths⟩ := @group_of_artifact view (inUseSet view.machines ++ pins) f _
      listed artifact
    have under := (filedUnder_iff artifact (packagesName true version arch).key).mpr rfl
    have under' := (filedUnder_iff artifact' (packagesName true version arch).key).mpr rfl
    exact ⟨e, mem_entries_group group, paths f listed under, paths g listed' under'⟩
  · intro version arch valid ending known
    have chars : (chrImageBasename version arch ++ ending).toList =
        imageStem version arch ++ ending.toList := by
      rw [String.toList_append, chrImageBasename_chars]
    refine parse_image valid arch chars ?_
    simp only [List.mem_cons, List.not_mem_nil, or_false] at known
    rcases known with rfl | rfl | rfl
    · exact .inl rfl
    · exact .inr (.inl rfl)
    · exact .inr (.inr rfl)
  · intro rm opts x attempted
    obtain ⟨e, member, -, path⟩ := prune_attempted attempted
    obtain ⟨f, listed, rfl⟩ := (entry_paths member).2 x path
    exact ⟨f, listed, rfl, written member listed path⟩

def archiveView : CacheView where
  listing := [⟨"all_packages-x86-7.1.zip", .file, 5, 0⟩, ⟨"notes.txt", .file, 1, 0⟩,
    ⟨"packages-x86-7.1", .directory, 7, 2⟩]
  machines := none
  now := 0
  pidAlive _ := false

theorem inventory_manages_archive :
    ManagesWritten archiveView (cacheInventory archiveView []).entries :=
  (inventory_manages_written archiveView [] (by simp [archiveView])).1

end Quickchr
