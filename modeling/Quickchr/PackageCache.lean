import Quickchr.Versions
import Quickchr.Lib.Record
import Quickchr.Lib.Text
import Quickchr.Lib.Transition
import Mathlib.Data.List.Sort

/-!
# The cache of packages

The archive of all packages of a version is extracted beside its place and moved there once it is whole. Any number
of processes do so at once; each may crash at any point, and what is in the cache may be evicted file by file.
-/
namespace Quickchr.PackageCache

structure Package where
  name : String
  size : ℕ
  deriving DecidableEq

structure PackageCacheManifest where
  version : String
  arch : Arch
  archiveSize : ℕ
  packages : List Package
  deriving DecidableEq

/-- An archive of packages: its size and what is in it. -/
structure Archive (ν : Type) where
  size : ℕ
  entries : List (String × ν)

/-- The directory of an extraction. A manifest is read only if it is whole. -/
structure Dir (ν : Type) where
  files : Record ν
  manifest : Option PackageCacheManifest

def isPackage (name : String) : Bool := ".npk".toList.isSuffixOf name.toList

section Files

variable {ν : Type} (size : ν → ℕ)
-- `a.localeCompare(b) <= 0`.
variable (localeLe : String → String → Bool)

def packageFiles (files : Record ν) : List Package :=
  (((files.filter fun f => isPackage f.1).map fun f => { name := f.1, size := size f.2 }).filter fun entry =>
    0 < entry.size).mergeSort fun a b => localeLe a.name b.name

def isCompletePackageCache (version : String) (arch : Arch) (zip : Option (Archive ν)) (dir : Option (Dir ν)) : Bool :=
  match zip, dir with
  | some zip, some dir =>
      match dir.manifest with
      | some manifest =>
          let packages := packageFiles size localeLe dir.files
          zip.size ≠ 0 ∧ manifest.version = version ∧ manifest.arch = arch ∧ manifest.archiveSize = zip.size ∧
            packages.length > 0 ∧ manifest.packages = packages
      | none => false
  | _, _ => false

/-- The files that the archive's entries are written to, one after the other. -/
def extracted (entries : List (String × ν)) : Record ν := Record.assign [] entries

end Files

/-- The rest of a name begins with a version. -/
def startsVersion (rest : List Char) : Bool :=
  match rest with
  | '-' :: rest =>
      match rest.dropWhile Char.isDigit with
      | '.' :: minor => rest.head?.any Char.isDigit && minor.head?.any Char.isDigit
      | _ => false
  | _ => false

def isLineTerminator (c : Char) : Bool := c = '\n' ∨ c = '\r' ∨ c = '\u2028' ∨ c = '\u2029'

/-- `/^(.+?)-\d+\.\d+/`: the shortest front that a version follows. -/
def nameWithin (front : List Char) : List Char → Option (List Char)
  | [] => none
  | c :: rest =>
      if isLineTerminator c then none
      else if startsVersion rest then some (front ++ [c])
      else nameWithin (front ++ [c]) rest

def packageName (file : String) : String := String.ofList ((nameWithin [] file.toList).getD [])

def listAvailablePackages (files : List String) : List String :=
  (((files.filter isPackage).map packageName).filter (· ≠ "")).mergeSort fun a b =>
    decide (Text.Before a b)

/-- The file of a package: behind the name and a dash comes a digit. -/
def findPackageFile (files : List String) (packageName : String) : Option String :=
  files.find? fun f =>
    (packageName ++ "-").toList.isPrefixOf f.toList && isPackage f &&
      (f.toList.drop (packageName ++ "-").toList.length).head?.any Char.isDigit

/-- Where a call of `downloadPackages` stands that found no complete cache. -/
inductive Call (ν : Type)
  /-- It writes the entries that are still to be written. -/
  | extracting (todo : List (String × ν)) (files : Record ν)
  /-- It wrote the manifest; what is at the place of the extraction goes. -/
  | sealed (dir : Dir ν)
  | published

structure World (ν : Type) where
  zip : Option (Archive ν)
  dir : Option (Dir ν)
  calls : ℕ → Option (Call ν)
  /-- All archives that were downloaded. -/
  fetched : List (Archive ν)

inductive Event (ν : Type)
  | fetch (archive : Archive ν)
  | evictZip
  | evictFile (name : String)
  | evictManifest
  | evictDir
  | begin (p : ℕ)
  | write (p : ℕ)
  | «seal» (p : ℕ)
  | publish (p : ℕ)
  /-- The call returns, or throws. -/
  | leave (p : ℕ)
  | crash (p : ℕ)

section System

variable {ν : Type} (size : ν → ℕ) (localeLe : String → String → Bool) (version : String) (arch : Arch)

def World.call (w : World ν) (p : ℕ) (call : Option (Call ν)) : World ν :=
  { w with calls := fun q => if q = p then call else w.calls q }

/-- A directory that another can be moved over. -/
def vacant (dir : Option (Dir ν)) : Bool :=
  match dir with
  | none => true
  | some dir => dir.files.isEmpty && dir.manifest.isNone

def next (w : World ν) : Event ν → Option (World ν)
  | .fetch archive => some { w with zip := some archive, fetched := archive :: w.fetched }
  | .evictZip => some { w with zip := none }
  | .evictFile name => w.dir.map fun dir => { w with dir := some { dir with files := dir.files.erase name } }
  | .evictManifest => w.dir.map fun dir => { w with dir := some { dir with manifest := none } }
  | .evictDir => some { w with dir := none }
  | .begin p =>
      match w.calls p, w.zip with
      | none, some zip => some (w.call p (some (.extracting zip.entries [])))
      | _, _ => none
  | .write p =>
      match w.calls p with
      | some (.extracting ((name, content) :: todo) files) =>
          some (w.call p (some (.extracting todo (files.set name content))))
      | _ => none
  | .seal p =>
      match w.calls p, w.zip with
      | some (.extracting [] files), some zip =>
          let packages := packageFiles size localeLe files
          if packages.length = 0 then some (w.call p none)
          else
            let manifest := { version, arch, archiveSize := zip.size, packages }
            some (w.call p (some (.sealed { files, manifest := some manifest })))
      | some (.extracting [] _), none => some (w.call p none)
      | _, _ => none
  | .publish p =>
      match w.calls p with
      | some (.sealed dir) =>
          if vacant w.dir then some { w.call p (some .published) with dir := some dir }
          else some (w.call p none)
      | _ => none
  | .leave p =>
      match w.calls p with
      | some .published => some (w.call p none)
      | _ => none
  | .crash p => some (w.call p none)

def system : Transition.System (World ν) (Event ν) where
  Initial w := w = { zip := none, dir := none, calls := fun _ => none, fetched := [] }
  next := next size localeLe version arch

end System

section Invariant

variable {ν : Type} {size : ν → ℕ} {localeLe : String → String → Bool} {version : String} {arch : Arch}

/-- A package that is recorded: there is something in it. -/
def recorded (size : ν → ℕ) (f : String × ν) : Bool := isPackage f.1 && decide (0 < size f.2)

theorem packageFiles_perm (files : Record ν) : (packageFiles size localeLe files).Perm
    ((files.filter (recorded size)).map fun f => { name := f.1, size := size f.2 }) := by
  refine (List.mergeSort_perm _ _).trans (List.Perm.of_eq ?_)
  rw [List.filter_map, List.filter_filter]
  congr 2
  funext f
  exact Bool.and_comm _ _

/-- Of files that were removed, none is a package if what is recorded is the same. -/
theorem recorded_of_same {files whole : Record ν} (less : files.Sublist whole)
    (same : packageFiles size localeLe whole = packageFiles size localeLe files) :
    files.filter (recorded size) = whole.filter (recorded size) := by
  refine (less.filter (recorded size)).eq_of_length ?_
  have lengths := congrArg List.length same
  rw [(packageFiles_perm _).length_eq, (packageFiles_perm _).length_eq, List.length_map, List.length_map] at lengths
  exact lengths.symm

/-- The manifest records what was extracted. -/
structure Records (size : ν → ℕ) (localeLe : String → String → Bool) (version : String) (arch : Arch)
    (whole : Record ν) (manifest : PackageCacheManifest) : Prop where
  version : manifest.version = version
  arch : manifest.arch = arch
  packages : manifest.packages = packageFiles size localeLe whole
  some_ : 0 < (packageFiles size localeLe whole).length

/-- A call writes what is in an archive that was downloaded. -/
def Call.Sound (size : ν → ℕ) (localeLe : String → String → Bool) (version : String) (arch : Arch)
    (fetched : List (Archive ν)) : Call ν → Prop
  | .extracting todo files => ∃ archive ∈ fetched, ∃ done, archive.entries = done ++ todo ∧ files = extracted done
  | .sealed dir => ∃ archive ∈ fetched, dir.files = extracted archive.entries ∧
      ∃ manifest, dir.manifest = some manifest ∧ Records size localeLe version arch dir.files manifest
  | .published => True

structure Inv (size : ν → ℕ) (localeLe : String → String → Bool) (version : String) (arch : Arch) (w : World ν) :
    Prop where
  zip : ∀ zip, w.zip = some zip → zip ∈ w.fetched
  calls : ∀ p call, w.calls p = some call → call.Sound size localeLe version arch w.fetched
  dir : ∀ dir, w.dir = some dir → ∃ archive ∈ w.fetched, dir.files.Sublist (extracted archive.entries) ∧
    ∀ manifest, dir.manifest = some manifest →
      Records size localeLe version arch (extracted archive.entries) manifest

variable {w t : World ν}

theorem Call.Sound.mono {call : Call ν} {fetched fetched' : List (Archive ν)}
    (h : call.Sound size localeLe version arch fetched) (more : ∀ archive ∈ fetched, archive ∈ fetched') :
    call.Sound size localeLe version arch fetched' := by
  cases call with
  | extracting todo files =>
      obtain ⟨archive, listed, rest⟩ := h
      exact ⟨archive, more archive listed, rest⟩
  | «sealed» dir =>
      obtain ⟨archive, listed, rest⟩ := h
      exact ⟨archive, more archive listed, rest⟩
  | published => trivial

theorem Inv.call (h : Inv size localeLe version arch w) (p : ℕ) {call : Option (Call ν)}
    (sound : ∀ c, call = some c → c.Sound size localeLe version arch w.fetched) :
    Inv size localeLe version arch (w.call p call) := by
  refine ⟨h.zip, fun q c is => ?_, h.dir⟩
  change (if q = p then call else w.calls q) = some c at is
  split at is
  · exact sound c is
  · exact h.calls q c is

theorem Inv.less (h : Inv size localeLe version arch w) {dir : Dir ν} (is : w.dir = some dir) {files : Record ν}
    {manifest : Option PackageCacheManifest} (less : files.Sublist dir.files)
    (same : ∀ m, manifest = some m → dir.manifest = some m) :
    Inv size localeLe version arch { w with dir := some { files, manifest } } := by
  refine ⟨h.zip, h.calls, fun dir' is' => ?_⟩
  cases is'
  obtain ⟨archive, listed, part, records⟩ := h.dir dir is
  exact ⟨archive, listed, less.trans part, fun m given => records m (same m given)⟩

theorem Inv.write (h : Inv size localeLe version arch w) {p : ℕ} {name : String} {content : ν}
    {todo : List (String × ν)} {files : Record ν} (is : w.calls p = some (.extracting ((name, content) :: todo) files)) :
    Inv size localeLe version arch (w.call p (some (.extracting todo (files.set name content)))) := by
  refine h.call p fun c same => ?_
  cases same
  obtain ⟨archive, listed, done, whole, rfl⟩ := h.calls p _ is
  refine ⟨archive, listed, done ++ [(name, content)], by rw [whole, List.append_assoc]; rfl, ?_⟩
  rw [extracted, extracted, Record.assign, Record.assign, List.foldl_append]
  rfl

theorem Inv.seal (h : Inv size localeLe version arch w) {p : ℕ} {files : Record ν}
    (is : w.calls p = some (.extracting [] files)) (some_ : (packageFiles size localeLe files).length ≠ 0) (archiveSize : ℕ) :
    Inv size localeLe version arch
      (w.call p (some (.sealed ⟨files, some ⟨version, arch, archiveSize, packageFiles size localeLe files⟩⟩))) := by
  refine h.call p fun c same => ?_
  cases same
  obtain ⟨archive, listed, done, whole, rfl⟩ := h.calls p _ is
  rw [List.append_nil] at whole
  exact ⟨archive, listed, by rw [whole], _, rfl, rfl, rfl, rfl, Nat.pos_of_ne_zero some_⟩

theorem Inv.publish (h : Inv size localeLe version arch w) {p : ℕ} {dir : Dir ν}
    (is : w.calls p = some (.sealed dir)) :
    Inv size localeLe version arch { w.call p (some .published) with dir := some dir } := by
  have called : Inv size localeLe version arch (w.call p (some Call.published)) :=
    h.call p fun c same => by cases same; trivial
  refine ⟨called.zip, called.calls, fun dir' is' => ?_⟩
  cases is'
  obtain ⟨archive, listed, whole, manifest, has, records⟩ := h.calls p _ is
  refine ⟨archive, listed, by rw [whole], fun m given => ?_⟩
  rw [has] at given
  cases given
  rwa [whole] at records

theorem Inv.next (h : Inv size localeLe version arch w) {event : Event ν}
    (step : next size localeLe version arch w event = some t) : Inv size localeLe version arch t := by
  have nothing (p : ℕ) : Inv size localeLe version arch (w.call p none) := h.call p fun c is => nomatch is
  cases event with
  | fetch archive =>
      cases step
      have more : ∀ known ∈ w.fetched, known ∈ archive :: w.fetched := fun _ => List.mem_cons_of_mem archive
      refine ⟨fun zip is => ?_, fun p call is => (h.calls p call is).mono more, fun dir is => ?_⟩
      · cases is
        exact List.mem_cons_self
      · obtain ⟨known, listed, rest⟩ := h.dir dir is
        exact ⟨known, more known listed, rest⟩
  | evictZip =>
      cases step
      exact ⟨fun zip is => (nomatch is), h.calls, h.dir⟩
  | evictFile name =>
      obtain ⟨dir, is, rfl⟩ := Option.map_eq_some_iff.mp step
      exact h.less is List.filter_sublist fun _ given => given
  | evictManifest =>
      obtain ⟨dir, is, rfl⟩ := Option.map_eq_some_iff.mp step
      exact h.less is (List.Sublist.refl _) fun m given => (nomatch given)
  | evictDir =>
      cases step
      exact ⟨h.zip, h.calls, fun dir is => (nomatch is)⟩
  | begin p =>
      simp only [PackageCache.next] at step
      split at step
      · rename_i zip idle is
        cases step
        refine h.call p fun c same => ?_
        cases same
        exact ⟨zip, h.zip zip is, [], rfl, rfl⟩
      · cases step
  | write p =>
      simp only [PackageCache.next] at step
      split at step
      · rename_i name content todo files is
        cases step
        exact h.write is
      · cases step
  | «seal» p =>
      simp only [PackageCache.next] at step
      split at step
      · rename_i files zip is there
        split at step
        · cases step
          exact nothing p
        · rename_i some_
          cases step
          exact h.seal is some_ zip.size
      · cases step
        exact nothing p
      · cases step
  | publish p =>
      simp only [PackageCache.next] at step
      split at step
      · rename_i dir is
        split at step
        · cases step
          exact h.publish is
        · cases step
          exact nothing p
      · cases step
  | leave p =>
      simp only [PackageCache.next] at step
      split at step
      · cases step
        exact nothing p
      · cases step
  | crash p =>
      cases step
      exact nothing p

theorem inv_of_reachable (h : (system size localeLe version arch).Reachable w) : Inv size localeLe version arch w := by
  refine h.invariant ?_ fun s e t _ inv _ step => inv.next step
  rintro _ rfl
  exact ⟨fun zip is => (nomatch is), fun p call is => (nomatch is), fun dir is => (nomatch is)⟩

end Invariant

theorem nameWithin_eq_some {front rest name : List Char} (h : nameWithin front rest = some name) :
    ∃ behind, front ++ rest = name ++ behind ∧ startsVersion behind = true ∧ front.length < name.length := by
  induction rest generalizing front with
  | nil => cases h
  | cons c rest ih =>
      unfold nameWithin at h
      split at h
      · cases h
      · split at h
        · rename_i version
          cases h
          exact ⟨rest, by simp, version, by simp⟩
        · obtain ⟨behind, whole, version, longer⟩ := ih h
          refine ⟨behind, by simpa using whole, version, ?_⟩
          rw [List.length_append, List.length_singleton] at longer
          omega

theorem startsVersion_eq_true {rest : List Char} (h : startsVersion rest = true) :
    ∃ d behind, rest = '-' :: d :: behind ∧ d.isDigit = true := by
  unfold startsVersion at h
  split at h
  · rename_i rest
    split at h
    · rw [Bool.and_eq_true] at h
      cases rest with
      | nil => cases h.1
      | cons d behind => exact ⟨d, behind, rfl, h.1⟩
    · cases h
  · cases h

/-- Each package that is listed has a file that is found under its name. -/
theorem findPackageFile_isSome {files : List String} {name : String} (listed : name ∈ listAvailablePackages files) :
    ∃ file ∈ files, findPackageFile files name = some file := by
  rw [listAvailablePackages, List.mem_mergeSort, List.mem_filter, List.mem_map] at listed
  obtain ⟨⟨file, member, rfl⟩, filled⟩ := listed
  obtain ⟨member, package⟩ := List.mem_filter.mp member
  have found : (findPackageFile files (packageName file)).isSome = true := by
    rw [findPackageFile, List.find?_isSome]
    refine ⟨file, member, ?_⟩
    unfold packageName at filled ⊢
    cases is : nameWithin [] file.toList with
    | none =>
        rw [is] at filled
        exact absurd filled (by decide)
    | some name =>
        obtain ⟨behind, whole, version, -⟩ := nameWithin_eq_some is
        obtain ⟨d, behind, rfl, digit⟩ := startsVersion_eq_true version
        rw [List.nil_append] at whole
        have cut : file.toList = (name ++ ['-']) ++ d :: behind := by simp [whole]
        have start : (String.ofList ((some name).getD []) ++ "-").toList = name ++ ['-'] := by simp
        rw [start, package, cut, List.drop_left]
        simp [digit]
  obtain ⟨other, is⟩ := Option.isSome_iff_exists.mp found
  exact ⟨other, List.mem_of_find?_eq_some is, is⟩

structure Cache {ν : Type} (size : ν → ℕ) (localeLe : String → String → Bool) (version : String) (arch : Arch)
    extends World ν where
  reachable : (system size localeLe version arch).Reachable toWorld

/-- Whatever processes do, and wherever they crash: a cache that is taken for complete holds every package of an
archive that was downloaded, as it was there. What a call is about to move there is taken for complete, as long as the
archive has the size that it had, and each package that is then listed is found. -/
theorem intact {ν : Type} {size : ν → ℕ} {localeLe : String → String → Bool} {version : String} {arch : Arch}
    (cache : Cache size localeLe version arch) :
    (isCompletePackageCache size localeLe version arch cache.zip cache.dir = true →
      ∃ dir archive, cache.dir = some dir ∧ archive ∈ cache.fetched ∧
        dir.files.filter (recorded size) = (extracted archive.entries).filter (recorded size)) ∧
    (∀ p dir zip, cache.calls p = some (.sealed dir) →
      (isCompletePackageCache size localeLe version arch (some zip) (some dir) = true ↔
        zip.size ≠ 0 ∧ dir.manifest.map (·.archiveSize) = some zip.size)) ∧
    ∀ dir, cache.dir = some dir → ∀ name ∈ listAvailablePackages (dir.files.map Prod.fst),
      ∃ file ∈ dir.files.map Prod.fst, findPackageFile (dir.files.map Prod.fst) name = some file := by
  have inv := inv_of_reachable cache.reachable
  refine ⟨fun complete => ?_, fun p dir zip is => ?_, fun dir _ name listed => findPackageFile_isSome listed⟩
  · unfold isCompletePackageCache at complete
    split at complete
    · rename_i zip dir _ is
      split at complete
      · rename_i manifest has
        rw [decide_eq_true_iff] at complete
        obtain ⟨archive, listed, less, records⟩ := inv.dir dir is
        have same := (records manifest has).packages.symm.trans complete.2.2.2.2.2
        exact ⟨dir, archive, is, listed, recorded_of_same less same⟩
      · cases complete
    · cases complete
  · obtain ⟨archive, listed, whole, manifest, has, records⟩ := inv.calls p _ is
    unfold isCompletePackageCache
    dsimp only
    rw [has]
    dsimp only
    rw [decide_eq_true_iff, Option.map_some, Option.some.injEq]
    constructor
    · exact fun complete => ⟨complete.1, complete.2.2.2.1⟩
    · exact fun h => ⟨h.1, records.version, records.arch, h.2, records.some_, records.packages⟩

def wireless : Archive ℕ where
  size := 4096
  entries := [("wireless-7.22.npk", 1200)]

def byName (a b : String) : Bool := decide (a ≤ b)

theorem intact_published : ∃ (cache : Cache (ν := ℕ) id byName "7.22" .x86) (dir : Dir ℕ),
    cache.dir = some dir ∧ dir.files.filter (recorded id) = [("wireless-7.22.npk", 1200)] := by
  obtain ⟨w, reachable, complete, only⟩ := Transition.System.exists_reachable
    (S := system (ν := ℕ) id byName "7.22" .x86)
    (P := fun w => isCompletePackageCache id byName "7.22" .x86 w.zip w.dir = true ∧ w.fetched.map (·.entries) = [wireless.entries])
    [.fetch wireless, .begin 1, .write 1, .seal 1, .publish 1]
    (s := { zip := none, dir := none, calls := fun _ => none, fetched := [] }) rfl (by decide +kernel)
  obtain ⟨dir, archive, is, listed, files⟩ := (intact ⟨w, reachable⟩).1 complete
  have entries : archive.entries = wireless.entries := by
    have among := List.mem_map_of_mem (f := (·.entries)) listed
    rw [show (Cache.toWorld ⟨w, reachable⟩).fetched = w.fetched from rfl, only] at among
    exact List.mem_singleton.mp among
  refine ⟨⟨w, reachable⟩, dir, is, files.trans ?_⟩
  rw [entries]
  decide +kernel

end Quickchr.PackageCache
