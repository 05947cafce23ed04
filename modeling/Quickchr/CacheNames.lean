import Quickchr.Versions
import Mathlib.Data.List.Sort

/-!
# The names in the cache directory

Which names are an image, an image ZIP, a package archive, its extraction or an interrupted
download. Paths are names relative to the cache directory.
-/
namespace Quickchr

inductive FileType
  | file | directory | other
  deriving DecidableEq, Repr

/-- One name of the cache directory with its `stat`; a directory's size is what it holds. -/
structure CacheFile where
  name : String
  type : FileType
  sizeBytes : ℕ
  mtimeMs : ℕ
  deriving DecidableEq, Repr

def endsWith (s ending : String) : Bool := (s.toList.dropSuffix? ending.toList).isSome

/-- What a dot in a pattern does not match. -/
def isLineTerminator (c : Char) : Bool := c ∈ ['\n', '\r', '\u2028', '\u2029']

structure PackagesName where
  all : Bool
  arch : Arch
  version : String
  zip : Bool
  deriving DecidableEq, Repr

/-- The entry an archive and its extraction belong to. -/
def PackagesName.key (p : PackagesName) : String := s!"packages-{p.arch.text}-{p.version}"

/-- `(x86|arm64)-` -/
def takeArch (cs : List Char) : Option (Arch × List Char) :=
  match cs.dropPrefix? "x86-".toList with
  | some rest => some (.x86, rest)
  | none => (cs.dropPrefix? "arm64-".toList).map fun rest => (.arm64, rest)

/-- `(.+?)(\.zip)?$` -/
def takeZip (cs : List Char) : Option (List Char × Bool) :=
  let split :=
    match cs.dropSuffix? ".zip".toList with
    | some stem => if stem.isEmpty then (cs, false) else (stem, true)
    | none => (cs, false)
  if split.1.isEmpty || split.1.any isLineTerminator then none else some split

/-- `^(all_)?packages-(x86|arm64)-(.+?)(\.zip)?$` -/
def matchPackages (name : String) : Option PackagesName := do
  let (all, cs) :=
    match name.toList.dropPrefix? "all_".toList with
    | some rest => (true, rest)
    | none => (false, name.toList)
  let cs ← cs.dropPrefix? "packages-".toList
  let (arch, cs) ← takeArch cs
  let (version, zip) ← takeZip cs
  return ⟨all, arch, String.ofList version, zip⟩

/-- `^chr-(version)(-arm64)?$` -/
def matchImage (stem : List Char) : Option (String × Arch) := do
  let cs ← stem.dropPrefix? "chr-".toList
  let (version, arch) :=
    match cs.dropSuffix? "-arm64".toList with
    | some version => (version, Arch.arm64)
    | none => (cs, Arch.x86)
  if isValidVersion (String.ofList version) then some (String.ofList version, arch) else none

/-- `"unknown"` is `none` for the architecture and stays a text for the version. -/
def parseCacheBasename (basename : String) : String × Option Arch :=
  match matchPackages basename with
  | some packages =>
      (if isValidVersion packages.version then packages.version else "unknown", some packages.arch)
  | none =>
      let cs := basename.toList
      let stem :=
        ((cs.dropSuffix? ".img.zip".toList <|> cs.dropSuffix? ".zip".toList) <|>
          cs.dropSuffix? ".img".toList).getD cs
      match matchImage stem with
      | some (version, arch) => (version, some arch)
      | none => ("unknown", none)

/-- A file that `download.ts` writes into the cache. -/
def isManagedDownloadTarget (name : String) : Bool :=
  if endsWith name ".img.zip" then (parseCacheBasename name).1 != "unknown"
  else
    match matchPackages name with
    | some packages => packages.all && packages.zip && isValidVersion packages.version
    | none => false

def isLowerHex (c : Char) : Bool := c.isDigit || ('a' ≤ c && c ≤ 'f')

/-- `^(.+)\.(\d+)-[0-9a-f]+\.part$` -/
def matchPart (name : String) : Option (String × ℕ) := do
  let cs ← name.toList.dropSuffix? ".part".toList
  let before ← (cs.rdropWhile (· ≠ '.')).dropSuffix? ['.']
  let (pid, id) ← takeNumber (cs.rtakeWhile (· ≠ '.'))
  let '-' :: id := id | none
  if id.isEmpty || !id.all isLowerHex || before.isEmpty || before.any isLineTerminator then none
  else some (String.ofList before, pid)

/-- The archive, a file, or its extraction, a directory. -/
def packageArtifact (file : CacheFile) : Option PackagesName := do
  let packages ← matchPackages file.name
  let fits : Bool :=
    if packages.all && packages.zip then file.type = .file
    else !packages.all && !packages.zip && file.type = .directory
  if isValidVersion packages.version && fits then some packages else none

/-- A directory that an extraction works in. -/
def isExtraction (file : CacheFile) : Bool :=
  file.type = .directory &&
    (Text.startsWith file.name ".quickchr-image-" || Text.startsWith file.name ".quickchr-packages-")

example : parseCacheBasename "chr-7.20.8-arm64.img.zip" = ("7.20.8", some .arm64) := by decide +kernel

example : matchPart "chr-7.1.img.zip.314-0af.part" = some ("chr-7.1.img.zip", 314) := by
  decide +kernel

/-- A file or directory of one version and architecture that operations read. -/
inductive CacheInput
  | image (version : String) (arch : Arch)
  | imageZip (version : String) (arch : Arch)
  | packages (version : String) (arch : Arch)
  deriving DecidableEq, Repr

def CacheInput.pin : CacheInput → String
  | .image version arch => s!"{chrImageBasename version arch}.img"
  | .imageZip version arch => s!"{chrImageBasename version arch}.img.zip"
  | .packages version arch => s!"packages-{arch.text}-{version}"

def CacheInput.paths : CacheInput → List String
  | .image version arch => [s!"{chrImageBasename version arch}.img"]
  | .imageZip version arch => [s!"{chrImageBasename version arch}.img.zip"]
  | .packages version arch =>
      [s!"all_packages-{arch.text}-{version}.zip", s!"packages-{arch.text}-{version}"]

theorem dropSuffix?_eq_some {l rest ending : List Char} (h : l.dropSuffix? ending = some rest) :
    l = rest ++ ending := by
  obtain ⟨s', rfl, same⟩ := List.dropSuffix?_eq_some_iff.mp h
  rw [eq_of_beq same]

theorem endsWith_iff {s ending : String} (h : endsWith s ending = true) :
    ∃ before, s.toList = before ++ ending.toList := by
  obtain ⟨before, found⟩ := Option.isSome_iff_exists.mp h
  exact ⟨before, dropSuffix?_eq_some found⟩

theorem takeArch_eq_some {cs rest : List Char} {arch : Arch} (h : takeArch cs = some (arch, rest)) :
    cs = arch.text.toList ++ '-' :: rest := by
  unfold takeArch at h
  split at h
  · rename_i found
    cases h
    rw [Text.dropPrefix?_eq_some found]
    rfl
  · obtain ⟨rest', found, eq⟩ := Option.map_eq_some_iff.mp h
    cases eq
    rw [Text.dropPrefix?_eq_some found]
    rfl

theorem takeZip_eq_some {cs version : List Char} {zip : Bool} (h : takeZip cs = some (version, zip)) :
    cs = version ++ if zip then ".zip".toList else [] := by
  unfold takeZip at h
  obtain ⟨-, eq⟩ := Option.ite_none_left_eq_some.mp h
  have eq := Option.some.inj eq
  split at eq
  · rename_i stem found
    split at eq
    · cases eq
      exact (List.append_nil _).symm
    · cases eq
      exact dropSuffix?_eq_some found
  · cases eq
    exact (List.append_nil _).symm

/-- The name an archive or extraction of these parts has. -/
def PackagesName.chars (p : PackagesName) : List Char :=
  (if p.all then "all_".toList else []) ++ "packages-".toList ++ p.arch.text.toList ++
    '-' :: p.version.toList ++ if p.zip then ".zip".toList else []

theorem PackagesName.key_chars (p : PackagesName) :
    p.key.toList = "packages-".toList ++ p.arch.text.toList ++ '-' :: p.version.toList := by
  simp [PackagesName.key, toString]

theorem matchPackages_eq_some {name : String} {p : PackagesName} (h : matchPackages name = some p) :
    name.toList = p.chars := by
  unfold matchPackages at h
  dsimp only at h
  obtain ⟨afterPackages, packages, h⟩ := Option.bind_eq_some_iff.mp h
  obtain ⟨⟨arch, afterArch⟩, takesArch, h⟩ := Option.bind_eq_some_iff.mp h
  obtain ⟨⟨version, zip⟩, takesZip, h⟩ := Option.bind_eq_some_iff.mp h
  cases h
  have rest := takeZip_eq_some takesZip
  have arch := takeArch_eq_some takesArch
  have packages := Text.dropPrefix?_eq_some packages
  subst rest arch
  unfold PackagesName.chars
  split at packages
  · rename_i found
    dsimp only at packages ⊢
    rw [Text.dropPrefix?_eq_some found, packages]
    simp
  · dsimp only at packages ⊢
    rw [packages]
    simp

theorem not_endsInDigit {before ending : List Char} {c : Char} (last : ending.getLast? = some c)
    (noDigit : c.isDigit = false) : ¬ EndsInDigit (before ++ ending) := by
  rintro ⟨d, lastDigit, digit⟩
  rw [List.getLast?_append, last, Option.some_or] at lastDigit
  cases lastDigit
  rw [noDigit] at digit
  cases digit

theorem ends_differ {before before' ending ending' : List Char} {c d : Char}
    (eq : before ++ ending = before' ++ ending') (last : ending.getLast? = some c)
    (last' : ending'.getLast? = some d) : c = d := by
  have both := congrArg List.getLast? eq
  rw [List.getLast?_append, List.getLast?_append, last, last'] at both
  exact Option.some.inj both

/-- A name that ends like an image is no archive or extraction of a version. -/
theorem packages_not_image {name : String} {p : PackagesName} (h : matchPackages name = some p)
    (image : endsWith name ".img.zip" = true ∨ endsWith name ".img" = true) :
    isValidVersion p.version = false := by
  rw [Bool.eq_false_iff]
  intro valid
  have chars := matchPackages_eq_some h
  have ends := ((version_ends valid).cons '-').append
    ((if p.all then "all_".toList else []) ++ "packages-".toList ++ p.arch.text.toList)
  unfold PackagesName.chars at chars
  cases zip : p.zip with
  | false =>
      rw [zip, if_neg Bool.false_ne_true, List.append_nil] at chars
      rw [← chars] at ends
      rcases image with image | image <;> obtain ⟨before, eq⟩ := endsWith_iff image <;>
        rw [eq] at ends
      · exact not_endsInDigit (c := 'p') rfl rfl ends
      · exact not_endsInDigit (c := 'g') rfl rfl ends
  | true =>
      rw [zip, if_pos rfl] at chars
      rcases image with image | image <;> obtain ⟨before, eq⟩ := endsWith_iff image <;>
        rw [eq] at chars
      · have stem : before ++ ".img".toList ++ ".zip".toList = _ :=
          (List.append_assoc _ _ _).trans chars
        rw [← List.append_cancel_right stem] at ends
        exact not_endsInDigit (c := 'g') rfl rfl ends
      · exact absurd (ends_differ (c := 'g') (d := 'p') chars rfl rfl) (by decide)

theorem packages_head {name : String} {p : PackagesName} (h : matchPackages name = some p) :
    name.toList.head? = some (if p.all then 'a' else 'p') := by
  rw [matchPackages_eq_some h, PackagesName.chars]
  cases p.all <;> rfl

theorem stem_append (cs : List Char) :
    ∃ ending, cs = ((cs.dropSuffix? ".img.zip".toList <|> cs.dropSuffix? ".zip".toList) <|>
      cs.dropSuffix? ".img".toList).getD cs ++ ending := by
  cases imgZip : cs.dropSuffix? ".img.zip".toList with
  | some stem => exact ⟨_, dropSuffix?_eq_some imgZip⟩
  | none =>
      cases zip : cs.dropSuffix? ".zip".toList with
      | some stem => exact ⟨_, dropSuffix?_eq_some zip⟩
      | none =>
          cases img : cs.dropSuffix? ".img".toList with
          | some stem => exact ⟨_, dropSuffix?_eq_some img⟩
          | none => exact ⟨[], (List.append_nil cs).symm⟩

/-- A name with a known version is a package name or starts with `c`. -/
theorem known_head {name : String} (h : (parseCacheBasename name).1 ≠ "unknown") :
    (∃ p, matchPackages name = some p ∧ isValidVersion p.version = true) ∨
      name.toList.head? = some 'c' := by
  unfold parseCacheBasename at h
  split at h
  · rename_i p found
    refine .inl ⟨p, found, ?_⟩
    by_contra invalid
    exact h (if_neg invalid)
  · dsimp only at h
    split at h
    · rename_i stem version arch image
      refine .inr ?_
      obtain ⟨rest, chr, -⟩ := Option.bind_eq_some_iff.mp image
      obtain ⟨ending, eq⟩ := stem_append name.toList
      rw [eq, Text.dropPrefix?_eq_some chr]
      rfl
    · exact absurd rfl h

theorem managed_head {name : String} (h : isManagedDownloadTarget name = true) :
    name.toList.head? = some 'c' ∨ name.toList.head? = some 'a' := by
  unfold isManagedDownloadTarget at h
  split at h
  · rename_i imgZip
    rcases known_head (bne_iff_ne.mp h) with ⟨p, found, valid⟩ | chr
    · rw [packages_not_image found (.inl imgZip)] at valid
      cases valid
    · exact .inl chr
  · split at h
    · rename_i p found
      refine .inr ?_
      have all : p.all = true := (Bool.and_eq_true_iff.mp (Bool.and_eq_true_iff.mp h).1).1
      rw [packages_head found, all, if_pos rfl]
    · cases h

/-- `<target>.<digits>-<hex>.part` -/
structure PartOf (target name : String) (digits id : List Char) : Prop where
  chars : name.toList = target.toList ++ '.' :: (digits ++ '-' :: (id ++ ".part".toList))
  digits : Digits digits
  nonempty : id ≠ []
  hex : ∀ c ∈ id, isLowerHex c = true

theorem rdropWhile_append_rtakeWhile (p : Char → Bool) (cs : List Char) :
    cs.rdropWhile p ++ cs.rtakeWhile p = cs := by
  rw [List.rdropWhile, List.rtakeWhile, ← List.reverse_append, List.takeWhile_append_dropWhile,
    List.reverse_reverse]

theorem matchPart_parts {name target : String} {pid : ℕ} (h : matchPart name = some (target, pid)) :
    target.toList ≠ [] ∧ ∃ digits id, PartOf target name digits id := by
  unfold matchPart at h
  obtain ⟨cs, ending, h⟩ := Option.bind_eq_some_iff.mp h
  obtain ⟨before, dot, h⟩ := Option.bind_eq_some_iff.mp h
  obtain ⟨⟨n, after⟩, number, h⟩ := Option.bind_eq_some_iff.mp h
  obtain ⟨digits, isNumber, tail⟩ := takeNumber_digits number
  dsimp only at h
  split at h
  · rename_i id
    obtain ⟨good, eq⟩ := Option.ite_none_left_eq_some.mp h
    cases eq
    simp only [Bool.or_eq_true, List.isEmpty_iff, Bool.not_eq_true', List.all_eq_false,
      Bool.not_eq_true, not_or, not_exists, not_and, Bool.not_eq_false] at good
    rw [String.toList_ofList]
    refine ⟨good.1.2, digits, id, ?_, isNumber, good.1.1.1, good.1.1.2⟩
    have whole := rdropWhile_append_rtakeWhile (fun c => decide (c ≠ '.')) cs
    rw [dropSuffix?_eq_some dot, tail] at whole
    rw [dropSuffix?_eq_some ending, ← whole, String.toList_ofList]
    simp
  · cases h

theorem matchPart_eq_some {name : String} {part : String × ℕ} (h : matchPart name = some part) :
    (∃ before, name.toList = before ++ ".part".toList) ∧
      part.1.toList.head? = name.toList.head? := by
  obtain ⟨nonempty, digits, id, is⟩ := matchPart_parts h
  rw [is.chars]
  refine ⟨⟨part.1.toList ++ '.' :: (digits ++ '-' :: id), by simp⟩, ?_⟩
  rw [List.head?_append_of_ne_nil _ nonempty]

theorem endsWith_append (s ending : String) : endsWith (s ++ ending) ending = true := by
  rw [endsWith, String.toList_append]
  exact Option.isSome_iff_exists.mpr ⟨s.toList, List.dropSuffix?_eq_some_iff.mpr ⟨_, rfl, BEq.rfl⟩⟩

theorem image_head (version ending : String) (arch : Arch) :
    (toString (chrImageBasename version arch) ++ ending).toList.head? = some 'c' := by
  unfold chrImageBasename
  split <;> simp [toString]

/-- A path of an input is the name of an image or image ZIP, which is the pin itself, or of the
archive or extraction that the pinned key stands for. -/
theorem CacheInput.paths_chars {input : CacheInput} {name : String} (h : name ∈ input.paths) :
    (name = input.pin ∧ name.toList.head? = some 'c' ∧
        (endsWith name ".img.zip" = true ∨ endsWith name ".img" = true)) ∨
      ∃ version arch, input = .packages version arch ∧
        (name.toList = "all_packages-".toList ++ arch.text.toList ++ '-' :: version.toList ++
            ".zip".toList ∨
          name.toList = "packages-".toList ++ arch.text.toList ++ '-' :: version.toList) := by
  cases input with
  | image version arch =>
      rw [CacheInput.paths, List.mem_singleton] at h
      refine .inl ⟨h, ?_, .inr ?_⟩
      · rw [h]
        exact image_head version _ arch
      · rw [h]
        exact endsWith_append _ _
  | imageZip version arch =>
      rw [CacheInput.paths, List.mem_singleton] at h
      refine .inl ⟨h, ?_, .inl ?_⟩
      · rw [h]
        exact image_head version _ arch
      · rw [h]
        exact endsWith_append _ _
  | packages version arch =>
      refine .inr ⟨version, arch, rfl, ?_⟩
      simp only [CacheInput.paths, List.mem_cons, List.not_mem_nil, or_false] at h
      rcases h with rfl | rfl
      · left
        simp [toString]
      · right
        simp [toString]

/-- No prune takes a path of an input for an interrupted download. -/
theorem CacheInput.no_download {input : CacheInput} {file : CacheFile}
    (h : file.name ∈ input.paths) :
    (¬ ∃ part, matchPart file.name = some part ∧ isManagedDownloadTarget part.1 = true) ∧
      isExtraction file = false := by
  constructor
  · rintro ⟨part, found, managed⟩
    obtain ⟨⟨before, ending⟩, head⟩ := matchPart_eq_some found
    rcases CacheInput.paths_chars h with ⟨-, -, image⟩ | ⟨version, arch, -, chars | chars⟩
    · rcases image with image | image <;> obtain ⟨before', image⟩ := endsWith_iff image
      · exact absurd (ends_differ (c := 'p') (d := 't') (image.symm.trans ending) rfl rfl) (by decide)
      · exact absurd (ends_differ (c := 'g') (d := 't') (image.symm.trans ending) rfl rfl) (by decide)
    · exact absurd (ends_differ (c := 'p') (d := 't') (chars.symm.trans ending) rfl rfl) (by decide)
    · rw [chars] at head
      rcases managed_head managed with other | other <;> rw [other] at head <;> cases head
  · rw [Bool.eq_false_iff]
    intro extraction
    have dot : file.name.toList.head? = some '.' := by
      rcases Bool.or_eq_true_iff.mp (Bool.and_eq_true_iff.mp extraction).2 with starts | starts <;>
        obtain ⟨rest, eq⟩ := List.isPrefixOf_iff_prefix.mp starts <;> rw [← eq] <;> rfl
    rcases CacheInput.paths_chars h with ⟨-, head, -⟩ | ⟨version, arch, -, chars | chars⟩
    · rw [head] at dot
      cases dot
    · rw [chars] at dot
      cases dot
    · rw [chars] at dot
      cases dot

/-- What is grouped under a path of an input is grouped under its pin. -/
theorem CacheInput.artifact {input : CacheInput} {file : CacheFile} {p : PackagesName}
    (h : file.name ∈ input.paths) (found : packageArtifact file = some p) : p.key = input.pin := by
  obtain ⟨packages, matched, found⟩ := Option.bind_eq_some_iff.mp found
  obtain ⟨good, eq⟩ := Option.ite_none_right_eq_some.mp found
  cases eq
  have own := matchPackages_eq_some matched
  have head := packages_head matched
  rcases CacheInput.paths_chars h with ⟨-, chr, -⟩ | ⟨version, arch, rfl, chars⟩
  · rw [chr] at head
    cases all : p.all <;> rw [all] at head <;> cases head
  · have same : p.all = p.zip := by
      have fits := (Bool.and_eq_true_iff.mp good).2
      cases all : p.all <;> cases zip : p.zip <;> rw [all, zip] at fits <;>
        first | rfl | exact absurd fits Bool.false_ne_true
    rw [← String.toList_inj, PackagesName.key_chars]
    have pin : (CacheInput.packages version arch).pin.toList =
        "packages-".toList ++ arch.text.toList ++ '-' :: version.toList := by
      simp [CacheInput.pin, toString]
    rw [pin]
    cases zip : p.zip with
    | false =>
        rw [PackagesName.chars, same, zip] at own
        rcases chars with chars | chars <;> rw [own] at chars
        · cases chars
        · simpa using chars
    | true =>
        rw [PackagesName.chars, same, zip] at own
        rcases chars with chars | chars <;> rw [own] at chars
        · have stem := List.append_cancel_right chars
          exact @List.append_cancel_left _ "all_".toList _ _ stem
        · cases chars

theorem CacheInput.single {input : CacheInput} {file : CacheFile} (h : file.name ∈ input.paths)
    (known : (parseCacheBasename file.name).1 ≠ "unknown")
    (image : endsWith file.name ".img.zip" = true ∨ endsWith file.name ".img" = true) :
    file.name = input.pin := by
  rcases CacheInput.paths_chars h with ⟨pin, -⟩ | ⟨version, arch, -, chars⟩
  · exact pin
  · rcases known_head known with ⟨p, found, valid⟩ | head
    · rw [packages_not_image found image] at valid
      cases valid
    · rcases chars with chars | chars <;> rw [chars] at head <;> cases head

end Quickchr
