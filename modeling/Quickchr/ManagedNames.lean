import Quickchr.CacheNames

/-!
# The names quickchr writes

Each name that is written into the cache directory is read back as what it was written for, and
what is read as such a name was written so.
-/
namespace Quickchr

theorem dropSuffix?_append (before ending : List Char) :
    (before ++ ending).dropSuffix? ending = some before :=
  List.dropSuffix?_eq_some_iff.mpr ⟨ending, rfl, BEq.rfl⟩

theorem dropSuffix?_differs {cs ending : List Char} {c d : Char} (last : cs.getLast? = some c)
    (last' : ending.getLast? = some d) (differ : c ≠ d) : cs.dropSuffix? ending = none := by
  cases found : cs.dropSuffix? ending with
  | none => rfl
  | some before =>
      rw [dropSuffix?_eq_some found, List.getLast?_append, last', Option.some_or] at last
      exact absurd (Option.some.inj last).symm differ

theorem EndsInDigit.dropSuffix? {cs ending : List Char} (h : EndsInDigit cs) {c : Char}
    (last : ending.getLast? = some c) (noDigit : c.isDigit = false) :
    cs.dropSuffix? ending = none := by
  obtain ⟨d, ends, digit⟩ := h
  refine dropSuffix?_differs ends last ?_
  rintro rfl
  rw [noDigit] at digit
  cases digit

theorem dropSuffix?_none_of_mem {cs ending : List Char} {c : Char} (inside : c ∈ ending)
    (outside : c ∉ cs) : cs.dropSuffix? ending = none := by
  cases found : cs.dropSuffix? ending with
  | none => rfl
  | some before =>
      rw [dropSuffix?_eq_some found] at outside
      exact absurd (List.mem_append_right _ inside) outside

theorem VersionChar.not_lineTerminator {c : Char} (h : VersionChar c) :
    isLineTerminator c = false := by
  rcases h with digit | letter
  · refine decide_eq_false fun terminator => ?_
    simp only [List.mem_cons, List.not_mem_nil, or_false] at terminator
    rcases terminator with rfl | rfl | rfl | rfl <;> revert digit <;> decide
  · have letters : ∀ c ∈ ".betarc".toList, isLineTerminator c = false := by simp [isLineTerminator]
    exact letters c letter

theorem version_one_line {version : String} (h : isValidVersion version = true) :
    version.toList.any isLineTerminator = false :=
  List.any_eq_false.mpr fun c member =>
    Bool.not_eq_true _ ▸ (version_chars h c member).not_lineTerminator

theorem EndsInDigit.ne_nil {cs : List Char} (h : EndsInDigit cs) : cs ≠ [] := by
  rintro rfl
  obtain ⟨c, last, -⟩ := h
  cases last

theorem takeArch_text (arch : Arch) (rest : List Char) :
    takeArch (arch.text.toList ++ '-' :: rest) = some (arch, rest) := by
  cases arch with
  | x86 =>
      have found : ("x86".toList ++ '-' :: rest).dropPrefix? "x86-".toList = some rest :=
        Text.dropPrefix?_append "x86-".toList rest
      rw [takeArch, Arch.text, found]
  | arm64 =>
      have other : ("arm64".toList ++ '-' :: rest).dropPrefix? "x86-".toList = none := rfl
      have found : ("arm64".toList ++ '-' :: rest).dropPrefix? "arm64-".toList = some rest :=
        Text.dropPrefix?_append "arm64-".toList rest
      rw [takeArch, Arch.text, other, found]
      rfl

theorem takeZip_version {version : String} (h : isValidVersion version = true) (zip : Bool) :
    takeZip (version.toList ++ if zip then ".zip".toList else []) = some (version.toList, zip) := by
  have nonempty : version.toList.isEmpty = false :=
    List.isEmpty_eq_false_iff.mpr (version_ends h).ne_nil
  unfold takeZip
  cases zip with
  | false =>
      have noZip : version.toList.dropSuffix? ".zip".toList = none :=
        (version_ends h).dropSuffix? (c := 'p') rfl rfl
      simp only [Bool.false_eq_true, if_false, List.append_nil, noZip, nonempty, version_one_line h,
        Bool.or_false]
  | true =>
      simp only [if_true, dropSuffix?_append, nonempty, version_one_line h, Bool.or_false,
        Bool.false_eq_true, if_false]

theorem matchPackages_chars {name : String} {p : PackagesName} (chars : name.toList = p.chars)
    (valid : isValidVersion p.version = true) : matchPackages name = some p := by
  obtain ⟨all, arch, version, zip⟩ := p
  unfold matchPackages
  rw [chars]
  cases all with
  | true =>
      simp only [PackagesName.chars, if_true, List.append_assoc, Text.dropPrefix?_append,
        Option.bind_eq_bind, Option.bind_some]
      rw [List.cons_append, takeArch_text]
      simp only [Option.bind_some, takeZip_version valid, String.ofList_toList]
      rfl
  | false =>
      have other (rest : List Char) :
          ([] ++ ("packages-".toList ++ rest)).dropPrefix? "all_".toList = none := rfl
      simp only [PackagesName.chars, Bool.false_eq_true, if_false, List.append_assoc, other]
      rw [List.nil_append, Text.dropPrefix?_append]
      simp only [Option.bind_eq_bind, Option.bind_some]
      rw [List.cons_append, takeArch_text]
      simp only [Option.bind_some, takeZip_version valid, String.ofList_toList]
      rfl

theorem parse_packages {name : String} {p : PackagesName} (chars : name.toList = p.chars)
    (valid : isValidVersion p.version = true) :
    parseCacheBasename name = (p.version, some p.arch) := by
  rw [parseCacheBasename, matchPackages_chars chars valid]
  exact congrArg (·, some p.arch) (if_pos valid)

def imageStem (version : String) (arch : Arch) : List Char :=
  "chr-".toList ++ (version.toList ++ if arch = .arm64 then "-arm64".toList else [])

theorem chrImageBasename_chars (version : String) (arch : Arch) :
    (chrImageBasename version arch).toList = imageStem version arch := by
  unfold chrImageBasename imageStem
  split <;> simp [toString]

theorem imageStem_ends {version : String} (h : isValidVersion version = true) (arch : Arch) :
    EndsInDigit (imageStem version arch) := by
  cases arch with
  | x86 =>
      rw [imageStem, if_neg (by decide), List.append_nil]
      exact (version_ends h).append _
  | arm64 =>
      rw [imageStem, if_pos rfl]
      exact .append (.append ⟨'4', rfl, rfl⟩ _) _

theorem matchImage_stem {version : String} (h : isValidVersion version = true) (arch : Arch) :
    matchImage (imageStem version arch) = some (version, arch) := by
  unfold matchImage
  rw [imageStem, Text.dropPrefix?_append]
  cases arch with
  | x86 =>
      have other : version.toList.dropSuffix? "-arm64".toList = none := by
        refine dropSuffix?_none_of_mem (c := '-') (by decide) fun member => ?_
        rcases version_chars h _ member with digit | letter
        · cases digit
        · revert letter
          decide
      rw [if_neg (by decide), List.append_nil]
      simp only [Option.bind_eq_bind, Option.bind_some, other, String.ofList_toList, h, if_true]
  | arm64 =>
      simp only [Option.bind_eq_bind, Option.bind_some, if_true, dropSuffix?_append,
        String.ofList_toList, h]

theorem matchImage_eq_some {stem : List Char} {version : String} {arch : Arch}
    (h : matchImage stem = some (version, arch)) :
    isValidVersion version = true ∧ stem = imageStem version arch := by
  unfold matchImage at h
  obtain ⟨rest, chr, h⟩ := Option.bind_eq_some_iff.mp h
  rw [Text.dropPrefix?_eq_some chr]
  cases arm : rest.dropSuffix? "-arm64".toList with
  | some before =>
      simp only [arm, Option.ite_none_right_eq_some, Option.some.injEq, Prod.mk.injEq] at h
      obtain ⟨valid, rfl, rfl⟩ := h
      rw [dropSuffix?_eq_some arm, imageStem, @String.toList_ofList before, if_pos rfl]
      exact ⟨valid, rfl⟩
  | none =>
      simp only [arm, Option.ite_none_right_eq_some, Option.some.injEq, Prod.mk.injEq] at h
      obtain ⟨valid, rfl, rfl⟩ := h
      rw [imageStem, @String.toList_ofList rest, if_neg (by decide), List.append_nil]
      exact ⟨valid, rfl⟩

theorem no_packages {name : String} (head : name.toList.head? = some 'c') :
    matchPackages name = none := by
  cases found : matchPackages name with
  | none => rfl
  | some p =>
      rw [packages_head found] at head
      cases all : p.all <;> rw [all] at head <;> cases head

theorem parse_no_packages {name : String} (h : matchPackages name = none) {stem : List Char}
    (drop : ((name.toList.dropSuffix? ".img.zip".toList <|> name.toList.dropSuffix? ".zip".toList) <|>
      name.toList.dropSuffix? ".img".toList).getD name.toList = stem) :
    parseCacheBasename name =
      match matchImage stem with
      | some (version, arch) => (version, some arch)
      | none => ("unknown", none) := by
  subst drop
  unfold parseCacheBasename
  split
  · rename_i packages found
    rw [h] at found
    cases found
  · rfl

/-- Reading a name inverts writing it, with or without the ending of an image or image ZIP. -/
theorem parse_image {version : String} (h : isValidVersion version = true) (arch : Arch)
    {name : String} {ending : List Char} (chars : name.toList = imageStem version arch ++ ending)
    (known : ending = [] ∨ ending = ".img".toList ∨ ending = ".img.zip".toList) :
    parseCacheBasename name = (version, some arch) := by
  have head : name.toList.head? = some 'c' := by
    rw [chars]
    rfl
  refine (parse_no_packages (no_packages head) ?_).trans (by rw [matchImage_stem h arch])
  rw [chars]
  rcases known with rfl | rfl | rfl
  · have ends := imageStem_ends h arch
    rw [List.append_nil, ends.dropSuffix? (c := 'p') rfl rfl, ends.dropSuffix? (c := 'p') rfl rfl,
      ends.dropSuffix? (c := 'g') rfl rfl]
    rfl
  · have last : (imageStem version arch ++ ".img".toList).getLast? = some 'g' := by
      rw [List.getLast?_append]
      rfl
    rw [dropSuffix?_append, dropSuffix?_differs (d := 'p') last rfl (by decide),
      dropSuffix?_differs (d := 'p') last rfl (by decide)]
    rfl
  · rw [dropSuffix?_append]
    rfl

/-- The file of a known version that ends like an image was written as one. -/
theorem image_of_known {name : String} (known : (parseCacheBasename name).1 ≠ "unknown")
    {ending : List Char} (image : ending = ".img.zip".toList ∨ ending = ".img".toList)
    {before : List Char} (ends : name.toList = before ++ ending) :
    ∃ version arch, isValidVersion version = true ∧ name.toList = imageStem version arch ++ ending := by
  have imageName : endsWith name ".img.zip" = true ∨ endsWith name ".img" = true := by
    simp only [endsWith, ends]
    rcases image with rfl | rfl
    · exact .inl (by rw [dropSuffix?_append]; rfl)
    · exact .inr (by rw [dropSuffix?_append]; rfl)
  have none : matchPackages name = none := by
    cases found : matchPackages name with
    | none => rfl
    | some p =>
        rw [parseCacheBasename, found] at known
        exact absurd (if_neg (by rw [packages_not_image found imageName]; decide)) known
  have stem : ((name.toList.dropSuffix? ".img.zip".toList <|> name.toList.dropSuffix? ".zip".toList) <|>
      name.toList.dropSuffix? ".img".toList).getD name.toList = before := by
    rw [ends]
    rcases image with rfl | rfl
    · rw [dropSuffix?_append]
      rfl
    · have last : (before ++ ".img".toList).getLast? = some 'g' := by
        rw [List.getLast?_append]
        rfl
      rw [dropSuffix?_append, dropSuffix?_differs (d := 'p') last rfl (by decide),
        dropSuffix?_differs (d := 'p') last rfl (by decide)]
      rfl
  rw [parse_no_packages none stem] at known
  cases matched : matchImage before with
  | none =>
      rw [matched] at known
      exact absurd rfl known
  | some found =>
      obtain ⟨version, arch⟩ := found
      obtain ⟨valid, rfl⟩ := matchImage_eq_some matched
      exact ⟨version, arch, valid, ends⟩

theorem split_at_last {before after : List Char} {c : Char} (h : c ∉ after) :
    (before ++ c :: after).rdropWhile (· ≠ c) = before ++ [c] ∧
      (before ++ c :: after).rtakeWhile (· ≠ c) = after := by
  have others : ∀ x ∈ after.reverse, decide (x ≠ c) = true := fun x member =>
    decide_eq_true fun same => h (same ▸ List.mem_reverse.mp member)
  have whole : (before ++ c :: after).reverse = after.reverse ++ c :: before.reverse := by simp
  constructor
  · rw [List.rdropWhile, whole, List.dropWhile_append_of_pos others, List.dropWhile_cons_of_neg]
    · simp
    · simp
  · rw [List.rtakeWhile, whole, List.takeWhile_append_of_pos others, List.takeWhile_cons_of_neg]
    · simp
    · simp

theorem isLowerHex_ne_dot {c : Char} (h : isLowerHex c = true) : c ≠ '.' := by
  rintro rfl
  cases h

theorem matchPart_of {target name : String} {digits id : List Char}
    (part : PartOf target name digits id) (nonempty : target.toList ≠ [])
    (line : target.toList.any isLineTerminator = false) :
    matchPart name = some (target, Nat.ofDigitChars 10 digits 0) := by
  have noDot : '.' ∉ digits ++ '-' :: id := by
    intro member
    rcases List.mem_append.mp member with digit | member
    · cases part.digits.all _ digit
    · rcases List.mem_cons.mp member with other | hex
      · revert other
        decide
      · exact isLowerHex_ne_dot (part.hex _ hex) rfl
  obtain ⟨before, after⟩ := @split_at_last target.toList _ '.' noDot
  have chars : name.toList = target.toList ++ '.' :: (digits ++ '-' :: id) ++ ".part".toList := by
    rw [part.chars]
    simp
  have dash : ∀ c, ('-' :: id).head? = some c → c.isDigit = false := by
    rintro c ⟨⟩
    rfl
  unfold matchPart
  rw [chars, dropSuffix?_append]
  simp only [Option.bind_eq_bind, Option.bind_some, before, after, dropSuffix?_append,
    takeNumber_append part.digits dash]
  rw [if_neg, String.ofList_toList]
  simp only [List.isEmpty_eq_false_iff.mpr part.nonempty, List.all_eq_true.mpr part.hex,
    List.isEmpty_eq_false_iff.mpr nonempty, line]
  decide

inductive DownloadTarget (version : String) (arch : Arch) : String → Prop
  | imageZip : DownloadTarget version arch s!"{chrImageBasename version arch}.img.zip"
  | archive : DownloadTarget version arch s!"all_packages-{arch.text}-{version}.zip"

inductive WrittenFor (version : String) (arch : Arch) (f : CacheFile) : Prop
  | image (type : f.type = .file) (name : f.name = s!"{chrImageBasename version arch}.img")
  | imageZip (type : f.type = .file) (name : f.name = s!"{chrImageBasename version arch}.img.zip")
  | packages (type : f.type = .directory) (name : f.name = s!"packages-{arch.text}-{version}")
  | archive (type : f.type = .file) (name : f.name = s!"all_packages-{arch.text}-{version}.zip")
  | download {target : String} {digits id : List Char} (own : DownloadTarget version arch target)
      (part : PartOf target f.name digits id)

/-- The parts of the name of an archive or an extraction. -/
def packagesName (all : Bool) (version : String) (arch : Arch) : PackagesName :=
  ⟨all, arch, version, all⟩

theorem archive_chars (version : String) (arch : Arch) :
    s!"all_packages-{arch.text}-{version}.zip".toList = (packagesName true version arch).chars := by
  simp [PackagesName.chars, packagesName, toString]

theorem extraction_chars (version : String) (arch : Arch) :
    s!"packages-{arch.text}-{version}".toList = (packagesName false version arch).chars := by
  simp [PackagesName.chars, packagesName, toString]

theorem image_chars (version : String) (arch : Arch) :
    s!"{chrImageBasename version arch}.img".toList = imageStem version arch ++ ".img".toList := by
  rw [← chrImageBasename_chars]
  simp [toString]

theorem imageZip_chars (version : String) (arch : Arch) :
    s!"{chrImageBasename version arch}.img.zip".toList =
      imageStem version arch ++ ".img.zip".toList := by
  rw [← chrImageBasename_chars]
  simp [toString]

section Valid

variable {version : String} (valid : isValidVersion version = true) (arch : Arch)
include valid

theorem imageStem_one_line : (imageStem version arch).any isLineTerminator = false := by
  cases arch with
  | x86 =>
      rw [imageStem, if_neg (by decide), List.append_nil, List.any_append, version_one_line valid]
      rfl
  | arm64 =>
      rw [imageStem, if_pos rfl, List.any_append, List.any_append, version_one_line valid]
      rfl

theorem DownloadTarget.parse {target : String} (h : DownloadTarget version arch target) :
    parseCacheBasename target = (version, some arch) := by
  cases h with
  | imageZip => exact parse_image valid arch (imageZip_chars version arch) (.inr (.inr rfl))
  | archive => exact parse_packages (archive_chars version arch) valid

theorem DownloadTarget.managed {target : String} (h : DownloadTarget version arch target) :
    isManagedDownloadTarget target = true := by
  have parse := h.parse valid
  cases h with
  | imageZip =>
      have known : version ≠ "unknown" := by
        rintro rfl
        revert valid
        decide
      rw [isManagedDownloadTarget, parse, if_pos]
      · exact bne_iff_ne.mpr known
      · rw [endsWith, imageZip_chars, dropSuffix?_append]
        rfl
  | archive =>
      have found := matchPackages_chars (archive_chars version arch) valid
      have noImage : ¬ endsWith s!"all_packages-{arch.text}-{version}.zip" ".img.zip" = true := by
        intro image
        have invalid := packages_not_image found (.inl image)
        rw [packagesName, valid] at invalid
        cases invalid
      rw [isManagedDownloadTarget, if_neg noImage, found]
      simp only [packagesName, valid, Bool.and_self]

theorem DownloadTarget.nonempty {target : String} (h : DownloadTarget version arch target) :
    target.toList ≠ [] := by
  intro empty
  rcases managed_head (h.managed valid) with head | head <;> rw [empty] at head <;> cases head

theorem DownloadTarget.one_line {target : String} (h : DownloadTarget version arch target) :
    target.toList.any isLineTerminator = false := by
  cases h with
  | imageZip =>
      rw [imageZip_chars, List.any_append, imageStem_one_line valid]
      rfl
  | archive =>
      rw [archive_chars]
      cases arch with
      | x86 =>
          simp only [PackagesName.chars, packagesName, List.any_append, List.any_cons,
            version_one_line valid]
          rfl
      | arm64 =>
          simp only [PackagesName.chars, packagesName, List.any_append, List.any_cons,
            version_one_line valid]
          rfl

theorem DownloadTarget.part {target name : String} {digits id : List Char}
    (h : DownloadTarget version arch target) (part : PartOf target name digits id) :
    matchPart name = some (target, Nat.ofDigitChars 10 digits 0) :=
  matchPart_of part (h.nonempty valid) (h.one_line valid)

end Valid

theorem managed_target {target : String} (h : isManagedDownloadTarget target = true) :
    ∃ version arch, isValidVersion version = true ∧ DownloadTarget version arch target := by
  unfold isManagedDownloadTarget at h
  split at h
  · rename_i image
    obtain ⟨before, ends⟩ := endsWith_iff image
    obtain ⟨version, arch, valid, chars⟩ := image_of_known (bne_iff_ne.mp h) (.inl rfl) ends
    rw [← imageZip_chars, String.toList_inj] at chars
    exact ⟨version, arch, valid, chars ▸ .imageZip⟩
  · split at h
    · rename_i p found
      obtain ⟨shape, valid⟩ := Bool.and_eq_true_iff.mp h
      obtain ⟨all, zip⟩ := Bool.and_eq_true_iff.mp shape
      have same : p = packagesName true p.version p.arch := by
        obtain ⟨pAll, arch, version, pZip⟩ := p
        simp only at all zip
        rw [packagesName, all, zip]
      have chars := matchPackages_eq_some found
      rw [same, ← archive_chars, String.toList_inj] at chars
      exact ⟨p.version, p.arch, valid, chars ▸ .archive⟩
    · cases h

theorem packageArtifact_iff {f : CacheFile} {p : PackagesName} :
    packageArtifact f = some p ↔ isValidVersion p.version = true ∧ f.name.toList = p.chars ∧
      (p = packagesName true p.version p.arch ∧ f.type = .file ∨
        p = packagesName false p.version p.arch ∧ f.type = .directory) := by
  constructor
  · intro h
    obtain ⟨packages, matched, found⟩ := Option.bind_eq_some_iff.mp h
    obtain ⟨good, eq⟩ := Option.ite_none_right_eq_some.mp found
    cases eq
    obtain ⟨valid, fits⟩ := Bool.and_eq_true_iff.mp good
    refine ⟨valid, matchPackages_eq_some matched, ?_⟩
    obtain ⟨all, arch, version, zip⟩ := p
    cases all <;> cases zip <;> simp_all [packagesName]
  · rintro ⟨valid, chars, ⟨shape, type⟩ | ⟨shape, type⟩⟩
    · rw [packageArtifact, matchPackages_chars chars valid, shape]
      simp [packagesName, valid, type]
    · rw [packageArtifact, matchPackages_chars chars valid, shape]
      simp [packagesName, valid, type]

end Quickchr
