import Quickchr.Lib.NumberOrder

/-!
# RouterOS versions

`X.Y`, `X.Y.Z`, and either with `betaN` or `rcN` after it. Versions are compared by their numbers
read as doubles: one of more than 308 digits is read as infinity, and the difference of two
infinities is no number; one above 2^53 may be read as its neighbour.
-/
namespace Quickchr

inductive Arch
  | arm64 | x86
  deriving DecidableEq, Repr

def Arch.text : Arch → String
  | .arm64 => "arm64"
  | .x86 => "x86"

def isRouterOs6 (version : String) : Bool := Text.startsWith version "6."

def ROUTEROS6_BOOT_ONLY : String :=
  "RouterOS 6 is a best-effort boot-only target: quickchr downloads, boots and tracks it, and " ++
    "runs no provisioning or REST operations on it."

/-- A beta is older than an rc, which is older than the final release. -/
inductive Stage
  | beta | rc | release
  deriving DecidableEq, Repr

def Stage.rank : Stage → ℤ
  | .beta => 0
  | .rc => 1
  | .release => 2

/-- The numbers of a version, as they are written. -/
structure VersionNumbers where
  major : ℕ
  minor : ℕ
  patch : ℕ
  stage : Stage
  stageNum : ℕ
  deriving DecidableEq, Repr

structure ParsedVersion where
  major : Number
  minor : Number
  patch : Number
  stage : Stage
  stageNum : Number
  deriving DecidableEq

/-- The numbers as `parseInt` reads them. -/
def VersionNumbers.parsed (v : VersionNumbers) : ParsedVersion where
  major := .round v.major
  minor := .round v.minor
  patch := .round v.patch
  stage := v.stage
  stageNum := .round v.stageNum

def takeNumber (cs : List Char) : Option (ℕ × List Char) :=
  let digits := cs.takeWhile Char.isDigit
  if digits.isEmpty then none else some (Nat.ofDigitChars 10 digits 0, cs.dropWhile Char.isDigit)

/-- What may follow the numbers: nothing, or a stage that ends the version. -/
def takeStage : List Char → Option (Stage × ℕ)
  | [] => some (.release, 0)
  | 'b' :: 'e' :: 't' :: 'a' :: cs =>
      match takeNumber cs with
      | some (n, []) => some (.beta, n)
      | _ => none
  | 'r' :: 'c' :: cs =>
      match takeNumber cs with
      | some (n, []) => some (.rc, n)
      | _ => none
  | _ => none

def readVersion (version : String) : Option VersionNumbers := do
  let (major, afterMajor) ← takeNumber version.toList
  let '.' :: afterDot := afterMajor | none
  let (minor, afterMinor) ← takeNumber afterDot
  let (patch, rest) ←
    match afterMinor with
    | '.' :: afterDot => takeNumber afterDot
    | _ => some (0, afterMinor)
  let (stage, stageNum) ← takeStage rest
  return ⟨major, minor, patch, stage, stageNum⟩

def isValidVersion (version : String) : Bool := (readVersion version).isSome

/-- `none` for the throw on what is no version. -/
def parseVersion (version : String) : Option ParsedVersion := (readVersion version).map VersionNumbers.parsed

def compareParsed (a b : ParsedVersion) : Number :=
  if a.major ≠ b.major then a.major.sub b.major
  else if a.minor ≠ b.minor then a.minor.sub b.minor
  else if a.patch ≠ b.patch then a.patch.sub b.patch
  else if a.stage ≠ b.stage then .round (a.stage.rank - b.stage.rank : ℤ)
  else a.stageNum.sub b.stageNum

def compareRouterOsVersion (left right : String) : Option Number := do
  return compareParsed (← parseVersion left) (← parseVersion right)

def chrImageBasename (version : String) (arch : Arch) : String :=
  if arch = .arm64 then s!"chr-{version}-arm64" else s!"chr-{version}"

/-- A number as `\d+` matches it. -/
structure Digits (cs : List Char) : Prop where
  nonempty : cs ≠ []
  all : ∀ c ∈ cs, c.isDigit = true

/-- The parts a version's text falls into. -/
structure VersionText (cs major minor patch stage : List Char) : Prop where
  parts : cs = major ++ '.' :: (minor ++ (patch ++ stage))
  major : Digits major
  minor : Digits minor
  patch : patch = [] ∨ ∃ n, Digits n ∧ patch = '.' :: n
  stage : stage = [] ∨ ∃ n, Digits n ∧ (stage = "beta".toList ++ n ∨ stage = "rc".toList ++ n)

theorem takeNumber_digits {cs rest : List Char} {n : ℕ} (h : takeNumber cs = some (n, rest)) :
    ∃ digits, Digits digits ∧ cs = digits ++ rest := by
  simp only [takeNumber, Option.ite_none_left_eq_some, Option.some.injEq, Prod.mk.injEq] at h
  obtain ⟨nonempty, -, rfl⟩ := h
  refine ⟨cs.takeWhile Char.isDigit, ⟨?_, fun c member => List.mem_takeWhile_imp member⟩,
    List.takeWhile_append_dropWhile.symm⟩
  intro empty
  rw [empty] at nonempty
  exact nonempty rfl

theorem takeNumber_append {digits rest : List Char} (h : Digits digits)
    (stop : ∀ c, rest.head? = some c → c.isDigit = false) :
    takeNumber (digits ++ rest) = some (Nat.ofDigitChars 10 digits 0, rest) := by
  have none : rest.takeWhile Char.isDigit = [] ∧ rest.dropWhile Char.isDigit = rest := by
    cases rest with
    | nil => exact ⟨rfl, rfl⟩
    | cons c rest =>
        have noDigit : ¬ c.isDigit = true := Bool.eq_false_iff.mp (stop c rfl)
        exact ⟨List.takeWhile_cons_of_neg noDigit, List.dropWhile_cons_of_neg noDigit⟩
  have taken : (digits ++ rest).takeWhile Char.isDigit = digits := by
    rw [List.takeWhile_append_of_pos h.all, none.1, List.append_nil]
  have dropped : (digits ++ rest).dropWhile Char.isDigit = rest := by
    rw [List.dropWhile_append_of_pos h.all, none.2]
  simp only [takeNumber, taken, dropped, List.isEmpty_eq_false_iff.mpr h.nonempty,
    Bool.false_eq_true, if_false]

theorem takeStage_text {cs : List Char} {stage : Stage × ℕ} (h : takeStage cs = some stage) :
    cs = [] ∨ ∃ n, Digits n ∧ (cs = "beta".toList ++ n ∨ cs = "rc".toList ++ n) := by
  unfold takeStage at h
  split at h
  · exact .inl rfl
  · split at h
    · rename_i number
      obtain ⟨n, digits, rfl⟩ := takeNumber_digits number
      rw [List.append_nil]
      exact .inr ⟨n, digits, .inl rfl⟩
    · cases h
  · split at h
    · rename_i number
      obtain ⟨n, digits, rfl⟩ := takeNumber_digits number
      rw [List.append_nil]
      exact .inr ⟨n, digits, .inr rfl⟩
    · cases h
  · cases h

theorem version_text {version : String} (h : isValidVersion version = true) :
    ∃ major minor patch stage, VersionText version.toList major minor patch stage := by
  obtain ⟨parsed, parses⟩ := Option.isSome_iff_exists.mp h
  unfold readVersion at parses
  obtain ⟨⟨n, afterMajor⟩, takesMajor, parses⟩ := Option.bind_eq_some_iff.mp parses
  obtain ⟨major, majorDigits, whole⟩ := takeNumber_digits takesMajor
  rw [whole]
  dsimp only at parses
  split at parses
  · obtain ⟨⟨n, afterMinor⟩, takesMinor, parses⟩ := Option.bind_eq_some_iff.mp parses
    obtain ⟨minor, minorDigits, afterDot⟩ := takeNumber_digits takesMinor
    rw [afterDot]
    dsimp only at parses
    split at parses
    · obtain ⟨⟨n, rest⟩, takesPatch, parses⟩ := Option.bind_eq_some_iff.mp parses
      obtain ⟨patch, patchDigits, afterDot⟩ := takeNumber_digits takesPatch
      obtain ⟨stage, takesStage, -⟩ := Option.bind_eq_some_iff.mp parses
      rw [afterDot]
      exact ⟨major, minor, '.' :: patch, rest, rfl, majorDigits, minorDigits,
        .inr ⟨patch, patchDigits, rfl⟩, takeStage_text takesStage⟩
    · obtain ⟨patched, takesPatch, parses⟩ := Option.bind_eq_some_iff.mp parses
      cases takesPatch
      obtain ⟨stage, takesStage, -⟩ := Option.bind_eq_some_iff.mp parses
      exact ⟨major, minor, [], _, rfl, majorDigits, minorDigits, .inl rfl, takeStage_text takesStage⟩
  · cases parses

def EndsInDigit (cs : List Char) : Prop := ∃ c, cs.getLast? = some c ∧ c.isDigit = true

theorem EndsInDigit.append {cs : List Char} (h : EndsInDigit cs) (before : List Char) :
    EndsInDigit (before ++ cs) := by
  obtain ⟨c, last, digit⟩ := h
  exact ⟨c, by rw [List.getLast?_append, last, Option.some_or], digit⟩

theorem EndsInDigit.cons {cs : List Char} (h : EndsInDigit cs) (c : Char) : EndsInDigit (c :: cs) :=
  h.append [c]

theorem Digits.ends {digits : List Char} (h : Digits digits) : EndsInDigit digits :=
  ⟨digits.getLast h.nonempty, List.getLast?_eq_some_getLast h.nonempty,
    h.all _ (List.getLast_mem h.nonempty)⟩

theorem version_ends {version : String} (h : isValidVersion version = true) :
    EndsInDigit version.toList := by
  obtain ⟨major, minor, patch, stage, text⟩ := version_text h
  rw [text.parts]
  refine .append (.cons ?_ _) _
  rcases text.stage with rfl | ⟨n, digits, rfl | rfl⟩
  · rw [List.append_nil]
    rcases text.patch with rfl | ⟨n, digits, rfl⟩
    · rw [List.append_nil]
      exact text.minor.ends
    · exact .append (.cons digits.ends _) _
  · exact ((digits.ends.append _).append _).append _
  · exact ((digits.ends.append _).append _).append _

def VersionChar (c : Char) : Prop := c.isDigit = true ∨ c ∈ ".betarc".toList

theorem version_chars {version : String} (h : isValidVersion version = true) :
    ∀ c ∈ version.toList, VersionChar c := by
  obtain ⟨major, minor, patch, stage, text⟩ := version_text h
  have digits {n : List Char} (number : Digits n) : ∀ c ∈ n, VersionChar c :=
    fun c member => .inl (number.all c member)
  have patches : ∀ c ∈ patch, VersionChar c := by
    rcases text.patch with rfl | ⟨n, number, rfl⟩
    · exact nofun
    · exact List.forall_mem_cons.mpr ⟨.inr (by decide), digits number⟩
  have stages : ∀ c ∈ stage, VersionChar c := by
    rcases text.stage with rfl | ⟨n, number, rfl | rfl⟩
    · exact nofun
    · have letters : ∀ c ∈ "beta".toList, c ∈ ".betarc".toList := by simp
      exact List.forall_mem_append.mpr ⟨fun c member => .inr (letters c member), digits number⟩
    · have letters : ∀ c ∈ "rc".toList, c ∈ ".betarc".toList := by simp
      exact List.forall_mem_append.mpr ⟨fun c member => .inr (letters c member), digits number⟩
  rw [text.parts]
  exact List.forall_mem_append.mpr ⟨digits text.major, List.forall_mem_cons.mpr ⟨.inr (by decide),
    List.forall_mem_append.mpr ⟨digits text.minor, List.forall_mem_append.mpr ⟨patches, stages⟩⟩⟩⟩

/-- The fields by which versions are compared, the first that differ deciding. -/
abbrev VersionKey := ℕ ×ₗ ℕ ×ₗ ℕ ×ₗ ℕ ×ₗ ℕ

def VersionNumbers.key (v : VersionNumbers) : VersionKey :=
  toLex (v.major, toLex (v.minor, toLex (v.patch, toLex (v.stage.rank.toNat, v.stageNum))))

/-- `⊥`, older than all others, for what is no version. -/
def versionKey (version : String) : WithBot VersionKey :=
  match readVersion version with
  | some v => ↑v.key
  | none => ⊥

abbrev ParsedVersion.Key := WithTop ℚ ×ₗ WithTop ℚ ×ₗ WithTop ℚ ×ₗ ℤ ×ₗ WithTop ℚ

def ParsedVersion.key (v : ParsedVersion) : ParsedVersion.Key :=
  toLex (v.major.size, toLex (v.minor.size, toLex (v.patch.size, toLex (v.stage.rank, v.stageNum.size))))

theorem Stage.rank_injective {a b : Stage} (h : a.rank = b.rank) : a = b := by
  cases a <;> cases b <;> first | rfl | cases h

theorem Stage.rank_nonneg (a : Stage) : 0 ≤ a.rank := by
  cases a <;> decide

variable {v w : VersionNumbers}

theorem VersionNumbers.key_injective (h : v.key = w.key) : v = w := by
  obtain ⟨major, minor, patch, stage, stageNum⟩ := v
  obtain ⟨major', minor', patch', stage', stageNum'⟩ := w
  simp only [VersionNumbers.key, EmbeddingLike.apply_eq_iff_eq, Prod.mk.injEq] at h
  obtain ⟨rfl, rfl, rfl, ranks, rfl⟩ := h
  have least := stage.rank_nonneg
  have least' := stage'.rank_nonneg
  rw [Stage.rank_injective (show stage.rank = stage'.rank by omega)]

theorem stage_eq_iff : v.stage = w.stage ↔ v.stage.rank = w.stage.rank :=
  ⟨congrArg _, Stage.rank_injective⟩

theorem parsed_eq_iff : v.parsed = w.parsed ↔ v.parsed.key = w.parsed.key := by
  simp only [VersionNumbers.parsed, ParsedVersion.key, ParsedVersion.mk.injEq, Number.round_eq_iff,
    stage_eq_iff, EmbeddingLike.apply_eq_iff_eq, Prod.mk.injEq]

theorem compareParsed_tells : (compareParsed v.parsed w.parsed).Tells v.parsed.key w.parsed.key :=
  .lex (Number.sub_tells _ _)
    (.lex (Number.sub_tells _ _)
      (.lex (Number.sub_tells _ _)
        (.lex (Number.round_intCast_tells _ _) (Number.sub_tells _ _) stage_eq_iff)
        Number.round_eq_iff)
      Number.round_eq_iff)
    Number.round_eq_iff

theorem compareParsed_nan_iff : (compareParsed v.parsed w.parsed).sign = none ↔
    v.parsed = w.parsed ∧ v.parsed.stageNum = .infinity false := by
  have last (same : v.parsed = w.parsed) :
      (compareParsed v.parsed w.parsed).sign = none ↔ v.parsed.stageNum = .infinity false := by
    rw [← same]
    simp only [compareParsed, ne_eq, not_true_eq_false, if_false]
    rw [VersionNumbers.parsed, Number.sign_sub_nan_iff, and_self, Number.size_eq_top_iff]
  constructor
  · intro nan
    have same := parsed_eq_iff.mpr (compareParsed_tells.eq_of_nan nan)
    exact ⟨same, (last same).mp nan⟩
  · rintro ⟨same, infinite⟩
    exact (last same).mpr infinite

structure VersionNumbers.Small (v : VersionNumbers) : Prop where
  major : v.major ≤ 2 ^ 53
  minor : v.minor ≤ 2 ^ 53
  patch : v.patch ≤ 2 ^ 53
  stageNum : v.stageNum ≤ 2 ^ 53

open VersionNumbers (Small)

theorem VersionNumbers.Small.key_lt_iff (hv : Small v) (hw : Small w) : v.parsed.key < w.parsed.key ↔ v.key < w.key := by
  have least := v.stage.rank_nonneg
  have least' := w.stage.rank_nonneg
  have ranks : v.stage.rank < w.stage.rank ↔ v.stage.rank.toNat < w.stage.rank.toNat := by omega
  have same : v.stage.rank = w.stage.rank ↔ v.stage.rank.toNat = w.stage.rank.toNat := by omega
  simp only [VersionNumbers.parsed, ParsedVersion.key, VersionNumbers.key, Prod.Lex.toLex_lt_toLex,
    Number.size_small hv.major, Number.size_small hv.minor, Number.size_small hv.patch, Number.size_small hv.stageNum,
    Number.size_small hw.major, Number.size_small hw.minor, Number.size_small hw.patch, Number.size_small hw.stageNum,
    WithTop.coe_lt_coe, WithTop.coe_inj, Nat.cast_lt, Nat.cast_inj, ranks, same]

end Quickchr
