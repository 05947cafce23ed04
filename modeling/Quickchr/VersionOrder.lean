import Mathlib.Computability.RegularExpressions
import Mathlib.Tactic.IntervalCases
import Quickchr.CachePolicy
import Quickchr.Lib.WeakOrder

/-!
# The order of the versions, in doubles

The numbers of a version are read as doubles. A number of more than 308 digits is read as infinity,
and the difference of two infinities is no number; a number above 2^53 may be read as its neighbour.
-/
namespace Quickchr.VersionOrder

open RegularExpression (char star)

/-- `\d` -/
def digit : RegularExpression Char := ("0123456789".toList.map char).sum

def literal (text : String) : RegularExpression Char := (text.toList.map char).prod

/-- `p+` -/
def oneOrMore (p : RegularExpression Char) : RegularExpression Char := p * star p

/-- `p?` -/
def optional_ (p : RegularExpression Char) : RegularExpression Char := p + 1

/-- `^\d+\.\d+(\.\d+)?(beta\d+|rc\d+)?$` -/
def versionPattern : RegularExpression Char :=
  oneOrMore digit * (literal "." * (oneOrMore digit * (optional_ (literal "." * oneOrMore digit) *
    optional_ (literal "beta" * oneOrMore digit + literal "rc" * oneOrMore digit))))

def isValidVersion (version : String) : Bool := versionPattern.rmatch version.toList

theorem mem_sum_char (l : List Char) (cs : List Char) :
    cs ∈ ((l.map char).sum).matches' ↔ ∃ c ∈ l, cs = [c] := by
  induction l with
  | nil => exact iff_of_false (Set.notMem_empty _) (by simp)
  | cons a l ih =>
    rw [List.map_cons, List.sum_cons, RegularExpression.matches'_add, Language.mem_add, ih,
      RegularExpression.matches'_char, List.exists_mem_cons_iff]
    exact Iff.rfl

theorem mem_literal (text : String) (cs : List Char) : cs ∈ (literal text).matches' ↔ cs = text.toList := by
  unfold literal
  generalize text.toList = l
  induction l generalizing cs with
  | nil => exact Iff.rfl
  | cons a l ih =>
    rw [List.map_cons, List.prod_cons, RegularExpression.matches'_mul, Language.mem_mul]
    constructor
    · rintro ⟨_, rfl, rest, member, rfl⟩
      rw [(ih rest).mp member]
      rfl
    · rintro rfl
      exact ⟨[a], rfl, l, (ih l).mpr rfl, rfl⟩

theorem isDigit_iff (c : Char) : c.isDigit = true ↔ c ∈ "0123456789".toList := by
  constructor
  · intro isDigit
    rw [Char.isDigit, Bool.and_eq_true, decide_eq_true_iff, decide_eq_true_iff, ge_iff_le,
      UInt32.le_iff_toNat_le, UInt32.le_iff_toNat_le] at isDigit
    have code : c = Char.ofNat c.val.toNat := (Char.ofNat_toNat c).symm
    obtain ⟨least, most⟩ : 48 ≤ c.val.toNat ∧ c.val.toNat ≤ 57 := isDigit
    rw [code]
    interval_cases c.val.toNat <;> decide
  · exact fun member => List.all_eq_true.mp (by decide : "0123456789".toList.all Char.isDigit = true) c member

theorem mem_digit (cs : List Char) : cs ∈ digit.matches' ↔ ∃ c, c.isDigit = true ∧ cs = [c] := by
  rw [digit, mem_sum_char]
  exact exists_congr fun c => and_congr_left fun _ => (isDigit_iff c).symm

theorem mem_star_digit (cs : List Char) : cs ∈ (star digit).matches' ↔ ∀ c ∈ cs, c.isDigit = true := by
  rw [RegularExpression.matches'_star, Language.mem_kstar]
  constructor
  · rintro ⟨pieces, rfl, pieces_digits⟩ c member
    obtain ⟨piece, piece_member, inside⟩ := List.mem_flatten.mp member
    obtain ⟨d, isDigit, rfl⟩ := (mem_digit piece).mp (pieces_digits piece piece_member)
    rw [List.mem_singleton.mp inside]
    exact isDigit
  · intro digits
    refine ⟨cs.map fun c => [c], ?_, ?_⟩
    · rw [← List.flatMap_def, List.flatMap_singleton']
    · rintro piece member
      obtain ⟨c, inside, rfl⟩ := List.mem_map.mp member
      exact (mem_digit [c]).mpr ⟨c, digits c inside, rfl⟩

theorem mem_digits (cs : List Char) : cs ∈ (oneOrMore digit).matches' ↔ Digits cs := by
  rw [oneOrMore, RegularExpression.matches'_mul, Language.mem_mul]
  constructor
  · rintro ⟨first, isFirst, rest, isRest, rfl⟩
    obtain ⟨c, isDigit, rfl⟩ := (mem_digit first).mp isFirst
    exact ⟨List.cons_ne_nil c rest, List.forall_mem_cons.mpr ⟨isDigit, (mem_star_digit rest).mp isRest⟩⟩
  · intro digits
    obtain ⟨c, rest, rfl⟩ := List.exists_cons_of_ne_nil digits.nonempty
    obtain ⟨isDigit, others⟩ := List.forall_mem_cons.mp digits.all
    exact ⟨[c], (mem_digit [c]).mpr ⟨c, isDigit, rfl⟩, rest, (mem_star_digit rest).mpr others, rfl⟩

theorem mem_optional (p : RegularExpression Char) (cs : List Char) :
    cs ∈ (optional_ p).matches' ↔ cs = [] ∨ cs ∈ p.matches' := by
  rw [optional_, RegularExpression.matches'_add, Language.mem_add, RegularExpression.matches'_epsilon,
    Language.mem_one, or_comm]

theorem mem_mul (p q : RegularExpression Char) (cs : List Char) :
    cs ∈ (p * q).matches' ↔ ∃ a ∈ p.matches', ∃ b ∈ q.matches', a ++ b = cs := by
  rw [RegularExpression.matches'_mul, Language.mem_mul]

theorem mem_pattern (cs : List Char) :
    cs ∈ versionPattern.matches' ↔ ∃ major minor patch stage, VersionText cs major minor patch stage := by
  simp only [versionPattern, mem_mul, mem_literal, mem_optional, mem_digits,
    RegularExpression.matches'_add, Language.mem_add, exists_eq_left]
  constructor
  · rintro ⟨major, isMajor, _, ⟨_, ⟨minor, isMinor, _, ⟨patch, isPatch, stage, isStage, rfl⟩, rfl⟩, rfl⟩,
      rfl⟩
    refine ⟨major, minor, patch, stage, rfl, isMajor, isMinor, isPatch.imp id ?_, isStage.imp id ?_⟩
    · rintro ⟨n, digits, rfl⟩
      exact ⟨n, digits, rfl⟩
    · rintro (⟨n, digits, rfl⟩ | ⟨n, digits, rfl⟩)
      · exact ⟨n, digits, .inl rfl⟩
      · exact ⟨n, digits, .inr rfl⟩
  · rintro ⟨major, minor, patch, stage, text⟩
    refine ⟨major, text.major, _, ⟨_, ⟨minor, text.minor, _, ⟨patch, text.patch.imp id ?_, stage,
      text.stage.imp id ?_, rfl⟩, rfl⟩, rfl⟩, text.parts.symm⟩
    · rintro ⟨n, digits, rfl⟩
      exact ⟨n, digits, rfl⟩
    · rintro ⟨n, digits, rfl | rfl⟩
      · exact .inl ⟨n, digits, rfl⟩
      · exact .inr ⟨n, digits, rfl⟩

theorem takeStage_isSome {cs : List Char}
    (h : cs = [] ∨ ∃ n, Digits n ∧ (cs = "beta".toList ++ n ∨ cs = "rc".toList ++ n)) :
    (takeStage cs).isSome = true := by
  rcases h with rfl | ⟨n, digits, is⟩
  · rfl
  · have number := @takeNumber_append n [] digits nofun
    rw [List.append_nil] at number
    rcases is with rfl | rfl
    · change (takeStage ('b' :: 'e' :: 't' :: 'a' :: n)).isSome = true
      rw [takeStage, number]
      rfl
    · change (takeStage ('r' :: 'c' :: n)).isSome = true
      rw [takeStage, number]
      rfl

theorem stage_head {stage : List Char}
    (h : stage = [] ∨ ∃ n, Digits n ∧ (stage = "beta".toList ++ n ∨ stage = "rc".toList ++ n)) :
    ∀ c, stage.head? = some c → c.isDigit = false ∧ c ≠ '.' := by
  rcases h with rfl | ⟨n, -, rfl | rfl⟩
  · exact nofun
  · rintro c ⟨⟩
    decide
  · rintro c ⟨⟩
    decide

theorem readVersion_text {version : String} {major minor patch stage : List Char}
    (text : VersionText version.toList major minor patch stage) :
    readVersion version = (takeStage stage).map fun part =>
      ⟨Nat.ofDigitChars 10 major 0, Nat.ofDigitChars 10 minor 0, Nat.ofDigitChars 10 patch.tail 0, part.1,
        part.2⟩ := by
  have heads := stage_head text.stage
  have afterMinor : takeNumber (minor ++ (patch ++ stage)) =
      some (Nat.ofDigitChars 10 minor 0, patch ++ stage) := by
    refine takeNumber_append text.minor fun c first => ?_
    rcases text.patch with rfl | ⟨n, -, rfl⟩
    · exact (heads c first).1
    · obtain rfl : '.' = c := by simpa using first
      rfl
  have dot : ∀ c, ('.' :: (minor ++ (patch ++ stage))).head? = some c → c.isDigit = false := by
    rintro c ⟨⟩
    rfl
  rw [readVersion, text.parts, takeNumber_append text.major dot]
  simp only [Option.bind_eq_bind, Option.bind_some, afterMinor]
  rcases text.patch with rfl | ⟨n, digits, rfl⟩
  · cases stage with
    | nil => rfl
    | cons c stage =>
      have other : c ≠ '.' := (heads c rfl).2
      rw [List.nil_append]
      split
      · rename_i same
        cases same
        exact absurd rfl other
      · cases takeStage (c :: stage) <;> rfl
  · simp only [List.cons_append, takeNumber_append digits fun c first => (heads c first).1, Option.bind_some]
    cases takeStage stage <;> rfl

theorem isValidVersion_iff (version : String) :
    isValidVersion version = true ↔ (readVersion version).isSome = true := by
  rw [isValidVersion, RegularExpression.rmatch_iff_matches', mem_pattern]
  constructor
  · rintro ⟨major, minor, patch, stage, text⟩
    rw [readVersion_text text, Option.isSome_map]
    exact takeStage_isSome text.stage
  · exact version_text

/-- `⊥` for what is no version. -/
def versionKey (version : String) : WithBot ParsedVersion.Key :=
  match parseVersion version with
  | some v => ↑v.key
  | none => ⊥

theorem parse_of_key {left right : String} (same : versionKey left = versionKey right) :
    parseVersion left = parseVersion right := by
  unfold versionKey parseVersion at same
  unfold parseVersion
  cases reads : readVersion left <;> cases reads' : readVersion right <;>
    rw [reads, reads'] at same
  · cases same
  · cases same
  · exact congrArg some (parsed_eq_iff.mpr (WithBot.coe_inj.mp same))

/-- Both are read alike, with a number that is infinite. -/
def Overflow (left right : String) : Prop :=
  ∃ v, parseVersion left = some v ∧ parseVersion right = some v ∧ v.stageNum = .infinity false

theorem compare_accepted {left right : String} (hl : isValidVersion left = true) (hr : isValidVersion right = true) :
    ∃ n, compareRouterOsVersion left right = some n ∧ n.Tells (versionKey left) (versionKey right) ∧
      (n.sign = none ↔ Overflow left right) := by
  obtain ⟨v, reads⟩ := Option.isSome_iff_exists.mp ((isValidVersion_iff left).mp hl)
  obtain ⟨w, reads'⟩ := Option.isSome_iff_exists.mp ((isValidVersion_iff right).mp hr)
  have parses : parseVersion left = some v.parsed := by rw [parseVersion, reads, Option.map_some]
  have parses' : parseVersion right = some w.parsed := by rw [parseVersion, reads', Option.map_some]
  refine ⟨compareParsed v.parsed w.parsed, ?_, ?_, ?_⟩
  · rw [compareRouterOsVersion, parses, parses']
    rfl
  · rw [versionKey, versionKey, parses, parses']
    exact ⟨compareParsed_tells.below.trans WithBot.coe_lt_coe.symm,
      compareParsed_tells.above.trans WithBot.coe_lt_coe.symm⟩
  · rw [compareParsed_nan_iff, Overflow, parses, parses']
    constructor
    · rintro ⟨same, infinite⟩
      exact ⟨_, rfl, by rw [same], infinite⟩
    · rintro ⟨_, same, same', infinite⟩
      obtain rfl := Option.some.inj same
      exact ⟨(Option.some.inj same').symm, infinite⟩

abbrev Accepted := {version : String // isValidVersion version = true}

/-- How a comparison comes out; `none` where it throws or is no number. -/
def order (left right : String) : Option SignType := (compareRouterOsVersion left right).bind Number.sign

def AtMost (left right : String) : Prop := order left right = some (-1) ∨ order left right = some 0

def SameRelease (a b : VersionNumbers) : Prop := a.major = b.major ∧ a.minor = b.minor ∧ a.patch = b.patch

/-- `X.Y` and `X.Y.0`, in the same stage. -/
def PatchAdded (left right : String) : Prop :=
  ∃ major minor stage, VersionText left.toList major minor [] stage ∧
    VersionText right.toList major minor ".0".toList stage

structure Preordered (s : Set Accepted) : Prop where
  reflexive : ∀ v ∈ s, order v v = some 0
  antisymmetric : ∀ v ∈ s, ∀ w ∈ s, AtMost v w → AtMost w v → parseVersion v = parseVersion w
  transitive : ∀ u ∈ s, ∀ v ∈ s, ∀ w ∈ s, AtMost u v → AtMost v w → AtMost u w
  total : ∀ v ∈ s, ∀ w ∈ s, AtMost v w ∨ AtMost w v
  stages : ∀ v ∈ s, ∀ w ∈ s, ∀ a b, readVersion v = some a → readVersion w = some b →
    SameRelease a b → a.stage.rank < b.stage.rank → order v w = some (-1)
  numbers : ∀ v ∈ s, ∀ w ∈ s, ∀ a b, readVersion v = some a → readVersion w = some b →
    SameRelease a b → a.stage = b.stage → a.stageNum < b.stageNum → order v w = some (-1)
  patch : ∀ v ∈ s, ∀ w ∈ s, PatchAdded v w → order v w = some 0

/-- The numbers of the stages are finite, and those of one release and stage stay apart. -/
structure Representable (s : Set Accepted) : Prop where
  finite : ∀ v ∈ s, ∀ a, readVersion v = some a → Number.round a.stageNum ≠ .infinity false
  apart : ∀ v ∈ s, ∀ w ∈ s, ∀ a b, readVersion v = some a → readVersion w = some b →
    SameRelease a b → a.stage = b.stage → a.stageNum ≠ b.stageNum →
    Number.round a.stageNum ≠ Number.round b.stageNum

theorem parseVersion_patchAdded {left right : String} (h : PatchAdded left right) :
    parseVersion left = parseVersion right := by
  obtain ⟨major, minor, stage, text, text'⟩ := h
  rw [parseVersion, parseVersion, readVersion_text text, readVersion_text text']
  rfl

section Accepted

variable (v w : Accepted)

theorem order_neg_iff : order v w = some (-1) ↔ versionKey v < versionKey w := by
  obtain ⟨n, is, tells, -⟩ := compare_accepted v.2 w.2
  rw [order, is, Option.bind_some, tells.below]

theorem order_zero_iff : order v w = some 0 ↔ versionKey v = versionKey w ∧ ¬ Overflow v w := by
  obtain ⟨n, is, tells, overflows⟩ := compare_accepted v.2 w.2
  rw [order, is, Option.bind_some, tells.zero_iff, ne_eq, overflows]

end Accepted

section Release

variable {left right : String} {a b : VersionNumbers} (reads : readVersion left = some a)
  (reads' : readVersion right = some b) (same : SameRelease a b)
include reads reads' same

theorem versionKey_lt_iff : versionKey left < versionKey right ↔ a.stage.rank < b.stage.rank ∨
    a.stage.rank = b.stage.rank ∧ (Number.round a.stageNum).size < (Number.round b.stageNum).size := by
  rw [versionKey, versionKey, parseVersion, parseVersion, reads, reads', Option.map_some, Option.map_some,
    WithBot.coe_lt_coe]
  simp only [ParsedVersion.key, VersionNumbers.parsed, same.1, same.2.1, same.2.2, Prod.Lex.toLex_lt_toLex, lt_irrefl,
    true_and, false_or]

end Release

variable {s : Set Accepted}

theorem Representable.not_overflow (h : Representable s) {v : Accepted} (hv : v ∈ s) (w : String) :
    ¬ Overflow v w := by
  rintro ⟨_, reads, -, infinite⟩
  obtain ⟨a, parses, rfl⟩ := Option.map_eq_some_iff.mp reads
  exact h.finite v hv a parses infinite

theorem Representable.atMost_iff (h : Representable s) {v w : Accepted} (hv : v ∈ s) :
    AtMost v w ↔ versionKey v ≤ versionKey w := by
  rw [AtMost, order_neg_iff, order_zero_iff, le_iff_lt_or_eq]
  exact or_congr_right (and_iff_left (h.not_overflow hv w))

/-- Where the numbers are representable the comparison is a total preorder. -/
theorem Representable.preordered (h : Representable s) : Preordered s where
  reflexive v hv := (order_zero_iff v v).mpr ⟨rfl, h.not_overflow hv v⟩
  antisymmetric v hv w hw up down := by
    refine parse_of_key (le_antisymm ?_ ?_)
    · exact (h.atMost_iff hv).mp up
    · exact (h.atMost_iff hw).mp down
  transitive u hu v hv w _ up up' := by
    rw [h.atMost_iff hu] at up ⊢
    rw [h.atMost_iff hv] at up'
    exact le_trans up up'
  total v hv w hw := by
    rw [h.atMost_iff hv, h.atMost_iff hw]
    exact le_total _ _
  stages v hv w hw a b reads reads' same less :=
    (order_neg_iff v w).mpr ((versionKey_lt_iff reads reads' same).mpr (.inl less))
  numbers v hv w hw a b reads reads' same stage less := by
    refine (order_neg_iff v w).mpr ((versionKey_lt_iff reads reads' same).mpr (.inr ⟨congrArg _ stage, ?_⟩))
    refine lt_of_le_of_ne (Number.size_mono (le_of_lt less)) fun collide => ?_
    exact h.apart v hv w hw a b reads reads' same stage (ne_of_lt less) (Number.round_eq_iff.mpr collide)
  patch v hv w hw added := by
    have same := parseVersion_patchAdded added
    refine (order_zero_iff v w).mpr ⟨?_, h.not_overflow hv w⟩
    rw [versionKey, versionKey, same]

theorem Preordered.representable (h : Preordered s) : Representable s where
  finite v hv a parses infinite := by
    have reads : parseVersion v = some a.parsed := by rw [parseVersion, parses, Option.map_some]
    exact ((order_zero_iff v v).mp (h.reflexive v hv)).2 ⟨_, reads, reads, infinite⟩
  apart := by
    -- A smaller number comes first, so it is read as a smaller double.
    have apart_of_lt {v w : Accepted} (hv : v ∈ s) (hw : w ∈ s) {a b : VersionNumbers}
        (reads : readVersion v = some a) (reads' : readVersion w = some b)
        (same : SameRelease a b) (stage : a.stage = b.stage) (less : a.stageNum < b.stageNum) :
        Number.round a.stageNum ≠ Number.round b.stageNum := by
      have first := (order_neg_iff v w).mp (h.numbers v hv w hw a b reads reads' same stage less)
      rcases (versionKey_lt_iff reads reads' same).mp first with ranks | ⟨-, sizes⟩
      · rw [stage] at ranks
        exact absurd ranks (lt_irrefl _)
      · intro collide
        rw [collide] at sizes
        exact lt_irrefl _ sizes
    intro v hv w hw a b reads reads' same stage differ
    rcases lt_or_gt_of_ne differ with less | more
    · exact apart_of_lt hv hw reads reads' same stage less
    · have back : SameRelease b a := ⟨same.1.symm, same.2.1.symm, same.2.2.symm⟩
      exact (apart_of_lt hw hv reads' reads back stage.symm more).symm

theorem versionKey_unknown : versionKey "unknown" = ⊥ := by
  have nothing : parseVersion "unknown" = none := by decide +kernel
  rw [versionKey, nothing]

theorem bot_lt_versionKey {version : String} (valid : isValidVersion version = true) : ⊥ < versionKey version := by
  obtain ⟨v, reads⟩ := Option.isSome_iff_exists.mp ((isValidVersion_iff version).mp valid)
  rw [versionKey, parseVersion, reads, Option.map_some]
  exact WithBot.bot_lt_coe _

theorem not_overflow_unknown {version : String} : ¬ Overflow "unknown" version ∧ ¬ Overflow version "unknown" := by
  have nothing : parseVersion "unknown" = none := by decide +kernel
  constructor
  · rintro ⟨v, reads, -⟩
    rw [nothing] at reads
    cases reads
  · rintro ⟨v, -, reads, -⟩
    rw [nothing] at reads
    cases reads

/-- Different strings, read alike with an infinite number. -/
def Incomparable (left right : String) : Prop := left ≠ right ∧ Overflow left right

theorem compareVersionsSafe_spec {left right : String} (hl : Reported left) (hr : Reported right) :
    (compareVersionsSafe left right).Tells (versionKey left) (versionKey right) ∧
      ((compareVersionsSafe left right).sign = none ↔ Incomparable left right) := by
  have valid {version : String} (reported : Reported version) (known : version ≠ "unknown") :
      isValidVersion version = true :=
    (isValidVersion_iff version).mpr (reported.resolve_left known)
  have whole (z : ℤ) : (Number.round z).sign ≠ none := by
    rw [Number.sign_round_intCast]
    exact nofun
  unfold compareVersionsSafe Incomparable
  by_cases same : left = right
  · rw [if_pos same, same]
    have zero := Number.round_intCast_tells 0 0
    exact ⟨⟨zero.below.trans (by simp), zero.above.trans (by simp)⟩,
      iff_of_false (whole 0) fun differ => differ.1 rfl⟩
  rw [if_neg same]
  by_cases unknown : left = "unknown"
  · have above := bot_lt_versionKey (valid hr fun is => same (unknown.trans is.symm))
    have first := Number.round_intCast_tells 0 1
    rw [if_pos unknown, unknown, versionKey_unknown]
    exact ⟨⟨first.below.trans (iff_of_true (by decide) above),
        first.above.trans (iff_of_false (by decide) not_lt_bot)⟩,
      iff_of_false (whole (-1)) fun overflow => not_overflow_unknown.1 overflow.2⟩
  rw [if_neg unknown]
  by_cases unknown' : right = "unknown"
  · have above := bot_lt_versionKey (valid hl unknown)
    have second := Number.round_intCast_tells 1 0
    rw [if_pos unknown', unknown', versionKey_unknown]
    exact ⟨⟨second.below.trans (iff_of_false (by decide) not_lt_bot),
        second.above.trans (iff_of_true (by decide) above)⟩,
      iff_of_false (whole 1) fun overflow => not_overflow_unknown.2 overflow.2⟩
  · obtain ⟨n, is, tells, overflows⟩ := compare_accepted (valid hl unknown) (valid hr unknown')
    rw [if_neg unknown', is, Option.getD_some]
    exact ⟨tells, overflows.trans (and_iff_right same).symm⟩

theorem before_iff {a b : CacheEntry} (ha : Reported a.version) (hb : Reported b.version) :
    Before a b ↔ downloadRank a < downloadRank b ∨ downloadRank a = downloadRank b ∧
      (versionKey a.version < versionKey b.version ∨ versionKey a.version = versionKey b.version ∧
        ¬ Incomparable a.version b.version ∧ a.mtimeMs < b.mtimeMs) := by
  obtain ⟨tells, nan⟩ := compareVersionsSafe_spec ha hb
  have ranks : ((if b.kind = .download then 1 else 0) - (if a.kind = .download then 1 else 0) : ℤ) =
      downloadRank a - downloadRank b := by
    unfold downloadRank
    split_ifs <;> decide
  rw [Before, compareCandidates, ranks]
  dsimp only
  by_cases partial_ : downloadRank a = downloadRank b
  · rw [if_neg (not_not.mpr (sub_eq_zero.mpr partial_)), partial_]
    have equal := tells.zero_iff
    rw [Number.sign_eq_zero_iff, ne_eq, nan] at equal
    by_cases zero : compareVersionsSafe a.version b.version = .round 0
    · obtain ⟨same, comparable⟩ := equal.mp zero
      rw [if_neg (not_not.mpr zero), (Number.round_intCast_tells _ _).below, same]
      simp [comparable]
    · rw [if_pos zero, tells.below]
      refine ⟨fun less => .inr ⟨rfl, .inl less⟩, ?_⟩
      rintro (less | ⟨-, less | ⟨same, comparable, -⟩⟩)
      · exact absurd less (lt_irrefl _)
      · exact less
      · exact absurd (equal.mpr ⟨same, comparable⟩) zero
  · rw [if_pos (sub_ne_zero.mpr partial_), (Number.round_intCast_tells _ _).below]
    simp [partial_]

variable {entries : List CacheEntry}

/-- Two entries under one version, of different times, beside an entry under another that it cannot be
compared with. -/
def Tangled (entries : List CacheEntry) : Prop :=
  ∃ x ∈ entries, ∃ y ∈ entries, ∃ z ∈ entries,
    downloadRank x = downloadRank z ∧ downloadRank y = downloadRank z ∧
    x.version = y.version ∧ x.mtimeMs ≠ y.mtimeMs ∧ Incomparable x.version z.version

/-- Some entry stands beside it that it cannot be compared with. -/
def Beside (entries : List CacheEntry) (e : CacheEntry) : Prop :=
  ∃ z ∈ entries, downloadRank e = downloadRank z ∧ Incomparable e.version z.version

open Classical in
/-- An entry beside an incomparable one has no time. -/
noncomputable def candidateKey (entries : List CacheEntry) (e : CacheEntry) : ℤ ×ₗ WithBot ParsedVersion.Key ×ₗ ℕ :=
  toLex (downloadRank e, toLex (versionKey e.version, if Beside entries e then 0 else e.mtimeMs))

theorem Overflow.keys {left right : String} (h : Overflow left right) : versionKey left = versionKey right := by
  obtain ⟨v, reads, reads', -⟩ := h
  rw [versionKey, versionKey, reads, reads']

theorem Overflow.of_key {left right other : String} (h : Overflow left other)
    (same : versionKey left = versionKey right) : Overflow left right := by
  obtain ⟨v, reads, -, infinite⟩ := h
  exact ⟨v, reads, (parse_of_key same).symm.trans reads, infinite⟩

theorem Overflow.symm {left right : String} (h : Overflow left right) : Overflow right left := by
  obtain ⟨v, reads, reads', infinite⟩ := h
  exact ⟨v, reads', reads, infinite⟩

theorem Incomparable.symm {left right : String} (h : Incomparable left right) : Incomparable right left :=
  ⟨h.1.symm, h.2.symm⟩

theorem before_iff_key (straight : ¬ Tangled entries) {a b : CacheEntry} (ha : a ∈ entries) (hb : b ∈ entries)
    (reported : ∀ e ∈ entries, Reported e.version) :
    Before a b ↔ candidateKey entries a < candidateKey entries b := by
  rw [before_iff (reported a ha) (reported b hb), candidateKey, candidateKey, Prod.Lex.toLex_lt_toLex,
    Prod.Lex.toLex_lt_toLex]
  refine or_congr_right (and_congr_right fun rank => or_congr_right (and_congr_right fun key => ?_))
  by_cases incomparable : Incomparable a.version b.version
  · have besideA : Beside entries a := ⟨b, hb, rank, incomparable⟩
    have besideB : Beside entries b := ⟨a, ha, rank.symm, incomparable.symm⟩
    rw [if_pos besideA, if_pos besideB]
    exact iff_of_false (fun both => both.1 incomparable) (lt_irrefl 0)
  · rw [and_iff_right incomparable]
    -- Of two that can be compared both stand beside such an entry, or neither does.
    have shared {a b : CacheEntry} (rank : downloadRank a = downloadRank b)
        (key : versionKey a.version = versionKey b.version) (comparable : ¬ Incomparable a.version b.version)
        (beside : Beside entries a) : a.version = b.version ∧ Beside entries b := by
      obtain ⟨z, hz, rankZ, differ, overflow⟩ := beside
      have same : a.version = b.version := by
        by_contra other
        exact comparable ⟨other, overflow.of_key key⟩
      exact ⟨same, z, hz, rank.symm.trans rankZ, same ▸ differ, same ▸ overflow⟩
    by_cases besideA : Beside entries a
    · obtain ⟨same, besideB⟩ := shared rank key incomparable besideA
      obtain ⟨z, hz, rankZ, apart⟩ := besideA
      have times : a.mtimeMs = b.mtimeMs := by
        by_contra differ
        exact straight ⟨a, ha, b, hb, z, hz, rankZ, rank.symm.trans rankZ, same, differ, apart⟩
      rw [if_pos ⟨z, hz, rankZ, apart⟩, if_pos besideB, times]
      exact iff_of_false (lt_irrefl _) (lt_irrefl 0)
    · have besideB : ¬ Beside entries b := fun beside =>
        besideA (shared rank.symm key.symm (fun back => incomparable back.symm) beside).2
      rw [if_neg besideA, if_neg besideB]

theorem strictWeakOrder_of_straight (straight : ¬ Tangled entries) (reported : ∀ e ∈ entries, Reported e.version) :
    IsStrictWeakOrder {e | e ∈ entries} fun a b => Before a b := by
  exact WeakOrder.of_key _ (fun e => candidateKey entries e) fun a b => before_iff_key straight a.2 b.2 reported

theorem straight_of_strictWeakOrder (weak : IsStrictWeakOrder {e | e ∈ entries} fun a b => Before a b)
    (reported : ∀ e ∈ entries, Reported e.version) : ¬ Tangled entries := by
  rintro ⟨x, hx, y, hy, z, hz, rankX, rankY, same, differ, apart⟩
  have unranked {a b : CacheEntry} (ha : a ∈ entries) (hb : b ∈ entries)
      (rank : downloadRank a = downloadRank b) (incomparable : Incomparable a.version b.version) : ¬ Before a b := by
    rw [before_iff (reported a ha) (reported b hb)]
    rintro (less | ⟨-, less | ⟨-, comparable, -⟩⟩)
    · exact ne_of_lt less rank
    · exact ne_of_lt less incomparable.2.keys
    · exact comparable incomparable
  have timed {a b : CacheEntry} (ha : a ∈ entries) (hb : b ∈ entries) (rank : downloadRank a = downloadRank b)
      (same : a.version = b.version) (less : a.mtimeMs < b.mtimeMs) : Before a b := by
    rw [before_iff (reported a ha) (reported b hb)]
    exact .inr ⟨rank, .inr ⟨congrArg _ same, fun apart => apart.1 same, less⟩⟩
  have apart' : Incomparable y.version z.version := same ▸ apart
  have alike := weak.incomp_trans ⟨x, hx⟩ ⟨z, hz⟩ ⟨y, hy⟩
    ⟨unranked hx hz rankX apart, unranked hz hx rankX.symm apart.symm⟩
    ⟨unranked hz hy rankY.symm apart'.symm, unranked hy hz rankY apart'⟩
  rcases lt_or_gt_of_ne differ with earlier | later
  · exact alike.1 (timed hx hy (rankX.trans rankY.symm) same earlier)
  · exact alike.2 (timed hy hx (rankY.trans rankX.symm) same.symm later)

/-- The candidates of a prune in the order of their eviction. -/
def candidates (view : CacheView) (pins : List String) (opts : PruneOptions) : List CacheEntry :=
  ((cacheInventory view pins).entries.filter fun e => (protection opts view.now e).isNone).insertionSort
    fun a b => ¬ Before b a

theorem Tangled.of_map (h : Tangled (entries.map CacheEntry.withoutPaths)) : Tangled entries := by
  obtain ⟨x, hx, y, hy, z, hz, facts⟩ := h
  obtain ⟨x', inX, rfl⟩ := List.mem_map.mp hx
  obtain ⟨y', inY, rfl⟩ := List.mem_map.mp hy
  obtain ⟨z', inZ, rfl⟩ := List.mem_map.mp hz
  exact ⟨x', inX, y', inY, z', inZ, facts⟩

theorem candidates_withoutPaths (view : CacheView) (pins : List String) (opts : PruneOptions) :
    (candidates view pins opts).map CacheEntry.withoutPaths =
      (((cacheInventory view pins).entries.map CacheEntry.withoutPaths).filter
        fun e => (protection opts view.now e).isNone).insertionSort fun a b => ¬ Before b a := by
  rw [candidates, List.filter_map]
  exact List.map_insertionSort _ _ CacheEntry.withoutPaths _ fun _ _ _ _ => Iff.rfl

theorem candidates_alike {view : CacheView} {pins : List String}
    (straight : ¬ Tangled (cacheInventory view pins).entries) (opts : PruneOptions) {files : List CacheFile}
    (perm : files.Perm view.listing) :
    List.Forall₂ (WeakOrder.Alike Before) (candidates { view with listing := files } pins opts)
      (candidates view pins opts) := by
  have weak : IsStrictWeakOrder {e | e ∈ (cacheInventory view pins).entries.map CacheEntry.withoutPaths}
      fun a b => Before a b := by
    refine strictWeakOrder_of_straight (fun tangled => straight tangled.of_map) fun e member => ?_
    obtain ⟨e', inside, rfl⟩ := List.mem_map.mp member
    exact show Reported e'.version from entry_reported inside
  have same := (entries_perm view perm pins).filter fun e => (protection opts view.now e).isNone
  have alike := WeakOrder.sort_alike_of_mem weak
    (fun e member => (entries_perm view perm pins).mem_iff.mp (List.mem_of_mem_filter member)) same
  rw [← candidates_withoutPaths view, ← candidates_withoutPaths { view with listing := files },
    List.forall₂_map_left_iff, List.forall₂_map_right_iff] at alike
  exact alike

/-- The strings that are accepted are those that parse, the comparison is a preorder of the versions, and the
comparator a strict weak order of the entries, which leaves nothing to the order of the directory. -/
structure InOrder (s : Set Accepted) (view : CacheView) (pins : List String) : Prop where
  accepts : ∀ version, isValidVersion version = true ↔ (parseVersion version).isSome = true
  preordered : Preordered s
  weak : IsStrictWeakOrder {e | e ∈ (cacheInventory view pins).entries} fun a b => Before a b
  settled : ∀ opts (files : List CacheFile), files.Perm view.listing →
    List.Forall₂ (WeakOrder.Alike Before) (candidates { view with listing := files } pins opts)
      (candidates view pins opts)

theorem inOrder_iff (s : Set Accepted) (view : CacheView) (pins : List String) :
    InOrder s view pins ↔ Representable s ∧ ¬ Tangled (cacheInventory view pins).entries := by
  constructor
  · intro h
    exact ⟨h.preordered.representable, straight_of_strictWeakOrder h.weak fun e => entry_reported⟩
  · rintro ⟨representable, straight⟩
    refine ⟨fun version => ?_, representable.preordered,
      strictWeakOrder_of_straight straight fun e => entry_reported,
      fun opts files perm => candidates_alike straight opts perm⟩
    rw [isValidVersion_iff, parseVersion, Option.isSome_map]

def overflowing : String := "7.1beta" ++ String.ofList (List.replicate 309 '9')

theorem overflowing_text :
    VersionText overflowing.toList ['7'] ['1'] [] ("beta".toList ++ List.replicate 309 '9') where
  parts := by
    unfold overflowing
    generalize List.replicate 309 '9' = n
    rw [String.toList_append, @String.toList_ofList n]
    rfl
  major := ⟨List.cons_ne_nil _ _, List.forall_mem_singleton.mpr rfl⟩
  minor := ⟨List.cons_ne_nil _ _, List.forall_mem_singleton.mpr rfl⟩
  patch := .inl rfl
  stage := .inr ⟨List.replicate 309 '9', ⟨nofun, fun c member => by rw [List.eq_of_mem_replicate member]; rfl⟩,
    .inl rfl⟩

theorem overflow_overflowing : Overflow overflowing overflowing := by
  have stage : takeStage ("beta".toList ++ List.replicate 309 '9') =
      some (.beta, Nat.ofDigitChars 10 (List.replicate 309 '9') 0) := by decide +kernel
  have infinite : Number.round (Nat.ofDigitChars 10 (List.replicate 309 '9') 0 : ℕ) = .infinity false := by
    decide +kernel
  generalize Nat.ofDigitChars 10 (List.replicate 309 '9') 0 = n at stage infinite
  have reads := readVersion_text overflowing_text
  rw [stage, Option.map_some] at reads
  have parses : parseVersion overflowing = some (VersionNumbers.parsed _) := congrArg (Option.map VersionNumbers.parsed) reads
  exact ⟨_, parses, parses, infinite⟩

theorem inOrder_fails : compareRouterOsVersion overflowing overflowing = some .nan ∧
    compareRouterOsVersion "7.1beta9007199254740992" "7.1beta9007199254740993" = some (.round 0) ∧
    ¬ ∀ (s : Set Accepted) (view : CacheView) (pins : List String), InOrder s view pins := by
  have valid : isValidVersion overflowing = true := by
    rw [isValidVersion, RegularExpression.rmatch_iff_matches', mem_pattern]
    exact ⟨_, _, _, _, overflowing_text⟩
  have nan : compareRouterOsVersion overflowing overflowing = some .nan := by
    obtain ⟨n, is, -, overflows⟩ := compare_accepted valid valid
    rw [is, Number.sign_eq_none_iff.mp (overflows.mpr overflow_overflowing)]
  refine ⟨nan, by decide +kernel, fun all => ?_⟩
  have zero := (all Set.univ ⟨[], none, 0, fun _ => false⟩ []).preordered.reflexive ⟨overflowing, valid⟩ trivial
  rw [order, nan] at zero
  cases zero

end Quickchr.VersionOrder
