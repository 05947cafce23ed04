import Quickchr.CacheInventory
import Quickchr.Lib.Drain
import Mathlib.Algebra.BigOperators.Group.List.Basic

/-!
# The retention policy

A prune first takes what is overdue, then drains a queue of what is left for the size cap and
for the room to reclaim. The policy is stated on the entries alone; a prune carries it out.
-/
namespace Quickchr

def downloadRank (e : CacheEntry) : ℤ := if e.kind = .download then 0 else 1

/-- By this order candidates are taken: interrupted downloads, then the oldest version, then the
oldest use. -/
def evictionKey (e : CacheEntry) : ℤ ×ₗ WithBot VersionKey ×ₗ ℕ :=
  toLex (downloadRank e, toLex (versionKey e.version, e.mtimeMs))

/-- A version that parses, or `"unknown"`. -/
def Reported (version : String) : Prop := version = "unknown" ∨ isValidVersion version = true

theorem versionKey_of_read {version : String} {v : VersionNumbers} (h : readVersion version = some v) :
    versionKey version = v.key := by
  rw [versionKey, h]

theorem read_unknown : readVersion "unknown" = none := by decide

theorem versionKey_unknown : versionKey "unknown" = ⊥ := by
  rw [versionKey, read_unknown]

theorem Reported.cases {version : String} (h : Reported version) :
    version = "unknown" ∨ version ≠ "unknown" ∧ ∃ v, readVersion version = some v := by
  rcases h with unknown | valid
  · exact .inl unknown
  · exact .inr ⟨known_version valid, Option.isSome_iff_exists.mp valid⟩

theorem compareRouterOsVersion_of_read {left right : String} {v w : VersionNumbers}
    (reads : readVersion left = some v) (reads' : readVersion right = some w) :
    compareRouterOsVersion left right = some (compareParsed v.parsed w.parsed) := by
  rw [compareRouterOsVersion, parseVersion, parseVersion, reads, reads']
  rfl

/-- Reading the numbers of the versions as doubles keeps their order: of two the older is read as the
older, and no two strings of the same numbers have an infinite one. -/
structure ReadInOrder (versions : Set String) : Prop where
  older : ∀ left ∈ versions, ∀ right ∈ versions, ∀ v w, readVersion left = some v →
    readVersion right = some w → v.key < w.key → v.parsed.key < w.parsed.key
  finite : ∀ left ∈ versions, ∀ right ∈ versions, left ≠ right → ∀ v, readVersion left = some v →
    readVersion right = some v → Number.round v.stageNum ≠ .infinity false

theorem readInOrder_small {versions : Set String}
    (small : ∀ version ∈ versions, ∀ v, readVersion version = some v → v.Small) : ReadInOrder versions where
  older left hl right hr v w reads reads' less :=
    ((small left hl v reads).key_lt_iff (small right hr w reads')).mpr less
  finite left hl right _ _ v reads _ infinite := by
    have size := Number.size_eq_top_iff.mpr infinite
    rw [Number.size_small (small left hl v reads).stageNum] at size
    exact WithTop.coe_ne_top size

section Compare

variable {versions : Set String} (order : ReadInOrder versions) {left right : String}
include order

theorem ReadInOrder.compareParsed_tells {v w : VersionNumbers} (hl : left ∈ versions)
    (hr : right ∈ versions) (differ : left ≠ right) (reads : readVersion left = some v)
    (reads' : readVersion right = some w) :
    (compareParsed v.parsed w.parsed).Tells v.key w.key ∧ (compareParsed v.parsed w.parsed).sign ≠ none := by
  have less := order.older left hl right hr v w reads reads'
  have more := order.older right hr left hl w v reads' reads
  have same : v.parsed = w.parsed → v = w := by
    intro same
    refine VersionNumbers.key_injective (le_antisymm (not_lt.mp fun lt => ?_) (not_lt.mp fun lt => ?_))
    · exact (more lt).ne' (congrArg _ same)
    · exact (less lt).ne (congrArg _ same)
  have keeps {a b : VersionNumbers} (kept : a.key < b.key → a.parsed.key < b.parsed.key)
      (kept' : b.key < a.key → b.parsed.key < a.parsed.key) : a.parsed.key < b.parsed.key ↔ a.key < b.key := by
    refine ⟨fun lt => ?_, kept⟩
    rcases lt_trichotomy a.key b.key with below | equal | above
    · exact below
    · rw [VersionNumbers.key_injective equal] at lt
      exact absurd lt (lt_irrefl _)
    · exact absurd lt (kept' above).asymm
  refine ⟨⟨Quickchr.compareParsed_tells.below.trans (keeps less more),
    Quickchr.compareParsed_tells.above.trans (keeps more less)⟩, ?_⟩
  rw [ne_eq, compareParsed_nan_iff]
  rintro ⟨equal, infinite⟩
  obtain rfl := same equal
  exact order.finite left hl right hr differ v reads reads' infinite

theorem ReadInOrder.compareVersionsSafe_tells (hl : left = "unknown" ∨ left ∈ versions)
    (hr : right = "unknown" ∨ right ∈ versions) (reported : Reported left) (reported' : Reported right) :
    (compareVersionsSafe left right).Tells (versionKey left) (versionKey right) ∧
      (compareVersionsSafe left right).sign ≠ none := by
  have whole (z : ℤ) : (Number.round z).sign ≠ none := by
    rw [Number.sign_round_intCast]
    exact nofun
  unfold compareVersionsSafe
  by_cases same : left = right
  · have zero := Number.round_intCast_tells 0 0
    rw [if_pos same, same]
    exact ⟨⟨zero.below.trans (by simp), zero.above.trans (by simp)⟩, whole 0⟩
  rw [if_neg same]
  rcases reported.cases with unknown | ⟨known, v, reads⟩
  · obtain ⟨w, reads'⟩ := (reported'.cases.resolve_left fun is => same (unknown.trans is.symm)).2
    have first := Number.round_intCast_tells 0 1
    rw [if_pos unknown, unknown, versionKey_unknown, versionKey_of_read reads']
    exact ⟨⟨first.below.trans (iff_of_true (by decide) (WithBot.bot_lt_coe _)),
      first.above.trans (iff_of_false (by decide) not_lt_bot)⟩, whole (-1)⟩
  rw [if_neg known]
  rcases reported'.cases with unknown | ⟨known', w, reads'⟩
  · have second := Number.round_intCast_tells 1 0
    rw [if_pos unknown, unknown, versionKey_unknown, versionKey_of_read reads]
    exact ⟨⟨second.below.trans (iff_of_false (by decide) not_lt_bot),
      second.above.trans (iff_of_true (by decide) (WithBot.bot_lt_coe _))⟩, whole 1⟩
  · obtain ⟨tells, number⟩ := order.compareParsed_tells (hl.resolve_left known) (hr.resolve_left known') same
      reads reads'
    rw [if_neg known', compareRouterOsVersion_of_read reads reads', Option.getD_some, versionKey_of_read reads,
      versionKey_of_read reads']
    exact ⟨⟨tells.below.trans WithBot.coe_lt_coe.symm, tells.above.trans WithBot.coe_lt_coe.symm⟩, number⟩

end Compare

/-- The entries of a listing are of these versions. -/
def OfVersions (versions : Set String) (entries : List CacheEntry) : Prop :=
  ∀ e ∈ entries, Reported e.version ∧ (e.version = "unknown" ∨ e.version ∈ versions)

theorem before_iff {versions : Set String} (order : ReadInOrder versions) {entries : List CacheEntry}
    (of : OfVersions versions entries) {a b : CacheEntry} (ha : a ∈ entries) (hb : b ∈ entries) :
    Before a b ↔ evictionKey a < evictionKey b := by
  obtain ⟨reported, known⟩ := of a ha
  obtain ⟨reported', known'⟩ := of b hb
  obtain ⟨tells, number⟩ := order.compareVersionsSafe_tells known known' reported reported'
  have ranks : ((if b.kind = .download then 1 else 0) - (if a.kind = .download then 1 else 0) : ℤ) =
      downloadRank a - downloadRank b := by
    unfold downloadRank
    split_ifs <;> decide
  have equal : compareVersionsSafe a.version b.version = .round 0 ↔
      versionKey a.version = versionKey b.version := by
    rw [← Number.sign_eq_zero_iff, tells.zero_iff, and_iff_left number]
  have times : (Number.round (a.mtimeMs - b.mtimeMs : ℤ)).Tells a.mtimeMs b.mtimeMs := by
    have tells := Number.round_intCast_tells a.mtimeMs b.mtimeMs
    exact ⟨tells.below.trans Nat.cast_lt, tells.above.trans Nat.cast_lt⟩
  rw [Before, compareCandidates, ranks]
  exact ((Number.round_intCast_tells _ _).lex (tells.lex times equal) sub_eq_zero).below

structure Unprotected (opts : PruneOptions) (now : ℕ) (e : CacheEntry) : Prop where
  notInUse : e.inUse = false
  notProtected : e.version ∉ opts.protectVersions
  notSkipped : e.basename ∉ opts.skipEntries
  notRecent : ∀ ms, opts.skipRecentMs = some ms → ¬ ageMs now e.mtimeMs < ms

theorem protection_eq_none_iff {opts : PruneOptions} {now : ℕ} {e : CacheEntry} :
    protection opts now e = none ↔ Unprotected opts now e := by
  unfold protection
  constructor
  · intro h
    split_ifs at h with inUse version skip recent
    refine ⟨Bool.eq_false_iff.mpr inUse, fun member => version (List.contains_iff_mem.mpr member),
      fun member => skip (List.contains_iff_mem.mpr member), fun ms set young => recent ?_⟩
    rw [set]
    exact decide_eq_true young
  · intro h
    rw [if_neg (by simp [h.notInUse]), if_neg (by simp [h.notProtected]),
      if_neg (by simp [h.notSkipped]), if_neg]
    intro recent
    cases set : opts.skipRecentMs with
    | none =>
        rw [set] at recent
        cases recent
    | some ms =>
        rw [set] at recent
        exact h.notRecent ms set (of_decide_eq_true recent)

/-- A version that is older than a valid threshold, by the numbers as they are written. -/
def OlderThan (version threshold : String) : Prop :=
  ∃ v t, readVersion version = some v ∧ readVersion threshold = some t ∧ v.key < t.key

inductive Overdue (opts : PruneOptions) (now : ℕ) (e : CacheEntry) : Prop
  | older (threshold : String) (set : opts.olderThan = some threshold)
      (older : OlderThan e.version threshold)
  | aged (maxAge : ℕ) (set : opts.maxAgeMs = some maxAge) (aged : (maxAge : ℤ) < ageMs now e.mtimeMs)

def whyOlder (opts : PruneOptions) (e : CacheEntry) : Option PruneReason :=
  (opts.olderThan.filter fun threshold => !threshold.isEmpty).bind fun threshold =>
    if e.version ≠ "unknown" ∧ (compareVersionsSafe e.version threshold).sign = some (-1) then
      some (.olderVersion e.version threshold)
    else none

def whyAged (opts : PruneOptions) (now : ℕ) (e : CacheEntry) : Option PruneReason :=
  opts.maxAgeMs.bind fun maxAge =>
    if ageMs now e.mtimeMs > maxAge then some (.age (ageMs now e.mtimeMs) maxAge) else none

/-- What a prune takes without regard to sizes. -/
def Due (opts : PruneOptions) (now : ℕ) (e : CacheEntry) : Prop :=
  (whyOlder opts e).isSome = true ∨ (whyAged opts now e).isSome = true

/-- The options name no threshold that is a version but one of these. -/
def ThresholdOf (versions : Set String) (opts : PruneOptions) : Prop :=
  ∀ threshold, opts.olderThan = some threshold → isValidVersion threshold = true → threshold ∈ versions

theorem compareVersionsSafe_invalid {version threshold : String} (valid : isValidVersion version = true)
    (invalid : isValidVersion threshold = false) : (compareVersionsSafe version threshold).sign ≠ some (-1) := by
  have zero := Number.sign_round_intCast 0
  have one := Number.sign_round_intCast 1
  have nothing : readVersion threshold = none := Option.isNone_iff_eq_none.mp (by
    rw [← Option.not_isSome, ← isValidVersion, invalid]
    rfl)
  have differ : version ≠ threshold := by
    rintro rfl
    rw [valid] at invalid
    cases invalid
  unfold compareVersionsSafe
  rw [if_neg differ, if_neg (known_version valid)]
  split_ifs
  · rw [one]
    decide
  · rw [compareRouterOsVersion, parseVersion, parseVersion, nothing]
    cases readVersion version <;> exact (show (Number.round 0).sign ≠ some (-1) by
      rw [← Int.cast_zero, zero]; decide)

section Older

variable {versions : Set String} (order : ReadInOrder versions)
include order

theorem olderThan_iff {version threshold : String} (reported : Reported version)
    (known : version = "unknown" ∨ version ∈ versions)
    (within : isValidVersion threshold = true → threshold ∈ versions) :
    (version ≠ "unknown" ∧ (compareVersionsSafe version threshold).sign = some (-1)) ↔
      OlderThan version threshold := by
  rcases reported.cases with rfl | ⟨other, v, reads⟩
  · refine ⟨fun h => absurd rfl h.1, ?_⟩
    rintro ⟨v, t, reads, -⟩
    rw [read_unknown] at reads
    cases reads
  rw [and_iff_right other]
  by_cases valid : isValidVersion threshold = true
  · obtain ⟨t, reads'⟩ := Option.isSome_iff_exists.mp valid
    have tells := (order.compareVersionsSafe_tells known (.inr (within valid)) reported (.inr valid)).1
    rw [tells.below, versionKey_of_read reads, versionKey_of_read reads', WithBot.coe_lt_coe]
    constructor
    · exact fun less => ⟨v, t, reads, reads', less⟩
    · rintro ⟨w, u, readsW, readsU, less⟩
      rw [reads] at readsW
      rw [reads'] at readsU
      cases readsW
      cases readsU
      exact less
  · have accepted : isValidVersion version = true := Option.isSome_iff_exists.mpr ⟨v, reads⟩
    refine iff_of_false (compareVersionsSafe_invalid accepted (Bool.eq_false_iff.mpr valid)) ?_
    rintro ⟨w, t, -, reads', -⟩
    exact valid (Option.isSome_iff_exists.mpr ⟨t, reads'⟩)

theorem overdue_iff {opts : PruneOptions} {now : ℕ} {e : CacheEntry} (reported : Reported e.version)
    (known : e.version = "unknown" ∨ e.version ∈ versions) (within : ThresholdOf versions opts) :
    Overdue opts now e ↔ Due opts now e := by
  constructor
  · rintro (⟨threshold, set, older⟩ | ⟨maxAge, set, aged⟩)
    · left
      have nonempty : threshold.isEmpty = false := by
        obtain ⟨v, t, -, reads, -⟩ := older
        rw [Bool.eq_false_iff]
        intro empty
        rw [String.isEmpty_iff.mp empty] at reads
        cases reads
      rw [whyOlder, set, Option.filter_some, if_pos (by rw [nonempty]; rfl), Option.bind_some,
        if_pos ((olderThan_iff order reported known (within threshold set)).mpr older)]
      rfl
    · right
      rw [whyAged, set, Option.bind_some, if_pos aged]
      rfl
  · rintro (older | aged)
    · obtain ⟨reason, why⟩ := Option.isSome_iff_exists.mp older
      obtain ⟨threshold, set, why⟩ := Option.bind_eq_some_iff.mp why
      obtain ⟨older, -⟩ := Option.ite_none_right_eq_some.mp why
      have set := (Option.filter_eq_some_iff.mp set).1
      exact .older threshold set ((olderThan_iff order reported known (within threshold set)).mp older)
    · obtain ⟨reason, why⟩ := Option.isSome_iff_exists.mp aged
      obtain ⟨maxAge, set, why⟩ := Option.bind_eq_some_iff.mp why
      exact .aged maxAge set (Option.ite_none_right_eq_some.mp why).1

end Older

/-- What a prune takes, in its order, and what it leaves of the candidates. -/
structure Selection where
  older : List CacheEntry
  aged : List CacheEntry
  overCap : List CacheEntry
  forSpace : List CacheEntry
  left : List CacheEntry

def Selection.overdue (s : Selection) : List CacheEntry := s.older ++ s.aged

def Selection.taken (s : Selection) : List CacheEntry := s.overdue ++ s.overCap ++ s.forSpace

section Selection

-- `goes` says which entries a delete removes.
variable (goes : CacheEntry → Bool) (opts : PruneOptions) (entries : List CacheEntry)

/-- More than the cap is left once those that go have gone. -/
def overCap (gone : List CacheEntry) : Bool :=
  opts.maxSizeBytes.any fun cap => cap + totalSize (gone.filter goes) < totalSize entries

def shortOfTarget (gone : List CacheEntry) : Bool :=
  opts.reclaimBytes.any fun target => (totalSize (gone.filter goes) : ℤ) < target

def selection (now : ℕ) : Selection :=
  let queue := (entries.filter fun e => (protection opts now e).isNone).insertionSort
    fun a b => ¬ Before b a
  let older := queue.filter fun e => (whyOlder opts e).isSome
  let notOlder := queue.filter fun e => (whyOlder opts e).isNone
  let aged := notOlder.filter fun e => (whyAged opts now e).isSome
  let remaining := notOlder.filter fun e => (whyAged opts now e).isNone
  let capped := Drain.drain (fun ahead => overCap goes opts entries (older ++ aged ++ ahead)) remaining
  let spaced := Drain.drain
    (fun ahead => shortOfTarget goes opts (older ++ aged ++ capped.1 ++ ahead)) capped.2
  ⟨older, aged, capped.1, spaced.1, spaced.2⟩

end Selection

theorem totalSize_append (a b : List CacheEntry) : totalSize (a ++ b) = totalSize a + totalSize b := by
  simp [totalSize]

theorem totalSize_perm {a b : List CacheEntry} (h : a.Perm b) : totalSize a = totalSize b :=
  (h.map _).sum_eq

section Carry

variable (rm : String → Option String) (dryRun : Bool)

/-- The entry is gone after its delete, or would be. -/
def goes (e : CacheEntry) : Bool := dryRun || e.paths.all fun path => (rm path).isNone

def takeEntries (why : CacheEntry → PruneReason) (pass : PrunePass) (entries : List CacheEntry) :
    PrunePass :=
  entries.foldl (fun pass e => (evict rm dryRun pass e (why e)).1) pass

variable {rm dryRun}

theorem rmAll_isNone (paths : List String) :
    (rmAll rm paths).2.isNone = paths.all fun path => (rm path).isNone := by
  induction paths with
  | nil => rfl
  | cons path rest ih =>
      unfold rmAll
      cases answer : rm path with
      | some message => simp [answer]
      | none => simpa [answer] using ih

theorem evict_spec (pass : PrunePass) (e : CacheEntry) (reason : PruneReason) :
    (evict rm dryRun pass e reason).2 = goes rm dryRun e ∧
      (evict rm dryRun pass e reason).1.evicted =
        pass.evicted ++ [e].filter (goes rm dryRun) ∧
      (evict rm dryRun pass e reason).1.failed.map Prod.fst =
        pass.failed.map Prod.fst ++ [e].filter (fun e => !goes rm dryRun e) := by
  unfold evict goes
  rw [← rmAll_isNone]
  cases dryRun with
  | true => simp
  | false => cases error : (rmAll rm e.paths).2 <;> simp [error, ← rmAll_isNone]

theorem takeEntries_evicted (why : CacheEntry → PruneReason) (pass : PrunePass)
    (entries : List CacheEntry) :
    (takeEntries rm dryRun why pass entries).evicted =
      pass.evicted ++ entries.filter (goes rm dryRun) := by
  induction entries generalizing pass with
  | nil => exact (List.append_nil _).symm
  | cons e rest ih =>
      rw [takeEntries, List.foldl_cons, ← takeEntries, ih, (evict_spec pass e (why e)).2.1,
        List.append_assoc, ← List.filter_append]
      rfl

theorem takeEntries_failed (why : CacheEntry → PruneReason) (pass : PrunePass)
    (entries : List CacheEntry) :
    (takeEntries rm dryRun why pass entries).failed.map Prod.fst =
      pass.failed.map Prod.fst ++ entries.filter fun e => !goes rm dryRun e := by
  induction entries generalizing pass with
  | nil => exact (List.append_nil _).symm
  | cons e rest ih =>
      rw [takeEntries, List.foldl_cons, ← takeEntries, ih, (evict_spec pass e (why e)).2.2,
        List.append_assoc, ← List.filter_append]
      rfl

theorem evictWhere_eq (why : CacheEntry → Option PruneReason) (pass : PrunePass)
    (todo : List CacheEntry) :
    evictWhere rm dryRun why pass todo =
      (takeEntries rm dryRun (fun e => (why e).getD .kept) pass (todo.filter fun e => (why e).isSome),
        todo.filter fun e => (why e).isNone) := by
  induction todo generalizing pass with
  | nil => rfl
  | cons e rest ih =>
      unfold evictWhere
      cases reason : why e with
      | some r =>
          dsimp only
          rw [List.filter_cons_of_pos (by simp [reason]), List.filter_cons_of_neg (by simp [reason]),
            ih, takeEntries, takeEntries, List.foldl_cons, reason]
          rfl
      | none =>
          dsimp only
          rw [List.filter_cons_of_neg (by simp [reason]), List.filter_cons_of_pos (by simp [reason]), ih]

theorem evictOverCap_eq (cap : ℕ) (pass : PrunePass) (total : ℕ) (todo : List CacheEntry) :
    evictOverCap rm dryRun cap pass total todo =
      let taken := Drain.drain
        (fun ahead => decide (cap < total - totalSize (ahead.filter (goes rm dryRun)))) todo
      (takeEntries rm dryRun (fun _ => .sizeCap cap) pass taken.1, taken.2) := by
  induction todo generalizing pass total with
  | nil => rfl
  | cons e rest ih =>
      have remains (ahead : List CacheEntry) :
          (if goes rm dryRun e = true then total - e.sizeBytes else total) -
              totalSize (ahead.filter (goes rm dryRun)) =
            total - totalSize ((e :: ahead).filter (goes rm dryRun)) := by
        by_cases gone : goes rm dryRun e = true
        · rw [if_pos gone, List.filter_cons_of_pos gone, Nat.sub_sub]
          rfl
        · rw [if_neg gone, List.filter_cons_of_neg gone]
      unfold evictOverCap Drain.drain
      by_cases more : cap < total
      · rw [if_pos more, if_pos (by simpa [totalSize] using more)]
        dsimp only
        rw [(evict_spec pass e _).1, ih]
        simp only [remains]
        rfl
      · rw [if_neg more, if_neg (by simpa [totalSize] using more)]
        rfl

theorem evictForSpace_eq (target : ℤ) (pass : PrunePass) (todo : List CacheEntry) :
    evictForSpace rm dryRun target pass todo =
      let taken := Drain.drain (fun ahead =>
        decide ((totalSize (pass.evicted ++ ahead.filter (goes rm dryRun)) : ℤ) < target)) todo
      (takeEntries rm dryRun (fun _ => .reclaimed) pass taken.1, taken.2) := by
  induction todo generalizing pass with
  | nil => rfl
  | cons e rest ih =>
      have gone (ahead : List CacheEntry) :
          (evict rm dryRun pass e .reclaimed).1.evicted ++ ahead.filter (goes rm dryRun) =
            pass.evicted ++ (e :: ahead).filter (goes rm dryRun) := by
        rw [(evict_spec pass e .reclaimed).2.1, List.append_assoc, ← List.filter_append]
        rfl
      unfold evictForSpace Drain.drain
      by_cases more : (totalSize pass.evicted : ℤ) < target
      · rw [if_pos more, if_pos (by simpa using more), ih]
        simp only [gone]
        rfl
      · rw [if_neg more, if_neg (by simpa using more)]
        rfl

theorem evictOlder_eq (opts : PruneOptions) (pass : PrunePass) (candidates : List CacheEntry) :
    evictOlder rm dryRun opts pass candidates =
      (takeEntries rm dryRun (fun e => (whyOlder opts e).getD .kept) pass
          (candidates.filter fun e => (whyOlder opts e).isSome),
        candidates.filter fun e => (whyOlder opts e).isNone) := by
  unfold evictOlder
  cases set : opts.olderThan.filter fun threshold => !threshold.isEmpty with
  | some threshold =>
      simp only [whyOlder, set, Option.bind_some]
      exact evictWhere_eq _ pass candidates
  | none =>
      simp only [whyOlder, set, Option.bind_none, Option.isSome_none, Option.isNone_none,
        List.filter_false, List.filter_true]
      rfl

theorem evictAged_eq (opts : PruneOptions) (now : ℕ) (pass : PrunePass)
    (remaining : List CacheEntry) :
    evictAged rm dryRun opts now pass remaining =
      (takeEntries rm dryRun (fun e => (whyAged opts now e).getD .kept) pass
          (remaining.filter fun e => (whyAged opts now e).isSome),
        remaining.filter fun e => (whyAged opts now e).isNone) := by
  unfold evictAged
  cases set : opts.maxAgeMs with
  | some maxAge =>
      simp only [whyAged, set]
      exact evictWhere_eq _ pass remaining
  | none =>
      simp only [whyAged, set, Option.bind_none, Option.isSome_none, Option.isNone_none,
        List.filter_false, List.filter_true]
      rfl

/-- The counter of the loop under the cap is what is left of all entries. -/
theorem evictToCap_eq (opts : PruneOptions) (protectedBytes : ℕ) (pass : PrunePass)
    (remaining entries gone : List CacheEntry) (evicted : pass.evicted = gone.filter (goes rm dryRun))
    (total : protectedBytes + totalSize remaining + totalSize (pass.failed.map Prod.fst) +
      totalSize pass.evicted = totalSize entries) :
    evictToCap rm dryRun opts protectedBytes pass remaining =
      let taken := Drain.drain
        (fun ahead => overCap (goes rm dryRun) opts entries (gone ++ ahead)) remaining
      (takeEntries rm dryRun (fun _ => .sizeCap (opts.maxSizeBytes.getD 0)) pass taken.1, taken.2) := by
  unfold evictToCap overCap
  cases opts.maxSizeBytes with
  | none =>
      simp only [Option.any_none, Drain.drain_enough]
      rfl
  | some cap =>
      have same (ahead : List CacheEntry) :
          cap < protectedBytes + totalSize remaining + totalSize (pass.failed.map Prod.fst) -
              totalSize (ahead.filter (goes rm dryRun)) ↔
            cap + totalSize ((gone ++ ahead).filter (goes rm dryRun)) < totalSize entries := by
        rw [List.filter_append, totalSize_append, ← evicted, ← total]
        omega
      simp only [Option.any_some, ← same, Option.getD_some]
      exact evictOverCap_eq cap pass _ remaining

theorem evictToReclaim_eq (opts : PruneOptions) (pass : PrunePass)
    (remaining gone : List CacheEntry) (evicted : pass.evicted = gone.filter (goes rm dryRun)) :
    evictToReclaim rm dryRun opts pass remaining =
      let taken := Drain.drain
        (fun ahead => shortOfTarget (goes rm dryRun) opts (gone ++ ahead)) remaining
      (takeEntries rm dryRun (fun _ => .reclaimed) pass taken.1, taken.2) := by
  unfold evictToReclaim shortOfTarget
  cases opts.reclaimBytes with
  | none =>
      simp only [Option.any_none, Drain.drain_enough]
      rfl
  | some target =>
      simp only [Option.any_some, List.filter_append, ← evicted]
      exact evictForSpace_eq target pass remaining

end Carry

def carriedOut (rm : String → Option String) (dryRun : Bool) (opts : PruneOptions) (now : ℕ)
    (start : PrunePass) (s : Selection) : PrunePass :=
  let older := takeEntries rm dryRun (fun e => (whyOlder opts e).getD .kept) start s.older
  let aged := takeEntries rm dryRun (fun e => (whyAged opts now e).getD .kept) older s.aged
  let capped :=
    takeEntries rm dryRun (fun _ => .sizeCap (opts.maxSizeBytes.getD 0)) aged s.overCap
  takeEntries rm dryRun (fun _ => .reclaimed) capped s.forSpace

theorem filter_isSome_perm {β : Type} (f : CacheEntry → Option β) (entries : List CacheEntry) :
    ((entries.filter fun e => (f e).isSome) ++ entries.filter fun e => (f e).isNone).Perm entries := by
  have other : (fun e => (f e).isNone) = fun e => !(f e).isSome := by
    funext e
    cases f e <;> rfl
  rw [other]
  exact List.filter_append_perm (fun e => (f e).isSome) entries

theorem filter_goes_perm (goes : CacheEntry → Bool) (entries : List CacheEntry) :
    totalSize (entries.filter goes) + totalSize (entries.filter fun e => !goes e) =
      totalSize entries := by
  rw [← totalSize_append]
  exact totalSize_perm (List.filter_append_perm goes entries)

/-- What protects the entries that a prune keeps from the start. -/
def protectionReasons (opts : PruneOptions) (now : ℕ) (entries : List CacheEntry) :
    Record PruneReason :=
  Record.assign [] (entries.filterMap fun e =>
    (protection opts now e).map fun reason => (e.basename, reason))

/-- What a prune returns once it has carried out a selection. -/
def pruneResult (opts : PruneOptions) (now : ℕ) (entries : List CacheEntry) (s : Selection)
    (pass : PrunePass) : PruneResult where
  evicted := pass.evicted
  kept := (entries.filter fun e => (protection opts now e).isSome) ++ s.left
  failed := pass.failed
  freedBytes := totalSize pass.evicted
  reasons := s.left.foldl
    (fun reasons e =>
      if (Record.get reasons e.basename).isSome then reasons
      else Record.set reasons e.basename .kept)
    pass.reasons
  attempted := pass.attempted

theorem prune_eq (rm : String → Option String) (view : CacheView) (opts : PruneOptions)
    (pins : List String) :
    let entries := (cacheInventory view pins).entries
    let s := selection (goes rm opts.dryRun) opts entries view.now
    let start : PrunePass := { reasons := protectionReasons opts view.now entries }
    pruneCacheUnderLock rm view opts pins =
      pruneResult opts view.now entries s (carriedOut rm opts.dryRun opts view.now start s) := by
  intro entries s start
  -- The passes after the second and the third rule, with what is gone by then.
  let older := takeEntries rm opts.dryRun (fun e => (whyOlder opts e).getD .kept) start s.older
  let aged := takeEntries rm opts.dryRun (fun e => (whyAged opts view.now e).getD .kept) older s.aged
  let capped :=
    takeEntries rm opts.dryRun (fun _ => .sizeCap (opts.maxSizeBytes.getD 0)) aged s.overCap
  let queue := (entries.filter fun e => (protection opts view.now e).isNone).insertionSort
    fun a b => ¬ Before b a
  let notOlder := queue.filter fun e => (whyOlder opts e).isNone
  let remaining := notOlder.filter fun e => (whyAged opts view.now e).isNone
  have agedGone : aged.evicted = s.overdue.filter (goes rm opts.dryRun) := by
    simp only [aged, older, start, takeEntries_evicted, Selection.overdue, List.filter_append,
      List.nil_append]
  have agedFailed : aged.failed.map Prod.fst = s.overdue.filter fun e => !goes rm opts.dryRun e := by
    simp only [aged, older, start, takeEntries_failed, Selection.overdue, List.filter_append,
      List.map_nil, List.nil_append]
  have cappedGone : capped.evicted = (s.overdue ++ s.overCap).filter (goes rm opts.dryRun) := by
    simp only [capped, takeEntries_evicted, agedGone, List.filter_append]
  have total : totalSize (entries.filter fun e => (protection opts view.now e).isSome) +
      totalSize remaining + totalSize (aged.failed.map Prod.fst) + totalSize aged.evicted =
        totalSize entries := by
    have candidates : totalSize (entries.filter fun e => (protection opts view.now e).isSome) +
        totalSize queue = totalSize entries := by
      rw [totalSize_perm (List.perm_insertionSort _ _), ← totalSize_append]
      exact totalSize_perm (filter_isSome_perm (protection opts view.now) entries)
    have olders : totalSize s.older + totalSize notOlder = totalSize queue :=
      (totalSize_append _ _).symm.trans (totalSize_perm (filter_isSome_perm (whyOlder opts) queue))
    have ageds : totalSize s.aged + totalSize remaining = totalSize notOlder :=
      (totalSize_append _ _).symm.trans
        (totalSize_perm (filter_isSome_perm (whyAged opts view.now) notOlder))
    have overdue : totalSize s.overdue = totalSize s.older + totalSize s.aged :=
      totalSize_append s.older s.aged
    have gone := filter_goes_perm (goes rm opts.dryRun) s.overdue
    rw [agedGone, agedFailed]
    omega
  have cap := evictToCap_eq opts _ aged remaining entries s.overdue agedGone total
  have space := evictToReclaim_eq opts capped (Drain.drain (fun ahead =>
    overCap (goes rm opts.dryRun) opts entries (s.overdue ++ ahead)) remaining).2
      (s.overdue ++ s.overCap) cappedGone
  have run : evictToReclaim rm opts.dryRun opts
      (evictToCap rm opts.dryRun opts
        (totalSize (entries.filter fun e => (protection opts view.now e).isSome)) aged remaining).1
      (evictToCap rm opts.dryRun opts
        (totalSize (entries.filter fun e => (protection opts view.now e).isSome)) aged remaining).2 =
        (carriedOut rm opts.dryRun opts view.now start s, s.left) := by
    rw [cap]
    exact space
  unfold pruneCacheUnderLock
  dsimp only
  rw [evictOlder_eq, evictAged_eq]
  exact congrArg (fun done : PrunePass × List CacheEntry =>
    pruneResult opts view.now entries { s with left := done.2 } done.1) run

theorem parse_reported (name : String) : Reported (parseCacheBasename name).1 := by
  unfold parseCacheBasename
  split
  · dsimp only
    split
    · rename_i valid
      exact .inr valid
    · exact .inl rfl
  · dsimp only
    split
    · rename_i image
      exact .inr (matchImage_eq_some image).1
    · exact .inl rfl

/-- Every entry is reported under a version that parses, or `"unknown"`. -/
theorem entry_reported {view : CacheView} {pins : List String} {e : CacheEntry}
    (member : e ∈ (cacheInventory view pins).entries) : Reported e.version := by
  rw [entries_eq] at member
  rcases List.mem_append.mp member with single | group
  · obtain ⟨f, -, alone⟩ := List.mem_filterMap.mp single
    have reported : e.version = _ :=
      congrArg Prod.fst (single_version (standalone_paths alone).2.2)
    rw [reported]
    exact parse_reported _
  · have reported : e.version = _ := congrArg Prod.fst ((catalogued view _).groups e group).parsed
    rw [reported]
    exact parse_reported _

/-- The queue that the rules about size drain. -/
def Selection.queue (s : Selection) : List CacheEntry := s.overCap ++ (s.forSpace ++ s.left)

/-- What the policy's selection of the entries comes to. -/
structure Selects (goes : CacheEntry → Bool) (opts : PruneOptions) (now : ℕ)
    (entries : List CacheEntry) (s : Selection) : Prop where
  candidates : (s.overdue ++ s.queue).Perm
    (entries.filter fun e => (protection opts now e).isNone)
  overdue : ∀ e ∈ s.overdue, Due opts now e
  fresh : ∀ e ∈ s.queue, ¬ Due opts now e
  sorted : s.queue.Sublist
    ((entries.filter fun e => (protection opts now e).isNone).insertionSort fun a b => ¬ Before b a)
  capped : Drain.Drained (fun ahead => overCap goes opts entries (s.overdue ++ ahead)) s.queue
    s.overCap (s.forSpace ++ s.left)
  spaced : Drain.Drained
    (fun ahead => shortOfTarget goes opts (s.overdue ++ s.overCap ++ ahead)) (s.forSpace ++ s.left)
    s.forSpace s.left

theorem selection_selects (goes : CacheEntry → Bool) (opts : PruneOptions) (now : ℕ)
    (entries : List CacheEntry) :
    Selects goes opts now entries (selection goes opts entries now) := by
  let candidates := entries.filter fun e => (protection opts now e).isNone
  let sorted := candidates.insertionSort fun a b => ¬ Before b a
  let notOlder := sorted.filter fun e => (whyOlder opts e).isNone
  let remaining := notOlder.filter fun e => (whyAged opts now e).isNone
  let s := selection goes opts entries now
  have rest : s.forSpace ++ s.left =
      (Drain.drain (fun ahead => overCap goes opts entries (s.overdue ++ ahead)) remaining).2 :=
    Drain.drain_append _ _
  have queue : s.queue = remaining := by
    rw [Selection.queue, rest]
    exact Drain.drain_append _ _
  refine ⟨?_, ?_, ?_, ?_, ?_, ?_⟩
  · rw [queue]
    refine List.Perm.trans ?_ (List.perm_insertionSort (fun a b => ¬ Before b a) candidates)
    refine List.Perm.trans ?_ (filter_isSome_perm (whyOlder opts) sorted)
    rw [Selection.overdue, List.append_assoc]
    exact (filter_isSome_perm (whyAged opts now) notOlder).append_left _
  · intro e member
    rcases List.mem_append.mp member with older | aged
    · exact .inl (List.mem_filter.mp older).2
    · exact .inr (List.mem_filter.mp aged).2
  · intro e member
    rw [queue] at member
    obtain ⟨inside, notAged⟩ := List.mem_filter.mp member
    obtain ⟨inside, notOlder⟩ := List.mem_filter.mp inside
    rw [Due, Option.isNone_iff_eq_none.mp notOlder, Option.isNone_iff_eq_none.mp notAged]
    simp
  · rw [queue]
    exact List.filter_sublist.trans List.filter_sublist
  · rw [queue, rest]
    exact Drain.drained _ remaining
  · rw [rest]
    exact Drain.drained _ _

/-- Where the versions are read in order, the candidates are sorted by the eviction key. -/
theorem candidates_ordered {versions : Set String} (order : ReadInOrder versions)
    {entries : List CacheEntry} (of : OfVersions versions entries) :
    (entries.insertionSort fun a b => ¬ Before b a).Pairwise fun a b => evictionKey a ≤ evictionKey b := by
  have same := List.map_insertionSort (fun a b => ¬ Before b a)
    (fun a b => evictionKey a ≤ evictionKey b) id entries
    fun a left b right => (not_congr (before_iff order of right left)).trans not_lt
  rw [List.map_id, List.map_id] at same
  have total : Std.Total fun a b => evictionKey a ≤ evictionKey b := ⟨fun a b => le_total _ _⟩
  have trans : IsTrans CacheEntry fun a b => evictionKey a ≤ evictionKey b := ⟨fun _ _ _ => le_trans⟩
  rw [same]
  exact List.pairwise_insertionSort _ entries

theorem carriedOut_evicted (rm : String → Option String) (dryRun : Bool) (opts : PruneOptions)
    (now : ℕ) (reasons : Record PruneReason) (s : Selection) :
    (carriedOut rm dryRun opts now { reasons := reasons } s).evicted =
      s.taken.filter (goes rm dryRun) := by
  simp only [carriedOut, takeEntries_evicted, Selection.taken, Selection.overdue, List.filter_append,
    List.nil_append]

theorem carriedOut_failed (rm : String → Option String) (dryRun : Bool) (opts : PruneOptions)
    (now : ℕ) (reasons : Record PruneReason) (s : Selection) :
    (carriedOut rm dryRun opts now { reasons := reasons } s).failed.map Prod.fst =
      s.taken.filter fun e => !goes rm dryRun e := by
  simp only [carriedOut, takeEntries_failed, Selection.taken, Selection.overdue, List.filter_append,
    List.map_nil, List.nil_append]

/-- What the deletes say of the entries: whatever went had all its paths deleted, and of what failed one
path gave the error. -/
structure Deletes (rm : String → Option String) (dryRun : Bool) (evicted : List CacheEntry)
    (failed : List (CacheEntry × String)) (attempted : List String) : Prop where
  gone : dryRun = false → ∀ e ∈ evicted, ∀ x ∈ e.paths, x ∈ attempted ∧ rm x = none
  refused : ∀ f ∈ failed, dryRun = false ∧ ∃ x ∈ f.1.paths, x ∈ attempted ∧ rm x = some f.2
  owned : ∀ x ∈ attempted, ∃ e ∈ evicted ++ failed.map Prod.fst, x ∈ e.paths
  dry : dryRun = true → attempted = []

section Deletes

variable {rm : String → Option String} {dryRun : Bool}

theorem rmAll_refused {paths : List String} {message : String} (h : (rmAll rm paths).2 = some message) :
    ∃ x ∈ paths, x ∈ (rmAll rm paths).1 ∧ rm x = some message := by
  induction paths with
  | nil => cases h
  | cons path rest ih =>
      unfold rmAll at h ⊢
      cases answer : rm path with
      | some error =>
          rw [answer] at h
          cases h
          exact ⟨path, List.mem_cons_self, List.mem_singleton_self path, answer⟩
      | none =>
          rw [answer] at h
          obtain ⟨x, member, tried, refused⟩ := ih h
          exact ⟨x, List.mem_cons_of_mem _ member, List.mem_cons_of_mem _ tried, refused⟩

def PrunePass.Deletes (rm : String → Option String) (dryRun : Bool) (pass : PrunePass) : Prop :=
  Quickchr.Deletes rm dryRun pass.evicted pass.failed pass.attempted

theorem PrunePass.Deletes.evict {pass : PrunePass} (h : pass.Deletes rm dryRun) (e : CacheEntry)
    (reason : PruneReason) : (evict rm dryRun pass e reason).1.Deletes rm dryRun := by
  unfold Quickchr.evict
  split
  · rename_i dry
    subst dry
    refine ⟨nofun, h.refused, fun x member => ?_, h.dry⟩
    rw [h.dry rfl] at member
    cases member
  · rename_i wet
    have wet := Bool.eq_false_iff.mpr wet
    have later {x : String} {tried : List String} (member : x ∈ pass.attempted) : x ∈ pass.attempted ++ tried :=
      List.mem_append_left _ member
    have gone (e : CacheEntry) (old : e ∈ pass.evicted) (x : String) (path : x ∈ e.paths) :
        x ∈ pass.attempted ++ (rmAll rm e.paths).1 ∧ rm x = none :=
      (h.gone wet e old x path).imp_left later
    have refused (tried : List String) (f : CacheEntry × String) (old : f ∈ pass.failed) :
        dryRun = false ∧ ∃ x ∈ f.1.paths, x ∈ pass.attempted ++ tried ∧ rm x = some f.2 := by
      obtain ⟨x, path, attempted, error⟩ := (h.refused f old).2
      exact ⟨wet, x, path, later attempted, error⟩
    dsimp only
    split
    · rename_i message error
      refine ⟨fun _ old inside x path => (h.gone wet old inside x path).imp_left later, ?_, ?_,
        fun dry => absurd (wet.symm.trans dry) Bool.false_ne_true⟩
      · intro f member
        rcases List.mem_append.mp member with old | now
        · exact refused _ f old
        · obtain ⟨x, path, attempted, error⟩ := rmAll_refused error
          rw [List.mem_singleton.mp now]
          exact ⟨wet, x, path, List.mem_append_right _ attempted, error⟩
      · intro x member
        rcases List.mem_append.mp member with before | now
        · obtain ⟨old, inside, path⟩ := h.owned x before
          refine ⟨old, ?_, path⟩
          rw [List.map_append, ← List.append_assoc]
          exact List.mem_append_left _ inside
        · refine ⟨e, ?_, rmAll_subset now⟩
          simp
    · rename_i complete
      refine ⟨fun _ old inside x path => ?_, refused _, ?_,
        fun dry => absurd (wet.symm.trans dry) Bool.false_ne_true⟩
      · rcases List.mem_append.mp inside with before | last
        · exact (h.gone wet old before x path).imp_left later
        · rw [List.mem_singleton.mp last] at path
          obtain ⟨tried, removed⟩ := rmAll_complete complete path
          exact ⟨List.mem_append_right _ tried, removed⟩
      · intro x member
        rcases List.mem_append.mp member with before | now
        · obtain ⟨old, inside, path⟩ := h.owned x before
          refine ⟨old, ?_, path⟩
          rcases List.mem_append.mp inside with evicted | failed
          · exact List.mem_append_left _ (List.mem_append_left _ evicted)
          · exact List.mem_append_right _ failed
        · exact ⟨e, by simp, rmAll_subset now⟩

theorem PrunePass.Deletes.takeEntries (why : CacheEntry → PruneReason) {entries : List CacheEntry}
    {pass : PrunePass} (h : pass.Deletes rm dryRun) :
    (takeEntries rm dryRun why pass entries).Deletes rm dryRun := by
  induction entries generalizing pass with
  | nil => exact h
  | cons e rest ih => exact ih (h.evict e (why e))

theorem carriedOut_deletes (opts : PruneOptions) (now : ℕ) (reasons : Record PruneReason) (s : Selection) :
    (carriedOut rm dryRun opts now { reasons := reasons } s).Deletes rm dryRun := by
  have start : PrunePass.Deletes rm dryRun { reasons := reasons } := ⟨nofun, nofun, nofun, fun _ => rfl⟩
  exact (((start.takeEntries _).takeEntries _).takeEntries _).takeEntries _

end Deletes

/-- A result accounts for the entries: what it may take, how far it must go, and what was deleted. -/
structure Accounted (rm : String → Option String) (opts : PruneOptions) (now : ℕ)
    (entries : List CacheEntry) (r : PruneResult) : Prop where
  once : (r.evicted ++ r.kept ++ r.failed.map Prod.fst).Perm entries
  spared : ∀ e ∈ r.evicted ++ r.failed.map Prod.fst, Unprotected opts now e
  cap : ∀ cap, opts.maxSizeBytes = some cap →
    totalSize (r.kept ++ r.failed.map Prod.fst) ≤ cap ∨ ∀ e ∈ r.kept, ¬ Unprotected opts now e
  reclaim : ∀ target, opts.reclaimBytes = some target →
    target ≤ totalSize r.evicted ∨ ∀ e ∈ r.kept, ¬ Unprotected opts now e
  freed : r.freedBytes = totalSize r.evicted
  deletes : Deletes rm opts.dryRun r.evicted r.failed r.attempted

/-- A result follows the policy: it also takes what is overdue, and the rest in order. -/
structure FollowsPolicy (rm : String → Option String) (opts : PruneOptions) (now : ℕ)
    (entries : List CacheEntry) (r : PruneResult) : Prop extends Accounted rm opts now entries r where
  overdue : ∀ e ∈ entries, Unprotected opts now e → Overdue opts now e →
    e ∈ r.evicted ∨ e ∈ r.failed.map Prod.fst
  /-- The other candidates are taken in order, each while those ahead of it fell short. -/
  queue : ∃ overdue capped reclaimed left : List CacheEntry,
    r.evicted = (overdue ++ capped ++ reclaimed).filter (goes rm opts.dryRun) ∧
    (r.failed.map Prod.fst = (overdue ++ capped ++ reclaimed).filter fun e => !goes rm opts.dryRun e) ∧
    (∀ e ∈ overdue, Overdue opts now e) ∧ (∀ e ∈ left, e ∈ r.kept) ∧
    (∀ e, e ∈ capped ++ (reclaimed ++ left) ↔
      e ∈ entries ∧ Unprotected opts now e ∧ ¬ Overdue opts now e) ∧
    (capped ++ (reclaimed ++ left)).Pairwise (fun a b => evictionKey a ≤ evictionKey b) ∧
    (∀ ahead e behind, capped = ahead ++ e :: behind → ∃ cap, opts.maxSizeBytes = some cap ∧
      cap + totalSize ((overdue ++ ahead).filter (goes rm opts.dryRun)) < totalSize entries) ∧
    ∀ ahead e behind, reclaimed = ahead ++ e :: behind → ∃ target, opts.reclaimBytes = some target ∧
      (totalSize ((overdue ++ capped ++ ahead).filter (goes rm opts.dryRun)) : ℤ) < target

theorem Selection.taken_left (s : Selection) : s.taken ++ s.left = s.overdue ++ s.queue := by
  simp [Selection.taken, Selection.queue]

section Follows

variable {goes : CacheEntry → Bool} {opts : PruneOptions} {now : ℕ} {entries : List CacheEntry}
  {s : Selection}

theorem Selects.mem_candidates (h : Selects goes opts now entries s) (e : CacheEntry) :
    e ∈ s.overdue ++ s.queue ↔ e ∈ entries ∧ Unprotected opts now e := by
  rw [h.candidates.mem_iff, List.mem_filter, Option.isNone_iff_eq_none, protection_eq_none_iff]

theorem Selects.partition (h : Selects goes opts now entries s) :
    (s.taken.filter goes ++ ((entries.filter fun e => (protection opts now e).isSome) ++ s.left) ++
      s.taken.filter fun e => !goes e).Perm entries := by
  let kept := entries.filter fun e => (protection opts now e).isSome
  have taken := List.filter_append_perm goes s.taken
  calc s.taken.filter goes ++ (kept ++ s.left) ++ s.taken.filter (fun e => !goes e)
    _ |>.Perm (s.taken.filter goes ++ (s.taken.filter (fun e => !goes e) ++ (kept ++ s.left))) := by
        rw [List.append_assoc]
        exact List.perm_append_comm.append_left _
    _ |>.Perm (s.taken ++ (kept ++ s.left)) := by
        rw [← List.append_assoc]
        exact taken.append_right _
    _ |>.Perm (kept ++ (s.taken ++ s.left)) := List.perm_append_comm_assoc _ _ _
    _ |>.Perm entries := by
        rw [s.taken_left]
        exact (h.candidates.append_left kept).trans (filter_isSome_perm (protection opts now) entries)

/-- Under a cap the bytes left fit, or only protected entries are left. -/
theorem Selects.fits (h : Selects goes opts now entries s) {cap : ℕ}
    (set : opts.maxSizeBytes = some cap) :
    totalSize entries ≤ cap + totalSize (s.taken.filter goes) ∨ s.left = [] := by
  rcases h.capped.enough with empty | met
  · exact .inr (List.append_eq_nil_iff.mp empty).2
  · left
    rw [overCap, set, Option.any_some, decide_eq_false_iff_not, not_lt] at met
    rw [Selection.taken, List.filter_append, totalSize_append]
    omega

/-- As much as there is to reclaim has gone, or only protected entries are left. -/
theorem Selects.reaches (h : Selects goes opts now entries s) {target : ℤ}
    (set : opts.reclaimBytes = some target) : target ≤ totalSize (s.taken.filter goes) ∨ s.left = [] := by
  refine h.spaced.enough.symm.imp (fun met => ?_) id
  rw [shortOfTarget, set, Option.any_some, decide_eq_false_iff_not, not_lt] at met
  exact met

end Follows

section Policy

variable (rm : String → Option String) (view : CacheView) (opts : PruneOptions) (pins : List String)

/-- What a prune does, with the selection that it carries out. -/
structure Carries (s : Selection) : Prop where
  selects : Selects (goes rm opts.dryRun) opts view.now (cacheInventory view pins).entries s
  evicted : (pruneCacheUnderLock rm view opts pins).evicted = s.taken.filter (goes rm opts.dryRun)
  failed : (pruneCacheUnderLock rm view opts pins).failed.map Prod.fst =
    s.taken.filter fun e => !goes rm opts.dryRun e
  kept : (pruneCacheUnderLock rm view opts pins).kept =
    ((cacheInventory view pins).entries.filter fun e => (protection opts view.now e).isSome) ++ s.left

theorem prune_carries : Carries rm view opts pins
    (selection (goes rm opts.dryRun) opts (cacheInventory view pins).entries view.now) := by
  have eq := prune_eq rm view opts pins
  refine ⟨selection_selects _ opts view.now _, ?_, ?_, ?_⟩
  · rw [eq]
    exact carriedOut_evicted rm opts.dryRun opts view.now _ _
  · rw [eq]
    exact carriedOut_failed rm opts.dryRun opts view.now _ _
  · rw [eq]
    rfl

theorem prune_accounted : Accounted rm opts view.now (cacheInventory view pins).entries
    (pruneCacheUnderLock rm view opts pins) := by
  have carries := prune_carries rm view opts pins
  have eq := prune_eq rm view opts pins
  generalize selection (goes rm opts.dryRun) opts (cacheInventory view pins).entries view.now = s at carries
  have selects := carries.selects
  have once : ((pruneCacheUnderLock rm view opts pins).evicted ++ (pruneCacheUnderLock rm view opts pins).kept ++
      (pruneCacheUnderLock rm view opts pins).failed.map Prod.fst).Perm (cacheInventory view pins).entries := by
    rw [carries.evicted, carries.failed, carries.kept]
    exact selects.partition
  have drained (empty : s.left = []) : ∀ e ∈ (pruneCacheUnderLock rm view opts pins).kept,
      ¬ Unprotected opts view.now e := by
    intro e member free
    rw [carries.kept, empty, List.append_nil] at member
    have isSome := (List.mem_filter.mp member).2
    rw [protection_eq_none_iff.mpr free] at isSome
    cases isSome
  refine ⟨once, fun e member => ?_, fun cap set => ?_, fun target set => ?_, ?_, ?_⟩
  · rw [carries.evicted, carries.failed, (List.filter_append_perm _ s.taken).mem_iff] at member
    have inside := List.mem_append_left s.left member
    rw [s.taken_left] at inside
    exact ((selects.mem_candidates e).mp inside).2
  · refine (selects.fits set).imp (fun fits => ?_) drained
    have total := totalSize_perm once
    rw [List.append_assoc, totalSize_append, carries.evicted] at total
    omega
  · rw [carries.evicted]
    exact (selects.reaches set).imp id drained
  · rw [eq]
    rfl
  · rw [eq]
    exact carriedOut_deletes opts view.now _ _

end Policy

theorem selection_congr {goes goes' : CacheEntry → Bool} {opts : PruneOptions}
    {entries : List CacheEntry} {now : ℕ}
    (h : ∀ e ∈ (selection goes opts entries now).taken, goes e = goes' e) :
    selection goes opts entries now = selection goes' opts entries now := by
  let s := selection goes opts entries now
  have agree {l : List CacheEntry} (inside : ∀ e ∈ l, e ∈ s.taken) : l.filter goes = l.filter goes' :=
    List.filter_congr fun e member => h e (inside e member)
  let queue := (entries.filter fun e => (protection opts now e).isNone).insertionSort
    fun a b => ¬ Before b a
  let remaining := (queue.filter fun e => (whyOlder opts e).isNone).filter
    fun e => (whyAged opts now e).isNone
  have capped : Drain.drain (fun ahead => overCap goes opts entries (s.overdue ++ ahead)) remaining =
      Drain.drain (fun ahead => overCap goes' opts entries (s.overdue ++ ahead)) remaining := by
    refine Drain.drain_congr fun ahead before => ?_
    dsimp only [overCap]
    rw [agree fun e member => ?_]
    rcases List.mem_append.mp member with overdue | taken
    · exact List.mem_append_left _ (List.mem_append_left _ overdue)
    · exact List.mem_append_left _ (List.mem_append_right _ (before.subset taken))
  have spaced (rest : List CacheEntry)
      (own : (Drain.drain (fun ahead => shortOfTarget goes opts (s.overdue ++ s.overCap ++ ahead))
        rest).1 = s.forSpace) :
      Drain.drain (fun ahead => shortOfTarget goes opts (s.overdue ++ s.overCap ++ ahead)) rest =
        Drain.drain (fun ahead => shortOfTarget goes' opts (s.overdue ++ s.overCap ++ ahead)) rest := by
    refine Drain.drain_congr fun ahead before => ?_
    dsimp only [shortOfTarget]
    rw [agree fun e member => ?_]
    rcases List.mem_append.mp member with taken | now
    · exact List.mem_append_left _ taken
    · rw [own] at before
      exact List.mem_append_right _ (before.subset now)
  have spaced := spaced _ rfl
  simp only [s, selection, Selection.overdue] at capped spaced ⊢
  rw [spaced, capped]

/-- Two passes of which only one may have deleted. -/
structure PrunePass.Alike (p q : PrunePass) : Prop where
  evicted : p.evicted = q.evicted
  failed : p.failed = q.failed
  reasons : p.reasons = q.reasons

theorem PrunePass.Alike.takeEntries {rm rm' : String → Option String} (why : CacheEntry → PruneReason)
    {entries : List CacheEntry} (all : ∀ e ∈ entries, goes rm false e = true) {p q : PrunePass}
    (h : p.Alike q) :
    (takeEntries rm false why p entries).Alike (takeEntries rm' true why q entries) := by
  induction entries generalizing p q with
  | nil => exact h
  | cons e rest ih =>
      have complete : (rmAll rm e.paths).2 = none :=
        Option.isNone_iff_eq_none.mp ((rmAll_isNone e.paths).trans (all e List.mem_cons_self))
      refine ih (fun e member => all e (List.mem_cons_of_mem _ member)) ?_
      simp only [evict, Bool.false_eq_true, if_false, if_true, complete]
      exact ⟨congrArg (· ++ [e]) h.evicted, h.failed, congrArg (Record.set · e.basename (why e)) h.reasons⟩

theorem carriedOut_dry {rm rm' : String → Option String} {opts : PruneOptions} {now : ℕ}
    {start : PrunePass} {s : Selection} (all : ∀ e ∈ s.taken, goes rm false e = true) :
    (carriedOut rm false opts now start s).Alike (carriedOut rm' true opts now start s) := by
  simp only [Selection.taken, Selection.overdue, List.mem_append] at all
  refine .takeEntries _ (fun e member => all e (.inr member)) ?_
  refine .takeEntries _ (fun e member => all e (.inl (.inr member))) ?_
  refine .takeEntries _ (fun e member => all e (.inl (.inl (.inr member)))) ?_
  exact .takeEntries _ (fun e member => all e (.inl (.inl (.inl member)))) ⟨rfl, rfl, rfl⟩

theorem prune_foretold {rm : String → Option String} {view : CacheView} {opts : PruneOptions}
    {pins : List String}
    (complete : (pruneCacheUnderLock rm view { opts with dryRun := false } pins).failed = [])
    (rm' : String → Option String) :
    let real := pruneCacheUnderLock rm view { opts with dryRun := false } pins
    let dry := pruneCacheUnderLock rm' view { opts with dryRun := true } pins
    dry.evicted = real.evicted ∧ dry.kept = real.kept ∧ dry.failed = real.failed ∧
      dry.freedBytes = real.freedBytes ∧ dry.reasons = real.reasons := by
  intro real dry
  let wet : PruneOptions := { opts with dryRun := false }
  let entries := (cacheInventory view pins).entries
  let s := selection (goes rm false) wet entries view.now
  let start : PrunePass := { reasons := protectionReasons wet view.now entries }
  have realEq : real = pruneResult wet view.now entries s (carriedOut rm false wet view.now start s) :=
    prune_eq rm view wet pins
  have all : ∀ e ∈ s.taken, goes rm false e = true := by
    have failed : (carriedOut rm false wet view.now start s).failed = [] :=
      (congrArg PruneResult.failed realEq).symm.trans complete
    have none := carriedOut_failed rm false wet view.now (protectionReasons wet view.now entries) s
    rw [failed] at none
    intro e member
    simpa using List.filter_eq_nil_iff.mp none.symm e member
  have same : selection (goes rm' true) wet entries view.now = s :=
    (selection_congr fun e member => all e member).symm
  have dryEq : dry = pruneResult wet view.now entries s (carriedOut rm' true wet view.now start s) := by
    rw [← same]
    exact prune_eq rm' view { opts with dryRun := true } pins
  have alike : (carriedOut rm false wet view.now start s).Alike
      (carriedOut rm' true wet view.now start s) := carriedOut_dry all
  rw [realEq, dryEq]
  simp only [pruneResult, alike.evicted, alike.failed, alike.reasons, and_self]

/-- A prune follows the policy whatever fails to go; where nothing does, a dry run foretells it. -/
structure PrunePolicy (rm : String → Option String) (view : CacheView) (opts : PruneOptions)
    (pins : List String) : Prop where
  follows : FollowsPolicy rm opts view.now (cacheInventory view pins).entries
    (pruneCacheUnderLock rm view opts pins)
  foretold : (pruneCacheUnderLock rm view { opts with dryRun := false } pins).failed = [] →
    ∀ rm', let real := pruneCacheUnderLock rm view { opts with dryRun := false } pins
      let dry := pruneCacheUnderLock rm' view { opts with dryRun := true } pins
      dry.evicted = real.evicted ∧ dry.kept = real.kept ∧ dry.failed = real.failed ∧
        dry.freedBytes = real.freedBytes ∧ dry.reasons = real.reasons

/-- The versions that a prune compares are among these. -/
structure Compares (versions : Set String) (view : CacheView) (opts : PruneOptions) (pins : List String) :
    Prop where
  entries : ∀ e ∈ (cacheInventory view pins).entries, e.version = "unknown" ∨ e.version ∈ versions
  threshold : ThresholdOf versions opts

theorem prune_follows {versions : Set String} (order : ReadInOrder versions) (rm : String → Option String)
    {view : CacheView} {opts : PruneOptions} {pins : List String} (compares : Compares versions view opts pins) :
    FollowsPolicy rm opts view.now (cacheInventory view pins).entries (pruneCacheUnderLock rm view opts pins) := by
  have carries := prune_carries rm view opts pins
  have accounted := prune_accounted rm view opts pins
  generalize selection (goes rm opts.dryRun) opts (cacheInventory view pins).entries view.now = s at carries
  have selects := carries.selects
  have of : OfVersions versions (cacheInventory view pins).entries := fun e member =>
    ⟨entry_reported member, compares.entries e member⟩
  have due {e : CacheEntry} (member : e ∈ (cacheInventory view pins).entries) :
      Overdue opts view.now e ↔ Due opts view.now e :=
    overdue_iff order (of e member).1 (of e member).2 compares.threshold
  have listed {e : CacheEntry} (member : e ∈ s.overdue ++ s.queue) : e ∈ (cacheInventory view pins).entries :=
    ((selects.mem_candidates e).mp member).1
  refine ⟨accounted, fun e member free overdue => ?_, s.overdue, s.overCap, s.forSpace, s.left, carries.evicted,
    carries.failed, fun e member => ?_, fun e member => ?_, fun e => ⟨fun member => ?_, ?_⟩, ?_,
    fun ahead e behind eq => ?_, fun ahead e behind eq => ?_⟩
  · rcases List.mem_append.mp ((selects.mem_candidates e).mpr ⟨member, free⟩) with taken | waiting
    · rw [carries.evicted, carries.failed, ← List.mem_append, (List.filter_append_perm _ s.taken).mem_iff,
        Selection.taken, List.append_assoc]
      exact List.mem_append_left _ taken
    · exact absurd ((due member).mp overdue) (selects.fresh e waiting)
  · exact (due (listed (List.mem_append_left _ member))).mpr (selects.overdue e member)
  · rw [carries.kept]
    exact List.mem_append_right _ member
  · obtain ⟨inside, free⟩ := (selects.mem_candidates e).mp (List.mem_append_right _ member)
    exact ⟨inside, free, fun overdue => selects.fresh e member ((due inside).mp overdue)⟩
  · rintro ⟨inside, free, notDue⟩
    rcases List.mem_append.mp ((selects.mem_candidates e).mpr ⟨inside, free⟩) with overdue | waiting
    · exact absurd ((due inside).mpr (selects.overdue e overdue)) notDue
    · exact waiting
  · refine List.Pairwise.sublist selects.sorted (candidates_ordered order fun e member => of e ?_)
    exact List.mem_of_mem_filter member
  · obtain ⟨cap, set, exceeds⟩ := (Option.any_eq_true _ _).mp (selects.capped.needed ahead e behind eq)
    exact ⟨cap, set, of_decide_eq_true exceeds⟩
  · obtain ⟨target, set, short⟩ := (Option.any_eq_true _ _).mp (selects.spaced.needed ahead e behind eq)
    exact ⟨target, set, of_decide_eq_true short⟩

def imageFile (version : String) (mtimeMs : ℕ) : CacheFile where
  name := s!"{chrImageBasename version .x86}.img"
  type := .file
  sizeBytes := 1
  mtimeMs := mtimeMs

def imageEntry (version : String) (mtimeMs : ℕ) : CacheEntry where
  path := (imageFile version mtimeMs).name
  paths := [(imageFile version mtimeMs).name]
  basename := (imageFile version mtimeMs).name
  kind := .image
  version := version
  arch := some .x86
  sizeBytes := 1
  mtimeMs := mtimeMs
  inUse := false

/-- A cache of these images and no machine. -/
def imageView (images : List (String × ℕ)) : CacheView where
  listing := images.map fun image => imageFile image.1 image.2
  machines := none
  now := 0
  pidAlive _ := false

section Image

variable {version : String} (valid : isValidVersion version = true) (mtimeMs : ℕ)
include valid

theorem singleEntry_image (view : CacheView) :
    singleEntry view [] (imageFile version mtimeMs) = some (imageEntry version mtimeMs) := by
  have chars : (imageFile version mtimeMs).name.toList = imageStem version .x86 ++ ".img".toList :=
    image_chars version .x86
  have img : endsWith (imageFile version mtimeMs).name ".img" = true := endsWith_append _ _
  have zip : endsWith (imageFile version mtimeMs).name ".img.zip" = false := by
    rw [Bool.eq_false_iff]
    intro zip
    obtain ⟨before, eq⟩ := endsWith_iff zip
    rw [chars] at eq
    exact absurd (ends_differ (c := 'g') (d := 'p') eq rfl rfl) (by decide)
  have noPart : matchPart (imageFile version mtimeMs).name = none := image_no_part (.inr img)
  have noExtraction : isExtraction (imageFile version mtimeMs) = false := rfl
  have file : ¬ (imageFile version mtimeMs).type ≠ .file := not_not.mpr rfl
  have parsed : parseCacheBasename (imageFile version mtimeMs).name = (version, some .x86) :=
    parse_image valid .x86 chars (.inr (.inl rfl))
  unfold singleEntry
  simp only [noPart, noExtraction, file, zip, img, parsed, known_version valid, Option.filter_none,
    Option.isSome_none, Bool.or_self, Bool.false_eq_true, if_false, if_true, List.contains_nil]
  rfl

theorem addFile_image (view : CacheView) (acc : CacheInventory × List CacheEntry) :
    addFile view [] acc (imageFile version mtimeMs) =
      ({ acc.1 with entries := acc.1.entries ++ [imageEntry version mtimeMs] }, acc.2) := by
  have head : (imageFile version mtimeMs).name.toList.head? = some 'c' := image_head version _ .x86
  have none : packageArtifact (imageFile version mtimeMs) = none := no_artifact head (by decide)
  rw [addFile, none, singleEntry_image valid]

end Image

theorem imageView_entries {images : List (String × ℕ)}
    (valid : ∀ image ∈ images, isValidVersion image.1 = true) :
    (cacheInventory (imageView images) []).entries = images.map fun image => imageEntry image.1 image.2 := by
  have run (view : CacheView) (acc : CacheInventory × List CacheEntry) :
      (images.map fun image => imageFile image.1 image.2).foldl (addFile view []) acc =
        ({ acc.1 with entries := acc.1.entries ++ images.map fun image => imageEntry image.1 image.2 }, acc.2) := by
    induction images generalizing acc with
    | nil => rw [List.map_nil, List.map_nil, List.append_nil]; rfl
    | cons image rest ih =>
        rw [List.map_cons, List.foldl_cons, addFile_image (valid image List.mem_cons_self),
          ih fun other member => valid other (List.mem_cons_of_mem _ member), List.append_assoc]
        rfl
  have whole := run (imageView images) (⟨[], 0⟩, [])
  exact (congrArg (fun read => read.1.entries ++ read.2) whole).trans (List.append_nil _)

theorem goes_all (dryRun : Bool) : goes (fun _ => none) dryRun = fun _ => true := by
  funext e
  simp [goes]

theorem imageView_carries {images : List (String × ℕ)} (valid : ∀ image ∈ images, isValidVersion image.1 = true)
    (opts : PruneOptions) : Carries (fun _ => none) (imageView images) opts []
      (selection (fun _ => true) opts (images.map fun image => imageEntry image.1 image.2) 0) := by
  have carries := prune_carries (fun _ => none) (imageView images) opts []
  rw [goes_all, imageView_entries valid] at carries
  exact carries

/-- Without a cap and with nothing protected or due, the entries go in their order for the room to reclaim. -/
theorem selection_taken {opts : PruneOptions} {entries : List CacheEntry} {now : ℕ}
    (free : ∀ e ∈ entries, protection opts now e = none)
    (fresh : ∀ e ∈ entries, whyOlder opts e = none ∧ whyAged opts now e = none)
    (noCap : opts.maxSizeBytes = none) (goes : CacheEntry → Bool) :
    (selection goes opts entries now).taken =
      (Drain.drain (shortOfTarget goes opts) (entries.insertionSort fun a b => ¬ Before b a)).1 := by
  have candidates : (entries.filter fun e => (protection opts now e).isNone) = entries :=
    List.filter_eq_self.mpr fun e member => Option.isNone_iff_eq_none.mpr (free e member)
  have inside {e : CacheEntry} (member : e ∈ entries.insertionSort fun a b => ¬ Before b a) : e ∈ entries :=
    (List.mem_insertionSort _).mp member
  have older := fun e member => (fresh e (inside member)).1
  have aged := fun e member => (fresh e (inside member)).2
  have none {why : CacheEntry → Option PruneReason} {l : List CacheEntry} (fresh : ∀ e ∈ l, why e = none) :
      (l.filter fun e => (why e).isSome) = [] ∧ (l.filter fun e => (why e).isNone) = l :=
    ⟨List.filter_eq_nil_iff.mpr fun e member => by simp [fresh e member],
      List.filter_eq_self.mpr fun e member => Option.isNone_iff_eq_none.mpr (fresh e member)⟩
  have uncapped (gone : List CacheEntry) : overCap goes opts entries gone = false := by
    rw [overCap, noCap]
    rfl
  simp only [selection, Selection.taken, Selection.overdue, candidates, none older, none aged, uncapped,
    Drain.drain_enough, List.nil_append]

/-- An older version that is not read as the older one is kept under the threshold. -/
theorem older_missed {left right : String} {v w : VersionNumbers} (reads : readVersion left = some v)
    (reads' : readVersion right = some w) (older : v.key < w.key) (missed : ¬ v.parsed.key < w.parsed.key) :
    ¬ PrunePolicy (fun _ => none) (imageView [(left, 0)]) { olderThan := some right } [] := by
  intro policy
  have valid : isValidVersion left = true := Option.isSome_iff_exists.mpr ⟨v, reads⟩
  have valid' : isValidVersion right = true := Option.isSome_iff_exists.mpr ⟨w, reads'⟩
  have both : ∀ image ∈ [(left, 0)], isValidVersion image.1 = true := List.forall_mem_singleton.mpr valid
  have differ : left ≠ right := by
    rintro rfl
    rw [reads] at reads'
    cases reads'
    exact lt_irrefl _ older
  let opts : PruneOptions := { olderThan := some right }
  have kept : whyOlder opts (imageEntry left 0) = none := by
    have compared : (compareVersionsSafe left right).sign ≠ some (-1) := by
      rw [compareVersionsSafe, if_neg differ, if_neg (known_version valid), if_neg (known_version valid'),
        compareRouterOsVersion_of_read reads reads', Option.getD_some, ne_eq, compareParsed_tells.below]
      exact missed
    have set : (opts.olderThan.filter fun threshold => !threshold.isEmpty) = none ∨
        (opts.olderThan.filter fun threshold => !threshold.isEmpty) = some right := by
      simp only [opts, Option.filter_some]
      split <;> simp
    rw [whyOlder]
    rcases set with none | some_
    · rw [none]
      rfl
    · rw [some_, Option.bind_some, if_neg fun older => compared older.2]
  have taken : (selection (fun _ => true) opts [imageEntry left 0] 0).taken = [] := by
    rw [selection_taken (List.forall_mem_singleton.mpr rfl) (List.forall_mem_singleton.mpr ⟨kept, rfl⟩) rfl]
    exact congrArg Prod.fst (Drain.drain_enough _)
  have carries := imageView_carries both opts
  have entry : imageEntry left 0 ∈ (cacheInventory (imageView [(left, 0)]) []).entries := by
    rw [imageView_entries both]
    exact List.mem_singleton_self _
  have free : Unprotected opts 0 (imageEntry left 0) := ⟨rfl, nofun, nofun, nofun⟩
  have gone := policy.follows.overdue _ entry free (.older right rfl ⟨v, w, reads, reads', older⟩)
  rw [carries.evicted, carries.failed, List.map_cons, List.map_nil, taken] at gone
  rcases gone with gone | gone <;> cases gone

/-- Of two images whose versions' comparison is no number the newer is taken first. -/
theorem newer_taken {left right : String} {v : VersionNumbers} (reads : readVersion left = some v)
    (reads' : readVersion right = some v) (differ : left ≠ right)
    (infinite : Number.round v.stageNum = .infinity false) :
    ¬ PrunePolicy (fun _ => none) (imageView [(left, 1), (right, 0)]) { reclaimBytes := some 1 } [] := by
  intro policy
  have valid : isValidVersion left = true := Option.isSome_iff_exists.mpr ⟨v, reads⟩
  have valid' : isValidVersion right = true := Option.isSome_iff_exists.mpr ⟨v, reads'⟩
  have both : ∀ image ∈ [(left, 1), (right, 0)], isValidVersion image.1 = true :=
    List.forall_mem_cons.mpr ⟨valid, List.forall_mem_singleton.mpr valid'⟩
  let opts : PruneOptions := { reclaimBytes := some 1 }
  have nan : (compareParsed v.parsed v.parsed).sign = none := compareParsed_nan_iff.mpr ⟨rfl, infinite⟩
  have unordered : ¬ Before (imageEntry right 0) (imageEntry left 1) := by
    have same : compareCandidates (imageEntry right 0) (imageEntry left 1) = compareParsed v.parsed v.parsed := by
      have compared : compareVersionsSafe right left = compareParsed v.parsed v.parsed := by
        rw [compareVersionsSafe, if_neg differ.symm, if_neg (known_version valid'), if_neg (known_version valid),
          compareRouterOsVersion_of_read reads' reads, Option.getD_some]
      have number : compareParsed v.parsed v.parsed ≠ .round 0 := by
        rw [ne_eq, ← Number.sign_eq_zero_iff, nan]
        exact nofun
      exact (if_pos (compared ▸ number)).trans compared
    rw [Before, same, nan]
    exact nofun
  have sorted : [imageEntry left 1, imageEntry right 0].insertionSort (fun a b => ¬ Before b a) =
      [imageEntry left 1, imageEntry right 0] := by
    simp [unordered]
  have evicted : (pruneCacheUnderLock (fun _ => none) (imageView [(left, 1), (right, 0)]) opts []).evicted =
      [imageEntry left 1] := by
    have all (version : String) (mtimeMs : ℕ) : protection opts 0 (imageEntry version mtimeMs) = none ∧
        whyOlder opts (imageEntry version mtimeMs) = none ∧ whyAged opts 0 (imageEntry version mtimeMs) = none :=
      ⟨rfl, rfl, rfl⟩
    have free : ∀ e ∈ [imageEntry left 1, imageEntry right 0], protection opts 0 e = none ∧
        whyOlder opts e = none ∧ whyAged opts 0 e = none :=
      List.forall_mem_cons.mpr ⟨all left 1, List.forall_mem_singleton.mpr (all right 0)⟩
    rw [(imageView_carries both opts).evicted]
    show (selection _ opts [imageEntry left 1, imageEntry right 0] 0).taken.filter _ = _
    rw [selection_taken (fun e member => (free e member).1) (fun e member => (free e member).2) rfl, sorted]
    rfl
  obtain ⟨overdue, capped, reclaimed, rest, isEvicted, -, isOverdue, -, waiting, ordered, isCapped, -⟩ :=
    policy.follows.queue
  have noneDue (e : CacheEntry) : ¬ Overdue opts 0 e := by
    rintro (⟨_, ⟨⟩, -⟩ | ⟨_, ⟨⟩, -⟩)
  have noneOverdue : overdue = [] :=
    List.eq_nil_iff_forall_not_mem.mpr fun e member => noneDue e (isOverdue e member)
  have noneCapped : capped = [] := by
    cases capped with
    | nil => rfl
    | cons e rest =>
        obtain ⟨_, ⟨⟩, -⟩ := isCapped [] e rest rfl
  have taken : reclaimed = [imageEntry left 1] := by
    have whole := isEvicted.symm.trans evicted
    rw [noneOverdue, noneCapped, goes_all, List.filter_true] at whole
    exact whole
  have last : imageEntry right 0 ∈ rest := by
    have entry : imageEntry right 0 ∈ (cacheInventory (imageView [(left, 1), (right, 0)]) []).entries := by
      rw [imageView_entries both]
      exact List.mem_cons_of_mem _ (List.mem_singleton_self _)
    have inside := (waiting _).mpr ⟨entry, ⟨rfl, nofun, nofun, nofun⟩, noneDue _⟩
    rw [noneCapped, taken] at inside
    rcases List.mem_cons.mp inside with same | later
    · exact absurd (congrArg CacheEntry.mtimeMs same) Nat.zero_ne_one
    · exact later
  rw [noneCapped, taken] at ordered
  have first := (List.pairwise_cons.mp ordered).1 _ last
  have keys : versionKey left = versionKey right := by
    rw [versionKey_of_read reads, versionKey_of_read reads']
  have later : evictionKey (imageEntry right 0) < evictionKey (imageEntry left 1) := by
    rw [evictionKey, evictionKey, Prod.Lex.toLex_lt_toLex, Prod.Lex.toLex_lt_toLex]
    exact .inr ⟨rfl, .inr ⟨keys.symm, Nat.one_pos⟩⟩
  exact absurd first (not_le.mpr later)

end Quickchr
