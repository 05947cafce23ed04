import Mathlib.Algebra.GroupWithZero.Nat
import Quickchr.CacheNames
import Quickchr.Lib.Record
import Quickchr.MachineState

/-!
# The cache and its retention policy

What the cache directory holds as entries, which of them are in use, and which ones a prune
deletes. What the file system answers to a delete is a parameter.
-/
namespace Quickchr

inductive CacheEntryKind
  | image | imageZip | packages | download
  deriving DecidableEq, Repr

structure CacheEntry where
  /-- The entry's main file or directory. -/
  path : String
  /-- Everything that deleting the entry removes. -/
  paths : List String
  basename : String
  kind : CacheEntryKind
  version : String
  arch : Option Arch
  sizeBytes : ℕ
  mtimeMs : ℕ
  inUse : Bool
  deriving DecidableEq, Repr

/-- The fields of machine.json that the cache looks at. -/
structure MachineNeeds where
  version : String
  arch : Option Arch
  packages : List String
  installAllPackages : Option Bool
  provisioning : Option ProvisioningRecord
  deriving DecidableEq, Repr

def MachineNeeds.names (m : MachineNeeds) : List String :=
  match m.arch with
  | none => []
  | some arch =>
      if m.version.isEmpty then []
      else
        let wantsPackages := m.installAllPackages = some true || 0 < m.packages.length
        [s!"{chrImageBasename m.version arch}.img", s!"{chrImageBasename m.version arch}.img.zip"] ++
          if wantsPackages && m.provisioning.isNone then [s!"packages-{arch.text}-{m.version}"] else []

/-- Cache names the machines still need; `none` where their records cannot be loaded. -/
def inUseSet (machines : Option (List MachineNeeds)) : List String :=
  (machines.getD []).flatMap MachineNeeds.names

/-- `RECENT_USE_MS`: 30 minutes. -/
def RECENT_USE_MS : ℕ := 30 * 60 * 1000

/-- What a look at the cache directory finds: its names, the machines, the clock and the live
processes. -/
structure CacheView where
  listing : List CacheFile
  machines : Option (List MachineNeeds)
  now : ℕ
  pidAlive : ℕ → Bool

structure CacheInventory where
  entries : List CacheEntry
  unmanagedBytes : ℕ
  deriving DecidableEq, Repr

def ageMs (now mtimeMs : ℕ) : ℤ := now - mtimeMs

/-- Adds the archive or the extraction to its group. -/
def addPackages (groups : List CacheEntry) (used : List String) (file : CacheFile)
    (packages : PackagesName) : List CacheEntry :=
  if groups.any fun g => g.basename = packages.key then
    groups.map fun g =>
      if g.basename = packages.key then
        { g with
          paths := g.paths ++ [file.name]
          sizeBytes := g.sizeBytes + file.sizeBytes
          mtimeMs := max g.mtimeMs file.mtimeMs }
      else g
  else
    let (version, arch) := parseCacheBasename packages.key
    groups ++ [{
      path := packages.key
      paths := [file.name]
      basename := packages.key
      kind := .packages
      version := version
      arch := arch
      sizeBytes := file.sizeBytes
      mtimeMs := file.mtimeMs
      inUse := used.contains packages.key }]

/-- The entry of a name that is no package artifact; `none` for what is not managed. -/
def singleEntry (view : CacheView) (used : List String) (file : CacheFile) : Option CacheEntry :=
  let part := (matchPart file.name).filter fun part => isManagedDownloadTarget part.1
  if part.isSome || isExtraction file then
    let target := ((matchPart file.name).map (·.1)).getD file.name
    let (version, arch) := parseCacheBasename target
    some {
      path := file.name
      paths := [file.name]
      basename := file.name
      kind := .download
      version := version
      arch := arch
      sizeBytes := file.sizeBytes
      mtimeMs := file.mtimeMs
      inUse :=
        match matchPart file.name with
        | some (_, pid) => view.pidAlive pid
        | none => ageMs view.now file.mtimeMs < RECENT_USE_MS }
  else
    let kind : Option CacheEntryKind :=
      if file.type ≠ .file then none
      else if endsWith file.name ".img.zip" then some .imageZip
      else if endsWith file.name ".img" then some .image
      else none
    let (version, arch) := parseCacheBasename file.name
    match kind with
    | none => none
    | some kind =>
        if version = "unknown" then none
        else some {
          path := file.name
          paths := [file.name]
          basename := file.name
          kind := kind
          version := version
          arch := arch
          sizeBytes := file.sizeBytes
          mtimeMs := file.mtimeMs
          inUse := used.contains file.name }

/-- One name of the listing: package artifacts are grouped, the others stand alone. -/
def addFile (view : CacheView) (used : List String) (acc : CacheInventory × List CacheEntry)
    (file : CacheFile) : CacheInventory × List CacheEntry :=
  match packageArtifact file with
  | some packages => (acc.1, addPackages acc.2 used file packages)
  | none =>
      match singleEntry view used file with
      | some entry => ({ acc.1 with entries := acc.1.entries ++ [entry] }, acc.2)
      | none => ({ acc.1 with unmanagedBytes := acc.1.unmanagedBytes + file.sizeBytes }, acc.2)

/-- Every entry quickchr manages, plus the bytes it does not. -/
def cacheInventory (view : CacheView) (pins : List String) : CacheInventory :=
  let used := inUseSet view.machines ++ pins
  let (inventory, groups) := view.listing.foldl (addFile view used) (⟨[], 0⟩, [])
  { inventory with entries := inventory.entries ++ groups }

structure PruneOptions where
  maxSizeBytes : Option ℕ := none
  maxAgeMs : Option ℕ := none
  olderThan : Option String := none
  protectVersions : List String := []
  /-- Evict until this many bytes are gone. -/
  reclaimBytes : Option ℤ := none
  skipRecentMs : Option ℕ := none
  /-- A reclaim loop's earlier failed deletes. -/
  skipEntries : List String := []
  dryRun : Bool := false
  deriving DecidableEq, Repr

inductive PruneReason
  | inProgress
  | inUse
  | protectedVersion (version : String)
  | skipped
  | usedRecently
  | deleteFailed (message : String)
  | olderVersion (version threshold : String)
  | age (ms : ℤ) (maxAgeMs : ℕ)
  | sizeCap (cap : ℕ)
  | reclaimed
  | kept
  deriving DecidableEq, Repr

/-- What the deletes of one prune have come to. `attempted` are the paths that a delete was
called on, in order. -/
structure PrunePass where
  evicted : List CacheEntry := []
  failed : List (CacheEntry × String) := []
  reasons : Record PruneReason := []
  attempted : List String := []
  deriving DecidableEq, Repr

structure PruneResult where
  evicted : List CacheEntry
  kept : List CacheEntry
  failed : List (CacheEntry × String)
  /-- Logical size of what was deleted. -/
  freedBytes : ℕ
  reasons : Record PruneReason
  attempted : List String
  deriving DecidableEq, Repr

def compareVersionsSafe (a b : String) : Number :=
  if a = b then .round 0
  else if a = "unknown" then .round (-1 : ℤ)
  else if b = "unknown" then .round (1 : ℤ)
  else (compareRouterOsVersion a b).getD (.round 0)

/-- Interrupted downloads first, then the oldest version, then the oldest use. -/
def compareCandidates (a b : CacheEntry) : Number :=
  let partialFirst : ℤ := (if b.kind = .download then 1 else 0) - (if a.kind = .download then 1 else 0)
  if partialFirst ≠ 0 then .round partialFirst
  else
    let v := compareVersionsSafe a.version b.version
    if v ≠ .round 0 then v else .round (a.mtimeMs - b.mtimeMs : ℤ)

/-- Sorting takes a comparison that is no number for zero. -/
def Before (a b : CacheEntry) : Prop := (compareCandidates a b).sign = some (-1)

instance : DecidableRel Before := fun _ _ => inferInstanceAs (Decidable (_ = _))

/-- Why an entry is no candidate for eviction. -/
def protection (opts : PruneOptions) (now : ℕ) (e : CacheEntry) : Option PruneReason :=
  if e.inUse then some (if e.kind = .download then .inProgress else .inUse)
  else if opts.protectVersions.contains e.version then some (.protectedVersion e.version)
  else if opts.skipEntries.contains e.basename then some .skipped
  else if opts.skipRecentMs.any fun ms => ageMs now e.mtimeMs < ms then some .usedRecently
  else none

def totalSize (entries : List CacheEntry) : ℕ := (entries.map CacheEntry.sizeBytes).sum

section Prune

-- `rm` is what `rmSync` of a path answers: the message of its error, or nothing.
variable (rm : String → Option String) (dryRun : Bool)

/-- `rmSync` of one path after another, until one throws. -/
def rmAll : List String → List String × Option String
  | [] => ([], none)
  | path :: rest =>
      match rm path with
      | some message => ([path], some message)
      | none =>
          let (attempted, error) := rmAll rest
          (path :: attempted, error)

/-- True when the entry is gone, or in a dry run would be. -/
def evict (pass : PrunePass) (e : CacheEntry) (reason : PruneReason) : PrunePass × Bool :=
  if dryRun then
    ({ pass with evicted := pass.evicted ++ [e], reasons := pass.reasons.set e.basename reason }, true)
  else
    let (attempted, error) := rmAll rm e.paths
    match error with
    | some message =>
        ({ pass with
            failed := pass.failed ++ [(e, message)]
            reasons := pass.reasons.set e.basename (.deleteFailed message)
            attempted := pass.attempted ++ attempted }, false)
    | none =>
        ({ pass with
            evicted := pass.evicted ++ [e]
            reasons := pass.reasons.set e.basename reason
            attempted := pass.attempted ++ attempted }, true)

/-- Evicts the entries that have a reason to go and returns the others. -/
def evictWhere (why : CacheEntry → Option PruneReason) :
    PrunePass → List CacheEntry → PrunePass × List CacheEntry
  | pass, [] => (pass, [])
  | pass, e :: rest =>
      match why e with
      | some reason => evictWhere why (evict rm dryRun pass e reason).1 rest
      | none =>
          let (pass, remaining) := evictWhere why pass rest
          (pass, e :: remaining)

def evictOverCap (cap : ℕ) : PrunePass → ℕ → List CacheEntry → PrunePass × List CacheEntry
  | pass, _, [] => (pass, [])
  | pass, total, victim :: rest =>
      if cap < total then
        let (pass, gone) := evict rm dryRun pass victim (.sizeCap cap)
        evictOverCap cap pass (if gone then total - victim.sizeBytes else total) rest
      else (pass, victim :: rest)

def evictForSpace (target : ℤ) : PrunePass → List CacheEntry → PrunePass × List CacheEntry
  | pass, [] => (pass, [])
  | pass, victim :: rest =>
      if totalSize pass.evicted < target then
        evictForSpace target (evict rm dryRun pass victim .reclaimed).1 rest
      else (pass, victim :: rest)

/-- `olderThan`, where the empty text is no threshold. -/
def evictOlder (opts : PruneOptions) (pass : PrunePass) (candidates : List CacheEntry) :
    PrunePass × List CacheEntry :=
  match opts.olderThan.filter fun threshold => !threshold.isEmpty with
  | some threshold =>
      evictWhere rm dryRun
        (fun e =>
          if e.version ≠ "unknown" ∧ (compareVersionsSafe e.version threshold).sign = some (-1) then
            some (.olderVersion e.version threshold)
          else none)
        pass candidates
  | none => (pass, candidates)

/-- `maxAgeMs` -/
def evictAged (opts : PruneOptions) (now : ℕ) (pass : PrunePass) (remaining : List CacheEntry) :
    PrunePass × List CacheEntry :=
  match opts.maxAgeMs with
  | some maxAge =>
      evictWhere rm dryRun
        (fun e =>
          if ageMs now e.mtimeMs > maxAge then some (.age (ageMs now e.mtimeMs) maxAge) else none)
        pass remaining
  | none => (pass, remaining)

/-- `maxSizeBytes`; what is protected and what failed to go counts, too. -/
def evictToCap (opts : PruneOptions) (protectedBytes : ℕ) (pass : PrunePass)
    (remaining : List CacheEntry) : PrunePass × List CacheEntry :=
  match opts.maxSizeBytes with
  | some cap =>
      let total := protectedBytes + totalSize remaining + totalSize (pass.failed.map Prod.fst)
      evictOverCap rm dryRun cap pass total remaining
  | none => (pass, remaining)

/-- `reclaimBytes` -/
def evictToReclaim (opts : PruneOptions) (pass : PrunePass) (remaining : List CacheEntry) :
    PrunePass × List CacheEntry :=
  match opts.reclaimBytes with
  | some target => evictForSpace rm dryRun target pass remaining
  | none => (pass, remaining)

end Prune

/-- Evicts what the options single out among the entries that are not protected. -/
def pruneCacheUnderLock (rm : String → Option String) (view : CacheView) (opts : PruneOptions)
    (pins : List String) : PruneResult :=
  let entries := (cacheInventory view pins).entries
  let protectedEntries := entries.filter fun e => (protection opts view.now e).isSome
  let candidates := (entries.filter fun e => (protection opts view.now e).isNone).insertionSort
    fun a b => ¬ Before b a
  let reasons := entries.filterMap fun e =>
    (protection opts view.now e).map fun reason => (e.basename, reason)
  let older := evictOlder rm opts.dryRun opts { reasons := Record.assign [] reasons } candidates
  let aged := evictAged rm opts.dryRun opts view.now older.1 older.2
  let capped := evictToCap rm opts.dryRun opts (totalSize protectedEntries) aged.1 aged.2
  let done := evictToReclaim rm opts.dryRun opts capped.1 capped.2
  { evicted := done.1.evicted
    kept := protectedEntries ++ done.2
    failed := done.1.failed
    freedBytes := totalSize done.1.evicted
    reasons := done.2.foldl
      (fun reasons e =>
        if (Record.get reasons e.basename).isSome then reasons
        else Record.set reasons e.basename .kept)
      done.1.reasons
    attempted := done.1.attempted }

theorem rmAll_subset {rm : String → Option String} {paths : List String} {x : String}
    (h : x ∈ (rmAll rm paths).1) : x ∈ paths := by
  induction paths with
  | nil => cases h
  | cons path rest ih =>
      unfold rmAll at h
      split at h
      · rw [List.mem_singleton] at h
        exact h ▸ List.mem_cons_self
      · rcases List.mem_cons.mp h with rfl | later
        · exact List.mem_cons_self
        · exact List.mem_cons_of_mem _ (ih later)

theorem rmAll_complete {rm : String → Option String} {paths : List String}
    (h : (rmAll rm paths).2 = none) {x : String} (member : x ∈ paths) :
    x ∈ (rmAll rm paths).1 ∧ rm x = none := by
  induction paths with
  | nil => cases member
  | cons path rest ih =>
      unfold rmAll at h ⊢
      split at h
      · cases h
      · rename_i removed
        rcases List.mem_cons.mp member with rfl | later
        · exact ⟨List.mem_cons_self, removed⟩
        · obtain ⟨attempted, gone⟩ := ih h later
          exact ⟨List.mem_cons_of_mem _ attempted, gone⟩

/-- A prune that works through some of the entries `from`. -/
structure PrunePass.Sound (rm : String → Option String) (dryRun : Bool) (entries : List CacheEntry)
    (pass : PrunePass) : Prop where
  attempted : ∀ x ∈ pass.attempted, ∃ e ∈ entries, x ∈ e.paths
  evicted : ∀ e ∈ pass.evicted, e ∈ entries
  gone : dryRun = false → ∀ e ∈ pass.evicted, ∀ x ∈ e.paths, x ∈ pass.attempted ∧ rm x = none
  dry : dryRun = true → pass.attempted = []

section Sound

variable {rm : String → Option String} {dryRun : Bool} {entries : List CacheEntry}

theorem PrunePass.Sound.evict {pass : PrunePass} (h : pass.Sound rm dryRun entries) {e : CacheEntry}
    (member : e ∈ entries) (reason : PruneReason) :
    (evict rm dryRun pass e reason).1.Sound rm dryRun entries := by
  have evicted : ∀ x ∈ pass.evicted ++ [e], x ∈ entries := by
    intro x inside
    rcases List.mem_append.mp inside with before | last
    · exact h.evicted x before
    · exact List.mem_singleton.mp last ▸ member
  unfold Quickchr.evict
  split
  · rename_i dry
    subst dry
    exact ⟨h.attempted, evicted, nofun, h.dry⟩
  · rename_i wet
    have attempted : ∀ x ∈ pass.attempted ++ (rmAll rm e.paths).1, ∃ e ∈ entries, x ∈ e.paths := by
      intro x inside
      rcases List.mem_append.mp inside with before | now
      · exact h.attempted x before
      · exact ⟨e, member, rmAll_subset now⟩
    dsimp only
    split
    · refine ⟨attempted, h.evicted, fun live old inside x path => ?_, fun dry => absurd dry wet⟩
      obtain ⟨tried, removed⟩ := h.gone live old inside x path
      exact ⟨List.mem_append_left _ tried, removed⟩
    · rename_i complete
      refine ⟨attempted, evicted, fun live old inside x path => ?_, fun dry => absurd dry wet⟩
      rcases List.mem_append.mp inside with before | last
      · obtain ⟨tried, removed⟩ := h.gone live old before x path
        exact ⟨List.mem_append_left _ tried, removed⟩
      · rw [List.mem_singleton.mp last] at path
        obtain ⟨tried, removed⟩ := rmAll_complete complete path
        exact ⟨List.mem_append_right _ tried, removed⟩

/-- What holds after a phase of the prune. -/
structure Phase (rm : String → Option String) (dryRun : Bool) (entries : List CacheEntry)
    (out : PrunePass × List CacheEntry) : Prop where
  sound : out.1.Sound rm dryRun entries
  remaining : ∀ e ∈ out.2, e ∈ entries

theorem Phase.evictWhere (why : CacheEntry → Option PruneReason) {pass : PrunePass}
    {todo : List CacheEntry} (h : Phase rm dryRun entries (pass, todo)) :
    Phase rm dryRun entries (evictWhere rm dryRun why pass todo) := by
  induction todo generalizing pass with
  | nil => exact h
  | cons e rest ih =>
      have member := h.remaining e List.mem_cons_self
      have later : ∀ x ∈ rest, x ∈ entries := fun x inside => h.remaining x (List.mem_cons_of_mem _ inside)
      unfold Quickchr.evictWhere
      split
      · exact ih ⟨h.sound.evict member _, later⟩
      · have rest := ih ⟨h.sound, later⟩
        refine ⟨rest.sound, fun x inside => ?_⟩
        rcases List.mem_cons.mp inside with rfl | inside
        · exact member
        · exact rest.remaining x inside

theorem Phase.evictOverCap (cap : ℕ) {pass : PrunePass} {total : ℕ} {todo : List CacheEntry}
    (h : Phase rm dryRun entries (pass, todo)) :
    Phase rm dryRun entries (evictOverCap rm dryRun cap pass total todo) := by
  induction todo generalizing pass total with
  | nil => exact h
  | cons e rest ih =>
      unfold Quickchr.evictOverCap
      split
      · exact ih ⟨h.sound.evict (h.remaining e List.mem_cons_self) _,
          fun x inside => h.remaining x (List.mem_cons_of_mem _ inside)⟩
      · exact h

theorem Phase.evictForSpace (target : ℤ) {pass : PrunePass} {todo : List CacheEntry}
    (h : Phase rm dryRun entries (pass, todo)) :
    Phase rm dryRun entries (evictForSpace rm dryRun target pass todo) := by
  induction todo generalizing pass with
  | nil => exact h
  | cons e rest ih =>
      unfold Quickchr.evictForSpace
      split
      · exact ih ⟨h.sound.evict (h.remaining e List.mem_cons_self) _,
          fun x inside => h.remaining x (List.mem_cons_of_mem _ inside)⟩
      · exact h

variable {out : PrunePass × List CacheEntry} (h : Phase rm dryRun entries out)
include h

theorem Phase.evictOlder (opts : PruneOptions) :
    Phase rm dryRun entries (evictOlder rm dryRun opts out.1 out.2) := by
  unfold Quickchr.evictOlder
  split
  · exact h.evictWhere _
  · exact h

theorem Phase.evictAged (opts : PruneOptions) (now : ℕ) :
    Phase rm dryRun entries (evictAged rm dryRun opts now out.1 out.2) := by
  unfold Quickchr.evictAged
  split
  · exact h.evictWhere _
  · exact h

theorem Phase.evictToCap (opts : PruneOptions) (protectedBytes : ℕ) :
    Phase rm dryRun entries (evictToCap rm dryRun opts protectedBytes out.1 out.2) := by
  unfold Quickchr.evictToCap
  split
  · exact h.evictOverCap _
  · exact h

theorem Phase.evictToReclaim (opts : PruneOptions) :
    Phase rm dryRun entries (evictToReclaim rm dryRun opts out.1 out.2) := by
  unfold Quickchr.evictToReclaim
  split
  · exact h.evictForSpace _
  · exact h

end Sound

def pruneCandidates (view : CacheView) (opts : PruneOptions) (pins : List String) : List CacheEntry :=
  (cacheInventory view pins).entries.filter fun e => (protection opts view.now e).isNone

theorem protection_inUse {opts : PruneOptions} {now : ℕ} {e : CacheEntry}
    (h : (protection opts now e).isNone = true) : e.inUse = false := by
  unfold protection at h
  split at h
  · cases h
  · rename_i free
    exact Bool.eq_false_iff.mpr free

theorem prune_sound (rm : String → Option String) (view : CacheView) (opts : PruneOptions)
    (pins : List String) :
    PrunePass.Sound rm opts.dryRun (pruneCandidates view opts pins)
      { evicted := (pruneCacheUnderLock rm view opts pins).evicted
        attempted := (pruneCacheUnderLock rm view opts pins).attempted } := by
  have start (reasons : Record PruneReason) :
      Phase rm opts.dryRun (pruneCandidates view opts pins) ({ reasons := reasons },
        (pruneCandidates view opts pins).insertionSort fun a b => ¬ Before b a) := by
    refine ⟨⟨?_, ?_, ?_, fun _ => rfl⟩, fun e member => (List.mem_insertionSort _).mp member⟩
    · intro x member
      cases member
    · intro e member
      cases member
    · intro _ e member
      cases member
  have older := (start (Record.assign [] ((cacheInventory view pins).entries.filterMap fun e =>
    (protection opts view.now e).map fun reason => (e.basename, reason)))).evictOlder opts
  have capped := (older.evictAged opts view.now).evictToCap opts (totalSize
    ((cacheInventory view pins).entries.filter fun e => (protection opts view.now e).isSome))
  have done := capped.evictToReclaim opts
  exact ⟨done.sound.attempted, done.sound.evicted, done.sound.gone, done.sound.dry⟩

/-- Every path a prune deletes belongs to an entry that was not in use. -/
theorem prune_attempted {rm : String → Option String} {view : CacheView} {opts : PruneOptions}
    {pins : List String} {x : String} (h : x ∈ (pruneCacheUnderLock rm view opts pins).attempted) :
    ∃ e ∈ (cacheInventory view pins).entries, e.inUse = false ∧ x ∈ e.paths := by
  obtain ⟨e, member, path⟩ := (prune_sound rm view opts pins).attempted x h
  obtain ⟨entry, free⟩ := List.mem_filter.mp member
  exact ⟨e, entry, protection_inUse free, path⟩

theorem addPackages_cases {groups : List CacheEntry} {used : List String} {file : CacheFile}
    {packages : PackagesName} {e : CacheEntry} (h : e ∈ addPackages groups used file packages) :
    e ∈ groups ∨
      (∃ g ∈ groups, g.basename = packages.key ∧ e.basename = packages.key ∧ e.inUse = g.inUse ∧
        e.paths = g.paths ++ [file.name]) ∨
      (e.basename = packages.key ∧ e.inUse = used.contains packages.key ∧ e.paths = [file.name]) := by
  unfold addPackages at h
  split at h
  · obtain ⟨g, member, rfl⟩ := List.mem_map.mp h
    split
    · rename_i same
      exact .inr (.inl ⟨g, member, same, same, rfl, rfl⟩)
    · exact .inl member
  · rcases List.mem_append.mp h with before | added
    · exact .inl before
    · rw [List.mem_singleton] at added
      subst added
      exact .inr (.inr ⟨rfl, rfl, rfl⟩)

/-- An entry of its own is a download in progress, or a file in use by its own name. -/
theorem singleEntry_cases {view : CacheView} {used : List String} {file : CacheFile} {e : CacheEntry}
    (h : singleEntry view used file = some e) :
    e.paths = [file.name] ∧
      ((∃ part, matchPart file.name = some part ∧ isManagedDownloadTarget part.1 = true) ∨
        isExtraction file = true ∨
        (e.inUse = used.contains file.name ∧ (parseCacheBasename file.name).1 ≠ "unknown" ∧
          (endsWith file.name ".img.zip" = true ∨ endsWith file.name ".img" = true) ∧
          file.type = .file)) := by
  unfold singleEntry at h
  dsimp only at h
  split at h
  · rename_i download
    cases h
    refine ⟨rfl, ?_⟩
    rcases Bool.or_eq_true_iff.mp download with managed | extraction
    · obtain ⟨part, found⟩ := Option.isSome_iff_exists.mp managed
      obtain ⟨found, managed⟩ := Option.filter_eq_some_iff.mp found
      exact .inl ⟨part, found, managed⟩
    · exact .inr (.inl extraction)
  · split at h
    · cases h
    · rename_i kind isKind
      split at h
      · cases h
      · rename_i known
        cases h
        refine ⟨rfl, .inr (.inr ⟨rfl, known, ?_⟩)⟩
        split at isKind
        · cases isKind
        · rename_i type
          refine ⟨?_, not_not.mp type⟩
          split at isKind
          · rename_i zip
            exact .inl zip
          · split at isKind
            · rename_i image
              exact .inr image
            · cases isKind

/-- What holds of the entries while the listing is read. -/
structure Inventoried (view : CacheView) (used : List String)
    (acc : CacheInventory × List CacheEntry) : Prop where
  single : ∀ e ∈ acc.1.entries, ∃ f ∈ view.listing,
    packageArtifact f = none ∧ singleEntry view used f = some e
  grouped : ∀ e ∈ acc.2, e.inUse = used.contains e.basename ∧ e.paths ≠ [] ∧
    ∀ x ∈ e.paths, ∃ f ∈ view.listing, f.name = x ∧
      ∃ packages, packageArtifact f = some packages ∧ packages.key = e.basename

theorem Inventoried.addFile {view : CacheView} {used : List String}
    {acc : CacheInventory × List CacheEntry} (h : Inventoried view used acc) {file : CacheFile}
    (listed : file ∈ view.listing) : Inventoried view used (addFile view used acc file) := by
  unfold Quickchr.addFile
  split
  · rename_i packages artifact
    refine ⟨h.single, fun e member => ?_⟩
    have own : ∃ f ∈ view.listing, f.name = file.name ∧
        ∃ p, packageArtifact f = some p ∧ p.key = packages.key :=
      ⟨file, listed, rfl, packages, artifact, rfl⟩
    rcases addPackages_cases member with old | ⟨g, old, key, name, inUse, paths⟩ | ⟨name, inUse, paths⟩
    · exact h.grouped e old
    · obtain ⟨groupInUse, -, groupPaths⟩ := h.grouped g old
      rw [key] at groupInUse groupPaths
      rw [name, inUse, paths]
      refine ⟨groupInUse, List.append_ne_nil_of_right_ne_nil _ (List.cons_ne_nil _ _), fun x path => ?_⟩
      rcases List.mem_append.mp path with before | last
      · exact groupPaths x before
      · rw [List.mem_singleton.mp last]
        exact own
    · rw [name, inUse, paths]
      refine ⟨rfl, List.cons_ne_nil _ _, fun x path => ?_⟩
      rw [List.mem_singleton.mp path]
      exact own
  · rename_i noArtifact
    split
    · rename_i entry single
      refine ⟨fun e member => ?_, h.grouped⟩
      rcases List.mem_append.mp member with old | added
      · exact h.single e old
      · rw [List.mem_singleton.mp added]
        exact ⟨file, listed, noArtifact, single⟩
    · exact ⟨h.single, h.grouped⟩

theorem inventoried (view : CacheView) (used : List String) :
    Inventoried view used (view.listing.foldl (addFile view used) (⟨[], 0⟩, [])) := by
  have run (files : List CacheFile) (listed : ∀ f ∈ files, f ∈ view.listing)
      (acc : CacheInventory × List CacheEntry) (h : Inventoried view used acc) :
      Inventoried view used (files.foldl (addFile view used) acc) := by
    induction files generalizing acc with
    | nil => exact h
    | cons f rest ih =>
        exact ih (fun x inside => listed x (List.mem_cons_of_mem _ inside)) _
          (h.addFile (listed f List.mem_cons_self))
  refine run _ (fun f member => member) _ ⟨?_, ?_⟩
  · intro e member
    cases member
  · intro e member
    cases member

/-- An entry is one file by itself, or the group of its package artifacts. -/
theorem mem_inventory {view : CacheView} {pins : List String} {e : CacheEntry}
    (h : e ∈ (cacheInventory view pins).entries) :
    (∃ f ∈ view.listing, packageArtifact f = none ∧
        singleEntry view (inUseSet view.machines ++ pins) f = some e) ∨
      (e.inUse = (inUseSet view.machines ++ pins).contains e.basename ∧ e.paths ≠ [] ∧
        ∀ x ∈ e.paths, ∃ f ∈ view.listing, f.name = x ∧
          ∃ packages, packageArtifact f = some packages ∧ packages.key = e.basename) := by
  have facts := inventoried view (inUseSet view.machines ++ pins)
  rcases List.mem_append.mp h with single | grouped
  · exact .inl (facts.single e single)
  · exact .inr (facts.grouped e grouped)

theorem entry_paths {view : CacheView} {pins : List String} {e : CacheEntry}
    (h : e ∈ (cacheInventory view pins).entries) :
    e.paths ≠ [] ∧ ∀ x ∈ e.paths, ∃ f ∈ view.listing, f.name = x := by
  rcases mem_inventory h with ⟨f, listed, -, single⟩ | ⟨-, nonempty, paths⟩
  · rw [(singleEntry_cases single).1]
    exact ⟨List.cons_ne_nil _ _, fun x path => ⟨f, listed, (List.mem_singleton.mp path).symm⟩⟩
  · refine ⟨nonempty, fun x path => ?_⟩
    obtain ⟨f, listed, name, -⟩ := paths x path
    exact ⟨f, listed, name⟩

/-- An entry with a path of an input that a machine needs or an operation has pinned is in use. -/
theorem needed_inUse {view : CacheView} {pins : List String} {input : CacheInput}
    (needed : input.pin ∈ inUseSet view.machines ++ pins) {e : CacheEntry}
    (entry : e ∈ (cacheInventory view pins).entries) {x : String} (own : x ∈ e.paths)
    (path : x ∈ input.paths) : e.inUse = true := by
  rcases mem_inventory entry with ⟨f, -, -, single⟩ | ⟨inUse, -, paths⟩
  · obtain ⟨paths, kind⟩ := singleEntry_cases single
    rw [paths, List.mem_singleton] at own
    subst own
    obtain ⟨noPart, noExtraction⟩ := CacheInput.no_download path
    rcases kind with part | extraction | ⟨inUse, known, image, -⟩
    · exact absurd part noPart
    · rw [noExtraction] at extraction
      cases extraction
    · rw [inUse, CacheInput.single path known image]
      exact List.contains_iff_mem.mpr needed
  · obtain ⟨f, -, rfl, packages, artifact, key⟩ := paths x own
    rw [inUse, ← key, CacheInput.artifact path artifact]
    exact List.contains_iff_mem.mpr needed

/-- An entry is in use when its name is needed or pinned, but for an interrupted download. -/
theorem named_inUse {view : CacheView} {pins : List String} {e : CacheEntry}
    (entry : e ∈ (cacheInventory view pins).entries)
    (named : e.basename ∈ inUseSet view.machines ++ pins) : e.inUse = true ∨ e.kind = .download := by
  rcases mem_inventory entry with ⟨f, -, -, single⟩ | ⟨inUse, -⟩
  · unfold singleEntry at single
    dsimp only at single
    split at single
    · cases single
      exact .inr rfl
    · split at single
      · cases single
      · split at single
        · cases single
        · cases single
          exact .inl (List.contains_iff_mem.mpr named)
  · exact .inl (inUse.trans (List.contains_iff_mem.mpr named))

theorem prune_spares {rm : String → Option String} {view : CacheView} {opts : PruneOptions}
    {pins : List String} {input : CacheInput} (needed : input.pin ∈ inUseSet view.machines ++ pins)
    {x : String} (path : x ∈ input.paths) :
    x ∉ (pruneCacheUnderLock rm view opts pins).attempted := by
  intro attempted
  obtain ⟨e, entry, free, own⟩ := prune_attempted attempted
  rw [needed_inUse needed entry own path] at free
  cases free

end Quickchr
