import Quickchr.CachePolicy
import Mathlib.Logic.Relation

/-!
# Storage admission

What an operation is about to write is checked against the free space of each filesystem, less
what other operations have reserved there; cache entries go first when it does not fit. Free
space, the cache directory and what its deletes answer and free are parameters.
-/
namespace Quickchr

/-- Bytes an operation in flight will write to one filesystem. -/
structure StorageReservation where
  dev : ℕ
  bytes : ℕ
  deriving DecidableEq, Repr

structure LeaseRecord where
  pid : ℕ
  action : String
  pins : List String
  reservations : List StorageReservation
  deriving DecidableEq, Repr

/-- One stage of an operation's writes. -/
structure StoragePart where
  label : String
  bytes : ℕ
  path : String
  /-- Reserved in the lease unless `false`. -/
  hold : Option Bool := none
  deriving DecidableEq, Repr

structure StorageNeed where
  parts : List StoragePart := []
  protectVersions : List String := []
  pins : List String := []
  /-- Where reclamation evicts from; the data directory's cache by default. -/
  cacheDir : Option String := none
  deriving DecidableEq, Repr

/-- `filesystemOf`: the filesystem of a path and its nearest existing ancestor, which lies on it. -/
structure StorageProbe where
  dev : String → ℕ
  statPath : String → String
  dev_statPath : ∀ path, dev (statPath path) = dev path

structure FilesystemGroup where
  dev : ℕ
  statPath : String
  parts : List StoragePart
  bytes : ℕ
  deriving DecidableEq, Repr

def addPart (probe : StorageProbe) (part : StoragePart) : List FilesystemGroup → List FilesystemGroup
  | [] =>
      [{ dev := probe.dev part.path
         statPath := probe.statPath part.path
         parts := if part.label.isEmpty then [] else [part]
         bytes := part.bytes }]
  | group :: groups =>
      if group.dev = probe.dev part.path then
        { group with
          parts := if part.label.isEmpty then group.parts else group.parts ++ [part]
          bytes := group.bytes + part.bytes } :: groups
      else group :: addPart probe part groups

/-- Without a part the data directory's own filesystem is checked. -/
def groupByFilesystem (probe : StorageProbe) (dataDir : String) (parts : List StoragePart) :
    List FilesystemGroup :=
  (if parts.isEmpty then [{ label := "", bytes := 0, path := dataDir }] else parts).foldl
    (fun groups part => addPart probe part groups) []

def reservedOn (dev : ℕ) (reservations : List StorageReservation) : ℕ :=
  ((reservations.filter fun r => r.dev = dev).map StorageReservation.bytes).sum

def reservedByOthers (leases : List LeaseRecord) (dev : ℕ) : ℕ :=
  reservedOn dev (leases.flatMap LeaseRecord.reservations)

/-- The names that the live leases and the operation itself pin. -/
def StorageNeed.allPins (need : StorageNeed) (leases : List LeaseRecord) : List String :=
  leases.flatMap LeaseRecord.pins ++ need.pins

/-- What reclaiming for the operation leaves alone. -/
def StorageNeed.policy (need : StorageNeed) : PruneOptions :=
  { protectVersions := need.protectVersions, skipRecentMs := some RECENT_USE_MS }

structure Site where
  dataDir : String
  cacheDir : String
  probe : StorageProbe

/-- What an admission asks of the machine it runs on. The answers may be any; only the deletes of
a prune change what the cache directory lists. -/
structure FileSystems (σ : Type) where
  /-- `storageProbe.freeBytes` -/
  freeBytes : σ → String → ℕ × σ
  view : σ → CacheView
  rm : σ → String → Option String
  afterDeletes : σ → List String → σ
  listing_freeBytes : ∀ s path, (view (freeBytes s path).2).listing = (view s).listing
  listing_afterDeletes : ∀ s attempted, (view (afterDeletes s attempted)).listing =
    (view s).listing.filter fun f => !(f.name ∈ attempted && (rm s f.name).isNone)

inductive Asked
  | measured (statPath : String) (bytes : ℕ)
  | pruned (view : CacheView) (pass : PruneResult)

def Asked.evicted : Asked → List CacheEntry
  | .measured _ _ => []
  | .pruned _ pass => pass.evicted

/-- An admission under way: the machine, and what was asked of it, the latest first. -/
structure Admitting (σ : Type) where
  world : σ
  asked : List Asked := []

namespace FileSystems

variable {σ : Type} (fs : FileSystems σ)

/-- `storageProbe.freeBytes` of the group's path, less what others have reserved. -/
def measure (now : Admitting σ) (statPath : String) (reservedByOthers : ℕ) : ℤ × Admitting σ :=
  let answer := fs.freeBytes now.world statPath
  (answer.1 - reservedByOthers, ⟨answer.2, .measured statPath answer.1 :: now.asked⟩)

def prune (now : Admitting σ) (opts : PruneOptions) (pins : List String) :
    PruneResult × Admitting σ :=
  let pass := pruneCacheUnderLock (fs.rm now.world) (fs.view now.world) opts pins
  (pass, ⟨fs.afterDeletes now.world pass.attempted, .pruned (fs.view now.world) pass :: now.asked⟩)

end FileSystems

structure Reclaimed where
  evicted : List CacheEntry
  failed : List (CacheEntry × String)
  kept : PruneResult
  wouldNotCover : Bool

/-- The facts of an `INSUFFICIENT_DISK_SPACE` error. -/
structure InsufficientSpace where
  action : String
  group : FilesystemGroup
  free : ℤ
  required : ℤ
  reserveBytes : ℕ
  reservedByOthers : ℕ
  reclaimed : Option Reclaimed

namespace FileSystems

variable {σ : Type} (fs : FileSystems σ)

section Reclaim

variable (policy : PruneOptions) (pins : List String)

/-- The passes of a reclamation. Each one that evicts makes the listing shorter, so that as many
passes as the listing has names and one more are enough. -/
def reclaimLoop (statPath : String) (reservedByOthers : ℕ) (required : ℤ) :
    ℕ → Admitting σ → ℤ → Reclaimed → Admitting σ × ℤ × Reclaimed
  | 0, now, free, done => (now, free, done)
  | passes + 1, now, free, done =>
      if free < required then
        let (pass, now) := fs.prune now
          { policy with
            reclaimBytes := some (required - free)
            skipEntries := done.failed.map fun f => f.1.basename }
          pins
        let done := { done with
          evicted := done.evicted ++ pass.evicted
          failed := done.failed ++ pass.failed
          kept := pass }
        let (free, now) := fs.measure now statPath reservedByOthers
        if pass.evicted.isEmpty then (now, free, done)
        else reclaimLoop statPath reservedByOthers required passes now free done
      else (now, free, done)

/-- Nothing is evicted when all that could go would not be enough. -/
def reclaimFor (now : Admitting σ) (free : ℤ) (statPath : String) (reservedByOthers : ℕ)
    (required : ℤ) : Admitting σ × ℤ × Reclaimed :=
  let dry := pruneCacheUnderLock (fs.rm now.world) (fs.view now.world)
    { policy with reclaimBytes := some (required - free), dryRun := true } pins
  let done : Reclaimed := ⟨[], [], dry, decide (dry.freedBytes < required - free)⟩
  if done.wouldNotCover then (now, free, done)
  else fs.reclaimLoop policy pins statPath reservedByOthers required
    ((fs.view now.world).listing.length + 1) now free done

end Reclaim

variable (site : Site) (action : String) (need : StorageNeed) (reclaim : Bool) (reserveBytes : ℕ)
  (leases : List LeaseRecord)

/-- One filesystem of `admitStorage`. -/
def admitGroup (now : Admitting σ) (group : FilesystemGroup) :
    Admitting σ × Option InsufficientSpace :=
  let pins := need.allPins leases
  let cacheDir := need.cacheDir.getD site.cacheDir
  let reservedByOthers := reservedByOthers leases group.dev
  let required : ℤ := group.bytes + reserveBytes
  let (free, now) := fs.measure now group.statPath reservedByOthers
  if required ≤ free then (now, none)
  else if reclaim && site.probe.dev cacheDir = group.dev then
    let (now, free, done) :=
      fs.reclaimFor need.policy pins now free group.statPath reservedByOthers required
    if required ≤ free then (now, none)
    else (now, some ⟨action, group, free, required, reserveBytes, reservedByOthers, some done⟩)
  else (now, some ⟨action, group, free, required, reserveBytes, reservedByOthers, none⟩)

/-- The filesystems one after another, until one has no room. -/
def admitGroups : Admitting σ → List FilesystemGroup → Admitting σ × Option InsufficientSpace
  | now, [] => (now, none)
  | now, group :: groups =>
      match fs.admitGroup site action need reclaim reserveBytes leases now group with
      | (now, none) => admitGroups now groups
      | refused => refused

end FileSystems

def StorageNeed.reservations (need : StorageNeed) (site : Site) : List StorageReservation :=
  ((groupByFilesystem site.probe site.dataDir
      (need.parts.filter fun part => part.hold ≠ some false)).filter fun group => 0 < group.bytes).map
    fun group => ⟨group.dev, group.bytes⟩

/-- `leases` are the live ones. Returns the lease that is recorded, if any. -/
def FileSystems.admitStorage {σ : Type} (fs : FileSystems σ) (site : Site) (pid : ℕ)
    (action : String) (need : StorageNeed) (reclaim : Bool) (reserveBytes : ℕ)
    (leases : List LeaseRecord) (now : Admitting σ) :
    Admitting σ × Except InsufficientSpace (Option LeaseRecord) :=
  let groups := groupByFilesystem site.probe site.dataDir need.parts
  match fs.admitGroups site action need reclaim reserveBytes leases now groups with
  | (now, some refused) => (now, .error refused)
  | (now, none) =>
      let reservations := need.reservations site
      if reservations.isEmpty && need.pins.isEmpty then (now, .ok none)
      else (now, .ok (some ⟨pid, action, need.pins, reservations⟩))

/-- What an admission works with and does not change. -/
structure Surroundings extends Site where
  machines : Option (List MachineNeeds)
  now : ℕ
  pidAlive : ℕ → Bool
  /-- What `rmSync` of a cache path answers. -/
  rm : String → Option String
  /-- The bytes that deleting a cache path frees on a filesystem. -/
  freed : String → ℕ → ℕ

/-- What an admission may change: the cache directory and the free bytes by filesystem. -/
structure Storage where
  listing : List CacheFile
  free : ℕ → ℕ

namespace Surroundings

variable (around : Surroundings)

def view (storage : Storage) : CacheView :=
  ⟨storage.listing, around.machines, around.now, around.pidAlive⟩

def afterDeletes (storage : Storage) (attempted : List String) : Storage where
  listing := storage.listing.filter fun f => !(f.name ∈ attempted && (around.rm f.name).isNone)
  free dev := storage.free dev + (attempted.map fun path => around.freed path dev).sum

/-- Free space is what it was and what the deletes have freed. -/
def fileSystems : FileSystems Storage where
  freeBytes storage statPath := (storage.free (around.probe.dev statPath), storage)
  view := around.view
  rm _ := around.rm
  afterDeletes := around.afterDeletes
  listing_freeBytes _ _ := rfl
  listing_afterDeletes _ _ := rfl

end Surroundings

def admitStorage (around : Surroundings) (pid : ℕ) (action : String) (need : StorageNeed)
    (reclaim : Bool) (reserveBytes : ℕ) (leases : List LeaseRecord) (storage : Storage) :
    Storage × Except InsufficientSpace (Option LeaseRecord) :=
  let done := around.fileSystems.admitStorage around.toSite pid action need reclaim reserveBytes
    leases ⟨storage, []⟩
  (done.1.world, done.2)

def bytesOn (dev : ℕ) (groups : List FilesystemGroup) : ℕ :=
  ((groups.filter fun g => g.dev = dev).map FilesystemGroup.bytes).sum

def partsOn (probe : StorageProbe) (dev : ℕ) (parts : List StoragePart) : ℕ :=
  ((parts.filter fun part => probe.dev part.path = dev).map StoragePart.bytes).sum

/-- A filesystem has one group, and its path lies there. -/
structure Grouped (probe : StorageProbe) (groups : List FilesystemGroup) : Prop where
  nodup : (groups.map FilesystemGroup.dev).Nodup
  statPath : ∀ g ∈ groups, probe.dev g.statPath = g.dev

theorem bytesOn_cons (dev : ℕ) (g : FilesystemGroup) (groups : List FilesystemGroup) :
    bytesOn dev (g :: groups) = (if g.dev = dev then g.bytes else 0) + bytesOn dev groups := by
  unfold bytesOn
  by_cases same : g.dev = dev
  · simp [same]
  · simp [same]

theorem partsOn_cons (probe : StorageProbe) (dev : ℕ) (part : StoragePart) (parts : List StoragePart) :
    partsOn probe dev (part :: parts) =
      (if probe.dev part.path = dev then part.bytes else 0) + partsOn probe dev parts := by
  unfold partsOn
  by_cases same : probe.dev part.path = dev
  · simp [same]
  · simp [same]

theorem mem_addPart_dev {probe : StorageProbe} {part : StoragePart} {groups : List FilesystemGroup}
    {dev : ℕ} : dev ∈ (addPart probe part groups).map FilesystemGroup.dev ↔
      dev = probe.dev part.path ∨ dev ∈ groups.map FilesystemGroup.dev := by
  induction groups with
  | nil => simp [addPart]
  | cons g groups ih =>
      unfold addPart
      split
      · rename_i same
        rw [List.map_cons, List.map_cons, List.mem_cons, same]
        tauto
      · rw [List.map_cons, List.map_cons, List.mem_cons, ih, List.mem_cons]
        tauto

theorem mem_foldl_dev {probe : StorageProbe} {dev : ℕ} (parts : List StoragePart)
    (groups : List FilesystemGroup) :
    dev ∈ (parts.foldl (fun groups part => addPart probe part groups) groups).map
        FilesystemGroup.dev ↔
      (∃ part ∈ parts, dev = probe.dev part.path) ∨ dev ∈ groups.map FilesystemGroup.dev := by
  induction parts generalizing groups with
  | nil => simp
  | cons part parts ih =>
      rw [List.foldl_cons, ih, mem_addPart_dev, List.exists_mem_cons_iff, or_assoc]
      exact or_left_comm

theorem Grouped.addPart {probe : StorageProbe} {groups : List FilesystemGroup}
    (h : Grouped probe groups) (part : StoragePart) : Grouped probe (addPart probe part groups) := by
  induction groups with
  | nil =>
      refine ⟨List.nodup_singleton _, fun g member => ?_⟩
      rw [List.mem_singleton.mp member]
      exact probe.dev_statPath part.path
  | cons g groups ih =>
      obtain ⟨fresh, nodup⟩ := List.nodup_cons.mp h.nodup
      have own := h.statPath g List.mem_cons_self
      have later : ∀ x ∈ groups, probe.dev x.statPath = x.dev :=
        fun x member => h.statPath x (List.mem_cons_of_mem _ member)
      unfold Quickchr.addPart
      split
      · refine ⟨h.nodup, fun x member => ?_⟩
        rcases List.mem_cons.mp member with rfl | member
        · exact own
        · exact later x member
      · rename_i other
        have rest := ih ⟨nodup, later⟩
        refine ⟨List.nodup_cons.mpr ⟨fun member => ?_, rest.nodup⟩, fun x member => ?_⟩
        · rcases mem_addPart_dev.mp member with same | old
          · exact other same
          · exact fresh old
        · rcases List.mem_cons.mp member with rfl | member
          · exact own
          · exact rest.statPath x member

theorem bytesOn_addPart (probe : StorageProbe) (part : StoragePart) (groups : List FilesystemGroup)
    (dev : ℕ) : bytesOn dev (addPart probe part groups) =
      bytesOn dev groups + if probe.dev part.path = dev then part.bytes else 0 := by
  induction groups with
  | nil =>
      rw [addPart, bytesOn_cons]
      exact Nat.add_comm _ _
  | cons g groups ih =>
      unfold addPart
      split
      · rename_i same
        rw [bytesOn_cons, bytesOn_cons, same]
        dsimp only
        split <;> omega
      · rw [bytesOn_cons, bytesOn_cons, ih]
        omega

theorem grouped_foldl {probe : StorageProbe} (parts : List StoragePart)
    {groups : List FilesystemGroup} (h : Grouped probe groups) (dev : ℕ) :
    Grouped probe (parts.foldl (fun groups part => addPart probe part groups) groups) ∧
      bytesOn dev (parts.foldl (fun groups part => addPart probe part groups) groups) =
        bytesOn dev groups + partsOn probe dev parts := by
  induction parts generalizing groups with
  | nil => exact ⟨h, rfl⟩
  | cons part parts ih =>
      obtain ⟨grouped, bytes⟩ := ih (h.addPart part)
      refine ⟨grouped, ?_⟩
      rw [List.foldl_cons, bytes, bytesOn_addPart, partsOn_cons]
      omega

/-- The groups of an operation's parts charge each filesystem what its parts will write there. -/
theorem groupByFilesystem_spec (probe : StorageProbe) (dataDir : String) (parts : List StoragePart)
    (dev : ℕ) : Grouped probe (groupByFilesystem probe dataDir parts) ∧
      bytesOn dev (groupByFilesystem probe dataDir parts) = partsOn probe dev parts := by
  have start : Grouped probe [] := ⟨List.nodup_nil, fun g member => by cases member⟩
  unfold groupByFilesystem
  cases parts with
  | nil =>
      obtain ⟨grouped, bytes⟩ := grouped_foldl [⟨"", 0, dataDir, none⟩] start dev
      refine ⟨grouped, bytes.trans ?_⟩
      rw [partsOn_cons]
      split <;> rfl
  | cons part parts =>
      obtain ⟨grouped, bytes⟩ := grouped_foldl (part :: parts) start dev
      exact ⟨grouped, bytes.trans (Nat.zero_add _)⟩

theorem Grouped.bytes_eq {probe : StorageProbe} {groups : List FilesystemGroup}
    (h : Grouped probe groups) {g : FilesystemGroup} (member : g ∈ groups) :
    bytesOn g.dev groups = g.bytes := by
  induction groups with
  | nil => cases member
  | cons x groups ih =>
      obtain ⟨fresh, nodup⟩ := List.nodup_cons.mp h.nodup
      rw [bytesOn_cons]
      rcases List.mem_cons.mp member with rfl | later
      · have none : bytesOn g.dev groups = 0 := by
          unfold bytesOn
          rw [List.filter_eq_nil_iff.mpr fun y inside same =>
            fresh (List.mem_map.mpr ⟨y, inside, of_decide_eq_true same⟩)]
          rfl
        rw [if_pos rfl, none, Nat.add_zero]
      · have other : x.dev ≠ g.dev := fun same => fresh (List.mem_map.mpr ⟨g, later, same.symm⟩)
        rw [if_neg other, Nat.zero_add]
        exact ih ⟨nodup, fun y inside => h.statPath y (List.mem_cons_of_mem _ inside)⟩ later

theorem reservedOn_cons (dev : ℕ) (r : StorageReservation) (reservations : List StorageReservation) :
    reservedOn dev (r :: reservations) =
      (if r.dev = dev then r.bytes else 0) + reservedOn dev reservations := by
  unfold reservedOn
  by_cases same : r.dev = dev
  · simp [same]
  · simp [same]

theorem reservedOn_groups (dev : ℕ) (groups : List FilesystemGroup) :
    reservedOn dev ((groups.filter fun g => 0 < g.bytes).map fun g => ⟨g.dev, g.bytes⟩) =
      bytesOn dev groups := by
  induction groups with
  | nil => rfl
  | cons g groups ih =>
      rw [bytesOn_cons, ← ih]
      by_cases some : 0 < g.bytes
      · rw [List.filter_cons, if_pos (decide_eq_true some), List.map_cons, reservedOn_cons]
      · rw [List.filter_cons_of_neg (by simpa using some)]
        split <;> omega

theorem partsOn_filter_le (probe : StorageProbe) (dev : ℕ) (held : StoragePart → Bool)
    (parts : List StoragePart) : partsOn probe dev (parts.filter held) ≤ partsOn probe dev parts := by
  induction parts with
  | nil => exact le_rfl
  | cons part parts ih =>
      rw [partsOn_cons]
      by_cases keep : held part = true
      · rw [List.filter_cons_of_pos keep, partsOn_cons]
        omega
      · rw [List.filter_cons_of_neg keep]
        omega

theorem reservations_le (need : StorageNeed) (site : Site) (dev : ℕ) :
    reservedOn dev (need.reservations site) ≤ partsOn site.probe dev need.parts := by
  rw [StorageNeed.reservations, reservedOn_groups, (groupByFilesystem_spec _ _ _ dev).2]
  exact partsOn_filter_le site.probe dev _ need.parts

namespace FileSystems

variable {σ : Type} {fs : FileSystems σ}

/-- One question of the check of a filesystem: a measurement there, or a pass of the policy. -/
inductive Ask (fs : FileSystems σ) (policy : PruneOptions) (pins : List String) (statPath : String) :
    Admitting σ → Admitting σ → Prop
  | measure (now : Admitting σ) (reservedByOthers : ℕ) :
      Ask fs policy pins statPath now (fs.measure now statPath reservedByOthers).2
  | prune (now : Admitting σ) (reclaimBytes : Option ℤ) (skipEntries : List String) :
      Ask fs policy pins statPath now
        (fs.prune now { policy with reclaimBytes := reclaimBytes, skipEntries := skipEntries } pins).2

abbrev Asks (fs : FileSystems σ) (policy : PruneOptions) (pins : List String) (statPath : String) :
    Admitting σ → Admitting σ → Prop :=
  Relation.ReflTransGen (fs.Ask policy pins statPath)

theorem asks_keep {policy : PruneOptions} {pins : List String} {statPath : String}
    {P : Admitting σ → Prop}
    (step : ∀ now next, fs.Ask policy pins statPath now next → P now → P next)
    {now next : Admitting σ} (asks : fs.Asks policy pins statPath now next) (h : P now) : P next := by
  induction asks with
  | refl => exact h
  | tail _ ask ih => exact step _ _ ask ih

section Reclaim

variable {policy : PruneOptions} {pins : List String} {statPath : String} {reservedByOthers : ℕ}
  {required : ℤ}

theorem reclaimLoop_asks (passes : ℕ) (now : Admitting σ) (free : ℤ) (done : Reclaimed) :
    fs.Asks policy pins statPath now
      (fs.reclaimLoop policy pins statPath reservedByOthers required passes now free done).1 := by
  induction passes generalizing now free done with
  | zero => exact .refl
  | succ passes ih =>
      have ask : fs.Asks policy pins statPath now _ :=
        .tail (.single (.prune now (some (required - free)) (done.failed.map fun f => f.1.basename)))
          (.measure _ reservedByOthers)
      unfold reclaimLoop
      split
      · dsimp only
        split
        · exact ask
        · exact ask.trans (ih _ _ _)
      · exact .refl

theorem reclaimFor_asks (now : Admitting σ) (free : ℤ) : fs.Asks policy pins statPath now
    (fs.reclaimFor policy pins now free statPath reservedByOthers required).1 := by
  unfold reclaimFor
  dsimp only
  split
  · exact .refl
  · exact reclaimLoop_asks _ _ _ _

theorem reclaimLoop_enough {free : ℤ} (enough : required ≤ free) (passes : ℕ) (now : Admitting σ)
    (done : Reclaimed) :
    fs.reclaimLoop policy pins statPath reservedByOthers required passes now free done =
      (now, free, done) := by
  cases passes with
  | zero => rfl
  | succ passes =>
      unfold reclaimLoop
      exact if_neg (not_lt.mpr enough)

theorem reclaimLoop_once {passes : ℕ} {now : Admitting σ} {free : ℤ} {done : Reclaimed}
    (short : free < required) (fresh : done.failed = []) {pass : PruneResult × Admitting σ}
    {after : ℤ × Admitting σ}
    (ran : fs.prune now { policy with reclaimBytes := some (required - free), skipEntries := [] } pins =
      pass) (measured : fs.measure pass.2 statPath reservedByOthers = after)
    (evicts : pass.1.evicted ≠ []) (enough : required ≤ after.1) :
    ∃ done', fs.reclaimLoop policy pins statPath reservedByOthers required (passes + 1) now free done =
      (after.2, after.1, done') := by
  unfold reclaimLoop
  rw [if_pos short, fresh, List.map_nil, ran]
  dsimp only
  rw [measured, if_neg fun none => evicts (List.isEmpty_iff.mp none)]
  exact ⟨_, reclaimLoop_enough enough _ _ _⟩

section Plan

variable {now : Admitting σ} {free : ℤ} {dry : PruneResult}
  (planned : pruneCacheUnderLock (fs.rm now.world) (fs.view now.world)
    { policy with reclaimBytes := some (required - free), dryRun := true } pins = dry)
include planned

theorem reclaimFor_uncovered (little : dry.freedBytes < required - free) :
    ∃ done, fs.reclaimFor policy pins now free statPath reservedByOthers required =
      (now, free, done) := by
  unfold reclaimFor
  rw [planned]
  exact ⟨_, if_pos (decide_eq_true little)⟩

theorem reclaimFor_once (short : free < required) (covers : required - free ≤ dry.freedBytes)
    {pass : PruneResult × Admitting σ} {after : ℤ × Admitting σ}
    (ran : fs.prune now { policy with reclaimBytes := some (required - free), skipEntries := [] } pins =
      pass) (measured : fs.measure pass.2 statPath reservedByOthers = after)
    (evicts : pass.1.evicted ≠ []) (enough : required ≤ after.1) :
    ∃ done, fs.reclaimFor policy pins now free statPath reservedByOthers required =
      (after.2, after.1, done) := by
  unfold reclaimFor
  rw [planned]
  dsimp only
  rw [if_neg fun little => absurd (of_decide_eq_true little) (not_lt.mpr covers)]
  exact reclaimLoop_once short rfl ran measured evicts enough

end Plan

/-- The latest measurement of a filesystem. -/
def lastMeasured (probe : StorageProbe) (dev : ℕ) : List Asked → Option ℕ
  | [] => none
  | .measured statPath bytes :: asked =>
      if probe.dev statPath = dev then some bytes else lastMeasured probe dev asked
  | .pruned _ _ :: asked => lastMeasured probe dev asked

/-- The loop goes by the latest measurement. -/
def Measured (probe : StorageProbe) (statPath : String) (reservedByOthers : ℕ) (now : Admitting σ)
    (free : ℤ) : Prop :=
  ∃ bytes, lastMeasured probe (probe.dev statPath) now.asked = some bytes ∧
    free = bytes - reservedByOthers

theorem measure_measured (probe : StorageProbe) (now : Admitting σ) :
    Measured probe statPath reservedByOthers (fs.measure now statPath reservedByOthers).2
      (fs.measure now statPath reservedByOthers).1 :=
  ⟨(fs.freeBytes now.world statPath).1, if_pos rfl, rfl⟩

theorem reclaimLoop_measured (probe : StorageProbe) (passes : ℕ) {now : Admitting σ} {free : ℤ}
    (done : Reclaimed) (h : Measured probe statPath reservedByOthers now free) :
    Measured probe statPath reservedByOthers
      (fs.reclaimLoop policy pins statPath reservedByOthers required passes now free done).1
      (fs.reclaimLoop policy pins statPath reservedByOthers required passes now free done).2.1 := by
  induction passes generalizing now free done with
  | zero => exact h
  | succ passes ih =>
      unfold reclaimLoop
      split
      · dsimp only
        split
        · exact measure_measured probe _
        · exact ih _ (measure_measured probe _)
      · exact h

theorem reclaimFor_measured (probe : StorageProbe) {now : Admitting σ} {free : ℤ}
    (h : Measured probe statPath reservedByOthers now free) :
    Measured probe statPath reservedByOthers
      (fs.reclaimFor policy pins now free statPath reservedByOthers required).1
      (fs.reclaimFor policy pins now free statPath reservedByOthers required).2.1 := by
  unfold reclaimFor
  dsimp only
  split
  · exact h
  · exact reclaimLoop_measured probe _ _ h

theorem pass_shortens {now : Admitting σ} {opts : PruneOptions} (wet : opts.dryRun = false)
    (evicts : (fs.prune now opts pins).1.evicted ≠ []) :
    (fs.view (fs.prune now opts pins).2.world).listing.length <
      (fs.view now.world).listing.length := by
  have sound := prune_sound (fs.rm now.world) (fs.view now.world) opts pins
  obtain ⟨e, member⟩ := List.exists_mem_of_ne_nil _ evicts
  obtain ⟨nonempty, listed⟩ := entry_paths (List.mem_filter.mp (sound.evicted e member)).1
  obtain ⟨path, own⟩ := List.exists_mem_of_ne_nil _ nonempty
  obtain ⟨f, inside, rfl⟩ := listed path own
  obtain ⟨attempted, removed⟩ := sound.gone wet e member _ own
  dsimp only [prune]
  rw [fs.listing_afterDeletes]
  refine List.length_filter_lt_length_iff_exists.mpr ⟨f, inside, ?_⟩
  simp [attempted, removed]

/-- More passes than the listing has names change nothing: the loop ends by itself. -/
theorem reclaimLoop_passes (wet : policy.dryRun = false) {n m : ℕ} {now : Admitting σ} {free : ℤ}
    {done : Reclaimed} (enough : (fs.view now.world).listing.length < n)
    (more : (fs.view now.world).listing.length < m) :
    fs.reclaimLoop policy pins statPath reservedByOthers required n now free done =
      fs.reclaimLoop policy pins statPath reservedByOthers required m now free done := by
  induction n generalizing m now free done with
  | zero => exact absurd enough (Nat.not_lt_zero _)
  | succ n ih =>
      cases m with
      | zero => exact absurd more (Nat.not_lt_zero _)
      | succ m =>
          unfold reclaimLoop
          dsimp only
          split
          · split
            · rfl
            · rename_i evicts
              have shorter := @pass_shortens σ fs pins now { policy with
                reclaimBytes := some (required - free)
                skipEntries := done.failed.map fun f => f.1.basename } wet
                (fun none => evicts (List.isEmpty_iff.mpr none))
              have same := fs.listing_freeBytes (fs.prune now { policy with
                reclaimBytes := some (required - free)
                skipEntries := done.failed.map fun f => f.1.basename } pins).2.world statPath
              have length := congrArg List.length same
              exact ih (by dsimp only [measure]; omega) (by dsimp only [measure]; omega)
          · rfl

end Reclaim

section Admission

variable {site : Site} {action : String} {need : StorageNeed} {reclaim : Bool} {reserveBytes : ℕ}
  {leases : List LeaseRecord}

theorem admitGroup_asks (now : Admitting σ) (group : FilesystemGroup) :
    fs.Asks need.policy (need.allPins leases) group.statPath now
      (fs.admitGroup site action need reclaim reserveBytes leases now group).1 := by
  have first : fs.Asks need.policy (need.allPins leases) group.statPath now _ :=
    .single (.measure now (reservedByOthers leases group.dev))
  unfold admitGroup
  dsimp only
  split
  · exact first
  · split
    · split <;> exact first.trans (reclaimFor_asks _ _)
    · exact first

/-- A filesystem that is admitted had room, when it was measured last, for its parts and the reserve
beside what the live leases reserve there. -/
theorem admitGroup_room {now next : Admitting σ} {group : FilesystemGroup}
    (own : site.probe.dev group.statPath = group.dev)
    (h : fs.admitGroup site action need reclaim reserveBytes leases now group = (next, none)) :
    ∃ bytes, lastMeasured site.probe group.dev next.asked = some bytes ∧
      (group.bytes + reserveBytes : ℤ) ≤ bytes - reservedByOthers leases group.dev := by
  have room {now : Admitting σ} {free : ℤ}
      (measured : Measured site.probe group.statPath (reservedByOthers leases group.dev) now free)
      (fits : (group.bytes + reserveBytes : ℤ) ≤ free) :
      ∃ bytes, lastMeasured site.probe group.dev now.asked = some bytes ∧
        (group.bytes + reserveBytes : ℤ) ≤ bytes - reservedByOthers leases group.dev := by
    obtain ⟨bytes, last, rfl⟩ := measured
    exact ⟨bytes, own ▸ last, fits⟩
  have first := @measure_measured σ fs group.statPath (reservedByOthers leases group.dev) site.probe now
  unfold admitGroup at h
  dsimp only at h
  split at h
  · rename_i fits
    cases h
    exact room first fits
  · split at h
    · split at h
      · rename_i fits
        cases h
        exact room (reclaimFor_measured site.probe first) fits
      · cases h
    · cases h

theorem asks_lastMeasured {policy : PruneOptions} {pins : List String} {statPath : String}
    {probe : StorageProbe} {dev : ℕ} (other : probe.dev statPath ≠ dev) {now next : Admitting σ}
    (asks : fs.Asks policy pins statPath now next) :
    lastMeasured probe dev next.asked = lastMeasured probe dev now.asked := by
  refine asks_keep (P := fun next => lastMeasured probe dev next.asked =
    lastMeasured probe dev now.asked) (fun at' next' ask h => ?_) asks rfl
  cases ask with
  | measure => exact (if_neg other).trans h
  | prune => exact h

theorem admitGroups_lastMeasured {dev : ℕ} {groups : List FilesystemGroup}
    (other : ∀ g ∈ groups, site.probe.dev g.statPath ≠ dev) (now : Admitting σ) :
    lastMeasured site.probe dev
        (fs.admitGroups site action need reclaim reserveBytes leases now groups).1.asked =
      lastMeasured site.probe dev now.asked := by
  induction groups generalizing now with
  | nil => rfl
  | cons group groups ih =>
      have asks := @admitGroup_asks σ fs site action need reclaim reserveBytes leases now group
      have first := asks_lastMeasured (other group List.mem_cons_self) asks
      unfold admitGroups
      split
      · rename_i next admitted
        rw [admitted] at first
        exact (ih (fun g member => other g (List.mem_cons_of_mem _ member)) next).trans first
      · exact first

theorem admitGroups_room {groups : List FilesystemGroup} (grouped : Grouped site.probe groups)
    {now next : Admitting σ}
    (h : fs.admitGroups site action need reclaim reserveBytes leases now groups = (next, none))
    {g : FilesystemGroup} (member : g ∈ groups) :
    ∃ bytes, lastMeasured site.probe g.dev next.asked = some bytes ∧
      (g.bytes + reserveBytes : ℤ) ≤ bytes - reservedByOthers leases g.dev := by
  induction groups generalizing now with
  | nil => cases member
  | cons group groups ih =>
      obtain ⟨fresh, nodup⟩ := List.nodup_cons.mp grouped.nodup
      have own := grouped.statPath
      unfold admitGroups at h
      split at h
      · rename_i first admitted
        rcases List.mem_cons.mp member with rfl | later
        · obtain ⟨bytes, last, fits⟩ := admitGroup_room (own g List.mem_cons_self) admitted
          have others : ∀ x ∈ groups, site.probe.dev x.statPath ≠ g.dev := by
            intro x inside same
            rw [own x (List.mem_cons_of_mem _ inside)] at same
            exact fresh (same ▸ List.mem_map_of_mem inside)
          have kept := @admitGroups_lastMeasured σ fs site action need reclaim reserveBytes leases g.dev
            groups others first
          rw [h] at kept
          exact ⟨bytes, kept.trans last, fits⟩
        · exact ih ⟨nodup, fun x inside => own x (List.mem_cons_of_mem _ inside)⟩ h later
      · rename_i refused
        exact absurd h (refused next)

/-- What a reclaiming pass may take: nothing in use, protected or recently used, and nothing pinned but
interrupted downloads, which are in use while their writer lives. -/
structure Evictable (view : CacheView) (need : StorageNeed) (pins : List String) (e : CacheEntry) :
    Prop where
  notInUse : e.inUse = false
  notProtected : e.version ∉ need.protectVersions
  notRecent : RECENT_USE_MS ≤ ageMs view.now e.mtimeMs
  notPinned : e.basename ∈ pins → e.kind = .download
  notInput : ∀ input : CacheInput, input.pin ∈ pins → ∀ x ∈ input.paths, x ∉ e.paths

theorem prune_evictable {rm : String → Option String} {view : CacheView} {pins : List String}
    (reclaimBytes : Option ℤ) (skipEntries : List String) {e : CacheEntry}
    (member : e ∈
      (pruneCacheUnderLock rm view
        { need.policy with reclaimBytes := reclaimBytes, skipEntries := skipEntries } pins).evicted ++
      (pruneCacheUnderLock rm view
        { need.policy with reclaimBytes := reclaimBytes, skipEntries := skipEntries } pins).failed.map
          Prod.fst) : Evictable view need pins e := by
  have follows := prune_accounted rm view
    { need.policy with reclaimBytes := reclaimBytes, skipEntries := skipEntries } pins
  have free := follows.spared e member
  have entry : e ∈ (cacheInventory view pins).entries := by
    refine follows.once.mem_iff.mp ?_
    rcases List.mem_append.mp member with evicted | failed
    · exact List.mem_append_left _ (List.mem_append_left _ evicted)
    · exact List.mem_append_right _ failed
  refine ⟨free.notInUse, free.notProtected, not_lt.mp (free.notRecent RECENT_USE_MS rfl),
    fun pinned => ?_, fun input pinned x path own => ?_⟩
  · rcases named_inUse entry (List.mem_append_right _ pinned) with inUse | download
    · rw [free.notInUse] at inUse
      cases inUse
    · exact download
  · have inUse := needed_inUse (List.mem_append_right _ pinned) entry own path
    rw [free.notInUse] at inUse
    cases inUse

/-- The passes among what was asked spare what they have to. -/
def PassesSpare (need : StorageNeed) (pins : List String) (asked : List Asked) : Prop :=
  ∀ view pass, .pruned view pass ∈ asked →
    ∀ e ∈ pass.evicted ++ pass.failed.map Prod.fst, Evictable view need pins e

theorem ask_spares {pins : List String} {statPath : String} (now next : Admitting σ)
    (ask : fs.Ask need.policy pins statPath now next) (h : PassesSpare need pins now.asked) :
    PassesSpare need pins next.asked := by
  intro view pass member e inside
  cases ask with
  | measure =>
      rcases List.mem_cons.mp member with other | earlier
      · cases other
      · exact h view pass earlier e inside
  | prune reclaimBytes skipEntries =>
      rcases List.mem_cons.mp member with same | earlier
      · cases same
        exact prune_evictable reclaimBytes skipEntries inside
      · exact h view pass earlier e inside

theorem admitGroups_spare (groups : List FilesystemGroup) {now : Admitting σ}
    (h : PassesSpare need (need.allPins leases) now.asked) :
    PassesSpare need (need.allPins leases)
      (fs.admitGroups site action need reclaim reserveBytes leases now groups).1.asked := by
  induction groups generalizing now with
  | nil => exact h
  | cons group groups ih =>
      have asks := @admitGroup_asks σ fs site action need reclaim reserveBytes leases now group
      have first := asks_keep ask_spares asks h
      unfold admitGroups
      split
      · rename_i next admitted
        rw [admitted] at first
        exact ih first
      · exact first

theorem admitStorage_asked (pid : ℕ) (now : Admitting σ) :
    (fs.admitStorage site pid action need reclaim reserveBytes leases now).1 =
      (fs.admitGroups site action need reclaim reserveBytes leases now
        (groupByFilesystem site.probe site.dataDir need.parts)).1 := by
  unfold admitStorage
  dsimp only
  split
  · rename_i eq
    rw [eq]
  · rename_i eq
    rw [eq]
    split <;> rfl

theorem admitStorage_refused (pid : ℕ) (now : Admitting σ) :
    (∃ refused, (fs.admitStorage site pid action need reclaim reserveBytes leases now).2 =
        .error refused) ↔
      (fs.admitGroups site action need reclaim reserveBytes leases now
        (groupByFilesystem site.probe site.dataDir need.parts)).2.isSome = true := by
  unfold admitStorage
  dsimp only
  split
  · rename_i refused eq
    rw [eq]
    exact iff_of_true ⟨refused, rfl⟩ rfl
  · rename_i eq
    rw [eq]
    refine iff_of_false ?_ Bool.false_ne_true
    rintro ⟨refused, granted⟩
    split at granted <;> cases granted

theorem group_of_part {part : StoragePart} (member : part ∈ need.parts) :
    ∃ g ∈ groupByFilesystem site.probe site.dataDir need.parts,
      g.dev = site.probe.dev part.path := by
  refine List.mem_map.mp ?_
  unfold groupByFilesystem
  rw [if_neg fun empty => by rw [List.isEmpty_iff.mp empty] at member; cases member]
  exact (mem_foldl_dev need.parts []).mpr (.inl ⟨part, member, rfl⟩)

/-- Admitted with room: the last measurement of every filesystem an operation writes to. -/
theorem admitStorage_measured {pid : ℕ} {now done : Admitting σ} {lease : Option LeaseRecord}
    (h : fs.admitStorage site pid action need reclaim reserveBytes leases now = (done, .ok lease))
    {part : StoragePart} (member : part ∈ need.parts) :
    ∃ bytes, lastMeasured site.probe (site.probe.dev part.path) done.asked = some bytes ∧
      (partsOn site.probe (site.probe.dev part.path) need.parts + reserveBytes : ℤ) ≤
        bytes - reservedByOthers leases (site.probe.dev part.path) := by
  obtain ⟨g, inside, dev⟩ := @group_of_part site need part member
  obtain ⟨grouped, bytes⟩ :=
    groupByFilesystem_spec site.probe site.dataDir need.parts (site.probe.dev part.path)
  have single := grouped.bytes_eq inside
  unfold admitStorage at h
  dsimp only at h
  split at h
  · cases h
  · rename_i next admitted
    have same : next = done := by
      split at h <;> cases h <;> rfl
    subst same
    obtain ⟨measured, last, fits⟩ := admitGroups_room grouped admitted inside
    rw [dev] at single last fits
    rw [← bytes, single]
    exact ⟨measured, last, fits⟩

theorem admitStorage_lease {pid : ℕ} {now done : Admitting σ} {lease : Option LeaseRecord}
    (h : fs.admitStorage site pid action need reclaim reserveBytes leases now = (done, .ok lease)) :
    lease.elim [] LeaseRecord.reservations = need.reservations site ∧
      ∀ record, lease = some record → record.pid = pid := by
  unfold admitStorage at h
  dsimp only at h
  split at h
  · cases h
  · split at h
    · rename_i none
      cases h
      exact ⟨(List.isEmpty_iff.mp (Bool.and_eq_true_iff.mp none).1).symm, nofun⟩
    · cases h
      refine ⟨rfl, fun record same => ?_⟩
      cases same
      rfl

theorem reserved_held (need : StorageNeed) (site : Site) (dev : ℕ) :
    reservedOn dev (need.reservations site) =
      partsOn site.probe dev (need.parts.filter fun part => part.hold ≠ some false) := by
  rw [StorageNeed.reservations, reservedOn_groups, (groupByFilesystem_spec _ _ _ dev).2]

end Admission

/-- One filesystem, no machine, and a cache whose deletes succeed. -/
def plain : Surroundings where
  dataDir := "/data"
  cacheDir := "/data/cache"
  probe := ⟨fun _ => 1, id, fun _ => rfl⟩
  machines := none
  now := 2 * RECENT_USE_MS
  pidAlive _ := false
  rm _ := none
  freed _ _ := 10

/-- One file in the cache, and three bytes free beside it. -/
def caching (name : String) : Storage where
  listing := [⟨name, .file, 10, 0⟩]
  free _ := 3

/-- Five bytes are to be copied, while another operation pins the file of the cache. -/
def copying (name : String) (pins : List String) :
    Admitting Storage × Except InsufficientSpace (Option LeaseRecord) :=
  plain.fileSystems.admitStorage plain.toSite 8 "start" { parts := [⟨"copy", 5, "/data/machines", none⟩] }
    true 0 [⟨7, "download", pins, []⟩] ⟨caching name, []⟩

end FileSystems

section Surroundings

variable {around : Surroundings} {action : String} {need : StorageNeed} {reclaim : Bool}
  {reserveBytes : ℕ} {leases : List LeaseRecord}

/-- No question takes free space, and no measurement was above what is free. -/
structure Grown (around : Surroundings) (start : ℕ → ℕ) (now : Admitting Storage) : Prop where
  free : ∀ dev, start dev ≤ now.world.free dev
  measured : ∀ dev bytes, FileSystems.lastMeasured around.probe dev now.asked = some bytes →
    bytes ≤ now.world.free dev

theorem ask_grown {policy : PruneOptions} {pins : List String} {statPath : String}
    {start : ℕ → ℕ} (now next : Admitting Storage)
    (ask : around.fileSystems.Ask policy pins statPath now next) (h : Grown around start now) :
    Grown around start next := by
  cases ask with
  | measure =>
      refine ⟨h.free, fun dev bytes last => ?_⟩
      dsimp only [FileSystems.measure, FileSystems.lastMeasured] at last
      split at last
      · rename_i same
        rw [← Option.some.inj last, ← same]
        exact le_rfl
      · exact h.measured dev bytes last
  | prune =>
      exact ⟨fun dev => (h.free dev).trans (Nat.le_add_right _ _),
        fun dev bytes last => (h.measured dev bytes last).trans (Nat.le_add_right _ _)⟩

theorem admitGroups_grown {start : ℕ → ℕ} (groups : List FilesystemGroup)
    {now : Admitting Storage} (h : Grown around start now) :
    Grown around start (around.fileSystems.admitGroups around.toSite action need reclaim reserveBytes
      leases now groups).1 := by
  induction groups generalizing now with
  | nil => exact h
  | cons group groups ih =>
      have asks := @FileSystems.admitGroup_asks _ around.fileSystems around.toSite action need reclaim
        reserveBytes leases now group
      have first := FileSystems.asks_keep ask_grown asks h
      unfold FileSystems.admitGroups
      split
      · rename_i next admitted
        rw [admitted] at first
        exact ih first
      · exact first

/-- What an admission leaves: no less free space, and a lease only for what there is room. -/
theorem admitStorage_spec {pid : ℕ} {storage room : Storage}
    {outcome : Except InsufficientSpace (Option LeaseRecord)}
    (h : admitStorage around pid action need reclaim reserveBytes leases storage = (room, outcome)) :
    (∀ dev, storage.free dev ≤ room.free dev) ∧
      ∀ lease, outcome = .ok (some lease) → lease.pid = pid ∧ ∀ dev,
        reservedOn dev lease.reservations = 0 ∨
          (reservedOn dev lease.reservations + reserveBytes : ℤ) ≤
            room.free dev - reservedOn dev (leases.flatMap LeaseRecord.reservations) := by
  rcases ran : around.fileSystems.admitStorage around.toSite pid action need reclaim reserveBytes
    leases ⟨storage, []⟩ with ⟨done, result⟩
  obtain ⟨rfl, rfl⟩ : done.world = room ∧ result = outcome := by
    rw [admitStorage, ran] at h
    exact Prod.mk.inj h
  have grown : Grown around storage.free done := by
    have asked := @FileSystems.admitStorage_asked _ around.fileSystems around.toSite action need
      reclaim reserveBytes leases pid ⟨storage, []⟩
    rw [ran] at asked
    rw [show done = _ from asked]
    exact admitGroups_grown _ ⟨fun _ => le_rfl, nofun⟩
  refine ⟨grown.free, fun lease granted => ?_⟩
  subst granted
  obtain ⟨held, owner⟩ := FileSystems.admitStorage_lease ran
  refine ⟨owner lease rfl, fun dev => ?_⟩
  have held : lease.reservations = need.reservations around.toSite := held
  have reserved := reservations_le need around.toSite dev
  rw [held]
  by_cases written : ∃ part ∈ need.parts, around.probe.dev part.path = dev
  · obtain ⟨part, member, rfl⟩ := written
    obtain ⟨bytes, last, fits⟩ := FileSystems.admitStorage_measured ran member
    have measured := grown.measured _ bytes last
    unfold reservedByOthers at fits
    omega
  · left
    have none : partsOn around.probe dev need.parts = 0 := by
      rw [partsOn, List.filter_eq_nil_iff.mpr fun part member on =>
        written ⟨part, member, of_decide_eq_true on⟩]
      rfl
    omega

end Surroundings

end Quickchr
