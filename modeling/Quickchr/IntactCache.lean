import Quickchr.StorageAdmission

/-!
# Refusals and the cache

Where every delete succeeds and frees what the cache's own sizes say, an admission that is
refused has emptied the cache only for a filesystem whose shortage that covered, while another
filesystem, checked later, has no room.
-/
namespace Quickchr

section Freed

variable {rm : String → Option String} (deletes : ∀ path, rm path = none)
include deletes

theorem rmAll_deletes (paths : List String) : rmAll rm paths = (paths, none) := by
  induction paths with
  | nil => rfl
  | cons path rest ih =>
      unfold rmAll
      rw [deletes path, ih]

theorem goes_deletes (dryRun : Bool) (e : CacheEntry) : goes rm dryRun e = true := by
  simp [goes, deletes]

theorem takeEntries_attempted (why : CacheEntry → PruneReason) (pass : PrunePass)
    (entries : List CacheEntry) :
    (takeEntries rm false why pass entries).attempted =
      pass.attempted ++ entries.flatMap CacheEntry.paths := by
  induction entries generalizing pass with
  | nil => exact (List.append_nil _).symm
  | cons e rest ih =>
      have first : (evict rm false pass e (why e)).1.attempted = pass.attempted ++ e.paths := by
        simp [evict, rmAll_deletes deletes]
      rw [takeEntries, List.foldl_cons, ← takeEntries, ih, first, List.append_assoc]
      rfl

/-- A prune whose deletes succeed evicts what it selects, and deletes nothing else. -/
theorem prune_deletes (view : CacheView) (opts : PruneOptions) (pins : List String)
    (wet : opts.dryRun = false) :
    (pruneCacheUnderLock rm view opts pins).attempted =
      (pruneCacheUnderLock rm view opts pins).evicted.flatMap CacheEntry.paths := by
  have eq := prune_eq rm view opts pins
  have all (l : List CacheEntry) : l.filter (goes rm opts.dryRun) = l :=
    List.filter_eq_self.mpr fun e _ => goes_deletes deletes opts.dryRun e
  rw [eq]
  dsimp only [pruneResult]
  rw [carriedOut_evicted, all, wet]
  simp only [carriedOut, takeEntries_attempted deletes, Selection.taken, Selection.overdue,
    List.flatMap_append, List.nil_append]

end Freed

theorem entry_size {view : CacheView} {pins : List String} {size : String → ℕ}
    (sizes : ∀ f ∈ view.listing, size f.name = f.sizeBytes) {e : CacheEntry}
    (member : e ∈ (cacheInventory view pins).entries) : (e.paths.map size).sum = e.sizeBytes := by
  rw [entries_eq] at member
  rcases List.mem_append.mp member with single | group
  · obtain ⟨f, listed, alone⟩ := List.mem_filterMap.mp single
    obtain ⟨paths, -, single⟩ := standalone_paths alone
    have own : e.sizeBytes = f.sizeBytes := by
      unfold singleEntry at single
      dsimp only at single
      split at single
      · cases single
        rfl
      · split at single
        · cases single
        · split at single
          · cases single
          · cases single
            rfl
    rw [paths, List.map_singleton, List.sum_singleton, sizes f listed, own]
  · have facts := (catalogued view _).groups e group
    rw [facts.paths, facts.sizeBytes, List.map_map]
    refine congrArg List.sum (List.map_congr_left fun f inside => ?_)
    exact sizes f (List.mem_of_mem_filter inside)

theorem entries_size {view : CacheView} {pins : List String} {size : String → ℕ}
    (sizes : ∀ f ∈ view.listing, size f.name = f.sizeBytes) {entries : List CacheEntry}
    (inside : ∀ e ∈ entries, e ∈ (cacheInventory view pins).entries) :
    ((entries.flatMap CacheEntry.paths).map size).sum = totalSize entries := by
  induction entries with
  | nil => rfl
  | cons e rest ih =>
      rw [List.flatMap_cons, List.map_append, List.sum_append,
        entry_size sizes (inside e List.mem_cons_self),
        ih fun x member => inside x (List.mem_cons_of_mem _ member)]
      rfl

/-- What reclaiming for an operation could free at most. -/
def evictableBytes (view : CacheView) (need : StorageNeed) (pins : List String) : ℕ :=
  totalSize (pruneCandidates view need.policy pins)

/-- A pass frees what it is to free, unless it frees all that may go. -/
theorem reclaim_reaches {rm : String → Option String} (deletes : ∀ path, rm path = none)
    (view : CacheView) (need : StorageNeed) (pins : List String) (target : ℤ) (dryRun : Bool) :
    (pruneCacheUnderLock rm view { need.policy with reclaimBytes := some target, dryRun := dryRun }
        pins).freedBytes ≤ evictableBytes view need pins ∧
      (target ≤ evictableBytes view need pins → target ≤ (pruneCacheUnderLock rm view
        { need.policy with reclaimBytes := some target, dryRun := dryRun } pins).freedBytes) := by
  let opts : PruneOptions := { need.policy with reclaimBytes := some target, dryRun := dryRun }
  let s := selection (goes rm dryRun) opts (cacheInventory view pins).entries view.now
  have selects : Selects (goes rm dryRun) opts view.now _ s := selection_selects (goes rm dryRun) opts
    view.now _
  have all (l : List CacheEntry) : l.filter (goes rm dryRun) = l :=
    List.filter_eq_self.mpr fun e _ => goes_deletes deletes dryRun e
  have freed : (pruneCacheUnderLock rm view opts pins).freedBytes = totalSize s.taken := by
    rw [prune_eq rm view opts pins]
    dsimp only [pruneResult]
    rw [carriedOut_evicted, all]
  have whole : totalSize s.taken + totalSize s.left = evictableBytes view need pins := by
    rw [← totalSize_append, s.taken_left]
    exact totalSize_perm selects.candidates
  rw [show pruneCacheUnderLock rm view _ pins = pruneCacheUnderLock rm view opts pins from rfl, freed]
  refine ⟨by omega, fun enough => ?_⟩
  rcases selects.spaced.enough with empty | met
  · rw [empty] at whole
    have none : totalSize [] = 0 := rfl
    omega
  · have met : (totalSize s.taken : ℤ) ≥ target := by
      have set : opts.reclaimBytes = some target := rfl
      rw [shortOfTarget, set, all] at met
      exact not_lt.mp (of_decide_eq_false met)
    exact met

/-- Every delete succeeds, and frees the size of what it deletes where the cache lies. -/
structure Exact (around : Surroundings) (cacheDir : String) (storage : Storage) : Prop where
  deletes : ∀ path, around.rm path = none
  freed : ∀ f ∈ storage.listing, ∀ dev,
    around.freed f.name dev = if dev = around.probe.dev cacheDir then f.sizeBytes else 0

section Pass

variable {around : Surroundings} {cacheDir : String} {now : Admitting Storage}
  (exact' : Exact around cacheDir now.world)
include exact'

/-- After a pass the cache's filesystem has what was evicted more, and no other has. -/
theorem pass_frees (opts : PruneOptions) (pins : List String) (wet : opts.dryRun = false) (dev : ℕ) :
    (around.fileSystems.prune now opts pins).2.world.free dev = now.world.free dev +
      if dev = around.probe.dev cacheDir then
        (around.fileSystems.prune now opts pins).1.freedBytes
      else 0 := by
  let view := around.view now.world
  let pass := pruneCacheUnderLock around.rm view opts pins
  have follows := prune_accounted around.rm view opts pins
  have inside : ∀ e ∈ pass.evicted, e ∈ (cacheInventory view pins).entries := fun e member =>
    follows.once.mem_iff.mp (List.mem_append_left _ (List.mem_append_left _ member))
  have attempted : pass.attempted = pass.evicted.flatMap CacheEntry.paths :=
    prune_deletes exact'.deletes view opts pins wet
  show now.world.free dev + (pass.attempted.map fun path => around.freed path dev).sum = _
  refine congrArg _ ?_
  rw [attempted]
  split
  · rename_i same
    have sizes : ∀ f ∈ view.listing, around.freed f.name dev = f.sizeBytes :=
      fun f listed => (exact'.freed f listed dev).trans (if_pos same)
    rw [@entries_size view pins (fun path => around.freed path dev) sizes _ inside]
    exact follows.freed.symm
  · rename_i other
    refine List.sum_eq_zero fun n member => ?_
    obtain ⟨path, own, rfl⟩ := List.mem_map.mp member
    obtain ⟨e, evicted, path⟩ := List.mem_flatMap.mp own
    obtain ⟨f, listed, rfl⟩ := (entry_paths (inside e evicted)).2 _ path
    exact (exact'.freed f listed dev).trans (if_neg other)

end Pass

section Group

variable {around : Surroundings} {action : String} {need : StorageNeed} {reclaim : Bool}
  {reserveBytes : ℕ} {leases : List LeaseRecord}

/-- The group has room without an eviction. -/
def Fits (reserveBytes : ℕ) (leases : List LeaseRecord) (free : ℕ → ℕ) (g : FilesystemGroup) :
    Prop :=
  (g.bytes + reserveBytes : ℤ) ≤ free g.dev - reservedByOthers leases g.dev

/-- An eviction may be made for the group, and could cover its shortage. -/
structure Covered (around : Surroundings) (need : StorageNeed) (reclaim : Bool) (reserveBytes : ℕ)
    (leases : List LeaseRecord) (storage : Storage) (g : FilesystemGroup) : Prop where
  reclaim : reclaim = true
  cache : around.probe.dev (need.cacheDir.getD around.cacheDir) = g.dev
  enough : (g.bytes + reserveBytes : ℤ) - (storage.free g.dev - reservedByOthers leases g.dev) ≤
    evictableBytes (around.view storage) need (need.allPins leases)

variable {now : Admitting Storage} {g : FilesystemGroup}
  (own : around.probe.dev g.statPath = g.dev)
include own

theorem measure_group (reserved : ℕ) :
    (around.fileSystems.measure now g.statPath reserved).1 = now.world.free g.dev - reserved ∧
      (around.fileSystems.measure now g.statPath reserved).2.world = now.world := by
  refine ⟨?_, rfl⟩
  show (now.world.free (around.probe.dev g.statPath) : ℤ) - reserved = _
  rw [own]

theorem admitGroup_fits (fits : Fits reserveBytes leases now.world.free g) :
    ∃ next, around.fileSystems.admitGroup around.toSite action need reclaim reserveBytes leases now g =
      (next, none) ∧ next.world = now.world := by
  obtain ⟨free, world⟩ := @measure_group around now g own (reservedByOthers leases g.dev)
  refine ⟨(around.fileSystems.measure now g.statPath (reservedByOthers leases g.dev)).2, ?_, world⟩
  unfold FileSystems.admitGroup
  dsimp only
  rw [free]
  exact if_pos fits

theorem admitGroup_refuses (short : ¬ Fits reserveBytes leases now.world.free g)
    (exact' : ∀ path, around.rm path = none)
    (uncovered : ¬ Covered around need reclaim reserveBytes leases now.world g) :
    ∃ next refused, around.fileSystems.admitGroup around.toSite action need reclaim reserveBytes leases
      now g = (next, some refused) ∧ next.world = now.world := by
  obtain ⟨free, world⟩ := @measure_group around now g own (reservedByOthers leases g.dev)
  unfold Fits at short
  unfold FileSystems.admitGroup
  dsimp only
  rw [free, if_neg short]
  split
  · rename_i cache
    obtain ⟨reclaims, cache⟩ := Bool.and_eq_true_iff.mp cache
    have little := not_le.mp fun enough => uncovered ⟨reclaims, of_decide_eq_true cache, enough⟩
    have dry := (reclaim_reaches exact' (around.view now.world) need (need.allPins leases)
      (g.bytes + reserveBytes - (now.world.free g.dev - reservedByOthers leases g.dev)) true).1
    have gives : ∃ done, around.fileSystems.reclaimFor need.policy (need.allPins leases)
        (around.fileSystems.measure now g.statPath (reservedByOthers leases g.dev)).2
        (now.world.free g.dev - reservedByOthers leases g.dev) g.statPath
        (reservedByOthers leases g.dev) (g.bytes + reserveBytes) =
          ((around.fileSystems.measure now g.statPath (reservedByOthers leases g.dev)).2,
            (now.world.free g.dev - reservedByOthers leases g.dev : ℤ), done) := by
      exact FileSystems.reclaimFor_uncovered rfl (lt_of_le_of_lt (Int.ofNat_le.mpr dry) little)
    obtain ⟨done, gives⟩ := gives
    rw [gives]
    exact ⟨_, _, if_neg short, world⟩
  · exact ⟨_, _, rfl, world⟩

theorem admitGroup_reclaims (short : ¬ Fits reserveBytes leases now.world.free g)
    (exact' : Exact around (need.cacheDir.getD around.cacheDir) now.world)
    (covered : Covered around need reclaim reserveBytes leases now.world g) :
    ∃ next, around.fileSystems.admitGroup around.toSite action need reclaim reserveBytes leases now g =
      (next, none) ∧ next.world.listing ≠ now.world.listing ∧
        ∀ dev ≠ g.dev, next.world.free dev = now.world.free dev := by
  obtain ⟨free, world⟩ := @measure_group around now g own (reservedByOthers leases g.dev)
  unfold Fits at short
  unfold FileSystems.admitGroup
  dsimp only
  rw [free, if_neg short, if_pos (by rw [covered.reclaim, covered.cache]; simp)]
  let required : ℤ := g.bytes + reserveBytes
  let left : ℤ := now.world.free g.dev - reservedByOthers leases g.dev
  let pins := need.allPins leases
  let first := (around.fileSystems.measure now g.statPath (reservedByOthers leases g.dev)).2
  let pass := around.fileSystems.prune first { need.policy with reclaimBytes := some (required - left) }
    pins
  let dry := pruneCacheUnderLock around.rm (around.view now.world)
    { need.policy with reclaimBytes := some (required - left), dryRun := true } pins
  have reaches (dryRun : Bool) := (reclaim_reaches exact'.deletes (around.view now.world) need pins
    (required - left) dryRun).2 covered.enough
  have freed : required - left ≤ pass.1.freedBytes := reaches false
  have room := @pass_frees around _ first exact' { need.policy with
    reclaimBytes := some (required - left) } pins rfl
  have own' : pass.2.world.free g.dev = now.world.free g.dev + pass.1.freedBytes :=
    (room g.dev).trans (congrArg _ (if_pos covered.cache.symm))
  have evicts : pass.1.evicted ≠ [] := by
    intro none
    have follows := prune_accounted around.rm (around.view now.world)
      { need.policy with reclaimBytes := some (required - left) } pins
    have zero : pass.1.freedBytes = 0 := follows.freed.trans (congrArg totalSize none)
    omega
  let after := around.fileSystems.measure pass.2 g.statPath (reservedByOthers leases g.dev)
  have enough : required ≤ after.1 := by
    have measured : after.1 = pass.2.world.free g.dev - reservedByOthers leases g.dev :=
      (measure_group own _).1
    rw [measured, own']
    omega
  have gives : ∃ done, around.fileSystems.reclaimFor need.policy pins first left g.statPath
      (reservedByOthers leases g.dev) required = (after.2, after.1, done) := by
    have ran : around.fileSystems.prune first
        { need.policy with reclaimBytes := some (required - left), skipEntries := [] } pins = pass := rfl
    exact @FileSystems.reclaimFor_once _ _ need.policy _ _ _ _ _ _ dry rfl (not_le.mp short)
      (reaches true) pass after ran rfl evicts enough
  obtain ⟨done, gives⟩ := gives
  rw [gives]
  refine ⟨after.2, if_pos enough, fun same => ?_, fun dev other => ?_⟩
  · have shorter := @FileSystems.pass_shortens _ around.fileSystems pins first _ rfl evicts
    have same : pass.2.world.listing = now.world.listing := same
    have length := congrArg List.length same
    exact absurd length shorter.ne
  · exact (room dev).trans (by rw [if_neg fun same => other (same.trans covered.cache)]; rfl)

end Group

section Groups

variable {around : Surroundings} {action : String} {need : StorageNeed} {reclaim : Bool}
  {reserveBytes : ℕ} {leases : List LeaseRecord}

/-- The cache is emptied for one filesystem, and a later one refuses all the same. -/
def EmptiedForNothing (around : Surroundings) (need : StorageNeed) (reclaim : Bool)
    (reserveBytes : ℕ) (leases : List LeaseRecord) (storage : Storage)
    (groups : List FilesystemGroup) : Prop :=
  ∃ before g after, groups = before ++ g :: after ∧
    (∀ x ∈ before, Fits reserveBytes leases storage.free x) ∧
    ¬ Fits reserveBytes leases storage.free g ∧
    Covered around need reclaim reserveBytes leases storage g ∧
    ∃ x ∈ after, ¬ Fits reserveBytes leases storage.free x

theorem emptied_cons_of_fits {storage : Storage} {g : FilesystemGroup} {groups : List FilesystemGroup}
    (fits : Fits reserveBytes leases storage.free g) :
    EmptiedForNothing around need reclaim reserveBytes leases storage (g :: groups) ↔
      EmptiedForNothing around need reclaim reserveBytes leases storage groups := by
  constructor
  · rintro ⟨before, x, after, eq, fit, short, covered, later⟩
    cases before with
    | nil =>
        obtain ⟨rfl, -⟩ := List.cons.inj eq
        exact absurd fits short
    | cons y before =>
        obtain ⟨-, rest⟩ := List.cons.inj eq
        exact ⟨before, x, after, rest, fun z inside => fit z (List.mem_cons_of_mem _ inside), short,
          covered, later⟩
  · rintro ⟨before, x, after, rfl, fit, short, covered, later⟩
    refine ⟨g :: before, x, after, rfl, fun z inside => ?_, short, covered, later⟩
    rcases List.mem_cons.mp inside with rfl | inside
    · exact fits
    · exact fit z inside

theorem emptied_cons_of_short {storage : Storage} {g : FilesystemGroup}
    {groups : List FilesystemGroup} (short : ¬ Fits reserveBytes leases storage.free g) :
    EmptiedForNothing around need reclaim reserveBytes leases storage (g :: groups) ↔
      Covered around need reclaim reserveBytes leases storage g ∧
        ∃ x ∈ groups, ¬ Fits reserveBytes leases storage.free x := by
  constructor
  · rintro ⟨before, x, after, eq, fit, -, covered, later⟩
    cases before with
    | nil =>
        obtain ⟨rfl, rfl⟩ := List.cons.inj eq
        exact ⟨covered, later⟩
    | cons y before =>
        obtain ⟨rfl, -⟩ := List.cons.inj eq
        exact absurd (fit g List.mem_cons_self) short
  · rintro ⟨covered, later⟩
    exact ⟨[], g, groups, rfl, nofun, short, covered, later⟩

/-- Away from the cache's filesystem nothing is evicted, and the groups that do not fit refuse. -/
theorem admitGroups_elsewhere {groups : List FilesystemGroup}
    (own : ∀ g ∈ groups, around.probe.dev g.statPath = g.dev)
    (other : ∀ g ∈ groups, g.dev ≠ around.probe.dev (need.cacheDir.getD around.cacheDir))
    (deletes : ∀ path, around.rm path = none) (now : Admitting Storage) :
    ∃ next result, around.fileSystems.admitGroups around.toSite action need reclaim reserveBytes leases
      now groups = (next, result) ∧ next.world = now.world ∧
        (result.isSome = true ↔ ∃ g ∈ groups, ¬ Fits reserveBytes leases now.world.free g) := by
  induction groups generalizing now with
  | nil => exact ⟨now, none, rfl, rfl, by simp⟩
  | cons g groups ih =>
      unfold FileSystems.admitGroups
      by_cases fits : Fits reserveBytes leases now.world.free g
      · obtain ⟨next, admitted, world⟩ := @admitGroup_fits around action need reclaim reserveBytes leases
          now g (own g List.mem_cons_self) fits
        rw [admitted]
        obtain ⟨last, result, eq, same, iff⟩ := ih
          (fun x inside => own x (List.mem_cons_of_mem _ inside))
          (fun x inside => other x (List.mem_cons_of_mem _ inside)) next
        refine ⟨last, result, eq, same.trans world, ?_⟩
        rw [iff, world, List.exists_mem_cons_iff, or_iff_right (not_not.mpr fits)]
      · obtain ⟨next, refused, eq, world⟩ := @admitGroup_refuses around action need reclaim reserveBytes
          leases now g (own g List.mem_cons_self) fits deletes
          fun covered => other g List.mem_cons_self covered.cache.symm
        rw [eq]
        exact ⟨next, some refused, rfl, world, fun _ => ⟨g, List.mem_cons_self, fits⟩, fun _ => rfl⟩

/-- A refusal leaves the cache as it was unless it was emptied for nothing. -/
theorem admitGroups_intact_iff {groups : List FilesystemGroup} (grouped : Grouped around.probe groups)
    {now : Admitting Storage}
    (exact' : Exact around (need.cacheDir.getD around.cacheDir) now.world) :
    ((around.fileSystems.admitGroups around.toSite action need reclaim reserveBytes leases now
          groups).2.isSome = true →
        (around.fileSystems.admitGroups around.toSite action need reclaim reserveBytes leases now
          groups).1.world.listing = now.world.listing) ↔
      ¬ EmptiedForNothing around need reclaim reserveBytes leases now.world groups := by
  induction groups generalizing now with
  | nil =>
      refine iff_of_true nofun ?_
      rintro ⟨before, x, after, eq, -⟩
      cases before <;> cases eq
  | cons g groups ih =>
      obtain ⟨fresh, nodup⟩ := List.nodup_cons.mp grouped.nodup
      have own := grouped.statPath g List.mem_cons_self
      have later : Grouped around.probe groups :=
        ⟨nodup, fun x inside => grouped.statPath x (List.mem_cons_of_mem _ inside)⟩
      unfold FileSystems.admitGroups
      by_cases fits : Fits reserveBytes leases now.world.free g
      · obtain ⟨next, admitted, world⟩ := @admitGroup_fits around action need reclaim reserveBytes leases
          now g own fits
        rw [admitted, emptied_cons_of_fits fits, ← world]
        exact ih later (world ▸ exact')
      · rw [emptied_cons_of_short fits]
        by_cases covered : Covered around need reclaim reserveBytes leases now.world g
        · obtain ⟨next, admitted, changed, free⟩ := @admitGroup_reclaims around action need reclaim
            reserveBytes leases now g own fits exact' covered
          rw [admitted]
          have elsewhere : ∀ x ∈ groups,
              x.dev ≠ around.probe.dev (need.cacheDir.getD around.cacheDir) := by
            intro x inside same
            rw [covered.cache] at same
            exact fresh (same ▸ List.mem_map_of_mem inside)
          obtain ⟨last, result, eq, same, iff⟩ := @admitGroups_elsewhere around action need reclaim
            reserveBytes leases groups later.statPath elsewhere exact'.deletes next
          have alike : (∃ x ∈ groups, ¬ Fits reserveBytes leases next.world.free x) ↔
              ∃ x ∈ groups, ¬ Fits reserveBytes leases now.world.free x := by
            refine exists_congr fun x => and_congr_right fun inside => ?_
            rw [Fits, Fits, free x.dev (covered.cache ▸ elsewhere x inside)]
          dsimp only
          rw [eq, same, iff, alike, and_iff_right covered]
          exact ⟨fun h refused => changed (h refused), fun h refused => absurd refused h⟩
        · obtain ⟨next, refused, eq, world⟩ := @admitGroup_refuses around action need reclaim reserveBytes
            leases now g own fits exact'.deletes covered
          rw [eq, world]
          exact iff_of_true (fun _ => rfl) fun both => covered both.1

/-- With exact sizes and deletes that succeed, a refused admission has left the cache as it was if
and only if it was not emptied for a filesystem before the one that refuses. -/
theorem refused_intact_iff {pid : ℕ} {storage : Storage}
    (exact' : Exact around (need.cacheDir.getD around.cacheDir) storage) :
    (∀ refused, (admitStorage around pid action need reclaim reserveBytes leases storage).2 =
        .error refused →
      (admitStorage around pid action need reclaim reserveBytes leases storage).1.listing =
        storage.listing) ↔
      ¬ EmptiedForNothing around need reclaim reserveBytes leases storage
        (groupByFilesystem around.probe around.dataDir need.parts) := by
  have grouped := (groupByFilesystem_spec around.probe around.dataDir need.parts 0).1
  have intact := @admitGroups_intact_iff around action need reclaim reserveBytes leases _ grouped
    ⟨storage, []⟩ exact'
  rw [← intact, ← FileSystems.admitStorage_refused pid, ← FileSystems.admitStorage_asked pid]
  exact ⟨fun h ⟨refused, eq⟩ => h refused eq, fun h refused eq => h ⟨refused, eq⟩⟩

end Groups

/-- The cache lies on filesystem 2, which is short of 10 bytes; filesystem 1 is full. -/
def twoFilesystems : Surroundings where
  dataDir := "data"
  cacheDir := "cache"
  probe := ⟨fun path => if path = "cache" then 2 else 1, id, fun _ => rfl⟩
  machines := some []
  now := RECENT_USE_MS
  pidAlive _ := false
  rm _ := none
  freed path dev := if path = "chr-7.1.img" then if dev = 2 then 20 else 0 else 0

def oneImage : Storage where
  listing := [⟨"chr-7.1.img", .file, 20, 0⟩]
  free dev := if dev = 2 then 90 else 0

theorem twoFilesystems_exact : Exact twoFilesystems "cache" oneImage := by
  refine ⟨fun _ => rfl, fun f listed dev => ?_⟩
  rw [List.mem_singleton.mp listed]
  rfl

def bigDownload : StorageNeed where
  parts := [⟨"image download", 200, "cache", none⟩]

theorem refused_bigDownload_intact :
    ¬ EmptiedForNothing twoFilesystems bigDownload true 10 [] oneImage
        (groupByFilesystem twoFilesystems.probe twoFilesystems.dataDir bigDownload.parts) ∧
      ∀ refused,
        (admitStorage twoFilesystems 1 "cache" bigDownload true 10 [] oneImage).2 =
          .error refused →
        (admitStorage twoFilesystems 1 "cache" bigDownload true 10 [] oneImage).1.listing =
          oneImage.listing := by
  refine (and_iff_left_of_imp (refused_intact_iff twoFilesystems_exact).mpr).mpr ?_
  rintro ⟨before, g, after, eq, -, -, -, x, later, -⟩
  have single := congrArg List.length eq
  have length : (groupByFilesystem twoFilesystems.probe twoFilesystems.dataDir
      bigDownload.parts).length = 1 := rfl
  rw [length, List.length_append, List.length_cons] at single
  have none : after.length = 0 := by omega
  rw [List.length_eq_zero_iff.mp none] at later
  cases later

/-- The download comes first, then the boot disk. -/
def downloadAndDisk : StorageNeed where
  parts := [⟨"image download", 90, "cache", none⟩, ⟨"boot disk", 40, "machines", none⟩]

theorem refused_intact_fails :
    ¬ ∀ refused, (admitStorage twoFilesystems 1 "create" downloadAndDisk true 10 [] oneImage).2 =
        .error refused →
      (admitStorage twoFilesystems 1 "create" downloadAndDisk true 10 [] oneImage).1.listing =
        oneImage.listing := by
  intro intact
  have emptied : (admitStorage twoFilesystems 1 "create" downloadAndDisk true 10 [] oneImage).1.listing =
      [] := by decide +kernel
  cases outcome : (admitStorage twoFilesystems 1 "create" downloadAndDisk true 10 [] oneImage).2 with
  | ok lease =>
      have refused : (admitStorage twoFilesystems 1 "create" downloadAndDisk true 10 []
        oneImage).2.toOption = none := by decide +kernel
      rw [outcome] at refused
      cases refused
  | error refusal =>
      have kept := intact refusal outcome
      rw [emptied] at kept
      cases kept

end Quickchr
