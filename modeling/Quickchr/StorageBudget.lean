import Quickchr.StorageAdmission
import Quickchr.Lib.Transition
import Mathlib.Algebra.Order.BigOperators.Group.List
import Mathlib.Algebra.Order.Ring.Nat

/-!
# Free space across operations

Processes have their operations admitted, write against what their leases hold, release them or crash.
An admission is one step, for it checks and records under the storage lock. What a write takes
from the free space it takes from its lease, too; nothing else writes.
-/
namespace Quickchr.StorageBudget

/-- A lease and the bytes written against it, by filesystem. -/
structure Lease where
  id : ℕ
  record : LeaseRecord
  written : ℕ → ℕ

def Lease.unwritten (lease : Lease) (dev : ℕ) : ℕ :=
  reservedOn dev lease.record.reservations - lease.written dev

def Lease.write (lease : Lease) (dev bytes : ℕ) : Lease :=
  { lease with written := fun d => lease.written d + if d = dev then bytes else 0 }

structure State where
  /-- The processes that have ended. -/
  dead : List ℕ
  leases : List Lease
  /-- The leases recorded so far. -/
  issued : ℕ
  /-- What is measured, by filesystem. -/
  free : ℕ → ℕ

def State.alive (s : State) (p : ℕ) : Bool := !s.dead.contains p

/-- `liveLeases` -/
def State.live (s : State) : List Lease := s.leases.filter fun lease => s.alive lease.record.pid

def State.unwritten (s : State) (dev : ℕ) : ℕ := (s.live.map fun lease => lease.unwritten dev).sum

/-- What is free beyond the reserve and what the live leases have still to write. -/
def State.slack (reserveBytes : ℕ) (s : State) (dev : ℕ) : ℤ :=
  s.free dev - reserveBytes - s.unwritten dev

inductive Event
  | admission (p : ℕ) (around : Surroundings) (listing : List CacheFile) (action : String)
      (need : StorageNeed) (reclaim : Bool)
  /-- `pinCacheEntries` -/
  | pin (p : ℕ) (action : String) (pins : List String)
  | write (p : ℕ) (lease : ℕ) (dev bytes : ℕ)
  | release (p : ℕ) (lease : ℕ)
  | crash (p : ℕ)
  /-- Files go without an admission: a prune, or an operation that removes what was written. -/
  | remove (dev bytes : ℕ)

def State.createLease (s : State) (record : LeaseRecord) : State :=
  { s with leases := s.leases ++ [⟨s.issued, record, fun _ => 0⟩], issued := s.issued + 1 }

def next (reserveBytes : ℕ) (s : State) : Event → Option State
  | .admission p around listing action need reclaim =>
      if s.alive p then
        match admitStorage around p action need reclaim reserveBytes (s.live.map Lease.record)
          ⟨listing, s.free⟩ with
        | (storage, .ok (some record)) =>
            some (State.createLease { s with leases := s.live, free := storage.free } record)
        | (storage, _) => some { s with leases := s.live, free := storage.free }
      else none
  | .pin p action pins =>
      if s.alive p then some (s.createLease ⟨p, action, pins, []⟩) else none
  | .write p id dev bytes =>
      if bytes ≤ s.free dev ∧ ∃ lease ∈ s.live, lease.id = id ∧ lease.record.pid = p ∧
          bytes ≤ lease.unwritten dev then
        some { s with
          leases := s.leases.map fun lease => if lease.id = id then lease.write dev bytes else lease
          free := fun d => s.free d - if d = dev then bytes else 0 }
      else none
  | .release p id =>
      if s.alive p then
        some { s with
          leases := s.leases.filter fun lease => !(lease.id = id && lease.record.pid = p) }
      else none
  | .crash p => if s.alive p then some { s with dead := p :: s.dead } else none
  | .remove dev bytes =>
      some { s with free := fun d => s.free d + if d = dev then bytes else 0 }

def system (reserveBytes : ℕ) : Transition.System State Event where
  Initial s := s.leases = []
  next := next reserveBytes

theorem unwritten_mono {s t : State} (h : t.live.Sublist s.live) (dev : ℕ) :
    t.unwritten dev ≤ s.unwritten dev :=
  (h.map _).sum_le_sum fun _ _ => Nat.zero_le _

theorem unwritten_le_reserved (leases : List Lease) (dev : ℕ) :
    (leases.map fun lease => lease.unwritten dev).sum ≤
      reservedOn dev ((leases.map Lease.record).flatMap LeaseRecord.reservations) := by
  induction leases with
  | nil => exact le_rfl
  | cons lease leases ih =>
      have split : reservedOn dev (((lease :: leases).map Lease.record).flatMap
          LeaseRecord.reservations) = reservedOn dev lease.record.reservations +
            reservedOn dev ((leases.map Lease.record).flatMap LeaseRecord.reservations) := by
        simp only [reservedOn, List.map_cons, List.flatMap_cons, List.filter_append, List.map_append,
          List.sum_append]
      rw [split, List.map_cons, List.sum_cons]
      exact Nat.add_le_add (Nat.sub_le _ _) ih

theorem live_createLease (s : State) (record : LeaseRecord) :
    (s.createLease record).live = s.live ++
      if s.alive record.pid then [⟨s.issued, record, fun _ => 0⟩] else [] := by
  unfold State.live State.createLease
  rw [List.filter_append, List.filter_singleton]
  refine congrArg _ ?_
  show (bif s.alive record.pid then _ else _) = _
  cases s.alive record.pid <;> rfl

theorem unwritten_createLease {s : State} {record : LeaseRecord} (dev : ℕ) :
    (s.createLease record).unwritten dev ≤ s.unwritten dev + reservedOn dev record.reservations := by
  rw [State.unwritten, live_createLease, List.map_append, List.sum_append]
  refine Nat.add_le_add_left ?_ _
  split
  · rw [List.map_singleton, List.sum_singleton]
    exact Nat.sub_le _ _
  · exact Nat.zero_le _

theorem Lease.unwritten_write (lease : Lease) (id dev bytes d : ℕ) :
    (if lease.id = id then lease.write dev bytes else lease).unwritten d ≤ lease.unwritten d := by
  split
  · unfold Lease.unwritten Lease.write
    dsimp only
    omega
  · exact le_rfl

theorem unwritten_write_le (leases : List Lease) (id dev bytes d : ℕ) :
    ((leases.map fun lease => if lease.id = id then lease.write dev bytes else lease).map
        fun lease => lease.unwritten d).sum ≤ (leases.map fun lease => lease.unwritten d).sum := by
  rw [List.map_map]
  exact List.sum_le_sum fun lease _ => lease.unwritten_write id dev bytes d

/-- A write takes as much from what is still to be written as from the free space. -/
theorem unwritten_write {leases : List Lease} {id dev bytes : ℕ} {holder : Lease}
    (member : holder ∈ leases) (own : holder.id = id) (fits : bytes ≤ holder.unwritten dev) :
    ((leases.map fun lease => if lease.id = id then lease.write dev bytes else lease).map
        fun lease => lease.unwritten dev).sum + bytes ≤
      (leases.map fun lease => lease.unwritten dev).sum := by
  induction leases with
  | nil => cases member
  | cons lease leases ih =>
      simp only [List.map_cons, List.sum_cons]
      have here := lease.unwritten_write id dev bytes dev
      rcases List.mem_cons.mp member with rfl | later
      · have tail := unwritten_write_le leases id dev bytes dev
        have taken : (holder.write dev bytes).unwritten dev + bytes = holder.unwritten dev := by
          unfold Lease.unwritten at fits ⊢
          dsimp only [Lease.write]
          rw [if_pos rfl]
          omega
        rw [if_pos own]
        omega
      · have rest := ih later
        omega

theorem live_write (s : State) (id dev bytes : ℕ) (free : ℕ → ℕ) :
    ({ s with
      leases := s.leases.map fun lease => if lease.id = id then lease.write dev bytes else lease
      free := free } : State).live =
      s.live.map fun lease => if lease.id = id then lease.write dev bytes else lease := by
  unfold State.live State.alive
  rw [List.filter_map]
  congr 2
  funext lease
  simp only [Function.comp]
  split <;> rfl

section Room

variable {reserveBytes : ℕ} {s t : State} {dev : ℕ}

/-- A step that frees and leaves no more to write keeps what room there is. -/
theorem slack_mono (free : s.free dev ≤ t.free dev) (unwritten : t.unwritten dev ≤ s.unwritten dev)
    (h : 0 ≤ s.slack reserveBytes dev) : 0 ≤ t.slack reserveBytes dev := by
  unfold State.slack at h ⊢
  omega

theorem slack_admission {p : ℕ} {around : Surroundings} {listing : List CacheFile} {action : String}
    {need : StorageNeed} {reclaim : Bool} {storage : Storage}
    {outcome : Except InsufficientSpace (Option LeaseRecord)}
    (admitted : admitStorage around p action need reclaim reserveBytes (s.live.map Lease.record)
      ⟨listing, s.free⟩ = (storage, outcome)) (h : 0 ≤ s.slack reserveBytes dev) :
    0 ≤ State.slack reserveBytes { s with leases := s.live, free := storage.free } dev ∧
      ∀ record, outcome = .ok (some record) → 0 ≤ State.slack reserveBytes
        (State.createLease { s with leases := s.live, free := storage.free } record) dev := by
  obtain ⟨grows, room⟩ := admitStorage_spec admitted
  have live : State.live { s with leases := s.live, free := storage.free } = s.live := by
    show s.live.filter (fun lease => s.alive lease.record.pid) = s.live
    rw [State.live, List.filter_filter]
    simp only [Bool.and_self]
  have swept : State.unwritten { s with leases := s.live, free := storage.free } dev =
      s.unwritten dev := congrArg (fun live => (live.map fun lease => lease.unwritten dev).sum) live
  have start : 0 ≤ State.slack reserveBytes { s with leases := s.live, free := storage.free } dev :=
    slack_mono (grows dev) swept.le h
  refine ⟨start, fun record recorded => ?_⟩
  have added := @unwritten_createLease { s with leases := s.live, free := storage.free } record dev
  have reserved := unwritten_le_reserved s.live dev
  have before : s.unwritten dev = (s.live.map fun lease => lease.unwritten dev).sum := rfl
  unfold State.slack at start ⊢
  rw [swept] at added start
  have measured : (State.createLease { s with leases := s.live, free := storage.free } record).free dev =
      storage.free dev := rfl
  rw [measured]
  dsimp only at start
  rcases (room record recorded).2 dev with none | fits
  · rw [none] at added
    omega
  · omega

/-- The step lemma: whatever a process does, room that was there stays. -/
theorem slack_next {e : Event} (n : next reserveBytes s e = some t)
    (h : 0 ≤ s.slack reserveBytes dev) : 0 ≤ t.slack reserveBytes dev := by
  cases e with
  | admission p around listing action need reclaim =>
      simp only [next] at n
      obtain ⟨-, n⟩ := Option.ite_none_right_eq_some.mp n
      split at n
      · rename_i storage record admitted
        cases n
        exact (slack_admission admitted h).2 record rfl
      · rename_i storage outcome other admitted
        cases n
        exact (slack_admission admitted h).1
  | pin p action pins =>
      obtain ⟨-, eq⟩ := Option.ite_none_right_eq_some.mp n
      cases eq
      have unwritten := @unwritten_createLease s ⟨p, action, pins, []⟩ dev
      exact slack_mono (s := s) le_rfl unwritten h
  | write p id d bytes =>
      obtain ⟨⟨fits, holder, member, own, -, held⟩, eq⟩ := Option.ite_none_right_eq_some.mp n
      cases eq
      have live := live_write s id d bytes fun x => s.free x - if x = d then bytes else 0
      unfold State.slack State.unwritten at h ⊢
      rw [live]
      dsimp only
      by_cases same : dev = d
      · subst same
        have taken := unwritten_write member own held
        rw [if_pos rfl]
        omega
      · have rest := unwritten_write_le s.live id d bytes dev
        rw [if_neg same]
        omega
  | release p id =>
      obtain ⟨-, eq⟩ := Option.ite_none_right_eq_some.mp n
      cases eq
      refine slack_mono (s := s) le_rfl (unwritten_mono ?_ dev) h
      exact List.filter_sublist.filter _
  | crash p =>
      obtain ⟨-, eq⟩ := Option.ite_none_right_eq_some.mp n
      cases eq
      refine slack_mono (s := s) le_rfl (unwritten_mono ?_ dev) h
      refine List.monotone_filter_right _ fun lease => ?_
      simp only [State.alive, List.contains_cons, Bool.not_or]
      exact Bool.and_le_right _ _
  | remove d bytes =>
      cases n
      exact slack_mono (s := s) (Nat.le_add_right _ _) le_rfl h

end Room

/-- Room beside the reserve and the live leases, once there, stays there on every filesystem. -/
theorem never_overcommitted {reserveBytes : ℕ} {s t : State} (run : (system reserveBytes).Leads s t)
    (dev : ℕ) (h : 0 ≤ s.slack reserveBytes dev) : 0 ≤ t.slack reserveBytes dev := by
  induction run with
  | refl => exact h
  | tail _ n ih => exact slack_next n ih

/-- One filesystem, where deleting the cached image frees 30 bytes. -/
def oneFilesystem : Surroundings where
  dataDir := "data"
  cacheDir := "cache"
  probe := ⟨fun _ => 7, id, fun _ => rfl⟩
  machines := some []
  now := RECENT_USE_MS
  pidAlive _ := false
  rm _ := none
  freed path _ := if path = "chr-7.1.img" then 30 else 0

def roomy : State := ⟨[], [], 0, fun _ => 100⟩

/-- Process 1 crashes half-way through its writes; process 2 is admitted after an eviction. -/
def crowdedRun : List Event :=
  [.admission 1 oneFilesystem [] "create" { parts := [⟨"boot disk", 40, "machines", none⟩] } true,
    .write 1 0 7 25, .crash 1,
    .admission 2 oneFilesystem [⟨"chr-7.1.img", .file, 20, 0⟩] "create"
      { parts := [⟨"boot disk", 80, "machines", none⟩] } true]

def crowded : State := ((system 10).replay roomy crowdedRun).getD roomy

theorem crowded_has_room :
    crowded.leases.length = 1 ∧ crowded.free 7 = 105 ∧ 0 ≤ crowded.slack 10 7 := by
  have run : (system 10).replay roomy crowdedRun = some crowded := by
    have ends : ((system 10).replay roomy crowdedRun).isSome = true := by decide +kernel
    obtain ⟨t, eq⟩ := Option.isSome_iff_exists.mp ends
    rw [crowded, eq, Option.getD_some]
  exact ⟨by decide +kernel, by decide +kernel,
    never_overcommitted (Transition.System.leads_of_replay run) 7 (by decide +kernel)⟩

end Quickchr.StorageBudget
