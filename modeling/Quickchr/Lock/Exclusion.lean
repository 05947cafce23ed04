import Quickchr.Lock.Steps

/-!
# Mutual exclusion of the lock

A lock is held from the verdict of `claim()` until `release()` has published its marker,
so in particular from the moment the caller has its `HeldLock` until it calls `release()`.
Only a lock of the current incarnation counts: whoever removed the directory has nothing
left to hold.
-/
namespace Quickchr.Lock

/-- `p` is live and holds the lock of the directory that is there now. -/
def State.Holds (s : State) (p : Pid) : Prop :=
  s.alive p = true ∧ ∃ h, (s.procs p).holding = some h ∧ s.currentId = some h.id

theorem Local.Sound.tops {dir : Option LockDir} {alive : Pid → Bool} {p : Pid} {l : Local}
    {h : HeldLock} (sound : l.Sound dir alive p) (holding : l.holding = some h) :
    h.Tops dir p := by
  cases l with
  | collectList | held | readOwn => cases holding; exact sound
  | collectNext => cases holding; exact sound.1
  | writeTemp n =>
      cases n with
      | marker => cases holding; exact sound.1
      | id | claim => cases holding
  | link n temp =>
      cases n with
      | marker => cases holding; exact sound.1
      | id | claim => cases holding
  | unlinkTemp n temp result =>
      cases n with
      | marker => cases result <;> cases holding; exact sound
      | id | claim => cases holding
  | _ => cases holding

/-- Whoever holds the lock has the live top record of the current incarnation. -/
theorem Inv.holder_top {s : State} (hs : Inv s) {p : Pid} (holds : s.Holds p) :
    ∃ id d r, Current s.dir id d ∧ d.read id (d.top id) = some r ∧ r.Of p := by
  obtain ⟨live, h, holding, cur⟩ := holds
  obtain ⟨d, cur⟩ := State.currentId_eq.mp cur
  have tops := (hs.sound p live).tops holding
  refine ⟨h.id, d, h.record, cur, ?_, tops.own⟩
  rw [tops.top d cur]
  exact tops.read d cur

/-- Two live processes never hold the lock at once. -/
theorem mutual_exclusion {s : State} (reachable : system.Reachable s) {p q : Pid} (ne : p ≠ q) :
    ¬ (s.Holds p ∧ s.Holds q) := by
  rintro ⟨hp, hq⟩
  have hs := Inv.reachable reachable
  obtain ⟨id, d, r, cur, read, own⟩ := hs.holder_top hp
  obtain ⟨id', d', r', cur', read', own'⟩ := hs.holder_top hq
  obtain ⟨rfl, rfl⟩ := cur.unique cur'
  have same : r = r' := Option.some.inj (read.symm.trans read')
  exact ne (own.pid.symm.trans ((congrArg LockRecord.pid same).trans own'.pid))

def ascending (now : Timestamp) : Answer where
  now := now
  readdir gens := gens.sort (· ≤ ·)
  lists gens := ⟨gens.sort_nodup _, gens.sort_toFinset _⟩

/-- The calls of one `acquireLockNow` in a machine directory that has no lock yet. -/
def firstLock (p : Pid) : List Event :=
  .acquire p ⟨.start, none⟩ :: List.replicate 15 (.advance p (ascending 0))

theorem mutual_exclusion_firstLock : ∃ s, system.Reachable s ∧
    (s.procs 1).holding.isSome = true ∧ ¬ (s.Holds 1 ∧ s.Holds 2) := by
  obtain ⟨s, reachable, holding⟩ := Transition.System.exists_reachable (S := system)
    (P := fun s => (s.procs 1).holding.isSome = true) (firstLock 1) ⟨true, rfl⟩
    (by decide +kernel)
  exact ⟨s, reachable, holding, mutual_exclusion reachable (by decide)⟩

end Quickchr.Lock
