import Quickchr.Cache
import Quickchr.Lib.Transition

/-!
# Pins

A reader records a lease with its pins under the storage lock and then looks for the entry; an
eviction reads the pins of the live leases under the same lock and deletes one path after
another. Everything a pass sees of the cache, and what its deletes answer, is arbitrary.
-/
namespace Quickchr.CachePins

structure Lease where
  id : ℕ
  pid : ℕ
  pins : List String
  deriving DecidableEq, Repr

/-- What the holder of the storage lock is at. -/
structure Session where
  pid : ℕ
  /-- The pins its passes go by: those of the live leases when it looked, and its own. -/
  pins : Option (List String)
  /-- The paths its pass has still to delete. -/
  planned : List String
  deriving DecidableEq, Repr

structure State where
  /-- The processes that have ended. -/
  dead : List ℕ
  leases : List Lease
  /-- The leases recorded so far. -/
  issued : ℕ
  /-- The storage lock. -/
  session : Option Session
  /-- The names in the cache directory. -/
  files : List String
  /-- The readers that found their entry once their lease was recorded. -/
  found : List (Lease × CacheInput)
  deriving DecidableEq, Repr

def State.alive (s : State) (p : ℕ) : Bool := !s.dead.contains p

def State.liveLeases (s : State) : List Lease := s.leases.filter fun lease => s.alive lease.pid

inductive Event
  /-- `withStorageLock` -/
  | lock (p : ℕ)
  /-- `liveLeases()`, with the pins of the operation itself. -/
  | look (p : ℕ) (own : List String)
  /-- The start of `pruneCacheUnderLock`. -/
  | pass (p : ℕ) (rm : String → Option String) (view : CacheView) (opts : PruneOptions)
  /-- One `rmSync`; it may fail and leave the path. -/
  | delete (p : ℕ) (gone : Bool)
  /-- `createLease` -/
  | record (p : ℕ) (pins : List String)
  | unlock (p : ℕ)
  /-- The reader's look at the cache. -/
  | find (p : ℕ) (lease : Lease) (input : CacheInput)
  | release (p : ℕ) (lease : Lease)
  | crash (p : ℕ)
  /-- A download or an extraction lands. -/
  | publish (path : String)
  /-- An operation removes a path without evicting it. -/
  | clear (path : String)

/-- The session of `p`, while it holds the lock. -/
def State.sessionOf (s : State) (p : ℕ) : Option Session := s.session.filter fun σ => σ.pid = p

def next (s : State) : Event → Option State
  | .lock p =>
      if s.alive p ∧ s.session = none then some { s with session := some ⟨p, none, []⟩ } else none
  | .look p own =>
      match s.sessionOf p with
      | some σ =>
          if σ.planned = [] then
            some { s with
              leases := s.liveLeases
              session := some { σ with pins := some (s.liveLeases.flatMap Lease.pins ++ own) } }
          else none
      | none => none
  | .pass p rm view opts =>
      match s.sessionOf p with
      | some σ =>
          match σ.pins, σ.planned with
          | some pins, [] =>
              some { s with
                session := some { σ with planned := (pruneCacheUnderLock rm view opts pins).attempted } }
          | _, _ => none
      | none => none
  | .delete p gone =>
      match s.sessionOf p with
      | some σ =>
          match σ.planned with
          | path :: rest =>
              some { s with
                files := if gone then s.files.filter (· ≠ path) else s.files
                session := some { σ with planned := rest } }
          | [] => none
      | none => none
  | .record p pins =>
      match s.sessionOf p with
      | some σ =>
          if σ.planned = [] then
            some { s with
              leases := s.leases ++ [⟨s.issued, p, pins⟩]
              issued := s.issued + 1
              session := some { σ with pins := none } }
          else none
      | none => none
  | .unlock p =>
      match s.sessionOf p with
      | some _ => some { s with session := none }
      | none => none
  | .find p lease input =>
      if s.alive p ∧ lease.pid = p ∧ lease ∈ s.leases ∧ input.pin ∈ lease.pins ∧
          ∃ path ∈ input.paths, path ∈ s.files then
        some { s with found := (lease, input) :: s.found }
      else none
  | .release p lease =>
      if s.alive p ∧ lease.pid = p then some { s with leases := s.leases.filter (· ≠ lease) }
      else none
  | .crash p =>
      if s.alive p then
        some { s with dead := p :: s.dead, session := s.session.filter fun σ => σ.pid ≠ p }
      else none
  | .publish path => some { s with files := if path ∈ s.files then s.files else s.files ++ [path] }
  | .clear path => some { s with files := s.files.filter (· ≠ path) }

def system : Transition.System State Event where
  Initial s := s.leases = [] ∧ s.session = none ∧ s.found = []
  next := next

/-- The path that the step calls `rmSync` on as an eviction. -/
def State.evicts (s : State) : Event → Option String
  | .delete p _ => (s.sessionOf p).bind fun σ => σ.planned.head?
  | _ => none

inductive Move (s : State) : Event → State → Prop
  | lock {p} : s.alive p = true → s.session = none →
      Move s (.lock p) { s with session := some ⟨p, none, []⟩ }
  | look {p own σ} : s.sessionOf p = some σ → σ.planned = [] → Move s (.look p own) { s with
      leases := s.liveLeases
      session := some { σ with pins := some (s.liveLeases.flatMap Lease.pins ++ own) } }
  | pass {p rm view opts σ pins} : s.sessionOf p = some σ → σ.pins = some pins → σ.planned = [] →
      Move s (.pass p rm view opts) { s with
        session := some { σ with planned := (pruneCacheUnderLock rm view opts pins).attempted } }
  | delete {p gone σ path rest} : s.sessionOf p = some σ → σ.planned = path :: rest →
      Move s (.delete p gone) { s with
        files := if gone then s.files.filter (· ≠ path) else s.files
        session := some { σ with planned := rest } }
  | record {p pins σ} : s.sessionOf p = some σ → σ.planned = [] → Move s (.record p pins) { s with
      leases := s.leases ++ [⟨s.issued, p, pins⟩]
      issued := s.issued + 1
      session := some { σ with pins := none } }
  | unlock {p σ} : s.sessionOf p = some σ → Move s (.unlock p) { s with session := none }
  | find {p lease input} : s.alive p = true → lease.pid = p → lease ∈ s.leases →
      input.pin ∈ lease.pins → (∃ path ∈ input.paths, path ∈ s.files) →
      Move s (.find p lease input) { s with found := (lease, input) :: s.found }
  | release {p lease} : s.alive p = true → lease.pid = p →
      Move s (.release p lease) { s with leases := s.leases.filter (· ≠ lease) }
  | crash {p} : s.alive p = true → Move s (.crash p)
      { s with dead := p :: s.dead, session := s.session.filter fun σ => σ.pid ≠ p }
  | publish {path} : Move s (.publish path)
      { s with files := if path ∈ s.files then s.files else s.files ++ [path] }
  | clear {path} : Move s (.clear path) { s with files := s.files.filter (· ≠ path) }

theorem move_of_next {s t : State} {e : Event} (n : next s e = some t) : Move s e t := by
  cases e with
  | lock p =>
      obtain ⟨⟨live, free⟩, ⟨⟩⟩ := Option.ite_none_right_eq_some.mp n
      exact .lock live free
  | look p own | record p pins =>
      simp only [next] at n
      split at n
      · rename_i σ holder
        obtain ⟨idle, ⟨⟩⟩ := Option.ite_none_right_eq_some.mp n
        constructor <;> assumption
      · cases n
  | pass p rm view opts =>
      simp only [next] at n
      split at n
      · rename_i σ holder
        split at n
        · rename_i pins seen idle
          cases n
          exact .pass holder seen idle
        · cases n
      · cases n
  | delete p gone =>
      simp only [next] at n
      split at n
      · rename_i σ holder
        split at n
        · rename_i path rest planned
          cases n
          exact .delete holder planned
        · cases n
      · cases n
  | unlock p =>
      simp only [next] at n
      split at n
      · rename_i σ holder
        cases n
        exact .unlock holder
      · cases n
  | find p lease input =>
      obtain ⟨⟨live, own, member, pinned, there⟩, ⟨⟩⟩ := Option.ite_none_right_eq_some.mp n
      exact .find live own member pinned there
  | release p lease =>
      obtain ⟨⟨live, own⟩, ⟨⟩⟩ := Option.ite_none_right_eq_some.mp n
      exact .release live own
  | crash p =>
      obtain ⟨live, ⟨⟩⟩ := Option.ite_none_right_eq_some.mp n
      exact .crash live
  | publish path =>
      cases n
      exact .publish
  | clear path =>
      cases n
      exact .clear

structure Inv (s : State) : Prop where
  /-- What a holder of the lock goes by covers every live lease. -/
  covers : ∀ σ, s.session = some σ → ∀ pins, σ.pins = some pins →
    ∀ lease ∈ s.leases, s.alive lease.pid = true → ∀ pin ∈ lease.pins, pin ∈ pins
  /-- What is still to delete is no path of a pinned input. -/
  planned : ∀ σ, s.session = some σ → ∀ path ∈ σ.planned,
    ∃ pins, σ.pins = some pins ∧ ∀ input : CacheInput, input.pin ∈ pins → path ∉ input.paths
  found : ∀ entry ∈ s.found, entry.2.pin ∈ entry.1.pins

theorem sessionOf_eq_some {s : State} {p : ℕ} {σ : Session} (h : s.sessionOf p = some σ) :
    s.session = some σ := (Option.filter_eq_some_iff.mp h).1

theorem alive_of_crash {s : State} {p q : ℕ} (h : ({ s with dead := p :: s.dead } : State).alive q = true) :
    s.alive q = true := by
  simp only [State.alive, List.contains_cons, Bool.not_or, Bool.and_eq_true] at h
  exact h.2

/-- A step that leaves the lock, the leases and the readers' finds as they are. -/
theorem Inv.frame {s t : State} (h : Inv s) (session : t.session = s.session)
    (leases : t.leases = s.leases) (dead : t.dead = s.dead) (found : t.found = s.found) : Inv t := by
  refine ⟨?_, ?_, ?_⟩
  · intro σ held pins seen lease member live
    rw [leases] at member
    rw [State.alive, dead] at live
    exact h.covers σ (session ▸ held) pins seen lease member live
  · intro σ held
    exact h.planned σ (session ▸ held)
  · rw [found]
    exact h.found

theorem Inv.next {s t : State} {e : Event} (h : Inv s) (n : next s e = some t) : Inv t := by
  cases move_of_next n with
  | lock =>
      refine ⟨?_, ?_, h.found⟩
      · intro σ held pins seen
        cases held
        cases seen
      · intro σ held path member
        cases held
        cases member
  | look _ idle =>
      refine ⟨?_, ?_, h.found⟩
      · intro σ held pins seen lease member live pin pinned
        cases held
        cases seen
        exact List.mem_append_left _ (List.mem_flatMap.mpr ⟨lease, member, pinned⟩)
      · intro σ held path member
        cases held
        rw [idle] at member
        cases member
  | @pass _ _ _ _ σ pins holder seen =>
      refine ⟨?_, ?_, h.found⟩
      · intro σ' held
        cases held
        exact h.covers σ (sessionOf_eq_some holder)
      · intro σ' held path member
        cases held
        refine ⟨pins, seen, fun input pinned own => ?_⟩
        exact prune_spares (List.mem_append_right _ pinned) own member
  | @delete _ _ σ _ rest holder planned =>
      refine ⟨?_, ?_, h.found⟩
      · intro σ' held
        cases held
        exact h.covers σ (sessionOf_eq_some holder)
      · intro σ' held path member
        cases held
        exact h.planned σ (sessionOf_eq_some holder) path (planned ▸ List.mem_cons_of_mem _ member)
  | record _ idle =>
      refine ⟨?_, ?_, h.found⟩
      · intro σ held pins seen
        cases held
        cases seen
      · intro σ held path member
        cases held
        rw [idle] at member
        cases member
  | unlock => exact ⟨nofun, nofun, h.found⟩
  | find _ _ _ pinned =>
      refine ⟨h.covers, h.planned, fun entry member => ?_⟩
      rcases List.mem_cons.mp member with rfl | before
      · exact pinned
      · exact h.found entry before
  | release =>
      refine ⟨?_, h.planned, h.found⟩
      intro σ held pins seen other member
      exact h.covers σ held pins seen other (List.mem_filter.mp member).1
  | crash =>
      refine ⟨?_, ?_, h.found⟩
      · intro σ held pins seen lease member live
        exact h.covers σ (Option.filter_eq_some_iff.mp held).1 pins seen lease member
          (alive_of_crash live)
      · intro σ held
        exact h.planned σ (Option.filter_eq_some_iff.mp held).1
  | publish | clear => exact h.frame rfl rfl rfl rfl

theorem reachable_inv {s : State} (h : system.Reachable s) : Inv s := by
  refine h.invariant ?_ fun s e t _ inv _ n => inv.next n
  rintro s ⟨-, noSession, noFound⟩
  refine ⟨?_, ?_, ?_⟩
  · intro σ held
    rw [noSession] at held
    cases held
  · intro σ held
    rw [noSession] at held
    cases held
  · intro entry member
    rw [noFound] at member
    cases member

/-- Processes do not come back, and a lease of a live process goes by its release only. -/
structure Kept (s t : State) (e : Event) : Prop where
  issued : s.issued ≤ t.issued
  alive : ∀ p, t.alive p = true → s.alive p = true
  leases : ∀ lease ∈ s.leases, t.alive lease.pid = true → (∀ p, e ≠ .release p lease) →
    lease ∈ t.leases

theorem Kept.of_eq {s t : State} {e : Event} (issued : t.issued = s.issued) (dead : t.dead = s.dead)
    (leases : t.leases = s.leases) : Kept s t e := by
  refine ⟨issued.ge, fun p live => ?_, fun lease member _ _ => leases ▸ member⟩
  rwa [State.alive, dead] at live

theorem kept_next {s t : State} {e : Event} (n : next s e = some t) : Kept s t e := by
  cases move_of_next n with
  | lock | pass | delete | unlock | find | publish | clear => exact .of_eq rfl rfl rfl
  | look =>
      exact ⟨le_rfl, fun _ live => live,
        fun lease member live _ => List.mem_filter.mpr ⟨member, live⟩⟩
  | record =>
      exact ⟨Nat.le_succ _, fun _ live => live,
        fun lease member _ _ => List.mem_append_left _ member⟩
  | @release p lease =>
      refine ⟨le_rfl, fun _ live => live, fun other member _ kept => ?_⟩
      exact List.mem_filter.mpr ⟨member, decide_eq_true fun same => kept p (same ▸ rfl)⟩
  | crash => exact ⟨le_rfl, fun _ live => alive_of_crash live, fun lease member _ _ => member⟩

/-- What is to be deleted was planned before, or a pass has just begun. -/
theorem planned_next {s t : State} {e : Event} (n : next s e = some t) {σ : Session}
    (held : t.session = some σ) {path : String} (planned : path ∈ σ.planned) :
    ((∀ p rm view opts, e ≠ .pass p rm view opts) ∧
        ∃ σ', s.session = some σ' ∧ path ∈ σ'.planned) ∨
      ∃ p rm view opts pins, e = .pass p rm view opts ∧
        path ∈ (pruneCacheUnderLock rm view opts pins).attempted := by
  cases move_of_next n with
  | lock =>
      cases held
      cases planned
  | unlock => cases held
  | pass =>
      cases held
      exact .inr ⟨_, _, _, _, _, rfl, planned⟩
  | delete holder rest =>
      cases held
      exact .inl ⟨fun _ _ _ _ is => (by cases is), _, sessionOf_eq_some holder,
        rest ▸ List.mem_cons_of_mem _ planned⟩
  | look holder | record holder =>
      cases held
      exact .inl ⟨fun _ _ _ _ is => (by cases is), _, sessionOf_eq_some holder, planned⟩
  | find | release | publish | clear =>
      exact .inl ⟨fun _ _ _ _ is => (by cases is), σ, held, planned⟩
  | crash =>
      exact .inl ⟨fun _ _ _ _ is => (by cases is), σ, (Option.filter_eq_some_iff.mp held).1,
        planned⟩

/-- An eviction takes no path of an input that a live lease pins. -/
theorem not_evicted {s : State} (h : Inv s) {lease : Lease} (recorded : lease ∈ s.leases)
    (live : s.alive lease.pid = true) {input : CacheInput} (pinned : input.pin ∈ lease.pins)
    {path : String} (own : path ∈ input.paths) (e : Event) : s.evicts e ≠ some path := by
  intro evicted
  cases e with
  | delete p gone =>
      obtain ⟨σ, holder, first⟩ := Option.bind_eq_some_iff.mp evicted
      have held := sessionOf_eq_some holder
      obtain ⟨pins, seen, spared⟩ := h.planned σ held path (List.mem_of_head? first)
      exact spared input (h.covers σ held pins seen lease recorded live _ pinned) own
  | _ => cases evicted

/-- Only an eviction and an operation that clears the path itself take a file away. -/
theorem files_kept {s t : State} {e : Event} (n : next s e = some t) {path : String}
    (present : path ∈ s.files) (kept : s.evicts e ≠ some path) (uncleared : e ≠ .clear path) :
    path ∈ t.files := by
  cases move_of_next n with
  | delete holder planned =>
      dsimp only
      split
      · refine List.mem_filter.mpr ⟨present, decide_eq_true fun same => kept ?_⟩
        rw [State.evicts, holder, Option.bind_some, planned, same]
        rfl
      · exact present
  | publish =>
      dsimp only
      split
      · exact present
      · exact List.mem_append_left _ present
  | clear => exact List.mem_filter.mpr ⟨present, decide_eq_true fun same => uncleared (same ▸ rfl)⟩
  | lock | look | pass | record | unlock | find | release | crash => exact present

/-- A reader that found its entry once its lease was recorded keeps every path of it, as far as
evictions go, while it lives and the lease is not released. -/
theorem pinned_entry_not_evicted {s t : State} {e : Event} {lease : Lease} {input : CacheInput}
    (reachable : system.Reachable s) (found : (lease, input) ∈ s.found) (recorded : lease ∈ s.leases)
    (live : s.alive lease.pid = true) (n : next s e = some t) :
    ∀ path ∈ input.paths, s.evicts e ≠ some path ∧
      (path ∈ s.files → e ≠ .clear path → path ∈ t.files) := by
  intro path own
  have inv := reachable_inv reachable
  have kept := not_evicted inv recorded live (inv.found _ found) own e
  exact ⟨kept, fun present uncleared => files_kept n present kept uncleared⟩

/-- Process 1 pins the packages of 7.1 and finds them, while process 2 reclaims room. -/
def reclaimRun : List Event :=
  [.publish "packages-x86-7.1", .publish "chr-7.1.img", .lock 1, .record 1 ["packages-x86-7.1"],
    .unlock 1, .find 1 ⟨0, 1, ["packages-x86-7.1"]⟩ (.packages "7.1" .x86), .lock 2, .look 2 [],
    .pass 2 (fun _ => none)
      { listing := [⟨"packages-x86-7.1", .directory, 9, 0⟩, ⟨"chr-7.1.img", .file, 7, 0⟩]
        machines := some []
        now := 100
        pidAlive := fun _ => true }
      { reclaimBytes := some 100 }]

/-- Where that run leads: only the image is to go. -/
def reclaiming : State :=
  { dead := []
    leases := [⟨0, 1, ["packages-x86-7.1"]⟩]
    issued := 1
    session := some ⟨2, some ["packages-x86-7.1"], ["chr-7.1.img"]⟩
    files := ["packages-x86-7.1", "chr-7.1.img"]
    found := [(⟨0, 1, ["packages-x86-7.1"]⟩, .packages "7.1" .x86)] }

theorem reclaiming_keeps_packages :
    reclaiming.evicts (.delete 2 true) = some "chr-7.1.img" ∧
      ∀ path ∈ (CacheInput.packages "7.1" .x86).paths,
        reclaiming.evicts (.delete 2 true) ≠ some path ∧
          (path ∈ reclaiming.files → Event.delete 2 true ≠ .clear path →
            path ∈ ["packages-x86-7.1"]) := by
  have start : system.Initial ⟨[], [], 0, none, [], []⟩ := ⟨rfl, rfl, rfl⟩
  have run : system.replay ⟨[], [], 0, none, [], []⟩ reclaimRun = some reclaiming := by
    decide +kernel
  have deleted : next reclaiming (.delete 2 true) = some { reclaiming with
      session := some ⟨2, some ["packages-x86-7.1"], []⟩, files := ["packages-x86-7.1"] } := by
    decide +kernel
  exact ⟨by decide, pinned_entry_not_evicted (Transition.System.reachable_of_replay start run)
    List.mem_cons_self List.mem_cons_self (by decide) deleted⟩

end Quickchr.CachePins
