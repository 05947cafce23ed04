import Quickchr.Lib.Transition
import Mathlib.Logic.Function.Basic
import Mathlib.Tactic.Common

/-!
# The lock of one named socket

`withEntryLock` of socket-registry.ts, one file-system call at a time, for any number of
processes and one name. A holder's `fn` and its reentrant calls touch no lock file. The
path names an inode or nothing; a pid is written through the descriptor of the file that
was created, wherever the path points by then. Times are milliseconds.
-/
namespace Quickchr.EntryLock

abbrev Pid := ℕ
abbrev Inode := ℕ

/-- How long an unreadable lock file is left alone. -/
def LOCK_STALE_GRACE_MS : ℕ := 500

def LOCK_TIMEOUT_MS : ℕ := 5000

/-- The variables of the acquiring loop. -/
structure Wait where
  deadline : ℕ
  unreadableSince : Option ℕ
  deriving DecidableEq, Repr

inductive Local
  | idle
  | checkDeadline (w : Wait)
  | openNew (w : Wait)
  | writePid (w : Wait) (fd : Inode)
  | readOwner (w : Wait)
  | kill (w : Wait) (ownerPid : Pid)
  | recover (w : Wait)
  | inside (own : Inode)
  | removeOwn (own : Inode)
  deriving DecidableEq, Repr

/-- The file a process has created and still takes for its own. -/
def Local.file : Local → Option Inode
  | .writePid _ i | .inside i | .removeOwn i => some i
  | _ => none

/-- `mayKill p q`: a signal of `p` to the live process `q` is permitted. -/
structure State where
  now : ℕ
  path : Option Inode
  content : Inode → Option ℕ
  inodes : ℕ
  alive : Pid → Bool
  mayKill : Pid → Pid → Bool
  procs : Pid → Local

def State.goto (s : State) (p : Pid) (l : Local) : State :=
  { s with procs := Function.update s.procs p l }

/-- `Number.parseInt` of the file at the path: nothing when the file is gone or empty. -/
def State.ownerPid (s : State) : Option ℕ := s.path.bind s.content

/-- The next file-system call of process `p`. -/
def advance (s : State) (p : Pid) : State :=
  match s.procs p with
  | .idle | .inside _ => s
  | .checkDeadline w => if s.now > w.deadline then s.goto p .idle else s.goto p (.openNew w)
  | .openNew w =>
      match s.path with
      | some _ => s.goto p (.readOwner w)
      | none =>
          { s with
            path := some s.inodes
            content := Function.update s.content s.inodes none
            inodes := s.inodes + 1 }.goto p (.writePid w s.inodes)
  | .writePid _ fd =>
      { s with content := Function.update s.content fd (some p) }.goto p (.inside fd)
  | .readOwner w =>
      match s.ownerPid with
      | some (pid + 1) => s.goto p (.kill { w with unreadableSince := none } (pid + 1))
      | _ =>
          let since := w.unreadableSince.getD s.now
          if s.now - since > LOCK_STALE_GRACE_MS then
            s.goto p (.recover { w with unreadableSince := none })
          else s.goto p (.checkDeadline { w with unreadableSince := some since })
  | .kill w ownerPid =>
      -- EPERM counts as dead here
      if s.alive ownerPid ∧ s.mayKill p ownerPid then s.goto p (.checkDeadline w)
      else s.goto p (.recover w)
  | .recover w => { s with path := none }.goto p (.checkDeadline w)
  | .removeOwn _ => { s with path := none }.goto p .idle

inductive Event
  | enter (p : Pid)
  | advance (p : Pid)
  /-- `writeSync` fails, and the file just created counts as someone else's. -/
  | writeFails (p : Pid)
  /-- `fn` returns or throws. -/
  | leave (p : Pid)
  | crash (p : Pid)
  | tick (ms : ℕ)
  deriving DecidableEq, Repr

def next (s : State) : Event → Option State
  | .enter p =>
      if 0 < p ∧ s.alive p ∧ s.procs p = .idle then
        some (s.goto p (.checkDeadline ⟨s.now + LOCK_TIMEOUT_MS, none⟩))
      else none
  | .advance p => if s.alive p then some (advance s p) else none
  | .writeFails p =>
      match s.procs p with
      | .writePid w _ => if s.alive p then some (s.goto p (.readOwner w)) else none
      | _ => none
  | .leave p =>
      match s.procs p with
      | .inside i => if s.alive p then some (s.goto p (.removeOwn i)) else none
      | _ => none
  | .crash p => some { s with alive := Function.update s.alive p false }
  | .tick ms => some { s with now := s.now + ms }

def start (mayKill : Pid → Pid → Bool) : State :=
  ⟨0, none, fun _ => none, 0, fun _ => true, mayKill, fun _ => .idle⟩

def system : Transition.System State Event where
  Initial s := ∃ mayKill, s = start mayKill
  next := next

/-- `p` is live and inside its `fn`. -/
def State.Inside (s : State) (p : Pid) : Prop :=
  s.alive p = true ∧ ∃ i, s.procs p = .inside i

/-- A recovering waiter does not delete the file of a live process: one that is about to
write its pid, is inside `fn`, or is about to delete the file itself. -/
def SparesLive (s : State) : Event → Prop
  | .advance p => ∀ w, s.procs p = .recover w →
      ∀ q i, s.alive q = true → (s.procs q).file = some i → s.path ≠ some i
  | _ => True

structure Inv (s : State) : Prop where
  /-- The path still names the file of a live holder. -/
  own : ∀ p i, s.alive p = true → (s.procs p).file = some i → s.path = some i
  apart : ∀ p q i, (s.procs p).file = some i → (s.procs q).file = some i → p = q
  drawn : ∀ p i, (s.procs p).file = some i → i < s.inodes

namespace Inv

variable {s t : State} {p : Pid} {l : Local}

theorem file_update {procs : Pid → Local} {q : Pid} {i : Inode}
    (h : (Function.update procs p l q).file = some i) :
    (q = p ∧ l.file = some i) ∨ (q ≠ p ∧ (procs q).file = some i) := by
  by_cases eq : q = p
  · subst q
    rw [Function.update_self] at h
    exact .inl ⟨rfl, h⟩
  · rw [Function.update_of_ne eq] at h
    exact .inr ⟨eq, h⟩

/-- A step of `p` that creates no file, and leaves alone the file of every live process that
keeps one. -/
theorem keep (hs : Inv s) (procs : t.procs = Function.update s.procs p l)
    (alive : t.alive = s.alive) (inodes : t.inodes = s.inodes)
    (file : l.file = none ∨ l.file = (s.procs p).file)
    (path : ∀ q i, s.alive q = true → (s.procs q).file = some i →
      (q = p → l.file = some i) → t.path = some i) : Inv t := by
  have before : ∀ q i, (t.procs q).file = some i → (s.procs q).file = some i := by
    intro q i h
    rw [procs] at h
    rcases file_update h with ⟨rfl, new⟩ | ⟨_, old⟩
    · rcases file with none | same
      · rw [none] at new; cases new
      · rw [← same, new]
    · exact old
  refine ⟨fun q i live h => ?_, fun q r i hq hr => ?_, fun q i h => ?_⟩
  · rw [alive] at live
    refine path q i live (before q i h) fun eq => ?_
    subst q
    rwa [procs, Function.update_self] at h
  · exact hs.apart q r i (before q i hq) (before r i hr)
  · rw [inodes]; exact hs.drawn q i (before q i h)

/-- A step that touches neither the path nor what `p` takes for its own. -/
theorem goto (hs : Inv s) (file : l.file = none ∨ l.file = (s.procs p).file) :
    Inv (s.goto p l) :=
  hs.keep rfl rfl rfl file fun q i live h _ => hs.own q i live h

theorem create (hs : Inv s) {w : Wait} (free : s.path = none) (procs : t.procs =
    Function.update s.procs p (.writePid w s.inodes)) (path : t.path = some s.inodes)
    (alive : t.alive = s.alive) (inodes : t.inodes = s.inodes + 1) : Inv t := by
  refine ⟨fun q i live h => ?_, fun q r i hq hr => ?_, fun q i h => ?_⟩
  · rw [procs] at h
    rw [alive] at live
    rcases file_update h with ⟨rfl, new⟩ | ⟨_, old⟩
    · cases new; exact path
    · have := hs.own q i live old
      rw [free] at this
      cases this
  · rw [procs] at hq hr
    rcases file_update hq with ⟨rfl, new⟩ | ⟨_, old⟩ <;>
      rcases file_update hr with ⟨rfl, new'⟩ | ⟨_, old'⟩
    · rfl
    · cases new; exact absurd (hs.drawn r _ old') (Nat.lt_irrefl _)
    · cases new'; exact absurd (hs.drawn q _ old) (Nat.lt_irrefl _)
    · exact hs.apart q r i old old'
  · rw [procs] at h
    rw [inodes]
    rcases file_update h with ⟨rfl, new⟩ | ⟨_, old⟩
    · cases new; exact Nat.lt_succ_self _
    · exact Nat.lt_succ_of_lt (hs.drawn q i old)

theorem advance (hs : Inv s) (spares : SparesLive s (.advance p)) (live : s.alive p = true) :
    Inv (EntryLock.advance s p) := by
  cases at_ : s.procs p with
  | idle | inside => simpa only [EntryLock.advance, at_] using hs
  | checkDeadline w =>
      simp only [EntryLock.advance, at_]
      split <;> exact hs.goto (.inl rfl)
  | openNew w =>
      simp only [EntryLock.advance, at_]
      cases free : s.path with
      | some _ => exact hs.goto (.inl rfl)
      | none => exact hs.create free rfl rfl rfl rfl
  | writePid w fd =>
      simp only [EntryLock.advance, at_]
      exact hs.keep rfl rfl rfl (.inr (by rw [at_]; rfl)) fun q i live h _ => hs.own q i live h
  | readOwner w =>
      simp only [EntryLock.advance, at_]
      split
      · exact hs.goto (.inl rfl)
      · split <;> exact hs.goto (.inl rfl)
  | kill w ownerPid =>
      simp only [EntryLock.advance, at_]
      split <;> exact hs.goto (.inl rfl)
  | recover w =>
      simp only [EntryLock.advance, at_]
      refine hs.keep rfl rfl rfl (.inl rfl) fun q i liveQ h _ => ?_
      exact absurd (hs.own q i liveQ h) (spares w at_ q i liveQ h)
  | removeOwn own =>
      simp only [EntryLock.advance, at_]
      refine hs.keep rfl rfl rfl (.inl rfl) fun q i liveQ h self => ?_
      -- the path names one file, so no other live process has one
      have mine : (s.procs p).file = some own := by rw [at_]; rfl
      have same : i = own :=
        Option.some.inj ((hs.own q i liveQ h).symm.trans (hs.own p own live mine))
      exact nomatch self (hs.apart q p own (same ▸ h) mine)

theorem next (hs : Inv s) {e : Event} (spares : SparesLive s e)
    (step : EntryLock.next s e = some t) : Inv t := by
  cases e with
  | enter p =>
      obtain ⟨_, ⟨⟩⟩ := Option.ite_none_right_eq_some.mp step
      exact hs.goto (.inl rfl)
  | advance p =>
      obtain ⟨live, ⟨⟩⟩ := Option.ite_none_right_eq_some.mp step
      exact hs.advance spares live
  | writeFails p =>
      simp only [EntryLock.next] at step
      split at step
      · obtain ⟨_, ⟨⟩⟩ := Option.ite_none_right_eq_some.mp step
        exact hs.goto (.inl rfl)
      · cases step
  | leave p =>
      simp only [EntryLock.next] at step
      split at step
      · rename_i i at_
        obtain ⟨_, ⟨⟩⟩ := Option.ite_none_right_eq_some.mp step
        exact hs.goto (.inr (by rw [at_]; rfl))
      · cases step
  | crash p =>
      cases step
      refine ⟨fun q i live h => ?_, hs.apart, hs.drawn⟩
      by_cases eq : q = p
      · subst q; simp only [Function.update_self] at live; cases live
      · simp only [Function.update_of_ne eq] at live
        exact hs.own q i live h
  | tick ms =>
      cases step
      exact ⟨hs.own, hs.apart, hs.drawn⟩

theorem start (mayKill : Pid → Pid → Bool) : Inv (EntryLock.start mayKill) := by
  refine ⟨?_, ?_, ?_⟩
  · rintro p i _ ⟨⟩
  · rintro p q i ⟨⟩
  · rintro p i ⟨⟩

theorem reachable (h : system.ReachableUnder SparesLive s) : Inv s := by
  refine h.invariant ?_ fun s e t _ hs spares step => hs.next spares step
  rintro _ ⟨mayKill, rfl⟩
  exact start mayKill

end Inv

/-- In a run whose recoveries never delete the file of a live process, no two live
processes are inside `fn` at once. -/
theorem entry_exclusion {s : State} (reachable : system.ReachableUnder SparesLive s) {p q : Pid}
    (ne : p ≠ q) : ¬ (s.Inside p ∧ s.Inside q) := by
  rintro ⟨⟨liveP, i, hp⟩, liveQ, j, hq⟩
  have hs := Inv.reachable reachable
  have fileP : (s.procs p).file = some i := by rw [hp]; rfl
  have fileQ : (s.procs q).file = some j := by rw [hq]; rfl
  have same : i = j :=
    Option.some.inj ((hs.own p i liveP fileP).symm.trans (hs.own q j liveQ fileQ))
  exact ne (hs.apart p q i fileP (same ▸ fileQ))

/-- A recovery that deletes the file of the dead process whose pid is in it. -/
def Calm (s : State) : Event → Prop
  | .advance p => (∃ w, s.procs p = .recover w) →
      ∃ q ∈ s.ownerPid, s.alive q = false ∧ (s.procs q).file.isSome ∧ (s.procs q).file = s.path
  | _ => True

instance (s : State) : ∀ e, Decidable (Calm s e)
  | .advance p =>
      have recovers : Decidable (∃ w, s.procs p = .recover w) :=
        match at_ : s.procs p with
        | .recover w => isTrue ⟨w, rfl⟩
        | .idle | .checkDeadline _ | .openNew _ | .writePid .. | .readOwner _ | .kill .. | .inside _
        | .removeOwn _ => isFalse fun ⟨_, is⟩ => by cases is
      inferInstanceAs (Decidable (_ → _))
  | .enter _ | .writeFails _ | .leave _ | .crash _ | .tick _ => isTrue trivial

theorem Calm.sparesLive {s : State} {e : Event} (reachable : system.ReachableUnder SparesLive s)
    (calm : Calm s e) : SparesLive s e := by
  cases e with
  | advance p =>
      intro w at_ q i live file names
      obtain ⟨dead, _, isDead, _, theirs⟩ := calm ⟨w, at_⟩
      have same := (Inv.reachable reachable).apart q dead i file (theirs.trans names)
      rw [← same, live] at isDead
      cases isDead
  | _ => trivial

/-- A waiter finds the file of a process that crashed inside `fn`, deletes it and enters, while
another waits. -/
def oneRecovery : List Event :=
  (.enter 3 :: List.replicate 3 (.advance 3)) ++ [.crash 3, .enter 1, .enter 2] ++
    List.replicate 8 (.advance 1) ++ List.replicate 4 (.advance 2)

theorem entry_exclusion_calm : ∃ s, system.ReachableUnder SparesLive s ∧ s.alive 3 = false ∧
    s.Inside 1 ∧ ¬ (s.Inside 1 ∧ s.Inside 2) := by
  obtain ⟨s, reachable, dead, live, inside⟩ :=
    Transition.System.exists_reachable (S := system.restrict Calm)
      (P := fun s => s.alive 3 = false ∧ s.alive 1 = true ∧ s.procs 1 = .inside 1)
      oneRecovery ⟨fun _ _ => true, rfl⟩ (by decide +kernel)
  have under := (Transition.System.ReachableUnder.of_restrict reachable).mono
    fun _ _ => Calm.sparesLive
  exact ⟨s, under, dead, ⟨live, 1, inside⟩, entry_exclusion under (by decide)⟩

/-- Two waiters find the file of a process that crashed inside `fn`. The first deletes it,
creates its own and enters; the second then deletes that one and enters as well. -/
def twoRecoveries : List Event :=
  (.enter 3 :: List.replicate 3 (.advance 3)) ++ [.crash 3, .enter 1, .enter 2] ++
    List.replicate 4 (.advance 1) ++ List.replicate 4 (.advance 2) ++
    List.replicate 4 (.advance 1) ++ List.replicate 4 (.advance 2)

theorem entry_exclusion_fails :
    ¬ ∀ s p q, system.Reachable s → p ≠ q → ¬ (s.Inside p ∧ s.Inside q) := by
  intro claim
  obtain ⟨s, reachable, live, first, live', second⟩ :=
    Transition.System.exists_reachable (S := system)
      (P := fun s => s.alive 1 = true ∧ s.procs 1 = .inside 1 ∧ s.alive 2 = true ∧
        s.procs 2 = .inside 2)
      twoRecoveries ⟨fun _ _ => true, rfl⟩ (by decide +kernel)
  exact claim s 1 2 reachable (by decide) ⟨⟨live, 1, first⟩, live', 2, second⟩

end Quickchr.EntryLock
