import Quickchr.Lock.Protocol
import Mathlib.Tactic.Common

/-!
# The invariant of the lock protocol

Within one incarnation the top number never goes down and the record at the top is never
replaced, so what a live process has read of the current incarnation stays true while the
number it judged is still the top. `Local.Sound` says this for each point of the program;
`DirStep` says once what a step may do to the directory, and `Kept` what that leaves of
another process's view.
-/
namespace Quickchr.Lock

/-- Free for the taking: a released marker, or the record of a dead process. -/
def LockRecord.Free (alive : Pid → Bool) (r : LockRecord) : Prop :=
  r.released = true ∨ alive r.pid = false

/-- The live record of a claim by `p`. -/
structure LockRecord.Of (r : LockRecord) (p : Pid) : Prop where
  pid : r.pid = p
  live : r.released = false

theorem LockRecord.Of.not_free {alive : Pid → Bool} {r : LockRecord} {p : Pid}
    (h : r.Of p) (live : alive p = true) : ¬ r.Free alive := by
  rintro (released | dead)
  · rw [h.live] at released; cases released
  · rw [h.pid, live] at dead; cases dead

/-- A claim whose record is linked and not yet judged. -/
def Local.inFlight : Local → Option Claim
  | .unlinkTemp (.claim c) _ .linked | .checkTop c | .checkJudged c _ | .checkIncarnation c => some c
  | _ => none

/-- A claim whose record is linked and may still be unlinked by its own process. -/
def Local.posted : Local → Option Claim
  | .unlinkClaim c => some c
  | l => l.inFlight

/-- The lock a process holds: from the verdict of `claim()` on, and until `release()` has
published its marker or returned. -/
def Local.holding : Local → Option HeldLock
  | .collectList h _ | .collectNext h _ _ | .held h | .readOwn h | .writeTemp (.marker h _)
  | .link (.marker h _) _ | .unlinkTemp (.marker h _) _ .failed => some h
  | _ => none

def Local.owns (l : Local) : Option HeldLock :=
  match l.inFlight with
  | some c => some c.heldLock
  | none => l.holding

/-- The incarnation in the names a process still carries. -/
def Local.incarnation : Local → Option Uuid
  | .generations _ id | .inspect _ id _ | .isAlive _ id _ _ => some id
  | .writeTemp (.claim c) | .link (.claim c) _ | .unlinkTemp (.claim c) _ _ | .checkTop c
  | .checkJudged c _ | .checkIncarnation c | .unlinkClaim c => some c.id
  | .writeTemp (.marker h _) | .link (.marker h _) _ | .unlinkTemp (.marker h _) _ _
  | .collectList h _ | .collectNext h _ _ | .held h | .readOwn h => some h.id
  | _ => none

/-- An incarnation id that is drawn and not yet published. -/
def Local.pending : Local → Option Uuid
  | .writeTemp (.id _ u) | .link (.id _ u) _ => some u
  | _ => none

/-- A claim is number one with nothing judged, or follows the record it judged. -/
def Claim.Numbered (c : Claim) : Prop :=
  match c.judgedRaw with
  | none => c.gen = 1
  | some _ => 2 ≤ c.gen

/-- Before the link: if nothing was added since, the record judged is still the top. -/
structure Claim.Judged (c : Claim) (dir : Option LockDir) (alive : Pid → Bool) (p : Pid) :
    Prop where
  own : c.record.Of p
  numbered : c.Numbered
  free : ∀ raw, c.judgedRaw = some raw → raw.Free alive
  bound : ∀ d, Current dir c.id d → c.gen ≤ d.top c.id + 1
  follows : ∀ d raw, Current dir c.id d → c.judgedRaw = some raw → c.gen = d.top c.id + 1 →
    d.read c.id (d.top c.id) = some raw

/-- After the link: if this is the top, it is this claim's record and follows what was
judged. -/
structure Claim.Linked (c : Claim) (dir : Option LockDir) (p : Pid) : Prop where
  own : c.record.Of p
  numbered : c.Numbered
  bound : ∀ d, Current dir c.id d → c.gen ≤ d.top c.id
  top : ∀ d, Current dir c.id d → c.gen = d.top c.id → d.read c.id c.gen = some c.record
  follows : ∀ d raw, Current dir c.id d → c.judgedRaw = some raw → c.gen = d.top c.id →
    d.read c.id (c.gen - 1) = some raw

structure HeldLock.Tops (h : HeldLock) (dir : Option LockDir) (p : Pid) : Prop where
  own : h.record.Of p
  top : ∀ d, Current dir h.id d → d.top h.id = h.gen
  read : ∀ d, Current dir h.id d → d.read h.id h.gen = some h.record

def Local.Sound (dir : Option LockDir) (alive : Pid → Bool) (p : Pid) : Local → Prop
  | .inspect _ id gen => 1 ≤ gen ∧ ∀ d, Current dir id d → gen ≤ d.top id
  | .isAlive _ id gen raw => 1 ≤ gen ∧ ∀ d, Current dir id d →
      gen ≤ d.top id ∧ (gen = d.top id → d.read id gen = some raw)
  | .writeTemp (.claim c) | .link (.claim c) _ => c.Judged dir alive p
  | .unlinkTemp (.claim c) _ .linked | .checkTop c => c.Linked dir p
  | .checkJudged c isTop => c.Linked dir p ∧ ∀ d, Current dir c.id d →
      if isTop then c.gen = d.top c.id else c.gen < d.top c.id
  | .checkIncarnation c => c.Linked dir p ∧ ∀ d, Current dir c.id d → c.gen = d.top c.id
  | .unlinkClaim c => ∀ d, Current dir c.id d → c.gen < d.top c.id
  | .collectList h _ | .held h | .readOwn h => h.Tops dir p
  | .collectNext h _ gens => h.Tops dir p ∧ ∀ g ∈ gens, g < h.gen
  | .writeTemp (.marker h m) => h.Tops dir p ∧ m.released = true
  | .link (.marker h m) temp => h.Tops dir p ∧ m.released = true ∧
      ∀ d, Current dir h.id d → (p, temp) ∈ d.temps
  | .unlinkTemp (.marker h _) _ .failed => h.Tops dir p
  | .unlinkTemp (.marker h _) _ _ => ∀ d, Current dir h.id d → h.gen < d.top h.id
  | _ => True

/-- An incarnation id somebody can already name. -/
def State.Known (s : State) (u : Uuid) : Prop :=
  s.currentId = some u ∨ (∃ p, (s.procs p).incarnation = some u) ∨
    ∃ d g, s.dir = some d ∧ (u, g) ∈ d.records

structure Inv (s : State) : Prop where
  sound : ∀ p, s.alive p = true → (s.procs p).Sound s.dir s.alive p
  /-- While a claim is on top and waits for its verdict, nobody may unlink the record it
  judged. -/
  apart : ∀ p q c c' d, s.alive p = true → s.alive q = true → (s.procs p).inFlight = some c →
    (s.procs q).posted = some c' → c'.id = c.id → Current s.dir c.id d → c.gen = d.top c.id →
    c'.gen + 1 ≠ c.gen
  /-- A live record on top belongs to a process that answers for it. -/
  liveTop : ∀ id d r, Current s.dir id d → d.read id (d.top id) = some r → r.released = false →
    s.alive r.pid = true → (s.procs r.pid).owns = some ⟨id, d.top id, r⟩
  positive : ∀ d id g, s.dir = some d → (id, g) ∈ d.records → 1 ≤ g
  known_lt : ∀ u, s.Known u → u < s.uuids
  pending_lt : ∀ p u, (s.procs p).pending = some u → u < s.uuids
  pending_new : ∀ p u, (s.procs p).pending = some u → ¬ s.Known u
  pending_ne : ∀ p q u, p ≠ q → (s.procs p).pending = some u → (s.procs q).pending ≠ some u

/-- No claim of another live process that follows record `g` of `id` waits on top. -/
def State.Spares (s : State) (p : Pid) (d : LockDir) (id : Uuid) (g : ℕ) : Prop :=
  g < d.top id ∧ ∀ q c, q ≠ p → s.alive q = true → (s.procs q).inFlight = some c → c.id = id →
    c.gen = d.top id → g + 1 ≠ c.gen

/-- Nothing is put on top of the live record of another process. -/
def State.Follows (s : State) (p : Pid) (d : LockDir) (id : Uuid) (g : ℕ) : Prop :=
  g ≤ d.top id + 1 ∧ (g = d.top id + 1 → ∀ raw, d.read id (d.top id) = some raw →
    raw.Free s.alive ∨ raw.pid = p)

inductive DirStep (s : State) (p : Pid) : Option LockDir → Prop
  | same : DirStep s p s.dir
  | mkdir : s.dir = none → DirStep s p (some .empty)
  | temps {d : LockDir} {T : Finset (Pid × Uuid)} : s.dir = some d →
      (∀ q u, q ≠ p → (q, u) ∈ d.temps → (q, u) ∈ T) → DirStep s p (some { d with temps := T })
  | publish {d : LockDir} {u : Uuid} : s.dir = some d → d.id = none →
      (s.procs p).pending = some u → DirStep s p (some { d with id := some u })
  | put {d : LockDir} {id : Uuid} {g : ℕ} {r : LockRecord} : s.dir = some d →
      d.read id g = none → 1 ≤ g → (s.procs p).incarnation = some id →
      (r.released = true ∨ r.pid = p) → (d.id = some id → s.Follows p d id g) →
      DirStep s p (some (d.put id g r))
  | unlink {d : LockDir} {id : Uuid} {g : ℕ} : s.dir = some d →
      (d.id = some id → s.Spares p d id g) → DirStep s p (some (d.unlink id g))

/-- What a step of `p` leaves of incarnation `id` to everybody else. -/
structure Kept (s : State) (p : Pid) (id : Uuid) (d d' : LockDir) : Prop where
  top_le : d.top id ≤ d'.top id
  temps : ∀ q u, q ≠ p → (q, u) ∈ d.temps → (q, u) ∈ d'.temps
  read : ∀ g a, d.read id g = some a → d'.read id g = some a ∨ s.Spares p d id g
  back : ∀ g a, d'.read id g = some a → d.read id g = some a ∨ a.released = true ∨ a.pid = p
  grown : d.top id < d'.top id → ∀ raw, d.read id (d.top id) = some raw →
    raw.Free s.alive ∨ raw.pid = p

theorem Kept.refl (s : State) (p : Pid) (id : Uuid) (d : LockDir) : Kept s p id d d :=
  ⟨le_rfl, fun _ _ _ h => h, fun _ _ h => .inl h, fun _ _ h => .inl h,
    fun h => absurd h (lt_irrefl _)⟩

theorem Kept.put {s : State} {p : Pid} {id j : Uuid} {g : ℕ} {r : LockRecord} {d : LockDir}
    (absent : d.read j g = none) (mine : r.released = true ∨ r.pid = p)
    (cur : d.id = some id) (follows : d.id = some j → s.Follows p d j g) :
    Kept s p id d (d.put j g r) := by
  by_cases same : j = id
  · subst j
    obtain ⟨bound, pred⟩ := follows cur
    refine ⟨by simp, fun _ _ _ h => h, ?_, ?_, ?_⟩
    · intro n a h
      left
      rw [LockDir.put_read_ne]
      · exact h
      · rintro ⟨⟩
        rw [absent] at h; cases h
    · intro n a h
      by_cases eq : n = g
      · subst n
        rw [LockDir.put_read_self, Option.some.injEq] at h
        subst a
        exact .inr mine
      · rw [LockDir.put_read_ne (by simpa using eq)] at h
        exact .inl h
    · intro grown
      apply pred
      simp only [LockDir.put_top_self, lt_max_iff, lt_irrefl, or_false] at grown
      omega
  · have ne : ∀ n, (id, n) ≠ (j, g) := fun n eq => same (Prod.mk.inj eq).1.symm
    refine ⟨(LockDir.put_top_ne same).ge, fun _ _ _ h => h, ?_, ?_, ?_⟩
    · intro n a h
      exact .inl ((LockDir.put_read_ne (ne n)).trans h)
    · intro n a h
      exact .inl ((LockDir.put_read_ne (ne n)).symm.trans h)
    · intro grown
      exact absurd grown (by rw [LockDir.put_top_ne same]; exact lt_irrefl _)

theorem Kept.unlink {s : State} {p : Pid} {id j : Uuid} {g : ℕ} {d : LockDir}
    (cur : d.id = some id) (spares : d.id = some j → s.Spares p d j g) :
    Kept s p id d (d.unlink j g) := by
  have top : (d.unlink j g).top id = d.top id := by
    by_cases same : j = id
    · subst j; exact LockDir.unlink_top_of_lt (spares cur).1
    · exact LockDir.unlink_top_ne same
  refine ⟨top.ge, fun _ _ _ h => h, ?_, ?_, fun h => absurd h (by rw [top]; exact lt_irrefl _)⟩
  · intro n a h
    by_cases eq : (id, n) = (j, g)
    · cases eq
      exact .inr (spares cur)
    · exact .inl ((LockDir.unlink_read_ne eq).trans h)
  · intro n a h
    by_cases eq : (id, n) = (j, g)
    · cases eq
      exact absurd h (by simp [LockDir.read, LockDir.unlink])
    · exact .inl ((LockDir.unlink_read_ne eq).symm.trans h)

/-- Whoever looks at the current incarnation after a step either saw it before, or it was
just published and has no record yet. -/
theorem DirStep.current {s : State} {p : Pid} {dir : Option LockDir} (h : DirStep s p dir)
    {id : Uuid} {d' : LockDir} (cur : Current dir id d') :
    (∃ d, Current s.dir id d ∧ Kept s p id d d') ∨
      ((s.procs p).pending = some id ∧ ∃ d, s.dir = some d ∧ d'.records = d.records) := by
  obtain ⟨isDir, isId⟩ := cur
  cases h with
  | same => exact .inl ⟨d', ⟨isDir, isId⟩, .refl s p id d'⟩
  | mkdir => cases isDir; cases isId
  | temps at_ sub =>
      cases isDir
      exact .inl ⟨_, ⟨at_, isId⟩, le_rfl, sub, fun _ _ h => .inl h, fun _ _ h => .inl h,
        fun h => absurd h (lt_irrefl _)⟩
  | publish at_ none pend =>
      cases isDir; cases isId
      exact .inr ⟨pend, _, at_, rfl⟩
  | put at_ absent pos inc mine follows =>
      cases isDir
      exact .inl ⟨_, ⟨at_, isId⟩, .put absent mine isId follows⟩
  | unlink at_ spares =>
      cases isDir
      exact .inl ⟨_, ⟨at_, isId⟩, .unlink isId spares⟩

theorem DirStep.keys {s : State} {p : Pid} {dir : Option LockDir} (h : DirStep s p dir)
    {d' : LockDir} {id : Uuid} {g : ℕ} (isDir : dir = some d') (member : (id, g) ∈ d'.records) :
    (∃ d, s.dir = some d ∧ (id, g) ∈ d.records) ∨
      (1 ≤ g ∧ (s.procs p).incarnation = some id) := by
  cases h with
  | same => exact .inl ⟨d', isDir, member⟩
  | mkdir => cases isDir; exact absurd member Finmap.notMem_empty
  | temps at_ _ => cases isDir; exact .inl ⟨_, at_, member⟩
  | publish at_ _ _ => cases isDir; exact .inl ⟨_, at_, member⟩
  | put at_ absent pos inc mine follows =>
      cases isDir
      rcases Finmap.mem_insert.mp member with eq | old
      · cases eq; exact .inr ⟨pos, inc⟩
      · exact .inl ⟨_, at_, old⟩
  | unlink at_ _ =>
      cases isDir
      exact .inl ⟨_, at_, (Finmap.mem_erase.mp member).2⟩

end Quickchr.Lock
