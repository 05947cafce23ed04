import Quickchr.Lock.Invariant

/-!
# Every step keeps the invariant

`Local.Sound.frame`: what one process relies on survives a step of another.
`Inv.move`: it is enough to look at the stepping process. The rest goes through the
program point by point.
-/
namespace Quickchr.Lock

section Frame

variable {s : State} {p q : Pid} {dir : Option LockDir}

/-- Every view of incarnation `id` after the step extends one from before it. -/
def View (s : State) (p : Pid) (dir : Option LockDir) (id : Uuid) : Prop :=
  ∀ d', Current dir id d' → ∃ d, Current s.dir id d ∧ Kept s p id d d'

theorem Claim.Judged.frame {c : Claim} (view : View s p dir c.id)
    (h : c.Judged s.dir s.alive q) : c.Judged dir s.alive q := by
  refine ⟨h.own, h.numbered, h.free, ?_, ?_⟩
  · intro d' cur
    obtain ⟨d, old, kept⟩ := view d' cur
    have := h.bound d old
    have := kept.top_le
    omega
  · intro d' raw cur judged eq
    obtain ⟨d, old, kept⟩ := view d' cur
    have top : d'.top c.id = d.top c.id := by
      have := h.bound d old
      have := kept.top_le
      omega
    rw [top] at eq ⊢
    exact (kept.read _ _ (h.follows d raw old judged eq)).resolve_right
      fun spares => lt_irrefl _ spares.1

/-- A process that is not on top when its claim is, cannot lose the record below it. -/
theorem Claim.Linked.frame {c : Claim} (other : q ≠ p) (live : s.alive q = true)
    (flight : (s.procs q).inFlight = some c) (view : View s p dir c.id)
    (h : c.Linked s.dir q) : c.Linked dir q := by
  have same : ∀ d', Current dir c.id d' → c.gen = d'.top c.id →
      ∃ d, Current s.dir c.id d ∧ Kept s p c.id d d' ∧ c.gen = d.top c.id := by
    intro d' cur eq
    obtain ⟨d, old, kept⟩ := view d' cur
    refine ⟨d, old, kept, ?_⟩
    have := h.bound d old
    have := kept.top_le
    omega
  refine ⟨h.own, h.numbered, ?_, ?_, ?_⟩
  · intro d' cur
    obtain ⟨d, old, kept⟩ := view d' cur
    exact (h.bound d old).trans kept.top_le
  · intro d' cur eq
    obtain ⟨d, old, kept, top⟩ := same d' cur eq
    exact (kept.read _ _ (h.top d old top)).resolve_right fun spares => by
      have := spares.1
      omega
  · intro d' raw cur judged eq
    obtain ⟨d, old, kept, top⟩ := same d' cur eq
    refine (kept.read _ _ (h.follows d raw old judged top)).resolve_right fun spares => ?_
    have two : 2 ≤ c.gen := by simpa only [Claim.Numbered, judged] using h.numbered
    exact spares.2 q c other live flight rfl top (by omega)

theorem Kept.top_eq {id : Uuid} {d d' : LockDir} {r : LockRecord} (kept : Kept s p id d d')
    (other : q ≠ p) (live : s.alive q = true) (own : r.Of q)
    (read : d.read id (d.top id) = some r) : d'.top id = d.top id := by
  by_contra ne
  have grown : d.top id < d'.top id := lt_of_le_of_ne kept.top_le (Ne.symm ne)
  rcases kept.grown grown r read with free | mine
  · exact own.not_free live free
  · exact other (own.pid.symm.trans mine)

theorem HeldLock.Tops.frame {h : HeldLock} (other : q ≠ p) (live : s.alive q = true)
    (view : View s p dir h.id) (tops : h.Tops s.dir q) : h.Tops dir q := by
  have step : ∀ d', Current dir h.id d' → d'.top h.id = h.gen ∧
      d'.read h.id h.gen = some h.record := by
    intro d' cur
    obtain ⟨d, old, kept⟩ := view d' cur
    have top := tops.top d old
    have read := tops.read d old
    refine ⟨(kept.top_eq other live tops.own (top.symm ▸ read)).trans top, ?_⟩
    exact (kept.read _ _ read).resolve_right fun spares => by
      have := spares.1
      omega
  exact ⟨tops.own, fun d' cur => (step d' cur).1, fun d' cur => (step d' cur).2⟩

theorem top_frame {c : Claim} (other : q ≠ p) (live : s.alive q = true)
    (view : View s p dir c.id) (h : c.Linked s.dir q)
    (top : ∀ d, Current s.dir c.id d → c.gen = d.top c.id) :
    ∀ d', Current dir c.id d' → c.gen = d'.top c.id := by
  intro d' cur
  obtain ⟨d, old, kept⟩ := view d' cur
  have read := h.top d old (top d old)
  rw [top d old] at read
  exact (top d old).trans (kept.top_eq other live h.own read).symm

theorem below_frame {id : Uuid} {gen : ℕ} (view : View s p dir id)
    (below : ∀ d, Current s.dir id d → gen < d.top id) :
    ∀ d', Current dir id d' → gen < d'.top id := by
  intro d' cur
  obtain ⟨d, old, kept⟩ := view d' cur
  exact (below d old).trans_le kept.top_le

theorem Local.Sound.frame (other : q ≠ p) (live : s.alive q = true)
    (view : ∀ id, (s.procs q).incarnation = some id → View s p dir id)
    (h : (s.procs q).Sound s.dir s.alive q) : (s.procs q).Sound dir s.alive q := by
  cases l : s.procs q with
  | idle | ensureLockDir | readId | readIdBack | generations => trivial
  | inspect r id gen =>
      rw [l] at h view
      refine ⟨h.1, fun d' cur => ?_⟩
      obtain ⟨d, old, kept⟩ := view id rfl d' cur
      exact (h.2 d old).trans kept.top_le
  | isAlive r id gen raw =>
      rw [l] at h view
      refine ⟨h.1, fun d' cur => ?_⟩
      obtain ⟨d, old, kept⟩ := view id rfl d' cur
      obtain ⟨bound, seen⟩ := h.2 d old
      refine ⟨bound.trans kept.top_le, fun eq => ?_⟩
      have top : gen = d.top id := by
        have := kept.top_le
        omega
      refine (kept.read _ _ (seen top)).resolve_right fun spares => ?_
      exact absurd spares.1 (by omega)
  | writeTemp n =>
      rw [l] at h view
      cases n with
      | id => trivial
      | claim c => exact Claim.Judged.frame (view c.id rfl) h
      | marker k m => exact ⟨h.1.frame other live (view k.id rfl), h.2⟩
  | link n temp =>
      rw [l] at h view
      cases n with
      | id => trivial
      | claim c => exact Claim.Judged.frame (view c.id rfl) h
      | marker k m =>
          refine ⟨h.1.frame other live (view k.id rfl), h.2.1, fun d' cur => ?_⟩
          obtain ⟨d, old, kept⟩ := view k.id rfl d' cur
          exact kept.temps q temp other (h.2.2 d old)
  | unlinkTemp n temp result =>
      cases n with
      | id => trivial
      | claim c =>
          cases result with
          | linked =>
              have fl : (s.procs q).inFlight = some c := by rw [l]; rfl
              rw [l] at h view
              exact Claim.Linked.frame other live fl (view c.id rfl) h
          | «exists» | missing | failed => trivial
      | marker k m =>
          rw [l] at h view
          cases result with
          | failed => exact HeldLock.Tops.frame other live (view k.id rfl) h
          | linked | «exists» | missing => exact below_frame (view k.id rfl) h
  | checkTop c =>
      have fl : (s.procs q).inFlight = some c := by rw [l]; rfl
      rw [l] at h view
      exact Claim.Linked.frame other live fl (view c.id rfl) h
  | checkJudged c isTop =>
      have fl : (s.procs q).inFlight = some c := by rw [l]; rfl
      rw [l] at h view
      refine ⟨Claim.Linked.frame other live fl (view c.id rfl) h.1, ?_⟩
      cases isTop with
      | true => exact top_frame other live (view c.id rfl) h.1 h.2
      | false => exact below_frame (view c.id rfl) h.2
  | checkIncarnation c =>
      have fl : (s.procs q).inFlight = some c := by rw [l]; rfl
      rw [l] at h view
      exact ⟨Claim.Linked.frame other live fl (view c.id rfl) h.1,
        top_frame other live (view c.id rfl) h.1 h.2⟩
  | unlinkClaim c =>
      rw [l] at h view
      exact below_frame (view c.id rfl) h
  | collectList k a =>
      rw [l] at h view
      exact HeldLock.Tops.frame other live (view k.id rfl) h
  | collectNext k a gens =>
      rw [l] at h view
      exact ⟨h.1.frame other live (view k.id rfl), h.2⟩
  | held k =>
      rw [l] at h view
      exact HeldLock.Tops.frame other live (view k.id rfl) h
  | readOwn k =>
      rw [l] at h view
      exact HeldLock.Tops.frame other live (view k.id rfl) h

end Frame

theorem Local.posted_of_inFlight {l : Local} {c : Claim} (h : l.inFlight = some c) :
    l.posted = some c := by
  cases l <;> first | exact h | cases h

theorem Claim.Numbered.pos {c : Claim} (h : c.Numbered) : 1 ≤ c.gen := by
  unfold Claim.Numbered at h
  split at h <;> omega

theorem Local.Sound.linked {dir : Option LockDir} {alive : Pid → Bool} {p : Pid} {l : Local}
    {c : Claim} (h : l.Sound dir alive p) (flight : l.inFlight = some c) : c.Linked dir p := by
  cases l with
  | unlinkTemp n temp result =>
      cases n with
      | claim c' => cases result <;> cases flight; exact h
      | id | marker => cases flight
  | checkTop c' => cases flight; exact h
  | checkJudged c' isTop => cases flight; exact h.1
  | checkIncarnation c' => cases flight; exact h.1
  | _ => cases flight

theorem Local.incarnation_of_inFlight {l : Local} {c : Claim} (h : l.inFlight = some c) :
    l.incarnation = some c.id := by
  cases l with
  | unlinkTemp n temp result =>
      cases n with
      | claim c' => cases result <;> cases h; rfl
      | id | marker => cases h
  | checkTop | checkJudged | checkIncarnation => cases h; rfl
  | _ => cases h

/-- What is left to check of a step by `p` to the state `t`, with `p` now at `l`. -/
structure Move (s t : State) (p : Pid) (l : Local) : Prop where
  procs : t.procs = Function.update s.procs p l
  alive : t.alive = s.alive
  uuids : s.uuids ≤ t.uuids
  dir : DirStep s p t.dir
  sound : l.Sound t.dir s.alive p
  flight : ∀ c, l.inFlight = some c → (s.procs p).inFlight = some c ∨
    ∀ d q c', Current t.dir c.id d → c.gen = d.top c.id → q ≠ p → s.alive q = true →
      (s.procs q).posted = some c' → c'.id = c.id → c'.gen + 1 ≠ c.gen
  posted : ∀ c', l.posted = some c' → (s.procs p).posted = some c' ∨
    ∀ d q c, Current t.dir c.id d → c.gen = d.top c.id → q ≠ p → s.alive q = true →
      (s.procs q).inFlight = some c → c'.id = c.id → c'.gen + 1 ≠ c.gen
  owns : ∀ id d r, Current t.dir id d → d.read id (d.top id) = some r → r.Of p →
    l.owns = some ⟨id, d.top id, r⟩
  known : ∀ u, l.incarnation = some u → (s.procs p).incarnation = some u ∨ s.currentId = some u
  pending : ∀ u, l.pending = some u → ((s.procs p).pending = some u ∧ t.currentId = s.currentId) ∨
    (u = s.uuids ∧ s.uuids < t.uuids)

def Moves (s t : State) (p : Pid) : Prop := ∃ l, Move s t p l

namespace Inv

variable {s t : State} {p q : Pid} {l : Local} {dir : Option LockDir}

theorem view (hs : Inv s) (step : DirStep s p dir) {id : Uuid}
    (carried : (s.procs q).incarnation = some id) : View s p dir id := by
  intro d' cur
  rcases step.current cur with old | ⟨pend, _⟩
  · exact old
  · exact absurd (.inr (.inl ⟨q, carried⟩)) (hs.pending_new p id pend)

theorem flight_top (hs : Inv s) (step : DirStep s p dir) {c : Claim} {d' : LockDir}
    (live : s.alive q = true) (flight : (s.procs q).inFlight = some c)
    (cur : Current dir c.id d') (top : c.gen = d'.top c.id) :
    ∃ d, Current s.dir c.id d ∧ c.gen = d.top c.id := by
  obtain ⟨d, old, kept⟩ := hs.view step (Local.incarnation_of_inFlight flight) d' cur
  refine ⟨d, old, ?_⟩
  have := ((hs.sound q live).linked flight).bound d old
  have := kept.top_le
  omega

theorem procs_ne (m : Move s t p l) (ne : q ≠ p) : t.procs q = s.procs q := by
  rw [m.procs, Function.update_of_ne ne]

theorem procs_self (m : Move s t p l) : t.procs p = l := by
  rw [m.procs, Function.update_self]

theorem apart_move (hs : Inv s) (m : Move s t p l) {q r : Pid} {c c' : Claim} {d : LockDir}
    (liveQ : s.alive q = true) (liveR : s.alive r = true) (flight : (t.procs q).inFlight = some c)
    (posted : (t.procs r).posted = some c') (id : c'.id = c.id) (cur : Current t.dir c.id d)
    (top : c.gen = d.top c.id) : c'.gen + 1 ≠ c.gen := by
  have before : ∀ q r, s.alive q = true → s.alive r = true → (s.procs q).inFlight = some c →
      (s.procs r).posted = some c' → c'.gen + 1 ≠ c.gen := by
    intro q r liveQ liveR flight posted
    obtain ⟨d₀, old, top₀⟩ := hs.flight_top m.dir liveQ flight cur top
    exact hs.apart q r c c' d₀ liveQ liveR flight posted id old top₀
  by_cases hq : q = p
  · subst q
    rw [procs_self m] at flight
    by_cases hr : r = p
    · subst r
      rw [procs_self m, Local.posted_of_inFlight flight] at posted
      cases posted
      omega
    · rw [procs_ne m hr] at posted
      rcases m.flight c flight with old | new
      · exact before p r liveQ liveR old posted
      · exact new d r c' cur top hr liveR posted id
  · rw [procs_ne m hq] at flight
    by_cases hr : r = p
    · subst r
      rw [procs_self m] at posted
      rcases m.posted c' posted with old | new
      · exact before q p liveQ liveR flight old
      · exact new d q c cur top hq liveQ flight id
    · rw [procs_ne m hr] at posted
      exact before q r liveQ liveR flight posted

theorem liveTop_move (hs : Inv s) (m : Move s t p l) {id : Uuid} {d' : LockDir}
    {r : LockRecord} (cur : Current t.dir id d') (read : d'.read id (d'.top id) = some r)
    (unreleased : r.released = false) (live : s.alive r.pid = true) :
    (t.procs r.pid).owns = some ⟨id, d'.top id, r⟩ := by
  by_cases mine : r.pid = p
  · rw [mine, procs_self m]
    exact m.owns id d' r cur read ⟨mine, unreleased⟩
  · rw [procs_ne m mine]
    rcases m.dir.current cur with ⟨d, old, kept⟩ | ⟨pend, d, isDir, records⟩
    · have before : d.read id (d'.top id) = some r := by
        rcases kept.back _ _ read with h | h | h
        · exact h
        · rw [unreleased] at h; cases h
        · exact absurd h mine
      have top : d'.top id = d.top id := le_antisymm (LockDir.le_top before) kept.top_le
      rw [top] at before ⊢
      exact hs.liveTop id d r old before unreleased live
    · have member : (id, d'.top id) ∈ d.records := records ▸ LockDir.mem_of_read read
      exact absurd (.inr (.inr ⟨d, _, isDir, member⟩)) (hs.pending_new p id pend)

theorem known_move (m : Move s t p l) {u : Uuid} (h : t.Known u) :
    s.Known u ∨ (t.currentId = some u ∧ (s.procs p).pending = some u) := by
  rcases h with cur | ⟨q, carried⟩ | ⟨d', g, isDir, member⟩
  · obtain ⟨d', isDir, isId⟩ := Option.bind_eq_some_iff.mp cur
    rcases m.dir.current ⟨isDir, isId⟩ with ⟨d, old, _⟩ | ⟨pend, _⟩
    · exact .inl (.inl (Option.bind_eq_some_iff.mpr ⟨d, old⟩))
    · exact .inr ⟨cur, pend⟩
  · left
    by_cases hq : q = p
    · subst q
      rw [procs_self m] at carried
      rcases m.known u carried with old | cur
      · exact .inr (.inl ⟨p, old⟩)
      · exact .inl cur
    · rw [procs_ne m hq] at carried
      exact .inr (.inl ⟨q, carried⟩)
  · left
    rcases m.dir.keys isDir member with ⟨d, old, mem⟩ | ⟨_, carried⟩
    · exact .inr (.inr ⟨d, g, old, mem⟩)
    · exact .inr (.inl ⟨p, carried⟩)

/-- The invariant rule of the protocol: a step keeps it when the stepping process does. -/
theorem move (hs : Inv s) (m : Move s t p l) : Inv t := by
  have knownLt : ∀ u, t.Known u → u < s.uuids := by
    intro u known
    rcases known_move m known with old | ⟨_, pend⟩
    · exact hs.known_lt u old
    · exact hs.pending_lt p u pend
  have pendingSplit : ∀ u, l.pending = some u → (s.procs p).pending = some u ∨
      (u = s.uuids ∧ s.uuids < t.uuids) := fun u h => (m.pending u h).imp_left And.left
  constructor
  · intro q live
    rw [m.alive] at live ⊢
    by_cases hq : q = p
    · subst q
      rw [procs_self m]
      exact m.sound
    · rw [procs_ne m hq]
      exact (hs.sound q live).frame hq live fun id carried => hs.view m.dir carried
  · intro q r c c' d liveQ liveR flight posted id cur top
    rw [m.alive] at liveQ liveR
    exact hs.apart_move m liveQ liveR flight posted id cur top
  · intro id d r cur read unreleased live
    rw [m.alive] at live
    exact hs.liveTop_move m cur read unreleased live
  · intro d id g isDir member
    rcases m.dir.keys isDir member with ⟨d₀, old, mem⟩ | ⟨pos, _⟩
    · exact hs.positive d₀ id g old mem
    · exact pos
  · intro u known
    exact (knownLt u known).trans_le m.uuids
  · intro q u pend
    by_cases hq : q = p
    · subst q
      rw [procs_self m] at pend
      rcases pendingSplit u pend with old | ⟨rfl, lt⟩
      · exact (hs.pending_lt p u old).trans_le m.uuids
      · exact lt
    · rw [procs_ne m hq] at pend
      exact (hs.pending_lt q u pend).trans_le m.uuids
  · intro q u pend known
    by_cases hq : q = p
    · subst q
      rw [procs_self m] at pend
      rcases m.pending u pend with ⟨old, same⟩ | ⟨rfl, _⟩
      · rcases known_move m known with before | ⟨cur, _⟩
        · exact hs.pending_new p u old before
        · exact hs.pending_new p u old (.inl (same ▸ cur))
      · exact lt_irrefl _ (knownLt _ known)
    · rw [procs_ne m hq] at pend
      rcases known_move m known with before | ⟨_, mine⟩
      · exact hs.pending_new q u pend before
      · exact hs.pending_ne q p u hq pend mine
  · intro q r u ne pendQ pendR
    by_cases hq : q = p
    · subst q
      rw [procs_self m] at pendQ
      rw [procs_ne m (Ne.symm ne)] at pendR
      rcases pendingSplit u pendQ with old | ⟨rfl, _⟩
      · exact hs.pending_ne p r u ne old pendR
      · exact lt_irrefl _ (hs.pending_lt r _ pendR)
    · rw [procs_ne m hq] at pendQ
      by_cases hr : r = p
      · subst r
        rw [procs_self m] at pendR
        rcases pendingSplit u pendR with old | ⟨rfl, _⟩
        · exact hs.pending_ne q p u ne pendQ old
        · exact lt_irrefl _ (hs.pending_lt q _ pendQ)
      · rw [procs_ne m hr] at pendR
        exact hs.pending_ne q r u ne pendQ pendR

theorem owned (hs : Inv s) (live : s.alive p = true) {id : Uuid} {d : LockDir} {r : LockRecord}
    (cur : Current s.dir id d) (read : d.read id (d.top id) = some r) (own : r.Of p) :
    (s.procs p).owns = some ⟨id, d.top id, r⟩ := by
  have := hs.liveTop id d r cur read own.live (own.pid ▸ live)
  rwa [own.pid] at this

end Inv

/-- `dir'` is `dir` up to the temp files, of which the others' are all there. -/
inductive SameRecords (p : Pid) (dir : Option LockDir) : Option LockDir → Prop
  | same : SameRecords p dir dir
  | temps {d : LockDir} {T : Finset (Pid × Uuid)} : dir = some d →
      (∀ q u, q ≠ p → (q, u) ∈ d.temps → (q, u) ∈ T) →
      SameRecords p dir (some { d with temps := T })

theorem SameRecords.current {p : Pid} {dir dir' : Option LockDir} (h : SameRecords p dir dir')
    {id : Uuid} {d' : LockDir} (cur : Current dir' id d') :
    ∃ d, Current dir id d ∧ d'.top id = d.top id ∧ ∀ g, d'.read id g = d.read id g := by
  cases h with
  | same => exact ⟨d', cur, rfl, fun _ => rfl⟩
  | temps isDir _ =>
      obtain ⟨eq, isId⟩ := cur
      cases eq
      exact ⟨_, ⟨isDir, isId⟩, rfl, fun _ => rfl⟩

theorem SameRecords.dirStep {s : State} {p : Pid} {dir : Option LockDir}
    (h : SameRecords p s.dir dir) : DirStep s p dir := by
  cases h with
  | same => exact .same
  | temps isDir sub => exact .temps isDir sub

theorem SameRecords.currentId {p : Pid} {s t : State} (h : SameRecords p s.dir t.dir) :
    t.currentId = s.currentId := by
  unfold State.currentId
  generalize t.dir = dir at h
  cases h with
  | same => rfl
  | temps isDir _ => rw [isDir]; rfl

theorem Inv.quiet {s t : State} {p : Pid} {l : Local} (hs : Inv s) (live : s.alive p = true)
    (procs : t.procs = Function.update s.procs p l) (alive : t.alive = s.alive)
    (uuids : s.uuids ≤ t.uuids) (dir : SameRecords p s.dir t.dir)
    (sound : l.Sound t.dir s.alive p)
    (flight : ∀ c, l.inFlight = some c → (s.procs p).inFlight = some c)
    (posted : ∀ c, l.posted = some c → (s.procs p).posted = some c)
    (owns : ∀ id d r, Current s.dir id d → d.read id (d.top id) = some r →
      (s.procs p).owns = some ⟨id, d.top id, r⟩ → l.owns = some ⟨id, d.top id, r⟩)
    (known : ∀ u, l.incarnation = some u →
      (s.procs p).incarnation = some u ∨ s.currentId = some u)
    (pending : ∀ u, l.pending = some u → (s.procs p).pending = some u ∨
      (u = s.uuids ∧ s.uuids < t.uuids)) : Moves s t p := by
  refine ⟨l, procs, alive, uuids, dir.dirStep, sound, fun c h => .inl (flight c h),
    fun c h => .inl (posted c h), ?_, known,
    fun u h => (pending u h).imp_left fun old => ⟨old, dir.currentId⟩⟩
  intro id d' r cur read own
  obtain ⟨d, old, top, reads⟩ := dir.current cur
  rw [reads, top] at read
  rw [top]
  exact owns id d r old read (hs.owned live old read own)

/-- What holds of the records holds when only temp files changed. -/
theorem Claim.Judged.sameRecords {c : Claim} {dir dir' : Option LockDir} {alive : Pid → Bool}
    {p : Pid} (kept : SameRecords p dir dir') (h : c.Judged dir alive p) :
    c.Judged dir' alive p := by
  refine ⟨h.own, h.numbered, h.free, ?_, ?_⟩
  · intro d' cur
    obtain ⟨d, old, top, _⟩ := kept.current cur
    rw [top]
    exact h.bound d old
  · intro d' raw cur judged
    obtain ⟨d, old, top, reads⟩ := kept.current cur
    rw [reads, top]
    exact h.follows d raw old judged

theorem Claim.Linked.sameRecords {c : Claim} {dir dir' : Option LockDir} {p : Pid}
    (kept : SameRecords p dir dir') (h : c.Linked dir p) : c.Linked dir' p := by
  refine ⟨h.own, h.numbered, ?_, ?_, ?_⟩
  · intro d' cur
    obtain ⟨d, old, top, _⟩ := kept.current cur
    rw [top]
    exact h.bound d old
  · intro d' cur
    obtain ⟨d, old, top, reads⟩ := kept.current cur
    rw [reads, top]
    exact h.top d old
  · intro d' raw cur judged
    obtain ⟨d, old, top, reads⟩ := kept.current cur
    rw [reads, top]
    exact h.follows d raw old judged

theorem HeldLock.Tops.sameRecords {h : HeldLock} {dir dir' : Option LockDir} {p : Pid}
    (kept : SameRecords p dir dir') (tops : h.Tops dir p) : h.Tops dir' p := by
  refine ⟨tops.own, ?_, ?_⟩
  · intro d' cur
    obtain ⟨d, old, top, _⟩ := kept.current cur
    rw [top]
    exact tops.top d old
  · intro d' cur
    obtain ⟨d, old, _, reads⟩ := kept.current cur
    rw [reads]
    exact tops.read d old

theorem Current.unique {dir : Option LockDir} {i j : Uuid} {d e : LockDir}
    (h : Current dir i d) (k : Current dir j e) : i = j ∧ d = e := by
  have eq : d = e := Option.some.inj (h.1.symm.trans k.1)
  subst eq
  exact ⟨Option.some.inj (h.2.symm.trans k.2), rfl⟩

theorem State.currentId_eq {s : State} {id : Uuid} :
    s.currentId = some id ↔ ∃ d, Current s.dir id d := Option.bind_eq_some_iff

theorem State.read_eq {s : State} {id : Uuid} {gen : ℕ} {d : LockDir}
    (cur : Current s.dir id d) : s.read id gen = d.read id gen := by
  rw [State.read, cur.1]; rfl

namespace Inv

variable {s : State} {p : Pid} {l : Local} {now : Timestamp}

/-- A step that only moves `p`, to a point that answers for no record. -/
theorem goto (hs : Inv s) (live : s.alive p = true) (sound : l.Sound s.dir s.alive p)
    (flight : l.inFlight = none) (posted : l.posted = none)
    (owns : ∀ id d r, Current s.dir id d → d.read id (d.top id) = some r →
      (s.procs p).owns = some ⟨id, d.top id, r⟩ → l.owns = some ⟨id, d.top id, r⟩)
    (known : ∀ u, l.incarnation = some u →
      (s.procs p).incarnation = some u ∨ s.currentId = some u)
    (pending : l.pending = none) : Moves s (s.goto p l) p := by
  refine hs.quiet live rfl rfl le_rfl .same sound ?_ ?_ owns known ?_
  · intro c h; rw [flight] at h; cases h
  · intro c h; rw [posted] at h; cases h
  · intro u h; rw [pending] at h; cases h

theorem beginClaim (hs : Inv s) (live : s.alive p = true) {q : Request} {id : Uuid} {gen : ℕ}
    {judgedRaw : Option LockRecord} (carried : (s.procs p).incarnation = some id)
    (unowned : (s.procs p).owns = none)
    (numbered : match judgedRaw with | none => gen = 1 | some _ => 2 ≤ gen)
    (free : ∀ raw, judgedRaw = some raw → raw.Free s.alive)
    (bound : ∀ d, Current s.dir id d → gen ≤ d.top id + 1)
    (follows : ∀ d raw, Current s.dir id d → judgedRaw = some raw → gen = d.top id + 1 →
      d.read id (d.top id) = some raw) :
    Moves s (Lock.beginClaim s p now q id gen judgedRaw) p := by
  refine hs.quiet live rfl rfl (Nat.le_succ _) .same ?_ ?_ ?_ ?_ ?_ ?_
  · exact ⟨⟨rfl, rfl⟩, numbered, free, bound, follows⟩
  · intro c h; cases h
  · intro c h; cases h
  · intro i d r _ _ h; rw [unowned] at h; cases h
  · intro u h; cases h; exact .inl carried
  · intro u h; cases h

end Inv

end Quickchr.Lock
