import Quickchr.Lock.Release

/-!
# A free lock is taken

`Takes p s`: left alone, `p` ends up with the current lock. One lemma for each point of
`attempt`, from the last to the first.
-/
namespace Quickchr.Lock

/-- Whatever each call is told, the steps of `p` alone lead to its `HeldLock`. -/
inductive Takes (p : Pid) : State → Prop
  | now {s : State} {h : HeldLock} : s.procs p = .held h → s.currentId = some h.id → Takes p s
  | step {s : State} : s.alive p = true → (∀ ans, Takes p (advance s p ans)) → Takes p s

theorem Takes.replay {p : Pid} {s : State} (takes : Takes p s) (clock : ℕ → Answer) :
    ∃ n t h, system.replay s ((List.range n).map fun i => .advance p (clock i)) = some t ∧
      t.procs p = .held h ∧ t.currentId = some h.id := by
  induction takes generalizing clock with
  | now held cur => exact ⟨0, _, _, rfl, held, cur⟩
  | @step s live _ ih =>
      obtain ⟨n, t, h, run, held, cur⟩ := ih (clock 0) fun i => clock (i + 1)
      refine ⟨n + 1, t, h, ?_, held, cur⟩
      have first : system.next s (.advance p (clock 0)) = some (advance s p (clock 0)) := by
        simp only [system, next, live, if_true]
      rw [List.range_succ_eq_map, List.map_cons, Transition.System.replay, first, Option.bind_some,
        List.map_map]
      exact run

/-- The lock is free: there is no record, a released marker or a dead process's. -/
def State.Vacant (s : State) : Prop :=
  ∀ id d r, Current s.dir id d → d.read id (d.top id) = some r → r.Free s.alive

namespace Inv

variable {s : State} {p : Pid}

theorem takes (hs : Inv s) (live : s.alive p = true)
    (rest : ∀ ans, Inv (Lock.advance s p ans) → (Lock.advance s p ans).alive p = true →
      Takes p (Lock.advance s p ans)) : Takes p s := by
  refine .step live fun ans => ?_
  obtain ⟨l, m⟩ : Moves s (Lock.advance s p ans) p := hs.advance live
  exact rest ans (hs.move m) (by rw [m.alive]; exact live)

theorem takes_collectNext (hs : Inv s) (live : s.alive p = true) {h : HeldLock} {gens : List ℕ}
    (at_ : s.procs p = .collectNext h .claim gens) (cur : s.currentId = some h.id) :
    Takes p s := by
  induction gens generalizing s with
  | nil =>
      refine hs.takes live fun ans _ _ => .now (h := h) ?_ ?_ <;>
        simp only [Lock.advance, at_, Collector.done, State.goto_procs_self]
      exact cur
  | cons g rest ih =>
      obtain ⟨d, dir, isId⟩ := State.currentId_eq.mp cur
      refine hs.takes live fun ans ht live => ?_
      have eq : Lock.advance s p ans =
          (s.setDir (d.unlink h.id g)).goto p (.collectNext h .claim rest) := by
        simp only [Lock.advance, at_, dir]
      rw [eq] at ht live ⊢
      exact ih ht live (State.goto_procs_self ..) (State.currentId_eq.mpr ⟨_, rfl, isId⟩)

theorem takes_collectList (hs : Inv s) (live : s.alive p = true) {h : HeldLock}
    (at_ : s.procs p = .collectList h .claim) (cur : s.currentId = some h.id) : Takes p s := by
  obtain ⟨d, dir, isId⟩ := State.currentId_eq.mp cur
  refine hs.takes live fun ans ht live => ?_
  simp only [Lock.advance, at_, dir] at ht live ⊢
  exact ht.takes_collectNext live (State.goto_procs_self ..) cur

theorem takes_checkIncarnation (hs : Inv s) (live : s.alive p = true) {c : Claim}
    (at_ : s.procs p = .checkIncarnation c) (cur : s.currentId = some c.id) : Takes p s := by
  refine hs.takes live fun ans ht live => ?_
  simp only [Lock.advance, at_, cur, if_true] at ht live ⊢
  exact ht.takes_collectList live (State.goto_procs_self ..) cur

theorem not_turned_away {c : Claim} {d : LockDir} (cur : Current s.dir c.id d)
    (top : c.gen = d.top c.id) (ht : Inv (s.goto p (.unlinkClaim c))) (live : s.alive p = true) :
    False := by
  have sound := ht.sound p live
  rw [State.goto_procs_self] at sound
  have := sound d cur
  omega

theorem takes_checkJudged (hs : Inv s) (live : s.alive p = true) {c : Claim} {isTop : Bool}
    {d : LockDir} (at_ : s.procs p = .checkJudged c isTop) (cur : Current s.dir c.id d)
    (top : c.gen = d.top c.id) : Takes p s := by
  refine hs.takes live fun ans ht live' => ?_
  simp only [Lock.advance, at_] at ht live' ⊢
  split at ht
  · rename_i passed
    rw [if_pos passed]
    exact ht.takes_checkIncarnation live (State.goto_procs_self ..) (State.currentId_eq.mpr ⟨d, cur⟩)
  · exact (not_turned_away cur top ht live).elim

theorem takes_checkTop (hs : Inv s) (live : s.alive p = true) {c : Claim} {d : LockDir}
    (at_ : s.procs p = .checkTop c) (cur : Current s.dir c.id d) (top : c.gen = d.top c.id) :
    Takes p s := by
  refine hs.takes live fun ans ht live' => ?_
  cases judged : c.judgedRaw with
  | some raw =>
      simp only [Lock.advance, at_, Lock.checkTop, cur.1, judged] at ht live' ⊢
      exact ht.takes_checkJudged live (State.goto_procs_self ..) cur top
  | none =>
      simp only [Lock.advance, at_, Lock.checkTop, cur.1, judged] at ht live' ⊢
      split at ht
      · rename_i passed
        rw [if_pos passed]
        exact ht.takes_checkIncarnation live (State.goto_procs_self ..)
          (State.currentId_eq.mpr ⟨d, cur⟩)
      · exact (not_turned_away cur top ht live).elim

theorem takes_unlinkTemp (hs : Inv s) (live : s.alive p = true) {c : Claim} {temp : Uuid}
    {d : LockDir} (at_ : s.procs p = .unlinkTemp (.claim c) temp .linked)
    (cur : Current s.dir c.id d) (top : c.gen = d.top c.id) : Takes p s := by
  refine hs.takes live fun ans ht live' => ?_
  simp only [Lock.advance, at_, cur.1, Publication.resume] at ht live' ⊢
  exact ht.takes_checkTop live (State.goto_procs_self ..) ⟨rfl, cur.2⟩ top

theorem takes_link (hs : Inv s) (live : s.alive p = true) {c : Claim} {temp : Uuid}
    {d : LockDir} (at_ : s.procs p = .link (.claim c) temp) (cur : Current s.dir c.id d)
    (there : (p, temp) ∈ d.temps) (next : c.gen = d.top c.id + 1) : Takes p s := by
  have free : d.read c.id c.gen = none := by
    rw [LockDir.read_eq_none]
    intro member
    have : c.gen ≤ d.top c.id := TopLog.le_top member
    omega
  refine hs.takes live fun ans ht live' => ?_
  simp only [Lock.advance, at_, Lock.link, cur.1, there, if_true, Publication.linkIn, free]
    at ht live' ⊢
  refine ht.takes_unlinkTemp live (State.goto_procs_self ..) ⟨rfl, cur.2⟩ ?_
  rw [LockDir.put_top_self]
  omega

theorem takes_writeTemp (hs : Inv s) (live : s.alive p = true) {c : Claim} {d : LockDir}
    (at_ : s.procs p = .writeTemp (.claim c)) (cur : Current s.dir c.id d)
    (next : c.gen = d.top c.id + 1) : Takes p s := by
  refine hs.takes live fun ans ht live' => ?_
  simp only [Lock.advance, at_, cur.1] at ht live' ⊢
  exact ht.takes_link live (State.goto_procs_self ..) ⟨rfl, cur.2⟩
    (Finset.mem_insert_self _ _) next

theorem takes_isAlive (hs : Inv s) (live : s.alive p = true) {q : Request} {id : Uuid} {gen : ℕ}
    {raw : LockRecord} {d : LockDir} (at_ : s.procs p = .isAlive q id gen raw)
    (cur : Current s.dir id d) (top : gen = d.top id) (dead : s.alive raw.pid = false) :
    Takes p s := by
  refine hs.takes live fun ans ht live' => ?_
  simp only [Lock.advance, at_, dead, Bool.false_eq_true, if_false] at ht live' ⊢
  exact ht.takes_writeTemp live (State.goto_procs_self ..) cur (by simp only [top])

theorem takes_inspect (hs : Inv s) (live : s.alive p = true) (vacant : s.Vacant) {q : Request}
    {id : Uuid} {gen : ℕ} {d : LockDir} (at_ : s.procs p = .inspect q id gen)
    (cur : Current s.dir id d) (top : gen = d.top id) : Takes p s := by
  have pos : 1 ≤ gen := by
    have sound := hs.sound p live
    rw [at_] at sound
    exact sound.1
  have recorded : 0 < d.top id := by omega
  obtain ⟨raw, read⟩ := LockDir.read_top recorded
  have seen : s.read id gen = some raw := by rw [State.read_eq cur, top, read]
  refine hs.takes live fun ans ht live' => ?_
  cases released : raw.released with
  | true =>
      simp only [Lock.advance, at_, seen, released, if_true] at ht live' ⊢
      exact ht.takes_writeTemp live (State.goto_procs_self ..) cur (by simp only [top])
  | false =>
      simp only [Lock.advance, at_, seen, released, Bool.false_eq_true, if_false] at ht live' ⊢
      have dead : s.alive raw.pid = false :=
        (vacant id d raw cur read).resolve_left (by rw [released]; exact Bool.false_ne_true)
      exact ht.takes_isAlive live (State.goto_procs_self ..) cur top dead

theorem takes_generations (hs : Inv s) (live : s.alive p = true) (vacant : s.Vacant)
    {q : Request} {id : Uuid} {d : LockDir} (at_ : s.procs p = .generations q id)
    (cur : Current s.dir id d) : Takes p s := by
  refine hs.takes live fun ans ht live' => ?_
  by_cases empty : d.generations id = ∅
  · simp only [Lock.advance, at_, cur.1, empty, if_true] at ht live' ⊢
    have top : d.top id = 0 := by
      rw [LockDir.top, TopLog.top, ← LockDir.generations, empty, Finset.sup_empty]
      rfl
    exact ht.takes_writeTemp live (State.goto_procs_self ..) cur (by simp only [top])
  · simp only [Lock.advance, at_, cur.1, empty, if_false] at ht live' ⊢
    exact ht.takes_inspect live vacant (State.goto_procs_self ..) cur rfl

theorem takes_readIdBack (hs : Inv s) (live : s.alive p = true) (vacant : s.Vacant)
    {q : Request} {id : Uuid} {d : LockDir} (at_ : s.procs p = .readIdBack q)
    (cur : Current s.dir id d) : Takes p s := by
  refine hs.takes live fun ans ht live' => ?_
  simp only [Lock.advance, at_, State.currentId_eq.mpr ⟨d, cur⟩] at ht live' ⊢
  exact ht.takes_generations live vacant (State.goto_procs_self ..) cur

/-- The first user of a new directory publishes its id and finds no record under it. -/
theorem takes_linkId (hs : Inv s) (live : s.alive p = true) {q : Request} {u temp : Uuid}
    {d : LockDir} (at_ : s.procs p = .link (.id q u) temp) (dir : s.dir = some d)
    (there : (p, temp) ∈ d.temps) (none : d.id = none) : Takes p s := by
  have pend : (s.procs p).pending = some u := by rw [at_]; rfl
  have bare : ∀ g, (u, g) ∉ d.records := fun g member =>
    hs.pending_new p u pend (.inr (.inr ⟨d, g, dir, member⟩))
  refine hs.takes live fun ans ht live' => ?_
  simp only [Lock.advance, at_, Lock.link, dir, there, if_true, Publication.linkIn, none]
    at ht live' ⊢
  refine ht.takes live fun ans ht live' => ?_
  simp only [Lock.advance, State.goto_procs_self, State.goto_dir, State.setDir_dir,
    Publication.resume] at ht live' ⊢
  refine ht.takes_readIdBack live ?_ (State.goto_procs_self ..) ⟨rfl, rfl⟩
  rintro id d' r ⟨isDir, isId⟩ read
  cases isDir
  cases isId
  exact absurd (LockDir.mem_of_read read) (bare _)

theorem takes_readId (hs : Inv s) (live : s.alive p = true) (vacant : s.Vacant)
    {q : Request} {d : LockDir} (at_ : s.procs p = .readId q) (dir : s.dir = some d) :
    Takes p s := by
  refine hs.takes live fun ans ht live' => ?_
  cases isId : d.id with
  | some id =>
      have cur : s.currentId = some id := State.currentId_eq.mpr ⟨d, dir, isId⟩
      simp only [Lock.advance, at_, cur] at ht live' ⊢
      exact ht.takes_generations live vacant (State.goto_procs_self ..) ⟨dir, isId⟩
  | none =>
      have cur : s.currentId = none := by rw [State.currentId, dir]; exact isId
      simp only [Lock.advance, at_, cur] at ht live' ⊢
      refine ht.takes live fun ans ht live' => ?_
      simp only [Lock.advance, State.goto_procs_self, State.goto_dir, State.draw_dir, dir]
        at ht live' ⊢
      exact ht.takes_linkId live (State.goto_procs_self ..) rfl (Finset.mem_insert_self _ _) isId

theorem takes_ensureLockDir (hs : Inv s) (live : s.alive p = true) (vacant : s.Vacant)
    {q : Request} (at_ : s.procs p = .ensureLockDir q) (parent : s.parent = true) :
    Takes p s := by
  refine hs.takes live fun ans ht live' => ?_
  cases dir : s.dir with
  | some d =>
      simp only [Lock.advance, at_, parent, if_true, dir] at ht live' ⊢
      exact ht.takes_readId live vacant (State.goto_procs_self ..) dir
  | none =>
      simp only [Lock.advance, at_, parent, if_true, dir] at ht live' ⊢
      refine ht.takes_readId live ?_ (State.goto_procs_self ..) rfl
      rintro id d r ⟨isDir, isId⟩
      cases isDir
      cases isId

/-- With no live holder and no live claim before its verdict, the lock is free. -/
theorem vacant (hs : Inv s) (unheld : ∀ q, ¬ s.Holds q)
    (judged : ∀ q c, s.alive q = true → (s.procs q).inFlight = some c → s.currentId ≠ some c.id) :
    s.Vacant := by
  intro id d r cur read
  by_contra busy
  simp only [LockRecord.Free, not_or, Bool.not_eq_true, Bool.not_eq_false] at busy
  have owns := hs.liveTop id d r cur read busy.1 busy.2
  have isId := State.currentId_eq.mpr ⟨d, cur⟩
  cases flight : (s.procs r.pid).inFlight with
  | some c =>
      rw [Local.owns, flight] at owns
      have sameId : c.id = id := congrArg HeldLock.id (Option.some.inj owns)
      exact judged r.pid c busy.2 flight (sameId ▸ isId)
  | none =>
      rw [Local.owns, flight] at owns
      exact unheld r.pid ⟨busy.2, _, owns, isId⟩

end Inv

/-- What a lock promises its next user. Once `release()` has returned, the record it gave
back is superseded for good; whatever is deleted is below the current top or of a dead
incarnation, and no holder's; and from any state with no live holder and no live claim
before its verdict, one `acquireLockNow` alone takes the lock. Without the machine
directory there is no lock to take: `ensureLockDir` throws MACHINE_NOT_FOUND. -/
theorem release_never_lost {s : State} (reachable : system.Reachable s) :
    (∀ p h ans t, s.alive p = true → (s.procs p).releasing = some h →
      (advance s p ans).procs p = .idle → system.Leads (advance s p ans) t →
      ∀ d, Current t.dir h.id d → h.gen < d.top h.id) ∧
    (∀ e t d d' id g, next s e = some t → s.dir = some d → t.dir = some d' →
      (id, g) ∈ d.records → (id, g) ∉ d'.records →
      (d.id = some id → g < d.top id) ∧
      ∀ p h, s.alive p = true → (s.procs p).holding = some h → d.id = some h.id →
        (h.id, h.gen) ≠ (id, g)) ∧
    (∀ p q (clock : ℕ → Answer), s.procs p = .idle → s.alive p = true → s.parent = true →
      (∀ r, ¬ s.Holds r) →
      (∀ r c, s.alive r = true → (s.procs r).inFlight = some c → s.currentId ≠ some c.id) →
      ∃ n t h, system.replay s
          (.acquire p q :: (List.range n).map fun i => .advance p (clock i)) = some t ∧
        t.procs p = .held h ∧ t.currentId = some h.id) := by
  have hs := Inv.reachable reachable
  refine ⟨?_, ?_, ?_⟩
  · intro p h ans t live releasing returns later d cur
    have first : system.next s (.advance p ans) = some (advance s p ans) := by
      simp only [system, next, live, if_true]
    have super : t.Superseded h.id h.gen :=
      later.stable (fun u e v r super step => State.Superseded.next super (Inv.reachable r) step)
        (reachable.next first) (hs.release_superseded live releasing returns)
    exact super.below d cur
  · intro e t d d' id g step was now there gone
    have below := hs.deletes_below step was now there gone
    refine ⟨below, fun p h live holding cur eq => ?_⟩
    cases eq
    have top := ((hs.sound p live).tops holding).top d ⟨was, cur⟩
    have := below cur
    omega
  · intro p q clock idle live parent unheld judged
    have step : next s (.acquire p q) = some (s.goto p (.ensureLockDir q)) := by
      simp only [next, idle, live, if_true]
    have first : system.next s (.acquire p q) = some (s.goto p (.ensureLockDir q)) := step
    have vacant := hs.vacant unheld judged
    obtain ⟨n, t, h, run, held, cur⟩ := (Inv.takes_ensureLockDir (hs.next step) live vacant
      (State.goto_procs_self ..) parent).replay clock
    exact ⟨n, t, h, by rw [Transition.System.replay, first, Option.bind_some, run], held, cur⟩

/-- `firstLock`, then `release()` up to its last call. -/
def firstRelease (p : Pid) : List Event :=
  firstLock p ++ .release p :: List.replicate 5 (.advance p (ascending 0))

def deadHolder (p : Pid) : List Event := firstLock p ++ [.crash p]

/-- The run of a process that dies with the lock touches no other process. -/
theorem deadHolder_apart {p q : Pid} {s : State} (run : system.replay (start true) (deadHolder p) = some s)
    (other : q ≠ p) : s.procs q = .idle := by
  refine (Transition.System.replay_invariant system (I := fun s => Inv s ∧ s.procs q = .idle) run
    ⟨Inv.start true, rfl⟩ ?_).2
  rintro s e t member ⟨hs, idle⟩ step
  refine ⟨hs.next step, ?_⟩
  have event : e = .acquire p ⟨.start, none⟩ ∨ e = .advance p (ascending 0) ∨ e = .crash p := by
    simp only [deadHolder, firstLock, List.cons_append, List.mem_cons, List.mem_append, List.mem_replicate,
      List.not_mem_nil, or_false] at member
    tauto
  rcases event with rfl | rfl | rfl
  · simp only [system, next] at step
    split at step
    · obtain ⟨live, ⟨⟩⟩ := Option.ite_none_right_eq_some.mp step
      exact (Function.update_of_ne other _ _).trans idle
    · cases step
  · obtain ⟨live, ⟨⟩⟩ := Option.ite_none_right_eq_some.mp step
    obtain ⟨l, m⟩ := hs.advance live
    rw [m.procs, Function.update_of_ne other, idle]
  · cases step
    exact idle

theorem release_never_lost_firstRelease :
    (∃ s h, (s.procs 1).releasing = some h ∧ (advance s 1 (ascending 0)).procs 1 = .idle ∧
      ∀ t, system.Leads (advance s 1 (ascending 0)) t → ∀ d, Current t.dir h.id d → h.gen < d.top h.id) ∧
    ∃ s h, system.Reachable s ∧ (s.procs 1).holding = some h ∧ s.currentId = some h.id ∧
      ∀ clock : ℕ → Answer, ∃ n t k, system.replay s
          (.acquire 2 ⟨.stop, none⟩ :: (List.range n).map fun i => .advance 2 (clock i)) = some t ∧
        t.procs 2 = .held k ∧ t.currentId = some k.id := by
  constructor
  · obtain ⟨s, reachable, live, releasing, returns⟩ :=
      Transition.System.exists_reachable (S := system)
        (P := fun s => s.alive 1 = true ∧ (s.procs 1).releasing = some ⟨0, 1, ⟨1, .start, 0, 2,
          none, false⟩⟩ ∧ (advance s 1 (ascending 0)).procs 1 = .idle)
        (firstRelease 1) ⟨true, rfl⟩ (by decide +kernel)
    exact ⟨s, _, releasing, returns, fun t =>
      (release_never_lost reachable).1 1 _ (ascending 0) t live releasing returns⟩
  · obtain ⟨s, run, ends⟩ := (Option.any_eq_true _ _).mp
      (by decide +kernel : (system.replay (start true) (deadHolder 1)).any (fun s => decide
        ((s.procs 1).holding = some ⟨0, 1, ⟨1, .start, 0, 2, none, false⟩⟩ ∧ s.currentId = some 0 ∧
          s.alive 1 = false ∧ s.alive 2 = true ∧ s.parent = true)) = true)
    obtain ⟨holding, current, dead, live, parent⟩ := of_decide_eq_true ends
    have reachable : system.Reachable s := Transition.System.reachable_of_replay ⟨true, rfl⟩ run
    have apart := fun q other => deadHolder_apart (q := q) run other
    refine ⟨s, _, reachable, holding, current, fun clock =>
      (release_never_lost reachable).2.2 2 ⟨.stop, none⟩ clock (apart 2 (by decide)) live parent ?_ ?_⟩
    · rintro r ⟨alive, h, holds, _⟩
      rcases eq_or_ne r 1 with rfl | other
      · exact absurd alive (by rw [dead]; decide)
      · rw [apart r other] at holds
        cases holds
    · intro r c alive flight
      rcases eq_or_ne r 1 with rfl | other
      · exact absurd alive (by rw [dead]; decide)
      · rw [apart r other] at flight
        cases flight

end Quickchr.Lock
