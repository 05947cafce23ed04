import Quickchr.Lock.Exclusion

/-!
# Releases are never lost and the lock never wedges

A record is superseded once its incarnation is gone for good or has a higher record; no
step undoes that. Everything any process deletes is superseded already. A lock nobody
answers for is free, and one `acquireLockNow` without interference takes it.
-/
namespace Quickchr.Lock

/-- The lock `release()` is giving back. -/
def Local.releasing : Local → Option HeldLock
  | .readOwn h | .collectList h .release | .collectNext h .release _ | .writeTemp (.marker h _)
  | .link (.marker h _) _ | .unlinkTemp (.marker h _) _ _ => some h
  | _ => none

structure State.Superseded (s : State) (id : Uuid) (gen : ℕ) : Prop where
  drawn : id < s.uuids
  /-- Nobody is about to publish this incarnation again. -/
  spent : ∀ q, (s.procs q).pending ≠ some id
  below : ∀ d, Current s.dir id d → gen < d.top id

theorem State.Superseded.next {s t : State} {e : Event} {id : Uuid} {gen : ℕ}
    (super : s.Superseded id gen) (hs : Inv s) (step : Lock.next s e = some t) :
    t.Superseded id gen := by
  rcases hs.event step with ⟨p, l, m⟩ | rfl | rfl | ⟨p, rfl⟩
  · refine ⟨super.drawn.trans_le m.uuids, fun q pend => ?_, fun d' cur => ?_⟩
    · by_cases eq : q = p
      · subst q
        rw [Inv.procs_self m] at pend
        rcases m.pending id pend with ⟨old, _⟩ | ⟨fresh, _⟩
        · exact super.spent p old
        · exact absurd (fresh ▸ super.drawn) (lt_irrefl _)
      · rw [Inv.procs_ne m eq] at pend
        exact super.spent q pend
    · rcases m.dir.current cur with ⟨d, old, kept⟩ | ⟨pend, _⟩
      · exact (super.below d old).trans_le kept.top_le
      · exact absurd pend (super.spent p)
  · exact ⟨super.drawn, super.spent, fun d cur => nomatch cur.1⟩
  · exact ⟨super.drawn, super.spent, super.below⟩
  · exact ⟨super.drawn, super.spent, super.below⟩

/-- Where `release()` returns, its record is no longer the top of its incarnation. -/
theorem Inv.release_returns {s : State} (hs : Inv s) {p : Pid} {h : HeldLock} {ans : Answer}
    (live : s.alive p = true) (releasing : (s.procs p).releasing = some h)
    (returns : (Lock.advance s p ans).procs p = .idle) :
    ∀ d, Current (Lock.advance s p ans).dir h.id d → h.gen < d.top h.id := by
  have sound := hs.sound p live
  cases at_ : s.procs p with
  | readOwn k =>
      rw [at_] at sound releasing
      cases releasing
      simp only [Lock.advance, at_] at returns ⊢
      split at returns
      · simp only [State.goto_procs_self] at returns
        cases returns
      · rename_i gone
        intro d cur
        rw [if_neg gone] at cur
        exact absurd ((State.read_eq cur).trans (sound.read d cur)) gone
  | collectList k a =>
      rw [at_] at releasing
      cases a <;> cases releasing
      simp only [Lock.advance, at_] at returns
      split at returns <;> · simp only [State.goto_procs_self, Collector.done] at returns; cases returns
  | collectNext k a gens =>
      rw [at_] at releasing
      cases a <;> cases releasing
      simp only [Lock.advance, at_] at returns
      split at returns
      · simp only [State.goto_procs_self, Collector.done] at returns; cases returns
      · split at returns <;> · simp only [State.goto_procs_self] at returns; cases returns
  | writeTemp n =>
      simp only [Lock.advance, at_] at returns ⊢
      cases dir : s.dir with
      | none =>
          rintro d ⟨isDir, _⟩
          rw [State.goto_dir, dir] at isDir
          cases isDir
      | some d =>
          simp only [dir, State.goto_procs_self] at returns
          cases returns
  | link n temp =>
      simp only [Lock.advance, at_, Lock.link] at returns
      split at returns
      · simp only [State.goto_procs_self] at returns; cases returns
      · split at returns <;> · simp only [State.goto_procs_self] at returns; cases returns
  | unlinkTemp n temp result =>
      rw [at_] at sound releasing
      cases n with
      | id | claim => cases releasing
      | marker k m =>
          cases releasing
          cases result with
          | failed =>
              simp only [Lock.advance, at_] at returns
              split at returns <;>
                · simp only [State.goto_procs_self, Publication.resume, Publication.thrown] at returns
                  cases returns
          | linked | «exists» | missing =>
              simp only [Lock.advance, at_]
              intro d' cur
              cases dir : s.dir with
              | none =>
                  rw [dir] at cur
                  exact absurd (dir.symm.trans cur.1) (by simp)
              | some d =>
                  rw [dir] at cur
                  obtain ⟨isDir, isId⟩ := cur
                  cases isDir
                  exact sound d ⟨dir, isId⟩
  | _ => rw [at_] at releasing; cases releasing

theorem Local.incarnation_of_releasing {l : Local} {h : HeldLock} (r : l.releasing = some h) :
    l.incarnation = some h.id := by
  cases l with
  | collectList k a | collectNext k a => cases a <;> cases r; rfl
  | readOwn => cases r; rfl
  | writeTemp n | link n | unlinkTemp n => cases n <;> cases r; rfl
  | _ => cases r

theorem Inv.release_superseded {s : State} (hs : Inv s) {p : Pid} {h : HeldLock}
    {ans : Answer} (live : s.alive p = true) (releasing : (s.procs p).releasing = some h)
    (returns : (Lock.advance s p ans).procs p = .idle) :
    (Lock.advance s p ans).Superseded h.id h.gen := by
  have known : s.Known h.id := .inr (.inl ⟨p, Local.incarnation_of_releasing releasing⟩)
  obtain ⟨l, m⟩ : Moves s (Lock.advance s p ans) p := hs.advance live
  refine ⟨(hs.known_lt _ known).trans_le m.uuids, fun q pend => ?_,
    hs.release_returns live releasing returns⟩
  by_cases eq : q = p
  · subst q
    rw [returns] at pend
    cases pend
  · rw [Inv.procs_ne m eq] at pend
    exact hs.pending_new q h.id pend known

theorem DirStep.deleted {s : State} {p : Pid} {dir : Option LockDir} (step : DirStep s p dir)
    {d d' : LockDir} {id : Uuid} {g : ℕ} (was : s.dir = some d) (isDir : dir = some d')
    (there : (id, g) ∈ d.records) (gone : (id, g) ∉ d'.records) :
    d.id = some id → s.Spares p d id g := by
  cases step with
  | same => cases was.symm.trans isDir; exact absurd there gone
  | mkdir none => rw [none] at was; cases was
  | temps at_ | publish at_ => cases at_.symm.trans was; cases isDir; exact absurd there gone
  | put at_ =>
      cases at_.symm.trans was
      cases isDir
      exact absurd (Finmap.mem_insert.mpr (.inr there)) gone
  | @unlink _ i n at_ spares =>
      cases at_.symm.trans was
      cases isDir
      by_cases eq : (id, g) = (i, n)
      · cases eq; exact spares
      · exact absurd (Finmap.mem_erase.mpr ⟨eq, there⟩) gone

/-- A record that goes while the directory stays is below the current top. -/
theorem Inv.deletes_below {s t : State} (hs : Inv s) {e : Event} (step : Lock.next s e = some t)
    {d d' : LockDir} {id : Uuid} {g : ℕ} (was : s.dir = some d) (now : t.dir = some d')
    (there : (id, g) ∈ d.records) (gone : (id, g) ∉ d'.records) (cur : d.id = some id) :
    g < d.top id := by
  rcases hs.event step with ⟨p, l, m⟩ | rfl | rfl | ⟨p, rfl⟩
  · exact (m.dir.deleted was now there gone cur).1
  · cases now
  · cases was.symm.trans now; exact absurd there gone
  · cases was.symm.trans now; exact absurd there gone

end Quickchr.Lock
