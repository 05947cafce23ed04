import Quickchr.Lock.Preservation

/-!
# The invariant, one file-system call at a time

One lemma for each point of the program, then `Inv.reachable`.
-/
namespace Quickchr.Lock.Inv

variable {s : State} {p : Pid} {ans : Answer} {now : Timestamp}

/-- Leaving `acquireLockNow` or starting over, from a point that answers for no record. -/
theorem leave (hs : Inv s) (live : s.alive p = true) {l : Local}
    (plain : l = .idle ∨ ∃ q, l = .ensureLockDir q ∨ l = .readId q ∨ l = .readIdBack q)
    (unowned : ∀ id d r, Current s.dir id d → d.read id (d.top id) = some r →
      (s.procs p).owns ≠ some ⟨id, d.top id, r⟩) : Moves s (s.goto p l) p := by
  obtain rfl | ⟨q, rfl | rfl | rfl⟩ := plain <;>
    exact hs.goto live trivial rfl rfl (fun id d r cur read h => absurd h (unowned id d r cur read))
      (fun u h => nomatch h) rfl

theorem ensureLockDir (hs : Inv s) (live : s.alive p = true) {q : Request}
    (at_ : s.procs p = .ensureLockDir q) : Moves s (advance s p ans) p := by
  have unowned : (s.procs p).owns = none := by rw [at_]; rfl
  simp only [advance, at_]
  split
  · cases dir : s.dir with
    | some d => exact hs.leave live (.inr ⟨q, .inr (.inl rfl)⟩) fun _ _ _ _ _ => by simp [unowned]
    | none =>
        refine ⟨.readId q, rfl, rfl, le_rfl, .mkdir dir, trivial, ?_, ?_, ?_, ?_, ?_⟩
        · intro c h; cases h
        · intro c h; cases h
        · rintro id d r ⟨isDir, isId⟩
          cases isDir
          cases isId
        · intro u h; cases h
        · intro u h; cases h
  · exact hs.leave live (.inl rfl) fun _ _ _ _ _ => by simp [unowned]

theorem toGenerations (hs : Inv s) (live : s.alive p = true) {q : Request} {id : Uuid}
    (cur : s.currentId = some id) (unowned : (s.procs p).owns = none) :
    Moves s (s.goto p (.generations q id)) p :=
  hs.goto live trivial rfl rfl (fun _ _ _ _ _ h => by rw [unowned] at h; cases h)
    (fun u h => by cases h; exact .inr cur) rfl

theorem readId (hs : Inv s) (live : s.alive p = true) {q : Request}
    (at_ : s.procs p = .readId q) : Moves s (advance s p ans) p := by
  have unowned : (s.procs p).owns = none := by rw [at_]; rfl
  simp only [advance, at_]
  cases cur : s.currentId with
  | some id => exact hs.toGenerations live cur unowned
  | none =>
      refine hs.quiet live rfl rfl (Nat.le_succ _) .same trivial (fun c h => nomatch h)
        (fun c h => nomatch h) ?_ (fun u h => nomatch h) ?_
      · intro id d r _ _ h; rw [unowned] at h; cases h
      · intro u h; cases h; exact .inr ⟨rfl, Nat.lt_succ_self _⟩

theorem readIdBack (hs : Inv s) (live : s.alive p = true) {q : Request}
    (at_ : s.procs p = .readIdBack q) : Moves s (advance s p ans) p := by
  have unowned : (s.procs p).owns = none := by rw [at_]; rfl
  simp only [advance, at_]
  cases cur : s.currentId with
  | some id => exact hs.toGenerations live cur unowned
  | none => exact hs.leave live (.inl rfl) fun _ _ _ _ _ => by simp [unowned]

theorem writeTemp (hs : Inv s) (live : s.alive p = true) {n : Publication}
    (at_ : s.procs p = .writeTemp n) : Moves s (advance s p ans) p := by
  have sound := hs.sound p live
  simp only [advance, at_]
  cases dir : s.dir with
  | none =>
      have gone : n.resume .missing = .idle := by cases n <;> rfl
      rw [gone]
      refine hs.leave live (.inl rfl) ?_
      rintro id d r ⟨isDir, _⟩
      rw [dir] at isDir
      cases isDir
  | some d =>
      have kept : SameRecords p s.dir (some { d with temps := insert (p, s.uuids) d.temps }) :=
        .temps dir fun q u _ h => Finset.mem_insert_of_mem h
      rw [at_] at sound
      refine hs.quiet live rfl rfl (Nat.le_succ _) kept ?_ (fun c h => by cases n <;> cases h)
        (fun c h => by cases n <;> cases h) ?_ ?_ ?_
      · cases n with
        | id => trivial
        | claim c => exact Claim.Judged.sameRecords kept sound
        | marker h m =>
            refine ⟨sound.1.sameRecords kept, sound.2, ?_⟩
            rintro d' ⟨isDir, _⟩
            cases isDir
            exact Finset.mem_insert_self _ _
      · intro id d r _ _ h
        rw [at_] at h
        cases n <;> exact h
      · intro u h
        rw [at_]
        left
        cases n <;> exact h
      · intro u h
        rw [at_]
        left
        cases n <;> exact h

theorem linkMissing (hs : Inv s) (live : s.alive p = true) {n : Publication} {temp : Uuid}
    (at_ : s.procs p = .link n temp)
    (missing : ∀ d, s.dir = some d → (p, temp) ∉ d.temps) :
    Moves s (s.goto p (.unlinkTemp n temp .missing)) p := by
  have sound := hs.sound p live
  rw [at_] at sound
  have noOwner : ∀ h m, n = .marker h m → ∀ d, ¬ Current s.dir h.id d := by
    rintro h m rfl d cur
    exact missing d cur.1 (sound.2.2 d cur)
  refine hs.goto live ?_ (by cases n <;> rfl) (by cases n <;> rfl) ?_ ?_ (by cases n <;> rfl)
  · cases n with
    | id | claim => trivial
    | marker h m => exact fun d cur => absurd cur (noOwner h m rfl d)
  · intro id d r cur _ h
    rw [at_] at h
    cases n with
    | id | claim => cases h
    | marker k m => cases h; exact absurd cur (noOwner _ m rfl d)
  · intro u h
    rw [at_]
    left
    cases n <;> exact h

theorem linkId (hs : Inv s) (live : s.alive p = true) {q : Request} {u temp : Uuid} {d : LockDir}
    (at_ : s.procs p = .link (.id q u) temp) (dir : s.dir = some d) :
    Moves s ((s.setDir ((Publication.id q u).linkIn d).1).goto p
      (.unlinkTemp (.id q u) temp ((Publication.id q u).linkIn d).2)) p := by
  have unowned : (s.procs p).owns = none := by rw [at_]; rfl
  cases isId : d.id with
  | some i =>
      simp only [Publication.linkIn, isId]
      have same : s.setDir d = s := by rw [State.setDir, ← dir]
      rw [same]
      refine hs.goto live trivial rfl rfl ?_ (fun u h => nomatch h) rfl
      intro _ _ _ _ _ h; rw [unowned] at h; cases h
  | none =>
      simp only [Publication.linkIn, isId]
      have pend : (s.procs p).pending = some u := by rw [at_]; rfl
      have step : DirStep s p (some { d with id := some u }) := .publish dir isId pend
      refine ⟨.unlinkTemp (.id q u) temp .linked,
        rfl, rfl, le_rfl, step, trivial, ?_, ?_, ?_, ?_, ?_⟩
      · intro c h; cases h
      · intro c h; cases h
      · intro id d' r cur read own
        rcases step.current cur with ⟨d₀, ⟨isDir, was⟩, _⟩ | ⟨pend', d₀, isDir, records⟩
        · rw [dir] at isDir
          cases isDir
          rw [isId] at was
          cases was
        · have member : (id, d'.top id) ∈ d₀.records := records ▸ LockDir.mem_of_read read
          exact absurd (.inr (.inr ⟨d₀, _, isDir, member⟩)) (hs.pending_new p id pend')
      · intro u h; cases h
      · intro u h; cases h

theorem linkClaim (hs : Inv s) (live : s.alive p = true) {c : Claim} {temp : Uuid} {d : LockDir}
    (at_ : s.procs p = .link (.claim c) temp) (dir : s.dir = some d) :
    Moves s ((s.setDir ((Publication.claim c).linkIn d).1).goto p
      (.unlinkTemp (.claim c) temp ((Publication.claim c).linkIn d).2)) p := by
  have judged : c.Judged s.dir s.alive p := by
    have := hs.sound p live
    rwa [at_] at this
  have unowned : (s.procs p).owns = none := by rw [at_]; rfl
  have carried : (s.procs p).incarnation = some c.id := by rw [at_]; rfl
  cases there : d.read c.id c.gen with
  | some a =>
      simp only [Publication.linkIn, there]
      have same : s.setDir d = s := by rw [State.setDir, ← dir]
      rw [same]
      refine hs.goto live trivial rfl rfl ?_ ?_ rfl
      · intro _ _ _ _ _ h; rw [unowned] at h; cases h
      · intro u h; exact .inl (carried.trans h)
  | none =>
      simp only [Publication.linkIn, there]
      have gap : Current s.dir c.id d → c.gen ≠ d.top c.id := by
        intro cur eq
        have pos := judged.numbered.pos
        have recorded : 0 < d.top c.id := by omega
        obtain ⟨a, read⟩ := LockDir.read_top recorded
        rw [← eq, there] at read
        cases read
      have top : (d.put c.id c.gen c.record).top c.id = max c.gen (d.top c.id) :=
        LockDir.put_top_self
      -- a claim that lands on top follows a record that is free
      have pred : Current s.dir c.id d → c.gen = d.top c.id + 1 → ∀ raw,
          d.read c.id (d.top c.id) = some raw → c.judgedRaw = some raw := by
        intro cur eq raw read
        cases j : c.judgedRaw with
        | some raw' => exact (judged.follows d raw' cur j eq).symm.trans read
        | none =>
            have one : c.gen = 1 := by simpa only [Claim.Numbered, j] using judged.numbered
            have zero := hs.positive d c.id _ dir (LockDir.mem_of_read read)
            omega
      have view : ∀ {d'}, Current (some (d.put c.id c.gen c.record)) c.id d' →
          d' = d.put c.id c.gen c.record ∧ Current s.dir c.id d := by
        rintro d' ⟨isDir, isId⟩
        cases isDir
        exact ⟨rfl, dir, isId⟩
      refine ⟨.unlinkTemp (.claim c) temp .linked,
        rfl, rfl, le_rfl, ?_, ?_, ?_, ?_, ?_, ?_, ?_⟩
      · refine .put dir there judged.numbered.pos carried (.inr judged.own.pid) ?_
        intro isId
        refine ⟨judged.bound d ⟨dir, isId⟩, fun eq raw read => .inl ?_⟩
        exact judged.free raw (pred ⟨dir, isId⟩ eq raw read)
      · refine ⟨judged.own, judged.numbered, ?_, ?_, ?_⟩
        · intro d' cur
          obtain ⟨rfl, _⟩ := view cur
          rw [top]
          exact le_max_left _ _
        · intro d' cur _
          obtain ⟨rfl, _⟩ := view cur
          exact LockDir.put_read_self
        · intro d' raw cur isJudged eq
          obtain ⟨rfl, old⟩ := view cur
          have bound := judged.bound d old
          have off := gap old
          have pos := judged.numbered.pos
          rw [top] at eq
          have next : c.gen = d.top c.id + 1 := by omega
          rw [LockDir.put_read_ne (by simp only [ne_eq, Prod.mk.injEq, true_and]; omega)]
          have below := judged.follows d raw old isJudged next
          rwa [show c.gen - 1 = d.top c.id by omega]
      · rintro c₀ flight
        cases flight
        right
        intro d' q c' cur eq other liveQ posted sameId clash
        obtain ⟨rfl, old⟩ := view cur
        have bound := judged.bound d old
        have off := gap old
        rw [top] at eq
        have next : c.gen = d.top c.id + 1 := by omega
        -- `q` would be on top with its own live record, which is not free to judge
        have at_top : c'.gen = d.top c'.id := by rw [sameId]; omega
        have linked : c'.Linked s.dir q := by
          have sound := hs.sound q liveQ
          cases l : s.procs q with
          | unlinkClaim c₁ =>
              rw [l] at posted sound
              cases posted
              exact absurd (sound d (sameId ▸ old)) (by omega)
          | _ => rw [l] at posted sound; exact sound.linked posted
        have read := linked.top d (sameId ▸ old) at_top
        rw [at_top, sameId] at read
        have free := judged.free _ (pred old next _ read)
        exact linked.own.not_free liveQ free
      · rintro c₀ posted
        cases posted
        right
        intro d' q c' cur eq other liveQ flight sameId clash
        rw [← sameId] at cur eq
        obtain ⟨rfl, old⟩ := view cur
        have linked := (hs.sound q liveQ).linked flight
        have bound := linked.bound d (sameId ▸ old)
        rw [top] at eq
        rw [← sameId] at bound
        -- `q` is on top and still follows the record at this number
        have numbered := linked.numbered
        unfold Claim.Numbered at numbered
        split at numbered
        · have := judged.numbered.pos
          omega
        · rename_i raw isJudged
          have read := linked.follows d raw (sameId ▸ old) isJudged (by rw [← sameId]; omega)
          rw [← sameId, show c'.gen - 1 = c.gen by omega, there] at read
          cases read
      · intro id d' r cur read own
        by_cases same : id = c.id
        · subst same
          obtain ⟨rfl, old⟩ := view cur
          have bound := judged.bound d old
          have off := gap old
          by_cases next : c.gen = d.top c.id + 1
          · have eq : (d.put c.id c.gen c.record).top c.id = c.gen := by rw [top]; omega
            rw [eq, LockDir.put_read_self, Option.some.injEq] at read
            rw [eq, ← read]
            rfl
          · have eq : (d.put c.id c.gen c.record).top c.id = d.top c.id := by rw [top]; omega
            rw [eq, LockDir.put_read_ne (by simp only [ne_eq, Prod.mk.injEq, true_and]; omega)] at read
            have := hs.owned live old read own
            rw [unowned] at this
            cases this
        · obtain ⟨isDir, isId⟩ := cur
          cases isDir
          rw [LockDir.put_top_ne (Ne.symm same), LockDir.put_read_ne (by simp [same])] at read
          have := hs.owned live ⟨dir, isId⟩ read own
          rw [unowned] at this
          cases this
      · intro u h
        exact .inl (carried.trans h)
      · intro u h; cases h

theorem linkMarker (hs : Inv s) (live : s.alive p = true) {h : HeldLock} {m : LockRecord}
    {temp : Uuid} {d : LockDir} (at_ : s.procs p = .link (.marker h m) temp)
    (dir : s.dir = some d) :
    Moves s ((s.setDir ((Publication.marker h m).linkIn d).1).goto p
      (.unlinkTemp (.marker h m) temp ((Publication.marker h m).linkIn d).2)) p := by
  obtain ⟨tops, isMarker, _⟩ : h.Tops s.dir p ∧ m.released = true ∧ _ := by
    have := hs.sound p live
    rwa [at_] at this
  have owns : (s.procs p).owns = some h := by rw [at_]; rfl
  have carried : (s.procs p).incarnation = some h.id := by rw [at_]; rfl
  cases there : d.read h.id (h.gen + 1) with
  | some a =>
      simp only [Publication.linkIn, there]
      have same : s.setDir d = s := by rw [State.setDir, ← dir]
      rw [same]
      have stale : ∀ d', ¬ Current s.dir h.id d' := by
        intro d' cur
        obtain rfl : d = d' := Option.some.inj (dir.symm.trans cur.1)
        have := LockDir.le_top there
        have := tops.top d cur
        omega
      refine hs.goto live (fun d' cur => absurd cur (stale d')) rfl rfl ?_ ?_ rfl
      · intro id d' r cur _ own
        rw [owns] at own
        cases own
        exact absurd cur (stale d')
      · intro u known; exact .inl (carried.trans known)
  | none =>
      simp only [Publication.linkIn, there]
      have raised : ∀ d', Current (some (d.put h.id (h.gen + 1) m)) h.id d' →
          d'.top h.id = h.gen + 1 ∧ d'.read h.id (h.gen + 1) = some m := by
        rintro d' ⟨isDir, isId⟩
        cases isDir
        have top := tops.top d ⟨dir, isId⟩
        rw [LockDir.put_top_self, top]
        exact ⟨by omega, LockDir.put_read_self⟩
      refine ⟨.unlinkTemp (.marker h m) temp .linked,
        rfl, rfl, le_rfl, ?_, ?_, ?_, ?_, ?_, ?_, ?_⟩
      · refine .put dir there (Nat.succ_pos _) carried (.inl isMarker) fun isId => ?_
        have top := tops.top d ⟨dir, isId⟩
        refine ⟨by omega, fun _ raw read => .inr ?_⟩
        rw [top, tops.read d ⟨dir, isId⟩] at read
        cases read
        exact tops.own.pid
      · intro d' cur
        rw [(raised d' cur).1]
        exact Nat.lt_succ_self _
      · intro c h; cases h
      · intro c h; cases h
      · intro id d' r cur read own
        by_cases same : id = h.id
        · subst same
          obtain ⟨top, marker⟩ := raised d' cur
          rw [top, marker] at read
          cases read
          rw [own.live] at isMarker
          cases isMarker
        · obtain ⟨isDir, isId⟩ := cur
          cases isDir
          rw [LockDir.put_top_ne (Ne.symm same), LockDir.put_read_ne (by simp [same])] at read
          have := hs.owned live ⟨dir, isId⟩ read own
          rw [owns] at this
          cases this
          exact absurd rfl same
      · intro u known; exact .inl (carried.trans known)
      · intro u h; cases h

theorem link (hs : Inv s) (live : s.alive p = true) {n : Publication} {temp : Uuid}
    (at_ : s.procs p = .link n temp) : Moves s (Lock.link s p n temp) p := by
  unfold Lock.link
  cases dir : s.dir with
  | none =>
      refine hs.linkMissing live at_ fun d isDir => ?_
      rw [dir] at isDir
      cases isDir
  | some d =>
      by_cases there : (p, temp) ∈ d.temps
      · simp only [there, if_true]
        cases n with
        | id q u => exact hs.linkId live at_ dir
        | claim c => exact hs.linkClaim live at_ dir
        | marker h m => exact hs.linkMarker live at_ dir
      · simp only [there, if_false]
        refine hs.linkMissing live at_ fun d' isDir => ?_
        cases dir.symm.trans isDir
        exact there

theorem unlinkTemp (hs : Inv s) (live : s.alive p = true) {n : Publication} {temp : Uuid}
    {result : LinkResult} (at_ : s.procs p = .unlinkTemp n temp result) :
    Moves s (advance s p ans) p := by
  have resume : ∀ t : State, t.procs = Function.update s.procs p (n.resume result) →
      t.alive = s.alive → t.uuids = s.uuids → SameRecords p s.dir t.dir → Moves s t p := by
    intro t procs alive uuids kept
    have sound := hs.sound p live
    rw [at_] at sound
    refine hs.quiet live procs alive uuids.ge kept ?_ ?_ ?_ ?_ ?_ ?_
    · cases n with
      | id q u => cases result <;> trivial
      | claim c =>
          cases result with
          | linked => exact Claim.Linked.sameRecords kept sound
          | «exists» | missing | failed => trivial
      | marker h m =>
          cases result with
          | failed => exact HeldLock.Tops.sameRecords kept sound
          | linked | «exists» | missing => trivial
    · rw [at_]; intro c h
      cases n <;> cases result <;> exact h
    · rw [at_]; intro c h
      cases n <;> cases result <;> exact h
    · rw [at_]; intro _ _ _ _ _ h
      cases n <;> cases result <;> exact h
    · rw [at_]; intro u h
      left
      cases n <;> cases result <;> first | exact h | cases h
    · rw [at_]; intro u h
      cases n <;> cases result <;> cases h
  simp only [advance, at_]
  cases dir : s.dir with
  | none => exact resume _ rfl rfl rfl .same
  | some d =>
      refine resume _ rfl rfl rfl (.temps dir fun q u other member => ?_)
      exact Finset.mem_erase.mpr ⟨fun eq => other (Prod.mk.inj eq).1, member⟩

theorem generations (hs : Inv s) (live : s.alive p = true) {q : Request} {id : Uuid}
    (at_ : s.procs p = .generations q id) : Moves s (advance s p ans) p := by
  have unowned : (s.procs p).owns = none := by rw [at_]; rfl
  have carried : (s.procs p).incarnation = some id := by rw [at_]; rfl
  simp only [advance, at_]
  cases dir : s.dir with
  | none => exact hs.leave live (.inl rfl) fun _ _ _ _ _ => by simp [unowned]
  | some d =>
      by_cases empty : d.generations id = ∅
      · simp only [empty, if_true]
        refine hs.beginClaim live carried unowned rfl ?_ (fun d _ => by omega) ?_
        · intro raw h; cases h
        · intro _ raw _ h; cases h
      · simp only [empty, if_false]
        obtain ⟨g, member⟩ := Finset.nonempty_iff_ne_empty.mpr empty
        rw [LockDir.mem_generations] at member
        have pos := hs.positive d id g dir member
        have le : g ≤ d.top id := TopLog.le_top member
        refine hs.goto live ⟨pos.trans le, ?_⟩ rfl rfl ?_ ?_ rfl
        · intro d' cur
          cases dir.symm.trans cur.1
          exact le_rfl
        · intro _ _ _ _ _ h; rw [unowned] at h; cases h
        · intro u h; exact .inl (carried.trans h)

theorem inspect (hs : Inv s) (live : s.alive p = true) {q : Request} {id : Uuid} {gen : ℕ}
    (at_ : s.procs p = .inspect q id gen) : Moves s (advance s p ans) p := by
  have unowned : (s.procs p).owns = none := by rw [at_]; rfl
  have carried : (s.procs p).incarnation = some id := by rw [at_]; rfl
  obtain ⟨pos, bound⟩ : 1 ≤ gen ∧ ∀ d, Current s.dir id d → gen ≤ d.top id := by
    have := hs.sound p live
    rwa [at_] at this
  simp only [advance, at_]
  cases seen : s.read id gen with
  | none => exact hs.leave live (.inr ⟨q, .inr (.inl rfl)⟩) fun _ _ _ _ _ => by simp [unowned]
  | some raw =>
      by_cases released : raw.released = true
      · simp only [released, if_true]
        refine hs.beginClaim live carried unowned (by omega) ?_ ?_ ?_
        · rintro _ ⟨⟩; exact .inl released
        · intro d cur
          have := bound d cur
          omega
        · rintro d _ cur ⟨⟩ eq
          rw [← show gen = d.top id by omega, ← State.read_eq cur, seen]
      · simp only [released, Bool.false_eq_true, if_false]
        refine hs.goto live ⟨pos, fun d cur => ⟨bound d cur, fun _ => ?_⟩⟩ rfl rfl ?_ ?_ rfl
        · rw [← State.read_eq cur, seen]
        · intro _ _ _ _ _ h; rw [unowned] at h; cases h
        · intro u h; exact .inl (carried.trans h)

theorem isAlive (hs : Inv s) (live : s.alive p = true) {q : Request} {id : Uuid} {gen : ℕ}
    {raw : LockRecord} (at_ : s.procs p = .isAlive q id gen raw) : Moves s (advance s p ans) p := by
  have unowned : (s.procs p).owns = none := by rw [at_]; rfl
  have carried : (s.procs p).incarnation = some id := by rw [at_]; rfl
  obtain ⟨pos, seen⟩ : 1 ≤ gen ∧ ∀ d, Current s.dir id d →
      gen ≤ d.top id ∧ (gen = d.top id → d.read id gen = some raw) := by
    have := hs.sound p live
    rwa [at_] at this
  simp only [advance, at_]
  by_cases holder : s.alive raw.pid = true
  · simp only [holder, if_true]
    exact hs.leave live (.inl rfl) fun _ _ _ _ _ => by simp [unowned]
  · simp only [holder, Bool.false_eq_true, if_false]
    refine hs.beginClaim live carried unowned (by omega) ?_ ?_ ?_
    · rintro _ ⟨⟩; exact .inr (by simpa using holder)
    · intro d cur
      have := (seen d cur).1
      omega
    · rintro d _ cur ⟨⟩ eq
      have top : gen = d.top id := by omega
      rw [← top]
      exact (seen d cur).2 top

theorem toCheck (hs : Inv s) (live : s.alive p = true) {c : Claim} {l : Local}
    (flight : (s.procs p).inFlight = some c) (check : l.inFlight = some c)
    (sound : l.Sound s.dir s.alive p) (pending : l.pending = none) : Moves s (s.goto p l) p := by
  have owns : ∀ m : Local, m.inFlight = some c → m.owns = some c.heldLock := by
    intro m h
    rw [Local.owns, h]
  refine hs.quiet live rfl rfl le_rfl .same sound ?_ ?_ ?_ ?_ ?_
  · intro c' h; rw [flight, ← check, h]
  · intro c' h
    rw [Local.posted_of_inFlight check] at h
    rw [Local.posted_of_inFlight flight, h]
  · intro _ _ _ _ _ h
    rw [owns _ flight] at h
    rw [owns _ check, h]
  · intro u h
    rw [Local.incarnation_of_inFlight check] at h
    exact .inl ((Local.incarnation_of_inFlight flight).trans h)
  · intro u h; rw [pending] at h; cases h

/-- A claim that is turned away is not on top of the current incarnation. -/
theorem toUnlinkClaim (hs : Inv s) (live : s.alive p = true) {c : Claim}
    (flight : (s.procs p).inFlight = some c)
    (below : ∀ d, Current s.dir c.id d → c.gen < d.top c.id) : Moves s (s.goto p (.unlinkClaim c)) p := by
  refine hs.quiet live rfl rfl le_rfl .same below ?_ ?_ ?_ ?_ ?_
  · intro c' h; cases h
  · intro c' h; rw [Local.posted_of_inFlight flight]; exact h
  · intro id d r cur _ h
    rw [Local.owns, flight] at h
    have eq : c.heldLock = ⟨id, d.top id, r⟩ := Option.some.inj h
    injection eq with sameId sameGen
    subst sameId
    exact absurd (below d cur) (by omega)
  · intro u h; exact .inl ((Local.incarnation_of_inFlight flight).trans h)
  · intro u h; cases h

theorem checkTop (hs : Inv s) (live : s.alive p = true) {c : Claim}
    (at_ : s.procs p = .checkTop c) : Moves s (Lock.checkTop s p c) p := by
  have flight : (s.procs p).inFlight = some c := by rw [at_]; rfl
  have linked : c.Linked s.dir p := by
    have := hs.sound p live
    rwa [at_] at this
  have pos := linked.numbered.pos
  unfold Lock.checkTop
  cases dir : s.dir with
  | none =>
      refine hs.leave live (.inl rfl) ?_
      rintro id d r ⟨isDir, _⟩
      rw [dir] at isDir
      cases isDir
  | some d =>
      have listed : Current s.dir c.id d → ((∀ g ∈ d.generations c.id, g ≤ c.gen) ↔
          c.gen = d.top c.id) := by
        intro cur
        have bound := linked.bound d cur
        constructor
        · intro all
          refine le_antisymm bound (all _ ?_)
          rw [LockDir.mem_generations]
          exact TopLog.top_mem (by unfold LockDir.top at bound; omega)
        · intro eq g member
          rw [LockDir.mem_generations] at member
          exact eq ▸ TopLog.le_top member
      cases judged : c.judgedRaw with
      | some raw =>
          refine hs.toCheck live flight rfl ⟨linked, ?_⟩ rfl
          intro d' cur
          cases dir.symm.trans cur.1
          have bound := linked.bound d cur
          by_cases isTop : ∀ g ∈ d.generations c.id, g ≤ c.gen
          · rw [if_pos (decide_eq_true isTop)]
            exact (listed cur).mp isTop
          · have ne : c.gen ≠ d.top c.id := fun eq => isTop ((listed cur).mpr eq)
            rw [if_neg (by rwa [decide_eq_true_iff])]
            omega
      | none =>
          have one : c.gen = 1 := by simpa only [Claim.Numbered, judged] using linked.numbered
          dsimp only
          split
          · rename_i passed
            refine hs.toCheck live flight rfl ⟨linked, fun d' cur => ?_⟩ rfl
            cases dir.symm.trans cur.1
            exact (listed cur).mp (by simpa using passed.1)
          · rename_i failed
            refine hs.toUnlinkClaim live flight fun d' cur => ?_
            cases dir.symm.trans cur.1
            refine lt_of_le_of_ne (linked.bound d cur) fun eq => failed ⟨?_, one, ?_⟩
            · simpa using (listed cur).mpr eq
            -- alone on top at number one: there is nothing below
            · rw [Finset.card_eq_one]
              refine ⟨1, Finset.eq_singleton_iff_unique_mem.mpr ⟨?_, fun g member => ?_⟩⟩
              · rw [LockDir.mem_generations, ← one]
                exact LockDir.mem_of_read (linked.top d cur eq)
              · have := (listed cur).mpr eq g member
                rw [LockDir.mem_generations] at member
                have := hs.positive d c.id g dir member
                omega

theorem checkJudged (hs : Inv s) (live : s.alive p = true) {c : Claim} {isTop : Bool}
    (at_ : s.procs p = .checkJudged c isTop) : Moves s (advance s p ans) p := by
  have flight : (s.procs p).inFlight = some c := by rw [at_]; rfl
  have sound := hs.sound p live
  rw [at_] at sound
  obtain ⟨linked, top⟩ := sound
  simp only [advance, at_]
  split
  · rename_i passed
    simp only [passed.1, if_true] at top
    exact hs.toCheck live flight rfl ⟨linked, top⟩ rfl
  · rename_i failed
    refine hs.toUnlinkClaim live flight fun d cur => ?_
    cases isTop with
    | false => exact top d cur
    | true =>
        exfalso
        refine failed ⟨rfl, ?_⟩
        rw [State.read_eq cur]
        cases judged : c.judgedRaw with
        | some raw => exact linked.follows d raw cur judged (top d cur)
        | none =>
            have one : c.gen = 1 := by simpa only [Claim.Numbered, judged] using linked.numbered
            rw [LockDir.read_eq_none]
            intro member
            have := hs.positive d c.id _ cur.1 member
            omega

theorem checkIncarnation (hs : Inv s) (live : s.alive p = true) {c : Claim}
    (at_ : s.procs p = .checkIncarnation c) : Moves s (advance s p ans) p := by
  have flight : (s.procs p).inFlight = some c := by rw [at_]; rfl
  have sound := hs.sound p live
  rw [at_] at sound
  obtain ⟨linked, top⟩ := sound
  simp only [advance, at_]
  split
  · refine hs.goto live ⟨linked.own, fun d cur => (top d cur).symm,
      fun d cur => linked.top d cur (top d cur)⟩ rfl rfl ?_ ?_ rfl
    · intro _ _ _ _ _ h
      rw [at_] at h
      exact h
    · intro u h; exact .inl ((Local.incarnation_of_inFlight flight).trans h)
  · rename_i stale
    exact hs.toUnlinkClaim live flight fun d cur =>
      absurd (State.currentId_eq.mpr ⟨d, cur⟩) stale

/-- Deleting a record that is spared, on the way to a point that answers for what `p`
answers for now. -/
theorem unlink (hs : Inv s) (live : s.alive p = true) {id : Uuid} {g : ℕ} {d : LockDir}
    {l : Local} (dir : s.dir = some d) (spares : d.id = some id → s.Spares p d id g)
    (sound : l.Sound (some (d.unlink id g)) s.alive p) (posted : l.posted = none)
    (owns : (s.procs p).owns = none ∨ l.owns = (s.procs p).owns)
    (known : ∀ u, l.incarnation = some u → (s.procs p).incarnation = some u)
    (pending : l.pending = none) : Moves s ((s.setDir (d.unlink id g)).goto p l) p := by
  refine ⟨l, rfl, rfl, le_rfl, .unlink dir spares, sound, ?_, ?_, ?_, ?_, ?_⟩
  · intro c h
    rw [Local.posted_of_inFlight h] at posted
    cases posted
  · intro c h; rw [posted] at h; cases h
  · rintro i d' r ⟨isDir, isId⟩ read own
    cases isDir
    have kept : (d.unlink id g).top i = d.top i ∧
        (d.unlink id g).read i (d.top i) = d.read i (d.top i) := by
      by_cases same : id = i
      · subst same
        have below := (spares isId).1
        exact ⟨LockDir.unlink_top_of_lt below,
          LockDir.unlink_read_ne (by simp only [ne_eq, Prod.mk.injEq, true_and]; omega)⟩
      · exact ⟨LockDir.unlink_top_ne same, LockDir.unlink_read_ne (by simp [Ne.symm same])⟩
    rw [kept.1, kept.2] at read
    rw [kept.1]
    have mine := hs.owned live ⟨dir, isId⟩ read own
    rcases owns with none | same
    · rw [none] at mine; cases mine
    · rw [same, mine]
  · intro u h; exact .inl (known u h)
  · intro u h; rw [pending] at h; cases h

theorem unlinkClaim (hs : Inv s) (live : s.alive p = true) {c : Claim}
    (at_ : s.procs p = .unlinkClaim c) : Moves s (advance s p ans) p := by
  have below : ∀ d, Current s.dir c.id d → c.gen < d.top c.id := by
    have := hs.sound p live
    rwa [at_] at this
  have unowned : (s.procs p).owns = none := by rw [at_]; rfl
  simp only [advance, at_]
  cases dir : s.dir with
  | none => exact hs.leave live (.inr ⟨_, .inr (.inl rfl)⟩) fun _ _ _ _ _ => by simp [unowned]
  | some d =>
      refine hs.unlink live dir ?_ trivial rfl (.inl unowned) (fun u h => by cases h) rfl
      intro isId
      refine ⟨below d ⟨dir, isId⟩, fun q c' _ liveQ flight sameId top => ?_⟩
      rw [← sameId] at top
      refine hs.apart q p c' c d liveQ live flight ?_ sameId.symm ⟨dir, sameId ▸ isId⟩ top
      rw [at_]; rfl

theorem toHolder (hs : Inv s) (live : s.alive p = true) {h : HeldLock} {l : Local}
    (at_ : (s.procs p).holding = some h) (flight : (s.procs p).inFlight = none)
    (carried : (s.procs p).incarnation = some h.id) (holding : l.holding = some h)
    (posted : l.posted = none) (known : l.incarnation = some h.id) (pending : l.pending = none)
    (sound : l.Sound s.dir s.alive p) : Moves s (s.goto p l) p := by
  have idle : l.inFlight = none := by
    cases f : l.inFlight with
    | none => rfl
    | some c => rw [Local.posted_of_inFlight f] at posted; cases posted
  refine hs.goto live sound idle posted ?_ ?_ pending
  · intro _ _ _ _ _ own
    rw [Local.owns, flight, at_] at own
    rw [Local.owns, idle, holding]
    exact own
  · intro u eq
    exact .inl (carried.trans (known.symm.trans eq))

theorem collected (hs : Inv s) (live : s.alive p = true) {h : HeldLock} {k : Collector}
    (at_ : (s.procs p).holding = some h) (flight : (s.procs p).inFlight = none)
    (carried : (s.procs p).incarnation = some h.id) (tops : h.Tops s.dir p) :
    Moves s (s.goto p (k.done h now)) p := by
  cases k with
  | claim => exact hs.toHolder live at_ flight carried rfl rfl rfl rfl tops
  | release => exact hs.toHolder live at_ flight carried rfl rfl rfl rfl ⟨tops, rfl⟩

theorem collectList (hs : Inv s) (live : s.alive p = true) {h : HeldLock} {k : Collector}
    (at_ : s.procs p = .collectList h k) : Moves s (advance s p ans) p := by
  have tops : h.Tops s.dir p := by
    have := hs.sound p live
    rwa [at_] at this
  have holding : (s.procs p).holding = some h := by rw [at_]; rfl
  have flight : (s.procs p).inFlight = none := by rw [at_]; rfl
  have carried : (s.procs p).incarnation = some h.id := by rw [at_]; rfl
  simp only [advance, at_]
  cases s.dir with
  | none => exact hs.collected live holding flight carried tops
  | some d =>
      refine hs.toHolder live holding flight carried rfl rfl rfl rfl ⟨tops, fun g member => ?_⟩
      exact of_decide_eq_true (List.mem_filter.mp member).2

/-- A holder's record is on top, so no claim of another process is. -/
theorem holder_spares (hs : Inv s) {h : HeldLock} {d : LockDir} {g : ℕ}
    (tops : h.Tops s.dir p) (cur : Current s.dir h.id d) (below : g < h.gen) :
    s.Spares p d h.id g := by
  have top := tops.top d cur
  refine ⟨by omega, fun q c other liveQ flight sameId eq => ?_⟩
  have linked := (hs.sound q liveQ).linked flight
  rw [← sameId] at cur eq
  have read := linked.top d cur eq
  rw [sameId, eq, sameId, top, tops.read d (sameId ▸ cur), Option.some.injEq] at read
  exact absurd (linked.own.pid.symm.trans (read ▸ tops.own.pid)) other

theorem collectNext (hs : Inv s) (live : s.alive p = true) {h : HeldLock} {k : Collector}
    {gens : List ℕ} (at_ : s.procs p = .collectNext h k gens) : Moves s (advance s p ans) p := by
  obtain ⟨tops, below⟩ : h.Tops s.dir p ∧ ∀ g ∈ gens, g < h.gen := by
    have := hs.sound p live
    rwa [at_] at this
  have holding : (s.procs p).holding = some h := by rw [at_]; rfl
  have flight : (s.procs p).inFlight = none := by rw [at_]; rfl
  have carried : (s.procs p).incarnation = some h.id := by rw [at_]; rfl
  simp only [advance, at_]
  cases gens with
  | nil => exact hs.collected live holding flight carried tops
  | cons g rest =>
      have rest' : ∀ n ∈ rest, n < h.gen := fun n member => below n (List.mem_cons_of_mem g member)
      cases dir : s.dir with
      | none => exact hs.toHolder live holding flight carried rfl rfl rfl rfl ⟨tops, rest'⟩
      | some d =>
          have lower := below g List.mem_cons_self
          refine hs.unlink live dir ?_ ⟨?_, rest'⟩ rfl (.inr ?_) ?_ rfl
          · intro isId
            exact hs.holder_spares tops ⟨dir, isId⟩ lower
          · refine ⟨tops.own, ?_, ?_⟩ <;> rintro d' ⟨isDir, isId⟩ <;> cases isDir
            · have top := tops.top d ⟨dir, isId⟩
              rw [LockDir.unlink_top_of_lt (by omega), top]
            · rw [LockDir.unlink_read_ne (by simp only [ne_eq, Prod.mk.injEq, true_and]; omega)]
              exact tops.read d ⟨dir, isId⟩
          · rw [at_]; rfl
          · intro u eq; exact carried.trans eq

theorem readOwn (hs : Inv s) (live : s.alive p = true) {h : HeldLock}
    (at_ : s.procs p = .readOwn h) : Moves s (advance s p ans) p := by
  have tops : h.Tops s.dir p := by
    have := hs.sound p live
    rwa [at_] at this
  have holding : (s.procs p).holding = some h := by rw [at_]; rfl
  have flight : (s.procs p).inFlight = none := by rw [at_]; rfl
  have carried : (s.procs p).incarnation = some h.id := by rw [at_]; rfl
  simp only [advance, at_]
  split
  · exact hs.toHolder live holding flight carried rfl rfl rfl rfl tops
  · rename_i gone
    refine hs.leave live (.inl rfl) fun id d r cur _ own => ?_
    rw [Local.owns, flight, holding] at own
    cases own
    exact gone ((State.read_eq cur).trans (tops.read d cur))

theorem stay (hs : Inv s) (live : s.alive p = true) : Moves s s p :=
  ⟨s.procs p, (Function.update_eq_self p s.procs).symm, rfl, le_rfl, .same, hs.sound p live,
    fun _ h => .inl h, fun _ h => .inl h, fun _ _ _ cur read own => hs.owned live cur read own,
    fun _ h => .inl h, fun _ h => .inl ⟨h, rfl⟩⟩

theorem advance (hs : Inv s) (live : s.alive p = true) : Moves s (Lock.advance s p ans) p := by
  cases at_ : s.procs p with
  | idle => simpa only [Lock.advance, at_] using hs.stay live
  | held h => simpa only [Lock.advance, at_] using hs.stay live
  | ensureLockDir q => exact hs.ensureLockDir live at_
  | readId q => exact hs.readId live at_
  | readIdBack q => exact hs.readIdBack live at_
  | writeTemp n => exact hs.writeTemp live at_
  | link n temp => simpa only [Lock.advance, at_] using hs.link live at_
  | unlinkTemp n temp result => exact hs.unlinkTemp live at_
  | generations q id => exact hs.generations live at_
  | inspect q id gen => exact hs.inspect live at_
  | isAlive q id gen raw => exact hs.isAlive live at_
  | checkTop c => simpa only [Lock.advance, at_] using hs.checkTop live at_
  | checkJudged c isTop => exact hs.checkJudged live at_
  | checkIncarnation c => exact hs.checkIncarnation live at_
  | unlinkClaim c => exact hs.unlinkClaim live at_
  | collectList h k => exact hs.collectList live at_
  | collectNext h k gens => exact hs.collectNext live at_
  | readOwn h => exact hs.readOwn live at_

/-- `linkNew` that throws leaves its temp file, or a claim nobody judged. -/
theorem fault (hs : Inv s) (live : s.alive p = true) {t : State}
    (step : Lock.fault s p = some t) : Moves s t p := by
  unfold Lock.fault at step
  have sound := hs.sound p live
  split at step
  · rename_i n at_
    cases step
    rw [at_] at sound
    cases n with
    | id q u | claim c =>
        exact hs.leave live (.inl rfl) fun _ _ _ _ _ => by
          simp [at_, Local.owns, Local.inFlight, Local.holding]
    | marker h m =>
        exact hs.toHolder live (by rw [at_]; rfl) (by rw [at_]; rfl) (by rw [at_]; rfl) rfl rfl rfl
          rfl sound.1
  · rename_i n temp at_
    cases step
    rw [at_] at sound
    refine hs.quiet live rfl rfl le_rfl .same ?_ ?_ ?_ ?_ ?_ ?_
    · cases n with
      | id q u | claim c => trivial
      | marker h m => exact sound.1
    · intro c h; cases n <;> cases h
    · intro c h; cases n <;> cases h
    · rw [at_]; intro _ _ _ _ _ h; cases n <;> exact h
    · rw [at_]; intro u h; left; cases n <;> exact h
    · intro u h; cases n <;> cases h
  · cases step

theorem remove (hs : Inv s) : Inv { s with parent := false, dir := none } := by
  have known : ∀ u, State.Known { s with parent := false, dir := none } u → s.Known u := by
    rintro u (cur | carried | ⟨d, g, isDir, _⟩)
    · cases cur
    · exact .inr (.inl carried)
    · cases isDir
  refine ⟨fun q live => ?_, ?_, ?_, ?_, fun u k => hs.known_lt u (known u k), hs.pending_lt,
    fun q u pend k => hs.pending_new q u pend (known u k), hs.pending_ne⟩
  -- every statement about the current incarnation is void
  · exact Local.Sound.frame (s := s) (Nat.ne_of_lt q.lt_succ_self) live
      (fun id _ d' cur => nomatch cur.1) (hs.sound q live)
  · rintro q r c c' d _ _ _ _ _ ⟨isDir, _⟩; cases isDir
  · rintro id d r ⟨isDir, _⟩; cases isDir
  · intro d id g isDir; cases isDir

theorem crash (hs : Inv s) : Inv { s with alive := Function.update s.alive p false } := by
  have before : ∀ q, Function.update s.alive p false q = true → s.alive q = true := by
    intro q live
    by_cases eq : q = p
    · subst eq; rw [Function.update_self] at live; cases live
    · rwa [Function.update_of_ne eq] at live
  have free : ∀ r : LockRecord, r.Free s.alive → r.Free (Function.update s.alive p false) := by
    rintro r (released | dead)
    · exact .inl released
    · by_cases eq : r.pid = p
      · exact .inr (by rw [eq, Function.update_self])
      · exact .inr (by rwa [Function.update_of_ne eq])
  have judged : ∀ (c : Claim) q, c.Judged s.dir s.alive q →
      c.Judged s.dir (Function.update s.alive p false) q := fun c q h =>
    ⟨h.own, h.numbered, fun raw eq => free raw (h.free raw eq), h.bound, h.follows⟩
  refine ⟨fun q live => ?_, fun q r c c' d liveQ liveR => hs.apart q r c c' d (before q liveQ)
    (before r liveR), fun id d r cur read unreleased live => hs.liveTop id d r cur read unreleased
      (before _ live), hs.positive, hs.known_lt, hs.pending_lt, hs.pending_new, hs.pending_ne⟩
  have sound := hs.sound q (before q live)
  show (s.procs q).Sound s.dir _ q
  cases l : s.procs q with
  | writeTemp n =>
      rw [l] at sound
      cases n with
      | claim c => exact judged c q sound
      | id | marker => exact sound
  | link n temp =>
      rw [l] at sound
      cases n with
      | claim c => exact judged c q sound
      | id | marker => exact sound
  | unlinkTemp n temp result =>
      rw [l] at sound
      cases n <;> cases result <;> exact sound
  | _ => rw [l] at sound; exact sound

/-- A step of a live process, the loss of the directory, or nothing the protocol sees. -/
theorem event (hs : Inv s) {e : Event} {t : State} (step : Lock.next s e = some t) :
    (∃ p, Moves s t p) ∨ t = { s with parent := false, dir := none } ∨
      t = { s with parent := true } ∨
      ∃ p, t = { s with alive := Function.update s.alive p false } := by
  cases e with
  | acquire p q =>
      left
      simp only [Lock.next] at step
      split at step
      · rename_i at_
        obtain ⟨live, ⟨⟩⟩ := Option.ite_none_right_eq_some.mp step
        exact ⟨p, hs.leave live (.inr ⟨q, .inl rfl⟩) fun _ _ _ _ _ => by
          simp [at_, Local.owns, Local.inFlight, Local.holding]⟩
      · cases step
  | advance p ans =>
      obtain ⟨live, ⟨⟩⟩ := Option.ite_none_right_eq_some.mp step
      exact .inl ⟨p, hs.advance live⟩
  | fault p =>
      obtain ⟨live, step⟩ := Option.ite_none_right_eq_some.mp step
      exact .inl ⟨p, hs.fault live step⟩
  | release p =>
      left
      simp only [Lock.next] at step
      split at step
      · rename_i h at_
        obtain ⟨live, ⟨⟩⟩ := Option.ite_none_right_eq_some.mp step
        have sound := hs.sound p live
        rw [at_] at sound
        exact ⟨p, hs.toHolder live (by rw [at_]; rfl) (by rw [at_]; rfl) (by rw [at_]; rfl) rfl rfl
          rfl rfl sound⟩
      · cases step
  | remove p =>
      simp only [Lock.next] at step
      split at step
      · obtain ⟨_, ⟨⟩⟩ := Option.ite_none_right_eq_some.mp step
        exact .inr (.inl rfl)
      · cases step
  | ensureDir =>
      cases step
      exact .inr (.inr (.inl rfl))
  | crash p =>
      cases step
      exact .inr (.inr (.inr ⟨p, rfl⟩))

theorem next (hs : Inv s) {e : Event} {t : State} (step : Lock.next s e = some t) : Inv t := by
  rcases hs.event step with ⟨p, l, m⟩ | rfl | rfl | ⟨p, rfl⟩
  · exact hs.move m
  · exact hs.remove
  · exact ⟨hs.sound, hs.apart, hs.liveTop, hs.positive, hs.known_lt, hs.pending_lt,
      hs.pending_new, hs.pending_ne⟩
  · exact hs.crash

theorem start (parent : Bool) : Inv (Lock.start parent) := by
  refine ⟨fun _ _ => trivial, ?_, ?_, ?_, ?_, ?_, ?_, ?_⟩
  · rintro p q c c' d _ _ ⟨⟩
  · rintro id d r ⟨⟨⟩, _⟩
  · rintro d id g ⟨⟩
  · rintro u (cur | ⟨p, carried⟩ | ⟨d, g, isDir, _⟩)
    · cases cur
    · cases carried
    · cases isDir
  · rintro p u ⟨⟩
  · rintro p u ⟨⟩
  · rintro p q u _ ⟨⟩

theorem reachable (h : system.Reachable s) : Inv s := by
  refine h.invariant ?_ fun s e t _ hs _ step => hs.next step
  rintro _ ⟨parent, rfl⟩
  exact start parent

end Quickchr.Lock.Inv
