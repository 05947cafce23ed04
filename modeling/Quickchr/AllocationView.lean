import Quickchr.AllocationLocks

/-!
# What a creation knows of the other machines

Under the allocation lock nobody else chooses, so what the other machines have only shrinks
while a creation reads, chooses and claims. A `View` is one account of what the reads find
out; the rules here carry it through a whole run.
-/
namespace Quickchr.Allocation

open PortBlocks

/-- Of the machine `name` nothing appears, and its record stays while it has anything. -/
def Keeps (s s' : State) (name : String) : Prop :=
  ∀ r, s'.Has name r → s.Has name r ∧ (s.machines name = some r → s'.machines name = some r)

theorem Keeps.of_same {s s' : State} {name : String} (machines : s'.machines name = s.machines name)
    (lock : s'.lock name = s.lock name) (alive : ∀ p, s'.alive p = true → s.alive p = true) :
    Keeps s s' name := by
  intro r has
  refine ⟨?_, fun is => machines.trans is⟩
  rcases has with is | ⟨p, is, live⟩
  · exact .inl (machines ▸ is)
  · exact .inr ⟨p, lock ▸ is, alive p live⟩

theorem Keeps.unlocked {s s' : State} {name : String} (machines : s'.machines name = s.machines name)
    (lock : s'.lock name = none) : Keeps s s' name := by
  intro r has
  rcases has with is | ⟨p, is, _⟩
  · exact ⟨.inl (machines ▸ is), fun _ => is⟩
  · rw [lock] at is; cases is

theorem Keeps.gone {s s' : State} {name : String} (machines : s'.machines name = none)
    (lock : s'.lock name = none) : Keeps s s' name := by
  intro r has
  rcases has with is | ⟨p, is, _⟩
  · rw [machines] at is; cases is
  · rw [lock] at is; cases is

theorem keeps_removeMachine (s : State) (name other : String) :
    Keeps s (s.removeMachine name) other := by
  by_cases eq : other = name
  · subst eq
    exact .gone (Function.update_self _ _ _) (Function.update_self _ _ _)
  · exact .of_same (Function.update_of_ne eq _ _) (Function.update_of_ne eq _ _) fun _ => id

theorem keeps_unlock (s : State) (p : ℕ) (name other : String) :
    Keeps s (s.unlock p name) other := by
  unfold State.unlock
  split
  · by_cases eq : other = name
    · subst eq; exact .unlocked rfl (Function.update_self _ _ _)
    · exact .of_same rfl (Function.update_of_ne eq _ _) fun _ => id
  · exact .of_same rfl rfl fun _ => id

theorem Keeps.trans {s s' s'' : State} {name : String} (h : Keeps s s' name) (h' : Keeps s' s'' name) :
    Keeps s s'' name := by
  intro r has
  obtain ⟨has', kept'⟩ := h' r has
  obtain ⟨has'', kept⟩ := h r has'
  exact ⟨has'', fun is => kept' (kept is)⟩

theorem keeps_crash (s : State) (p : ℕ) (name : String) :
    Keeps s { s with alive := Function.update s.alive p false, claimed := none } name :=
  .of_same rfl rfl fun _ live => alive_of_crash live

variable {deriveMac : String → ℕ → ℕ → String}

/-- Only taking a machine lock adds something: what was chosen, under the chosen name. -/
theorem keeps_move {s s' : State} {p : ℕ} {e : Event} (inv : Inv s) (live : s.alive p = true)
    (move : Move deriveMac s p e s') (name : String) :
    Keeps s s' name ∨ ∃ opts r tries, s.procs p = .dirMade opts r tries ∧ opts.name = name ∧
      ∀ r', s'.Has name r' → s.Has name r' ∨ r' = r := by
  have quiet : ∀ phase, Keeps s (s.move p phase) name := fun _ => .of_same rfl rfl fun _ => id
  cases move with
  | @lock opts r tries at_ free dir =>
      by_cases eq : name = opts.name
      · subst eq
        refine .inr ⟨opts, r, tries, at_, rfl, fun r' has => ?_⟩
        rcases has with is | ⟨q, is, _⟩
        · exact .inl (.inl is)
        · have is : Function.update s.lock opts.name (some (p, r)) opts.name = some (q, r') := is
          rw [Function.update_self] at is
          cases is
          exact .inr rfl
      · exact .inl (.of_same rfl (Function.update_of_ne eq _ _) fun _ => id)
  | @exists_ opts r at_ => exact .inl ((quiet _).trans (keeps_unlock _ p opts.name name))
  | @save opts r at_ =>
      have holds : (s.procs p).holds = some (opts.name, r) := by rw [at_]; rfl
      have lock := (inv.phases p live).holds _ _ holds
      by_cases eq : name = opts.name
      · subst eq
        refine .inl fun r' has => ?_
        have same : r' = r := by
          rcases has with is | ⟨q, is, _⟩
          · have is : Function.update s.machines opts.name (some r) opts.name = some r' := is
            rw [Function.update_self] at is
            exact (Option.some.inj is).symm
          · exact (Prod.mk.inj (Option.some.inj (lock.symm.trans is))).2.symm
        subst same
        exact ⟨.inr ⟨p, lock, live⟩, fun _ => Function.update_self _ _ _⟩
      · exact .inl (.of_same (Function.update_of_ne eq _ _) rfl fun _ => id)
  | @unlock opts r e at_ => exact .inl ((quiet _).trans (keeps_unlock _ p opts.name name))
  | @removed opts | @discard opts =>
      exact .inl ((quiet _).trans (keeps_removeMachine _ opts.name name))
  | _ => exact .inl (.of_same rfl rfl fun _ => id)

/-- Seen from a creation under the allocation lock, the other machines only shrink. -/
theorem keeps_next {s s' : State} {e : Event} (inv : Inv s) (step : next deriveMac s e = some s')
    {p : ℕ} {opts : StartOptions} (live : s.alive p = true) (critical : (s.procs p).critical = true)
    (own : (s.procs p).opts? = some opts) {name : String} (other : name ≠ opts.name) :
    Keeps s s' name := by
  rcases next_cases step with ⟨removed, _, rfl⟩ | ⟨q, rfl⟩ | ⟨q, live', move⟩
  · exact keeps_removeMachine s removed name
  · exact keeps_crash s q name
  · rcases keeps_move inv live' move name with keeps | ⟨opts', r, tries, at_, eq, -⟩
    · exact keeps
    · have mine : q = p := by
        have theirs := (inv.phases q live').critical (by rw [at_]; rfl)
        exact Option.some.inj (theirs.symm.trans ((inv.phases p live).critical critical))
      subst mine
      rw [at_] at own
      cases own
      exact absurd eq.symm other

def Stage.rank : Stage → ℕ
  | .machines => 0
  | .reservations => 1
  | .bases => 2
  | .macs => 3

/-- The entry `name` of the stage `x` is still to be read. -/
def Pending (stage : Stage) (todo : Option (List String)) (x : Stage) (name : String) : Prop :=
  stage.rank < x.rank ∨ stage = x ∧ ∀ names, todo = some names → name ∈ names

theorem Pending.list {stage x : Stage} {names : List String} {name : String}
    (h : Pending stage none x name) (listed : name ∈ names) : Pending stage (some names) x name :=
  h.imp_right fun same => ⟨same.1, fun _ is => Option.some.inj is ▸ listed⟩

theorem Pending.read {stage x : Stage} {todo : List String} {head name : String}
    (h : Pending stage (some (head :: todo)) x name) :
    Pending stage (some todo) x name ∨ stage = x ∧ name = head := by
  rcases h with before | ⟨rfl, inside⟩
  · exact .inl (.inl before)
  · rcases List.mem_cons.mp (inside _ rfl) with rfl | later
    · exact .inr ⟨rfl, rfl⟩
    · exact .inl (.inr ⟨rfl, fun _ is => Option.some.inj is ▸ later⟩)

theorem Pending.nextStage {stage stage' x : Stage} {name : String}
    (h : Pending stage (some []) x name) (next : stage.next = some stage') :
    Pending stage' none x name := by
  rcases h with before | ⟨_, inside⟩
  · cases stage <;> cases next <;> cases x <;>
      simp only [Stage.rank, Nat.lt_irrefl, Nat.not_lt_zero, Nat.reduceLT] at before <;>
      first
      | exact .inr ⟨rfl, fun _ is => by cases is⟩
      | exact .inl (by decide)
  · cases inside [] rfl

theorem Pending.done {stage x : Stage} {name : String} (h : Pending stage (some []) x name)
    (last : stage.next = none) : False := by
  rcases h with before | ⟨_, inside⟩
  · cases stage <;> cases last
    cases x <;> exact absurd before (by decide)
  · cases inside [] rfl

theorem readEntry_grows (s : State) (opts : StartOptions) (stage : Stage) (name : String)
    (picked : Picked) : picked.machines ⊆ (readEntry s opts stage name picked).machines ∧
      picked.reserved ⊆ (readEntry s opts stage name picked).reserved ∧
      picked.bases ⊆ (readEntry s opts stage name picked).bases ∧
      picked.macs ⊆ (readEntry s opts stage name picked).macs := by
  have same : ∀ {α : Type} (l : List α), l ⊆ l := fun l => List.Subset.refl l
  cases stage with
  | machines => exact ⟨List.subset_append_left _ _, same _, same _, same _⟩
  | reservations =>
      unfold readEntry
      dsimp only
      split
      · exact ⟨same _, same _, same _, same _⟩
      · exact ⟨same _, List.subset_append_left _ _, same _, same _⟩
  | bases => exact ⟨same _, same _, List.subset_append_left _ _, same _⟩
  | macs => exact ⟨same _, same _, same _, List.subset_append_left _ _⟩

theorem reserves_locked {s : State} {opts : StartOptions} {name : String} {p : ℕ} {r : Resources}
    (is : s.lock name = some (p, r)) (live : s.alive p = true) (other : name ≠ opts.name)
    (picked : Picked) :
    (name, r.reservation) ∈ (readEntry s opts .reservations name picked).reserved := by
  unfold readEntry
  dsimp only
  rw [if_neg other, is, Option.filter_some_pos (by exact live)]
  exact List.mem_append_right _ (List.mem_singleton_self _)

theorem reserves {s : State} {opts : StartOptions} {name : String} {r : Resources}
    (has : s.Has name r) (other : name ≠ opts.name) (picked : Picked) :
    (name, r.reservation) ∈ (readEntry s opts .reservations name picked).reserved ∨
      s.machines name = some r := by
  rcases has with is | ⟨p, is, live⟩
  · exact .inr is
  · exact .inl (reserves_locked is live other picked)

/-- An account of what a creation finds out about another machine: `seen` while it reads,
`known` after its last read, and what its choice is then `clear` of. -/
structure View (deriveMac : String → ℕ → ℕ → String) (G : State → Event → Prop) where
  seen : State → StartOptions → Stage → Option (List String) → Picked → String → Resources → Prop
  known : StartOptions → Picked → String → Resources → Prop
  clear : StartOptions → Resources → Resources → Prop
  start : ∀ {s opts name r}, seen s opts .machines none {} name r
  keeps : ∀ {s s' opts stage todo picked name r},
    (s.machines name = some r → s'.machines name = some r) →
      seen s opts stage todo picked name r → seen s' opts stage todo picked name r
  list : ∀ {s opts stage picked name r names}, name ∈ names →
    seen s opts stage none picked name r → seen s opts stage (some names) picked name r
  read : ∀ {s p opts stage head todo picked name r}, Inv s → s.alive p = true → G s (.read p) →
    s.procs p = .reading opts stage (some (head :: todo)) picked → name ≠ opts.name → s.Has name r →
      seen s opts stage (some (head :: todo)) picked name r →
        seen s opts stage (some todo) (readEntry s opts stage head picked) name r
  nextStage : ∀ {s opts stage stage' picked name r}, stage.next = some stage' →
    seen s opts stage (some []) picked name r → seen s opts stage' none picked name r
  done : ∀ {s opts stage picked name r}, stage.next = none →
    seen s opts stage (some []) picked name r → known opts picked name r
  pick : ∀ {opts picked busy rounds name r r'}, name ≠ opts.name → known opts picked name r' →
    pickNewMachineResources deriveMac opts picked busy rounds = .ok (some r) → clear opts r r'

namespace View

variable {G : State → Event → Prop} (V : View deriveMac G)

def Covered (s : State) : Phase → Prop
  | .reading opts stage todo picked =>
      ∀ name r, name ≠ opts.name → s.Has name r → V.seen s opts stage todo picked name r
  | .choosing opts picked => ∀ name r, name ≠ opts.name → s.Has name r → V.known opts picked name r
  | .chosen opts r _ | .dirMade opts r _ | .locked opts r | .granted opts r =>
      ∀ name r', name ≠ opts.name → s.Has name r' → V.clear opts r r'
  | _ => True

def Covers (s : State) : Prop := ∀ p, s.alive p = true → V.Covered s (s.procs p)

variable {V}

theorem Covered.keeps {s s' : State} {phase : Phase} (h : V.Covered s phase)
    (keeps : ∀ opts, phase.critical = true → phase.opts? = some opts →
      ∀ name, name ≠ opts.name → Keeps s s' name) :
    V.Covered s' phase := by
  cases phase with
  | reading opts stage todo picked =>
      intro name r other has
      obtain ⟨had, kept⟩ := keeps opts rfl rfl name other r has
      exact V.keeps kept (h name r other had)
  | choosing opts picked | chosen opts r tries | dirMade opts r tries | locked opts r | granted opts r =>
      exact fun name r other has => h name r other (keeps opts rfl rfl name other r has).1
  | _ => trivial

theorem covered_move {s s' : State} {p : ℕ} {e : Event} (inv : Inv s) (live : s.alive p = true)
    (covered : V.Covered s (s.procs p)) (g : G s e) (step : next deriveMac s e = some s')
    (move : Move deriveMac s p e s') : V.Covered s' (s'.procs p) := by
  have lands : ∀ {phase}, s'.procs p = phase →
      (phase.critical = true → (s.procs p).critical = true ∧ (s.procs p).opts? = phase.opts?) →
      V.Covered s phase → V.Covered s' (s'.procs p) := by
    intro phase is from_ h
    rw [is]
    exact h.keeps fun opts critical own _ other =>
      keeps_next inv step live (from_ critical).1 ((from_ critical).2.trans own) other
  have at_ : ∀ phase, Function.update s.procs p phase p = phase := fun _ => Function.update_self _ _ _
  cases move with
  | acquire was free =>
      rw [show State.procs _ p = _ from at_ _]
      exact fun _ _ _ _ => V.start
  | list was listed =>
      rw [was] at covered
      exact lands (at_ _) (fun _ => by rw [was]; exact ⟨rfl, rfl⟩) fun name r other has =>
        V.list (listed name (inv.dir has)) (covered name r other has)
  | read was =>
      rw [was] at covered
      exact lands (at_ _) (fun _ => by rw [was]; exact ⟨rfl, rfl⟩) fun name r other has =>
        V.read inv live g was other has (covered name r other has)
  | nextStage was next =>
      rw [was] at covered
      exact lands (at_ _) (fun _ => by rw [was]; exact ⟨rfl, rfl⟩) fun name r other has =>
        V.nextStage next (covered name r other has)
  | readAll was last =>
      rw [was] at covered
      exact lands (at_ _) (fun _ => by rw [was]; exact ⟨rfl, rfl⟩) fun name r other has =>
        V.done last (covered name r other has)
  | choose was ok =>
      rw [was] at covered
      exact lands (at_ _) (fun _ => by rw [was]; exact ⟨rfl, rfl⟩) fun name r' other has =>
        V.pick other (covered name r' other has) ok
  | ensureDir was | lock was | retry was | check was =>
      rw [was] at covered
      exact lands (at_ _) (fun _ => by rw [was]; exact ⟨rfl, rfl⟩) covered
  | exists_ | unlock =>
      rw [(State.unlock_frame _ _ _).1, show State.procs _ p = _ from at_ _]
      trivial
  | removed was =>
      rw [show State.procs _ p = _ from at_ _]
      rcases was with ⟨-, rfl⟩ | ⟨-, rfl⟩ <;> trivial
  | _ => rw [show State.procs _ p = _ from at_ _]; trivial

theorem Covers.next {s s' : State} {e : Event} (h : V.Covers s) (inv : Inv s) (g : G s e)
    (step : next deriveMac s e = some s') : V.Covers s' := by
  intro q live
  by_cases moved : ∃ p, s.alive p = true ∧ Move deriveMac s p e s' ∧ q = p
  · obtain ⟨p, live', move, rfl⟩ := moved
    exact covered_move inv live' (h q live') g step move
  · obtain ⟨was, same⟩ : s.alive q = true ∧ s'.procs q = s.procs q := by
      rcases next_cases step with ⟨removed, _, rfl⟩ | ⟨p, rfl⟩ | ⟨p, live', move⟩
      · exact ⟨live, rfl⟩
      · exact ⟨alive_of_crash live, rfl⟩
      · exact ⟨move.alive ▸ live, move.others fun self => moved ⟨p, live', move, self⟩⟩
    rw [same]
    exact (h q was).keeps fun opts critical own _ other =>
      keeps_next inv step was critical own other

theorem Covers.initial {s : State} (start : (system deriveMac).Initial s) : V.Covers s := by
  intro p _
  rw [start.2.2.2.1 p]
  trivial

end View

/-- What a machine has after a step it had before, unless it was locked with it just now. -/
theorem has_next {s s' : State} {e : Event} (inv : Inv s) (step : next deriveMac s e = some s')
    {name : String} {r : Resources} (has : s'.Has name r) :
    s.Has name r ∨ ∃ p opts tries, s.alive p = true ∧ s.procs p = .dirMade opts r tries ∧
      opts.name = name := by
  rcases next_cases step with ⟨removed, _, rfl⟩ | ⟨q, rfl⟩ | ⟨q, live, move⟩
  · exact .inl (keeps_removeMachine s removed name r has).1
  · exact .inl (keeps_crash s q name r has).1
  · rcases keeps_move inv live move name with keeps | ⟨opts, chosen, tries, at_, rfl, adds⟩
    · exact .inl (keeps r has).1
    · rcases adds r has with had | rfl
      · exact .inl had
      · exact .inr ⟨q, opts, tries, live, at_, rfl⟩

end Quickchr.Allocation
