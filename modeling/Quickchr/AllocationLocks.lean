import Quickchr.Allocation

/-!
# Who holds what during a creation

Only the holder of the allocation lock is between its first read and the return of
`claimNewMachine`; a live creation that has its machine lock keeps it, and nobody else saves
or removes its machine.
-/
namespace Quickchr.Allocation

open PortBlocks

def Phase.critical : Phase → Bool
  | .reading .. | .choosing .. | .chosen .. | .dirMade .. | .locked .. | .granted .. | .leaving => true
  | .idle | .waiting _ | .creating .. | .saved .. | .failing _ | .condemned _ => false

/-- The machine lock that is held, and with what. -/
def Phase.holds : Phase → Option (String × Resources)
  | .locked opts r | .granted opts r | .creating opts r | .saved opts r => some (opts.name, r)
  | _ => none

/-- `machine.json` as a holder of the machine lock knows it. -/
def Phase.record (s : State) : Phase → Prop
  | .granted opts _ | .creating opts _ => s.machines opts.name = none
  | .saved opts r => s.machines opts.name = some r
  | .condemned _ => False
  | _ => True

structure PhaseOk (s : State) (p : ℕ) (phase : Phase) : Prop where
  critical : phase.critical = true → s.allocation = some p
  holds : ∀ name r, phase.holds = some (name, r) → s.lock name = some (p, r)
  record : phase.record s

structure Inv (s : State) : Prop where
  machineDir : ∀ name r, s.machines name = some r → name ∈ s.dirs
  lockDir : ∀ name l, s.lock name = some l → name ∈ s.dirs
  owner : ∀ name p r, s.lock name = some (p, r) → s.alive p = true →
    (s.procs p).holds = some (name, r)
  phases : ∀ p, s.alive p = true → PhaseOk s p (s.procs p)

theorem PhaseOk.frame {s s' : State} {q : ℕ} {phase : Phase} (h : PhaseOk s q phase)
    (allocation : phase.critical = true → s'.allocation = s.allocation)
    (same : ∀ name r, phase.holds = some (name, r) →
      s'.lock name = s.lock name ∧ s'.machines name = s.machines name) : PhaseOk s' q phase := by
  refine ⟨fun critical => (allocation critical).trans (h.critical critical),
    fun name r holds => (same name r holds).1.trans (h.holds name r holds), ?_⟩
  have record := h.record
  cases phase with
  | granted opts r => exact (same opts.name r rfl).2.trans record
  | creating opts r => exact (same opts.name r rfl).2.trans record
  | saved opts r => exact (same opts.name r rfl).2.trans record
  | condemned => exact record
  | _ => trivial

/-- One live creation `p` takes a step that touches no other name than `name`, which no other
live creation holds. -/
structure Step (s s' : State) (p : ℕ) (name : String) (phase : Phase) : Prop where
  alive : s.alive p = true
  sameAlive : s'.alive = s.alive
  procs : s'.procs = Function.update s.procs p phase
  others : ∀ other, other ≠ name →
    s'.lock other = s.lock other ∧ s'.machines other = s.machines other ∧
      (other ∈ s.dirs → other ∈ s'.dirs)
  keeps : ∀ other r, (s.procs p).holds = some (other, r) → other = name
  free : ∀ q r, q ≠ p → s.alive q = true → (s.procs q).holds ≠ some (name, r)
  allocation : s'.allocation = s.allocation ∨
    ∀ q, q ≠ p → s.alive q = true → (s.procs q).critical = false
  machineDir : ∀ r, s'.machines name = some r → name ∈ s'.dirs
  lockDir : ∀ l, s'.lock name = some l → name ∈ s'.dirs
  owner : ∀ q r, s'.lock name = some (q, r) → s.alive q = true → q = p ∧ phase.holds = some (name, r)
  phase : PhaseOk s' p phase

theorem Inv.step {s s' : State} {p : ℕ} (name : String) (phase : Phase) (h : Inv s)
    (step : Step s s' p name phase) : Inv s' := by
  refine ⟨fun other r is => ?_, fun other l is => ?_, fun other q r is live => ?_, fun q live => ?_⟩
  · by_cases eq : other = name
    · subst eq; exact step.machineDir r is
    · obtain ⟨_, machines, dirs⟩ := step.others other eq
      exact dirs (h.machineDir other r (machines ▸ is))
  · by_cases eq : other = name
    · subst eq; exact step.lockDir l is
    · obtain ⟨lock, _, dirs⟩ := step.others other eq
      exact dirs (h.lockDir other l (lock ▸ is))
  · rw [step.sameAlive] at live
    rw [step.procs]
    by_cases eq : other = name
    · subst eq
      obtain ⟨rfl, holds⟩ := step.owner q r is live
      rw [Function.update_self, holds]
    · rw [(step.others other eq).1] at is
      have holds := h.owner other q r is live
      by_cases self : q = p
      · subst self; exact absurd (step.keeps other r holds) eq
      · rw [Function.update_of_ne self, holds]
  · rw [step.sameAlive] at live
    rw [step.procs]
    by_cases self : q = p
    · subst self; rw [Function.update_self]; exact step.phase
    · rw [Function.update_of_ne self]
      refine (h.phases q live).frame (fun critical => ?_) fun other r holds => ?_
      · rcases step.allocation with same | none
        · exact same
        · rw [none q self live] at critical; cases critical
      · have eq : other ≠ name := fun eq => step.free q r self live (eq ▸ holds)
        exact ⟨(step.others other eq).1, (step.others other eq).2.1⟩

/-- A step that leaves the machines, their locks and what `p` holds as they are. -/
theorem Inv.quiet {s s' : State} {p : ℕ} {phase : Phase} (h : Inv s) (live : s.alive p = true)
    (same : s'.machines = s.machines ∧ s'.lock = s.lock ∧ s'.alive = s.alive)
    (dirs : ∀ name ∈ s.dirs, name ∈ s'.dirs) (procs : s'.procs = Function.update s.procs p phase)
    (holds : phase.holds = (s.procs p).holds)
    (allocation : s'.allocation = s.allocation ∨
      ∀ q, q ≠ p → s.alive q = true → (s.procs q).critical = false)
    (critical : phase.critical = true → s'.allocation = some p) (record : phase.record s) :
    Inv s' := by
  obtain ⟨machines, lock, alive⟩ := same
  refine ⟨fun name r is => dirs name (h.machineDir name r (machines ▸ is)),
    fun name l is => dirs name (h.lockDir name l (lock ▸ is)), fun name q r is live' => ?_,
    fun q live' => ?_⟩
  · rw [lock] at is
    rw [alive] at live'
    have held := h.owner name q r is live'
    rw [procs]
    by_cases self : q = p
    · subst self; rw [Function.update_self, holds, held]
    · rw [Function.update_of_ne self, held]
  · rw [alive] at live'
    rw [procs]
    have keeps : ∀ name, s'.lock name = s.lock name ∧ s'.machines name = s.machines name :=
      fun name => ⟨by rw [lock], by rw [machines]⟩
    by_cases self : q = p
    · subst self
      rw [Function.update_self]
      refine ⟨critical, fun name r is => ?_, ?_⟩
      · rw [lock]; exact (h.phases q live).holds name r (holds ▸ is)
      · cases phase with
        | granted opts r => exact (keeps opts.name).2.trans record
        | creating opts r => exact (keeps opts.name).2.trans record
        | saved opts r => exact (keeps opts.name).2.trans record
        | condemned => exact record
        | _ => trivial
    · rw [Function.update_of_ne self]
      refine (h.phases q live').frame (fun critical => ?_) fun name _ _ => keeps name
      rcases allocation with same | none
      · exact same
      · rw [none q self live'] at critical; cases critical

theorem Inv.dir {s : State} (h : Inv s) {name : String} {r : Resources} (has : s.Has name r) :
    name ∈ s.dirs := by
  rcases has with is | ⟨_, is, _⟩
  · exact h.machineDir name r is
  · exact h.lockDir name _ is

theorem Inv.others_idle {s : State} {p : ℕ} (h : Inv s) (mine : s.allocation = some p) (q : ℕ)
    (other : q ≠ p) (live : s.alive q = true) : (s.procs q).critical = false := by
  refine Bool.eq_false_iff.mpr fun critical => other ?_
  exact Option.some.inj (((h.phases q live).critical critical).symm.trans mine)

/-- A live holder of a machine lock is the only one for that name. -/
theorem Inv.holder_unique {s : State} (h : Inv s) {p q : ℕ} {name : String} {r r' : Resources}
    (live : s.alive p = true) (live' : s.alive q = true)
    (holds : (s.procs p).holds = some (name, r)) (holds' : (s.procs q).holds = some (name, r')) :
    q = p := by
  have mine := (h.phases p live).holds name r holds
  have theirs := (h.phases q live').holds name r' holds'
  exact congrArg Prod.fst (Option.some.inj (theirs.symm.trans mine))

theorem Inv.not_held {s : State} (h : Inv s) {name : String} (free : s.held name = false) {q : ℕ}
    {r : Resources} (live : s.alive q = true) : (s.procs q).holds ≠ some (name, r) := by
  intro holds
  have lock := (h.phases q live).holds name r holds
  rw [State.held, lock, Option.any_some, live] at free
  cases free

theorem Inv.gives {s s' : State} {p : ℕ} {phase : Phase} (name : String) {r : Resources} (h : Inv s)
    (live : s.alive p = true) (holds : (s.procs p).holds = some (name, r))
    (procs : s'.procs = Function.update s.procs p phase) (alive : s'.alive = s.alive)
    (others : ∀ other, other ≠ name →
      s'.lock other = s.lock other ∧ s'.machines other = s.machines other ∧
        (other ∈ s.dirs → other ∈ s'.dirs))
    (allocation : s'.allocation = s.allocation)
    (machineDir : ∀ r, s'.machines name = some r → name ∈ s'.dirs)
    (unlocked : s'.lock name = none) (none : phase.holds = none)
    (critical : phase.critical = true → (s.procs p).critical = true)
    (record : phase.record s') : Inv s' := by
  refine h.step name phase ⟨live, alive, procs, others, fun other r' is => ?_, fun q r' other live' holds' => ?_,
    .inl allocation, machineDir, fun l is => ?_, fun q r' is => ?_, ⟨fun is => ?_, fun _ _ is => ?_, record⟩⟩
  · rw [holds] at is; cases is; rfl
  · exact other (h.holder_unique live live' holds holds')
  · rw [unlocked] at is; cases is
  · rw [unlocked] at is; cases is
  · exact allocation.trans ((h.phases p live).critical (critical is))
  · rw [none] at is; cases is

theorem Inv.remove {s : State} {name : String} (h : Inv s) (free : s.held name = false) :
    Inv (s.removeMachine name) := by
  have keeps : ∀ other, other ≠ name → (s.removeMachine name).lock other = s.lock other ∧
      (s.removeMachine name).machines other = s.machines other ∧
      (other ∈ s.dirs → other ∈ (s.removeMachine name).dirs) := fun other ne =>
    ⟨Function.update_of_ne ne _ _, Function.update_of_ne ne _ _,
      fun member => List.mem_filter.mpr ⟨member, decide_eq_true ne⟩⟩
  have gone : (s.removeMachine name).lock name = none ∧ (s.removeMachine name).machines name = none :=
    ⟨Function.update_self _ _ _, Function.update_self _ _ _⟩
  refine ⟨fun other r is => ?_, fun other l is => ?_, fun other q r is live => ?_, fun q live => ?_⟩
  · by_cases eq : other = name
    · subst eq; rw [gone.2] at is; cases is
    · exact (keeps other eq).2.2 (h.machineDir other r ((keeps other eq).2.1 ▸ is))
  · by_cases eq : other = name
    · subst eq; rw [gone.1] at is; cases is
    · exact (keeps other eq).2.2 (h.lockDir other l ((keeps other eq).1 ▸ is))
  · by_cases eq : other = name
    · subst eq; rw [gone.1] at is; cases is
    · exact h.owner other q r ((keeps other eq).1 ▸ is) live
  · refine (h.phases q live).frame (fun _ => rfl) fun other r holds => ?_
    have eq : other ≠ name := fun eq => h.not_held free live (eq ▸ holds)
    exact ⟨(keeps other eq).1, (keeps other eq).2.1⟩

theorem Inv.crash {s : State} (h : Inv s) (p : ℕ) :
    Inv { s with alive := Function.update s.alive p false, claimed := none } :=
  ⟨h.machineDir, h.lockDir, fun name q r is live => h.owner name q r is (alive_of_crash live),
    fun q live => (h.phases q (alive_of_crash live)).frame (fun _ => rfl) fun _ _ _ => ⟨rfl, rfl⟩⟩

variable {deriveMac : String → ℕ → ℕ → String}

theorem Inv.unlocks {s : State} {p : ℕ} {phase : Phase} (name : String) {r : Resources} (h : Inv s)
    (live : s.alive p = true) (holds : (s.procs p).holds = some (name, r)) (none : phase.holds = none)
    (critical : phase.critical = true → (s.procs p).critical = true)
    (record : ∀ t : State, phase.record t) : Inv ((s.move p phase).unlock p name) := by
  have lock : (s.move p phase).lock name = some (p, r) := (h.phases p live).holds name r holds
  rw [State.unlock_own lock]
  exact h.gives name live holds rfl rfl
    (fun other ne => ⟨Function.update_of_ne ne _ _, rfl, id⟩) rfl
    (fun r' is => h.machineDir _ r' is) (Function.update_self _ _ _) none critical (record _)

theorem Inv.removes {s : State} {p : ℕ} {phase : Phase} (name : String) {r : Resources} (h : Inv s)
    (live : s.alive p = true) (holds : (s.procs p).holds = some (name, r)) (none : phase.holds = none)
    (critical : phase.critical = false) (record : ∀ t : State, phase.record t) :
    Inv ((s.move p phase).removeMachine name) := by
  have gone : ((s.move p phase).removeMachine name).machines name = Option.none :=
    Function.update_self _ _ _
  refine h.gives name live holds rfl rfl
    (fun other ne => ⟨Function.update_of_ne ne _ _, Function.update_of_ne ne _ _,
      fun member => List.mem_filter.mpr ⟨member, decide_eq_true ne⟩⟩) rfl (fun r' is => ?_)
    (Function.update_self _ _ _) none (fun is => ?_) (record _)
  · rw [gone] at is; cases is
  · rw [critical] at is; cases is

theorem Inv.move {s s' : State} {p : ℕ} {e : Event} (h : Inv s) (live : s.alive p = true)
    (own : ownOrphan s e = true) (move : Move deriveMac s p e s') : Inv s' := by
  have mine : ∀ {phase}, s.procs p = phase → phase.critical = true → s.allocation = some p :=
    fun at_ critical => (h.phases p live).critical (at_ ▸ critical)
  have same : ∀ name ∈ s.dirs, name ∈ s.dirs := fun _ member => member
  cases move with
  | call at_ | giveUp at_ =>
      exact h.quiet live ⟨rfl, rfl, rfl⟩ same rfl (by rw [at_]; rfl) (.inl rfl) (fun is => by cases is)
        trivial
  | list at_ | read at_ | nextStage at_ | readAll at_ | choose at_ | refused at_ | lockRefused at_
  | retry at_ =>
      exact h.quiet live ⟨rfl, rfl, rfl⟩ same rfl (by rw [at_]; rfl) (.inl rfl) (fun _ => mine at_ rfl)
        trivial
  | acquire at_ free =>
      refine h.quiet live ⟨rfl, rfl, rfl⟩ same rfl (by rw [at_]; rfl) (.inr fun q _ live' => ?_)
        (fun _ => rfl) trivial
      refine Bool.eq_false_iff.mpr fun critical => ?_
      rw [(h.phases q live').critical critical, Option.any_some, live'] at free
      cases free
  | @ensureDir opts r tries at_ =>
      exact h.quiet live ⟨rfl, rfl, rfl⟩ (fun name => State.mem_ensureDir) rfl (by rw [at_]; rfl)
        (.inl rfl) (fun _ => mine at_ rfl) trivial
  | @lock opts r tries at_ free dir =>
      refine h.step opts.name (.locked opts r) ⟨live, rfl, rfl,
        fun other ne => ⟨Function.update_of_ne ne _ _, rfl, id⟩, fun other r' is => ?_,
        fun q r' _ live' => h.not_held free live', .inl rfl, fun r' is => h.machineDir _ r' is,
        fun _ _ => dir, fun q r' is _ => ?_, ⟨fun _ => mine at_ rfl, fun name r' is => ?_, trivial⟩⟩
      · rw [at_] at is; cases is
      · have is : Function.update s.lock opts.name (some (p, r)) opts.name = some (q, r') := is
        rw [Function.update_self] at is
        cases is
        exact ⟨rfl, rfl⟩
      · cases is
        exact Function.update_self _ _ _
  | @exists_ opts r at_ =>
      exact h.unlocks opts.name (r := r) live (by rw [at_]; rfl) rfl (fun _ => by rw [at_]; rfl)
        fun _ => trivial
  | check at_ new =>
      exact h.quiet live ⟨rfl, rfl, rfl⟩ same rfl (by rw [at_]; rfl) (.inl rfl) (fun _ => mine at_ rfl)
        new
  | release at_ =>
      refine h.quiet live ⟨rfl, rfl, rfl⟩ same rfl (by rw [at_]; rfl)
        (.inr (h.others_idle (mine at_ rfl))) (fun is => by cases is) ?_
      have ok := (h.phases p live).record
      rw [at_] at ok
      exact ok
  | leave at_ =>
      exact h.quiet live ⟨rfl, rfl, rfl⟩ same rfl (by rw [at_]; rfl)
        (.inr (h.others_idle (mine at_ rfl))) (fun is => by cases is) trivial
  | @save opts r at_ =>
      have holds : (s.procs p).holds = some (opts.name, r) := by rw [at_]; rfl
      have lock := (h.phases p live).holds _ _ holds
      refine h.step opts.name (.saved opts r) ⟨live, rfl, rfl,
        fun other ne => ⟨rfl, Function.update_of_ne ne _ _, State.mem_ensureDir⟩, fun other r' is => ?_,
        fun q r' other live' holds' => other (h.holder_unique live live' holds holds'), .inl rfl,
        fun _ _ => State.mem_ensureDir (h.lockDir _ _ lock),
        fun _ is => State.mem_ensureDir (h.lockDir _ _ is), fun q r' is _ => ?_,
        ⟨fun is => (by cases is), fun name r' is => ?_, Function.update_self _ _ _⟩⟩
      · rw [holds] at is; cases is; rfl
      · cases lock.symm.trans is; exact ⟨rfl, rfl⟩
      · cases is; exact lock
  | @unlock opts r e at_ =>
      exact h.unlocks opts.name (r := r) live (by rcases at_ with at_ | at_ <;> rw [at_] <;> rfl) rfl
        (fun is => by cases is) fun _ => trivial
  | @removed opts r cleanup phase at_ =>
      rcases at_ with ⟨at_, rfl⟩ | ⟨at_, rfl⟩ <;>
        exact h.removes opts.name (r := r) live (by rw [at_]; rfl) rfl rfl fun _ => trivial
  | @condemn opts at_ orphan =>
      rw [ownOrphan, at_, Bool.not_eq_true'] at own
      cases own.symm.trans orphan
  | spare at_ =>
      exact h.quiet live ⟨rfl, rfl, rfl⟩ same rfl (by rw [at_]; rfl) (.inl rfl) (fun is => by cases is)
        trivial
  | discard at_ =>
      have never := (h.phases p live).record
      rw [at_] at never
      exact never.elim

theorem Inv.next {s s' : State} {e : Event} (h : Inv s) (own : ownOrphan s e = true)
    (step : next deriveMac s e = some s') : Inv s' := by
  rcases next_cases step with ⟨name, free, rfl⟩ | ⟨p, rfl⟩ | ⟨p, live, move⟩
  · exact h.remove free
  · exact h.crash p
  · exact h.move live own move

theorem Inv.initial {s : State} (start : (system deriveMac).Initial s) : Inv s := by
  obtain ⟨dirs, unlocked, _, idle, _⟩ := start
  refine ⟨dirs, fun name l is => ?_, fun name q r is => ?_, fun q _ => ?_⟩
  · rw [unlocked] at is; cases is
  · rw [unlocked] at is; cases is
  · rw [idle]
    exact ⟨fun is => (by cases is), fun _ _ is => (by cases is), trivial⟩

end Quickchr.Allocation
