import Quickchr.PortBlocks
import Quickchr.Lib.Transition
import Mathlib.Logic.Function.Basic

/-!
# Creations that run at the same time

`claimNewMachine` under the allocation lock, one file-system read at a time, and what becomes
of a creation afterwards: saved, released, failed, rolled back, crashed, removed. The locks
exclude each other; a lock whose holder has died is free.
-/
namespace Quickchr.Allocation

open PortBlocks

/-- The options of a creation that its resources depend on. A base of 0 is none. -/
structure StartOptions where
  name : String
  portBase : ℕ := 0
  excludePorts : List String := []
  extraPorts : List PortMapping := []
  nics : ℕ := 1
  deriving DecidableEq

/-- The reads of `pickNewMachineResources`, in their order: `loadAllMachines`,
`listReservations`, `getUsedPortBases`, `getUsedMacs`. -/
inductive Stage
  | machines | reservations | bases | macs
  deriving DecidableEq

structure Picked where
  machines : List (String × Resources) := []
  reserved : List (String × ResourceReservation) := []
  bases : List ℕ := []
  macs : List String := []

inductive Phase
  | idle
  | waiting (opts : StartOptions)
  /-- `todo` are the names of the listing that are still to be read; `none` before it. -/
  | reading (opts : StartOptions) (stage : Stage) (todo : Option (List String)) (picked : Picked)
  | choosing (opts : StartOptions) (picked : Picked)
  | chosen (opts : StartOptions) (r : Resources) (tries : ℕ)
  | dirMade (opts : StartOptions) (r : Resources) (tries : ℕ)
  | locked (opts : StartOptions) (r : Resources)
  /-- `machine.json` is not there: `claimNewMachine` returns once the allocation lock is out. -/
  | granted (opts : StartOptions) (r : Resources)
  /-- `claimNewMachine` throws once the allocation lock is out. -/
  | leaving
  | creating (opts : StartOptions) (r : Resources)
  | saved (opts : StartOptions) (r : Resources)
  /-- `start` has removed the machine that did not boot; its error handler comes next. -/
  | failing (opts : StartOptions)
  /-- The error handler has found a directory of the name with no `machine.json`. -/
  | condemned (opts : StartOptions)

structure State where
  /-- Every `machine.json`. -/
  machines : String → Option Resources
  dirs : List String
  /-- The machine locks of creations: the holder and what it has chosen. -/
  lock : String → Option (ℕ × Resources)
  allocation : Option ℕ
  alive : ℕ → Bool
  procs : ℕ → Phase
  /-- The claim that has returned in the last step. -/
  claimed : Option (StartOptions × Resources)

inductive Event
  | call (p : ℕ) (opts : StartOptions)
  | acquire (p : ℕ)
  /-- `readdir`, in any order. -/
  | list (p : ℕ) (names : List String)
  | read (p : ℕ)
  /-- The choice from what was read, with the answers of the port probes. -/
  | choose (p : ℕ) (busy : ℕ → Bool) (rounds : ℕ)
  | ensureDir (p : ℕ)
  | lock (p : ℕ)
  | check (p : ℕ)
  | release (p : ℕ)
  | save (p : ℕ)
  | finish (p : ℕ)
  | discard (p : ℕ)
  /-- A creation fails: it does not get the allocation lock in time, or later, before or after
  `saveMachine`, when it removes the machine or only gives the lock back. -/
  | fail (p : ℕ) (cleanup : Bool)
  | crash (p : ℕ)
  /-- `remove` by another process, under the machine lock. -/
  | remove (name : String)

def Phase.opts? : Phase → Option StartOptions
  | .idle | .leaving => none
  | .waiting opts | .reading opts .. | .choosing opts _ | .chosen opts .. | .dirMade opts ..
  | .locked opts _ | .granted opts _ | .creating opts _ | .saved opts _ | .failing opts
  | .condemned opts => some opts

/-- The machine lock of `name` has a live holder. -/
def State.held (s : State) (name : String) : Bool := (s.lock name).any fun l => s.alive l.1

def Stage.next : Stage → Option Stage
  | .machines => some .reservations
  | .reservations => some .bases
  | .bases => some .macs
  | .macs => none

def readEntry (s : State) (opts : StartOptions) (stage : Stage) (name : String) (picked : Picked) :
    Picked :=
  match stage with
  | .machines =>
      { picked with
        machines := picked.machines ++ ((s.machines name).map fun r => (name, r)).toList }
  | .reservations =>
      if name = opts.name then picked
      else { picked with
        reserved := picked.reserved ++
          (((s.lock name).filter fun l => s.alive l.1).map fun l => (name, l.2.reservation)).toList }
  | .bases =>
      { picked with bases := picked.bases ++ ((s.machines name).map (·.portBase)).toList }
  | .macs =>
      { picked with macs := picked.macs ++ ((s.machines name).map (·.macs)).getD [] }

/-- The end of `pickNewMachineResources`; no result while a MAC is still being searched. -/
def pickNewMachineResources (deriveMac : String → ℕ → ℕ → String) (opts : StartOptions)
    (picked : Picked) (busy : ℕ → Bool) (rounds : ℕ) : Except QuickCHRError (Option Resources) := do
  if opts.portBase ≠ 0 then
    assertPortBaseFree opts.portBase opts.name picked.machines picked.reserved
  let usedBases := picked.bases ++ picked.reserved.map (·.2.portBase)
  let portBase ←
    if opts.portBase ≠ 0 then pure opts.portBase else findAvailablePortBlock usedBases busy
  validateExplicitExtraPorts opts.extraPorts portBase opts.excludePorts picked.machines opts.name
  let usedMacs := picked.macs ++ picked.reserved.flatMap (·.2.macs)
  return (assignMacs (deriveMac opts.name) rounds usedMacs 0 opts.nics).map fun macs =>
    { portBase := portBase
      ports := buildPortMappings portBase opts.excludePorts opts.extraPorts
      macs := macs }

def State.move (s : State) (p : ℕ) (phase : Phase) : State :=
  { s with procs := Function.update s.procs p phase, claimed := none }

/-- The directory of a machine goes in one step, its lock with it. -/
def State.removeMachine (s : State) (name : String) : State :=
  { s with
    machines := Function.update s.machines name none
    lock := Function.update s.lock name none
    dirs := s.dirs.filter (· ≠ name)
    claimed := none }

/-- The lock is given back while it is still this holder's. -/
def State.unlock (s : State) (p : ℕ) (name : String) : State :=
  if (s.lock name).any (·.1 = p) then { s with lock := Function.update s.lock name none } else s

def State.ensureDir (s : State) (name : String) : State :=
  { s with dirs := if name ∈ s.dirs then s.dirs else name :: s.dirs }

def State.isOrphanMachineDir (s : State) (name : String) : Bool :=
  name ∈ s.dirs && (s.machines name).isNone

def advance (deriveMac : String → ℕ → ℕ → String) (s : State) (p : ℕ) : Phase → Event → Option State
  | .idle, .call _ opts => some (s.move p (.waiting opts))
  | .waiting opts, .acquire _ =>
      if (s.allocation.any s.alive) then none
      else some { s.move p (.reading opts .machines none {}) with allocation := some p }
  | .waiting _, .fail _ _ => some (s.move p .idle)
  | .reading opts stage none picked, .list _ names =>
      if s.dirs.all (· ∈ names) then some (s.move p (.reading opts stage (some names) picked))
      else none
  | .reading opts stage (some (name :: todo)) picked, .read _ =>
      some (s.move p (.reading opts stage (some todo) (readEntry s opts stage name picked)))
  | .reading opts stage (some []) picked, .read _ =>
      some (s.move p (match stage.next with
        | some stage => .reading opts stage none picked
        | none => .choosing opts picked))
  | .choosing opts picked, .choose _ busy rounds =>
      match pickNewMachineResources deriveMac opts picked busy rounds with
      | .ok (some r) => some (s.move p (.chosen opts r 0))
      | .ok none => none
      | .error _ => some (s.move p .leaving)
  | .chosen opts r tries, .ensureDir _ =>
      some ((s.move p (.dirMade opts r tries)).ensureDir opts.name)
  | .dirMade opts r tries, .lock _ =>
      if s.held opts.name then some (s.move p .leaving)
      else if opts.name ∈ s.dirs then
        some { s.move p (.locked opts r) with lock := Function.update s.lock opts.name (some (p, r)) }
      -- A remove has renamed the directory away since it was made.
      else some (s.move p (if tries ≥ 2 then .leaving else .chosen opts r (tries + 1)))
  | .locked opts r, .check _ =>
      if (s.machines opts.name).isSome then some ((s.move p .leaving).unlock p opts.name)
      else some (s.move p (.granted opts r))
  | .granted opts r, .release _ =>
      some { s.move p (.creating opts r) with allocation := none, claimed := some (opts, r) }
  | .leaving, .release _ => some { s.move p .idle with allocation := none }
  | .creating opts r, .save _ =>
      some { (s.move p (.saved opts r)).ensureDir opts.name with
        machines := Function.update s.machines opts.name (some r) }
  | .saved opts _, .finish _ => some ((s.move p .idle).unlock p opts.name)
  | .creating opts _, .fail _ cleanup =>
      if cleanup ∧ s.isOrphanMachineDir opts.name then some ((s.move p .idle).removeMachine opts.name)
      else some ((s.move p .idle).unlock p opts.name)
  | .saved opts _, .fail _ cleanup =>
      if cleanup then some ((s.move p (.failing opts)).removeMachine opts.name)
      else some ((s.move p .idle).unlock p opts.name)
  -- Whoever has made the directory since.
  | .failing opts, .check _ =>
      some (s.move p (if s.isOrphanMachineDir opts.name then .condemned opts else .idle))
  | .condemned opts, .discard _ => some ((s.move p .idle).removeMachine opts.name)
  | _, _ => none

def Event.actor : Event → Option ℕ
  | .call p _ | .acquire p | .list p _ | .read p | .choose p _ _ | .ensureDir p | .lock p | .check p
  | .release p | .save p | .finish p | .discard p | .fail p _ | .crash p => some p
  | .remove _ => none

def next (deriveMac : String → ℕ → ℕ → String) (s : State) (e : Event) : Option State :=
  match e, e.actor with
  | .remove name, _ => if s.held name then none else some (s.removeMachine name)
  | .crash p, _ => some { s with alive := Function.update s.alive p false, claimed := none }
  | _, some p => if s.alive p then advance deriveMac s p (s.procs p) e else none
  | _, none => none

/-- The machines there are at the start, none of them in creation. -/
def system (deriveMac : String → ℕ → ℕ → String) : Transition.System State Event where
  Initial s :=
    (∀ name r, s.machines name = some r → name ∈ s.dirs) ∧ (∀ name, s.lock name = none) ∧
    s.allocation = none ∧ (∀ p, s.procs p = .idle) ∧ s.claimed = none
  next := next deriveMac

/-- The error handler of a failed `start` finds no directory, or a machine that is saved. -/
def ownOrphan (s : State) : Event → Bool
  | .check p =>
      match s.procs p with
      | .failing opts => !s.isOrphanMachineDir opts.name
      | _ => true
  | _ => true

/-- Persisted in `machine.json`, or in creation under a live machine lock. -/
def State.Has (s : State) (name : String) (r : Resources) : Prop :=
  s.machines name = some r ∨ ∃ p, s.lock name = some (p, r) ∧ s.alive p = true

def State.init : State where
  machines _ := none
  dirs := []
  lock _ := none
  allocation := none
  alive _ := true
  procs _ := .idle
  claimed := none

/-- One of the reads of a creation, over the listing `names`. -/
def pass (p : ℕ) (names : List String) : List Event :=
  .list p names :: List.replicate (names.length + 1) (.read p)

/-- What follows the reads, with every port free. -/
def claim (p : ℕ) : List Event :=
  [.choose p (fun _ => false) 1, .ensureDir p, .lock p, .check p, .release p]

variable {deriveMac : String → ℕ → ℕ → String}

theorem State.init_initial : (system deriveMac).Initial .init :=
  ⟨fun _ _ is => (by cases is), fun _ => rfl, rfl, fun _ => rfl, rfl⟩

/-- What a live creation does in one step. -/
inductive Move (deriveMac : String → ℕ → ℕ → String) (s : State) (p : ℕ) : Event → State → Prop
  | call {opts} : s.procs p = .idle → Move deriveMac s p (.call p opts) (s.move p (.waiting opts))
  | acquire {opts} : s.procs p = .waiting opts → s.allocation.any s.alive = false →
      Move deriveMac s p (.acquire p)
        { s.move p (.reading opts .machines none {}) with allocation := some p }
  | giveUp {opts cleanup} : s.procs p = .waiting opts →
      Move deriveMac s p (.fail p cleanup) (s.move p .idle)
  | list {opts stage picked names} : s.procs p = .reading opts stage none picked →
      (∀ name ∈ s.dirs, name ∈ names) →
      Move deriveMac s p (.list p names) (s.move p (.reading opts stage (some names) picked))
  | read {opts stage name todo picked} :
      s.procs p = .reading opts stage (some (name :: todo)) picked →
      Move deriveMac s p (.read p)
        (s.move p (.reading opts stage (some todo) (readEntry s opts stage name picked)))
  | nextStage {opts stage stage' picked} : s.procs p = .reading opts stage (some []) picked →
      stage.next = some stage' →
      Move deriveMac s p (.read p) (s.move p (.reading opts stage' none picked))
  | readAll {opts stage picked} : s.procs p = .reading opts stage (some []) picked →
      stage.next = none → Move deriveMac s p (.read p) (s.move p (.choosing opts picked))
  | choose {opts picked busy rounds r} : s.procs p = .choosing opts picked →
      pickNewMachineResources deriveMac opts picked busy rounds = .ok (some r) →
      Move deriveMac s p (.choose p busy rounds) (s.move p (.chosen opts r 0))
  | refused {opts picked busy rounds} : s.procs p = .choosing opts picked →
      Move deriveMac s p (.choose p busy rounds) (s.move p .leaving)
  | ensureDir {opts r tries} : s.procs p = .chosen opts r tries →
      Move deriveMac s p (.ensureDir p) ((s.move p (.dirMade opts r tries)).ensureDir opts.name)
  | lockRefused {opts r tries} : s.procs p = .dirMade opts r tries →
      Move deriveMac s p (.lock p) (s.move p .leaving)
  | lock {opts r tries} : s.procs p = .dirMade opts r tries → s.held opts.name = false →
      opts.name ∈ s.dirs →
      Move deriveMac s p (.lock p) { s.move p (.locked opts r) with
        lock := Function.update s.lock opts.name (some (p, r)) }
  | retry {opts r tries} : s.procs p = .dirMade opts r tries →
      Move deriveMac s p (.lock p) (s.move p (.chosen opts r (tries + 1)))
  | exists_ {opts r} : s.procs p = .locked opts r →
      Move deriveMac s p (.check p) ((s.move p .leaving).unlock p opts.name)
  | check {opts r} : s.procs p = .locked opts r → s.machines opts.name = none →
      Move deriveMac s p (.check p) (s.move p (.granted opts r))
  | release {opts r} : s.procs p = .granted opts r →
      Move deriveMac s p (.release p)
        { s.move p (.creating opts r) with allocation := none, claimed := some (opts, r) }
  | leave : s.procs p = .leaving →
      Move deriveMac s p (.release p) { s.move p .idle with allocation := none }
  | save {opts r} : s.procs p = .creating opts r →
      Move deriveMac s p (.save p) { (s.move p (.saved opts r)).ensureDir opts.name with
        machines := Function.update s.machines opts.name (some r) }
  | unlock {opts r e} : s.procs p = .creating opts r ∨ s.procs p = .saved opts r →
      Move deriveMac s p e ((s.move p .idle).unlock p opts.name)
  | removed {opts r cleanup phase} :
      s.procs p = .creating opts r ∧ phase = .idle ∨ s.procs p = .saved opts r ∧ phase = .failing opts →
      Move deriveMac s p (.fail p cleanup) ((s.move p phase).removeMachine opts.name)
  | condemn {opts} : s.procs p = .failing opts → s.isOrphanMachineDir opts.name = true →
      Move deriveMac s p (.check p) (s.move p (.condemned opts))
  | spare {opts} : s.procs p = .failing opts → Move deriveMac s p (.check p) (s.move p .idle)
  | discard {opts} : s.procs p = .condemned opts →
      Move deriveMac s p (.discard p) ((s.move p .idle).removeMachine opts.name)

theorem move_of_advance {s s' : State} {p : ℕ} {e : Event} (actor : e.actor = some p)
    (h : advance deriveMac s p (s.procs p) e = some s') : Move deriveMac s p e s' := by
  unfold advance at h
  split at h
  case h_1 at_ => cases actor; cases h; exact .call at_
  case h_2 at_ =>
      cases actor
      obtain ⟨free, ⟨⟩⟩ := Option.ite_none_left_eq_some.mp h
      exact .acquire at_ (Bool.eq_false_iff.mpr free)
  case h_3 at_ => cases actor; cases h; exact .giveUp at_
  case h_4 at_ =>
      cases actor
      obtain ⟨all, ⟨⟩⟩ := Option.ite_none_right_eq_some.mp h
      exact .list at_ fun name member => of_decide_eq_true (List.all_eq_true.mp all name member)
  case h_5 at_ => cases actor; cases h; exact .read at_
  case h_6 stage _ _ at_ =>
      cases actor
      cases last : stage.next with
      | none => rw [last] at h; cases h; exact .readAll at_ last
      | some stage' => rw [last] at h; cases h; exact .nextStage at_ last
  case h_7 at_ =>
      cases actor
      split at h
      · rename_i picked; cases h; exact .choose at_ picked
      · cases h
      · cases h; exact .refused at_
  case h_8 at_ => cases actor; cases h; exact .ensureDir at_
  case h_9 at_ =>
      cases actor
      split at h
      · cases h; exact .lockRefused at_
      · rename_i free
        split at h
        · rename_i dir; cases h; exact .lock at_ (Bool.eq_false_iff.mpr free) dir
        · cases h
          split
          · exact .lockRefused at_
          · exact .retry at_
  case h_10 at_ =>
      cases actor
      split at h
      · cases h; exact .exists_ at_
      · rename_i new
        cases h
        exact .check at_ (Option.not_isSome_iff_eq_none.mp new)
  case h_11 at_ => cases actor; cases h; exact .release at_
  case h_12 at_ => cases actor; cases h; exact .leave at_
  case h_13 at_ => cases actor; cases h; exact .save at_
  case h_14 at_ => cases actor; cases h; exact .unlock (.inr at_)
  case h_15 at_ =>
      cases actor
      split at h
      · cases h; exact .removed (.inl ⟨at_, rfl⟩)
      · cases h; exact .unlock (.inl at_)
  case h_16 at_ =>
      cases actor
      split at h
      · cases h; exact .removed (.inr ⟨at_, rfl⟩)
      · cases h; exact .unlock (.inr at_)
  case h_17 at_ =>
      cases actor
      cases h
      split
      · rename_i orphan; exact .condemn at_ orphan
      · exact .spare at_
  case h_18 at_ => cases actor; cases h; exact .discard at_
  case h_19 => cases h

theorem next_cases {s s' : State} {e : Event} (h : next deriveMac s e = some s') :
    (∃ name, s.held name = false ∧ s' = s.removeMachine name) ∨
      (∃ p, s' = { s with alive := Function.update s.alive p false, claimed := none }) ∨
      ∃ p, s.alive p = true ∧ Move deriveMac s p e s' := by
  unfold next at h
  split at h
  · obtain ⟨free, ⟨⟩⟩ := Option.ite_none_left_eq_some.mp h
    exact .inl ⟨_, Bool.eq_false_iff.mpr free, rfl⟩
  · cases h
    exact .inr (.inl ⟨_, rfl⟩)
  · rename_i p _ _ actor
    obtain ⟨live, h⟩ := Option.ite_none_right_eq_some.mp h
    exact .inr (.inr ⟨p, live, move_of_advance actor h⟩)
  · cases h

theorem State.unlock_frame (s : State) (p : ℕ) (name : String) :
    (s.unlock p name).procs = s.procs ∧ (s.unlock p name).alive = s.alive ∧
      (s.unlock p name).machines = s.machines ∧ (s.unlock p name).dirs = s.dirs ∧
      (s.unlock p name).allocation = s.allocation ∧ (s.unlock p name).claimed = s.claimed := by
  unfold State.unlock
  split <;> exact ⟨rfl, rfl, rfl, rfl, rfl, rfl⟩

theorem State.unlock_own {s : State} {p : ℕ} {name : String} {r : Resources}
    (lock : s.lock name = some (p, r)) :
    s.unlock p name = { s with lock := Function.update s.lock name none } := by
  rw [State.unlock, if_pos (by rw [lock, Option.any_some, decide_eq_true_eq])]

theorem State.mem_ensureDir {s : State} {name other : String} (h : other ∈ s.dirs) :
    other ∈ (s.ensureDir name).dirs := by
  show other ∈ if name ∈ s.dirs then s.dirs else name :: s.dirs
  split
  · exact h
  · exact List.mem_cons_of_mem _ h

theorem Move.alive {s s' : State} {p : ℕ} {e : Event} (move : Move deriveMac s p e s') :
    s'.alive = s.alive := by
  cases move with
  | exists_ | unlock => exact (State.unlock_frame _ _ _).2.1
  | _ => rfl

theorem Move.procs {s s' : State} {p : ℕ} {e : Event} (move : Move deriveMac s p e s') :
    ∃ phase, s'.procs = Function.update s.procs p phase := by
  cases move with
  | exists_ | unlock => exact ⟨_, (State.unlock_frame _ _ _).1⟩
  | _ => exact ⟨_, rfl⟩

theorem Move.others {s s' : State} {p q : ℕ} {e : Event} (move : Move deriveMac s p e s')
    (other : q ≠ p) : s'.procs q = s.procs q := by
  obtain ⟨phase, is⟩ := move.procs
  rw [is, Function.update_of_ne other]

theorem alive_of_crash {s : State} {p q : ℕ} (live : Function.update s.alive p false q = true) :
    s.alive q = true := by
  by_cases self : q = p
  · subst self; rw [Function.update_self] at live; cases live
  · rwa [Function.update_of_ne self] at live

theorem pick_spec {opts : StartOptions} {picked : Picked} {busy : ℕ → Bool} {rounds : ℕ}
    {r : Resources} (h : pickNewMachineResources deriveMac opts picked busy rounds = .ok (some r)) :
    (opts.portBase ≠ 0 → r.portBase = opts.portBase ∧
      assertPortBaseFree opts.portBase opts.name picked.machines picked.reserved = .ok ()) ∧
    (opts.portBase = 0 → findAvailablePortBlock
      (picked.bases ++ picked.reserved.map (·.2.portBase)) busy = .ok r.portBase) ∧
    validateExplicitExtraPorts opts.extraPorts r.portBase opts.excludePorts picked.machines opts.name =
      .ok () ∧
    assignMacs (deriveMac opts.name) rounds (picked.macs ++ picked.reserved.flatMap (·.2.macs)) 0
      opts.nics = some r.macs ∧
    r.ports = buildPortMappings r.portBase opts.excludePorts opts.extraPorts := by
  unfold pickNewMachineResources at h
  by_cases auto : opts.portBase = 0
  · simp only [auto, ne_eq, not_true_eq_false, if_false] at h
    obtain ⟨base, found, h⟩ := bind_eq_ok.mp h
    obtain ⟨_, valid, h⟩ := bind_eq_ok.mp h
    obtain ⟨macs, assigned, rfl⟩ := Option.map_eq_some_iff.mp (Except.ok.inj h)
    exact ⟨fun explicit => absurd auto explicit, fun _ => found, valid, assigned, rfl⟩
  · simp only [auto, ne_eq, not_false_eq_true, if_true] at h
    obtain ⟨_, free, h⟩ := bind_eq_ok.mp h
    obtain ⟨base, is, h⟩ := bind_eq_ok.mp h
    obtain ⟨_, valid, h⟩ := bind_eq_ok.mp h
    obtain ⟨macs, assigned, rfl⟩ := Option.map_eq_some_iff.mp (Except.ok.inj h)
    cases is
    exact ⟨fun _ => ⟨rfl, free⟩, fun none => absurd none auto, valid, assigned, rfl⟩

end Quickchr.Allocation
