import Quickchr.AllocationView

/-!
# Explicit port requests

An explicit base is compared with the records and, after them, with the reservations; explicit
extra hosts are compared with the records only. A creation that saves and unlocks between the
two reads is missed by the one check, a creation in flight by the other.
-/
namespace Quickchr.Allocation

open PortBlocks

variable {deriveMac : String → ℕ → ℕ → String}

/-- What a granted request rules out for every other machine. -/
structure Honours (opts : StartOptions) (r : Resources) : Prop where
  block : opts.portBase ≠ 0 → overlap r.portBase opts.portBase = false
  extras : ∀ extra ∈ explicitExtras opts.extraPorts, extra.2 ∉ hosts r.ports

/-- The reads of a creation do not miss a clash: no machine in flight has one of its explicit
extra hosts when the records are read, and no machine with an overlapping block has become a
record since, when the reservations are read. -/
def undisturbed (s : State) : Event → Bool
  | .read p =>
      match s.procs p with
      | .reading opts .machines (some (name :: _)) _ =>
          name = opts.name || (s.machines name).isSome || (s.lock name).all fun l =>
            !s.alive l.1 || (explicitExtras opts.extraPorts).all fun extra => extra.2 ∉ hosts l.2.ports
      | .reading opts .reservations (some (name :: _)) picked =>
          opts.portBase = 0 || name = opts.name || s.held name || (s.machines name).all fun r =>
            (name, r) ∈ picked.machines || !overlap r.portBase opts.portBase
      | _ => true
  | _ => true

structure Checks (_ : State) (opts : StartOptions) (stage : Stage) (todo : Option (List String))
    (picked : Picked) (name : String) (r : Resources) : Prop where
  block : opts.portBase ≠ 0 → Pending stage todo .reservations name ∨
    (name, r.reservation) ∈ picked.reserved ∨ (name, r) ∈ picked.machines ∨
      overlap r.portBase opts.portBase = false
  extras : Pending stage todo .machines name ∨ (name, r) ∈ picked.machines ∨
    ∀ extra ∈ explicitExtras opts.extraPorts, extra.2 ∉ hosts r.ports

/-- Another machine that is both locked and saved is locked with what it saved. -/
theorem Inv.held_same {s : State} (inv : Inv s) {p q : ℕ} {opts : StartOptions} {name : String}
    {r r' : Resources} (live : s.alive p = true) (critical : (s.procs p).critical = true)
    (own : (s.procs p).opts? = some opts) (other : name ≠ opts.name)
    (saved : s.machines name = some r) (lock : s.lock name = some (q, r')) (live' : s.alive q = true) :
    r' = r := by
  have holds := inv.owner name q r' lock live'
  have ok := inv.phases q live'
  cases at_ : s.procs q with
  | locked opts' r'' =>
      rw [at_] at holds ok
      cases holds
      have mine := (inv.phases p live).critical critical
      cases mine.symm.trans (ok.critical rfl)
      rw [at_] at own
      cases own
      exact absurd rfl other
  | granted opts' r'' | creating opts' r'' =>
      rw [at_] at holds ok
      cases holds
      cases saved.symm.trans ok.record
  | saved opts' r'' =>
      rw [at_] at holds ok
      cases holds
      exact Option.some.inj (ok.record.symm.trans saved)
  | _ => rw [at_] at holds; cases holds

theorem Checks.read {s : State} {p : ℕ} {opts : StartOptions} {stage : Stage} {head : String}
    {todo : List String} {picked : Picked} {name : String} {r : Resources} (inv : Inv s)
    (live : s.alive p = true) (clean : undisturbed s (.read p) = true)
    (at_ : s.procs p = .reading opts stage (some (head :: todo)) picked) (other : name ≠ opts.name)
    (has : s.Has name r) (h : Checks s opts stage (some (head :: todo)) picked name r) :
    Checks s opts stage (some todo) (readEntry s opts stage head picked) name r := by
  obtain ⟨machines, reserved, -, -⟩ := readEntry_grows s opts stage head picked
  have same : ∀ {q r r'}, s.machines name = some r → s.lock name = some (q, r') →
      s.alive q = true → r' = r :=
    inv.held_same live (by rw [at_]; rfl) (by rw [at_]; rfl) other
  constructor
  · intro explicit
    rcases h.block explicit with pending | known | known | apart
    · rcases pending.read with pending | ⟨rfl, rfl⟩
      · exact .inl pending
      · rcases has with is | ⟨q, lock, live'⟩
        · simp only [undisturbed, at_, explicit, other, is, Option.all_some, decide_false,
            Bool.false_or, Bool.or_eq_true, decide_eq_true_eq, Bool.not_eq_true'] at clean
          rcases clean with held | known | apart
          · obtain ⟨⟨q, r'⟩, lock, live'⟩ := (Option.any_eq_true _ _).mp held
            cases same is lock live'
            exact .inr (.inl (reserves_locked lock live' other picked))
          · exact .inr (.inr (.inl (machines known)))
          · exact .inr (.inr (.inr apart))
        · exact .inr (.inl (reserves_locked lock live' other picked))
    · exact .inr (.inl (reserved known))
    · exact .inr (.inr (.inl (machines known)))
    · exact .inr (.inr (.inr apart))
  · rcases h.extras with pending | known | clear
    · rcases pending.read with pending | ⟨rfl, rfl⟩
      · exact .inl pending
      · have reads : ∀ r, s.machines name = some r →
            (name, r) ∈ (readEntry s opts .machines name picked).machines := fun r is => by
          refine List.mem_append_right _ ?_
          rw [is]
          exact List.mem_singleton_self _
        rcases has with is | ⟨q, lock, live'⟩
        · exact .inr (.inl (reads r is))
        · cases is : s.machines name with
          | some r' =>
              cases same is lock live'
              exact .inr (.inl (reads _ is))
          | none =>
              simp only [undisturbed, at_, other, is, lock, live', Option.isSome_none,
                Option.all_some, decide_false, Bool.or_self, Bool.not_true, Bool.false_or,
                List.all_eq_true, decide_eq_true_eq] at clean
              exact .inr (.inr clean)
    · exact .inr (.inl (machines known))
    · exact .inr (.inr clear)

/-- After the last read: the machine was seen by a check, or does not clash. -/
structure Checked (opts : StartOptions) (picked : Picked) (name : String) (r : Resources) : Prop where
  block : opts.portBase ≠ 0 → (name, r.reservation) ∈ picked.reserved ∨ (name, r) ∈ picked.machines ∨
    overlap r.portBase opts.portBase = false
  extras : (name, r) ∈ picked.machines ∨
    ∀ extra ∈ explicitExtras opts.extraPorts, extra.2 ∉ hosts r.ports

theorem Checked.honours {opts : StartOptions} {picked : Picked} {busy : ℕ → Bool} {rounds : ℕ}
    {name : String} {r r' : Resources} (other : name ≠ opts.name) (h : Checked opts picked name r')
    (ok : pickNewMachineResources deriveMac opts picked busy rounds = .ok (some r)) :
    Honours opts r' := by
  obtain ⟨explicit, -, valid, -⟩ := pick_spec ok
  constructor
  · intro asked
    obtain ⟨machines, reserved⟩ := assertPortBaseFree_ok (explicit asked).2
    rcases h.block asked with known | known | apart
    · exact reserved _ known
    · exact machines _ known other
    · exact apart
  · rcases h.extras with known | clear
    · exact validateExplicitExtraPorts_ok valid _ known other
    · exact clear

variable (deriveMac) in
def requestView : View deriveMac fun s e => undisturbed s e = true where
  seen := Checks
  known := Checked
  clear opts _ := Honours opts
  start := ⟨fun _ => .inl (.inl (by decide)), .inl (.inr ⟨rfl, fun _ is => by cases is⟩)⟩
  keeps _ h := ⟨h.block, h.extras⟩
  list inside h := ⟨fun asked => (h.block asked).imp_left (·.list inside),
    h.extras.imp_left (·.list inside)⟩
  read inv live clean at_ other has h := h.read inv live clean at_ other has
  nextStage next h := ⟨fun asked => (h.block asked).imp_left (·.nextStage next),
    h.extras.imp_left (·.nextStage next)⟩
  done last h := ⟨fun asked => (h.block asked).resolve_left fun pending => pending.done last,
    h.extras.resolve_left fun pending => pending.done last⟩
  pick other h ok := h.honours other ok

/-- A claim returns in the step that releases the allocation lock. -/
theorem claimed_next {s s' : State} {e : Event} (step : next deriveMac s e = some s')
    {opts : StartOptions} {r : Resources} (claimed : s'.claimed = some (opts, r)) :
    ∃ p, s.alive p = true ∧ s.procs p = .granted opts r ∧ ∀ name r', s'.Has name r' → s.Has name r' := by
  rcases next_cases step with ⟨removed, _, rfl⟩ | ⟨p, rfl⟩ | ⟨p, live, move⟩
  · cases claimed
  · cases claimed
  · cases move with
    | release at_ =>
        cases claimed
        exact ⟨p, live, at_, fun _ _ has => has⟩
    | exists_ | unlock =>
        rw [(State.unlock_frame _ _ _).2.2.2.2.2] at claimed
        cases claimed
    | _ => cases claimed

structure Granted (deriveMac : String → ℕ → ℕ → String) (s : State) : Prop where
  inv : Inv s
  covers : (requestView deriveMac).Covers s
  honours : ∀ opts r, s.claimed = some (opts, r) → ∀ name r', name ≠ opts.name → s.Has name r' →
    Honours opts r'

theorem Granted.next {s s' : State} {e : Event} (h : Granted deriveMac s)
    (clean : undisturbed s e = true) (own : ownOrphan s e = true)
    (step : next deriveMac s e = some s') : Granted deriveMac s' := by
  refine ⟨h.inv.next own step, h.covers.next h.inv clean step, fun opts r claimed name r' other has => ?_⟩
  obtain ⟨p, live, at_, had⟩ := claimed_next step claimed
  have covered := h.covers p live
  rw [at_] at covered
  exact covered name r' other (had name r' has)

/-- When no read of a creation is disturbed and no creation loses its directory to the error handler
of a failed `start`, a claim that returns clashes with no other machine: not with its explicit base,
and not with its explicit extra hosts. -/
theorem clash_refused {s : State}
    (h : (system deriveMac).ReachableUnder
      (fun s e => undisturbed s e = true ∧ ownOrphan s e = true) s)
    {opts : StartOptions} {r : Resources} (claimed : s.claimed = some (opts, r)) {name : String}
    {r' : Resources} (other : name ≠ opts.name) (has : s.Has name r') : Honours opts r' := by
  have granted : Granted deriveMac s := by
    refine h.invariant (fun s start => ?_) fun _ _ _ _ granted met step =>
      granted.next met.1 met.2 step
    refine ⟨.initial start, .initial start, fun opts r claimed => ?_⟩
    rw [start.2.2.2.2] at claimed
    cases claimed
  exact granted.honours opts r claimed name r' other has

def edge : StartOptions where
  name := "edge"
  extraPorts := [{ name := "snmp", host := 9161, guest := 161, proto := .udp }]

def core (portBase host : ℕ) : StartOptions where
  name := "core"
  portBase := portBase
  extraPorts := [{ name := "trap", host := host, guest := 162, proto := .udp }]

/-- `edge` claims; `core` asks for a base of its own and reads the records and the reservations,
with `between` in between. -/
def request (opts : StartOptions) (between : List Event) : List Event :=
  [.call 1 edge, .acquire 1] ++ pass 1 [] ++ pass 1 [] ++ pass 1 [] ++ pass 1 [] ++ claim 1 ++
    [.call 2 opts, .acquire 2] ++ pass 2 ["edge"] ++ between ++ pass 2 ["edge"] ++
    pass 2 ["edge"] ++ pass 2 ["edge"] ++ claim 2

def hashed (name : String) (_ _ : ℕ) : String :=
  if name = "edge" then "02:65:cf:2c:40:0d" else "02:b0:48:a3:e0:e7"

theorem clash_refused_apart : ∃ s : State, ∃ r r' : Resources, s.claimed = some (core 9200 9162, r) ∧
    s.Has "edge" r' ∧ Honours (core 9200 9162) r' := by
  obtain ⟨s, reachable, claimed, has⟩ := Transition.System.exists_reachable
    (S := (system hashed).restrict fun s e => undisturbed s e = true ∧ ownOrphan s e = true)
    (P := fun s => (s.claimed.map Prod.fst = some (core 9200 9162)) ∧
      (s.lock "edge").any (fun l => s.alive l.1) = true)
    (request (core 9200 9162) []) (s := .init) (@State.init_initial hashed) (by decide +kernel)
  obtain ⟨⟨opts, r⟩, claimed, rfl⟩ := Option.map_eq_some_iff.mp claimed
  obtain ⟨⟨p, r'⟩, lock, live⟩ := (Option.any_eq_true _ _).mp has
  exact ⟨s, r, r', claimed, .inr ⟨p, lock, live⟩,
    clash_refused (Transition.System.ReachableUnder.of_restrict reachable) claimed (by decide)
      (.inr ⟨p, lock, live⟩)⟩

/-- `edge` saves its record and gives back its lock between the two reads of `core`, which is
granted a base in the block of `edge`. -/
theorem clash_refused_fails : ¬ ∀ (s : State) opts r name r', (system hashed).Reachable s →
    s.claimed = some (opts, r) → name ≠ opts.name → s.Has name r' → Honours opts r' := by
  intro all
  obtain ⟨s, reachable, claimed, edge⟩ := Transition.System.exists_reachable
    (S := system hashed)
    (P := fun s => s.claimed.map Prod.fst = some (core 9105 9161) ∧
      (s.machines "edge").map (·.portBase) = some 9100)
    (request (core 9105 9161) [.save 1, .finish 1]) (s := .init) State.init_initial
    (by decide +kernel)
  obtain ⟨⟨opts, r⟩, claimed, rfl⟩ := Option.map_eq_some_iff.mp claimed
  obtain ⟨r', saved, base⟩ := Option.map_eq_some_iff.mp edge
  have honours := all s _ r "edge" r' reachable claimed (by decide) (.inl saved)
  have apart : overlap r'.portBase 9105 = false := honours.block (by decide)
  rw [base] at apart
  cases apart

end Quickchr.Allocation
