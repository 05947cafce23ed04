import Quickchr.AllocationView

/-!
# Automatic allocation is collision-free

The picker reads the reservations before the saved records. A creation that saves and then
releases its lock is seen on one side of the move or on the other: its reservation was read,
or its record is there when the records are read after it.
-/
namespace Quickchr.Allocation

open PortBlocks

variable {deriveMac : String → ℕ → ℕ → String}

/-- The picker has the base and the MACs of the machine, or will still read them. -/
structure Sees (s : State) (_ : StartOptions) (stage : Stage) (todo : Option (List String))
    (picked : Picked) (name : String) (r : Resources) : Prop where
  reserved : Pending stage todo .reservations name ∨ (name, r.reservation) ∈ picked.reserved ∨
    s.machines name = some r
  base : Pending stage todo .bases name ∨ (name, r.reservation) ∈ picked.reserved ∨
    r.portBase ∈ picked.bases
  macs : Pending stage todo .macs name ∨ (name, r.reservation) ∈ picked.reserved ∨
    ∀ mac ∈ r.macs, mac ∈ picked.macs

theorem Sees.read {s : State} {opts : StartOptions} {stage : Stage} {head : String}
    {todo : List String} {picked : Picked} {name : String} {r : Resources} (other : name ≠ opts.name)
    (has : s.Has name r) (h : Sees s opts stage (some (head :: todo)) picked name r) :
    Sees s opts stage (some todo) (readEntry s opts stage head picked) name r := by
  obtain ⟨-, reserved, bases, macs⟩ := readEntry_grows s opts stage head picked
  -- The record is the one to find once the reservations have been read.
  have saved : stage.rank > 1 →
      (name, r.reservation) ∈ picked.reserved ∨ s.machines name = some r := by
    intro late
    rcases h.reserved with pending | known
    · rcases pending with before | ⟨rfl, _⟩
      · exact absurd before (by show ¬ stage.rank < 1; omega)
      · exact absurd late (by decide)
    · exact known
  constructor
  · rcases h.reserved with pending | known | is
    · rcases pending.read with pending | ⟨rfl, rfl⟩
      · exact .inl pending
      · exact .inr (reserves has other picked)
    · exact .inr (.inl (reserved known))
    · exact .inr (.inr is)
  · rcases h.base with pending | known | known
    · rcases pending.read with pending | ⟨rfl, rfl⟩
      · exact .inl pending
      · rcases saved (by decide) with known | is
        · exact .inr (.inl (reserved known))
        · refine .inr (.inr (List.mem_append_right _ ?_))
          rw [is]
          exact List.mem_singleton_self _
    · exact .inr (.inl (reserved known))
    · exact .inr (.inr (bases known))
  · rcases h.macs with pending | known | known
    · rcases pending.read with pending | ⟨rfl, rfl⟩
      · exact .inl pending
      · rcases saved (by decide) with known | is
        · exact .inr (.inl (reserved known))
        · refine .inr (.inr fun mac member => List.mem_append_right _ ?_)
          rw [is]
          exact member
    · exact .inr (.inl (reserved known))
    · exact .inr (.inr fun mac member => macs (known mac member))

/-- After the last read: what the choice has to avoid is known. -/
structure Knows (_ : StartOptions) (picked : Picked) (_ : String) (r : Resources) : Prop where
  base : r.portBase ∈ picked.bases ++ picked.reserved.map (·.2.portBase)
  macs : ∀ mac ∈ r.macs, mac ∈ picked.macs ++ picked.reserved.flatMap (·.2.macs)

theorem Sees.done {s : State} {opts : StartOptions} {stage : Stage} {picked : Picked} {name : String}
    {r : Resources} (h : Sees s opts stage (some []) picked name r) (last : stage.next = none) :
    Knows opts picked name r := by
  constructor
  · rcases h.base with pending | known | known
    · exact (pending.done last).elim
    · exact List.mem_append_right _ (List.mem_map.mpr ⟨_, known, rfl⟩)
    · exact List.mem_append_left _ known
  · intro mac member
    rcases h.macs with pending | known | known
    · exact (pending.done last).elim
    · exact List.mem_append_right _ (List.mem_flatMap.mpr ⟨_, known, member⟩)
    · exact List.mem_append_left _ (known mac member)

/-- The choice clashes in no MAC, and in no block that quickchr chose. -/
structure Clear (opts : StartOptions) (r r' : Resources) : Prop where
  block : opts.portBase = 0 → overlap r.portBase r'.portBase = false
  macs : ∀ mac ∈ r.macs, mac ∉ r'.macs

theorem Knows.clear {opts : StartOptions} {picked : Picked} {busy : ℕ → Bool} {rounds : ℕ}
    {name : String} {r r' : Resources} (h : Knows opts picked name r')
    (ok : pickNewMachineResources deriveMac opts picked busy rounds = .ok (some r)) :
    Clear opts r r' := by
  obtain ⟨-, found, -, assigned, -⟩ := pick_spec ok
  exact ⟨fun auto => findAvailablePortBlock_free (found auto) _ h.base,
    fun mac mine theirs => (assignMacs_fresh assigned).2 mac mine (h.macs mac theirs)⟩

/-- Every creation leaves the base to quickchr. -/
def automatic : Event → Bool
  | .call _ opts => opts.portBase = 0
  | _ => true

variable (deriveMac) in
def allocationView : View deriveMac fun _ e => automatic e = true where
  seen := Sees
  known := Knows
  clear := Clear
  start := ⟨.inl (.inl (by decide)), .inl (.inl (by decide)), .inl (.inl (by decide))⟩
  keeps kept h := ⟨h.reserved.imp_right (Or.imp_right kept), h.base, h.macs⟩
  list inside h := ⟨h.reserved.imp_left (·.list inside), h.base.imp_left (·.list inside),
    h.macs.imp_left (·.list inside)⟩
  read _ _ _ _ other has h := h.read other has
  nextStage next h := ⟨h.reserved.imp_left (·.nextStage next), h.base.imp_left (·.nextStage next),
    h.macs.imp_left (·.nextStage next)⟩
  done last h := h.done last
  pick _ h ok := h.clear ok

def Disjoint (r r' : Resources) : Prop :=
  overlap r.portBase r'.portBase = false ∧ ∀ mac ∈ r.macs, mac ∉ r'.macs

theorem Disjoint.symm {r r' : Resources} (h : Disjoint r r') : Disjoint r' r :=
  ⟨overlap_comm _ _ ▸ h.1, fun mac theirs mine => h.2 mac mine theirs⟩

def State.Disjoint (s : State) : Prop :=
  ∀ name name' r r', name ≠ name' → s.Has name r → s.Has name' r' → Allocation.Disjoint r r'

theorem move_opts {s s' : State} {p : ℕ} {e : Event} (move : Move deriveMac s p e s') (q : ℕ)
    {opts : StartOptions} (is : (s'.procs q).opts? = some opts) :
    (s.procs q).opts? = some opts ∨ e = .call q opts := by
  by_cases self : q = p
  · subst self
    have own : ∀ {phase}, (Function.update s.procs q phase q).opts? = some opts →
        phase.opts? = some opts := fun h => by rwa [Function.update_self] at h
    cases move with
    | call at_ => cases own is; exact .inr rfl
    | giveUp | refused | lockRefused | leave | spare | discard => cases own is
    | exists_ | unlock =>
        rw [(State.unlock_frame _ _ _).1] at is
        cases own is
    | acquire at_ | list at_ | read at_ | nextStage at_ | readAll at_ | choose at_ | ensureDir at_
    | lock at_ | retry at_ | check at_ | release at_ | save at_ | condemn at_ =>
        cases own is
        exact .inl (by rw [at_]; rfl)
    | removed at_ =>
        rcases at_ with ⟨at_, rfl⟩ | ⟨at_, rfl⟩ <;> cases own is
        exact .inl (by rw [at_]; rfl)
  · exact .inl (move.others self ▸ is)

variable (deriveMac) in
structure Apart (s : State) : Prop where
  inv : Inv s
  auto : ∀ p opts, (s.procs p).opts? = some opts → opts.portBase = 0
  covers : (allocationView deriveMac).Covers s
  disjoint : s.Disjoint

theorem Apart.next {s s' : State} {e : Event} (h : Apart deriveMac s) (auto : automatic e = true)
    (own : ownOrphan s e = true) (step : next deriveMac s e = some s') : Apart deriveMac s' := by
  have fresh : ∀ {p opts r tries}, s.alive p = true → s.procs p = .dirMade opts r tries →
      ∀ name r', name ≠ opts.name → s.Has name r' → Allocation.Disjoint r r' := by
    intro p opts r tries live at_ name r' other has
    have covered := h.covers p live
    rw [at_] at covered
    have clear : Clear opts r r' := covered name r' other has
    exact ⟨clear.block (h.auto p opts (by rw [at_]; rfl)), clear.macs⟩
  refine ⟨h.inv.next own step, fun q opts is => ?_, h.covers.next h.inv auto step,
    fun name name' r r' ne has has' => ?_⟩
  · rcases next_cases step with ⟨removed, _, rfl⟩ | ⟨p, rfl⟩ | ⟨p, _, move⟩
    · exact h.auto q opts is
    · exact h.auto q opts is
    · rcases move_opts move q is with was | rfl
      · exact h.auto q opts was
      · exact of_decide_eq_true auto
  · rcases has_next h.inv step has with had | ⟨p, opts, tries, live, at_, rfl⟩ <;>
      rcases has_next h.inv step has' with had' | ⟨p', opts', tries', live', at'_, rfl⟩
    · exact h.disjoint name name' r r' ne had had'
    · exact (fresh live' at'_ name r ne had).symm
    · exact fresh live at_ name' r' ne.symm had'
    · have mine := (h.inv.phases p live).critical (by rw [at_]; rfl)
      have theirs := (h.inv.phases p' live').critical (by rw [at'_]; rfl)
      cases mine.symm.trans theirs
      cases at_.symm.trans at'_
      exact absurd rfl ne

variable (deriveMac) in
/-- The machines there are at the start are apart. -/
def apartSystem : Transition.System State Event where
  Initial s := (system deriveMac).Initial s ∧ s.Disjoint
  next := next deriveMac

/-- As long as no error handler of a failed `start` removes a directory that another process has
made since: creations that leave the base to quickchr end up with blocks and MACs apart from those
of every other machine, whatever the order of their steps. -/
theorem allocation_disjoint {s : State}
    (h : (apartSystem deriveMac).ReachableUnder
      (fun s e => automatic e = true ∧ ownOrphan s e = true) s)
    {name name' : String} {r r' : Resources} (ne : name ≠ name') (has : s.Has name r)
    (has' : s.Has name' r') : Disjoint r r' := by
  have apart : Apart deriveMac s := by
    refine h.invariant (fun s start => ?_) fun _ _ _ _ apart met step => apart.next met.1 met.2 step
    refine ⟨.initial start.1, fun p opts is => ?_, .initial start.1, start.2⟩
    rw [start.1.2.2.2.1] at is
    cases is
  exact apart.disjoint name name' r r' ne has has'

theorem State.init_disjoint : State.init.Disjoint := by
  intro name _ r _ _ has
  rcases has with is | ⟨_, is, _⟩ <;> cases is

/-- The addresses of the first NICs of two machines. -/
def firstNics (name : String) (_ _ : ℕ) : String :=
  if name = "edge" then "02:65:cf:2c:40:0d"
  else if name = "core" then "02:b0:48:a3:e0:e7" else ""

/-- The second creation reads the reservation of the first, which then saves and unlocks. -/
def handover : List Event :=
  [.call 1 { name := "edge" }, .acquire 1] ++ pass 1 [] ++ pass 1 [] ++ pass 1 [] ++ pass 1 [] ++
    claim 1 ++ [.call 2 { name := "core" }, .acquire 2] ++ pass 2 ["edge"] ++ pass 2 ["edge"] ++
    [.save 1, .finish 1] ++ pass 2 ["edge"] ++ pass 2 ["edge"] ++ claim 2

theorem allocation_disjoint_two : ∃ s : State, ∃ edge core : Resources, s.Has "edge" edge ∧
    s.Has "core" core ∧ Disjoint edge core := by
  obtain ⟨s, reachable, edge, core⟩ := Transition.System.exists_reachable
    (S := (apartSystem firstNics).restrict fun s e => automatic e = true ∧ ownOrphan s e = true)
    (P := fun s =>
      s.machines "edge" = some ⟨9100, buildPortMappings 9100 [] [], ["02:65:cf:2c:40:0d"]⟩ ∧
      s.lock "core" = some (2, ⟨9110, buildPortMappings 9110 [] [], ["02:b0:48:a3:e0:e7"]⟩) ∧
      s.alive 2 = true)
    handover (s := .init) ⟨State.init_initial, State.init_disjoint⟩ (by decide +kernel)
  exact ⟨s, _, _, .inl edge, .inr ⟨2, core⟩,
    allocation_disjoint (Transition.System.ReachableUnder.of_restrict reachable) (by decide)
      (.inl edge) (.inr ⟨2, core⟩)⟩

/-- `lab` does not boot and is removed; it is being created anew when the error handler of the first
`start` removes its directory, and `core` is created before its record is saved. -/
def overrun : List Event :=
  [.call 1 { name := "lab" }, .acquire 1] ++ pass 1 [] ++ pass 1 [] ++ pass 1 [] ++ pass 1 [] ++
    claim 1 ++ [.save 1, .fail 1 true, .call 2 { name := "lab" }, .acquire 2] ++ pass 2 [] ++
    pass 2 [] ++ pass 2 [] ++ pass 2 [] ++ claim 2 ++ [.check 1, .discard 1, .call 3 { name := "core" },
    .acquire 3] ++ pass 3 [] ++ pass 3 [] ++ pass 3 [] ++ pass 3 [] ++ claim 3 ++ [.save 3, .save 2]

theorem allocation_disjoint_fails : ¬ ∀ s : State,
    (apartSystem firstNics).ReachableUnder (fun _ e => automatic e = true) s →
      ∀ name name' r r', name ≠ name' → s.Has name r → s.Has name' r' → Disjoint r r' := by
  intro claim
  obtain ⟨s, reachable, lab, core⟩ := Transition.System.exists_reachable
    (S := (apartSystem firstNics).restrict fun _ e => automatic e = true)
    (P := fun s => (s.machines "lab").map (·.portBase) = some 9100 ∧
      (s.machines "core").map (·.portBase) = some 9100)
    overrun (s := .init) ⟨State.init_initial, State.init_disjoint⟩ (by decide +kernel)
  obtain ⟨r, lab, base⟩ := Option.map_eq_some_iff.mp lab
  obtain ⟨r', core, base'⟩ := Option.map_eq_some_iff.mp core
  have apart := (claim s (Transition.System.ReachableUnder.of_restrict reachable) "lab" "core" r r'
    (by decide) (.inl lab) (.inl core)).1
  rw [base, base'] at apart
  cases apart

end Quickchr.Allocation
