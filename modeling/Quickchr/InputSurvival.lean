import Quickchr.CachedInputs

/-!
# How long a cached input lasts

A returned path stays whole until its caller is done with it, in the runs where no call deletes
what another has put in place and where evictions find the callers they come to covered. Each
of the two conditions is needed.
-/
namespace Quickchr.CachedInputs

open CachePins (Lease Session)

section Condition

variable (version : String) (arch : Arch)

/-- A live lease pins the entry, or a machine needed it when the pass in progress began. -/
def State.covered (s : State) (kind : Kind) : Bool :=
  s.base.liveLeases.any (fun lease => lease.pins.contains (kind.target version arch)) ||
    s.needs.contains (kind.target version arch)

/-- A call deletes the entry only while it is not usable: no other call has put it in place since
the check. -/
def State.Spares (s : State) : Event → Prop
  | .step i _ =>
      ∀ call ∈ s.calls[i]?, call.phase.removing = true → s.present version arch call.kind = false
  | _ => True

/-- When an eviction comes to a path that a caller is reading, the caller is covered. -/
def State.Covered (s : State) : Event → Prop
  | .base (.delete p gone) => ∀ call ∈ s.calls, s.base.alive call.pid = true → call.phase = .reading →
      s.base.evicts (.delete p gone) = some (call.kind.target version arch) →
        s.covered version arch call.kind = true
  | _ => True

/-- Whatever path a call has returned is there and whole until its caller is done with it. -/
def State.Survives (s : State) : Prop :=
  ∀ call ∈ s.calls, s.base.alive call.pid = true → call.phase = .reading →
    s.present version arch call.kind = true

instance (s : State) : DecidablePred (s.Spares version arch)
  | .step i _ => inferInstanceAs (Decidable (∀ call ∈ s.calls[i]?, _ → _))
  | .base _ | .save _ | .call _ _ => instDecidableTrue

instance (s : State) : DecidablePred (s.Covered version arch)
  | .base e =>
      match e with
      | .delete _ _ => inferInstanceAs (Decidable (∀ call ∈ s.calls, _ → _ → _ → _))
      | .lock _ | .look _ _ | .pass _ _ _ _ | .record _ _ | .unlock _ | .find _ _ _ | .release _ _
      | .crash _ | .publish _ | .clear _ => instDecidableTrue
  | .save _ | .call _ _ | .step _ _ => instDecidableTrue

instance (s : State) : Decidable (s.Survives version arch) :=
  inferInstanceAs (Decidable (∀ call ∈ s.calls, _ → _ → _))

end Condition

section Invariant

variable {version : String} {arch : Arch} {s t : State}

structure Inv (version : String) (arch : Arch) (s : State) : Prop where
  base : CachePins.Inv s.base
  /-- A pass leaves alone what the machines needed when it began. -/
  planned : ∀ σ, s.base.session = some σ → ∀ path ∈ σ.planned, ∀ input : CacheInput,
    input.pin ∈ s.needs → path ∉ input.paths
  fresh : ∀ (i : ℕ) (call : Call) (lease : Lease), s.calls[i]? = some call →
    call.phase.lease = some lease → lease.id < s.base.issued
  distinct : ∀ (i j : ℕ) (c d : Call) (lease : Lease), s.calls[i]? = some c →
    s.calls[j]? = some d → c.phase.lease = some lease → d.phase.lease = some lease → i = j
  /-- The lease of a call is recorded, and pins what the call returns. -/
  leased : ∀ (i : ℕ) (call : Call) (lease : Lease), s.calls[i]? = some call →
    s.base.alive call.pid = true → call.phase.lease = some lease →
      lease ∈ s.base.leases ∧ lease.pid = call.pid ∧ call.kind.target version arch ∈ lease.pins
  present : ∀ (i : ℕ) (call : Call), s.calls[i]? = some call → s.base.alive call.pid = true →
    call.phase.has = true → s.present version arch call.kind = true

/-- What an event leaves of the lock and the leases, as far as the calls go. -/
structure Moves (s t : State) (released : Option Lease) : Prop where
  base : CachePins.Inv t.base
  planned : ∀ σ, t.base.session = some σ → ∀ path ∈ σ.planned, ∀ input : CacheInput,
    input.pin ∈ t.needs → path ∉ input.paths
  issued : s.base.issued ≤ t.base.issued
  alive : ∀ p, t.base.alive p = true → s.base.alive p = true
  leases : ∀ lease ∈ s.base.leases, t.base.alive lease.pid = true → released ≠ some lease →
    lease ∈ t.base.leases

theorem Moves.refl (h : Inv version arch s) (t : State) (base : t.base = s.base)
    (needs : t.needs = s.needs) (released : Option Lease) : Moves s t released := by
  rw [show Moves s t released = Moves s { t with base := s.base } released by rw [← base]]
  exact ⟨h.base, needs ▸ h.planned, le_rfl, fun _ live => live, fun _ member _ _ => member⟩

/-- A call's lease stays where it is, unless it is the one released. -/
theorem Inv.leased_of_moves (h : Inv version arch s) {released : Option Lease}
    (moves : Moves s t released) {i : ℕ} {call : Call} {lease : Lease}
    (member : s.calls[i]? = some call) (live : t.base.alive call.pid = true)
    (own : call.phase.lease = some lease) (kept : released ≠ some lease) :
    lease ∈ t.base.leases ∧ lease.pid = call.pid ∧ call.kind.target version arch ∈ lease.pins := by
  obtain ⟨recorded, pid, pins⟩ := h.leased i call lease member (moves.alive _ live) own
  exact ⟨moves.leases lease recorded (pid ▸ live) kept, pid, pins⟩

/-- An eviction does not take the entry of a call that has it and, once it reads it, is covered. -/
theorem Inv.not_evicted (h : Inv version arch s) {i : ℕ} {call : Call}
    (member : s.calls[i]? = some call) (live : s.base.alive call.pid = true)
    (has : call.phase.has = true) (e : CachePins.Event)
    (covered : call.phase = .reading → s.base.evicts e = some (call.kind.target version arch) →
      s.covered version arch call.kind = true) :
    s.base.evicts e ≠ some (call.kind.target version arch) := by
  have pinned (lease : Lease) (recorded : lease ∈ s.base.leases)
      (alive : s.base.alive lease.pid = true)
      (pins : call.kind.target version arch ∈ lease.pins) :
      s.base.evicts e ≠ some (call.kind.target version arch) :=
    @CachePins.not_evicted _ h.base _ recorded alive (call.kind.input version arch) pins _
      (target_mem version arch call.kind) e
  have own (lease : Lease) (own : call.phase.lease = some lease) :
      s.base.evicts e ≠ some (call.kind.target version arch) := by
    obtain ⟨recorded, pid, pins⟩ := h.leased i call lease member live own
    exact pinned lease recorded (pid ▸ live) pins
  cases phase : call.phase <;> rw [phase] at has own <;> try cases has
  case finalizing lease => exact own lease rfl
  case returning lease => exact own lease rfl
  case reading =>
    intro evicted
    rcases Bool.or_eq_true_iff.mp (covered phase evicted) with lease | needed
    · obtain ⟨lease, inside, pins⟩ := List.any_eq_true.mp lease
      obtain ⟨recorded, alive⟩ := List.mem_filter.mp inside
      exact pinned lease recorded alive (List.contains_iff_mem.mp pins) evicted
    · cases e with
      | delete p gone =>
          obtain ⟨σ, holder, first⟩ := Option.bind_eq_some_iff.mp evicted
          have held := CachePins.sessionOf_eq_some holder
          exact h.planned σ held _ (List.mem_of_head? first) (call.kind.input version arch)
            (List.contains_iff_mem.mp needed) (target_mem version arch call.kind)
      | _ => cases evicted

def releasedBy : CachePins.Event → Option Lease
  | .release _ lease => some lease
  | _ => none

def Effect.released : Effect → Option Lease
  | .release lease => some lease
  | _ => none

theorem Moves.of_base {e : CachePins.Event} {base : CachePins.State} (h : Inv version arch s)
    (step : CachePins.next s.base (passOn s.machines e) = some base) (complete : List String) :
    Moves s { s with base := base, complete := complete, needs := s.needsAfter e }
      (releasedBy e) := by
  have kept := CachePins.kept_next step
  refine ⟨h.base.next step, ?_, kept.issued, kept.alive, fun lease member live other => ?_⟩
  · intro σ held path planned input needed
    rcases CachePins.planned_next step held planned with ⟨noPass, σ', before, old⟩ |
      ⟨p, rm, view, opts, pins, pass, attempted⟩
    · refine h.planned σ' before path old input ?_
      cases e with
      | pass p rm view opts => exact absurd rfl (noPass p rm { view with machines := s.machines } opts)
      | _ => exact needed
    · cases e <;> cases pass
      exact fun own => prune_spares (List.mem_append_left _ needed) own attempted
  · refine kept.leases lease member live fun p same => other ?_
    cases e <;> cases same
    rfl

theorem Moves.of_perform {pid : ℕ} {effect : Effect} (h : Inv version arch s)
    (step : s.perform pid effect = some t) : Moves s t effect.released := by
  obtain ⟨⟨⟨machines, needs, calls⟩, -⟩, base⟩ := perform_cases step
  rcases base with ⟨-, same⟩ | ⟨e, own, step⟩
  · exact .refl h t same needs _
  · have noPass : ∀ p rm view opts, e ≠ .pass p rm view opts := by
      cases effect <;> cases own <;> exact nofun
    have kept := CachePins.kept_next step
    refine ⟨h.base.next step, ?_, kept.issued, kept.alive, fun lease member live other => ?_⟩
    · intro σ held path planned input needed
      rcases CachePins.planned_next step held planned with ⟨-, σ', before, old⟩ |
        ⟨p, rm, view, opts, pins, pass, -⟩
      · exact h.planned σ' before path old input (needs ▸ needed)
      · exact absurd pass (noPass p rm view opts)
    · refine kept.leases lease member live fun p same => other ?_
      cases effect <;> cases own <;> cases same
      rfl

/-- A step that no call takes part in, and that releases no lease of a call. -/
theorem Inv.of_moves (h : Inv version arch s) {released : Option Lease} (moves : Moves s t released)
    (calls : t.calls = s.calls)
    (unheld : ∀ (i : ℕ) (call : Call) (lease : Lease), s.calls[i]? = some call →
      call.phase.lease = some lease → released ≠ some lease)
    (present : ∀ (i : ℕ) (call : Call), s.calls[i]? = some call → s.base.alive call.pid = true →
      call.phase.has = true → t.present version arch call.kind = true) : Inv version arch t := by
  refine ⟨moves.base, moves.planned, ?_, ?_, ?_, ?_⟩
  · intro i call lease member own
    exact (h.fresh i call lease (calls ▸ member) own).trans_le moves.issued
  · rw [calls]
    exact h.distinct
  · intro i call lease member live own
    have member := calls ▸ member
    exact h.leased_of_moves moves member live own (unheld i call lease member own)
  · intro i call member live
    exact present i call (calls ▸ member) (moves.alive _ live)

theorem Inv.next_base {e : CachePins.Event} (h : Inv version arch s)
    (covered : s.Covered version arch (.base e)) (n : next version arch s (.base e) = some t) :
    Inv version arch t := by
  obtain ⟨allowed, n⟩ := Option.ite_none_right_eq_some.mp n
  obtain ⟨base, step, eq⟩ := Option.map_eq_some_iff.mp n
  cases eq
  refine h.of_moves (Moves.of_base h step (s.completeAfter e)) rfl ?_ ?_
  · intro i call lease member own
    cases e with
    | release p other =>
        rintro ⟨⟩
        exact of_decide_eq_true (List.all_eq_true.mp allowed call (List.mem_of_getElem? member)) own
    | _ => nofun
  · intro i call member live has
    obtain ⟨file, whole⟩ := present_iff.mp (h.present i call member live has)
    have kept : s.base.evicts e ≠ some (call.kind.target version arch) := by
      cases e with
      | delete p gone =>
          exact h.not_evicted member live has _ (covered call (List.mem_of_getElem? member) live)
      | _ => nofun
    refine present_iff.mpr ⟨CachePins.files_kept step file ?_ ?_, ?_⟩
    · cases e <;> exact kept
    · cases e with
      | clear => cases allowed
      | _ => nofun
    · show _ ∈ s.completeAfter e
      unfold State.completeAfter
      split
      · rename_i path evicted
        exact List.mem_filter.mpr ⟨whole, decide_eq_true fun same => kept (same ▸ evicted)⟩
      · exact whole

theorem getElem?_append_single {calls : List Call} {new call : Call} {i : ℕ}
    (h : (calls ++ [new])[i]? = some call) : calls[i]? = some call ∨ call = new := by
  rw [List.getElem?_append] at h
  split at h
  · exact .inl h
  · exact .inr (List.mem_singleton.mp (List.mem_of_getElem? h))

theorem Inv.next_call {pid : ℕ} {kind : Kind} (h : Inv version arch s)
    (n : next version arch s (.call pid kind) = some t) : Inv version arch t := by
  obtain ⟨-, eq⟩ := Option.ite_none_right_eq_some.mp n
  cases eq
  -- A new call has neither a lease nor the entry.
  have leased {i : ℕ} {call : Call} {lease : Lease}
      (member : (s.calls ++ [⟨pid, kind, .checking⟩])[i]? = some call)
      (own : call.phase.lease = some lease) : s.calls[i]? = some call := by
    rcases getElem?_append_single member with old | rfl
    · exact old
    · cases own
  refine ⟨h.base, h.planned, ?_, ?_, ?_, ?_⟩
  · intro i call lease member own
    exact h.fresh i call lease (leased member own) own
  · intro i j c d lease first second own other
    exact h.distinct i j c d lease (leased first own) (leased second other) own other
  · intro i call lease member live own
    exact h.leased i call lease (leased member own) live own
  · intro i call member live has
    rcases getElem?_append_single member with old | rfl
    · exact h.present i call old live has
    · cases has

theorem getElem?_set_cases {calls : List Call} {new call : Call} {i j : ℕ}
    (h : (calls.set i new)[j]? = some call) :
    (j = i ∧ call = new) ∨ (j ≠ i ∧ calls[j]? = some call) := by
  rw [List.getElem?_set] at h
  split at h
  · rename_i same
    obtain ⟨-, eq⟩ := Option.ite_none_right_eq_some.mp h
    exact .inl ⟨same.symm, (Option.some.inj eq).symm⟩
  · rename_i other
    exact .inr ⟨Ne.symm other, h⟩

theorem Inv.next_step {i : ℕ} {good : Bool} (h : Inv version arch s)
    (spares : s.Spares version arch (.step i good))
    (n : next version arch s (.step i good) = some t) : Inv version arch t := by
  simp only [CachedInputs.next] at n
  split at n
  · cases n
  · rename_i call member
    obtain ⟨live, n⟩ := Option.ite_none_right_eq_some.mp n
    split at n
    · cases n
    · rename_i effect phase act
      obtain ⟨u, performed, eq⟩ := Option.map_eq_some_iff.mp n
      cases eq
      have acts := Call.acts act
      have moves := Moves.of_perform h performed
      have noRelease (lease : Lease) (not : ∀ lease, effect ≠ .release lease) :
          effect.released ≠ some lease := by
        cases effect with
        | release other => exact absurd rfl (not other)
        | _ => nofun
      have stays {kind : Kind} (present : s.present version arch kind = true) :
          u.present version arch kind = true := by
        refine perform_present performed present fun path removed same => ?_
        rcases acts.removes path removed with archive | ⟨target, removing⟩
        · exact archive_ne_target version arch call.kind kind (archive.symm.trans same)
        · have own := target_injective version arch (target.symm.trans same)
          rw [← own, spares call member removing] at present
          cases present
      -- The lease of the call afterwards is its own or a new one.
      have only (k : ℕ) (d : Call) (lease : Lease) (old : s.calls[k]? = some d)
          (own : phase.lease = some lease) (other : d.phase.lease = some lease) : i = k := by
        rcases (acts.lease lease own).2 with before | ⟨-, rfl⟩
        · exact h.distinct i k call d lease member old before other
        · exact absurd (h.fresh k d _ old other) (Nat.lt_irrefl _)
      refine ⟨moves.base, moves.planned, ?_, ?_, ?_, ?_⟩
      · intro j c lease at_ own
        rcases getElem?_set_cases at_ with ⟨rfl, rfl⟩ | ⟨-, old⟩
        · rcases (acts.lease lease own).2 with before | ⟨admits, rfl⟩
          · exact (h.fresh _ call lease member before).trans_le moves.issued
          · rw [admits] at performed
            exact (perform_record performed).1 ▸ Nat.lt_succ_self _
        · exact (h.fresh j c lease old own).trans_le moves.issued
      · intro j k c d lease first second own other
        rcases getElem?_set_cases first with ⟨rfl, rfl⟩ | ⟨-, old⟩ <;>
          rcases getElem?_set_cases second with ⟨rfl, rfl⟩ | ⟨-, old'⟩
        · rfl
        · exact only k d lease old' own other
        · exact (only j c lease old other own).symm
        · exact h.distinct j k c d lease old old' own other
      · intro j c lease at_ live' own
        rcases getElem?_set_cases at_ with ⟨rfl, rfl⟩ | ⟨other, old⟩
        · obtain ⟨not, before | ⟨admits, rfl⟩⟩ := acts.lease lease own
          · have kept := h.leased_of_moves moves member live' before (noRelease lease not)
            exact kept
          · rw [admits] at performed
            exact ⟨(perform_record performed).2, rfl, target_mem_pins version arch call.kind⟩
        · refine h.leased_of_moves moves old live' own fun released => other ?_
          cases effect with
          | release released' =>
              cases released
              exact h.distinct j i c call lease old member own (acts.release lease rfl)
          | _ => cases released
      · intro j c at_ live' has
        rcases getElem?_set_cases at_ with ⟨rfl, rfl⟩ | ⟨-, old⟩
        · rcases acts.has has with before | present | lands
          · exact stays (h.present _ call member live before)
          · exact stays present
          · rw [lands] at performed
            have landed := perform_land performed
            exact landed
        · exact stays (h.present j c old (moves.alive _ live') has)

end Invariant

theorem initial_inv {version : String} {arch : Arch} {s : State}
    (h : (system version arch).Initial s) : Inv version arch s := by
  obtain ⟨noLeases, noSession, noFound, noCalls⟩ := h
  have none (i : ℕ) (call : Call) (member : s.calls[i]? = some call) : False := by
    rw [noCalls] at member
    cases member
  refine ⟨CachePins.reachable_inv (.initial ⟨noLeases, noSession, noFound⟩), ?_, ?_, ?_, ?_, ?_⟩
  · intro σ held
    rw [noSession] at held
    cases held
  · exact fun i call _ member => (none i call member).elim
  · exact fun i _ call _ _ member => (none i call member).elim
  · exact fun i call _ member => (none i call member).elim
  · exact fun i call member => (none i call member).elim

theorem Inv.next {version : String} {arch : Arch} {s t : State} {e : Event} (h : Inv version arch s)
    (spares : s.Spares version arch e) (covered : s.Covered version arch e)
    (n : next version arch s e = some t) : Inv version arch t := by
  cases e with
  | base e => exact h.next_base covered n
  | save machines =>
      cases n
      exact h.of_moves (Moves.refl h { s with machines := machines } rfl rfl none) rfl
        (fun _ _ _ _ _ => nofun) h.present
  | call pid kind => exact h.next_call n
  | step i good => exact h.next_step spares n

/-- What a call has returned is there and whole until its caller is done with it, in every run
where the calls delete an entry only while it is not usable and the evictions come to what is being
read only while those who read it are covered. -/
theorem input_survives {version : String} {arch : Arch} {s : State}
    (run : (system version arch).ReachableUnder
      (fun s e => s.Spares version arch e ∧ s.Covered version arch e) s) :
    s.Survives version arch := by
  have inv : Inv version arch s :=
    run.invariant (fun s start => initial_inv start) fun s e t _ inv cond n => inv.next cond.1 cond.2 n
  intro call member live reading
  obtain ⟨i, at_⟩ := List.getElem?_of_mem member
  exact inv.present i call at_ live (by rw [reading]; rfl)

def version : String := "7.20.8"

/-- Nothing but the given names in the cache, all whole. -/
def stocked (files : List String) : State :=
  { base := ⟨[], [], 0, none, files, []⟩
    complete := files
    machines := some []
    needs := []
    calls := [] }

/-- Both calls find no image; the first one fills the cache, and the second one then removes what
it takes for the image that was not usable. -/
def staleImageRun : List Event :=
  [.call 1 .image, .call 2 .image, .step 0 true, .step 1 true, .step 0 true,
    .base (.lock 1), .step 0 true, .base (.unlock 1), .step 0 true, .step 0 true, .step 0 true,
    .step 0 true, .step 0 true, .step 1 true, .step 0 true, .step 0 true, .step 1 true]

/-- Both calls extract the packages; the first one returns, and the second one clears the
directory for its own. -/
def clearedPackagesRun : List Event :=
  [.call 1 .packages, .call 2 .packages, .step 0 true, .step 1 true,
    .base (.lock 1), .step 0 true, .base (.unlock 1), .base (.lock 2), .step 1 true,
    .base (.unlock 2), .step 0 true, .step 1 true, .step 0 true, .step 1 true, .step 0 true,
    .step 0 true, .step 0 true, .step 0 true, .step 1 true, .step 1 true]

/-- A prune by process 2 of the packages and of an older image. -/
def pruneEvents (deletes : ℕ) : List Event :=
  [.base (.lock 2), .base (.look 2 []),
    .base (.pass 2 (fun _ => none)
      { listing := [⟨"packages-x86-7.20.8", .directory, 9, 0⟩, ⟨"chr-7.1.img", .file, 9, 0⟩]
        machines := none
        now := 0
        pidAlive := fun _ => true }
      { maxSizeBytes := some 0 })] ++ List.replicate deletes (.base (.delete 2 true))

/-- The packages are there and returned at once; no machine needs them. -/
def prunedPackagesRun : List Event := [.call 1 .packages, .step 0 true] ++ pruneEvents 2

def packagesStock : List String := ["all_packages-x86-7.20.8.zip", "packages-x86-7.20.8", "chr-7.1.img"]

/-- Process 1 pins the packages before it asks for them. -/
def pinnedPackagesRun : List Event :=
  [.base (.lock 1), .base (.record 1 ["packages-x86-7.20.8"]), .base (.unlock 1),
    .call 1 .packages, .step 0 true] ++ pruneEvents 1

def pinnedPackages : State :=
  ((system version .x86).replay (stocked packagesStock) pinnedPackagesRun).getD (stocked [])

theorem pinned_packages_survive :
    pinnedPackages.base.files = ["all_packages-x86-7.20.8.zip", "packages-x86-7.20.8"] ∧
      pinnedPackages.calls = [⟨1, .packages, .reading⟩] ∧
      pinnedPackages.Survives version .x86 := by
  have run : ((system version .x86).restrict fun s e => s.Spares version .x86 e ∧
      s.Covered version .x86 e).replay (stocked packagesStock) pinnedPackagesRun =
        some pinnedPackages := by
    decide +kernel
  exact ⟨by decide +kernel, by decide +kernel, input_survives
    (.of_restrict (Transition.System.reachable_of_replay ⟨rfl, rfl, rfl, rfl⟩ run))⟩

/-- A returned path is lost where one call deletes what another has put in place. -/
theorem input_survives_fails :
    ¬ ∀ s, (system version .x86).Reachable s → s.Survives version .x86 := by
  intro all
  obtain ⟨s, reached, lost⟩ := Transition.System.exists_reachable
    (P := fun s => ¬ s.Survives version .x86) staleImageRun
    (s := stocked []) (S := system version .x86) ⟨rfl, rfl, rfl, rfl⟩ (by decide +kernel)
  exact lost (all s reached)

theorem covered_not_enough : ∃ s,
    (system version .x86).ReachableUnder (fun s e => s.Covered version .x86 e) s ∧
      ¬ s.Survives version .x86 := by
  obtain ⟨s, reached, lost⟩ := Transition.System.exists_reachable
    (P := fun s => ¬ s.Survives version .x86) clearedPackagesRun (s := stocked [])
    (S := (system version .x86).restrict fun s e => s.Covered version .x86 e)
    ⟨rfl, rfl, rfl, rfl⟩ (by decide +kernel)
  exact ⟨s, .of_restrict reached, lost⟩

theorem spares_not_enough : ∃ s,
    (system version .x86).ReachableUnder (fun s e => s.Spares version .x86 e) s ∧
      ¬ s.Survives version .x86 := by
  obtain ⟨s, reached, lost⟩ := Transition.System.exists_reachable
    (P := fun s => ¬ s.Survives version .x86) prunedPackagesRun (s := stocked packagesStock)
    (S := (system version .x86).restrict fun s e => s.Spares version .x86 e)
    ⟨rfl, rfl, rfl, rfl⟩ (by decide +kernel)
  exact ⟨s, .of_restrict reached, lost⟩

end Quickchr.CachedInputs
