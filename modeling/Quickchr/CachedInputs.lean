import Quickchr.CachePins

/-!
# Cached inputs

Calls of `ensureCachedImage` and `downloadPackages` for one version and architecture, each from
its first look at the cache to the end of its caller's use, beside evictions, the leases of
other operations, machine records that come and go, and crashes. A call runs in a process;
whatever a process does besides is an event of its own.
-/
namespace Quickchr.CachedInputs

open CachePins (Lease Session)

/-- The function called: `ensureCachedImage` or `downloadPackages`. -/
inductive Kind
  | image
  | packages
  deriving DecidableEq, Repr

section Names

variable (version : String) (arch : Arch)

def Kind.input : Kind → CacheInput
  | .image => .image version arch
  | .packages => .packages version arch

/-- The path the call returns: the image, or the directory of the packages. -/
def Kind.target (kind : Kind) : String := (kind.input version arch).pin

def Kind.archive : Kind → String
  | .image => (CacheInput.imageZip version arch).pin
  | .packages => s!"all_packages-{arch.text}-{version}.zip"

/-- What the call pins while it fills the cache. -/
def Kind.pins : Kind → List String
  | .image => [(CacheInput.image version arch).pin, (CacheInput.imageZip version arch).pin]
  | .packages => [(CacheInput.packages version arch).pin]

end Names

inductive Phase
  /-- `isUsableCachedImage` or `isCompletePackageCache` -/
  | checking
  /-- `existsSync` of an image that was not usable: before the admission, or in `extractImage`. -/
  | stale (lease : Option Lease)
  /-- `unlinkSync` of that image. -/
  | unlinking (lease : Option Lease)
  | admitting
  /-- `existsSync` of the archive, and its download. -/
  | fetching (lease : Lease)
  /-- `isUsableCachedImage` in `extractImage`. -/
  | rechecking (lease : Lease)
  | extracting (lease : Lease)
  /-- The rename of the image into place. -/
  | publishing (lease : Lease)
  /-- `existsSync` of the extracted packages. -/
  | placing (lease : Lease)
  /-- `rmSync` of the extracted packages: its contents, then the directory. -/
  | clearing (lease : Lease)
  | cleared (lease : Lease)
  /-- The rename of the packages into place. -/
  | moving (lease : Lease)
  /-- `isCompletePackageCache` once more. -/
  | verifying (lease : Lease)
  /-- `finalizeExtractedImage` -/
  | finalizing (lease : Lease)
  /-- The release of the lease, and the return of the path. -/
  | returning (lease : Lease)
  /-- The release of the lease, and the throw. -/
  | failing (lease : Lease)
  /-- The caller reads what the returned path names. -/
  | reading
  | finished
  deriving DecidableEq, Repr

def Phase.lease : Phase → Option Lease
  | .checking | .admitting | .reading | .finished => none
  | .stale lease | .unlinking lease => lease
  | .fetching lease | .rechecking lease | .extracting lease | .publishing lease | .placing lease
  | .clearing lease | .cleared lease | .moving lease | .verifying lease | .finalizing lease
  | .returning lease | .failing lease => some lease

/-- The call has found the entry or put it in place. -/
def Phase.has : Phase → Bool
  | .finalizing _ | .returning _ | .reading => true
  | _ => false

/-- The next step deletes the entry for not being usable. -/
def Phase.removing : Phase → Bool
  | .unlinking _ | .clearing _ | .cleared _ => true
  | _ => false

structure Call where
  pid : ℕ
  kind : Kind
  phase : Phase
  deriving DecidableEq, Repr

structure State where
  /-- The storage lock, the leases and the names in the cache. -/
  base : CachePins.State
  /-- The names whose content is whole. -/
  complete : List String
  machines : Option (List MachineNeeds)
  /-- What the machines needed when the pass in progress began. -/
  needs : List String
  calls : List Call
  deriving DecidableEq, Repr

section Calls

variable (version : String) (arch : Arch)

def State.present (s : State) (kind : Kind) : Bool :=
  s.base.files.contains (kind.target version arch) && s.complete.contains (kind.target version arch)

/-- What `isUsableCachedImage` or `isCompletePackageCache` answers. -/
def State.usable (s : State) : Kind → Bool
  | .image => s.present version arch .image
  | .packages =>
      s.base.files.contains (Kind.packages.archive version arch) && s.present version arch .packages

/-- What a step of a call does outside the call. -/
inductive Effect
  | stay
  /-- Whole content lands under the path by a rename. -/
  | land (path : String)
  /-- The content of a directory goes, the directory not yet. -/
  | gut (path : String)
  | unlink (path : String)
  /-- The admission records the call's lease. -/
  | record (pins : List String)
  | release (lease : Lease)
  deriving DecidableEq, Repr

/-- The next step of a call; `good` says how a download, an extraction, an admission or the removal
of an image ZIP ends, and whether a rename succeeds onto a directory that is there and not whole. -/
def Call.act (s : State) (call : Call) (good : Bool) : Option (Effect × Phase) :=
  let target := call.kind.target version arch
  let archive := call.kind.archive version arch
  let after (lease : Option Lease) : Phase :=
    match lease with
    | none => .admitting
    | some lease => .extracting lease
  match call.phase with
  | .checking =>
      if s.usable version arch call.kind then some (.stay, .reading)
      else
        match call.kind with
        | .image => some (.stay, .stale none)
        | .packages => some (.stay, .admitting)
  | .stale lease =>
      some (.stay, if s.base.files.contains target then .unlinking lease else after lease)
  | .unlinking lease =>
      if s.base.files.contains target then some (.unlink target, after lease)
      else
        match lease with
        | none => some (.stay, .finished)
        | some lease => some (.stay, .failing lease)
  | .admitting =>
      if good then
        some (.record (call.kind.pins version arch),
          .fetching ⟨s.base.issued, call.pid, call.kind.pins version arch⟩)
      else some (.stay, .finished)
  | .fetching lease =>
      let fetched : Phase :=
        match call.kind with
        | .image => .rechecking lease
        | .packages => .extracting lease
      if s.base.files.contains archive then some (.stay, fetched)
      else if good then some (.land archive, fetched)
      else some (.stay, .failing lease)
  | .rechecking lease =>
      some (.stay,
        if s.usable version arch call.kind then .finalizing lease else .stale (some lease))
  | .extracting lease =>
      if s.base.files.contains archive && good then
        match call.kind with
        | .image => some (.stay, .publishing lease)
        | .packages => some (.stay, .placing lease)
      else some (.stay, .failing lease)
  | .publishing lease => some (.land target, .finalizing lease)
  | .placing lease =>
      some (.stay, if s.base.files.contains target then .clearing lease else .moving lease)
  | .clearing lease => some (.gut target, .cleared lease)
  | .cleared lease => some (.unlink target, .moving lease)
  | .moving lease =>
      if s.base.files.contains target && (s.complete.contains target || !good) then
        some (.stay, .failing lease)
      else some (.land target, .verifying lease)
  | .verifying lease =>
      some (.stay,
        if s.usable version arch call.kind then .returning lease else .failing lease)
  | .finalizing lease =>
      if s.base.files.contains target && s.base.files.contains archive then
        if good then some (.unlink archive, .returning lease) else some (.stay, .failing lease)
      else some (.stay, .returning lease)
  | .returning lease => some (.release lease, .reading)
  | .failing lease => some (.release lease, .finished)
  | .reading => some (.stay, .finished)
  | .finished => none

end Calls

/-- The step of the lock, the leases and the names that an effect is. -/
def Effect.event (pid : ℕ) : Effect → Option CachePins.Event
  | .land path => some (.publish path)
  | .unlink path => some (.clear path)
  | .record pins => some (.record pid pins)
  | .release lease => some (.release pid lease)
  | .stay | .gut _ => none

def Effect.completeAfter (complete : List String) : Effect → List String
  | .land path => path :: complete
  | .unlink path | .gut path => complete.filter (· ≠ path)
  | .stay | .record _ | .release _ => complete

/-- The effect on the cache and the leases. -/
def State.perform (s : State) (pid : ℕ) (effect : Effect) : Option State :=
  match effect.event pid with
  | none => some { s with complete := effect.completeAfter s.complete }
  | some e =>
      (CachePins.next s.base e).map fun base =>
        { s with base := base, complete := effect.completeAfter s.complete }

inductive Event
  /-- A step of an eviction, of another lease, or a crash. -/
  | base (e : CachePins.Event)
  /-- Machine records are written or removed. -/
  | save (machines : Option (List MachineNeeds))
  | call (pid : ℕ) (kind : Kind)
  /-- The next step of a call. -/
  | step (i : ℕ) (good : Bool)

/-- Files come and go by calls and evictions only, and a call's own lease is released by it. -/
def State.allows (s : State) : CachePins.Event → Bool
  | .publish _ | .clear _ | .find .. => false
  | .release _ lease => s.calls.all fun call => call.phase.lease ≠ some lease
  | _ => true

/-- A pass reads the machine records as they are. -/
def passOn (machines : Option (List MachineNeeds)) : CachePins.Event → CachePins.Event
  | .pass p rm view opts => .pass p rm { view with machines := machines } opts
  | e => e

def State.needsAfter (s : State) : CachePins.Event → List String
  | .pass .. => inUseSet s.machines
  | _ => s.needs

def State.completeAfter (s : State) (e : CachePins.Event) : List String :=
  match s.base.evicts e with
  | some path => s.complete.filter (· ≠ path)
  | none => s.complete

def next (version : String) (arch : Arch) (s : State) : Event → Option State
  | .base e =>
      if s.allows e then
        (CachePins.next s.base (passOn s.machines e)).map fun base =>
          { s with base := base, complete := s.completeAfter e, needs := s.needsAfter e }
      else none
  | .save machines => some { s with machines := machines }
  | .call pid kind =>
      if s.base.alive pid then some { s with calls := s.calls ++ [⟨pid, kind, .checking⟩] } else none
  | .step i good =>
      match s.calls[i]? with
      | none => none
      | some call =>
          if s.base.alive call.pid then
            match call.act version arch s good with
            | none => none
            | some (effect, phase) =>
                (s.perform call.pid effect).map fun t =>
                  { t with calls := s.calls.set i { call with phase := phase } }
          else none

def system (version : String) (arch : Arch) : Transition.System State Event where
  Initial s := s.base.leases = [] ∧ s.base.session = none ∧ s.base.found = [] ∧ s.calls = []
  next := next version arch

section Paths

variable (version : String) (arch : Arch)

theorem target_mem (kind : Kind) : kind.target version arch ∈ (kind.input version arch).paths := by
  cases kind with
  | image => exact List.mem_cons_self
  | packages => exact List.mem_cons_of_mem _ List.mem_cons_self

theorem target_mem_pins (kind : Kind) : kind.target version arch ∈ kind.pins version arch := by
  cases kind <;> exact List.mem_cons_self

theorem image_target_head : (Kind.image.target version arch).toList.head? = some 'c' :=
  image_head version ".img" arch

theorem packages_target_head : (Kind.packages.target version arch).toList.head? = some 'p' := by
  simp only [Kind.target, Kind.input, CacheInput.pin, String.toList_append, List.append_assoc]
  rfl

theorem target_injective {k k' : Kind} (h : k.target version arch = k'.target version arch) :
    k = k' := by
  have heads := congrArg (fun path => path.toList.head?) h
  cases k <;> cases k' <;>
    simp only [image_target_head, packages_target_head, Option.some.injEq] at heads
  · rfl
  · exact absurd heads (by decide)
  · exact absurd heads (by decide)
  · rfl

theorem archive_packages :
    Kind.packages.archive version arch = s!"all_packages-{arch.text}-{version}.zip" := rfl

theorem archive_ne_target (k k' : Kind) : k.archive version arch ≠ k'.target version arch := by
  intro h
  have heads : (k.archive version arch).toList.head? = (k'.target version arch).toList.head? := by
    rw [h]
  cases k with
  | image =>
      have head : (Kind.image.archive version arch).toList.head? = some 'c' :=
        image_head version ".img.zip" arch
      cases k' with
      | image =>
          have chars : (CacheInput.imageZip version arch).pin.toList =
              (CacheInput.image version arch).pin.toList := congrArg String.toList h
          simp only [CacheInput.pin, String.toList_append] at chars
          exact absurd (ends_differ (c := 'p') (d := 'g') chars rfl rfl) (by decide)
      | packages =>
          rw [head, packages_target_head] at heads
          cases heads
  | packages =>
      have head : (Kind.packages.archive version arch).toList.head? = some 'a' := by
        rw [archive_packages]
        simp only [String.toList_append, List.append_assoc]
        rfl
      cases k' with
      | image =>
          rw [head, image_target_head] at heads
          cases heads
      | packages =>
          rw [head, packages_target_head] at heads
          cases heads

end Paths

section Steps

variable {version : String} {arch : Arch} {s t : State}

/-- What is known of the step a call takes. -/
structure Call.Acts (version : String) (arch : Arch) (s : State) (call : Call) (effect : Effect)
    (phase : Phase) : Prop where
  /-- The lease is the call's from the admission to the release. -/
  lease : ∀ lease, phase.lease = some lease → (∀ lease, effect ≠ .release lease) ∧
    (call.phase.lease = some lease ∨
      effect = .record (call.kind.pins version arch) ∧
        lease = ⟨s.base.issued, call.pid, call.kind.pins version arch⟩)
  /-- The entry is there when the call first has it. -/
  has : phase.has = true → call.phase.has = true ∨ s.present version arch call.kind = true ∨
    effect = .land (call.kind.target version arch)
  release : ∀ lease, effect = .release lease → call.phase.lease = some lease
  /-- What goes is the archive, or the entry that was not usable. -/
  removes : ∀ path, effect = .unlink path ∨ effect = .gut path →
    path = call.kind.archive version arch ∨
      path = call.kind.target version arch ∧ call.phase.removing = true
  /-- Only a call that has no lease yet is admitted. -/
  admits : ∀ pins, effect = .record pins → call.phase.lease = none

theorem usable_present {kind : Kind} (h : s.usable version arch kind = true) :
    s.present version arch kind = true := by
  cases kind with
  | image => exact h
  | packages => exact (Bool.and_eq_true_iff.mp h).2

theorem Call.Acts.stay {call : Call} {phase : Phase}
    (lease : ∀ lease, phase.lease = some lease → call.phase.lease = some lease)
    (has : phase.has = true → call.phase.has = true ∨ s.present version arch call.kind = true) :
    call.Acts version arch s .stay phase := by
  refine ⟨fun l own => ⟨nofun, .inl (lease l own)⟩, fun h => (has h).imp_right .inl, nofun,
    fun path removed => ?_, nofun⟩
  rcases removed with removed | removed <;> cases removed

theorem Call.Acts.land {call : Call} {phase : Phase} {path : String}
    (lease : phase.lease = call.phase.lease)
    (has : phase.has = true → path = call.kind.target version arch) :
    call.Acts version arch s (.land path) phase := by
  refine ⟨fun l own => ⟨nofun, .inl (lease ▸ own)⟩, fun h => .inr (.inr (has h ▸ rfl)), nofun,
    fun path removed => ?_, nofun⟩
  rcases removed with removed | removed <;> cases removed

theorem Call.acts {call : Call} {good : Bool} {effect : Effect} {phase : Phase}
    (h : call.act version arch s good = some (effect, phase)) :
    call.Acts version arch s effect phase := by
  obtain ⟨pid, kind, current⟩ := call
  cases current with
  | checking =>
      simp only [Call.act] at h
      split at h
      · rename_i usable
        cases h
        exact .stay nofun fun _ => .inr (usable_present usable)
      · cases kind <;> cases h
        · exact .stay nofun nofun
        · exact .stay nofun nofun
  | stale lease =>
      cases h
      refine .stay (fun l own => ?_) fun has => ?_
      · split at own
        · exact own
        · cases lease with
          | none => cases own
          | some lease => exact own
      · split at has
        · cases has
        · cases lease <;> cases has
  | unlinking lease =>
      simp only [Call.act] at h
      split at h
      · cases h
        refine ⟨fun l own => ⟨nofun, ?_⟩, fun has => ?_, nofun, fun path removed => ?_, nofun⟩
        · cases lease with
          | none => cases own
          | some lease => exact .inl own
        · cases lease <;> cases has
        · rcases removed with removed | removed <;> cases removed
          exact .inr ⟨rfl, rfl⟩
      · cases lease <;> cases h
        · exact .stay nofun nofun
        · exact .stay (fun l own => own) nofun
  | admitting =>
      simp only [Call.act] at h
      split at h
      · cases h
        refine ⟨fun l own => ⟨nofun, .inr ⟨rfl, (Option.some.inj own).symm⟩⟩, nofun, nofun,
          fun path removed => ?_, fun _ _ => rfl⟩
        rcases removed with removed | removed <;> cases removed
      · cases h
        exact .stay nofun nofun
  | fetching lease =>
      simp only [Call.act] at h
      split at h
      · cases kind <;> cases h
        · exact .stay (fun l own => own) nofun
        · exact .stay (fun l own => own) nofun
      · split at h
        · cases kind <;> cases h
          · exact .land rfl nofun
          · exact .land rfl nofun
        · cases h
          exact .stay (fun l own => own) nofun
  | rechecking lease =>
      simp only [Call.act] at h
      split at h
      · rename_i usable
        cases h
        exact .stay (fun l own => own) fun _ => .inr (usable_present usable)
      · cases h
        exact .stay (fun l own => own) nofun
  | extracting lease =>
      simp only [Call.act] at h
      split at h
      · cases kind <;> cases h
        · exact .stay (fun l own => own) nofun
        · exact .stay (fun l own => own) nofun
      · cases h
        exact .stay (fun l own => own) nofun
  | publishing lease =>
      cases h
      exact .land rfl fun _ => rfl
  | placing lease =>
      simp only [Call.act] at h
      split at h <;> cases h
      · exact .stay (fun l own => own) nofun
      · exact .stay (fun l own => own) nofun
  | clearing lease | cleared lease =>
      cases h
      refine ⟨fun l own => ⟨nofun, .inl own⟩, nofun, nofun, fun path removed => ?_, nofun⟩
      rcases removed with removed | removed <;> cases removed
      exact .inr ⟨rfl, rfl⟩
  | moving lease =>
      simp only [Call.act] at h
      split at h <;> cases h
      · exact .stay (fun l own => own) nofun
      · exact .land rfl fun _ => rfl
  | verifying lease =>
      simp only [Call.act] at h
      split at h
      · rename_i usable
        cases h
        exact .stay (fun l own => own) fun _ => .inr (usable_present usable)
      · cases h
        exact .stay (fun l own => own) nofun
  | finalizing lease =>
      simp only [Call.act] at h
      split at h
      · split at h <;> cases h
        · refine ⟨fun l own => ⟨nofun, .inl own⟩, fun _ => .inl rfl, nofun,
            fun path removed => ?_, nofun⟩
          rcases removed with removed | removed <;> cases removed
          exact .inl rfl
        · exact .stay (fun l own => own) nofun
      · cases h
        exact .stay (fun l own => own) fun _ => .inl rfl
  | returning lease | failing lease =>
      cases h
      refine ⟨nofun, ?_, fun l released => ?_, fun path removed => ?_, nofun⟩
      · first | exact fun _ => .inl rfl | exact nofun
      · cases released
        rfl
      · rcases removed with removed | removed <;> cases removed
  | reading =>
      cases h
      exact .stay nofun nofun
  | finished => cases h

/-- The effect of a call's step is at most one step of the lock, the leases and the names. -/
theorem perform_cases {pid : ℕ} {effect : Effect} (h : s.perform pid effect = some t) :
    ((t.machines = s.machines ∧ t.needs = s.needs ∧ t.calls = s.calls) ∧
        t.complete = effect.completeAfter s.complete) ∧
      ((effect.event pid = none ∧ t.base = s.base) ∨
        ∃ e, effect.event pid = some e ∧ CachePins.next s.base e = some t.base) := by
  unfold State.perform at h
  split at h
  · rename_i none
    cases h
    exact ⟨⟨⟨rfl, rfl, rfl⟩, rfl⟩, .inl ⟨none, rfl⟩⟩
  · rename_i e own
    obtain ⟨base, step, eq⟩ := Option.map_eq_some_iff.mp h
    cases eq
    exact ⟨⟨⟨rfl, rfl, rfl⟩, rfl⟩, .inr ⟨e, own, step⟩⟩

theorem perform_record {pid : ℕ} {pins : List String} (h : s.perform pid (.record pins) = some t) :
    t.base.issued = s.base.issued + 1 ∧ ⟨s.base.issued, pid, pins⟩ ∈ t.base.leases := by
  rcases (perform_cases h).2 with ⟨none, -⟩ | ⟨e, own, step⟩
  · cases none
  · cases own
    obtain ⟨base, is⟩ : ∃ base, base = t.base := ⟨_, rfl⟩
    rw [← is] at step ⊢
    cases CachePins.move_of_next step with
    | record => exact ⟨rfl, List.mem_append_right _ List.mem_cons_self⟩

theorem present_iff {kind : Kind} : s.present version arch kind = true ↔
    kind.target version arch ∈ s.base.files ∧ kind.target version arch ∈ s.complete := by
  simp only [State.present, Bool.and_eq_true, List.contains_iff_mem]

theorem perform_land {pid : ℕ} {kind : Kind}
    (h : s.perform pid (.land (kind.target version arch)) = some t) :
    t.present version arch kind = true := by
  obtain ⟨⟨-, complete⟩, base⟩ := perform_cases h
  rcases base with ⟨none, -⟩ | ⟨e, own, step⟩
  · cases none
  · cases own
    refine present_iff.mpr ⟨?_, complete ▸ List.mem_cons_self⟩
    rw [← Option.some.inj step]
    dsimp only
    split
    · assumption
    · exact List.mem_append_right _ List.mem_cons_self

/-- What is there stays there, unless the step removes just that. -/
theorem perform_present {pid : ℕ} {effect : Effect} {kind : Kind}
    (h : s.perform pid effect = some t) (present : s.present version arch kind = true)
    (kept : ∀ path, effect = .unlink path ∨ effect = .gut path → path ≠ kind.target version arch) :
    t.present version arch kind = true := by
  obtain ⟨file, whole⟩ := present_iff.mp present
  obtain ⟨⟨-, complete⟩, base⟩ := perform_cases h
  refine present_iff.mpr ⟨?_, ?_⟩
  · rcases base with ⟨-, same⟩ | ⟨e, own, step⟩
    · rw [same]
      exact file
    · refine CachePins.files_kept step file ?_ ?_
      · cases effect <;> cases own <;> nofun
      · rintro rfl
        cases effect with
        | unlink path =>
            cases own
            exact kept _ (.inl rfl) rfl
        | _ => cases own
  · rw [complete]
    cases effect with
    | stay | record | release => exact whole
    | land path => exact List.mem_cons_of_mem _ whole
    | unlink path => exact List.mem_filter.mpr ⟨whole, decide_eq_true (kept path (.inl rfl)).symm⟩
    | gut path => exact List.mem_filter.mpr ⟨whole, decide_eq_true (kept path (.inr rfl)).symm⟩

end Steps

end Quickchr.CachedInputs
