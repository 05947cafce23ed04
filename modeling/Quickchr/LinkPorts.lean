import Mathlib.Tactic.Common
import Quickchr.RegistryCache

/-!
# Ports of the links

A link that needs a port and is given none gets the next one over all ports that its process has
in its copies or finds in the directory. The scan and the write that follows it are made under the
lock of the registry. An operation that allocates nothing does not take that lock.
-/
namespace Quickchr

open SocketRegistry

namespace SocketRegistry

/-- The options with which the operation makes the entry, if there is none. -/
def Request.options : Request → Option SocketOptions
  | .createNamedSocket opts _ _ => some opts
  | .joinNamedSocket _ autoCreated _ _ => some { autoCreated := some (autoCreated.getD false) }
  | _ => none

def Request.port (r : Request) : Option ℕ := r.options.bind SocketOptions.port

def Request.withUsed (used : List ℕ) : Request → Request
  | .createNamedSocket opts _ now => .createNamedSocket opts used now
  | .joinNamedSocket machineName autoCreated _ now => .joinNamedSocket machineName autoCreated used now
  | r => r

/-- The operation gets as far as `allocatePort`. -/
def Request.allocates (host : Host) (name : String) (file : File) (r : Request) : Bool :=
  isPathSafeName host name && file.isNone &&
    match r.options with
    | none => false
    | some opts =>
        (createEntry host name opts [] 0).toOption.isSome && opts.port.isNone &&
          decide (opts.mode.getD (defaultSocketMode host) ≠ .dgram)

def filePort (file : File) : Option ℕ := file.bind RawSocketEntry.port

theorem filePort_save (entry : SocketEntry) : filePort (saveEntry entry) = entry.port := rfl

theorem filePort_eq_some {file : File} {port : ℕ} :
    filePort file = some port ↔ ∃ entry, reloadEntry file = some entry ∧ entry.port = some port := by
  cases file with
  | none => simp [filePort, reloadEntry]
  | some raw => simp [filePort, reloadEntry, normalizeEntry]

theorem allocatePort_above {used : List ℕ} {port : ℕ} (h : port ∈ used) : port < allocatePort used := by
  rw [allocatePort, if_neg (List.ne_nil_of_mem h)]
  refine Nat.lt_succ_of_le ?_
  induction used with
  | nil => cases h
  | cons first rest ih =>
      rw [List.foldr_cons, le_max_iff]
      rcases List.mem_cons.mp h with rfl | h
      · exact .inl le_rfl
      · exact .inr (ih h)

theorem allocatePort_pos (used : List ℕ) : 1 ≤ allocatePort used := by
  unfold allocatePort DEFAULT_START_PORT
  split <;> omega

theorem allocatePort_le_iff {used : List ℕ} :
    allocatePort used ≤ 65535 ↔ ∀ port ∈ used, port < 65535 := by
  constructor
  · intro bound port member
    exact Nat.lt_of_lt_of_le (allocatePort_above member) bound
  · intro below
    unfold allocatePort DEFAULT_START_PORT
    split
    · decide
    · clear * - below
      rw [Nat.add_one_le_iff]
      induction used with
      | nil => decide
      | cons first rest ih =>
          rw [List.foldr_cons, max_lt_iff]
          exact ⟨below first List.mem_cons_self,
            ih fun port member => below port (List.mem_cons_of_mem first member)⟩

theorem claimEndpoint_port {entry : SocketEntry} {machineName : String} {file : File}
    (is : filePort file = entry.port) :
    filePort (claimEndpoint entry machineName file).2 = entry.port := by
  have save : ∀ claimed : SocketEntry, claimed.port = entry.port →
      filePort (if claimed = entry then file else saveEntry claimed) = entry.port := by
    intro claimed same
    split
    · exact is
    · exact same
  unfold claimEndpoint
  split
  · exact save _ rfl
  · split
    · exact is
    · exact save _ rfl

theorem createEntry_iff {host : Host} {name : String} {opts : SocketOptions} {used : List ℕ}
    {now : Timestamp} :
    (∃ entry, createEntry host name opts used now = .ok entry) ↔
      (createEntry host name opts [] 0).toOption.isSome = true := by
  unfold createEntry
  cases assertValidResourceName name "named socket" with
  | error e => simp [bind, Except.bind, Except.toOption]
  | ok valid =>
      simp only [bind, Except.bind]
      split
      · simp [Except.toOption]
      split
      · simp [Except.toOption]
      · cases (if opts.mode.getD (defaultSocketMode host) = .dgram then
          assertEndpointPathsFit host name else .ok ()) <;> simp [Except.map, Except.toOption]

/-- The port of a new entry: none, the one picked, or an allocated one. -/
theorem newEntry_port {name : String} {mode : SocketMode} {opts : SocketOptions} {used : List ℕ}
    {now : Timestamp} {port : ℕ} (h : (newEntry name mode opts used now).port = some port) :
    opts.port = some port ∨
      (opts.port = none ∧ mode ≠ .dgram ∧ port = allocatePort used) := by
  change (if mode = .dgram then none else opts.port.or (some (allocatePort used))) = some port at h
  split at h
  · cases h
  · rename_i needs
    cases picked : opts.port with
    | some x => rw [picked, Option.some_or] at h; exact .inl h
    | none =>
        rw [picked, Option.none_or] at h
        cases h
        exact .inr ⟨rfl, needs, rfl⟩

section

variable {host : Host} {name : String} {file : File} {r : Request} {port : ℕ}

/-- What makes an entry with a port that was not picked has allocated it. -/
theorem allocates_of_made {opts : SocketOptions} {used : List ℕ} {now : Timestamp}
    {entry : SocketEntry} (safe : isPathSafeName host name = true) (options : r.options = some opts)
    (made : createEntry host name opts used now = .ok entry) (h : entry.port = some port) :
    r.port = some port ∨ r.allocates host name none = true := by
  cases createEntry_ok made
  rcases newEntry_port h with picked | ⟨none_, needs, -⟩
  · left
    rw [Request.port, options, Option.bind_some, picked]
  · right
    have valid := createEntry_iff.mp ⟨_, made⟩
    simp only [Request.allocates, safe, options, valid, none_, Option.isNone_none, Bool.and_true,
      Bool.true_and, decide_eq_true_eq]
    exact needs

theorem locked_port {α : Type} {fn : Except QuickCHRError α × File}
    (h : filePort (withEntryLock host name file fn).2 = some port) :
    filePort file = some port ∨ isPathSafeName host name = true ∧ filePort fn.2 = some port := by
  rcases withEntryLock_cases host name file fn with ⟨safe, is⟩ | ⟨-, error, is⟩
  · rw [is] at h
    exact .inr ⟨safe, h⟩
  · rw [is] at h
    exact .inl h

theorem filePort_reload {entry : SocketEntry} (is : reloadEntry file = some entry) :
    filePort file = entry.port := by
  cases file with
  | none => cases is
  | some raw => cases is; rfl

theorem reload_eq_none : reloadEntry file = none ↔ file = none := Option.map_eq_none_iff

/-- Without an allocation the port of an entry that is made was picked. -/
theorem made_port {opts : SocketOptions} {used : List ℕ} {now : Timestamp} {entry : SocketEntry}
    (without : r.allocates host name file = false) (safe : isPathSafeName host name = true)
    (options : r.options = some opts) (absent : reloadEntry file = none)
    (made : createEntry host name opts used now = .ok entry) (h : entry.port = some port) :
    r.port = some port := by
  rw [reload_eq_none.mp absent] at without
  rcases allocates_of_made safe options made h with picked | allocates
  · exact picked
  · rw [allocates] at without
    cases without

/-- An operation that allocates nothing leaves an entry its port, or makes it with the one picked. -/
theorem run_port (h : filePort (r.run host name file).2 = some port)
    (without : r.allocates host name file = false) :
    filePort file = some port ∨ r.port = some port := by
  cases r with
  | createNamedSocket opts used now =>
      change filePort (createNamedSocket host name opts used now file).2 = some port at h
      rcases locked_port h with old | ⟨safe, h⟩
      · exact .inl old
      split at h
      · exact .inl h
      · rename_i absent
        split at h
        · exact .inl h
        · rename_i entry made
          exact .inr (made_port without safe rfl (Option.not_isSome_iff_eq_none.mp absent) made h)
  | joinNamedSocket machineName autoCreated used now =>
      change filePort (joinNamedSocket host name machineName autoCreated used now file).2 = some port at h
      rcases locked_port h with old | ⟨safe, h⟩
      · exact .inl old
      split at h
      · rename_i entry is
        rw [claimEndpoint_port (filePort_reload is)] at h
        exact .inl ((filePort_reload is).trans h)
      · rename_i absent
        split at h
        · exact .inl h
        · rename_i entry made
          rw [claimEndpoint_port (filePort_save entry)] at h
          exact .inr (made_port without safe rfl absent made h)
  | addSocketMember machineName =>
      rcases locked_port h with old | ⟨-, h⟩
      · exact .inl old
      split at h
      · exact .inl h
      · rename_i entry is
        dsimp only at h
        rw [claimEndpoint_port (filePort_reload is)] at h
        exact .inl ((filePort_reload is).trans h)
  | removeSocketMember machineName =>
      rcases locked_port h with old | ⟨-, h⟩
      · exact .inl old
      split at h
      · exact .inl h
      · rename_i entry is
        dsimp only at h
        split at h
        · cases h
        · exact .inl ((filePort_reload is).trans h)
  | removeNamedSocket wasCached =>
      change filePort (removeNamedSocket host name wasCached file).2 = some port at h
      rcases locked_port h with old | ⟨-, h⟩
      · exact .inl old
      split at h
      · exact .inl h
      · cases h

/-- An entry that is made with an allocated port has the next one over those in use. -/
theorem allocates_port (h : r.allocates host name file = true) (used : List ℕ) :
    filePort ((r.withUsed used).run host name file).2 = some (allocatePort used) := by
  unfold Request.allocates at h
  rw [Bool.and_eq_true, Bool.and_eq_true, Option.isNone_iff_eq_none] at h
  obtain ⟨⟨safe, rfl⟩, h⟩ := h
  have made : ∀ {opts : SocketOptions} (now : Timestamp), ((createEntry host name opts [] 0).toOption.isSome &&
      opts.port.isNone && decide (opts.mode.getD (defaultSocketMode host) ≠ .dgram)) = true →
      ∃ entry, createEntry host name opts used now = .ok entry ∧
        entry.port = some (allocatePort used) := by
    intro opts now h
    rw [Bool.and_eq_true, Bool.and_eq_true, Option.isNone_iff_eq_none, decide_eq_true_eq] at h
    obtain ⟨⟨valid, none_⟩, needs⟩ := h
    obtain ⟨entry, made⟩ : ∃ entry, createEntry host name opts used now = .ok entry :=
      createEntry_iff.mpr valid
    refine ⟨entry, made, ?_⟩
    cases createEntry_ok made
    change (if _ then _ else _) = _
    rw [if_neg needs, none_, Option.none_or]
  have locked : ∀ {α : Type} (fn : Except QuickCHRError α × File),
      withEntryLock host name none fn = fn := by
    intro α fn
    rw [withEntryLock, assertPathSafeName, if_pos safe]
  cases r with
  | createNamedSocket opts _ now =>
      obtain ⟨entry, made, port⟩ := made now h
      change filePort (createNamedSocket host name opts used now none).2 = _
      rw [createNamedSocket, locked]
      simp only [reloadEntry, Option.map_none, Option.isSome_none, Bool.false_eq_true, if_false, made]
      exact port
  | joinNamedSocket machineName autoCreated _ now =>
      obtain ⟨entry, made, port⟩ := made now h
      change filePort (joinNamedSocket host name machineName autoCreated used now none).2 = _
      rw [joinNamedSocket, locked]
      simp only [reloadEntry, Option.map_none, made]
      rw [claimEndpoint_port (filePort_save entry)]
      exact port
  | addSocketMember | removeSocketMember | removeNamedSocket => cases h

end

end SocketRegistry

namespace LinkPorts

/-- An automatic port on its way. Its process holds the lock of the entry and the lock of the
registry. -/
structure Allocation where
  process : ℕ
  name : String
  request : Request
  /-- What `portsInUse` has found so far. -/
  ports : List ℕ
  /-- The files of the listing that are still to be read. -/
  todo : List String
  /-- The ports picked by callers in the meantime. -/
  given : List ℕ

structure State extends RegistryCache.State where
  /-- Every name that was used with the registry. -/
  names : List String
  allocation : Option Allocation

inductive Event
  | run (process : ℕ) (name : String) (r : Request)
  | look (process : ℕ) (name : String)
  /-- The entry is to be made with an automatic port; both locks are taken, the copies are read and
  the directory is listed. -/
  | lock (process : ℕ) (name : String) (r : Request)
  /-- The next file of the listing. -/
  | read
  | write

def cachedPorts (s : State) (process : ℕ) : List ℕ :=
  s.names.filterMap fun name => (s.cache process name).bind SocketEntry.port

/-- `readdirSync`. -/
def listing (s : State) : List String := s.names.filter fun name => (s.registry name).isSome

/-- The process is in the middle of an allocation, or the entry is locked by one. -/
def State.busy (s : State) (process : ℕ) (name : String) : Bool :=
  s.allocation.any fun a => decide (a.process = process ∨ a.name = name)

def next (host : Host) (s : State) : Event → Option State
  | .run process name r =>
      if s.busy process name ∨ r.allocates host name (s.registry name) then none
      else
        (RegistryCache.next host s.toState (.run process name r)).map fun base =>
          { toState := base
            names := name :: s.names
            allocation := s.allocation.map fun a => { a with given := a.given ++ r.port.toList } }
  | .look process name =>
      if s.allocation.any fun a => decide (a.process = process) then none
      else
        (RegistryCache.next host s.toState (.look process name)).map fun base =>
          { s with toState := base, names := name :: s.names }
  | .lock process name r =>
      if s.allocation.isNone ∧ r.allocates host name (s.registry name) then
        let s := { s with toState := s.remember process name none }
        some { s with
          names := name :: s.names
          allocation := some
            { process := process, name := name, request := r, ports := cachedPorts s process
              todo := listing s, given := [] } }
      else none
  | .read =>
      match s.allocation with
      | some a =>
          match a.todo with
          | name :: rest =>
              some { s with
                allocation := some
                  { a with ports := a.ports ++ (filePort (s.registry name)).toList, todo := rest } }
          | [] => none
      | none => none
  | .write =>
      match s.allocation with
      | some a =>
          if a.todo = [] then
            (RegistryCache.next host s.toState
              (.run a.process a.name (a.request.withUsed a.ports))).map fun base =>
                { s with toState := base, allocation := none }
          else none
      | none => none

def system (host : Host) : Transition.System State Event where
  Initial s := s = ⟨⟨fun _ => none, fun _ _ => none⟩, [], none⟩
  next := next host

/-- During an allocation every port in the directory is read, still to be read, or was picked in
the meantime. -/
structure Sweep (host : Host) (s : State) (a : Allocation) : Prop where
  named : a.name ∈ s.names
  allocates : a.request.allocates host a.name (s.registry a.name) = true
  found : ∀ name port, filePort (s.registry name) = some port →
    port ∈ a.ports ∨ name ∈ a.todo ∨ port ∈ a.given

structure Invariant (host : Host) (s : State) : Prop where
  listed : ∀ name, s.registry name ≠ none → name ∈ s.names
  sweep : ∀ a, s.allocation = some a → Sweep host s a

variable {host : Host} {s t : State}

theorem registry_ne_none {file : File} {port : ℕ} (h : filePort file = some port) : file ≠ none := by
  rintro rfl
  cases h

theorem Invariant.initial (start : (system host).Initial s) : Invariant host s := by
  cases start
  exact ⟨fun _ file => (file rfl).elim, fun a is => by cases is⟩

theorem Invariant.run {process : ℕ} {name : String} {r : Request} (h : Invariant host s)
    (step : next host s (.run process name r) = some t) : Invariant host t := by
  change (if _ then _ else _) = some t at step
  split at step
  · cases step
  rename_i free
  rw [not_or, Bool.not_eq_true] at free
  obtain ⟨base, moved, rfl⟩ := Option.map_eq_some_iff.mp step
  have registry := RegistryCache.run_registry moved
  refine ⟨fun name' file => ?_, fun a is => ?_⟩
  · dsimp only at file ⊢
    rw [registry] at file
    by_cases here : name' = name
    · exact here ▸ List.mem_cons_self
    · rw [Function.update_of_ne here] at file
      exact List.mem_cons_of_mem _ (h.listed name' file)
  · obtain ⟨a, allocation, rfl⟩ := Option.map_eq_some_iff.mp is
    have sweep := h.sweep a allocation
    have other : a.name ≠ name := by
      intro same
      have busy := free.1
      rw [State.busy, allocation, Option.any_some, decide_eq_false_iff_not] at busy
      exact busy (.inr same)
    refine ⟨List.mem_cons_of_mem _ sweep.named, ?_, fun name' port held => ?_⟩
    · dsimp only
      rw [registry, Function.update_of_ne other]
      exact sweep.allocates
    · dsimp only at held ⊢
      rw [registry] at held
      rw [List.mem_append]
      by_cases here : name' = name
      · subst here
        rw [Function.update_self] at held
        rcases run_port held (Bool.eq_false_iff.mpr free.2) with old | picked
        · exact (sweep.found name' port old).imp_right (Or.imp_right .inl)
        · exact .inr (.inr (.inr (Option.mem_toList.mpr picked)))
      · rw [Function.update_of_ne here] at held
        exact (sweep.found name' port held).imp_right (Or.imp_right .inl)

theorem Invariant.lock {process : ℕ} {name : String} {r : Request} (h : Invariant host s)
    (step : next host s (.lock process name r) = some t) : Invariant host t := by
  change (if _ then _ else _) = some t at step
  split at step
  · rename_i free
    cases step
    refine ⟨fun name' file => List.mem_cons_of_mem _ (h.listed name' file), fun a is => ?_⟩
    cases is
    refine ⟨List.mem_cons_self, free.2, fun name' port held => .inr (.inl ?_)⟩
    have there : s.registry name' ≠ none := registry_ne_none held
    exact List.mem_filter.mpr ⟨h.listed name' there, Option.isSome_iff_ne_none.mpr there⟩
  · cases step

theorem Invariant.read (h : Invariant host s) (step : next host s .read = some t) :
    Invariant host t := by
  cases allocation : s.allocation with
  | none => simp only [next, allocation, reduceCtorEq] at step
  | some a =>
      simp only [next, allocation] at step
      split at step
      · rename_i name rest todo
        cases step
        have sweep := h.sweep a allocation
        refine ⟨h.listed, fun a' is => ?_⟩
        cases is
        refine ⟨sweep.named, sweep.allocates, fun name' port held => ?_⟩
        dsimp only
        rw [List.mem_append]
        rcases sweep.found name' port held with read | ahead | picked
        · exact .inl (.inl read)
        · rw [todo] at ahead
          rcases List.mem_cons.mp ahead with rfl | ahead
          · exact .inl (.inr (Option.mem_toList.mpr held))
          · exact .inr (.inl ahead)
        · exact .inr (.inr picked)
      · cases step

/-- A write happens when all is read, and changes the registry at the new link alone. -/
theorem write_cases (step : next host s .write = some t) :
    ∃ a, s.allocation = some a ∧ a.todo = [] ∧ t.allocation = none ∧ t.names = s.names ∧
      t.registry = Function.update s.registry a.name
        ((a.request.withUsed a.ports).run host a.name (s.registry a.name)).2 := by
  cases allocation : s.allocation with
  | none => simp only [next, allocation, reduceCtorEq] at step
  | some a =>
      simp only [next, allocation] at step
      split at step
      · rename_i todo
        obtain ⟨base, moved, rfl⟩ := Option.map_eq_some_iff.mp step
        exact ⟨a, rfl, todo, rfl, rfl, RegistryCache.run_registry moved⟩
      · cases step

theorem Invariant.write (h : Invariant host s) (step : next host s .write = some t) :
    Invariant host t := by
  obtain ⟨a, allocation, -, done, names, registry⟩ := write_cases step
  refine ⟨fun name file => ?_, fun a' is => by rw [done] at is; cases is⟩
  rw [names]
  rw [registry] at file
  by_cases here : name = a.name
  · exact here ▸ (h.sweep a allocation).named
  · rw [Function.update_of_ne here] at file
    exact h.listed name file

theorem Invariant.look {process : ℕ} {name : String} (h : Invariant host s)
    (step : next host s (.look process name) = some t) : Invariant host t := by
  change (if _ then _ else _) = some t at step
  split at step
  · cases step
  · cases step
    refine ⟨fun name' file => List.mem_cons_of_mem _ (h.listed name' file), fun a is => ?_⟩
    have sweep := h.sweep a is
    exact ⟨List.mem_cons_of_mem _ sweep.named, sweep.allocates, sweep.found⟩

theorem Invariant.next {e : Event} (h : Invariant host s) (step : next host s e = some t) :
    Invariant host t := by
  cases e with
  | run => exact h.run step
  | look => exact h.look step
  | lock => exact h.lock step
  | read => exact h.read step
  | write => exact h.write step

theorem Invariant.of_reachable (h : (system host).Reachable s) : Invariant host s :=
  h.invariant (fun _ => .initial) fun _ _ _ _ invariant _ step => invariant.next step

def Holds (s : State) (name : String) (port : ℕ) : Prop :=
  ∃ entry, reloadEntry (s.registry name) = some entry ∧ entry.port = some port

/-- The port of a new link is a port, and no other link has it. -/
def Valid (s : State) (name : String) (port : ℕ) : Prop :=
  Holds s name port ∧ 1 ≤ port ∧ port ≤ 65535 ∧ ∀ other, other ≠ name → ¬ Holds s other port

/-- What the allocation has read is below the top of the range, and no caller has picked, since it
began to read, the port above all these for a link that is still there. -/
structure Undisturbed (s : State) (a : Allocation) : Prop where
  below : ∀ port ∈ a.ports, port < 65535
  apart : ∀ port ∈ a.given, port = allocatePort a.ports →
    ∀ other, other ≠ a.name → ¬ Holds s other port

/-- In every run, with any explicit ports and any other operations in between: the port that is
written for a link without an explicit one is in range and no other link of the registry has it, if
and only if the allocation was not disturbed. -/
theorem allocated_port_valid_iff (h : (system host).Reachable s) {a : Allocation}
    (allocation : s.allocation = some a) (step : (system host).next s .write = some t) :
    Holds t a.name (allocatePort a.ports) ∧
      (Valid t a.name (allocatePort a.ports) ↔ Undisturbed s a) := by
  have sweep := (Invariant.of_reachable h).sweep a allocation
  obtain ⟨a', allocation', todo, -, -, registry⟩ := write_cases step
  cases allocation.symm.trans allocation'
  have written : Holds t a.name (allocatePort a.ports) := by
    refine filePort_eq_some.mp ?_
    rw [registry, Function.update_self]
    exact allocates_port sweep.allocates a.ports
  have others : ∀ other, other ≠ a.name → ∀ port, Holds t other port ↔ Holds s other port := by
    intro other ne port
    rw [Holds, registry, Function.update_of_ne ne, Holds]
  refine ⟨written, fun valid => ⟨allocatePort_le_iff.mp valid.2.2.1, ?_⟩, fun free => ?_⟩
  · rintro port - rfl other ne held
    exact valid.2.2.2 other ne ((others other ne _).mpr held)
  · refine ⟨written, allocatePort_pos _, allocatePort_le_iff.mpr free.below, fun other ne held => ?_⟩
    have held := (others other ne _).mp held
    rcases sweep.found other _ (filePort_eq_some.mpr held) with read | ahead | picked
    · exact Nat.lt_irrefl _ (allocatePort_above read)
    · rw [todo] at ahead
      cases ahead
    · exact free.apart _ picked rfl other ne held

theorem exists_write {a : Allocation} (allocation : s.allocation = some a) (todo : a.todo = []) :
    ∃ t, (system host).next s .write = some t := by
  change ∃ t, next host s .write = some t
  simp only [next, allocation, todo, if_true, RegistryCache.next]
  split <;> exact ⟨_, rfl⟩

def segment (port : Option ℕ) : Request :=
  .createNamedSocket { mode := some .mcast, port := port } [] 0

/-- A second segment beside one with the first port: it gets the next. -/
theorem allocated_port_valid_iff_second :
    ∃ s t, (system RegistryCache.posix).Reachable s ∧
      (system RegistryCache.posix).next s .write = some t ∧ Valid t "lan" 4001 := by
  obtain ⟨s, reached, a, allocation, name, ports, todo, given⟩ := Transition.System.exists_reachable
    (S := system RegistryCache.posix) (s := ⟨⟨fun _ => none, fun _ _ => none⟩, [], none⟩)
    (P := fun s => ∃ a ∈ s.allocation, a.name = "lan" ∧ a.ports = [4000, 4000] ∧ a.todo = [] ∧ a.given = [])
    [.lock 0 "wan" (segment none), .write, .lock 0 "lan" (segment none), .read] rfl
    (by decide +kernel)
  obtain ⟨t, step⟩ : ∃ t, (system RegistryCache.posix).next s .write = some t :=
    exists_write allocation todo
  have valid := (allocated_port_valid_iff reached allocation step).2.mpr
    ⟨fun port member => by rw [ports] at member; revert port; decide,
      fun port member => by rw [given] at member; cases member⟩
  rw [name, ports] at valid
  exact ⟨s, t, reached, step, valid⟩

def InRange (_ : State) : Event → Prop
  | .run _ _ r => ∀ port ∈ r.port, 1 ≤ port ∧ port ≤ 65535
  | _ => True

instance (s : State) (e : Event) : Decidable (InRange s e) :=
  match e with
  | .run _ _ r => inferInstanceAs (Decidable (∀ port ∈ r.port, 1 ≤ port ∧ port ≤ 65535))
  | .look .. | .lock .. | .read | .write => .isTrue trivial

/-- Beside a segment with the last port the next one gets a number that is none. -/
theorem allocated_port_valid_fails :
    ¬ ∀ host s t a, (system host).ReachableUnder InRange s → s.allocation = some a →
      (system host).next s .write = some t → Valid t a.name (allocatePort a.ports) := by
  intro h
  obtain ⟨s, reached, a, allocation, ports, todo⟩ := Transition.System.exists_reachable
    (S := (system RegistryCache.posix).restrict InRange) (s := ⟨⟨fun _ => none, fun _ _ => none⟩, [], none⟩)
    (P := fun s => ∃ a ∈ s.allocation, a.ports = [65535, 65535] ∧ a.todo = [])
    [.run 0 "wan" (segment (some 65535)), .lock 0 "lan" (segment none), .read] rfl (by decide +kernel)
  obtain ⟨t, step⟩ : ∃ t, (system RegistryCache.posix).next s .write = some t :=
    exists_write allocation todo
  have valid := h RegistryCache.posix s t a reached.of_restrict allocation step
  rw [ports] at valid
  exact absurd valid.2.2.1 (by decide)

end LinkPorts
end Quickchr
