import Mathlib.Data.Fintype.EquivFin
import Quickchr.SocketMembers
import Quickchr.NetworkResolution

/-!
# Copies of the registry

Each process keeps the entries it has read or saved. An operation reads the file again, under the
lock of the entry; whoever only looks takes the copy that is there. A start looks, before it
downloads anything, whether its links have room, and joins them much later.
-/
namespace Quickchr.RegistryCache

open SocketRegistry

structure State where
  registry : String → File
  /-- `_cache` of each process. -/
  cache : ℕ → String → Option SocketEntry

inductive Event
  | run (process : ℕ) (name : String) (r : Request)
  /-- `getNamedSocket`, or `listNamedSockets` at this name. -/
  | look (process : ℕ) (name : String)

def State.remember (s : State) (process : ℕ) (name : String) (copy : Option SocketEntry) : State :=
  { s with
    cache := Function.update s.cache process (Function.update (s.cache process) name copy) }

def getNamedSocket (s : State) (process : ℕ) (name : String) : Option SocketEntry :=
  (s.cache process name).or (reloadEntry (s.registry name))

def next (host : Host) (s : State) : Event → Option State
  | .run process name r =>
      if isPathSafeName host name then
        -- The entry is read again, and what is saved or removed is so in the copy as well.
        let file := (r.run host name (s.registry name)).2
        some ({ s with registry := Function.update s.registry name file }.remember process name
          (reloadEntry file))
      else some s
  | .look process name => some (s.remember process name (getNamedSocket s process name))

/-- Any number of processes, on one registry. -/
def system (host : Host) : Transition.System State Event where
  Initial s := s = ⟨fun _ => none, fun _ _ => none⟩
  next := next host

structure StartRequest where
  name : Option String
  /-- The name it gets otherwise. -/
  generated : String
  networks : List NetworkSpecifier

def StartRequest.machineName (request : StartRequest) : String :=
  request.name.getD request.generated

/-- An empty name counts as none. -/
def StartRequest.given (request : StartRequest) : Option String :=
  request.name.filter fun name => decide (name ≠ "")

def StartRequest.sockets (request : StartRequest) : List String :=
  request.networks.filterMap fun
    | .socket name => some name
    | _ => none

def noRoom (name : String) (entry : SocketEntry) (endpoints : List (Option String)) :
    QuickCHRError :=
  let held := Text.join " and " (endpoints.filterMap id)
  { code := .NETWORK_UNAVAILABLE
    message := s!"Named socket \"{name}\" is a {entry.mode.text} link and carries 2 machines; " ++
      s!"{held} already hold both ends. " ++
      "Stop one of them, or create an N-way segment with 'quickchr networks sockets create <name> --mode mcast'." }

/-- One turn of the loop over the named sockets of the request. -/
def assertRoom (given : Option String) (name : String) (found : Option SocketEntry) :
    Except QuickCHRError Unit :=
  match found with
  | none => .ok ()
  | some entry =>
      match entry.endpoints with
      | none => .ok ()
      | some endpoints =>
          if (given.any fun machine => decide (some machine ∈ endpoints)) ∨ none ∈ endpoints then .ok ()
          else .error (noRoom name entry endpoints)

def assertNamedSocketsHaveRoom (s : State) (process : ℕ) (request : StartRequest) :
    Except QuickCHRError Unit :=
  request.sockets.forM fun name => assertRoom request.given name (getNamedSocket s process name)

/-- The join of a link, on this registry, is refused for want of an end. -/
def JoinRefused (host : Host) (s : State) (machineName : String) (autoCreated : Option Bool)
    (used : List ℕ) (now : Timestamp) (name : String) : Prop :=
  ∃ error, (joinNamedSocket host name machineName autoCreated used now (s.registry name)).1 =
    .error error ∧ error.code = .NETWORK_UNAVAILABLE

/-- Both ends are held, and not by this machine. -/
def NoRoom (entry : SocketEntry) (machine : Option String) : Prop :=
  ∃ endpoints, entry.endpoints = some endpoints ∧ none ∉ endpoints ∧
    ∀ m, machine = some m → some m ∉ endpoints

theorem assertRoom_error {given : Option String} {name : String} {found : Option SocketEntry} :
    (∃ error, assertRoom given name found = .error error) ↔
      ∃ entry, found = some entry ∧ NoRoom entry given := by
  unfold assertRoom
  constructor
  · rintro ⟨error, thrown⟩
    split at thrown
    · cases thrown
    · rename_i entry
      split at thrown
      · cases thrown
      · rename_i endpoints ends
        split at thrown
        · cases thrown
        · rename_i room
          rw [not_or, Option.any_eq_true] at room
          refine ⟨entry, rfl, endpoints, ends, room.2, fun m is holds => room.1 ⟨m, is, ?_⟩⟩
          exact decide_eq_true holds
  · rintro ⟨entry, rfl, endpoints, ends, held, other⟩
    have room : ¬ ((given.any fun machine => decide (some machine ∈ endpoints)) = true ∨
        none ∈ endpoints) := by
      rw [not_or, Option.any_eq_true]
      exact ⟨fun ⟨m, is, holds⟩ => other m is (of_decide_eq_true holds), held⟩
    simp only [ends, if_neg room]
    exact ⟨_, rfl⟩

theorem forM_error {α : Type} {f : α → Except QuickCHRError Unit} {as : List α} :
    (∃ error, as.forM f = .error error) ↔ ∃ a ∈ as, ∃ error, f a = .error error := by
  induction as with
  | nil => simp [List.forM, pure, Except.pure]
  | cons a as ih =>
      rw [List.exists_mem_cons_iff, ← ih]
      change (∃ error, (f a >>= fun _ => as.forM f) = .error error) ↔ _
      cases turn : f a with
      | error error => simp [bind, Except.bind]
      | ok => simp [bind, Except.bind]

theorem assertNamedSocketsHaveRoom_error {s : State} {process : ℕ} {request : StartRequest} :
    (∃ error, assertNamedSocketsHaveRoom s process request = .error error) ↔
      ∃ name ∈ request.sockets, ∃ entry, getNamedSocket s process name = some entry ∧
        NoRoom entry request.given := by
  rw [assertNamedSocketsHaveRoom, forM_error]
  exact exists_congr fun name => and_congr_right fun _ => assertRoom_error

section

variable {host : Host} {s : State} {name machineName : String} {entry : SocketEntry}

theorem joinRefused_iff (stored : Stored host name (s.registry name))
    (found : reloadEntry (s.registry name) = some entry) {autoCreated : Option Bool}
    {used : List ℕ} {now : Timestamp} :
    JoinRefused host s machineName autoCreated used now name ↔ NoRoom entry (some machineName) := by
  have safe : isPathSafeName host name = true := by
    rcases stored with absent | ⟨safe, -⟩
    · rw [absent] at found; cases found
    · exact safe
  have join : (joinNamedSocket host name machineName autoCreated used now (s.registry name)).1 =
      (claimEndpoint entry machineName (s.registry name)).1 := by
    rw [joinNamedSocket, withEntryLock, assertPathSafeName, if_pos safe, found]
  rw [JoinRefused, join]
  unfold claimEndpoint
  constructor
  · rintro ⟨error, thrown, -⟩
    split at thrown
    · cases thrown
    · rename_i endpoints ends
      split at thrown
      · rename_i full
        obtain ⟨other, held⟩ := Slots.claim_eq_none.mp full
        exact ⟨endpoints, ends, held, fun m is => Option.some.inj is ▸ other⟩
      · cases thrown
  · rintro ⟨endpoints, ends, held, other⟩
    have full : Slots.claim endpoints machineName = none :=
      Slots.claim_eq_none.mpr ⟨other machineName rfl, held⟩
    simp only [ends, full]
    exact ⟨_, rfl, rfl⟩

end

def SameRoom (copy entry : SocketEntry) : Prop :=
  ∀ machine, machine ≠ some "" → (NoRoom copy machine ↔ NoRoom entry machine)

/-- Every copy of a link that exists tells the room that the link has. -/
def Current (s : State) : Prop :=
  ∀ process name copy entry, s.cache process name = some copy →
    reloadEntry (s.registry name) = some entry → SameRoom copy entry

/-- A request without a name, some of whose links are full, while the name that will be given to it
holds an end of each of these. -/
def Overlooked (s : State) (request : StartRequest) : Prop :=
  request.given = none ∧
    (∃ name ∈ request.sockets, ∃ entry, reloadEntry (s.registry name) = some entry ∧
      NoRoom entry none) ∧
    ∀ name ∈ request.sockets, ∀ entry endpoints, reloadEntry (s.registry name) = some entry →
      entry.endpoints = some endpoints → none ∉ endpoints → some request.machineName ∈ endpoints

/-- The check refuses what the join will refuse. -/
def Agrees (host : Host) (s : State) (process : ℕ) (request : StartRequest) : Prop :=
  ∀ autoCreated used now,
    (∃ error, assertNamedSocketsHaveRoom s process request = .error error) ↔
      ∃ name ∈ request.sockets,
        JoinRefused host s request.machineName autoCreated used now name

def Existing (s : State) (request : StartRequest) : Prop :=
  ∀ name ∈ request.sockets, (s.registry name).isSome

theorem exists_unused (names : List (Option String)) : ∃ m, m ≠ "" ∧ some m ∉ names := by
  have injective : Function.Injective fun n => String.ofList (List.replicate n 'a') := by
    intro n k same
    have lengths := congrArg (fun m : String => m.toList.length) same
    simpa only [String.toList_ofList, List.length_replicate] using lengths
  have infinite := Infinite.of_injective _ injective
  obtain ⟨m, unused⟩ := Infinite.exists_notMem_finset (insert "" (names.filterMap id).toFinset)
  rw [Finset.mem_insert, not_or, List.mem_toFinset, List.mem_filterMap] at unused
  exact ⟨m, unused.1, fun held => unused.2 ⟨some m, held, rfl⟩⟩

section

variable {host : Host} {s : State} {process : ℕ} {request : StartRequest} {name : String}
  {entry copy : SocketEntry}

theorem StartRequest.given_ne : request.given ≠ some "" := by
  intro is
  obtain ⟨-, named⟩ := Option.filter_eq_some_iff.mp is
  exact of_decide_eq_true named rfl

theorem StartRequest.machineName_of_given {m : String} (h : request.given = some m) :
    request.machineName = m := by
  obtain ⟨is, -⟩ := Option.filter_eq_some_iff.mp h
  rw [machineName, is, Option.getD_some]

theorem NoRoom.forget {machine : Option String} (h : NoRoom entry machine) : NoRoom entry none := by
  obtain ⟨endpoints, ends, held, -⟩ := h
  exact ⟨endpoints, ends, held, fun m is => by cases is⟩

theorem Current.room (current : Current s) (found : reloadEntry (s.registry name) = some entry)
    {machine : Option String} (named : machine ≠ some "") :
    (∃ copy, getNamedSocket s process name = some copy ∧ NoRoom copy machine) ↔
      NoRoom entry machine := by
  unfold getNamedSocket
  cases cached : s.cache process name with
  | none => simp only [found, Option.none_or, Option.some.injEq, exists_eq_left']
  | some copy =>
      simp only [Option.some_or, Option.some.injEq, exists_eq_left']
      exact current process name copy entry cached found machine named

/-- With current copies a start is judged right, unless it is overlooked. -/
theorem Current.agrees (current : Current s) (stored : ∀ name, Stored host name (s.registry name))
    (existing : Existing s request) : Agrees host s process request ↔ ¬ Overlooked s request := by
  have found : ∀ name ∈ request.sockets, ∃ entry, reloadEntry (s.registry name) = some entry := by
    intro name member
    obtain ⟨raw, is⟩ := Option.isSome_iff_exists.mp (existing name member)
    exact ⟨normalizeEntry raw, by rw [is]; rfl⟩
  have checked : (∃ error, assertNamedSocketsHaveRoom s process request = .error error) ↔
      ∃ name ∈ request.sockets, ∃ entry, reloadEntry (s.registry name) = some entry ∧
        NoRoom entry request.given := by
    rw [assertNamedSocketsHaveRoom_error]
    refine exists_congr fun name => and_congr_right fun member => ?_
    obtain ⟨entry, is⟩ := found name member
    rw [current.room is StartRequest.given_ne, is]
    simp only [Option.some.injEq, exists_eq_left']
  have joins : ∀ autoCreated used now, (∃ name ∈ request.sockets,
        JoinRefused host s request.machineName autoCreated used now name) ↔
      ∃ name ∈ request.sockets, ∃ entry, reloadEntry (s.registry name) = some entry ∧
        NoRoom entry (some request.machineName) := by
    intro autoCreated used now
    refine exists_congr fun name => and_congr_right fun member => ?_
    obtain ⟨entry, is⟩ := found name member
    rw [joinRefused_iff (stored name) is, is]
    simp only [Option.some.injEq, exists_eq_left']
  unfold Agrees
  simp only [checked, joins, forall_const]
  cases given : request.given with
  | some m =>
      rw [StartRequest.machineName_of_given given]
      exact iff_of_true Iff.rfl fun overlooked => by cases given.symm.trans overlooked.1
  | none =>
      constructor
      · rintro agree ⟨-, full, holds⟩
        obtain ⟨name, member, entry, is, endpoints, ends, held, other⟩ := agree.mp full
        exact other request.machineName rfl (holds name member entry endpoints is ends held)
      · intro seen
        constructor
        · rintro ⟨name, member, entry, is, full⟩
          by_contra none_
          refine seen ⟨given, ⟨name, member, entry, is, full⟩, ?_⟩
          intro name' member' entry' endpoints is' ends held
          by_contra other
          refine none_ ⟨name', member', entry', is', endpoints, ends, held, fun m same => ?_⟩
          exact Option.some.inj same ▸ other
        · rintro ⟨name, member, entry, is, full⟩
          exact ⟨name, member, entry, is, full.forget⟩

theorem Current.of_agrees (stored : ∀ name, Stored host name (s.registry name))
    (agrees : ∀ process request, Existing s request → ¬ Overlooked s request →
      Agrees host s process request) : Current s := by
  intro process name copy entry cached found machine named
  have copied : getNamedSocket s process name = some copy := by
    rw [getNamedSocket, cached, Option.some_or]
  -- A start on this link alone, by a machine of this name.
  have judged : ∀ request : StartRequest, request.networks = [.socket name] →
      request.given = machine → ¬ Overlooked s request →
      (NoRoom copy machine ↔ NoRoom entry (some request.machineName)) := by
    intro request networks given seen
    have sockets : request.sockets = [name] := by rw [StartRequest.sockets, networks]; rfl
    have existing : Existing s request := by
      intro other member
      rw [sockets, List.mem_singleton] at member
      subst member
      cases file : s.registry other with
      | none => rw [file] at found; cases found
      | some raw => rfl
    have agree := agrees process request existing seen none [] 0
    rw [assertNamedSocketsHaveRoom_error, sockets] at agree
    simp only [List.mem_singleton, exists_eq_left, copied, Option.some.injEq, exists_eq_left', given,
      joinRefused_iff (stored name) found] at agree
    exact agree
  cases machine with
  | some m =>
      have filled : m ≠ "" := fun is => named (congrArg some is)
      refine judged ⟨some m, "", [.socket name]⟩ rfl ?_ ?_
      · exact Option.filter_eq_some_iff.mpr ⟨rfl, decide_eq_true filled⟩
      · rintro ⟨given, -⟩
        have is : StartRequest.given ⟨some m, "", [.socket name]⟩ = some m :=
          Option.filter_eq_some_iff.mpr ⟨rfl, decide_eq_true filled⟩
        cases given.symm.trans is
  | none =>
      obtain ⟨m, -, unused⟩ := exists_unused (entry.endpoints.getD [])
      have fresh : ∀ endpoints, entry.endpoints = some endpoints → some m ∉ endpoints := by
        intro endpoints ends
        rw [ends] at unused
        exact unused
      have judge := judged ⟨none, m, [.socket name]⟩ rfl rfl ?_
      · rw [judge]
        constructor
        · exact NoRoom.forget
        · rintro ⟨endpoints, ends, held, -⟩
          exact ⟨endpoints, ends, held, fun _ is => Option.some.inj is ▸ fresh endpoints ends⟩
      · rintro ⟨-, ⟨other, member, entry', is, endpoints, ends, held, -⟩, holds⟩
        rw [show StartRequest.sockets ⟨none, m, [.socket name]⟩ = [name] from rfl,
          List.mem_singleton] at member
        subst member
        cases found.symm.trans is
        exact fresh endpoints ends (holds other List.mem_cons_self entry endpoints is ends held)

end

/-- An operation leaves a link without other room than the copies tell that other processes have
of it. -/
def Kept (host : Host) (s : State) : Event → Prop
  | .run process name r =>
      ∀ other copy entry, other ≠ process → s.cache other name = some copy →
        reloadEntry (r.run host name (s.registry name)).2 = some entry → SameRoom copy entry
  | .look .. => True

section

variable {host : Host} {s t : State} {e : Event}

@[simp] theorem remember_registry (process : ℕ) (name : String) (copy : Option SocketEntry) :
    (s.remember process name copy).registry = s.registry := rfl

theorem remember_cache_self {process : ℕ} {name : String} {copy : Option SocketEntry} :
    (s.remember process name copy).cache process name = copy := by
  simp only [State.remember, Function.update_self]

theorem remember_cache_process {process other : ℕ} {name name' : String} {copy : Option SocketEntry}
    (h : other ≠ process) : (s.remember process name copy).cache other name' = s.cache other name' := by
  simp only [State.remember, Function.update_of_ne h]

theorem remember_cache_name {process : ℕ} {name name' : String} {copy : Option SocketEntry}
    (h : name' ≠ name) : (s.remember process name copy).cache process name' = s.cache process name' := by
  simp only [State.remember, Function.update_self, Function.update_of_ne h]

theorem SameRoom.refl (entry : SocketEntry) : SameRoom entry entry := by
  intro machine _
  exact Iff.rfl

theorem Current.next_iff (current : Current s) (step : next host s e = some t) :
    Current t ↔ Kept host s e := by
  cases e with
  | look process name =>
      cases step
      refine iff_of_true ?_ trivial
      intro other name' copy entry cached found
      by_cases its : other = process
      · subst its
        by_cases here : name' = name
        · subst here
          rw [remember_cache_self, getNamedSocket, Option.or_eq_some_iff] at cached
          rcases cached with cached | ⟨-, read⟩
          · exact current other name' copy entry cached found
          · cases read.symm.trans found
            exact SameRoom.refl _
        · rw [remember_cache_name here] at cached
          exact current other name' copy entry cached found
      · rw [remember_cache_process its] at cached
        exact current other name' copy entry cached found
  | run process name r =>
      change (if isPathSafeName host name then _ else _) = some t at step
      split at step
      · cases step
        constructor
        · intro after other copy entry its cached found
          refine after other name copy entry ?_ ?_
          · rw [remember_cache_process its]; exact cached
          · rw [remember_registry]; dsimp only; rw [Function.update_self]; exact found
        · intro kept other name' copy entry cached found
          rw [remember_registry] at found
          dsimp only at found
          by_cases here : name' = name
          · subst here
            rw [Function.update_self] at found
            by_cases its : other = process
            · subst its
              rw [remember_cache_self, found] at cached
              cases cached
              exact SameRoom.refl _
            · rw [remember_cache_process its] at cached
              exact kept other copy entry its cached found
          · rw [Function.update_of_ne here] at found
            by_cases its : other = process
            · subst its
              rw [remember_cache_name here] at cached
              exact current other name' copy entry cached found
            · rw [remember_cache_process its] at cached
              exact current other name' copy entry cached found
      · rename_i unsafe_
        cases step
        refine iff_of_true current ?_
        intro other copy entry _ cached found
        rw [run_refused (Bool.eq_false_iff.mpr unsafe_)] at found
        exact current other name copy entry cached found

/-- Whatever becomes of the copies, the registry is changed by the operation alone. -/
theorem run_registry {process : ℕ} {name : String} {r : Request}
    (step : next host s (.run process name r) = some t) :
    t.registry = Function.update s.registry name (r.run host name (s.registry name)).2 := by
  change (if isPathSafeName host name then _ else _) = some t at step
  split at step
  · cases step
    rfl
  · rename_i unsafe_
    cases step
    rw [run_refused (Bool.eq_false_iff.mpr unsafe_), Function.update_eq_self]

theorem stored_of_reachable (h : (system host).Reachable s) (name : String) :
    Stored host name (s.registry name) := by
  refine h.invariant (I := fun s => ∀ name, Stored host name (s.registry name)) ?_ ?_ name
  · rintro _ rfl name
    exact .inl rfl
  · intro s e t _ stored _ step name
    cases e with
    | look => cases step; exact stored name
    | run process name' r =>
        rw [run_registry step]
        by_cases here : name = name'
        · subst here
          rw [Function.update_self]
          exact (stored name).run r
        · rw [Function.update_of_ne here]
          exact stored name

theorem Current.of_run (h : (system host).ReachableUnder (Kept host) s) : Current s := by
  refine h.invariant ?_ ?_
  · rintro _ rfl process name copy entry cached
    cases cached
  · intro s e t _ current kept step
    exact (current.next_iff step).mpr kept

end

/-- Every start on existing links is judged right, unless it is overlooked. -/
def Judged (host : Host) (s : State) : Prop :=
  ∀ process request, Existing s request → ¬ Overlooked s request → Agrees host s process request

theorem judged_iff_current {host : Host} {s : State} (h : (system host).Reachable s) :
    Judged host s ↔ Current s :=
  ⟨Current.of_agrees (stored_of_reachable h),
    fun current _ _ existing => (current.agrees (stored_of_reachable h) existing).mpr⟩

/-- The early check and the joins that follow it. As long as no operation of a process leaves a
link with other room than the copies of other processes tell, every start with named sockets on
existing links is refused by the check if and only if a join of one of them would be, except for an
overlooked one; the first operation that does so ends this; and an overlooked start is judged
wrong. -/
theorem room_check_agrees_iff {host : Host} {s : State} :
    ((system host).ReachableUnder (Kept host) s → Judged host s) ∧
    ((system host).Reachable s → Judged host s →
      (∀ e t, (system host).next s e = some t → (Judged host t ↔ Kept host s e)) ∧
      ∀ process request, Existing s request →
        (Agrees host s process request ↔ ¬ Overlooked s request)) := by
  constructor
  · intro h
    have reached : (system host).Reachable s := h.mono fun _ _ _ _ => trivial
    exact (judged_iff_current reached).mpr (.of_run h)
  · intro h judged
    have current := (judged_iff_current h).mp judged
    refine ⟨fun e t step => ?_, fun process request existing => ?_⟩
    · rw [judged_iff_current (h.next step)]
      exact current.next_iff step
    · exact current.agrees (stored_of_reachable h) existing

def posix : Host := ⟨false, "/data/networks"⟩

def third : StartRequest := { name := some "r3", generated := "", networks := [.socket "lan"] }

theorem third_existing {s : State} (file : (s.registry "lan").isSome) : Existing s third := by
  intro name member
  rw [show third.sockets = ["lan"] from rfl, List.mem_singleton] at member
  subst member
  exact file

/-- A process that has seen the link full refuses the third router. -/
theorem third_refused {s : State} (copy : s.cache 0 "lan" = some lan) :
    ∃ error, assertNamedSocketsHaveRoom s 0 third = .error error := by
  rw [assertNamedSocketsHaveRoom_error]
  refine ⟨"lan", List.mem_cons_self, lan, ?_, [some "r1", some "r2"], rfl, by decide, ?_⟩
  · rw [getNamedSocket, copy, Option.some_or]
  · intro m given
    have is : third.given = some "r3" := by decide +kernel
    cases is.symm.trans given
    decide

/-- A process that has filled a link, and a start of a third router by this process. -/
theorem room_check_agrees_iff_filled :
    ∃ s, (system posix).Reachable s ∧ Agrees posix s 0 third ∧
      ∃ error, assertNamedSocketsHaveRoom s 0 third = .error error := by
  have under : ∃ s, (system posix).ReachableUnder (Kept posix) s ∧
      s.registry "lan" = saveEntry lan ∧ s.cache 0 "lan" = some lan := by
    have kept : ∀ s r, (∀ other, other ≠ 0 → s.cache other "lan" = none) →
        Kept posix s (.run 0 "lan" r) := by
      intro s r alone other copy entry its cached
      rw [alone other its] at cached
      cases cached
    refine ⟨_, .step (.step (.initial rfl) (kept _ (.joinNamedSocket "r1" (some true) [] 0) ?_) rfl)
      (kept _ (.joinNamedSocket "r2" (some true) [] 1) ?_) rfl, by decide +kernel, by decide +kernel⟩
    · intro _ _; rfl
    · intro other its
      exact remember_cache_process its
  obtain ⟨s, run, file, copy⟩ := under
  have reached : (system posix).Reachable s := run.mono fun _ _ _ _ => trivial
  have named : ¬ Overlooked s third := by
    rintro ⟨given, -⟩
    revert given
    decide +kernel
  have judged := room_check_agrees_iff.1 run
  have agrees := ((room_check_agrees_iff.2 reached judged).2 0 third
    (third_existing (by rw [file]; rfl))).mpr named
  exact ⟨s, reached, agrees, third_refused copy⟩

/-- A link that one process has filled, after another process has taken a router off it: a third
router has room, and is refused. -/
theorem room_check_agrees_fails :
    ¬ ∀ host s process request, (system host).Reachable s → Existing s request →
      Agrees host s process request := by
  intro h
  have run : ∃ s, (system posix).Reachable s ∧ s.registry "lan" = saveEntry (without lan "r2") ∧
      s.cache 0 "lan" = some lan := by
    refine ⟨_, @Transition.System.reachable_of_replay _ _ (system posix) _ _
      [.run 0 "lan" (.joinNamedSocket "r1" (some true) [] 0),
        .run 0 "lan" (.joinNamedSocket "r2" (some true) [] 1),
        .run 1 "lan" (.removeSocketMember "r2")] rfl rfl, ?_, ?_⟩
    · decide +kernel
    · decide +kernel
  obtain ⟨s, reached, file, copy⟩ := run
  have agree := h posix s 0 third reached (third_existing (by rw [file]; rfl)) none [] 0
  obtain ⟨name, member, refused⟩ := agree.mp (third_refused copy)
  rw [show third.sockets = ["lan"] from rfl, List.mem_singleton] at member
  subst member
  have found : reloadEntry (s.registry "lan") = some (without lan "r2") := by
    rw [file]
    decide
  obtain ⟨endpoints, ends, held, -⟩ := (joinRefused_iff (stored_of_reachable reached "lan") found).mp
    refused
  have free : (without lan "r2").endpoints = some [some "r1", none] := by decide
  cases free.symm.trans ends
  exact held (List.mem_cons_of_mem _ List.mem_cons_self)

end Quickchr.RegistryCache
