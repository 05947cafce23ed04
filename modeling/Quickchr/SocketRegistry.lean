import Quickchr.Names
import Quickchr.Lib.Slots
import Quickchr.Lib.Transition

/-!
# Named sockets

The entry of one named socket, `networks/<name>.json`, and the operations on it. Each reads the
file again, changes the entry and replaces the file, all under the lock of the entry, so they
come one after the other. The file is absent or holds what an operation has saved.
-/
namespace Quickchr

inductive SocketMode
  | mcast | listenConnect | dgram
  deriving DecidableEq

def SocketMode.text : SocketMode → String
  | .mcast => "mcast"
  | .listenConnect => "listen-connect"
  | .dgram => "dgram"

structure SocketEntry where
  name : String
  mode : SocketMode
  mcastGroup : Option String
  port : Option ℕ
  createdAt : Timestamp
  /-- Machines that currently reference this socket. -/
  members : List String
  /-- Slot occupancy for the two-member modes. -/
  endpoints : Option (List (Option String))
  autoCreated : Bool
  deriving DecidableEq

/-- What the file holds: older entries lack fields. -/
structure RawSocketEntry where
  name : String
  mode : SocketMode
  mcastGroup : Option String
  port : Option ℕ
  createdAt : Timestamp
  members : Option (List String)
  endpoints : Option (List (Option String))
  autoCreated : Option Bool
  deriving DecidableEq

namespace SocketRegistry

abbrev File := Option RawSocketEntry

def DEFAULT_START_PORT : ℕ := 4000

def DEFAULT_MCAST_GROUP : String := "230.0.0.1"

def SUN_PATH_MAX : ℕ := 104

def defaultSocketMode (host : Host) : SocketMode := if host.win32 then .listenConnect else .dgram

def normalizeEntry (raw : RawSocketEntry) : SocketEntry :=
  { name := raw.name
    mode := raw.mode
    mcastGroup := raw.mcastGroup
    port := raw.port
    createdAt := raw.createdAt
    members := raw.members.getD []
    endpoints := raw.endpoints.or (if raw.mode = .mcast then none else some [none, none])
    autoCreated := raw.autoCreated.getD false }

/-- `JSON.stringify`: a field without a value is left out. -/
def saveEntry (entry : SocketEntry) : File :=
  some { entry with members := some entry.members, autoCreated := some entry.autoCreated }

def reloadEntry (file : File) : Option SocketEntry := file.map normalizeEntry

/-- An operation under the entry lock: its result, and the file it leaves. -/
def withEntryLock {α : Type} (host : Host) (name : String) (file : File)
    (fn : Except QuickCHRError α × File) : Except QuickCHRError α × File :=
  match assertPathSafeName host name "named socket" with
  | .error e => (.error e, file)
  | .ok () => fn

structure SocketOptions where
  mode : Option SocketMode := none
  port : Option ℕ := none
  mcastGroup : Option String := none
  autoCreated : Option Bool := none
  deriving DecidableEq

def allocatePort (used : List ℕ) : ℕ :=
  if used = [] then DEFAULT_START_PORT else used.foldr max 0 + 1

def socketEndpointPath (host : Host) (name : String) (slot : ℕ) : String :=
  s!"{host.networks}/{name}.{slot}.sock"

def pathTooLong (name path : String) : QuickCHRError :=
  { code := .INVALID_NETWORK
    message := s!"Unix socket path for \"{name}\" is {path.utf8ByteSize} bytes, over the " ++
      s!"{SUN_PATH_MAX}-byte limit: {path}. " ++
      "Use a shorter QUICKCHR_DATA_DIR or socket name, or create the socket with --mode listen-connect." }

def assertEndpointPathsFit (host : Host) (name : String) : Except QuickCHRError Unit :=
  match [0, 1].find? fun slot => (socketEndpointPath host name slot).utf8ByteSize > SUN_PATH_MAX with
  | some slot => .error (pathTooLong name (socketEndpointPath host name slot))
  | none => .ok ()

def groupNotApplicable (name : String) (mode : SocketMode) : QuickCHRError :=
  { code := .INVALID_NETWORK
    message := s!"mcastGroup only applies to mode \"mcast\" — named socket \"{name}\" is {mode.text}." }

def portNotApplicable (name : String) : QuickCHRError :=
  { code := .INVALID_NETWORK
    message := s!"port does not apply to mode \"dgram\" — named socket \"{name}\" is a unix " ++
      "datagram pair and uses no port." }

/-- `used` are the ports of the registry, as the allocation finds them. -/
def newEntry (name : String) (mode : SocketMode) (opts : SocketOptions) (used : List ℕ)
    (now : Timestamp) : SocketEntry :=
  { name := name
    mode := mode
    mcastGroup := if mode = .mcast then opts.mcastGroup.or (some DEFAULT_MCAST_GROUP) else none
    port := if mode = .dgram then none else opts.port.or (some (allocatePort used))
    createdAt := now
    members := []
    endpoints := if mode = .mcast then none else some [none, none]
    autoCreated := opts.autoCreated.getD false }

def createEntry (host : Host) (name : String) (opts : SocketOptions) (used : List ℕ)
    (now : Timestamp) : Except QuickCHRError SocketEntry :=
  assertValidResourceName name "named socket" >>= fun _ =>
    let mode := opts.mode.getD (defaultSocketMode host)
    if opts.mcastGroup ≠ none ∧ mode ≠ .mcast then .error (groupNotApplicable name mode)
    else if opts.port ≠ none ∧ mode = .dgram then .error (portNotApplicable name)
    else (if mode = .dgram then assertEndpointPathsFit host name else .ok ()).map fun _ =>
      newEntry name mode opts used now

def createNamedSocket (host : Host) (name : String) (opts : SocketOptions) (used : List ℕ)
    (now : Timestamp) (file : File) : Except QuickCHRError SocketEntry × File :=
  withEntryLock host name file <|
    if (reloadEntry file).isSome then
      (.error { code := .STATE_ERROR, message := s!"Named socket \"{name}\" already exists" }, file)
    else
      match createEntry host name opts used now with
      | .error e => (.error e, file)
      | .ok entry => (.ok entry, saveEntry entry)

def inUse (name : String) (members : List String) : QuickCHRError :=
  let them := if members.length > 1 then "those machines" else "that machine"
  let users := Text.join " and " members
  { code := .STATE_ERROR
    message := s!"Named socket \"{name}\" is in use by {users} — stop {them} first." }

/-- Whether there was an entry, for a process that has it in its cache or not. -/
def removeEntry (wasCached : Bool) (file : File) : Bool × File := (file.isSome || wasCached, none)

def removeNamedSocket (host : Host) (name : String) (wasCached : Bool) (file : File) :
    Except QuickCHRError Bool × File :=
  withEntryLock host name file <|
    match (reloadEntry file).filter (·.members ≠ []) with
    | some entry => (.error (inUse name entry.members), file)
    | none =>
        let (removed, file) := removeEntry wasCached file
        (.ok removed, file)

/-- The slot a machine holds on a two-member socket. -/
def getSocketSlot (entry : SocketEntry) (machineName : String) : Option ℕ :=
  entry.endpoints.bind fun endpoints => endpoints.idxOf? (some machineName)

def linkFull (entry : SocketEntry) (endpoints : List (Option String)) : QuickCHRError :=
  let held := Text.join " and " (endpoints.filterMap id)
  { code := .NETWORK_UNAVAILABLE
    message := s!"Named socket \"{entry.name}\" is a {entry.mode.text} link and carries " ++
      s!"{endpoints.length} machines; {held} already hold both ends. " ++
      "Stop one of them, or create an N-way segment with 'quickchr networks sockets create <name> --mode mcast'." }

/-- The entry with the machine among the members, and these slots. -/
def joined (entry : SocketEntry) (machineName : String)
    (endpoints : Option (List (Option String))) : SocketEntry :=
  { entry with
    endpoints := endpoints
    members := if machineName ∈ entry.members then entry.members
      else entry.members ++ [machineName] }

/-- Give the machine an endpoint and save, if that changes the entry. -/
def claimEndpoint (entry : SocketEntry) (machineName : String) (file : File) :
    Except QuickCHRError SocketEntry × File :=
  let save (claimed : SocketEntry) :=
    (Except.ok claimed, if claimed = entry then file else saveEntry claimed)
  match entry.endpoints with
  | none => save (joined entry machineName none)
  | some endpoints =>
      match Slots.claim endpoints machineName with
      | none => (.error (linkFull entry endpoints), file)
      | some claimed => save (joined entry machineName (some claimed))

def addSocketMember (host : Host) (name machineName : String) (file : File) :
    Except QuickCHRError Unit × File :=
  withEntryLock host name file <|
    match reloadEntry file with
    | none =>
        (.error { code := .STATE_ERROR, message := s!"Named socket \"{name}\" not found" }, file)
    | some entry =>
        let (claimed, file) := claimEndpoint entry machineName file
        (claimed.map fun _ => (), file)

/-- Make the link if there is none, then join it. -/
def joinNamedSocket (host : Host) (name machineName : String) (autoCreated : Option Bool)
    (used : List ℕ) (now : Timestamp) (file : File) : Except QuickCHRError SocketEntry × File :=
  withEntryLock host name file <|
    match reloadEntry file with
    | some entry => claimEndpoint entry machineName file
    | none =>
        match createEntry host name { autoCreated := some (autoCreated.getD false) } used now with
        | .error e => (.error e, file)
        | .ok entry => claimEndpoint entry machineName (saveEntry entry)

def without (entry : SocketEntry) (machineName : String) : SocketEntry :=
  { entry with
    members := entry.members.filter (· ≠ machineName)
    endpoints := entry.endpoints.map fun endpoints => Slots.release endpoints machineName }

def removeSocketMember (host : Host) (name machineName : String) (file : File) :
    Except QuickCHRError Unit × File :=
  withEntryLock host name file <|
    match reloadEntry file with
    | none => (.ok (), file)
    | some entry =>
        let left := without entry machineName
        (.ok (), if left.members = [] ∧ left.autoCreated = true then none else saveEntry left)

inductive Request
  | createNamedSocket (opts : SocketOptions) (used : List ℕ) (now : Timestamp)
  | joinNamedSocket (machineName : String) (autoCreated : Option Bool) (used : List ℕ)
    (now : Timestamp)
  | addSocketMember (machineName : String)
  | removeSocketMember (machineName : String)
  | removeNamedSocket (wasCached : Bool)
  deriving DecidableEq

/-- The machine that asks for an end of the link. -/
def Request.joins : Request → Option String
  | .joinNamedSocket machineName .. | .addSocketMember machineName => some machineName
  | _ => none

section

variable (host : Host) (name : String)

/-- The operation throws, or not, and leaves the file. -/
def Request.run (file : File) : Request → Except QuickCHRError Unit × File
  | .createNamedSocket opts used now =>
      (SocketRegistry.createNamedSocket host name opts used now file).map (·.map fun _ => ()) id
  | .joinNamedSocket machineName autoCreated used now =>
      (SocketRegistry.joinNamedSocket host name machineName autoCreated used now file).map
        (·.map fun _ => ()) id
  | .addSocketMember machineName => SocketRegistry.addSocketMember host name machineName file
  | .removeSocketMember machineName => SocketRegistry.removeSocketMember host name machineName file
  | .removeNamedSocket wasCached =>
      (SocketRegistry.removeNamedSocket host name wasCached file).map (·.map fun _ => ()) id

/-- The operations of any number of machines, serialized by the lock. -/
def system : Transition.System File Request where
  Initial file := file = none
  next file r := some (r.run host name file).2

end

/-- A pair has two slots that tell its members; a segment has none. -/
structure Sound (name : String) (entry : SocketEntry) : Prop where
  named : entry.name = name
  members : entry.members.Nodup
  segment : entry.mode = .mcast → entry.endpoints = none
  pair : entry.mode ≠ .mcast → ∃ slots, entry.endpoints = some slots ∧ slots.length = 2 ∧
    Slots.Distinct slots ∧ ∀ m, m ∈ entry.members ↔ some m ∈ slots

/-- The file is absent, or the JSON of a sound entry under a name that makes a path. -/
def Stored (host : Host) (name : String) (file : File) : Prop :=
  file = none ∨ isPathSafeName host name = true ∧ ∃ entry, file = saveEntry entry ∧ Sound name entry

theorem Sound.reload {name : String} {entry : SocketEntry} (h : Sound name entry) :
    reloadEntry (saveEntry entry) = some entry := by
  have endpoints :
      entry.endpoints.or (if entry.mode = .mcast then none else some [none, none]) =
        entry.endpoints := by
    by_cases mcast : entry.mode = .mcast
    · rw [if_pos mcast, Option.or_none]
    · obtain ⟨slots, is, -⟩ := h.pair mcast
      rw [is, Option.some_or]
  simp only [reloadEntry, saveEntry, Option.map_some, normalizeEntry, Option.getD_some, endpoints]

inductive Claims (entry : SocketEntry) (machineName : String) : SocketEntry → Prop
  | segment : entry.endpoints = none → Claims entry machineName (joined entry machineName none)
  | pair {slots slots'} : entry.endpoints = some slots → Slots.claim slots machineName = some slots' →
      Claims entry machineName (joined entry machineName (some slots'))

theorem createEntry_ok {host : Host} {name : String} {opts : SocketOptions} {used : List ℕ}
    {now : Timestamp} {entry : SocketEntry} (h : createEntry host name opts used now = .ok entry) :
    entry = newEntry name (opts.mode.getD (defaultSocketMode host)) opts used now := by
  obtain ⟨_, -, h⟩ := bind_eq_ok.mp h
  dsimp only at h
  split at h
  · cases h
  split at h
  · cases h
  obtain ⟨_, -, rfl⟩ := map_eq_ok.mp h
  rfl

theorem newEntry_sound (name : String) (mode : SocketMode) (opts : SocketOptions) (used : List ℕ)
    (now : Timestamp) : Sound name (newEntry name mode opts used now) := by
  refine ⟨rfl, List.nodup_nil, fun mcast => if_pos mcast, fun pair => ?_⟩
  refine ⟨[none, none], if_neg pair, rfl, Slots.distinct_replicate 2, fun m => ?_⟩
  simp only [newEntry, List.not_mem_nil, List.mem_cons, reduceCtorEq, or_self]

/-- A claim on a file that holds the entry leaves the entry it has made, or throws. -/
theorem claimEndpoint_cases (entry : SocketEntry) (machineName : String) :
    (∃ error, claimEndpoint entry machineName (saveEntry entry) = (.error error, saveEntry entry)) ∨
      ∃ claimed, Claims entry machineName claimed ∧
        claimEndpoint entry machineName (saveEntry entry) = (.ok claimed, saveEntry claimed) := by
  have save : ∀ claimed : SocketEntry,
      (if claimed = entry then saveEntry entry else saveEntry claimed) = saveEntry claimed := by
    intro claimed
    split
    · rename_i same; rw [same]
    · rfl
  unfold claimEndpoint
  split
  · rename_i is
    exact .inr ⟨_, .segment is, Prod.ext rfl (save _)⟩
  · rename_i slots is
    split
    · exact .inl ⟨_, rfl⟩
    · rename_i claimed taken
      exact .inr ⟨_, .pair is taken, Prod.ext rfl (save _)⟩

/-- All that an operation can do to a stored file. -/
inductive Move (name : String) : File → Request → File → Prop
  | same {file r} : (∀ m, r = .removeSocketMember m → file = none) → Move name file r file
  | create {r entry} : entry.members = [] → Sound name entry → Move name none r (saveEntry entry)
  | joinNew {entry m r claimed} : r.joins = some m → entry.members = [] → Sound name entry →
      Claims entry m claimed → Move name none r (saveEntry claimed)
  | claim {entry m r claimed} : r.joins = some m → Sound name entry → Claims entry m claimed →
      Move name (saveEntry entry) r (saveEntry claimed)
  | drop {entry m} : Sound name entry →
      (without entry m).members = [] → entry.autoCreated = true →
      Move name (saveEntry entry) (.removeSocketMember m) none
  | leave {entry m} : Sound name entry →
      ¬ ((without entry m).members = [] ∧ entry.autoCreated = true) →
      Move name (saveEntry entry) (.removeSocketMember m) (saveEntry (without entry m))
  | remove {entry wasCached} : Sound name entry → entry.members = [] →
      Move name (saveEntry entry) (.removeNamedSocket wasCached) none

theorem withEntryLock_cases {α : Type} (host : Host) (name : String) (file : File)
    (fn : Except QuickCHRError α × File) :
    (isPathSafeName host name = true ∧ withEntryLock host name file fn = fn) ∨
      isPathSafeName host name = false ∧
        ∃ error, withEntryLock host name file fn = (.error error, file) := by
  unfold withEntryLock assertPathSafeName
  by_cases safe : isPathSafeName host name = true
  · rw [if_pos safe]; exact .inl ⟨safe, rfl⟩
  · rw [if_neg safe]; exact .inr ⟨Bool.eq_false_iff.mpr safe, _, rfl⟩

section

variable {host : Host} {name : String}

theorem createNamedSocket_move {opts : SocketOptions} {used : List ℕ} {now : Timestamp} {file : File} :
    Move name file (.createNamedSocket opts used now)
      (createNamedSocket host name opts used now file).2 := by
  unfold createNamedSocket
  rcases withEntryLock_cases host name file _ with ⟨-, is⟩ | ⟨-, error, is⟩ <;> rw [is]
  · split
    · exact .same fun _ is => by cases is
    · rename_i absent
      cases file with
      | some raw => exact (absent rfl).elim
      | none =>
          cases made : createEntry host name opts used now with
          | error e => exact .same fun _ _ => rfl
          | ok entry =>
              cases createEntry_ok made
              exact .create rfl (newEntry_sound name _ opts used now)
  · exact .same fun _ is => by cases is

theorem claimEndpoint_move {entry : SocketEntry} {machineName : String} {r : Request}
    (sound : Sound name entry) (joins : r.joins = some machineName) :
    Move name (saveEntry entry) r (claimEndpoint entry machineName (saveEntry entry)).2 := by
  rcases claimEndpoint_cases entry machineName with ⟨error, is⟩ | ⟨claimed, claims, is⟩ <;> rw [is]
  · exact .same fun m is => by rw [is] at joins; cases joins
  · exact .claim joins sound claims

variable {file : File} (stored : Stored host name file)
include stored

theorem joinNamedSocket_move {machineName : String} {autoCreated : Option Bool} {used : List ℕ}
    {now : Timestamp} :
    Move name file (.joinNamedSocket machineName autoCreated used now)
      (joinNamedSocket host name machineName autoCreated used now file).2 := by
  unfold joinNamedSocket
  rcases withEntryLock_cases host name file _ with ⟨-, is⟩ | ⟨-, error, is⟩ <;> rw [is]
  · rcases stored with rfl | ⟨-, entry, rfl, sound⟩
    · cases made : createEntry host name { autoCreated := some (autoCreated.getD false) } used now with
      | error e => simp only [reloadEntry, Option.map_none]; exact .same fun _ _ => rfl
      | ok entry =>
          simp only [reloadEntry, Option.map_none]
          cases createEntry_ok made
          have sound := newEntry_sound name (Option.getD none (defaultSocketMode host))
            { autoCreated := some (autoCreated.getD false) } used now
          rcases claimEndpoint_cases (newEntry name _ _ used now) machineName with
            ⟨error, is⟩ | ⟨claimed, claims, is⟩ <;> rw [is]
          · exact .create rfl sound
          · exact .joinNew rfl rfl sound claims
    · rw [sound.reload]
      exact claimEndpoint_move sound rfl
  · exact .same fun _ is => by cases is

theorem addSocketMember_move {machineName : String} :
    Move name file (.addSocketMember machineName) (addSocketMember host name machineName file).2 := by
  unfold addSocketMember
  rcases withEntryLock_cases host name file _ with ⟨-, is⟩ | ⟨-, error, is⟩ <;> rw [is]
  · rcases stored with rfl | ⟨-, entry, rfl, sound⟩
    · exact .same fun _ is => by cases is
    · rw [sound.reload]
      exact claimEndpoint_move sound rfl
  · exact .same fun _ is => by cases is

theorem removeSocketMember_move {machineName : String} :
    Move name file (.removeSocketMember machineName)
      (removeSocketMember host name machineName file).2 := by
  unfold removeSocketMember
  rcases withEntryLock_cases host name file _ with ⟨-, is⟩ | ⟨unsafe_, error, is⟩ <;> rw [is]
  · rcases stored with rfl | ⟨-, entry, rfl, sound⟩
    · exact .same fun _ _ => rfl
    · rw [sound.reload]
      dsimp only
      split
      · rename_i empty; exact .drop sound empty.1 empty.2
      · rename_i kept; exact .leave sound kept
  · rcases stored with rfl | ⟨safe, -⟩
    · exact .same fun _ _ => rfl
    · rw [safe] at unsafe_; cases unsafe_

theorem removeNamedSocket_move {wasCached : Bool} :
    Move name file (.removeNamedSocket wasCached)
      (removeNamedSocket host name wasCached file).2 := by
  unfold removeNamedSocket
  rcases withEntryLock_cases host name file _ with ⟨-, is⟩ | ⟨-, error, is⟩ <;> rw [is]
  · rcases stored with rfl | ⟨-, entry, rfl, sound⟩
    · exact .same fun _ is => by cases is
    · rw [sound.reload]
      by_cases empty : entry.members = []
      · rw [Option.filter_some, if_neg (by rw [decide_eq_true_eq]; exact fun used => used empty)]
        exact .remove sound empty
      · rw [Option.filter_some, if_pos (decide_eq_true empty)]
        exact .same fun _ is => by cases is
  · exact .same fun _ is => by cases is

theorem move_of_run (r : Request) : Move name file r (r.run host name file).2 := by
  cases r with
  | createNamedSocket opts used now => exact createNamedSocket_move
  | joinNamedSocket machineName autoCreated used now => exact joinNamedSocket_move stored
  | addSocketMember machineName => exact addSocketMember_move stored
  | removeSocketMember machineName => exact removeSocketMember_move stored
  | removeNamedSocket wasCached => exact removeNamedSocket_move stored

end

end SocketRegistry
end Quickchr
