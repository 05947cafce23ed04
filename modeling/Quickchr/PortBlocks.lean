import Quickchr.BlockSearch

/-!
# Port blocks and MAC addresses

How one creation chooses, once it knows what the others have: the port block, the host ports
of its forwards, the MAC of every NIC.
-/
namespace Quickchr.PortBlocks

open BlockSearch (PORTS_PER_BLOCK)

inductive Proto
  | tcp | udp
  deriving DecidableEq

/-- A host port of 0 is one to allocate. -/
structure PortMapping where
  name : String
  host : ℕ
  guest : ℕ
  proto : Proto
  deriving DecidableEq

structure ServicePort where
  guest : ℕ
  offset : ℕ
  proto : Proto

def SERVICE_PORTS : Record ServicePort :=
  [("http", ⟨80, 0, .tcp⟩), ("https", ⟨443, 1, .tcp⟩), ("ssh", ⟨22, 2, .tcp⟩),
    ("api", ⟨8728, 3, .tcp⟩), ("api-ssl", ⟨8729, 4, .tcp⟩), ("winbox", ⟨8291, 5, .tcp⟩)]

/-- The blocks at these bases have a port in common. -/
def overlap (base used : ℕ) : Bool := base < used + PORTS_PER_BLOCK && used < base + PORTS_PER_BLOCK

/-- The search over the bases of machines: `busy` tells for each attempt whether one of the block's
host ports was taken when it was tried. -/
def findAvailablePortBlock (usedBases : List ℕ) (busy : ℕ → Bool) : Except QuickCHRError ℕ :=
  (BlockSearch.findAvailablePortBlock (usedBases.map Nat.cast) none fun attempt _ => busy attempt).result.map
    Int.toNat

def extraName (i : ℕ) (extra : PortMapping) : String :=
  if extra.name = "" then s!"custom-{i}" else extra.name

def buildPortMappings (portBase : ℕ) (excludePorts : List String) (extraPorts : List PortMapping) :
    Record PortMapping :=
  let services := (SERVICE_PORTS.filter fun e => e.1 ∉ excludePorts).map fun e =>
    (e.1, { name := e.1, host := portBase + e.2.offset, guest := e.2.guest, proto := e.2.proto })
  let extras := extraPorts.mapIdx fun i extra =>
    (extraName i extra, { extra with
      name := extraName i extra
      host := if extra.host = 0 then portBase + 6 + i else extra.host })
  Record.assign services (extras.filter (·.1 ≠ "__proto__"))

def hosts (ports : Record PortMapping) : List ℕ := ports.map (·.2.host)

/-- What one machine has: its block, its forwards, the MACs of its NICs. -/
structure Resources where
  portBase : ℕ
  ports : Record PortMapping
  macs : List String
  deriving DecidableEq

/-- What the machine lock of a creation carries of them. -/
structure ResourceReservation where
  portBase : ℕ
  macs : List String
  deriving DecidableEq

def Resources.reservation (r : Resources) : ResourceReservation := ⟨r.portBase, r.macs⟩

/-- An explicit base is never moved: one that overlaps another block is refused. -/
def assertPortBaseFree (portBase : ℕ) (name : String) (machines : List (String × Resources))
    (reserved : List (String × ResourceReservation)) : Except QuickCHRError Unit :=
  let others := (machines.filter fun m => m.1 ≠ name).map (fun m => (m.1, m.2.portBase)) ++
    reserved.map fun r => (r.1, r.2.portBase)
  match others.find? fun o => overlap o.2 portBase with
  | some clash => .error
      { code := .PORT_CONFLICT
        message := s!"portBase {portBase} overlaps machine \"{clash.1}\" (portBase {clash.2}) — " ++
          s!"each machine takes a block of {PORTS_PER_BLOCK} ports. " ++
          s!"Pick a base at least {PORTS_PER_BLOCK} away, or omit portBase to have one allocated." }
  | none => .ok ()

def serviceClash (label : String) (host : ℕ) (service : String) (portBase : ℕ) : QuickCHRError :=
  { code := .PORT_CONFLICT
    message := s!"Explicit extra port \"{label}\" host={host} collides with built-in service " ++
      s!"\"{service}\" (portBase={portBase}). Pick a different host port or exclude the service." }

def duplicateClash (first label : String) (host : ℕ) : QuickCHRError :=
  { code := .PORT_CONFLICT
    message := s!"Explicit extra ports \"{first}\" and \"{label}\" both request host={host}." }

def machineClash (label : String) (host : ℕ) (machine service : String) : QuickCHRError :=
  { code := .PORT_CONFLICT
    message := s!"Explicit extra port \"{label}\" host={host} is already allocated to machine " ++
      s!"\"{machine}\" (service \"{service}\")." }

/-- The last entry for a key, as a `Map` built by `set` has it. -/
def lastOf {α : Type} (entries : List (ℕ × α)) (host : ℕ) : Option α :=
  (entries.reverse.find? (·.1 = host)).map (·.2)

/-- One round of the loop of `validateExplicitExtraPorts`; `seen` are the explicit hosts of the
rounds before. -/
def validateExtra (serviceHosts : List (ℕ × String)) (otherHosts : List (ℕ × String × String))
    (portBase : ℕ) (seen : List (ℕ × String)) (label : String) (host : ℕ) :
    Except QuickCHRError (List (ℕ × String)) :=
  match lastOf serviceHosts host with
  | some service => .error (serviceClash label host service portBase)
  | none =>
      match lastOf seen host with
      | some first => .error (duplicateClash first label host)
      | none =>
          match lastOf otherHosts host with
          | some (machine, service) => .error (machineClash label host machine service)
          | none => .ok (seen ++ [(host, label)])

def validateExtras (serviceHosts : List (ℕ × String)) (otherHosts : List (ℕ × String × String))
    (portBase : ℕ) : List (ℕ × String) → List (String × ℕ) → Except QuickCHRError Unit
  | _, [] => .ok ()
  | seen, (label, host) :: extras => do
      let seen ← validateExtra serviceHosts otherHosts portBase seen label host
      validateExtras serviceHosts otherHosts portBase seen extras

/-- The extra forwards that name a host port, with their labels. -/
def explicitExtras (extraPorts : List PortMapping) : List (String × ℕ) :=
  (extraPorts.mapIdx fun i extra => (extraName i extra, extra.host)).filter (·.2 ≠ 0)

def validateExplicitExtraPorts (extraPorts : List PortMapping) (portBase : ℕ)
    (excludePorts : List String) (existingMachines : List (String × Resources))
    (ownMachineName : String) : Except QuickCHRError Unit :=
  let serviceHosts := (SERVICE_PORTS.filter fun e => e.1 ∉ excludePorts).map fun e =>
    (portBase + e.2.offset, e.1)
  let otherHosts := (existingMachines.filter fun m => m.1 ≠ ownMachineName).flatMap fun m =>
    m.2.ports.map fun e => (e.2.host, m.1, e.2.name)
  validateExtras serviceHosts otherHosts portBase [] (explicitExtras extraPorts)

/-- The first salt, of at most `rounds`, whose address is not taken. -/
def freshMac (deriveMac : ℕ → ℕ → String) (used : List String) (index : ℕ) (rounds : ℕ) :
    Option String :=
  ((List.range rounds).map (deriveMac index)).find? (· ∉ used)

/-- `assignMacs` for NICs without an address, from the NIC `index` on. `deriveMac` is the digest
of the machine's name, the NIC's index and a salt. -/
def assignMacs (deriveMac : ℕ → ℕ → String) (rounds : ℕ) : List String → ℕ → ℕ → Option (List String)
  | _, _, 0 => some []
  | used, index, nics + 1 => do
      let mac ← freshMac deriveMac used index rounds
      let rest ← assignMacs deriveMac rounds (mac :: used) (index + 1) nics
      return mac :: rest

theorem overlap_comm (a b : ℕ) : overlap a b = overlap b a := by
  unfold overlap
  exact Bool.and_comm _ _

theorem overlap_eq_false {a b : ℕ} :
    overlap a b = false ↔ b + PORTS_PER_BLOCK ≤ a ∨ a + PORTS_PER_BLOCK ≤ b := by
  unfold overlap
  rw [Bool.and_eq_false_iff, decide_eq_false_iff_not, decide_eq_false_iff_not]
  omega

theorem overlap_iff (base used : ℕ) : overlap base used = true ↔ |(base : ℤ) - used| < PORTS_PER_BLOCK := by
  rw [overlap, Bool.and_eq_true, decide_eq_true_iff, decide_eq_true_iff, abs_lt]
  omega

theorem findAvailablePortBlock_ok {usedBases : List ℕ} {busy : ℕ → Bool} {base : ℕ}
    (h : findAvailablePortBlock usedBases busy = .ok base) :
    0 < base ∧ BlockSearch.Clear (usedBases.map Nat.cast) base := by
  have sound := BlockSearch.findAvailablePortBlock_sound (usedBases.map Nat.cast) fun attempt _ => busy attempt
  have start := (BlockSearch.nextUnusedBase_isLeast BlockSearch.DEFAULT_PORT_BASE (usedBases.map Nat.cast)).1.1
  rw [findAvailablePortBlock] at h
  generalize BlockSearch.findAvailablePortBlock (usedBases.map Nat.cast) none (fun attempt _ => busy attempt) =
    search at h sound
  obtain ⟨b, found, same⟩ := map_eq_ok.mp h
  have tried := sound.found b found
  have above := start.trans (sound.above b tried)
  have positive : (0 : ℤ) < b := lt_of_lt_of_le (by decide) above
  have cast : (base : ℤ) = b := by omega
  exact ⟨by omega, cast ▸ sound.clear b tried⟩

/-- An allocated block overlaps no used block, whatever is bound on the wire. -/
theorem findAvailablePortBlock_free {usedBases : List ℕ} {busy : ℕ → Bool} {base : ℕ}
    (h : findAvailablePortBlock usedBases busy = .ok base) :
    ∀ used ∈ usedBases, overlap base used = false := by
  intro used member
  have apart := (BlockSearch.disjoint_block_iff _ _).mp
    ((findAvailablePortBlock_ok h).2 used (List.mem_map_of_mem member))
  exact Bool.eq_false_iff.mpr fun close => absurd ((overlap_iff base used).mp close) (not_lt.mpr apart)

theorem findAvailablePortBlock_pos {usedBases : List ℕ} {busy : ℕ → Bool} {base : ℕ}
    (h : findAvailablePortBlock usedBases busy = .ok base) : 0 < base := (findAvailablePortBlock_ok h).1

theorem assertPortBaseFree_ok {portBase : ℕ} {name : String} {machines : List (String × Resources)}
    {reserved : List (String × ResourceReservation)} {u : Unit}
    (h : assertPortBaseFree portBase name machines reserved = .ok u) :
    (∀ m ∈ machines, m.1 ≠ name → overlap m.2.portBase portBase = false) ∧
      ∀ r ∈ reserved, overlap r.2.portBase portBase = false := by
  unfold assertPortBaseFree at h
  dsimp only at h
  split at h
  · cases h
  · rename_i none
    have clear := List.find?_eq_none.mp none
    constructor
    · intro m member other
      refine Bool.eq_false_iff.mpr (clear (m.1, m.2.portBase) (List.mem_append_left _ ?_))
      exact List.mem_map.mpr ⟨m, List.mem_filter.mpr ⟨member, decide_eq_true other⟩, rfl⟩
    · intro r member
      exact Bool.eq_false_iff.mpr (clear (r.1, r.2.portBase)
        (List.mem_append_right _ (List.mem_map.mpr ⟨r, member, rfl⟩)))

theorem lastOf_eq_none {α : Type} {entries : List (ℕ × α)} {host : ℕ}
    (h : lastOf entries host = none) : ∀ e ∈ entries, e.1 ≠ host := by
  intro e member same
  have none := List.find?_eq_none.mp (Option.map_eq_none_iff.mp h) e (List.mem_reverse.mpr member)
  exact none (decide_eq_true same)

theorem validateExtra_ok {serviceHosts : List (ℕ × String)}
    {otherHosts : List (ℕ × String × String)} {portBase host : ℕ} {seen seen' : List (ℕ × String)}
    {label : String} (h : validateExtra serviceHosts otherHosts portBase seen label host = .ok seen') :
    (∀ e ∈ serviceHosts, e.1 ≠ host) ∧ (∀ e ∈ seen, e.1 ≠ host) ∧ (∀ e ∈ otherHosts, e.1 ≠ host) ∧
      seen' = seen ++ [(host, label)] := by
  unfold validateExtra at h
  split at h
  · cases h
  · rename_i service
    split at h
    · cases h
    · rename_i new
      split at h
      · cases h
      · rename_i other
        cases h
        exact ⟨lastOf_eq_none service, lastOf_eq_none new, lastOf_eq_none other, rfl⟩

/-- The explicit hosts that `validateExtras` lets through. -/
structure ValidExtras (serviceHosts : List (ℕ × String)) (otherHosts : List (ℕ × String × String))
    (seen : List (ℕ × String)) (extras : List (String × ℕ)) : Prop where
  services : ∀ extra ∈ extras, ∀ e ∈ serviceHosts, e.1 ≠ extra.2
  unseen : ∀ extra ∈ extras, ∀ e ∈ seen, e.1 ≠ extra.2
  apart : extras.Pairwise fun extra later => extra.2 ≠ later.2
  others : ∀ extra ∈ extras, ∀ e ∈ otherHosts, e.1 ≠ extra.2

theorem validateExtras_ok {serviceHosts : List (ℕ × String)}
    {otherHosts : List (ℕ × String × String)} {portBase : ℕ} {seen : List (ℕ × String)}
    {extras : List (String × ℕ)} {u : Unit}
    (h : validateExtras serviceHosts otherHosts portBase seen extras = .ok u) :
    ValidExtras serviceHosts otherHosts seen extras := by
  induction extras generalizing seen with
  | nil => constructor <;> simp
  | cons extra extras ih =>
      obtain ⟨seen', validated, rest⟩ := bind_eq_ok.mp h
      obtain ⟨services, unseen, others, rfl⟩ := validateExtra_ok validated
      have valid := ih rest
      refine ⟨List.forall_mem_cons.mpr ⟨services, valid.services⟩,
        List.forall_mem_cons.mpr ⟨unseen, fun later member e known => ?_⟩,
        List.pairwise_cons.mpr ⟨fun later member => ?_, valid.apart⟩,
        List.forall_mem_cons.mpr ⟨others, valid.others⟩⟩
      · exact valid.unseen later member e (List.mem_append_left _ known)
      · exact valid.unseen later member (extra.2, extra.1)
          (List.mem_append_right _ List.mem_cons_self)

/-- No host of another listed machine is among the explicit extra hosts. -/
theorem validateExplicitExtraPorts_ok {extraPorts : List PortMapping} {portBase : ℕ}
    {excludePorts : List String} {machines : List (String × Resources)} {name : String} {u : Unit}
    (h : validateExplicitExtraPorts extraPorts portBase excludePorts machines name = .ok u) :
    ∀ m ∈ machines, m.1 ≠ name → ∀ extra ∈ explicitExtras extraPorts,
      extra.2 ∉ hosts m.2.ports := by
  intro m member other extra named taken
  obtain ⟨e, mapped, same⟩ := List.mem_map.mp taken
  refine (validateExtras_ok h).others extra named (e.2.host, m.1, e.2.name) ?_ same
  exact List.mem_flatMap.mpr ⟨m, List.mem_filter.mpr ⟨member, decide_eq_true other⟩,
    List.mem_map.mpr ⟨e, mapped, rfl⟩⟩

/-- The assigned addresses are new, and no two of them are the same. -/
theorem assignMacs_fresh {deriveMac : ℕ → ℕ → String} {rounds index nics : ℕ} {used macs : List String}
    (h : assignMacs deriveMac rounds used index nics = some macs) :
    macs.Nodup ∧ ∀ mac ∈ macs, mac ∉ used := by
  induction nics generalizing used index macs with
  | zero => cases h; exact ⟨List.nodup_nil, fun _ member => by cases member⟩
  | succ nics ih =>
      obtain ⟨mac, found, h⟩ := Option.bind_eq_some_iff.mp h
      obtain ⟨rest, assigned, h⟩ := Option.bind_eq_some_iff.mp h
      cases h
      obtain ⟨nodup, fresh⟩ := ih assigned
      have new : mac ∉ used := by simpa using List.find?_some found
      refine ⟨List.nodup_cons.mpr ⟨fun again => fresh mac again List.mem_cons_self, nodup⟩, ?_⟩
      refine List.forall_mem_cons.mpr ⟨new, fun other member known => ?_⟩
      exact fresh other member (List.mem_cons_of_mem _ known)

end Quickchr.PortBlocks
