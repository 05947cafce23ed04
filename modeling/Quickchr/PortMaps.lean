import Quickchr.Allocation

/-!
# Port maps

The forwards of a new machine. The map has one entry for a label: the last extra forward with
it stands in place of the extras before it and of the service of that name.
-/
namespace Quickchr.PortBlocks

open BlockSearch (PORTS_PER_BLOCK)

def PortMapping.endpoint (m : PortMapping) : ℕ × Proto := (m.host, m.proto)

def serviceMapping (portBase : ℕ) (name : String) (spec : ServicePort) : PortMapping :=
  { name := name, host := portBase + spec.offset, guest := spec.guest, proto := spec.proto }

def extraMapping (portBase i : ℕ) (extra : PortMapping) : PortMapping :=
  { extra with
    name := extraName i extra
    host := if extra.host = 0 then portBase + 6 + i else extra.host }

inductive Origin (portBase : ℕ) (excludePorts : List String) (extraPorts : List PortMapping)
    (m : PortMapping) : Prop
  | service {name spec} : (name, spec) ∈ SERVICE_PORTS → name ∉ excludePorts →
      m = serviceMapping portBase name spec → Origin portBase excludePorts extraPorts m
  | extra {i extra} : extraPorts[i]? = some extra → m = extraMapping portBase i extra →
      Origin portBase excludePorts extraPorts m

/-- A forward of an extra that names its host port. -/
def IsExplicit (portBase : ℕ) (extraPorts : List PortMapping) (m : PortMapping) : Prop :=
  ∃ i extra, extraPorts[i]? = some extra ∧ extra.host ≠ 0 ∧ m = extraMapping portBase i extra

/-- A forward of an extra that leaves its host port open. -/
def IsAuto (portBase : ℕ) (extraPorts : List PortMapping) (m : PortMapping) : Prop :=
  ∃ i extra, extraPorts[i]? = some extra ∧ extra.host = 0 ∧ m = extraMapping portBase i extra

def InBlock (base : ℕ) (m : PortMapping) : Prop := base ≤ m.host ∧ m.host < base + PORTS_PER_BLOCK

variable {portBase : ℕ} {excludePorts : List String} {extraPorts : List PortMapping}

section Labels

variable (portBase excludePorts extraPorts)

def services : Record PortMapping :=
  (SERVICE_PORTS.filter fun e => e.1 ∉ excludePorts).map fun e =>
    (e.1, serviceMapping portBase e.1 e.2)

def extras : List (String × PortMapping) :=
  extraPorts.mapIdx fun i extra => (extraName i extra, extraMapping portBase i extra)

theorem buildPortMappings_eq :
    buildPortMappings portBase excludePorts extraPorts =
      (services portBase excludePorts).assign ((extras portBase extraPorts).filter
        (·.1 ≠ "__proto__")) := rfl

end Labels

theorem SERVICE_PORTS_nodup : (SERVICE_PORTS.map Prod.fst).Nodup := by decide

theorem services_nodup : ((services portBase excludePorts).map Prod.fst).Nodup := by
  rw [services, List.map_map]
  exact (List.filter_sublist.map Prod.fst).nodup SERVICE_PORTS_nodup

theorem extras_getElem? {i : ℕ} {e : String × PortMapping} :
    (extras portBase extraPorts)[i]? = some e ↔
      ∃ extra, extraPorts[i]? = some extra ∧ e = (extraName i extra, extraMapping portBase i extra) := by
  rw [extras, List.getElem?_mapIdx, Option.map_eq_some_iff]
  simp only [eq_comm]

theorem labels_nodup :
    ((buildPortMappings portBase excludePorts extraPorts).map Prod.fst).Nodup :=
  Record.nodup_assign _ _ services_nodup

theorem get_buildPortMappings {label : String} (h : label ≠ "__proto__") :
    (buildPortMappings portBase excludePorts extraPorts).get label =
      (Record.get (extras portBase extraPorts).reverse label).or
        ((services portBase excludePorts).get label) := by
  rw [buildPortMappings_eq, Record.get_assign, ← List.filter_reverse,
    Record.get_filter label fun label => decide (label ≠ "__proto__"), if_pos (decide_eq_true h)]

theorem get_lastExtra {i : ℕ} {extra : PortMapping} (at_ : extraPorts[i]? = some extra)
    (h : extraName i extra ≠ "__proto__")
    (last : ∀ j later, i < j → extraPorts[j]? = some later → extraName j later ≠ extraName i extra) :
    (buildPortMappings portBase excludePorts extraPorts).get (extraName i extra) =
      some (extraMapping portBase i extra) := by
  have entry : (extras portBase extraPorts)[i]? =
      some (extraName i extra, extraMapping portBase i extra) :=
    extras_getElem?.mpr ⟨extra, at_, rfl⟩
  rw [get_buildPortMappings h, Record.get_reverse_of_last entry, Option.some_or]
  intro j e after entry
  obtain ⟨later, asked, rfl⟩ := extras_getElem?.mp entry
  exact last j later after asked

theorem get_service {name : String} {spec : ServicePort} (member : (name, spec) ∈ SERVICE_PORTS)
    (included : name ∉ excludePorts)
    (unnamed : ∀ i extra, extraPorts[i]? = some extra → extraName i extra ≠ name) :
    (buildPortMappings portBase excludePorts extraPorts).get name =
      some (serviceMapping portBase name spec) := by
  have proper : name ≠ "__proto__" := by
    have all : ∀ e ∈ SERVICE_PORTS, e.1 ≠ "__proto__" := by decide
    exact all (name, spec) member
  have absent : Record.get (extras portBase extraPorts).reverse name = none := by
    rw [Record.get_eq_none, List.map_reverse, List.mem_reverse]
    intro named
    obtain ⟨e, member, same⟩ := List.mem_map.mp named
    obtain ⟨i, entry⟩ := List.mem_iff_getElem?.mp member
    obtain ⟨extra, at_, rfl⟩ := extras_getElem?.mp entry
    exact unnamed i extra at_ same
  rw [get_buildPortMappings proper, absent, Option.none_or]
  refine Record.get_of_mem services_nodup (List.mem_map.mpr ⟨(name, spec), ?_, rfl⟩)
  exact List.mem_filter.mpr ⟨member, decide_eq_true included⟩

theorem origin {e : String × PortMapping}
    (h : e ∈ buildPortMappings portBase excludePorts extraPorts) :
    e.1 = e.2.name ∧ Origin portBase excludePorts extraPorts e.2 := by
  rcases Record.mem_assign h with service | extra
  · obtain ⟨⟨name, spec⟩, member, rfl⟩ := List.mem_map.mp service
    obtain ⟨member, included⟩ := List.mem_filter.mp member
    exact ⟨rfl, .service member (of_decide_eq_true included) rfl⟩
  · obtain ⟨i, entry⟩ := List.mem_iff_getElem?.mp (List.mem_of_mem_filter extra)
    obtain ⟨extra, at_, rfl⟩ := extras_getElem?.mp entry
    exact ⟨rfl, .extra at_ rfl⟩

end Quickchr.PortBlocks

namespace Quickchr.PortBlocks

variable {portBase : ℕ} {excludePorts : List String} {extraPorts : List PortMapping}

theorem offset_le {e : String × ServicePort} (h : e ∈ SERVICE_PORTS) : e.2.offset ≤ 5 := by
  have all : ∀ e ∈ SERVICE_PORTS, e.2.offset ≤ 5 := by decide
  exact all e h

theorem offset_injective {name name' : String} {spec spec' : ServicePort}
    (h : (name, spec) ∈ SERVICE_PORTS) (h' : (name', spec') ∈ SERVICE_PORTS)
    (same : spec.offset = spec'.offset) : name = name' ∧ spec = spec' := by
  have names : ∀ e ∈ SERVICE_PORTS, ∀ e' ∈ SERVICE_PORTS, e.2.offset = e'.2.offset → e.1 = e'.1 := by
    decide
  obtain rfl : name = name' := names _ h _ h' same
  have found := Record.get_of_mem SERVICE_PORTS_nodup h
  rw [Record.get_of_mem SERVICE_PORTS_nodup h'] at found
  exact ⟨rfl, (Option.some.inj found).symm⟩

theorem extraMapping_auto {i : ℕ} {extra : PortMapping} (h : extra.host = 0) :
    (extraMapping portBase i extra).host = portBase + 6 + i := if_pos h

theorem extraMapping_explicit {i : ℕ} {extra : PortMapping} (h : extra.host ≠ 0) :
    (extraMapping portBase i extra).host = extra.host := if_neg h

theorem mem_explicitExtras {i : ℕ} {extra : PortMapping} (at_ : extraPorts[i]? = some extra)
    (explicit : extra.host ≠ 0) : (extraName i extra, extra.host) ∈ explicitExtras extraPorts := by
  refine List.mem_filter.mpr ⟨List.mem_iff_getElem?.mpr ⟨i, ?_⟩, decide_eq_true explicit⟩
  rw [List.getElem?_mapIdx, at_]
  rfl

/-- A forward that names no host port has one of those that follow the base. -/
theorem Origin.host {m : PortMapping} (h : Origin portBase excludePorts extraPorts m) :
    (portBase ≤ m.host ∧ m.host < portBase + 6 + extraPorts.length) ∨
      IsExplicit portBase extraPorts m := by
  cases h with
  | service member _ is =>
      have small := offset_le member
      simp only [is, serviceMapping] at small ⊢
      exact .inl ⟨by omega, by omega⟩
  | @extra i extra at_ is =>
      by_cases auto : extra.host = 0
      · obtain ⟨inside, -⟩ := List.getElem?_eq_some_iff.mp at_
        rw [is, extraMapping_auto auto]
        exact .inl ⟨by omega, by omega⟩
      · exact .inr ⟨i, extra, at_, auto, is⟩

/-- A forward beyond the last port was asked for there, or the base and the number of the extras
lead there. -/
theorem Origin.range {m : PortMapping} (h : Origin portBase excludePorts extraPorts m)
    (positive : 0 < portBase) : 1 ≤ m.host ∧ (m.host ≤ 65535 ∨
      (∃ extra ∈ extraPorts, extra.host = m.host) ∨ 65535 < portBase + 5 + extraPorts.length) := by
  rcases h.host with ⟨above, below⟩ | ⟨i, extra, at_, explicit, rfl⟩
  · exact ⟨by omega, by omega⟩
  · rw [extraMapping_explicit explicit]
    exact ⟨Nat.pos_of_ne_zero explicit, .inr (.inl ⟨extra, List.mem_of_getElem? at_, rfl⟩)⟩

section Validated

variable {machines : List (String × Resources)} {name : String} {u : Unit}
  (valid : validateExplicitExtraPorts extraPorts portBase excludePorts machines name = .ok u)
include valid

theorem explicit_ne_service {i : ℕ} {extra : PortMapping} (at_ : extraPorts[i]? = some extra)
    (explicit : extra.host ≠ 0) {e : String × ServicePort} (member : e ∈ SERVICE_PORTS)
    (included : e.1 ∉ excludePorts) : portBase + e.2.offset ≠ extra.host := by
  refine (validateExtras_ok valid).services _ (mem_explicitExtras at_ explicit)
    (portBase + e.2.offset, e.1) (List.mem_map.mpr ⟨e, ?_, rfl⟩)
  exact List.mem_filter.mpr ⟨member, decide_eq_true included⟩

theorem explicit_injective {i j : ℕ} {extra extra' : PortMapping}
    (at_ : extraPorts[i]? = some extra) (at_' : extraPorts[j]? = some extra')
    (explicit : extra.host ≠ 0) (same : extra.host = extra'.host) : i = j := by
  have apart := List.pairwise_filter.mp (validateExtras_ok valid).apart
  rw [List.pairwise_iff_getElem] at apart
  have ordered : ∀ {i j : ℕ} {extra extra' : PortMapping}, extraPorts[i]? = some extra →
      extraPorts[j]? = some extra' → extra.host ≠ 0 → i < j → extra.host ≠ extra'.host := by
    intro i j extra extra' at_ at_' explicit before same
    obtain ⟨inside, rfl⟩ := List.getElem?_eq_some_iff.mp at_
    obtain ⟨inside', rfl⟩ := List.getElem?_eq_some_iff.mp at_'
    have differ := apart i j (by rwa [List.length_mapIdx]) (by rwa [List.length_mapIdx]) before
    rw [List.getElem_mapIdx, List.getElem_mapIdx] at differ
    exact differ (decide_eq_true explicit) (decide_eq_true (same ▸ explicit)) same
  rcases Nat.lt_trichotomy i j with before | eq | after
  · exact absurd same (ordered at_ at_' explicit before)
  · exact eq
  · exact absurd same.symm (ordered at_' at_ (same ▸ explicit) after)

/-- Two forwards with one host port: an extra that leaves its host open was given the host that
another extra names. -/
theorem Origin.meet {m m' : PortMapping} (h : Origin portBase excludePorts extraPorts m)
    (h' : Origin portBase excludePorts extraPorts m') (same : m.host = m'.host) :
    m = m' ∨ (IsAuto portBase extraPorts m ∧ IsExplicit portBase extraPorts m') ∨
      (IsExplicit portBase extraPorts m ∧ IsAuto portBase extraPorts m') := by
  have serviceExtra : ∀ {name spec i extra}, (name, spec) ∈ SERVICE_PORTS → name ∉ excludePorts →
      extraPorts[i]? = some extra →
      (serviceMapping portBase name spec).host ≠ (extraMapping portBase i extra).host := by
    intro name spec i extra member included at_ same
    by_cases auto : extra.host = 0
    · rw [extraMapping_auto auto] at same
      have small := offset_le member
      simp only [serviceMapping] at same
      dsimp only at small
      omega
    · rw [extraMapping_explicit auto] at same
      exact explicit_ne_service valid at_ auto member included same
  cases h with
  | service member included is =>
      subst is
      cases h' with
      | service member' included' is' =>
          subst is'
          obtain ⟨rfl, rfl⟩ := offset_injective member member' (Nat.add_left_cancel same)
          exact .inl rfl
      | extra at_ is' =>
          subst is'
          exact absurd same (serviceExtra member included at_)
  | @extra i extra at_ is =>
      subst is
      cases h' with
      | service member' included' is' =>
          subst is'
          exact absurd same.symm (serviceExtra member' included' at_)
      | @extra j extra' at_' is' =>
          subst is'
          by_cases auto : extra.host = 0
          · by_cases auto' : extra'.host = 0
            · rw [extraMapping_auto auto, extraMapping_auto auto'] at same
              obtain rfl : i = j := Nat.add_left_cancel same
              cases at_.symm.trans at_'
              exact .inl rfl
            · exact .inr (.inl ⟨⟨i, extra, at_, auto, rfl⟩, ⟨j, extra', at_', auto', rfl⟩⟩)
          · by_cases auto' : extra'.host = 0
            · exact .inr (.inr ⟨⟨i, extra, at_, auto, rfl⟩, ⟨j, extra', at_', auto', rfl⟩⟩)
            · rw [extraMapping_explicit auto, extraMapping_explicit auto'] at same
              obtain rfl := explicit_injective valid at_ at_' auto same
              cases at_.symm.trans at_'
              exact .inl rfl

end Validated

end Quickchr.PortBlocks

namespace Quickchr.Allocation

open PortBlocks

variable {deriveMac : String → ℕ → ℕ → String}

/-- What the reads of a creation come to when nothing else runs. -/
def snapshot (machines : List (String × Resources))
    (reserved : List (String × ResourceReservation)) : Picked where
  machines := machines
  reserved := reserved
  bases := machines.map (·.2.portBase)
  macs := machines.flatMap (·.2.macs)

/-- Every request has an entry of its own, no two entries are for one host port and protocol,
and none is for that of another machine. -/
structure CollisionFree (opts : StartOptions) (machines : List (String × Resources))
    (r : Resources) : Prop where
  services : ∀ name spec, (name, spec) ∈ SERVICE_PORTS → name ∉ opts.excludePorts →
    r.ports.get name = some (serviceMapping r.portBase name spec)
  extras : ∀ i extra, opts.extraPorts[i]? = some extra →
    r.ports.get (extraName i extra) = some (extraMapping r.portBase i extra)
  distinct : (r.ports.map (·.2.endpoint)).Nodup
  range : ∀ e ∈ r.ports, 1 ≤ e.2.host ∧ e.2.host ≤ 65535
  clear : ∀ m ∈ machines, m.1 ≠ opts.name → ∀ e ∈ r.ports, ∀ e' ∈ m.2.ports,
    e.2.endpoint ≠ e'.2.endpoint

/-- One entry for a label, with the last extra forward of that label before the service. Two
entries for one host port are an extra that names it and one that was given it. No host that an
extra names is another machine's, and the blocks of two machines have no forward in common. -/
structure ByLabel (opts : StartOptions) (machines : List (String × Resources))
    (r : Resources) : Prop where
  labels : (r.ports.map Prod.fst).Nodup
  extra : ∀ i extra, opts.extraPorts[i]? = some extra → extraName i extra ≠ "__proto__" →
    (∀ j later, i < j → opts.extraPorts[j]? = some later →
      extraName j later ≠ extraName i extra) →
    r.ports.get (extraName i extra) = some (extraMapping r.portBase i extra)
  service : ∀ name spec, (name, spec) ∈ SERVICE_PORTS → name ∉ opts.excludePorts →
    (∀ i extra, opts.extraPorts[i]? = some extra → extraName i extra ≠ name) →
    r.ports.get name = some (serviceMapping r.portBase name spec)
  origin : ∀ e ∈ r.ports, e.1 = e.2.name ∧ Origin r.portBase opts.excludePorts opts.extraPorts e.2
  distinct : ∀ e ∈ r.ports, ∀ e' ∈ r.ports, e ≠ e' → e.2.endpoint = e'.2.endpoint →
    (IsAuto r.portBase opts.extraPorts e.2 ∧ IsExplicit r.portBase opts.extraPorts e'.2) ∨
      (IsExplicit r.portBase opts.extraPorts e.2 ∧ IsAuto r.portBase opts.extraPorts e'.2)
  range : ∀ e ∈ r.ports, 1 ≤ e.2.host ∧ (e.2.host ≤ 65535 ∨
    (∃ extra ∈ opts.extraPorts, extra.host = e.2.host) ∨
      65535 < r.portBase + 5 + opts.extraPorts.length)
  clear : ∀ m ∈ machines, m.1 ≠ opts.name → ∀ e ∈ r.ports, ∀ e' ∈ m.2.ports,
    e.2.endpoint = e'.2.endpoint → ¬ IsExplicit r.portBase opts.extraPorts e.2 ∧
      ¬ (InBlock r.portBase e.2 ∧ InBlock m.2.portBase e'.2)

variable {opts : StartOptions} {machines : List (String × Resources)}
  {reserved : List (String × ResourceReservation)} {busy : ℕ → Bool} {rounds : ℕ} {r : Resources}

/-- A granted base is one, and its block meets the block of no other machine. -/
theorem pick_block
    (h : pickNewMachineResources deriveMac opts (snapshot machines reserved) busy rounds =
      .ok (some r)) :
    0 < r.portBase ∧ ∀ m ∈ machines, m.1 ≠ opts.name → overlap r.portBase m.2.portBase = false := by
  obtain ⟨explicit, found, -⟩ := pick_spec h
  by_cases auto : opts.portBase = 0
  · refine ⟨findAvailablePortBlock_pos (found auto), fun m member _ => ?_⟩
    exact findAvailablePortBlock_free (found auto) m.2.portBase
      (List.mem_append_left _ (List.mem_map.mpr ⟨m, member, rfl⟩))
  · obtain ⟨base, free⟩ := explicit auto
    rw [base]
    refine ⟨Nat.pos_of_ne_zero auto, fun m member other => ?_⟩
    rw [overlap_comm]
    exact (assertPortBaseFree_ok free).1 m member other

/-- The requests of a creation are not in each other's way, and no other machine has a forward
where this one is given host ports. -/
structure Undisputed (opts : StartOptions) (machines : List (String × Resources)) (portBase : ℕ) :
    Prop where
  labels : ∀ i j extra later, opts.extraPorts[i]? = some extra → opts.extraPorts[j]? = some later →
    extraName j later = extraName i extra → i = j
  proper : ∀ i extra, opts.extraPorts[i]? = some extra → extraName i extra ≠ "__proto__"
  unnamed : ∀ i extra, opts.extraPorts[i]? = some extra → ∀ e ∈ SERVICE_PORTS,
    e.1 ∉ opts.excludePorts → extraName i extra ≠ e.1
  autos : ∀ m m', IsAuto portBase opts.extraPorts m → IsExplicit portBase opts.extraPorts m' →
    m.endpoint ≠ m'.endpoint
  last : portBase + 5 + opts.extraPorts.length ≤ 65535
  explicit : ∀ extra ∈ opts.extraPorts, extra.host ≤ 65535
  outside : ∀ m ∈ machines, m.1 ≠ opts.name → ∀ e ∈ m.2.ports,
    e.2.host < portBase ∨ portBase + 6 + opts.extraPorts.length ≤ e.2.host

theorem ByLabel.collisionFree (h : ByLabel opts machines r)
    (undisputed : Undisputed opts machines r.portBase) : CollisionFree opts machines r := by
  constructor
  case services =>
      intro name spec member included
      exact h.service name spec member included fun i extra at_ =>
        undisputed.unnamed i extra at_ _ member included
  case extras =>
      intro i extra at_
      refine h.extra i extra at_ (undisputed.proper i extra at_) fun j later after at_' same => ?_
      exact Nat.ne_of_lt after (undisputed.labels i j extra later at_ at_' same)
  case distinct =>
      refine (List.Nodup.of_map _ h.labels).map_on fun e member e' member' same => ?_
      by_contra differ
      rcases h.distinct e member e' member' differ same with ⟨auto, explicit⟩ | ⟨explicit, auto⟩
      · exact undisputed.autos _ _ auto explicit same
      · exact undisputed.autos _ _ auto explicit same.symm
  case range =>
      intro e member
      obtain ⟨positive, small | ⟨extra, asked, same⟩ | beyond⟩ := h.range e member
      · exact ⟨positive, small⟩
      · exact ⟨positive, same ▸ undisputed.explicit extra asked⟩
      · exact absurd beyond (Nat.not_lt.mpr undisputed.last)
  case clear =>
      intro m member other e taken e' taken' same
      have host : e.2.host = e'.2.host := congrArg Prod.fst same
      have outside := undisputed.outside m member other e' taken'
      have unnamed := (h.clear m member other e taken e' taken' same).1
      rcases (h.origin e taken).2.host with ⟨above, below⟩ | explicit
      · omega
      · exact unnamed explicit

def lab : StartOptions where
  name := "lab"
  excludePorts := ["winbox"]
  extraPorts := [{ name := "", host := 0, guest := 8443, proto := .tcp },
    { name := "trap", host := 9162, guest := 162, proto := .udp }]

def edgeSaved : List (String × Resources) := [("edge", ⟨9100, buildPortMappings 9100 [] [], []⟩)]

def share : StartOptions where
  name := "share"
  extraPorts := [{ name := "smb", host := 9145, guest := 445, proto := .tcp },
    { name := "smb", host := 9445, guest := 445, proto := .tcp }]

end Quickchr.Allocation
