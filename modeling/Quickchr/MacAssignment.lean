import Quickchr.NetworkResolution
import Mathlib.Data.List.Perm.Subperm

/-!
# MAC assignment

A machine's NICs get their addresses when it is created. Any of them may carry one already, and the
digest behind an address is a parameter.
-/
namespace Quickchr.MacAssignment

open PortBlocks (freshMac)

def hexOctet (o : UInt8) : String := String.ofList ((Nat.toDigits 16 o.toNat).leftpad 2 '0')

/-- Five octets of the digest after the fixed `02`. -/
def deriveMac (sha256 : String → List UInt8) (name : String) (index salt : ℕ) : String :=
  Text.join ":" ("02" :: ((sha256 s!"{name}\x00{index}\x00{salt}").take 5).map hexOctet)

/-- An empty address counts as none. -/
def hasMac (n : NetworkConfig) : Bool := n.mac.any (· ≠ "")

def existingMacs (networks : List NetworkConfig) : List String :=
  networks.filterMap fun n => n.mac.filter (· ≠ "")

/-- The NICs from `index` on, at most `rounds` salts being tried for each. -/
def assign (derive : ℕ → ℕ → String) (rounds : ℕ) :
    List String → ℕ → List NetworkConfig → Option (List NetworkConfig)
  | _, _, [] => some []
  | used, index, n :: networks =>
      if hasMac n then do
        let rest ← assign derive rounds used (index + 1) networks
        return n :: rest
      else do
        let mac ← freshMac derive used index rounds
        let rest ← assign derive rounds (mac :: used) (index + 1) networks
        return { n with mac := some mac } :: rest

def assignMacs (sha256 : String → List UInt8) (name : String) (rounds : ℕ) (networks : List NetworkConfig)
    (taken : List String) : Option (List NetworkConfig) :=
  assign (deriveMac sha256 name) rounds (taken ++ existingMacs networks) 0 networks

theorem deriveMac_ne_empty (sha256 : String → List UInt8) (name : String) (index salt : ℕ) :
    deriveMac sha256 name index salt ≠ "" := by
  unfold deriveMac
  generalize ((sha256 s!"{name}\x00{index}\x00{salt}").take 5).map hexOctet = octets
  intro empty
  cases octets with
  | nil =>
    rw [Text.join, String.intercalate_singleton] at empty
    exact absurd empty (by decide)
  | cons octet octets =>
    rw [Text.join, String.intercalate_cons_cons] at empty
    simpa using congrArg String.toList empty

variable {derive : ℕ → ℕ → String} {used : List String} {index rounds : ℕ}

theorem freshMac_mono {mac : String} (h : freshMac derive used index rounds = some mac) {more : ℕ}
    (le : rounds ≤ more) : freshMac derive used index more = some mac := by
  obtain ⟨k, rfl⟩ := Nat.exists_eq_add_of_le le
  unfold freshMac at h ⊢
  rw [List.range_add, List.map_append, List.find?_append, h, Option.some_or]

theorem freshMac_new {mac : String} (h : freshMac derive used index rounds = some mac) :
    mac ∉ used ∧ ∃ salt, derive index salt = mac := by
  unfold freshMac at h
  obtain ⟨salt, -, is⟩ := List.mem_map.mp (List.mem_of_find?_eq_some h)
  exact ⟨by simpa using List.find?_some h, salt, is⟩

theorem freshMac_finds {salt : ℕ} (h : derive index salt ∉ used) :
    ∃ mac, freshMac derive used index (salt + 1) = some mac := by
  refine Option.isSome_iff_exists.mp (List.find?_isSome.mpr ⟨derive index salt, ?_, decide_eq_true h⟩)
  exact List.mem_map_of_mem (List.mem_range.mpr (Nat.lt_succ_self salt))

/-- A NIC with an address stays as it is, and one without gets an address. -/
def Becomes (n r : NetworkConfig) : Prop :=
  if hasMac n then r = n else ∃ mac, mac ≠ "" ∧ r = { n with mac := some mac }

/-- The addresses of the NICs that had none. -/
def newMacs (networks result : List NetworkConfig) : List String :=
  (networks.zip result).filterMap fun p => if hasMac p.1 then none else p.2.mac

structure Sound (used : List String) (networks result : List NetworkConfig) : Prop where
  becomes : List.Forall₂ Becomes networks result
  distinct : (newMacs networks result).Nodup
  unused : ∀ mac ∈ newMacs networks result, mac ∉ used

theorem hasMac_of_becomes {n r : NetworkConfig} (h : Becomes n r) : hasMac r = true := by
  unfold Becomes at h
  split at h
  · rename_i has
    rwa [h]
  · obtain ⟨mac, some_, rfl⟩ := h
    exact decide_eq_true some_

/-- Some salt gives an address that is not among any `bound` ones. -/
def Spread (derive : ℕ → ℕ → String) (nics bound : ℕ) : Prop :=
  ∀ i < nics, ∀ avoid : List String, avoid.length ≤ bound → ∃ salt, derive i salt ∉ avoid

def missing (networks : List NetworkConfig) : ℕ := networks.countP fun n => !hasMac n

theorem assign_sound (real : ∀ i salt, derive i salt ≠ "") {networks result : List NetworkConfig}
    (h : assign derive rounds used index networks = some result) : Sound used networks result := by
  induction networks generalizing used index result with
  | nil =>
    cases h
    exact ⟨.nil, List.nodup_nil, nofun⟩
  | cons n networks ih =>
    unfold assign at h
    split at h
    · rename_i has
      obtain ⟨rest, assigned, is⟩ := Option.bind_eq_some_iff.mp h
      obtain rfl := Option.some.inj is
      have sound := ih assigned
      have same : newMacs (n :: networks) (n :: rest) = newMacs networks rest := by
        simp [newMacs, has]
      have kept : Becomes n n := by rw [Becomes, if_pos has]
      exact ⟨.cons kept sound.becomes, same ▸ sound.distinct, same ▸ sound.unused⟩
    · rename_i lacks
      obtain ⟨mac, found, h⟩ := Option.bind_eq_some_iff.mp h
      obtain ⟨rest, assigned, is⟩ := Option.bind_eq_some_iff.mp h
      obtain rfl := Option.some.inj is
      have sound := ih assigned
      obtain ⟨new, salt, derived⟩ := freshMac_new found
      have same : newMacs (n :: networks) ({ n with mac := some mac } :: rest) = mac :: newMacs networks rest := by
        simp [newMacs, lacks]
      refine ⟨.cons ?_ sound.becomes, ?_, ?_⟩
      · rw [Becomes, if_neg lacks]
        exact ⟨mac, derived ▸ real index salt, rfl⟩
      · rw [same]
        exact List.nodup_cons.mpr ⟨fun again => sound.unused mac again List.mem_cons_self, sound.distinct⟩
      · rw [same]
        exact List.forall_mem_cons.mpr ⟨new, fun other member known =>
          sound.unused other member (List.mem_cons_of_mem _ known)⟩

/-- What the assignment comes to does not depend on how many salts are tried. -/
theorem assign_mono {networks result : List NetworkConfig}
    (h : assign derive rounds used index networks = some result) {more : ℕ} (le : rounds ≤ more) :
    assign derive more used index networks = some result := by
  induction networks generalizing used index result with
  | nil => exact h
  | cons n networks ih =>
    unfold assign at h ⊢
    split at h
    · rename_i has
      obtain ⟨rest, assigned, is⟩ := Option.bind_eq_some_iff.mp h
      rw [if_pos has, ih assigned]
      exact is
    · rename_i lacks
      obtain ⟨mac, found, h⟩ := Option.bind_eq_some_iff.mp h
      obtain ⟨rest, assigned, is⟩ := Option.bind_eq_some_iff.mp h
      rw [if_neg lacks, freshMac_mono found le]
      simp only [Option.bind_eq_bind, Option.bind_some, ih assigned]
      exact is

/-- With enough rounds the assignment ends, and more of them change nothing. -/
theorem assign_ends {nics bound : ℕ} (spread : Spread derive nics bound) {networks : List NetworkConfig}
    (few : used.length + missing networks ≤ bound) (last : index + networks.length ≤ nics) :
    ∃ enough result, ∀ rounds, enough ≤ rounds → assign derive rounds used index networks = some result := by
  induction networks generalizing used index with
  | nil => exact ⟨0, [], fun _ _ => rfl⟩
  | cons n networks ih =>
    rw [List.length_cons] at last
    by_cases has : hasMac n = true
    · have same : missing (n :: networks) = missing networks := List.countP_cons_of_neg (by simp [has])
      rw [same] at few
      obtain ⟨enough, result, ends⟩ := @ih used (index + 1) few (by omega)
      refine ⟨enough, n :: result, fun rounds le => ?_⟩
      rw [assign, if_pos has, ends rounds le]
      rfl
    · have more : missing (n :: networks) = missing networks + 1 := List.countP_cons_of_pos (by simp [has])
      rw [more] at few
      obtain ⟨salt, new⟩ := spread index (by omega) used (by omega)
      obtain ⟨mac, found⟩ := freshMac_finds new
      obtain ⟨enough, result, ends⟩ := @ih (mac :: used) (index + 1) (by rw [List.length_cons]; omega) (by omega)
      refine ⟨max (salt + 1) enough, { n with mac := some mac } :: result, fun rounds le => ?_⟩
      rw [assign, if_neg has, freshMac_mono found (le_trans (le_max_left _ _) le)]
      simp only [Option.bind_eq_bind, Option.bind_some, ends rounds (le_trans (le_max_right _ _) le)]
      rfl

theorem assign_of_complete {networks : List NetworkConfig} (complete : ∀ n ∈ networks, hasMac n = true) :
    assign derive rounds used index networks = some networks := by
  induction networks generalizing index with
  | nil => rfl
  | cons n networks ih =>
    obtain ⟨has, rest⟩ := List.forall_mem_cons.mp complete
    rw [assign, if_pos has, ih rest]
    rfl

/-- Where no NIC has an address these are the addresses that a creation assigns. -/
theorem assign_bare {networks : List NetworkConfig} (bare : ∀ n ∈ networks, hasMac n = false) :
    assign derive rounds used index networks =
      (PortBlocks.assignMacs derive rounds used index networks.length).map
        (networks.zipWith fun n mac => { n with mac := some mac }) := by
  induction networks generalizing used index with
  | nil => rfl
  | cons n networks ih =>
    obtain ⟨lacks, rest⟩ := List.forall_mem_cons.mp bare
    rw [assign, if_neg (Bool.eq_false_iff.mp lacks), List.length_cons, PortBlocks.assignMacs]
    cases found : freshMac derive used index rounds with
    | none => rfl
    | some mac =>
      simp only [Option.bind_eq_bind, Option.bind_some, ih rest]
      cases PortBlocks.assignMacs derive rounds (mac :: used) (index + 1) networks.length <;> rfl

theorem existing_add_missing (networks : List NetworkConfig) :
    (existingMacs networks).length + missing networks = networks.length := by
  have existing : (existingMacs networks).length = networks.countP hasMac := by
    simp only [existingMacs, List.length_filterMap_eq_countP, Option.isSome_filter]
    rfl
  rw [existing, missing, List.length_eq_countP_add_countP hasMac]
  simp

theorem complete_of_becomes {networks result : List NetworkConfig} (h : List.Forall₂ Becomes networks result) :
    ∀ r ∈ result, hasMac r = true := by
  induction h with
  | nil => exact nofun
  | cons becomes _ ih => exact List.forall_mem_cons.mpr ⟨hasMac_of_becomes becomes, ih⟩

/-- What assigning the addresses of a new machine guarantees. -/
structure Assigned (taken : List String) (networks result : List NetworkConfig) : Prop where
  becomes : List.Forall₂ Becomes networks result
  complete : ∀ r ∈ result, hasMac r = true
  distinct : (newMacs networks result).Nodup
  outside : ∀ mac ∈ newMacs networks result, mac ∉ taken ∧ mac ∉ existingMacs networks

theorem assignMacs_assigned {sha256 : String → List UInt8} {name : String} {rounds : ℕ}
    {networks result : List NetworkConfig} {taken : List String}
    (h : assignMacs sha256 name rounds networks taken = some result) : Assigned taken networks result := by
  have sound := assign_sound (deriveMac_ne_empty sha256 name) h
  exact ⟨sound.becomes, complete_of_becomes sound.becomes, sound.distinct, fun mac member =>
    not_or.mp fun known => sound.unused mac member (List.mem_append.mpr known)⟩

/-- The assignment ends, every NIC has an address of its own, and a second assignment changes nothing. -/
theorem assignMacs_injective_stable (sha256 : String → List UInt8) (name : String)
    (networks : List NetworkConfig) (taken : List String)
    (spread : Spread (deriveMac sha256 name) networks.length (taken.length + networks.length)) :
    ∃ enough result, (∀ rounds, enough ≤ rounds → assignMacs sha256 name rounds networks taken = some result) ∧
      (∀ rounds r, assignMacs sha256 name rounds networks taken = some r → r = result) ∧
      Assigned taken networks result ∧
      ∀ rounds taken', assignMacs sha256 name rounds result taken' = some result := by
  have few : (taken ++ existingMacs networks).length + missing networks ≤ taken.length + networks.length := by
    rw [List.length_append, Nat.add_assoc, existing_add_missing]
  obtain ⟨enough, result, ends⟩ := assign_ends spread few (Nat.zero_add _).le
  have assigned := assignMacs_assigned (ends enough le_rfl)
  refine ⟨enough, result, ends, fun rounds r is => ?_, assigned, fun rounds taken' =>
    assign_of_complete assigned.complete⟩
  have later := assign_mono is (le_max_right enough rounds)
  exact Option.some.inj (later.symm.trans (ends _ (le_max_left enough rounds)))

theorem spread_of_nodup {derive : ℕ → ℕ → String} {nics bound : ℕ}
    (nodup : ∀ i < nics, ((List.range (bound + 1)).map (derive i)).Nodup) : Spread derive nics bound := by
  intro i lt avoid few
  by_contra all
  have inside : (List.range (bound + 1)).map (derive i) ⊆ avoid := by
    intro mac member
    obtain ⟨salt, -, rfl⟩ := List.mem_map.mp member
    exact not_not.mp fun outside => all ⟨salt, outside⟩
  have fits := (List.subperm_of_subset (nodup i lt) inside).length_le
  rw [List.length_map, List.length_range] at fits
  omega

/-- The digests of a machine's first salts, by their first octets. -/
def sunDigest (text : String) : List UInt8 :=
  (Record.get
    [("sun\x000\x000", [0xe1, 0x3a, 0x85, 0xb5, 0xa9]), ("sun\x000\x001", [0xa0, 0xaa, 0x60, 0xc8, 0xf9]),
      ("sun\x000\x002", [0xc2, 0x83, 0xb7, 0x83, 0xda]), ("sun\x000\x003", [0x4c, 0x4a, 0x7b, 0x62, 0x1a]),
      ("sun\x001\x000", [0x4b, 0x1f, 0x1e, 0x8f, 0x53]), ("sun\x001\x001", [0xcb, 0x47, 0xc5, 0x7a, 0xb2]),
      ("sun\x001\x002", [0x0e, 0x42, 0x39, 0x21, 0xcd]), ("sun\x001\x003", [0xe3, 0x67, 0x67, 0xa7, 0xc0])]
    text).getD []

def sunNics : List NetworkConfig :=
  [{ specifier := .user, id := "net0" }, { specifier := .shared, id := "net1", mac := some "02:aa:bb:cc:dd:ee" }]

theorem assignMacs_sun :
    ∃ enough result, (∀ rounds, enough ≤ rounds →
        assignMacs sunDigest "sun" rounds sunNics ["02:e1:3a:85:b5:a9"] = some result) ∧
      (∀ rounds r, assignMacs sunDigest "sun" rounds sunNics ["02:e1:3a:85:b5:a9"] = some r → r = result) ∧
      Assigned ["02:e1:3a:85:b5:a9"] sunNics result ∧
      ∀ rounds taken', assignMacs sunDigest "sun" rounds result taken' = some result :=
  assignMacs_injective_stable sunDigest "sun" sunNics ["02:e1:3a:85:b5:a9"]
    (spread_of_nodup (by decide +kernel))

end Quickchr.MacAssignment
