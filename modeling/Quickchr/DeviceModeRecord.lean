import Quickchr.ProvisioningWindow

/-!
# The device-mode record

An update moves only the settings it names, so the record of what was applied is folded together
from the updates. It is stored as options and is resolved again by each reader.
-/
namespace Quickchr.DeviceModeRecord

open DeviceMode ProvisioningWindow

/-- The record after these updates, one after another. -/
def recorded (requests : List DeviceModeOptions) : Option DeviceModeOptions :=
  requests.foldl (fun current o =>
    some (mergeDeviceModeOptions current (resolveDeviceModeOptions (some o)))) none

/-- What the last of the requests that name the setting says about it. -/
def lastNamed (requests : List DeviceModeOptions) (s : String) : Option String :=
  requests.reverse.findSome? fun o => (deviceModeSelection (some o)).get s

/-- A request that is applied, with a mode that is not blank, and without a feature named `mode` or
`__proto__`. -/
structure Plain (o : DeviceModeOptions) : Prop where
  applied : (resolveDeviceModeOptions (some o)).skip = false
  filled : ∀ mode, o.mode = some mode → Text.trim mode ≠ ""
  features : ∀ f, f ∈ normalizeFeatureList o.enable ∨ f ∈ normalizeFeatureList o.disable →
    f ≠ "mode" ∧ f ≠ "__proto__"

/-- Options that are applied with a mode, and with `mode` as no feature. -/
structure Clean (o : DeviceModeOptions) : Prop where
  applied : (resolveDeviceModeOptions (some o)).skip = false
  moded : ∃ mode, (resolveDeviceModeOptions (some o)).truthyMode = some mode
  apart : feature o "mode" = none

theorem feature_eq_some {o : DeviceModeOptions} {f : String} {value : DeviceModeBool}
    (h : feature o f = some value) :
    f ∈ normalizeFeatureList o.enable ∨ f ∈ normalizeFeatureList o.disable := by
  unfold feature at h
  split at h
  · cases h
  · split at h
    · rename_i off; exact .inr off
    · split at h
      · rename_i on; exact .inl on
      · cases h

theorem norm_eq_empty {value : String} : norm value = "" ↔ Text.trim value = "" := by
  rw [DeviceMode.norm, Text.toLowerCase, ← String.toList_inj, ← String.toList_inj, String.toList_ofList]
  exact List.map_eq_nil_iff

theorem Plain.clean {o : DeviceModeOptions} (h : Plain o) : Clean o := by
  refine ⟨h.applied, ?_, ?_⟩
  · obtain ⟨mode, is, settled⟩ := resolve_run h.applied
    refine ⟨mode, ?_⟩
    rw [ResolvedDeviceModeOptions.truthyMode, is, Option.filter_eq_some_iff]
    refine ⟨rfl, decide_eq_true ?_⟩
    rintro rfl
    have applied := h.applied
    unfold resolveDeviceModeOptions at is applied
    dsimp only at is applied
    split at is
    · rename_i skipped
      rw [if_pos skipped] at applied
      cases applied
    · have empty := Option.some.inj is
      unfold resolveMode at empty
      split at empty
      · exact absurd empty (by decide)
      · split at empty
        · exact absurd empty (by decide)
        · rw [norm_eq_empty] at empty
          cases given : o.mode with
          | none => rw [given] at empty; exact absurd empty (by decide)
          | some mode => rw [given] at empty; exact h.filled mode given empty
  · cases named : feature o "mode" with
    | none => rfl
    | some value => exact absurd rfl (h.features "mode" (feature_eq_some named)).1

theorem Clean.selection {o : DeviceModeOptions} (h : Clean o) :
    deviceModeSelection (some o) = payload (resolveDeviceModeOptions (some o)) := by
  obtain ⟨mode, is⟩ := h.moded
  have apply : shouldApplyDeviceMode (resolveDeviceModeOptions (some o)) = true := by
    simp only [shouldApplyDeviceMode, h.applied, is, Bool.not_false, Option.isSome_some, Bool.true_or,
      Bool.and_true]
  unfold deviceModeSelection
  exact if_pos apply

theorem Clean.get {o : DeviceModeOptions} (h : Clean o) (s : String) :
    (deviceModeSelection (some o)).get s =
      if s = "mode" then (resolveDeviceModeOptions (some o)).truthyMode
      else (feature o s).map DeviceModeBool.text := by
  rw [h.selection, get_payload h.applied, setting]
  split
  · rename_i mode
    rw [mode, h.apart, Option.map_none, Option.none_or]
  · rw [Option.or_none]

theorem recorded_append (requests : List DeviceModeOptions) (o : DeviceModeOptions) :
    recorded (requests ++ [o]) =
      some (mergeDeviceModeOptions (recorded requests) (resolveDeviceModeOptions (some o))) := by
  rw [recorded, List.foldl_append]
  rfl

theorem lastNamed_append (requests : List DeviceModeOptions) (o : DeviceModeOptions) (s : String) :
    lastNamed (requests ++ [o]) s =
      ((deviceModeSelection (some o)).get s).or (lastNamed requests s) := by
  rw [lastNamed, List.reverse_append, List.reverse_singleton, List.singleton_append,
    List.findSome?_cons]
  cases (deviceModeSelection (some o)).get s <;> rfl

theorem truthyMode_merge (current : Option DeviceModeOptions) {o : DeviceModeOptions}
    (applied : (resolveDeviceModeOptions (some o)).skip = false) :
    (resolveDeviceModeOptions
      (some (mergeDeviceModeOptions current (resolveDeviceModeOptions (some o))))).truthyMode =
      (resolveDeviceModeOptions (some o)).truthyMode := by
  rw [ResolvedDeviceModeOptions.truthyMode, (resolve_merge current applied).2,
    ResolvedDeviceModeOptions.truthyMode]

theorem Clean.merge {o : DeviceModeOptions} (h : Clean o) {current : Option DeviceModeOptions}
    (before : ∀ c, current = some c → Clean c) :
    Clean (mergeDeviceModeOptions current (resolveDeviceModeOptions (some o))) := by
  refine ⟨(resolve_merge current h.applied).1, ?_, ?_⟩
  · rw [truthyMode_merge current h.applied]
    exact h.moded
  · rw [feature_merge current h.applied, h.apart, Option.none_or]
    cases current with
    | none => rfl
    | some c => exact (before c rfl).apart

/-- What the record is after any updates. -/
structure Agrees (requests : List DeviceModeOptions) : Prop where
  clean : ∀ c, recorded requests = some c → Clean c
  values : ∀ s, (deviceModeSelection (recorded requests)).get s = lastNamed requests s

theorem Agrees.append {requests : List DeviceModeOptions} {o : DeviceModeOptions}
    (h : Agrees requests) (clean : Clean o) : Agrees (requests ++ [o]) := by
  have merged := clean.merge h.clean
  refine ⟨fun c is => ?_, fun s => ?_⟩
  · rw [recorded_append] at is
    exact Option.some.inj is ▸ merged
  · rw [recorded_append, lastNamed_append, merged.get, clean.get, ← h.values]
    by_cases mode : s = "mode"
    · rw [if_pos mode, if_pos mode, truthyMode_merge _ clean.applied]
      obtain ⟨value, is⟩ := clean.moded
      rw [is, Option.some_or]
    · rw [if_neg mode, if_neg mode, feature_merge _ clean.applied]
      cases before : recorded requests with
      | none =>
          rw [Option.bind_none, Option.or_none]
          change _ = Option.or _ none
          rw [Option.or_none]
      | some c =>
          rw [(h.clean c before).get, if_neg mode, Option.bind_some]
          cases feature o s <;> rfl

theorem agrees_of_plain {requests : List DeviceModeOptions} (plain : ∀ o ∈ requests, Plain o) :
    Agrees requests := by
  induction requests using List.reverseRecOn with
  | nil => exact ⟨fun c is => (by cases is), fun s => rfl⟩
  | append_singleton requests o ih =>
      have before := ih fun o' member => plain o' (List.mem_append_left _ member)
      exact before.append (plain o (List.mem_append_right _ List.mem_cons_self)).clean

theorem nodup_payload {options : ResolvedDeviceModeOptions} :
    ((payload options).map Prod.fst).Nodup := by
  refine Record.nodup_assign _ _ ?_
  cases options.truthyMode with
  | none => exact List.nodup_nil
  | some mode => exact List.nodup_singleton "mode"

/-- The record carries what the request names, setting by setting. -/
theorem Clean.satisfied_iff {later : DeviceModeOptions} (h : Clean later) {applied : Record String} :
    deviceModeSatisfiedBy applied (deviceModeSelection (some later)) = true ↔
      ∀ s v, (deviceModeSelection (some later)).get s = some v → applied.get s = some v := by
  have some_ : deviceModeSelection (some later) ≠ [] := by
    obtain ⟨mode, is⟩ := h.moded
    intro empty
    have named := h.get "mode"
    rw [empty, if_pos rfl, is] at named
    cases named
  rw [deviceModeSatisfiedBy, Bool.and_eq_true, List.all_eq_true]
  constructor
  · rintro ⟨-, all⟩ s v named
    exact of_decide_eq_true (all (s, v) (Record.mem_of_get named))
  · intro named
    refine ⟨decide_eq_true some_, fun e member => decide_eq_true (named e.1 e.2 ?_)⟩
    rw [h.selection] at member ⊢
    exact Record.get_of_mem nodup_payload member

theorem sorted_congr {l m : List String} (nodup : l.Nodup) (nodup' : m.Nodup)
    (same : ∀ f, f ∈ l ↔ f ∈ m) : sorted l = sorted m := by
  have perm : l.Perm m := (List.perm_ext_iff_of_nodup nodup nodup').mpr same
  have order : l.insertionSort Text.Before = m.insertionSort Text.Before :=
    List.Perm.eq_of_pairwise' (List.pairwise_insertionSort _ l) (List.pairwise_insertionSort _ m)
      ((List.perm_insertionSort _ l).trans (perm.trans (List.perm_insertionSort _ m).symm))
  unfold sorted
  rw [order]
  by_cases empty : l = []
  · rw [if_pos empty, if_pos (List.perm_nil.mp (empty ▸ perm.symm))]
  · rw [if_neg empty, if_neg fun none_ : m = [] => empty (List.perm_nil.mp (none_ ▸ perm))]

theorem nodup_eraseDups (l : List String) : l.eraseDups.Nodup := by
  induction length : l.length using Nat.strongRecOn generalizing l with
  | ind n ih =>
      cases l with
      | nil => exact List.nodup_nil
      | cons a l =>
          rw [List.eraseDups_cons, List.nodup_cons, List.mem_eraseDups, List.mem_filter]
          have shorter : (l.filter fun b => !b == a).length < n := by
            rw [← length]
            exact Nat.lt_succ_of_le (List.length_filter_le _ l)
          refine ⟨fun both => ?_, ih _ shorter _ rfl⟩
          simp only [beq_self_eq_true, Bool.not_true, Bool.false_eq_true, and_false] at both

theorem nodup_normalizeFeatureList (list : Option (List String)) : (normalizeFeatureList list).Nodup := by
  rw [normalizeFeatureList]
  exact nodup_eraseDups _

theorem nodup_moveFeature {sides : List String × List String} (e : String × DeviceModeBool)
    (h : sides.1.Nodup ∧ sides.2.Nodup) : (moveFeature sides e).1.Nodup ∧ (moveFeature sides e).2.Nodup := by
  have added : ∀ {side : List String}, side.Nodup → (side.filter (· ≠ e.1) ++ [e.1]).Nodup := by
    intro side nodup
    refine (nodup.filter _).append (List.nodup_singleton _) ?_
    rw [List.disjoint_singleton, List.mem_filter]
    exact fun both => of_decide_eq_true both.2 rfl
  unfold moveFeature
  cases e.2 with
  | yes => exact ⟨added h.1, h.2.filter _⟩
  | no => exact ⟨h.1.filter _, added h.2⟩

theorem nodup_foldl_moveFeature (features : Record DeviceModeBool) {sides : List String × List String}
    (h : sides.1.Nodup ∧ sides.2.Nodup) :
    (features.foldl moveFeature sides).1.Nodup ∧ (features.foldl moveFeature sides).2.Nodup := by
  induction features generalizing sides with
  | nil => exact h
  | cons e features ih => exact ih (nodup_moveFeature e h)

/-- Options the way the folding writes them. -/
structure Canonical (c : DeviceModeOptions) : Prop where
  mode : ∃ mode, c.mode = some mode ∧ Settled mode
  enable : c.enable = sorted (normalizeFeatureList c.enable)
  disable : c.disable = sorted (normalizeFeatureList c.disable)
  apart : ∀ f ∈ normalizeFeatureList c.enable, f ∉ normalizeFeatureList c.disable

theorem feature_iff {c : DeviceModeOptions} (apart : ∀ f ∈ normalizeFeatureList c.enable,
    f ∉ normalizeFeatureList c.disable) {f : String} (plain : f ≠ "__proto__") :
    (feature c f = some .yes ↔ f ∈ normalizeFeatureList c.enable) ∧
      (feature c f = some .no ↔ f ∈ normalizeFeatureList c.disable) := by
  unfold feature
  rw [if_neg plain]
  by_cases off : f ∈ normalizeFeatureList c.disable
  · have on : f ∉ normalizeFeatureList c.enable := fun on => apart f on off
    simp only [off, on, if_true, reduceCtorEq, and_self, Option.some.injEq]
  · by_cases on : f ∈ normalizeFeatureList c.enable
    · simp only [off, on, if_true, if_false, Option.some.injEq, reduceCtorEq, and_self]
    · simp only [off, on, if_false, reduceCtorEq, and_self]

/-- The two sides that an update leaves. -/
structure Sides (current : Option DeviceModeOptions) (o : DeviceModeOptions)
    (enable disable : List String) : Prop where
  nodup : enable.Nodup ∧ disable.Nodup
  normalized : ∀ f, f ∈ enable ∨ f ∈ disable → Normalized f
  mem_enable : ∀ f, f ∈ enable ↔ feature o f = some .yes ∨
    feature o f = none ∧ f ∈ normalizeFeatureList (current.bind (·.enable))
  mem_disable : ∀ f, f ∈ disable ↔ feature o f = some .no ∨
    feature o f = none ∧ f ∈ normalizeFeatureList (current.bind (·.disable))

theorem merge_eq (current : Option DeviceModeOptions) {o : DeviceModeOptions}
    (applied : (resolveDeviceModeOptions (some o)).skip = false) :
    ∃ enable disable, Sides current o enable disable ∧
      mergeDeviceModeOptions current (resolveDeviceModeOptions (some o)) =
        { mode := (resolveDeviceModeOptions (some o)).mode
          enable := sorted enable
          disable := sorted disable } := by
  obtain ⟨mode, is, -⟩ := resolve_run applied
  have nodup := @nodup_foldl_moveFeature (resolveDeviceModeOptions (some o)).features
    (normalizeFeatureList (current.bind (·.enable)), normalizeFeatureList (current.bind (·.disable)))
    ⟨nodup_normalizeFeatureList _, nodup_normalizeFeatureList _⟩
  have sides := mem_foldl_moveFeature (nodup_features (some o))
    (normalizeFeatureList (current.bind (·.enable)), normalizeFeatureList (current.bind (·.disable)))
  simp only [get_features applied] at sides
  unfold mergeDeviceModeOptions
  rw [applied, if_neg Bool.false_ne_true, is, Option.some_or]
  refine ⟨_, _, ⟨nodup, ?_, fun f => (sides f).1, fun f => (sides f).2⟩, rfl⟩
  rintro f (on | off)
  · rcases (sides f).1.mp on with named | ⟨-, old⟩
    · exact normalized_of_feature named
    · exact normalized_of_mem old
  · rcases (sides f).2.mp off with named | ⟨-, old⟩
    · exact normalized_of_feature named
    · exact normalized_of_mem old

theorem Sides.apart {current : Option DeviceModeOptions} {o : DeviceModeOptions}
    {enable disable : List String} (h : Sides current o enable disable)
    (before : ∀ c, current = some c → Canonical c) : ∀ f ∈ enable, f ∉ disable := by
  intro f on off
  rcases (h.mem_enable f).mp on with yes | ⟨none_, on⟩
  · rcases (h.mem_disable f).mp off with no | ⟨none_, -⟩
    · cases yes.symm.trans no
    · cases yes.symm.trans none_
  · rcases (h.mem_disable f).mp off with no | ⟨-, off⟩
    · cases none_.symm.trans no
    · cases current with
      | none => cases on
      | some c => exact (before c rfl).apart f on off

theorem sorted_again {list : List String} (nodup : list.Nodup) (normalized : ∀ f ∈ list, Normalized f) :
    sorted list = sorted (normalizeFeatureList (sorted list)) :=
  sorted_congr nodup (nodup_normalizeFeatureList _) fun _ => (mem_sorted normalized).symm

theorem Canonical.merge {current : Option DeviceModeOptions} {o : DeviceModeOptions}
    (before : ∀ c, current = some c → Canonical c)
    (applied : (resolveDeviceModeOptions (some o)).skip = false) :
    Canonical (mergeDeviceModeOptions current (resolveDeviceModeOptions (some o))) := by
  obtain ⟨mode, is, settled⟩ := resolve_run applied
  obtain ⟨enable, disable, sides, eq⟩ := merge_eq current applied
  have on : ∀ f ∈ enable, Normalized f := fun f member => sides.normalized f (.inl member)
  have off : ∀ f ∈ disable, Normalized f := fun f member => sides.normalized f (.inr member)
  rw [eq]
  constructor <;> dsimp only
  case mode => exact ⟨mode, is, settled⟩
  case enable => exact sorted_again sides.nodup.1 on
  case disable => exact sorted_again sides.nodup.2 off
  case apart =>
    intro f member
    rw [mem_sorted on] at member
    rw [mem_sorted off]
    exact sides.apart before f member

theorem DeviceModeBool.text_injective {a b : DeviceModeBool} (h : a.text = b.text) : a = b := by
  cases a <;> cases b <;> first | rfl | exact absurd h (by decide)

theorem not_proto {o : DeviceModeOptions} {f : String} {value : DeviceModeBool}
    (h : feature o f = some value) : f ≠ "__proto__" := by
  rintro rfl
  rw [feature, if_pos rfl] at h
  cases h

/-- An update whose settings the record has already leaves it as it is. -/
theorem Canonical.merge_of_satisfied {c o : DeviceModeOptions} (h : Canonical c) (clean : Clean c)
    (request : Clean o)
    (satisfied : ∀ s v, (deviceModeSelection (some o)).get s = some v →
      (deviceModeSelection (some c)).get s = some v) :
    mergeDeviceModeOptions (some c) (resolveDeviceModeOptions (some o)) = c := by
  have carried : ∀ f value, feature o f = some value → feature c f = some value := by
    intro f value named
    have other : f ≠ "mode" := by
      rintro rfl
      cases request.apart.symm.trans named
    have has := satisfied f value.text (by rw [request.get, if_neg other, named, Option.map_some])
    rw [clean.get, if_neg other] at has
    obtain ⟨value', is, same⟩ := Option.map_eq_some_iff.mp has
    exact DeviceModeBool.text_injective same ▸ is
  have moded : (resolveDeviceModeOptions (some o)).mode = c.mode := by
    obtain ⟨mode, is⟩ := request.moded
    have has := satisfied "mode" mode (by rw [request.get, if_pos rfl, is])
    rw [clean.get, if_pos rfl] at has
    obtain ⟨written, is', settled⟩ := h.mode
    have named := (Option.filter_eq_some_iff.mp is).1
    have kept := (Option.filter_eq_some_iff.mp has).1
    rw [named, is', ← (resolve_settled is' settled).2, kept]
  obtain ⟨enable, disable, sides, eq⟩ := merge_eq (some c) request.applied
  have on : ∀ f, f ∈ enable ↔ f ∈ normalizeFeatureList c.enable := by
    intro f
    rw [sides.mem_enable, Option.bind_some]
    constructor
    · rintro (yes | ⟨-, old⟩)
      · exact (feature_iff h.apart (not_proto yes)).1.mp (carried f .yes yes)
      · exact old
    · intro old
      cases named : feature o f with
      | none => exact .inr ⟨rfl, old⟩
      | some value =>
          cases value with
          | yes => exact .inl rfl
          | no =>
              have off := (feature_iff h.apart (not_proto named)).2.mp (carried f .no named)
              exact absurd off (h.apart f old)
  have off : ∀ f, f ∈ disable ↔ f ∈ normalizeFeatureList c.disable := by
    intro f
    rw [sides.mem_disable, Option.bind_some]
    constructor
    · rintro (no | ⟨-, old⟩)
      · exact (feature_iff h.apart (not_proto no)).2.mp (carried f .no no)
      · exact old
    · intro old
      cases named : feature o f with
      | none => exact .inr ⟨rfl, old⟩
      | some value =>
          cases value with
          | no => exact .inl rfl
          | yes =>
              have on := (feature_iff h.apart (not_proto named)).1.mp (carried f .yes named)
              exact absurd old (h.apart f on)
  rw [eq, moded, sorted_congr sides.nodup.1 (nodup_normalizeFeatureList _) on,
    sorted_congr sides.nodup.2 (nodup_normalizeFeatureList _) off, ← h.enable, ← h.disable]

theorem canonical_of_plain {requests : List DeviceModeOptions} (plain : ∀ o ∈ requests, Plain o) :
    ∀ c, recorded requests = some c → Canonical c := by
  induction requests using List.reverseRecOn with
  | nil => intro c is; cases is
  | append_singleton requests o ih =>
      intro c is
      have before := ih fun o' member => plain o' (List.mem_append_left _ member)
      rw [recorded_append] at is
      rw [← Option.some.inj is]
      exact Canonical.merge before (plain o (List.mem_append_right _ List.mem_cons_self)).applied

theorem recorded_of_satisfied {requests : List DeviceModeOptions} (plain : ∀ o ∈ requests, Plain o)
    {later : DeviceModeOptions} (request : Plain later)
    (satisfied : deviceModeSatisfiedBy (deviceModeSelection (recorded requests))
      (deviceModeSelection (some later)) = true) :
    recorded (requests ++ [later]) = recorded requests := by
  have named := (request.clean.satisfied_iff).mp satisfied
  rw [recorded_append]
  cases is : recorded requests with
  | none =>
      obtain ⟨mode, moded⟩ := request.clean.moded
      have selected := request.clean.get "mode"
      rw [if_pos rfl, moded] at selected
      have none_ := named "mode" mode selected
      rw [is] at none_
      cases none_
  | some c =>
      rw [is] at named
      exact congrArg some ((canonical_of_plain plain c is).merge_of_satisfied
        ((agrees_of_plain plain).clean c is) request.clean named)

/-- The record of any updates, folded together and resolved again: it says of each setting what the
last of them that names it has said, and says nothing of any other; a later request is satisfied by
it if and only if it names nothing but these values, and then leaves it as it is, so that an update
that is applied twice in a row is applied once. -/
theorem record_last_write_wins {requests : List DeviceModeOptions} (plain : ∀ o ∈ requests, Plain o) :
    (∀ s, (deviceModeSelection (recorded requests)).get s = lastNamed requests s) ∧
    (∀ later, Plain later →
      ((deviceModeSatisfiedBy (deviceModeSelection (recorded requests))
          (deviceModeSelection (some later)) = true ↔
        ∀ s v, (deviceModeSelection (some later)).get s = some v → lastNamed requests s = some v) ∧
      (deviceModeSatisfiedBy (deviceModeSelection (recorded requests))
          (deviceModeSelection (some later)) = true →
        recorded (requests ++ [later]) = recorded requests))) ∧
    ∀ o, Plain o → recorded (requests ++ [o] ++ [o]) = recorded (requests ++ [o]) := by
  have values := (agrees_of_plain plain).values
  refine ⟨values, fun later request => ⟨?_, recorded_of_satisfied plain request⟩, fun o request => ?_⟩
  · rw [request.clean.satisfied_iff]
    simp only [values]
  · have again : ∀ o' ∈ requests ++ [o], Plain o' := by
      intro o' member
      rcases List.mem_append.mp member with before | last
      · exact plain o' before
      · exact List.mem_singleton.mp last ▸ request
    refine recorded_of_satisfied again request ((request.clean.satisfied_iff).mpr ?_)
    intro s v named
    rw [(agrees_of_plain again).values, lastNamed_append, named, Option.some_or]

def legacy : DeviceModeOptions := { mode := some "Enterprise", enable := some ["container, ipsec"] }

def contradictory : DeviceModeOptions := { enable := some ["ipsec"], disable := some ["IPSEC"] }

/-- A legacy mode with a list in one text, and then an update that turns a feature on and off. -/
theorem record_last_write_wins_contradictory :
    (deviceModeSelection (recorded [legacy, contradictory])).get "ipsec" = some "no" ∧
      recorded ([legacy] ++ [contradictory] ++ [contradictory]) =
        recorded ([legacy] ++ [contradictory]) := by
  have first : Plain legacy := by
    refine ⟨by decide +kernel, ?_, ?_⟩
    · rintro _ ⟨⟩
      decide +kernel
    · rw [show normalizeFeatureList legacy.enable = ["container", "ipsec"] by decide +kernel,
        show normalizeFeatureList legacy.disable = [] by decide +kernel]
      rintro f (on | off)
      · rcases List.mem_pair.mp on with rfl | rfl <;> decide
      · cases off
  have second : Plain contradictory := by
    refine ⟨by decide +kernel, ?_, ?_⟩
    · rintro _ ⟨⟩
    · rw [show normalizeFeatureList contradictory.enable = ["ipsec"] by decide +kernel,
        show normalizeFeatureList contradictory.disable = ["ipsec"] by decide +kernel]
      rintro f (on | off)
      · cases List.mem_singleton.mp on; decide
      · cases List.mem_singleton.mp off; decide
  have both : ∀ o ∈ [legacy, contradictory], Plain o := by
    intro o member
    rcases List.mem_pair.mp member with rfl | rfl
    · exact first
    · exact second
  have wins := record_last_write_wins both
  have repeated := @record_last_write_wins [legacy] fun o member =>
    List.mem_singleton.mp member ▸ first
  refine ⟨(wins.1 "ipsec").trans ?_, repeated.2.2 contradictory second⟩
  decide +kernel

end Quickchr.DeviceModeRecord
