import Quickchr.Lib.Text
import Quickchr.Lib.Record
import Mathlib.Data.List.Sort

/-!
# Device-mode options

What a request for `/system/device-mode` resolves to, and the record of what was applied.
Both are read setting by setting: `mode`, and one `yes` or `no` for each feature.
-/
namespace Quickchr

structure DeviceModeOptions where
  mode : Option String := none
  enable : Option (List String) := none
  disable : Option (List String) := none
  deriving DecidableEq, Repr

inductive DeviceModeBool
  | yes | no
  deriving DecidableEq, Repr

def DeviceModeBool.text : DeviceModeBool → String
  | .yes => "yes"
  | .no => "no"

structure ResolvedDeviceModeOptions where
  skip : Bool
  mode : Option String := none
  features : Record DeviceModeBool := []
  warnings : List String := []
  deriving DecidableEq, Repr

def ResolvedDeviceModeOptions.truthyMode (options : ResolvedDeviceModeOptions) : Option String :=
  options.mode.filter (· ≠ "")

namespace Names

/-- The characters a shell takes as they are. -/
def isPlain (c : Char) : Bool := c.isAlphanum || c ∈ "._:=@,+/-".toList

def shellQuote (value : String) : String :=
  if value ≠ "" ∧ value.toList.all isPlain then value
  else
    let quote := '\x27'
    let body := value.toList.flatMap fun c => if c = quote then [quote, '\\', quote, quote] else [c]
    String.ofList (quote :: body ++ [quote])

end Names

namespace DeviceMode

def KNOWN_DEVICE_MODES : List String := ["home", "advanced", "basic", "rose"]

def KNOWN_DEVICE_MODE_FEATURES : List String :=
  ["scheduler", "socks", "fetch", "pptp", "l2tp", "bandwidth-test", "traffic-gen", "sniffer",
    "ipsec", "romon", "proxy", "hotspot", "smb", "email", "zerotier", "container",
    "install-any-version", "partitions", "routerboard"]

def SKIP_VALUES : List String := ["skip", "none", "off", "disabled"]

def norm (value : String) : String := Text.toLowerCase (Text.trim value)

def normalizeFeatureList (list : Option (List String)) : List String :=
  ((((list.getD []).flatMap (Text.split · ',')).map norm).filter (· ≠ "")).eraseDups

def resolveMode (requestedMode : String) : String :=
  if requestedMode = "enterprise" then "advanced"
  else if requestedMode = "auto" then "rose"
  else requestedMode

/-- Assigning `__proto__` on a plain object adds no key. -/
def assignFeatures (enable disable : List String) : Record DeviceModeBool :=
  Record.assign []
    ((enable.map (·, DeviceModeBool.yes) ++ disable.map (·, DeviceModeBool.no)).filter
      fun e => e.1 ≠ "__proto__")

def unknownFeature (list : String) (feature : String) : Option String :=
  if feature ∈ KNOWN_DEVICE_MODE_FEATURES then none
  else some s!"unknown device-mode feature '{feature}' in {list} list (allowed; RouterOS will validate)"

def resolveDeviceModeOptions : Option DeviceModeOptions → ResolvedDeviceModeOptions
  | none => { skip := true }
  | some options =>
      let requestedMode := norm (options.mode.getD "auto")
      if requestedMode ∈ SKIP_VALUES then
        { skip := true
          warnings :=
            if options.enable.getD [] ≠ [] ∨ options.disable.getD [] ≠ [] then
              ["device-mode=skip ignores --device-mode-enable/disable values"]
            else [] }
      else
        let mode := resolveMode requestedMode
        let requested := normalizeFeatureList options.enable
        let disable := normalizeFeatureList options.disable
        let enable := requested.filter (· ∉ disable)
        { skip := false
          mode := some mode
          features := assignFeatures enable disable
          warnings :=
            (if requestedMode = "enterprise" then
              ["device-mode mode 'enterprise' is legacy; using 'advanced'"] else []) ++
            (if mode ∈ KNOWN_DEVICE_MODES then []
              else [s!"unknown device-mode '{mode}' (allowed; RouterOS will validate)"]) ++
            (requested.filter (· ∈ disable)).map (fun feature =>
              s!"device-mode feature '{feature}' set in both enable and disable; using disable") ++
            enable.filterMap (unknownFeature "enable") ++ disable.filterMap (unknownFeature "disable") }

def shouldApplyDeviceMode (options : ResolvedDeviceModeOptions) : Bool :=
  !options.skip && (options.truthyMode.isSome || options.features ≠ [])

theorem skip_of_shouldApply {r : ResolvedDeviceModeOptions} (h : shouldApplyDeviceMode r = true) :
    r.skip = false := by
  unfold shouldApplyDeviceMode at h
  rw [Bool.and_eq_true, Bool.not_eq_true'] at h
  exact h.1

/-- `mode` plus one entry per feature: what an update sends to the guest. -/
def payload (options : ResolvedDeviceModeOptions) : Record String :=
  Record.assign
    (match options.truthyMode with
      | some mode => [("mode", mode)]
      | none => [])
    (options.features.map fun e => (e.1, e.2.text))

def formatDeviceModeSelection (options : ResolvedDeviceModeOptions) : String :=
  if options.skip then "skip"
  else Text.join " "
    ((match options.truthyMode with
      | some mode => [s!"mode={mode}"]
      | none => []) ++
      options.features.map fun e => s!"{e.1}={e.2.text}")

/-- `[...set].sort()`, or nothing when the set is empty. -/
def sorted (features : List String) : Option (List String) :=
  if features = [] then none else some (features.insertionSort Text.Before)

/-- The `quickchr set` flags that would reproduce the selection. -/
def formatDeviceModeFlags (options : ResolvedDeviceModeOptions) : String :=
  let named (value : DeviceModeBool) : List String :=
    ((options.features.filter (·.2 = value)).map Prod.fst).insertionSort Text.Before
  let flag (name : String) (features : List String) : List String :=
    let list := Names.shellQuote (Text.join "," features)
    if features = [] then [] else [s!"--device-mode-{name} {list}"]
  if options.skip then ""
  else Text.join " "
    ((match options.truthyMode with
      | some mode => [s!"--device-mode {Names.shellQuote mode}"]
      | none => []) ++
      flag "enable" (named .yes) ++ flag "disable" (named .no))

/-- One turn of the folding loop: a feature only ever sits on one side. -/
def moveFeature (sides : List String × List String) (e : String × DeviceModeBool) :
    List String × List String :=
  let enable := sides.1.filter (· ≠ e.1)
  let disable := sides.2.filter (· ≠ e.1)
  match e.2 with
  | .yes => (enable ++ [e.1], disable)
  | .no => (enable, disable ++ [e.1])

def mergeDeviceModeOptions (current : Option DeviceModeOptions)
    (applied : ResolvedDeviceModeOptions) : DeviceModeOptions :=
  if applied.skip then current.getD {}
  else
    let sides := applied.features.foldl moveFeature
      (normalizeFeatureList (current.bind (·.enable)),
        normalizeFeatureList (current.bind (·.disable)))
    { mode := applied.mode.or (current.bind (·.mode))
      enable := sorted sides.1
      disable := sorted sides.2 }

/-- What the options say about one feature, whether or not their mode is skipped. -/
def feature (o : DeviceModeOptions) (f : String) : Option DeviceModeBool :=
  if f = "__proto__" then none
  else if f ∈ normalizeFeatureList o.disable then some .no
  else if f ∈ normalizeFeatureList o.enable then some .yes
  else none

/-- What the options say about one setting of the guest. -/
def setting (o : DeviceModeOptions) (s : String) : Option String :=
  ((feature o s).map (·.text)).or
    (if s = "mode" then (resolveDeviceModeOptions (some o)).truthyMode else none)

theorem get_assignFeatures (enable disable : List String) (f : String) :
    (assignFeatures enable disable).get f =
      if f = "__proto__" then none
      else if f ∈ disable then some .no
      else if f ∈ enable then some .yes
      else none := by
  rw [assignFeatures, Record.get_assign, Record.get_nil, Option.or_none, ← List.filter_reverse,
    List.reverse_append, ← List.map_reverse, ← List.map_reverse]
  rw [Record.get_filter f (fun k => decide (k ≠ "__proto__")), Record.get_append,
    Record.get_map_const, Record.get_map_const]
  simp only [List.mem_reverse, ne_eq, decide_not, Bool.not_eq_true', decide_eq_false_iff_not]
  by_cases proto : f = "__proto__"
  · simp only [proto, not_true_eq_false, if_false, if_true]
  · simp only [proto, not_false_eq_true, if_true, if_false]
    by_cases off : f ∈ disable
    · simp only [off, if_true, Option.some_or]
    · simp only [off, if_false, Option.none_or]

theorem nodup_features (o : Option DeviceModeOptions) :
    ((resolveDeviceModeOptions o).features.map Prod.fst).Nodup := by
  cases o with
  | none => exact List.nodup_nil
  | some o =>
      unfold resolveDeviceModeOptions
      dsimp only
      split
      · exact List.nodup_nil
      · exact Record.nodup_assign _ _ List.nodup_nil

theorem get_features {o : DeviceModeOptions}
    (applied : (resolveDeviceModeOptions (some o)).skip = false) (f : String) :
    (resolveDeviceModeOptions (some o)).features.get f = feature o f := by
  unfold resolveDeviceModeOptions at applied ⊢
  dsimp only at applied ⊢
  split at applied
  · cases applied
  · rename_i run
    rw [if_neg run, get_assignFeatures, feature]
    simp only [List.mem_filter, decide_not, Bool.not_eq_true', decide_eq_false_iff_not]
    split
    · rfl
    · split
      · rfl
      · rename_i on
        simp only [on, not_false_eq_true, and_true]

theorem get_payload_of_nodup {r : ResolvedDeviceModeOptions}
    (nodup : (r.features.map Prod.fst).Nodup) (s : String) :
    (payload r).get s =
      ((r.features.get s).map (·.text)).or (if s = "mode" then r.truthyMode else none) := by
  have keys : (r.features.map fun e => (e.1, e.2.text)).map Prod.fst = r.features.map Prod.fst := by
    rw [List.map_map]
    rfl
  rw [payload, Record.get_assign, Record.get_reverse (keys ▸ nodup), Record.get_map_value]
  congr 1
  cases r.truthyMode with
  | some mode => rw [Record.get_cons, Record.get_nil]
  | none => rw [Record.get_nil, ite_self]

/-- The update sends exactly the settings of the options it comes from. -/
theorem get_payload {o : DeviceModeOptions}
    (applied : (resolveDeviceModeOptions (some o)).skip = false) (s : String) :
    (payload (resolveDeviceModeOptions (some o))).get s = setting o s := by
  rw [get_payload_of_nodup (nodup_features (some o)), get_features applied, setting]

theorem norm_norm (value : String) : norm (norm value) = norm value := by
  simp only [norm, Text.trim_toLowerCase, Text.trim_trim, Text.toLowerCase_toLowerCase]

/-- A name as `normalizeFeatureList` leaves it. -/
structure Normalized (f : String) : Prop where
  norm : norm f = f
  nonempty : f ≠ ""
  comma : ',' ∉ f.toList

theorem normalized_of_mem {list : Option (List String)} {f : String}
    (h : f ∈ normalizeFeatureList list) : Normalized f := by
  rw [normalizeFeatureList, List.mem_eraseDups, List.mem_filter, List.mem_map] at h
  obtain ⟨⟨piece, member, rfl⟩, nonempty⟩ := h
  obtain ⟨item, _, split⟩ := List.mem_flatMap.mp member
  refine ⟨norm_norm piece, by simpa using nonempty, fun comma => ?_⟩
  have clean := Text.not_mem_of_mem_split split
  exact clean (Text.mem_of_mem_trim (Text.mem_of_mem_toLowerCase (.inl (by decide)) comma))

theorem mem_normalizeFeatureList {list : List String} (h : ∀ f ∈ list, Normalized f) {f : String} :
    f ∈ normalizeFeatureList (some list) ↔ f ∈ list := by
  rw [normalizeFeatureList, List.mem_eraseDups, List.mem_filter, List.mem_map, Option.getD_some]
  constructor
  · rintro ⟨⟨piece, member, rfl⟩, _⟩
    obtain ⟨item, mem, split⟩ := List.mem_flatMap.mp member
    rw [Text.split_eq_singleton (h item mem).comma, List.mem_singleton] at split
    subst split
    rwa [(h piece mem).norm]
  · intro mem
    refine ⟨⟨f, List.mem_flatMap.mpr ⟨f, mem, ?_⟩, (h f mem).norm⟩, by simpa using (h f mem).nonempty⟩
    rw [Text.split_eq_singleton (h f mem).comma]
    exact List.mem_singleton_self f

theorem mem_sorted {list : List String} (h : ∀ f ∈ list, Normalized f) {f : String} :
    f ∈ normalizeFeatureList (sorted list) ↔ f ∈ list := by
  unfold sorted
  split
  · rename_i empty
    subst empty
    simp [normalizeFeatureList]
  · rw [mem_normalizeFeatureList fun g member => h g ((List.mem_insertionSort _).mp member),
      List.mem_insertionSort]

/-- Where a feature stands after the loop: on the side of the newest instruction for it, or
where it was. -/
theorem mem_foldl_moveFeature {features : Record DeviceModeBool}
    (nodup : (features.map Prod.fst).Nodup) (sides : List String × List String) (f : String) :
    (f ∈ (features.foldl moveFeature sides).1 ↔
      features.get f = some .yes ∨ features.get f = none ∧ f ∈ sides.1) ∧
    (f ∈ (features.foldl moveFeature sides).2 ↔
      features.get f = some .no ∨ features.get f = none ∧ f ∈ sides.2) := by
  induction features generalizing sides with
  | nil => simp
  | cons e features ih =>
      obtain ⟨g, value⟩ := e
      rw [List.map_cons, List.nodup_cons] at nodup
      have step := ih nodup.2 (moveFeature sides (g, value))
      rw [List.foldl_cons, step.1, step.2, Record.get_cons]
      by_cases eq : f = g
      · subst eq
        rw [Record.get_eq_none.mpr nodup.1]
        cases value <;> simp [moveFeature]
      · cases value <;> simp [moveFeature, eq]

theorem normalized_of_feature {o : DeviceModeOptions} {f : String} {value : DeviceModeBool}
    (h : feature o f = some value) : Normalized f := by
  unfold feature at h
  split at h
  · cases h
  · split at h
    · rename_i member; exact normalized_of_mem member
    · split at h
      · rename_i member; exact normalized_of_mem member
      · cases h

theorem feature_merge (current : Option DeviceModeOptions) {o : DeviceModeOptions}
    (applied : (resolveDeviceModeOptions (some o)).skip = false) (f : String) :
    feature (mergeDeviceModeOptions current (resolveDeviceModeOptions (some o))) f =
      (feature o f).or (current.bind (feature · f)) := by
  have sides := mem_foldl_moveFeature (nodup_features (some o))
    (normalizeFeatureList (current.bind (·.enable)), normalizeFeatureList (current.bind (·.disable)))
  simp only [get_features applied] at sides
  unfold mergeDeviceModeOptions
  rw [applied, if_neg Bool.false_ne_true]
  generalize (resolveDeviceModeOptions (some o)).features.foldl moveFeature _ = result at sides ⊢
  have onSides : ∀ g, g ∈ result.1 ∨ g ∈ result.2 → Normalized g := by
    rintro g (member | member)
    · rcases (sides g).1.mp member with named | ⟨_, old⟩
      · exact normalized_of_feature named
      · exact normalized_of_mem old
    · rcases (sides g).2.mp member with named | ⟨_, old⟩
      · exact normalized_of_feature named
      · exact normalized_of_mem old
  have enable : f ∈ normalizeFeatureList (sorted result.1) ↔ f ∈ result.1 :=
    mem_sorted fun g member => onSides g (.inl member)
  have disable : f ∈ normalizeFeatureList (sorted result.2) ↔ f ∈ result.2 :=
    mem_sorted fun g member => onSides g (.inr member)
  conv_lhs => unfold feature
  dsimp only
  simp only [enable, disable, (sides f).1, (sides f).2]
  by_cases proto : f = "__proto__"
  · have none : ∀ o', feature o' f = none := fun o' => by rw [feature, if_pos proto]
    rw [if_pos proto, none o, Option.none_or]
    cases current with
    | none => rfl
    | some old => exact (none old).symm
  · rw [if_neg proto]
    cases newest : feature o f with
    | some value => cases value <;> simp
    | none =>
        cases current with
        | none => simp [normalizeFeatureList]
        | some old => simp [proto, feature]

structure Settled (mode : String) : Prop where
  norm : norm mode = mode
  run : mode ∉ SKIP_VALUES
  current : resolveMode mode = mode

theorem settled_resolveMode {value : String} (run : norm value ∉ SKIP_VALUES) :
    Settled (resolveMode (norm value)) := by
  unfold resolveMode
  split
  · exact ⟨by decide +kernel, by decide, by decide⟩
  · split
    · exact ⟨by decide +kernel, by decide, by decide⟩
    · rename_i legacy auto
      exact ⟨norm_norm value, run, by rw [resolveMode, if_neg legacy, if_neg auto]⟩

theorem resolve_run {o : DeviceModeOptions}
    (applied : (resolveDeviceModeOptions (some o)).skip = false) :
    ∃ mode, (resolveDeviceModeOptions (some o)).mode = some mode ∧ Settled mode := by
  unfold resolveDeviceModeOptions at applied ⊢
  dsimp only at applied ⊢
  split at applied
  · cases applied
  · rename_i run
    rw [if_neg run]
    exact ⟨_, rfl, settled_resolveMode run⟩

theorem resolve_settled {o : DeviceModeOptions} {mode : String} (is : o.mode = some mode)
    (settled : Settled mode) : (resolveDeviceModeOptions (some o)).skip = false ∧
      (resolveDeviceModeOptions (some o)).mode = some mode := by
  unfold resolveDeviceModeOptions
  dsimp only
  rw [is, Option.getD_some, settled.norm, if_neg settled.run]
  exact ⟨rfl, congrArg some settled.current⟩

theorem resolve_merge (current : Option DeviceModeOptions) {o : DeviceModeOptions}
    (applied : (resolveDeviceModeOptions (some o)).skip = false) :
    (resolveDeviceModeOptions
        (some (mergeDeviceModeOptions current (resolveDeviceModeOptions (some o))))).skip = false ∧
      (resolveDeviceModeOptions
        (some (mergeDeviceModeOptions current (resolveDeviceModeOptions (some o))))).mode =
        (resolveDeviceModeOptions (some o)).mode := by
  obtain ⟨mode, is, settled⟩ := resolve_run applied
  have merged : (mergeDeviceModeOptions current (resolveDeviceModeOptions (some o))).mode =
      some mode := by
    unfold mergeDeviceModeOptions
    rw [applied, if_neg Bool.false_ne_true]
    dsimp only
    rw [is, Option.some_or]
  rw [is]
  exact resolve_settled merged settled

/-- The record after an update: the update's settings, and the older features it does not
name. The mode is always the update's. -/
theorem setting_merge (current : Option DeviceModeOptions) {o : DeviceModeOptions}
    (applied : (resolveDeviceModeOptions (some o)).skip = false) (s : String) :
    setting (mergeDeviceModeOptions current (resolveDeviceModeOptions (some o))) s =
      (((feature o s).or (current.bind (feature · s))).map (·.text)).or
        (if s = "mode" then (resolveDeviceModeOptions (some o)).truthyMode else none) := by
  have mode := (resolve_merge current applied).2
  have truthy : ∀ r r' : ResolvedDeviceModeOptions, r.mode = r'.mode →
      r.truthyMode = r'.truthyMode := fun r r' eq => by
    rw [ResolvedDeviceModeOptions.truthyMode, eq, ← ResolvedDeviceModeOptions.truthyMode]
  rw [setting, feature_merge current applied, truthy _ _ mode]

end DeviceMode
end Quickchr
