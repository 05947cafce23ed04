import Quickchr.DeviceMode

/-!
# What a device-mode update would change

The settings of a selection are verified against the guest's record, and those that fail are listed.
Their names are read back out of the messages. `inherited` stands for what a plain object has under a
name that was never set on it.
-/
namespace Quickchr.DeviceMode

def toYesNo (value : String) : String :=
  let normalized := norm value
  if normalized ∈ ["yes", "true", "on", "enabled", "1"] then "yes"
  else if normalized ∈ ["no", "false", "off", "disabled", "0"] then "no"
  else normalized

def expectedSettings (options : ResolvedDeviceModeOptions) : Record String :=
  Record.assign
    (match options.truthyMode with
      | some mode => [("mode", norm mode)]
      | none => [])
    ((options.features.map fun e => (norm e.1, e.2.text)).filter fun e => e.1 ≠ "__proto__")

structure DeviceModeVerification where
  ok : Bool
  mismatches : List String
  expected : Record String
  actual : Record String

section

variable (inherited : String → Option String) (options : ResolvedDeviceModeOptions) (actual : Record String)

/-- `actual[key]` -/
def read (key : String) : Option String := (actual.get key).or (inherited key)

/-- The value under a key as it is compared, `none` where it is missing or empty. -/
def compared (key : String) : Option String :=
  ((read inherited actual key).filter (· ≠ "")).map fun value => if key = "mode" then norm value else toYesNo value

def mismatch (key expectedValue : String) : Option String :=
  match compared inherited actual key with
  | none => some s!"{key}: expected={expectedValue}, actual=(missing)"
  | some actualNorm =>
      if actualNorm ≠ expectedValue then some s!"{key}: expected={expectedValue}, actual={actualNorm}" else none

def verifyDeviceMode : DeviceModeVerification :=
  let expected := expectedSettings options
  let mismatches := expected.filterMap fun e => mismatch inherited actual e.1 e.2
  { ok := mismatches.length = 0
    mismatches := mismatches
    expected := expected
    actual := actual }

def readBack (message : String) : String := (Text.split message ':').headD ""

def changedSettings : Record String :=
  let verification := verifyDeviceMode inherited options actual
  let changed := verification.mismatches.map readBack
  verification.expected.filter fun e => e.1 ∈ changed

def describeDeviceModeChange : List String :=
  (changedSettings inherited options actual).map fun e =>
    e.1 ++ ": " ++ (read inherited actual e.1).getD "(unset)" ++ " -> " ++ e.2

def failing : Record String := (expectedSettings options).filter fun e => (mismatch inherited actual e.1 e.2).isSome

/-- One line for each setting that fails, none for another, and no line only if nothing fails. -/
structure ListsMismatches : Prop where
  lines : changedSettings inherited options actual = failing inherited options actual
  nothing : describeDeviceModeChange inherited options actual = [] →
    (verifyDeviceMode inherited options actual).ok = true

end

variable {inherited : String → Option String} {options : ResolvedDeviceModeOptions} {actual : Record String}

theorem mismatch_text {key expectedValue message : String}
    (h : mismatch inherited actual key expectedValue = some message) : ∃ rest, message = key ++ (":" ++ rest) := by
  have front (tail : String) : key ++ ": expected=" ++ expectedValue ++ tail =
      key ++ (":" ++ (" expected=" ++ expectedValue ++ tail)) := by
    have colon : ": expected=" = ":" ++ " expected=" := rfl
    simp only [colon, String.append_assoc]
  unfold mismatch at h
  split at h
  · exact ⟨_, (Option.some.inj h).symm.trans (front ", actual=(missing)")⟩
  · rename_i actualNorm _
    split at h
    · refine ⟨_, (Option.some.inj h).symm.trans (Eq.trans ?_ (front (", actual=" ++ actualNorm)))⟩
      exact String.append_assoc
    · cases h

theorem readBack_plain {key : String} (plain : ':' ∉ key.toList) (rest : String) :
    readBack (key ++ (":" ++ rest)) = key := by
  rw [readBack, Text.split_append_sep rfl plain, List.headD_cons]

theorem colon_not_mem_readBack (message : String) : ':' ∉ (readBack message).toList := by
  unfold readBack
  cases pieces : Text.split message ':' with
  | nil => exact List.not_mem_nil
  | cons first rest => exact Text.not_mem_of_mem_split (by rw [pieces]; exact List.mem_cons_self)

theorem nodup_expectedSettings (options : ResolvedDeviceModeOptions) :
    ((expectedSettings options).map Prod.fst).Nodup := by
  refine Record.nodup_assign _ _ ?_
  cases options.truthyMode with
  | none => exact List.nodup_nil
  | some mode => exact List.nodup_singleton _

theorem mem_changedSettings {e : String × String} : e ∈ changedSettings inherited options actual ↔
    e ∈ expectedSettings options ∧ ∃ f ∈ expectedSettings options, ∃ message,
      mismatch inherited actual f.1 f.2 = some message ∧ readBack message = e.1 := by
  unfold changedSettings verifyDeviceMode
  dsimp only
  rw [List.mem_filter, decide_eq_true_iff, List.mem_map]
  refine and_congr_right fun _ => ?_
  constructor
  · rintro ⟨message, listed, name⟩
    obtain ⟨f, member, fails⟩ := List.mem_filterMap.mp listed
    exact ⟨f, member, message, fails, name⟩
  · rintro ⟨f, member, message, fails, name⟩
    exact ⟨message, List.mem_filterMap.mpr ⟨f, member, fails⟩, name⟩

/-- Where no failing setting has a colon in its name, each is read back as itself. -/
theorem changedSettings_eq
    (plain : ∀ e ∈ expectedSettings options, ':' ∈ e.1.toList → mismatch inherited actual e.1 e.2 = none) :
    changedSettings inherited options actual = failing inherited options actual := by
  have reads {f : String × String} (member : f ∈ expectedSettings options) {message : String}
      (fails : mismatch inherited actual f.1 f.2 = some message) : readBack message = f.1 := by
    obtain ⟨rest, rfl⟩ := mismatch_text fails
    refine readBack_plain (fun colon => ?_) rest
    rw [plain f member colon] at fails
    cases fails
  have listed {e : String × String} (member : e ∈ expectedSettings options) :
      e ∈ changedSettings inherited options actual ↔ (mismatch inherited actual e.1 e.2).isSome = true := by
    rw [mem_changedSettings, Option.isSome_iff_exists]
    constructor
    · rintro ⟨-, f, member', message, fails, name⟩
      have same : e = f := List.inj_on_of_nodup_map (nodup_expectedSettings options) member member'
        (name.symm.trans (reads member' fails))
      exact ⟨message, same ▸ fails⟩
    · rintro ⟨message, fails⟩
      exact ⟨member, e, member, message, fails, reads member fails⟩
  refine List.filter_congr fun e member => Bool.eq_iff_iff.mpr ?_
  rw [← listed member]
  exact ⟨fun kept => List.mem_filter.mpr ⟨member, kept⟩, fun kept => (List.mem_filter.mp kept).2⟩

theorem ok_of_failing (h : failing inherited options actual = []) :
    (verifyDeviceMode inherited options actual).ok = true := by
  have none_ : (expectedSettings options).filterMap (fun e => mismatch inherited actual e.1 e.2) = [] := by
    refine List.filterMap_eq_nil_iff.mpr fun e member => ?_
    exact Option.not_isSome_iff_eq_none.mp (List.filter_eq_nil_iff.mp h e member)
  unfold verifyDeviceMode
  dsimp only
  rw [none_]
  rfl

/-- The list is right exactly where no setting that fails has a colon in its name. -/
theorem listsMismatches_iff (inherited : String → Option String) (options : ResolvedDeviceModeOptions)
    (actual : Record String) : ListsMismatches inherited options actual ↔
      ∀ e ∈ expectedSettings options, ':' ∈ e.1.toList → mismatch inherited actual e.1 e.2 = none := by
  constructor
  · intro h e member colon
    by_contra fails
    have listed : e ∈ changedSettings inherited options actual := by
      rw [h.lines]
      exact List.mem_filter.mpr ⟨member, Option.isSome_iff_ne_none.mpr fails⟩
    obtain ⟨-, f, -, message, -, name⟩ := mem_changedSettings.mp listed
    exact colon_not_mem_readBack message (name ▸ colon)
  · intro plain
    have lines := changedSettings_eq plain
    refine ⟨lines, fun nothing => ok_of_failing ?_⟩
    rw [← lines]
    exact List.map_eq_nil_iff.mp nothing

/-- A feature with a colon in its name that the guest does not report. -/
def colonRequest : DeviceModeOptions := { enable := some ["a:b"] }

theorem listsMismatches_fails :
    describeDeviceModeChange (fun _ => none) (resolveDeviceModeOptions (some colonRequest)) [("mode", "rose")] = [] ∧
    (verifyDeviceMode (fun _ => none) (resolveDeviceModeOptions (some colonRequest)) [("mode", "rose")]).mismatches =
      ["a:b: expected=yes, actual=(missing)"] ∧
    ¬ ListsMismatches (fun _ => none) (resolveDeviceModeOptions (some colonRequest)) [("mode", "rose")] := by
  have empty : describeDeviceModeChange (fun _ => none) (resolveDeviceModeOptions (some colonRequest))
      [("mode", "rose")] = [] := by decide +kernel
  refine ⟨empty, by decide +kernel, fun h => ?_⟩
  exact absurd (h.nothing empty) (by decide +kernel)

/-- Of the known features no name has a colon, so the list is right for every record. -/
theorem listsMismatches_known {inherited : String → Option String} {options : ResolvedDeviceModeOptions}
    (known : ∀ e ∈ options.features, e.1 ∈ KNOWN_DEVICE_MODE_FEATURES) (actual : Record String) :
    ListsMismatches inherited options actual := by
  refine (listsMismatches_iff inherited options actual).mpr fun e member colon => absurd colon ?_
  have plain : ∀ f ∈ KNOWN_DEVICE_MODE_FEATURES, ':' ∉ (norm f).toList := by
    intro f known
    have clean : KNOWN_DEVICE_MODE_FEATURES.all (fun f => decide (':' ∉ (norm f).toList)) = true := by
      decide +kernel
    exact of_decide_eq_true (List.all_eq_true.mp clean f known)
  rcases Record.mem_assign member with mode | feature
  · cases is : options.truthyMode with
    | none =>
      rw [is] at mode
      cases mode
    | some m =>
      rw [is] at mode
      rw [List.mem_singleton.mp mode]
      exact show ':' ∉ "mode".toList by decide
  · obtain ⟨f, listed, rfl⟩ := List.mem_map.mp (List.mem_filter.mp feature).1
    exact plain f.1 (known f listed)

end Quickchr.DeviceMode
