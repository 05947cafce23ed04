import Quickchr.MachineState
import Quickchr.Lib.Number
import Quickchr.Lib.Utf8

/-!
# The settings file

A line `KEY=value` sets a key; of several lines for one key the last holds. Lines that set no managed key
belong to the user: an edit reads the file, changes the lines of its own keys and writes all of them back.
-/
namespace Quickchr.Settings

inductive SettingsValue
  | text (value : String)
  | number (value : Number)
  | flag (value : Bool)
  deriving DecidableEq

/-- `String(v)`. -/
def SettingsValue.toText : SettingsValue → String
  | .text value => value
  | .number value => value.text
  | .flag value => if value then "true" else "false"

/-- What an `if` makes of it. -/
def SettingsValue.truthy : SettingsValue → Bool
  | .text value => value ≠ ""
  | .number .nan => false
  | .number (.infinity _) => true
  | .number (.finite value _) => value ≠ 0
  | .flag value => value

structure SettingsKeyDef where
  attr : String
  envKey : String
  parse : String → Except QuickCHRError SettingsValue
  serialize : SettingsValue → String
  /-- There is none where "unset" has a meaning of its own. -/
  builtinDefault : Option SettingsValue

def CHANNELS : List String := ["stable", "long-term", "testing", "development"]

def ARCHES : List String := ["arm64", "x86"]

def ACCEL_MODES : List String := ["auto", "tcg", "hvf", "kvm"]

def invalidValue (raw attr reason : String) : QuickCHRError where
  code := .INVALID_SETTING_VALUE
  message := s!"Invalid value \"{raw}\" for {attr} — {reason}"

def oneOf (attr : String) (allowed : List String) (raw value : String) : Except QuickCHRError SettingsValue :=
  if value ∈ allowed then .ok (.text value)
  else .error (invalidValue raw attr ("must be one of " ++ Text.join ", " allowed))

def parseChannel (raw : String) : Except QuickCHRError SettingsValue := oneOf "default-channel" CHANNELS raw raw

def parseArchSetting (raw : String) : Except QuickCHRError SettingsValue :=
  oneOf "default-arch" (ARCHES ++ ["auto"]) raw raw

def parseAccelMode (raw : String) : Except QuickCHRError SettingsValue :=
  oneOf "accel" ACCEL_MODES raw (Text.toLowerCase (Text.trim raw))

/-- `([KMGT]?)i?B?$`: the unit. -/
def sizeUnit (l : List Char) : Option (Option Char) :=
  let (unit, rest) :=
    match l with
    | c :: rest => if c.toUpper ∈ ['K', 'M', 'G', 'T'] then (some c.toUpper, rest) else (none, l)
    | [] => (none, [])
  let rest := if rest.head? = some 'i' ∨ rest.head? = some 'I' then rest.tail else rest
  let rest := if rest.head? = some 'b' ∨ rest.head? = some 'B' then rest.tail else rest
  if rest = [] then some unit else none

/-- `^(\d+(?:\.\d+)?)([KMGT]?)i?B?$`: the number and the unit. -/
def sizeParts (s : String) : Option (List Char × Option Char) :=
  let whole := s.toList.takeWhile Char.isDigit
  let behind := s.toList.dropWhile Char.isDigit
  if whole = [] then none
  else
    let fraction := if behind.head? = some '.' then behind.tail.takeWhile Char.isDigit else []
    let rest := if fraction = [] then behind else behind.tail.dropWhile Char.isDigit
    (sizeUnit rest).map fun unit => (whole ++ Number.pointed fraction, unit)

/-- `Number.parseFloat` of digits, with a fraction or without. -/
def parseFloat (l : List Char) : Number :=
  match Number.unsigned l with
  | some q => Number.round q
  | none => .nan

/-- How many binary digits the unit shifts the number. -/
def unitBits : Option Char → ℕ
  | some 'K' => 10
  | some 'M' => 20
  | some 'G' => 30
  | some 'T' => 40
  | _ => 0

def parseSizeString (s : String) : Except QuickCHRError Number :=
  match sizeParts s with
  | none => .error { code := .INVALID_SIZE_STRING, message := s!"Invalid size \"{s}\" (use NK/NM/NG/NT, e.g. 2G)" }
  | some (number, unit) =>
      .ok ((parseFloat number).mul (Number.round ((2 ^ unitBits unit : ℕ) : ℚ))).floor

def sizeSetting (attr raw : String) : Except QuickCHRError SettingsValue :=
  match parseSizeString raw with
  | .ok n => .ok (.number n)
  | .error e => .error (invalidValue raw attr e.message)

def parseTimeoutExtraSeconds (raw : String) : Except QuickCHRError SettingsValue :=
  let n := Number.ofString raw
  match n.integer with
  | some m => if m < 0 then .error (invalidValue raw "timeout-extra" reason) else .ok (.number n)
  | none => .error (invalidValue raw "timeout-extra" reason)
where
  reason := "must be a non-negative integer number of seconds"

def parseSecureLogin (raw : String) : Except QuickCHRError SettingsValue :=
  let v := Text.toLowerCase (Text.trim raw)
  if v ∈ ["true", "1", "yes", "on"] then .ok (.flag true)
  else if v ∈ ["false", "0", "no", "off"] then .ok (.flag false)
  else .error (invalidValue raw "secure-login" "must be a boolean (true/false)")

def DEFAULT_CACHE_MAX_BYTES : ℕ := 2 * 1024 * 1024 * 1024

def DEFAULT_STORAGE_RESERVE_BYTES : ℕ := 2 * 1024 * 1024 * 1024

def defaultChannel : SettingsKeyDef where
  attr := "default-channel"
  envKey := "QUICKCHR_DEFAULT_CHANNEL"
  builtinDefault := some (.text "stable")
  parse := parseChannel
  serialize v := v.toText

def defaultArch : SettingsKeyDef where
  attr := "default-arch"
  envKey := "QUICKCHR_DEFAULT_ARCH"
  builtinDefault := some (.text "auto")
  parse := parseArchSetting
  serialize v := v.toText

def accel : SettingsKeyDef where
  attr := "accel"
  envKey := "QUICKCHR_ACCEL"
  builtinDefault := some (.text "auto")
  parse := parseAccelMode
  serialize v := v.toText

def cacheMaxSize : SettingsKeyDef where
  attr := "cache-max-size"
  envKey := "QUICKCHR_CACHE_MAX_SIZE"
  builtinDefault := some (.number (Number.round DEFAULT_CACHE_MAX_BYTES))
  parse := sizeSetting "cache-max-size"
  serialize v := v.toText

def storageReserve : SettingsKeyDef where
  attr := "storage-reserve"
  envKey := "QUICKCHR_STORAGE_RESERVE"
  builtinDefault := some (.number (Number.round DEFAULT_STORAGE_RESERVE_BYTES))
  parse := sizeSetting "storage-reserve"
  serialize v := v.toText

def timeoutExtra : SettingsKeyDef where
  attr := "timeout-extra"
  envKey := "QUICKCHR_TIMEOUT_EXTRA"
  builtinDefault := some (.number (Number.round 0))
  parse := parseTimeoutExtraSeconds
  serialize v := v.toText

def secureLogin : SettingsKeyDef where
  attr := "secure-login"
  envKey := "QUICKCHR_SECURE_LOGIN"
  builtinDefault := none
  parse := parseSecureLogin
  serialize v := if v.truthy then "true" else "false"

def SETTINGS_KEYS : List SettingsKeyDef :=
  [defaultChannel, defaultArch, accel, cacheMaxSize, storageReserve, timeoutExtra, secureLogin]

/-- Takes the attribute or the name of the variable, with `-` or `_`, in any case. -/
def lookupSettingsKey (input : String) : Option SettingsKeyDef :=
  let l := (Text.trim input).toList
  let l :=
    if (l.take 8).map Char.toLower = "quickchr".toList ∧ (l[8]? = some '_' ∨ l[8]? = some '-') then l.drop 9
    else l
  let name := String.ofList ((Text.toLowerCase (String.ofList l)).toList.map fun c => if c = '_' then '-' else c)
  SETTINGS_KEYS.find? fun key => key.attr = name

def unknownKeyError (input : String) : QuickCHRError where
  code := .INVALID_SETTING_KEY
  message := s!"\"{input}\" is not a recognized quickchr setting."

/-- The bytes of `quickchr.env`, where there is one. -/
abbrev SettingsFile := Option (List UInt8)

def readSettingsFileLines : SettingsFile → List String
  | none => []
  | some bytes =>
      let lines := Text.split (String.ofList (Utf8.decode bytes)) '\n'
      if lines.getLast? = some "" then lines.dropLast else lines

def writeSettingsFileLines (lines : List String) : SettingsFile :=
  some (Utf8.encode (if lines = [] then "" else Text.join "\n" lines ++ "\n").toList)

/-- What stands before the first `=` of a line and after it, unless the line is blank or a comment. -/
def assignment (line : String) : Option (String × String) :=
  let trimmed := Text.trim line
  if trimmed = "" ∨ Text.startsWith trimmed "#" then none
  else
    match Text.indexOf ['='] trimmed.toList with
    | some eq =>
        if eq = 0 then none
        else
          some (Text.trim (String.ofList (trimmed.toList.take eq)),
            Text.trim (String.ofList (trimmed.toList.drop (eq + 1))))
    | none => none

def lineEnvKey (line : String) : Option String := (assignment line).map Prod.fst

/-- `/^[A-Za-z_][A-Za-z0-9_]*$/` -/
def isEnvName (key : String) : Bool :=
  match key.toList with
  | c :: rest => (c.isAlpha || c = '_') && rest.all fun c => c.isAlphanum || c = '_'
  | [] => false

def parseSettingsFileLines (lines : List String) : String → Option String :=
  lines.foldl (fun result line =>
    match assignment line with
    | some (key, value) => if isEnvName key then Function.update result key (some value) else result
    | none => result) fun _ => none

def loadSettingsFileDefaults (file : SettingsFile) : String → Option String :=
  parseSettingsFileLines (readSettingsFileLines file)

inductive SettingsSource
  | env | file | default
  deriving DecidableEq, Repr

structure ResolvedSetting where
  value : Option SettingsValue
  source : SettingsSource
  deriving DecidableEq

def resolveSetting (env : String → Option String) (file : SettingsFile) (attr : String) :
    Except QuickCHRError ResolvedSetting :=
  match lookupSettingsKey attr with
  | none => .error (unknownKeyError attr)
  | some key =>
      match env key.envKey with
      | some raw => (key.parse raw).map fun value => { value := some value, source := .env }
      | none =>
          match loadSettingsFileDefaults file key.envKey with
          | some raw => (key.parse raw).map fun value => { value := some value, source := .file }
          | none => .ok { value := key.builtinDefault, source := .default }

def matchingLineIndices (lines : List String) (envKey : String) : List ℕ :=
  (List.range lines.length).filter fun i => lineEnvKey (lines[i]?.getD "") = some envKey

def rawValueAtLine (lines : List String) (index : ℕ) : String :=
  let line := (Text.trim (lines[index]?.getD "")).toList
  match Text.indexOf ['='] line with
  | some eq => Text.trim (String.ofList (line.drop (eq + 1)))
  | none => Text.trim (String.ofList line)

/-- The lines at these places, removed from the last on. -/
def spliceAll (lines : List String) (indices : List ℕ) : List String :=
  indices.reverse.foldl List.eraseIdx lines

structure SettingsSetResult where
  key : String
  previous : Option SettingsValue
  value : SettingsValue
  deriving DecidableEq

def settingsSet (file : SettingsFile) (attr rawValue : String) :
    Except QuickCHRError (SettingsSetResult × SettingsFile) :=
  match lookupSettingsKey attr with
  | none => .error (unknownKeyError attr)
  | some key =>
      match key.parse rawValue with
      | .error e => .error e
      | .ok parsed =>
          let lines := readSettingsFileLines file
          let indices := matchingLineIndices lines key.envKey
          let previous := indices.getLast?.map fun index =>
            match key.parse (rawValueAtLine lines index) with
            | .ok value => value
            | .error _ => .text (rawValueAtLine lines index)
          let newLine := s!"{key.envKey}={key.serialize parsed}"
          let lines :=
            match indices.getLast? with
            | some index => spliceAll (lines.set index newLine) indices.dropLast
            | none => lines ++ [newLine]
          .ok ({ key := key.attr, previous, value := parsed }, writeSettingsFileLines lines)

def settingsReset (file : SettingsFile) : Option String → Except QuickCHRError (List String × SettingsFile)
  | some attr =>
      match lookupSettingsKey attr with
      | none => .error (unknownKeyError attr)
      | some key =>
          let lines := readSettingsFileLines file
          let indices := matchingLineIndices lines key.envKey
          if indices = [] then .ok ([], file)
          else .ok ([key.attr], writeSettingsFileLines (spliceAll lines indices))
  | none =>
      let lines := readSettingsFileLines file
      let managed := fun line => (lineEnvKey line).bind fun name => SETTINGS_KEYS.find? fun key => key.envKey = name
      let cleared := (lines.filterMap managed).map SettingsKeyDef.attr
      if cleared = [] then .ok ([], file)
      else .ok (cleared, writeSettingsFileLines (lines.filter fun line => (managed line).isNone))

/-- The text of a value can stand on a line. -/
structure Clean (text : String) : Prop where
  trimmed : Text.trim text = text
  line : '\n' ∉ text.toList

instance (text : String) : Decidable (Clean text) :=
  decidable_of_iff (Text.trim text = text ∧ '\n' ∉ text.toList) ⟨fun both => ⟨both.1, both.2⟩, fun clean => ⟨clean.1, clean.2⟩⟩

/-- The number of bytes that a size says, before any rounding. -/
def sizeSaid (raw : String) : ℚ :=
  match sizeParts raw with
  | some (number, unit) => (Number.unsigned number).getD 0 * 2 ^ unitBits unit
  | none => 0

/-- A size is below what is rounded to 10^21. -/
def Short (key : SettingsKeyDef) (raw : String) : Prop :=
  key.attr = "cache-max-size" ∨ key.attr = "storage-reserve" → sizeSaid raw < 10 ^ 21 - 2 ^ 16

section

variable {raw : String} {value : SettingsValue}

theorem clean_textOfNat (k : ℕ) : Clean (Number.textOfNat k) := by
  have visible : ∀ c ∈ (Number.textOfNat k).toList, Text.isSpace c = false ∧ c ≠ '\n' := by
    intro c member
    rcases Number.mem_textOfNat member with digit | rfl | rfl | rfl
    · exact ⟨Number.isSpace_of_isDigit digit, by rintro rfl; cases digit⟩
    all_goals exact ⟨by decide, by decide⟩
  exact ⟨Text.trim_eq_self (fun c is => (visible c (List.mem_of_mem_head? is)).1)
    fun c is => (visible c (List.mem_of_getLast? is)).1, fun member => (visible _ member).2 rfl⟩

theorem oneOf_eq_ok {attr text : String} {allowed : List String} :
    oneOf attr allowed raw text = .ok value ↔ text ∈ allowed ∧ value = .text text := by
  unfold oneOf
  split <;> rename_i among
  · rw [and_iff_right among, Except.ok.injEq, eq_comm]
  · exact iff_of_false (fun h => by cases h) fun both => among both.1

theorem clean_of_mem {allowed : List String} (all : allowed.all (fun text => decide (Clean text)) = true) {text : String}
    (member : text ∈ allowed) : Clean text :=
  of_decide_eq_true (List.all_eq_true.mp all text member)

theorem parseChannel_serialize (read : parseChannel raw = .ok value) :
    Clean value.toText ∧ parseChannel value.toText = .ok value := by
  obtain ⟨among, rfl⟩ := oneOf_eq_ok.mp read
  exact ⟨@clean_of_mem CHANNELS (by decide +kernel) _ among, read⟩

theorem parseArchSetting_serialize (read : parseArchSetting raw = .ok value) :
    Clean value.toText ∧ parseArchSetting value.toText = .ok value := by
  obtain ⟨among, rfl⟩ := oneOf_eq_ok.mp read
  exact ⟨@clean_of_mem (ARCHES ++ ["auto"]) (by decide +kernel) _ among, read⟩

theorem parseAccelMode_serialize (read : parseAccelMode raw = .ok value) :
    Clean value.toText ∧ parseAccelMode value.toText = .ok value := by
  obtain ⟨among, rfl⟩ := oneOf_eq_ok.mp read
  have plain : (ACCEL_MODES.all fun mode => Text.toLowerCase (Text.trim mode) = mode) = true := by decide +kernel
  have same : ∀ mode ∈ ACCEL_MODES, Text.toLowerCase (Text.trim mode) = mode :=
    fun mode member => of_decide_eq_true (List.all_eq_true.mp plain mode member)
  refine ⟨@clean_of_mem ACCEL_MODES (by decide +kernel) _ among, ?_⟩
  have back := same _ among
  rw [SettingsValue.toText, parseAccelMode, back]
  exact oneOf_eq_ok.mpr ⟨among, rfl⟩

theorem parseSecureLogin_serialize (read : parseSecureLogin raw = .ok value) :
    Clean (secureLogin.serialize value) ∧ parseSecureLogin (secureLogin.serialize value) = .ok value := by
  unfold parseSecureLogin at read
  dsimp only at read
  split at read
  · cases read
    exact ⟨by decide +kernel, by decide +kernel⟩
  · split at read
    · cases read
      exact ⟨by decide +kernel, by decide +kernel⟩
    · cases read

theorem natural_of_integer {n : Number} {m : ℤ} (is : n.integer = some m) (nonneg : ¬ m < 0) :
    ∃ (k : ℕ) (double : _), n = .finite (k : ℚ) double := by
  cases n with
  | nan => cases is
  | infinity negative => cases is
  | finite q double =>
      rw [Number.integer] at is
      obtain ⟨whole, num⟩ := Option.ite_none_right_eq_some.mp is
      obtain ⟨k, same⟩ := Int.eq_ofNat_of_zero_le (not_lt.mp nonneg)
      have value : q = (k : ℚ) := by
        rw [← Rat.coe_int_num_of_den_eq_one whole, Option.some.inj num, same]
        rfl
      subst value
      exact ⟨k, double, rfl⟩

theorem parseTimeoutExtraSeconds_serialize (read : parseTimeoutExtraSeconds raw = .ok value) :
    Clean value.toText ∧ parseTimeoutExtraSeconds value.toText = .ok value := by
  unfold parseTimeoutExtraSeconds at read
  dsimp only at read
  split at read
  · rename_i m is
    split at read
    · cases read
    · rename_i nonneg
      cases read
      obtain ⟨k, double, same⟩ := natural_of_integer is nonneg
      rw [same] at is ⊢
      rw [SettingsValue.toText, Number.text_natCast]
      refine ⟨clean_textOfNat k, ?_⟩
      rw [parseTimeoutExtraSeconds, Number.ofString_textOfNat double]
      simp only [is, if_neg nonneg]
  · cases read

theorem pointed_digits {whole fraction : List Char} (nonempty : whole ≠ []) (h : whole.all Char.isDigit = true)
    (h' : fraction.all Char.isDigit = true) : ∃ q : ℚ, 0 ≤ q ∧
      Number.unsigned (whole ++ Number.pointed fraction) = some q := by
  have reads := @Number.unsigned_eq whole fraction [] nonempty h h' fun c none => by cases none
  rw [List.append_nil] at reads
  exact ⟨_, by positivity, reads⟩

theorem all_takeWhile (l : List Char) : (l.takeWhile Char.isDigit).all Char.isDigit = true :=
  List.all_eq_true.mpr fun _ member => List.mem_takeWhile_imp member

/-- The number of a size is rounded, scaled by the unit and cut to an integer. -/
theorem parseSizeString_eq_ok {n : Number} (read : parseSizeString raw = .ok n) : ∃ q s, 0 ≤ q ∧ s ≤ 40 ∧
    sizeSaid raw = q * 2 ^ s ∧ n = (Number.round (Rounding.nearest q * 2 ^ s)).floor := by
  unfold parseSizeString at read
  split at read
  · cases read
  rename_i number unit parts
  cases read
  obtain ⟨q, nonneg, reads⟩ : ∃ q : ℚ, 0 ≤ q ∧ Number.unsigned number = some q := by
    unfold sizeParts at parts
    dsimp only at parts
    split at parts
    · cases parts
    · rename_i nonempty
      obtain ⟨unit', -, same⟩ := Option.map_eq_some_iff.mp parts
      rw [← (Prod.mk.inj same).1]
      refine pointed_digits nonempty (all_takeWhile _) ?_
      split
      · exact all_takeWhile _
      · rfl
  have small : unitBits unit ≤ 40 := by
    unfold unitBits
    split <;> decide
  refine ⟨q, unitBits unit, nonneg, small, ?_, ?_⟩
  · rw [sizeSaid, parts]
    dsimp only
    rw [reads, Option.getD_some]
  · rw [parseFloat, reads]
    dsimp only
    rw [Number.mul_round_pow nonneg (by omega)]

/-- A size is a natural number or, where it is far too large, infinite. -/
theorem size_natural {n : Number} (read : parseSizeString raw = .ok n) :
    (∃ (k : ℕ) (double : _), n = .finite (k : ℚ) double ∧ (k < 10 ^ 21 ↔ sizeSaid raw < 10 ^ 21 - 2 ^ 16)) ∨
      n = .infinity false ∧ ¬ sizeSaid raw < 10 ^ 21 - 2 ^ 16 := by
  obtain ⟨q, s, nonneg, small, said, rfl⟩ := parseSizeString_eq_ok read
  have scaled := Rounding.nearest_mul_pow q s
  have positive : 0 ≤ Rounding.nearest q * 2 ^ s := mul_nonneg (Rounding.nearest_nonneg nonneg) (by positivity)
  rw [said, ← Rounding.nearest_mul_pow_lt_iff nonneg (by omega)]
  generalize Rounding.nearest q * 2 ^ s = x at scaled positive ⊢
  by_cases bounded : |x| < 2 ^ 1024
  · left
    rw [Number.round_of_double ⟨scaled, bounded⟩, Number.floor]
    obtain ⟨k, same⟩ := Int.eq_ofNat_of_zero_le (Int.floor_nonneg.mpr positive)
    have value : ((⌊x⌋ : ℤ) : ℚ) = (k : ℚ) := by
      rw [same]
      rfl
    have size : (k : ℤ) < 10 ^ 21 ↔ x < 10 ^ 21 := by
      rw [← same, Int.floor_lt]
      norm_num
    refine ⟨k, value ▸ Number.floor_double ⟨scaled, bounded⟩, ?_, by rw [← size]; norm_cast⟩
    simp only [value]
  · right
    rw [Number.round, dif_neg (by rw [scaled]; exact bounded), decide_eq_false (not_lt.mpr positive)]
    rw [abs_of_nonneg positive, not_lt] at bounded
    have large : (10 : ℚ) ^ 21 ≤ 2 ^ 1024 :=
      le_trans (by norm_num) (pow_le_pow_right₀ (by norm_num) (by norm_num) : (2 : ℚ) ^ 70 ≤ 2 ^ 1024)
    exact ⟨rfl, not_lt.mpr (le_trans large bounded)⟩

theorem sizeParts_digits {l : List Char} (nonempty : l ≠ []) (h : l.all Char.isDigit = true) :
    sizeParts (String.ofList l) = some (l, none) := by
  have taken : l.takeWhile Char.isDigit = l := List.takeWhile_eq_self_iff.mpr (List.all_eq_true.mp h)
  have dropped : l.dropWhile Char.isDigit = [] := List.dropWhile_eq_nil_iff.mpr (List.all_eq_true.mp h)
  unfold sizeParts
  rw [String.toList_ofList, taken, dropped]
  dsimp only
  rw [if_neg nonempty]
  have unit : sizeUnit [] = some none := rfl
  simp only [List.head?_nil, reduceCtorEq, if_false, if_true, unit, Option.map_some]
  rw [Number.pointed, if_pos rfl, List.append_nil]

theorem sizeParts_exponent {c : Char} {fraction rest : List Char} (digit : c.isDigit = true)
    (h : fraction.all Char.isDigit = true) :
    sizeParts (String.ofList (c :: (Number.pointed fraction ++ 'e' :: rest))) = none := by
  have each := List.all_eq_true.mp h
  have unit : sizeUnit ('e' :: rest) = none := by
    simp [sizeUnit]
  have stop : ∀ d, d.isDigit = false → ∀ l : List Char, (c :: d :: l).takeWhile Char.isDigit = [c] ∧
      (c :: d :: l).dropWhile Char.isDigit = d :: l := by
    intro d other l
    rw [List.takeWhile_cons_of_pos digit, List.dropWhile_cons_of_pos digit,
      List.takeWhile_cons_of_neg (Bool.eq_false_iff.mp other), List.dropWhile_cons_of_neg (Bool.eq_false_iff.mp other)]
    exact ⟨rfl, rfl⟩
  unfold sizeParts
  rw [String.toList_ofList]
  by_cases none : fraction = []
  · rw [none, Number.pointed, if_pos rfl, List.nil_append, (stop 'e' rfl rest).1, (stop 'e' rfl rest).2]
    dsimp only
    rw [if_neg (List.cons_ne_nil _ _)]
    simp only [List.head?_cons, Option.some.injEq, if_neg (by decide : ¬ 'e' = '.'), if_true, unit, Option.map_none]
  · have taken : (fraction ++ 'e' :: rest).takeWhile Char.isDigit = fraction := by
      rw [List.takeWhile_append_of_pos each]
      exact List.append_nil _
    have dropped : (fraction ++ 'e' :: rest).dropWhile Char.isDigit = 'e' :: rest := by
      rw [List.dropWhile_append_of_pos each]
      rfl
    rw [Number.pointed, if_neg none, List.cons_append, (stop '.' rfl _).1, (stop '.' rfl _).2]
    dsimp only
    rw [if_neg (List.cons_ne_nil _ _)]
    simp only [List.head?_cons, List.tail_cons, taken, dropped, if_true, if_neg none, unit, Option.map_none]

theorem parseSizeString_textOfNat {k : ℕ}
    (double : Rounding.nearest (k : ℚ) = k ∧ |(k : ℚ)| < 2 ^ 1024) :
    parseSizeString (Number.textOfNat k) = .ok (.finite k double) ↔ k < 10 ^ 21 := by
  rw [← Number.shortest_lt_iff double.1, ← @String.ofList_toList (Number.textOfNat k)]
  by_cases short : Number.shortest k < 10 ^ 21
  · refine iff_of_true ?_ short
    have digits := Number.digits_toDigits (Number.shortest k)
    rw [Number.toList_textOfNat short, parseSizeString, sizeParts_digits Nat.toDigits_ne_nil digits]
    have one := @Number.mul_round_pow (Number.shortest k) (Nat.cast_nonneg _) 0 (by decide)
    dsimp only
    rw [parseFloat, Number.unsigned_digits Nat.toDigits_ne_nil digits, Nat.ofDigitChars_ten_toDigits]
    dsimp only
    rw [show unitBits none = 0 from rfl, one, pow_zero, mul_one, Number.nearest_shortest double.1, Number.round_of_double double, Number.floor]
    simp only [Int.floor_natCast, Int.cast_natCast]
  · refine iff_of_false ?_ short
    obtain ⟨c, fraction, j, digit, digits, text, -⟩ := Number.toList_textOfNat_long short
    rw [text, parseSizeString, sizeParts_exponent digit digits]
    exact fun h => by cases h

theorem sizeSetting_eq_ok {attr : String} : sizeSetting attr raw = .ok value ↔
    ∃ n, parseSizeString raw = .ok n ∧ value = .number n := by
  unfold sizeSetting
  cases parseSizeString raw with
  | error e => exact iff_of_false (fun h => by cases h) fun h => by obtain ⟨n, ok, -⟩ := h; cases ok
  | ok n =>
      dsimp only
      rw [Except.ok.injEq, eq_comm]
      exact ⟨fun same => ⟨n, rfl, same⟩, fun h => by obtain ⟨n', ok, same⟩ := h; cases ok; exact same⟩

theorem sizeSetting_serialize {attr : String} (read : sizeSetting attr raw = .ok value) :
    Clean value.toText ∧ (sizeSetting attr value.toText = .ok value ↔ sizeSaid raw < 10 ^ 21 - 2 ^ 16) := by
  obtain ⟨n, size, rfl⟩ := sizeSetting_eq_ok.mp read
  have back : sizeSetting attr n.text = .ok (.number n) ↔ parseSizeString n.text = .ok n := by
    rw [sizeSetting_eq_ok]
    exact ⟨fun h => by obtain ⟨n', ok, same⟩ := h; cases same; exact ok, fun ok => ⟨n, ok, rfl⟩⟩
  rw [SettingsValue.toText, back]
  rcases size_natural size with ⟨k, double, rfl, bound⟩ | ⟨rfl, large⟩
  · rw [Number.text_natCast, parseSizeString_textOfNat double]
    exact ⟨clean_textOfNat k, bound⟩
  · refine ⟨by decide +kernel, iff_of_false ?_ large⟩
    have none : sizeParts (Number.infinity false).text = none := by decide +kernel
    rw [parseSizeString, none]
    exact fun h => by cases h

/-- Every value but a size of 10^21 and more is read back from what is written for it. -/
theorem parse_serialize {key : SettingsKeyDef} (managed : key ∈ SETTINGS_KEYS) (read : key.parse raw = .ok value) :
    Clean (key.serialize value) ∧ (key.parse (key.serialize value) = .ok value ↔ Short key raw) := by
  have always : ∀ {key : SettingsKeyDef} {parse : String → Except QuickCHRError SettingsValue},
      key.serialize value = value.toText → ¬ (key.attr = "cache-max-size" ∨ key.attr = "storage-reserve") →
        key.parse = parse → Clean value.toText ∧ parse value.toText = .ok value →
          Clean (key.serialize value) ∧ (key.parse (key.serialize value) = .ok value ↔ Short key raw) := by
    rintro key _ text no rfl both
    rw [text]
    exact ⟨both.1, iff_of_true both.2 fun size => absurd size no⟩
  have size : ∀ {key : SettingsKeyDef}, key.attr = "cache-max-size" ∨ key.attr = "storage-reserve" →
      (Short key raw ↔ sizeSaid raw < 10 ^ 21 - 2 ^ 16) := fun is => ⟨fun short => short is, fun bound _ => bound⟩
  simp only [SETTINGS_KEYS, List.mem_cons, List.not_mem_nil, or_false] at managed
  rcases managed with rfl | rfl | rfl | rfl | rfl | rfl | rfl
  · have is : defaultChannel.parse = parseChannel := by simp only [defaultChannel]
    rw [is] at read
    exact always rfl (by decide) is (parseChannel_serialize read)
  · have is : defaultArch.parse = parseArchSetting := by simp only [defaultArch]
    rw [is] at read
    exact always rfl (by decide) is (parseArchSetting_serialize read)
  · have is : accel.parse = parseAccelMode := by simp only [accel]
    rw [is] at read
    exact always rfl (by decide) is (parseAccelMode_serialize read)
  · have is : cacheMaxSize.parse = sizeSetting "cache-max-size" := by simp only [cacheMaxSize]
    rw [is] at read
    rw [size (.inl rfl), is]
    exact sizeSetting_serialize read
  · have is : storageReserve.parse = sizeSetting "storage-reserve" := by simp only [storageReserve]
    rw [is] at read
    rw [size (.inr rfl), is]
    exact sizeSetting_serialize read
  · have is : timeoutExtra.parse = parseTimeoutExtraSeconds := by simp only [timeoutExtra]
    rw [is] at read
    exact always rfl (by decide) is (parseTimeoutExtraSeconds_serialize read)
  · have is : secureLogin.parse = parseSecureLogin := by simp only [secureLogin]
    rw [is] at read ⊢
    obtain ⟨clean, back⟩ := parseSecureLogin_serialize read
    exact ⟨clean, iff_of_true back fun size => absurd size (by decide)⟩

end

end Quickchr.Settings
