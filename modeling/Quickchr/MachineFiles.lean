import Quickchr.Lib.Json
import Quickchr.Names

/-!
# The files of the machines

Each directory under `machines/` holds a `machine.json`. It is written in place, so that in the
middle of a save, or after one that was interrupted, the file is the beginning of the new text. A
lookup by name refuses a file it cannot use, an enumeration skips it, and the removal of orphans
takes its directory for one that a create has left.
-/
namespace Quickchr.MachineFiles

abbrev Fields := Record Json

inductive JsType
  | string | number | object | boolean
  deriving DecidableEq, Repr

def typeOf : Json → JsType
  | .null | .arr _ | .obj _ => .object
  | .bool _ => .boolean
  | .num _ => .number
  | .str _ => .string

def truthy : Json → Bool
  | .null => false
  | .bool b => b
  | .num n => n ≠ 0
  | .str s => s ≠ ""
  | .arr _ | .obj _ => true

def REQUIRED_STATE_FIELDS : List (String × JsType) :=
  [("name", .string), ("version", .string), ("arch", .string), ("status", .string),
    ("machineDir", .string), ("portBase", .number), ("ports", .object), ("packages", .object)]

/-- A required field is not there, of another type, or null. -/
def isBad (record : Fields) (field : String × JsType) : Bool :=
  match record.get field.1 with
  | none | some .null => true
  | some v => typeOf v ≠ field.2

def stateShapeProblem : Json → Option String
  | .obj record =>
      let bad := (REQUIRED_STATE_FIELDS.filter (isBad record)).map Prod.fst
      let names := Text.join ", " bad
      if bad.length > 0 then some s!"missing or invalid: {names}" else none
  | _ => some "not a JSON object"

def networkConfig (specifier : Json) (id : String) : Json :=
  .obj [("specifier", specifier), ("id", .str id)]

def isText (v : Option Json) (s : String) : Bool :=
  match v with
  | some (.str t) => t = s
  | _ => false

/-- The legacy `network` field, as the networks it stood for. -/
def networkModeToConfigs (mode : Json) : Json :=
  if isText mode "vmnet-shared" then .arr [networkConfig (.str "vmnet-shared") "net0"]
  else match mode with
    | .obj bridge =>
        if isText (Record.get bridge "type") "vmnet-bridge" then
          .arr [networkConfig (.obj (("type", .str "vmnet-bridged") ::
              (Record.get bridge "iface").toList.map fun v => ("iface", v))) "net0",
            networkConfig (.str "vmnet-shared") "net1"]
        else .arr [networkConfig (.str "user") "net0"]
    | _ => .arr [networkConfig (.str "user") "net0"]

def migrate (state : Fields) : Fields :=
  if (state.get "networks").any truthy then state
  else match state.get "network" with
    | some legacy =>
        if truthy legacy then state.set "networks" (networkModeToConfigs legacy)
        else state.set "networks" (.arr [networkConfig (.str "user") "net0"])
    | none => state.set "networks" (.arr [networkConfig (.str "user") "net0"])

/-- The machine directories, each with the text of its `machine.json` when it has one. -/
abbrev Disk := Record (Option (List Char))

section Reading

-- what the parser says of a text it refuses
variable (syntaxError : List Char → String)

def unreadable (name why : String) : QuickCHRError :=
  { code := .STATE_ERROR, message := s!"Machine \"{name}\" has an unreadable machine.json ({why})" }

def loadText (name : String) (text : List Char) : Except QuickCHRError Fields :=
  match Json.parse text with
  | none => .error (unreadable name (syntaxError text))
  | some parsed =>
      match stateShapeProblem parsed, parsed with
      | some problem, _ => .error (unreadable name problem)
      | none, .obj state => .ok (migrate state)
      | none, _ => .error (unreadable name "not a JSON object")

/-- `none` when there is no file. -/
def loadMachine (disk : Disk) (name : String) : Except QuickCHRError (Option Fields) :=
  match (disk.get name).join with
  | none => .ok none
  | some text => (loadText syntaxError name text).map some

inductive MachineLoad
  | ok (state : Fields)
  | missing
  | unreadable (error : String)

def tryLoadMachine (disk : Disk) (name : String) : MachineLoad :=
  match loadMachine syntaxError disk name with
  | .ok (some state) => .ok state
  | .ok none => .missing
  | .error e => .unreadable e.message

def MachineLoad.state? : MachineLoad → Option Fields
  | .ok state => some state
  | _ => none

def listMachineNames (disk : Disk) : List String := disk.map Prod.fst

def loadAllMachines (disk : Disk) : List Fields :=
  (listMachineNames disk).filterMap fun name => (tryLoadMachine syntaxError disk name).state?

def isReadableMachine (disk : Disk) (name : String) : Bool :=
  (tryLoadMachine syntaxError disk name).state?.isSome

def isOrphanMachineDir (host : Host) (disk : Disk) (name : String) : Bool :=
  isPathSafeName host name && (disk.get name).isSome && !isReadableMachine syntaxError disk name

def portBase (m : Fields) : Option ℤ :=
  match m.get "portBase" with
  | some (.num n) => some n
  | _ => none

def getUsedPortBases (disk : Disk) : List ℤ := (loadAllMachines syntaxError disk).filterMap portBase

def networks (m : Fields) : List Json :=
  match m.get "networks" with
  | some (.arr items) => items
  | _ => []

def macOf : Json → Option String
  | .obj network =>
      match Record.get network "mac" with
      | some (.str mac) => if mac = "" then none else some mac
      | _ => none
  | _ => none

def macs (m : Fields) : List String := (networks m).filterMap macOf

def getUsedMacs (disk : Disk) : List String := (loadAllMachines syntaxError disk).flatMap macs

/-- `removeOrphan()`; `locked` is the refusal of a machine lock that another holds. The directory
is looked at again under the lock. -/
def removeOrphan (host : Host) (disk : Disk) (name : String) (locked : Option QuickCHRError) :
    Except QuickCHRError (Bool × Disk) := do
  assertPathSafeName host name "machine"
  if !isOrphanMachineDir syntaxError host disk name then return (false, disk)
  match locked with
  | some refusal => throw refusal
  | none =>
      if !isOrphanMachineDir syntaxError host disk name then return (false, disk)
      return (true, disk.erase name)

end Reading

/-- The state of a machine, as `saveMachine()` is given it. -/
structure MachineRecord (name : String) where
  fields : Fields
  distinct : Json.Distinct (.obj fields)
  shape : stateShapeProblem (.obj fields) = none
  named : fields.get "name" = some (.str name)
  networks : ∃ items, fields.get "networks" = some (.arr items)

def MachineRecord.text {name : String} (m : MachineRecord name) : List Char :=
  Json.stringify (.obj m.fields) ++ ['\n']

/-- How far a save has come, or came before it was interrupted: not started, or the first
characters written after the truncation and perhaps half of the next. -/
inductive Progress
  | before
  | wrote (characters : ℕ) (half : Bool)

/-- What stands for the first bytes of a character that takes several. -/
def halfOf (next : Option Char) : List Char :=
  match next with
  | some c => if 128 ≤ c.toNat then ['\ufffd'] else []
  | none => []

def saving {name : String} (old : Option (MachineRecord name)) (new : MachineRecord name) :
    Progress → Option (List Char)
  | .before => old.map MachineRecord.text
  | .wrote characters half =>
      some (new.text.take characters ++ if half then halfOf new.text[characters]? else [])

/-- Nothing has been written, or all but the line end. -/
def Whole {name : String} (new : MachineRecord name) : Progress → Prop
  | .before => True
  | .wrote characters _ => new.text.length ≤ characters + 1

variable {name : String} {syntaxError : List Char → String}

theorem migrate_networks {state : Fields} {items : List Json}
    (h : state.get "networks" = some (.arr items)) : migrate state = state := by
  rw [migrate, h]
  rfl

/-- A complete text, with or without its line end, is read as the record that was saved. -/
theorem loadText_whole (m : MachineRecord name) {spaces : List Char}
    (blank : ∀ c ∈ spaces, JsonText.isSpace c) :
    loadText syntaxError name (Json.stringify (.obj m.fields) ++ spaces) = .ok m.fields := by
  obtain ⟨items, networks⟩ := m.networks
  rw [loadText, Json.parse_stringify m.distinct blank]
  simp only [m.shape, migrate_networks networks]

theorem loadText_text (m : MachineRecord name) : loadText syntaxError name m.text = .ok m.fields :=
  loadText_whole m (by simp [JsonText.isSpace])

theorem halfOf_broken (next : Option Char) (half : Bool) :
    Json.Broken (if half then halfOf next else []) := by
  cases half with
  | false => exact .inl rfl
  | true =>
      cases next with
      | none => exact .inl rfl
      | some c =>
          by_cases wide : 128 ≤ c.toNat
          · exact .inr (if_pos wide)
          · exact .inl (if_neg wide)

/-- The file in the middle of a save is read as the new record, or not at all. -/
theorem loadText_saving {new : MachineRecord name} {characters : ℕ} {half : Bool} :
    (Whole new (.wrote characters half) ∧
        loadText syntaxError name
          (new.text.take characters ++ if half then halfOf new.text[characters]? else []) =
            .ok new.fields) ∨
      ¬ Whole new (.wrote characters half) ∧ ∃ e, loadText syntaxError name
        (new.text.take characters ++ if half then halfOf new.text[characters]? else []) = .error e := by
  by_cases whole : Whole new (.wrote characters half)
  · refine .inl ⟨whole, ?_⟩
    have length : new.text.length = (Json.stringify (.obj new.fields)).length + 1 := by
      rw [MachineRecord.text, List.length_append, List.length_singleton]
    rcases Nat.lt_or_ge characters new.text.length with last | all
    · have at_ : characters = (Json.stringify (.obj new.fields)).length := by
        have : new.text.length ≤ characters + 1 := whole
        omega
      have next : new.text[characters]? = some '\n' := by
        rw [at_, MachineRecord.text, List.getElem?_concat_length]
      have noHalf : (if half then halfOf (some '\n') else []) = [] := by cases half <;> rfl
      rw [next, noHalf, at_, MachineRecord.text, List.take_left']
      · exact loadText_whole new (fun _ member => nomatch member)
      · rfl
    · have next : new.text[characters]? = none := List.getElem?_eq_none all
      have noHalf : (if half then halfOf none else []) = [] := by cases half <;> rfl
      rw [next, noHalf, List.append_nil, List.take_of_length_le all]
      exact loadText_text new
  · refine .inr ⟨whole, ?_⟩
    cases parsed : Json.parse
        (new.text.take characters ++ if half then halfOf new.text[characters]? else []) with
    | none =>
        rw [loadText, parsed]
        exact ⟨_, rfl⟩
    | some v =>
        obtain ⟨-, ended⟩ := Json.parse_cut new.distinct
          (List.take_append_drop characters new.text).symm (halfOf_broken _ half) parsed
        have few : (new.text.drop characters).length ≤ 1 := by
          rcases ended with none | one
          · rw [none]
            exact Nat.zero_le 1
          · rw [one]
            exact Nat.le_refl 1
        rw [List.length_drop] at few
        exact absurd (show new.text.length ≤ characters + 1 by omega) whole

/-- The directories, with the save of one machine at some point. -/
def Disk.during (disk : Disk) (old : Option (MachineRecord name)) (new : MachineRecord name)
    (progress : Progress) : Disk := disk.set name (saving old new progress)

theorem loadMachine_set (disk : Disk) (text : List Char) :
    loadMachine syntaxError (disk.set name (some text)) name =
      (loadText syntaxError name text).map some := by
  rw [loadMachine, Record.get_set_self]
  rfl

/-- Where the file is there and whole, the old record or the new one is loaded. -/
theorem loadMachine_whole {old : Option (MachineRecord name)} {new : MachineRecord name}
    {progress : Progress} (disk : Disk) (whole : Whole new progress)
    (saved : (saving old new progress).isSome) :
    ∃ m : MachineRecord name, (old = some m ∨ m = new) ∧
      loadMachine syntaxError (disk.during old new progress) name = .ok (some m.fields) := by
  cases progress with
  | before =>
      cases old with
      | none => cases saved
      | some old =>
          refine ⟨old, .inl rfl, ?_⟩
          rw [Disk.during, saving, Option.map_some, loadMachine_set, loadText_text]
          rfl
  | wrote characters half =>
      refine ⟨new, .inr rfl, ?_⟩
      rcases @loadText_saving name syntaxError new characters half with ⟨-, loads⟩ | ⟨torn, -⟩
      · rw [Disk.during, saving, loadMachine_set, loads]
        rfl
      · exact absurd whole torn

theorem loadMachine_torn {old : Option (MachineRecord name)} {new : MachineRecord name}
    {progress : Progress} (disk : Disk) (torn : ¬ Whole new progress) :
    ∃ e, loadMachine syntaxError (disk.during old new progress) name = .error e := by
  cases progress with
  | before => exact absurd trivial torn
  | wrote characters half =>
      rcases @loadText_saving name syntaxError new characters half with ⟨whole, -⟩ | ⟨-, e, fails⟩
      · exact absurd whole torn
      · refine ⟨e, ?_⟩
        rw [Disk.during, saving, loadMachine_set, fails]
        rfl

theorem tryLoadMachine_of_load {disk : Disk} {state : Fields}
    (h : loadMachine syntaxError disk name = .ok (some state)) :
    (tryLoadMachine syntaxError disk name).state? = some state := by
  rw [tryLoadMachine, h]
  rfl

theorem mem_loadAllMachines {disk : Disk} {state : Fields} (dir : name ∈ disk.map Prod.fst)
    (h : loadMachine syntaxError disk name = .ok (some state)) :
    state ∈ loadAllMachines syntaxError disk :=
  List.mem_filterMap.mpr ⟨name, dir, tryLoadMachine_of_load h⟩

theorem not_orphan_of_load {host : Host} {disk : Disk} {state : Fields}
    (h : loadMachine syntaxError disk name = .ok (some state)) :
    isOrphanMachineDir syntaxError host disk name = false := by
  rw [isOrphanMachineDir, isReadableMachine, tryLoadMachine_of_load h, Option.isSome_some,
    Bool.not_true, Bool.and_false]

theorem removeOrphan_of_not_orphan {host : Host} {disk after : Disk} {locked : Option QuickCHRError}
    (h : isOrphanMachineDir syntaxError host disk name = false) :
    removeOrphan syntaxError host disk name locked ≠ .ok (true, after) := by
  intro removed
  unfold removeOrphan at removed
  obtain ⟨-, -, removed⟩ := bind_eq_ok.mp removed
  rw [h] at removed
  cases removed

/-- What the readers of the other processes find in the middle of a save. -/
structure Intact (syntaxError : List Char → String) (host : Host) (disk : Disk)
    (old : Option (MachineRecord name)) (new : MachineRecord name) (progress : Progress) : Prop where
  loaded : loadMachine syntaxError (disk.during old new progress) name =
      .ok (old.map MachineRecord.fields) ∨
    loadMachine syntaxError (disk.during old new progress) name = .ok (some new.fields)
  /-- The machine is listed, and its port base and addresses count as used. -/
  listed : (saving old new progress).isSome → ∃ m : MachineRecord name, (old = some m ∨ m = new) ∧
    m.fields ∈ loadAllMachines syntaxError (disk.during old new progress) ∧
    (∀ base, portBase m.fields = some base →
      base ∈ getUsedPortBases syntaxError (disk.during old new progress)) ∧
    ∀ mac ∈ macs m.fields, mac ∈ getUsedMacs syntaxError (disk.during old new progress)
  kept : (saving old new progress).isSome → ∀ locked after,
    removeOrphan syntaxError host (disk.during old new progress) name locked ≠ .ok (true, after)

/-- The readers find the old record or the new one exactly when nothing has been written yet, or
all but the line end. -/
theorem record_never_torn (syntaxError : List Char → String) (host : Host) (disk : Disk)
    (old : Option (MachineRecord name)) (new : MachineRecord name) (progress : Progress) :
    Intact syntaxError host disk old new progress ↔ Whole new progress := by
  have dir : name ∈ (disk.during old new progress).map Prod.fst :=
    (Record.mem_keys_set disk name _).mpr (.inl rfl)
  constructor
  · intro intact
    by_contra torn
    obtain ⟨e, fails⟩ := @loadMachine_torn name syntaxError old new progress disk torn
    rcases intact.loaded with loads | loads <;> cases fails.symm.trans loads
  · intro whole
    refine ⟨?_, fun saved => ?_, fun saved locked after => ?_⟩
    · cases file : saving old new progress with
      | none =>
          cases progress with
          | wrote characters half => cases file
          | before =>
              have absent : old = none := Option.map_eq_none_iff.mp file
              refine .inl ?_
              rw [Disk.during, file, loadMachine, Record.get_set_self, absent]
              rfl
      | some text =>
          obtain ⟨m, which, loads⟩ := @loadMachine_whole name syntaxError old new progress disk whole
            (show (saving old new progress).isSome by rw [file]; rfl)
          rcases which with rfl | rfl
          · exact .inl loads
          · exact .inr loads
    · obtain ⟨m, which, loads⟩ := @loadMachine_whole name syntaxError old new progress disk whole saved
      have listed := mem_loadAllMachines dir loads
      exact ⟨m, which, listed, fun base is => List.mem_filterMap.mpr ⟨_, listed, is⟩,
        fun mac member => List.mem_flatMap.mpr ⟨_, listed, member⟩⟩
    · obtain ⟨m, -, loads⟩ := @loadMachine_whole name syntaxError old new progress disk whole saved
      exact removeOrphan_of_not_orphan (not_orphan_of_load loads)

/-- The record of a machine in the state `status`. -/
def labFields (status : String) : Fields :=
  [("name", .str "lab"), ("version", .str "7.22"), ("arch", .str "x86"), ("status", .str status),
    ("machineDir", .str "/data/machines/lab"), ("portBase", .num 9100), ("ports", .obj []),
    ("packages", .arr []), ("networks", .arr [.obj [("specifier", .str "user"),
      ("id", .str "net0"), ("mac", .str "02:1b:44:11:3a:b7")]])]

def labMachine (status : String) : MachineRecord "lab" where
  fields := labFields status
  distinct := by
    refine .obj (by simp [labFields]) fun m member => ?_
    simp only [labFields, List.mem_cons, List.not_mem_nil, or_false] at member
    rcases member with rfl | rfl | rfl | rfl | rfl | rfl | rfl | rfl | rfl
    iterate 5 exact .str _
    · exact .num _
    · exact .obj List.nodup_nil nofun
    · exact .arr nofun
    · refine .arr fun v member => ?_
      rw [List.mem_singleton.mp member]
      refine .obj (by simp) fun m member => ?_
      simp only [List.mem_cons, List.not_mem_nil, or_false] at member
      rcases member with rfl | rfl | rfl <;> exact .str _
  shape := rfl
  named := rfl
  networks := ⟨_, rfl⟩

def endOfInput (_ : List Char) : String := "JSON Parse error: Unexpected EOF"

/-- The save of a stopped machine, right after the truncation. -/
def stopping : Disk := Disk.during [] (some (labMachine "running")) (labMachine "stopped") (.wrote 0 false)

/-- No machine is listed, its port base and address are free, and the removal of orphans takes the
directory. -/
theorem record_never_torn_fails :
    ¬ Intact endOfInput ⟨false, "networks"⟩ [] (some (labMachine "running")) (labMachine "stopped")
        (.wrote 0 false) ∧
      loadAllMachines endOfInput stopping = [] ∧ getUsedPortBases endOfInput stopping = [] ∧
      getUsedMacs endOfInput stopping = [] ∧
      removeOrphan endOfInput ⟨false, "networks"⟩ stopping "lab" none = .ok (true, []) := by
  refine ⟨fun intact => ?_, rfl, rfl, rfl, rfl⟩
  obtain ⟨m, -, listed, -⟩ := intact.listed rfl
  exact List.not_mem_nil listed

end Quickchr.MachineFiles
