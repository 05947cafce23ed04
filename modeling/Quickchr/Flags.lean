import Quickchr.MachineState
import Quickchr.DeviceMode

/-!
# Command-line flags

How the arguments of a command are read into flags and positionals, and what the device-mode flags
among them describe.
-/
namespace Quickchr.Cli

open DeviceMode

def VALUE_FLAGS : List String :=
  ["version", "channel", "arch", "name", "cpu", "mem", "accel", "add-package", "port-base", "forward",
    "add-network", "boot-disk-format", "boot-size", "add-disk", "device-mode", "device-mode-enable",
    "device-mode-disable", "add-user", "timeout-extra", "license-level", "license-account",
    "license-password", "qemu-arg", "via", "user", "password", "timeout", "path", "data", "script",
    "account", "level", "package", "mode", "port", "group", "shell", "lines", "older-than", "max-age",
    "max-size"]

def REMOVED_FLAGS : Record String :=
  [("vmnet-shared", "--add-network shared"),
    ("vmnet-bridge", "--add-network bridged:<iface>"),
    ("install-deps", "quickchr doctor (it never installed anything; doctor lists missing host " ++
      "dependencies and how to install them)")]

inductive FlagValue
  | bool (b : Bool)
  | text (s : String)
  | texts (ss : List String)
  deriving DecidableEq

abbrev Flags := Record FlagValue

/-- Assigning `__proto__` on a plain object adds no key. -/
def setFlag (flags : Flags) (key : String) (value : FlagValue) : Flags :=
  if key = "__proto__" then flags else flags.set key value

def appendFlagValue (flags : Flags) (key value : String) : Flags :=
  match flags.get key with
  | some (.texts existing) => setFlag flags key (.texts (existing ++ [value]))
  | some (.text existing) => setFlag flags key (.texts [existing, value])
  | _ => setFlag flags key (.text value)

def rejectRemovedFlag (key : String) : Except QuickCHRError Unit :=
  match REMOVED_FLAGS.get key with
  | none => .ok ()
  | some replacement =>
      .error { code := .INVALID_ARGUMENT, message := s!"--{key} was removed. Use: {replacement}" }

/-- `arg.slice(n)`. -/
def slice (arg : String) (n : ℕ) : String := String.ofList (arg.toList.drop n)

/-- The parts of `--key=value`; `none` for an argument without `=`. -/
def keyValue (arg : String) : Option (String × String) :=
  match (arg.toList.drop 2).dropWhile (· ≠ '=') with
  | [] => none
  | _ :: value => some (String.ofList ((arg.toList.drop 2).takeWhile (· ≠ '=')), String.ofList value)

def parse (flags : Flags) (positional : List String) :
    List String → Except QuickCHRError (Flags × List String)
  | [] => .ok (flags, positional)
  | arg :: rest =>
      if arg = "--" then .ok (flags, positional ++ rest)
      else if Text.startsWith arg "--" then
        match keyValue arg with
        | some (key, value) =>
            rejectRemovedFlag key >>= fun _ => parse (appendFlagValue flags key value) positional rest
        | none =>
            if Text.startsWith arg "--no-" then
              rejectRemovedFlag (slice arg 5) >>= fun _ =>
                parse (setFlag flags (slice arg 5) (.bool false)) positional rest
            else
              let key := slice arg 2
              rejectRemovedFlag key >>= fun _ =>
                match rest with
                | [] => .ok (setFlag flags key (.bool true), positional)
                | next :: following =>
                    if key ∈ VALUE_FLAGS ∧ ¬ Text.startsWith next "--" then
                      parse (appendFlagValue flags key next) positional following
                    else parse (setFlag flags key (.bool true)) positional (next :: following)
      else parse flags (positional ++ [arg]) rest

def parseFlags (argv : List String) : Except QuickCHRError (Flags × List String) := parse [] [] argv

def lastFlagValue (flags : Flags) (key : String) : Option FlagValue :=
  match flags.get key with
  | some (.texts ss) => ss.getLast?.map .text
  | value => value

def flag (flags : Flags) (key : String) : Option String :=
  match lastFlagValue flags key with
  | some (.text s) => some s
  | _ => none

def flagList (flags : Flags) (key : String) : List String :=
  match flags.get key with
  | some (.texts ss) => ss
  | some (.text s) => [s]
  | _ => []

def csvList (values : List String) : List String :=
  (((values.flatMap (Text.split · ',')).map Text.trim).filter (· ≠ "")).eraseDups

/-- A list that is given only if there is something in it. -/
def filled (list : List String) : Option (List String) := if list = [] then none else some list

def deviceModeFromFlags (flags : Flags) : Option DeviceModeOptions :=
  let mode := flag flags "device-mode"
  let enable := csvList (flagList flags "device-mode-enable")
  let disable := csvList (flagList flags "device-mode-disable")
  if flags.get "device-mode" = some (.bool false) then some { mode := some "skip" }
  else if mode = none ∧ enable = [] ∧ disable = [] then none
  else
    some { mode := some (mode.getD "auto"), enable := filled enable, disable := filled disable }

section

variable {flags : Flags} {positional rest : List String} {arg key k value : String}

theorem get_setFlag_self (own : key ≠ "__proto__") (v : FlagValue) :
    (setFlag flags key v).get key = some v := by
  rw [setFlag, if_neg own, Record.get_set_self]

theorem get_setFlag_ne (h : k ≠ key) (v : FlagValue) : (setFlag flags key v).get k = flags.get k := by
  unfold setFlag
  split
  · rfl
  · exact Record.get_set_ne _ _ _ h

/-- What a flag with this value holds after one more. -/
def appended (old : Option FlagValue) (value : String) : FlagValue :=
  match old with
  | some (.texts existing) => .texts (existing ++ [value])
  | some (.text existing) => .texts [existing, value]
  | _ => .text value

theorem appendFlagValue_eq :
    appendFlagValue flags key value = setFlag flags key (appended (flags.get key) value) := by
  unfold appendFlagValue appended
  split <;> rfl

theorem keyValue_eq_some (starts : Text.startsWith arg "--" = true)
    (h : keyValue arg = some (key, value)) : arg = "--" ++ key ++ "=" ++ value := by
  obtain ⟨body, is⟩ := List.isPrefixOf_iff_prefix.mp starts
  have dropped : arg.toList.drop 2 = body := by rw [← is]; rfl
  unfold keyValue at h
  rw [dropped] at h
  split at h
  · cases h
  · rename_i c rest after
    obtain ⟨rfl, rfl⟩ := Prod.mk.inj (Option.some.inj h)
    have equals : c = '=' := by
      have head := List.head?_dropWhile_not (· ≠ '=') body
      rw [after] at head
      simpa using head
    have parts := List.takeWhile_append_dropWhile (p := (· ≠ '=')) (l := body)
    rw [after, equals] at parts
    rw [← String.toList_inj, ← is]
    simp only [String.toList_append, String.toList_ofList, List.append_assoc]
    conv_lhs => rw [← parts]
    rfl

/-- The flags that take a value are spelled plainly, and none of them was removed. -/
theorem spelling (h : key ∈ VALUE_FLAGS) :
    "--" ++ key ≠ "--" ∧ Text.startsWith ("--" ++ key) "--" = true ∧ keyValue ("--" ++ key) = none ∧
      Text.startsWith ("--" ++ key) "--no-" = false ∧ slice ("--" ++ key) 2 = key ∧
      REMOVED_FLAGS.get key = none ∧ key ≠ "__proto__" := by
  revert key
  decide +kernel

theorem parse_positional (plain : Text.startsWith arg "--" = false) :
    parse flags positional (arg :: rest) = parse flags (positional ++ [arg]) rest := by
  have notEnd : arg ≠ "--" := by
    rintro rfl
    exact absurd plain (by decide)
  rw [parse, if_neg notEnd, plain, if_neg Bool.false_ne_true]

theorem parse_valueFlag (h : key ∈ VALUE_FLAGS) :
    parse flags positional (("--" ++ key) :: rest) =
      match rest with
      | [] => .ok (setFlag flags key (.bool true), positional)
      | next :: following =>
          if Text.startsWith next "--" then
            parse (setFlag flags key (.bool true)) positional (next :: following)
          else parse (appendFlagValue flags key next) positional following := by
  obtain ⟨notEnd, starts, bare, positive, name, kept, -⟩ := spelling h
  rw [parse, if_neg notEnd, if_pos starts, bare]
  dsimp only
  rw [positive, if_neg Bool.false_ne_true, name, rejectRemovedFlag, kept]
  cases rest with
  | nil => rfl
  | cons next following =>
      simp only [bind, Except.bind, h, true_and]
      split
      · rfl
      · rename_i flag
        rw [if_pos (not_not.mp flag)]

/-- An argument that reads as a flag, before another flag or at the end. -/
theorem parse_stray (starts : Text.startsWith arg "--" = true) (notEnd : arg ≠ "--")
    (follow : ∀ next, rest.head? = some next → Text.startsWith next "--" = true) :
    (∃ error, parse flags positional (arg :: rest) = .error error) ∨
      ∃ flags', parse flags positional (arg :: rest) = parse flags' positional rest ∧
        ∀ key, flags'.get key = flags.get key ∨ (∃ b, flags'.get key = some (.bool b)) ∨
          ∃ value, keyValue arg = some (key, value) ∧
            flags'.get key = some (appended (flags.get key) value) := by
  have set : ∀ (key : String) (v : FlagValue) (k : String),
      (setFlag flags key v).get k = flags.get k ∨ k = key ∧ (setFlag flags key v).get k = some v := by
    intro key v k
    by_cases own : key = "__proto__"
    · left; rw [setFlag, if_pos own]
    · by_cases here : k = key
      · subst here
        exact .inr ⟨rfl, get_setFlag_self own v⟩
      · exact .inl (get_setFlag_ne here v)
  rw [parse, if_neg notEnd, if_pos starts]
  cases pair : keyValue arg with
  | some kv =>
      obtain ⟨key, value⟩ := kv
      dsimp only
      cases rejected : rejectRemovedFlag key with
      | error e => exact .inl ⟨e, rfl⟩
      | ok =>
          refine .inr ⟨_, rfl, fun k => ?_⟩
          rw [appendFlagValue_eq]
          rcases set key (appended (flags.get key) value) k with same | ⟨rfl, is⟩
          · exact .inl same
          · exact .inr (.inr ⟨value, rfl, is⟩)
  | none =>
      dsimp only
      split
      · cases rejected : rejectRemovedFlag (slice arg 5) with
        | error e => exact .inl ⟨e, rfl⟩
        | ok =>
            refine .inr ⟨_, rfl, fun k => ?_⟩
            rcases set (slice arg 5) (.bool false) k with same | ⟨-, is⟩
            · exact .inl same
            · exact .inr (.inl ⟨false, is⟩)
      · cases rejected : rejectRemovedFlag (slice arg 2) with
        | error e => exact .inl ⟨e, rfl⟩
        | ok =>
            refine .inr ⟨setFlag flags (slice arg 2) (.bool true), ?_, fun k => ?_⟩
            · cases rest with
              | nil => rfl
              | cons next rest =>
                  have starts := follow next rfl
                  simp only [bind, Except.bind, starts, not_true_eq_false, and_false, if_false]
            · rcases set (slice arg 2) (.bool true) k with same | ⟨-, is⟩
              · exact .inl same
              · exact .inr (.inl ⟨true, is⟩)

/-- Flags with their values, each spelled as two arguments. -/
def arguments (given : List (String × String)) : List String :=
  given.flatMap fun e => ["--" ++ e.1, e.2]

/-- A flag that did not get its value: it is bare, unless the value spells the flag again. -/
def Spoiled (flags : Flags) (key value : String) : Prop :=
  (∃ b, flags.get key = some (.bool b)) ∨
    ∃ v, value = "--" ++ key ++ "=" ++ v ∧ flags.get key = some (.text v)

theorem head_arguments {given : List (String × String)} (known : ∀ e ∈ given, e.1 ∈ VALUE_FLAGS)
    {next : String} (h : (arguments given).head? = some next) : Text.startsWith next "--" = true := by
  cases given with
  | nil => cases h
  | cons e given =>
      obtain rfl : "--" ++ e.1 = next := Option.some.inj h
      exact (spelling (known e List.mem_cons_self)).2.1

theorem parse_arguments (positional : List String) {given : List (String × String)}
    (known : ∀ e ∈ given, e.1 ∈ VALUE_FLAGS)
    (nodup : (given.map Prod.fst).Nodup) (plain : ∀ e ∈ given, Text.startsWith e.2 "--" = false)
    (flags : Flags) :
    ∃ final, parse flags positional (arguments given) = .ok (final, positional) ∧
      (∀ e ∈ given, final.get e.1 = some (appended (flags.get e.1) e.2)) ∧
      ∀ key ∉ given.map Prod.fst, final.get key = flags.get key := by
  induction given generalizing flags with
  | nil => exact ⟨flags, rfl, fun _ none => absurd none List.not_mem_nil, fun _ _ => rfl⟩
  | cons e given ih =>
      obtain ⟨key, value⟩ := e
      rw [List.map_cons, List.nodup_cons] at nodup
      rw [List.forall_mem_cons] at known plain
      obtain ⟨final, parsed, taken, others⟩ :=
        ih known.2 nodup.2 plain.2 (setFlag flags key (appended (flags.get key) value))
      have own : key ≠ "__proto__" := (spelling known.1).2.2.2.2.2.2
      refine ⟨final, ?_, List.forall_mem_cons.mpr ⟨?_, fun e' member => ?_⟩, fun k outside => ?_⟩
      · rw [arguments, List.flatMap_cons, List.cons_append, parse_valueFlag known.1]
        simp only [List.singleton_append, plain.1, Bool.false_eq_true, if_false]
        rw [appendFlagValue_eq]
        exact parsed
      · rw [others key nodup.1, get_setFlag_self own]
      · have other : e'.1 ≠ key := fun same => nodup.1 (List.mem_map.mpr ⟨e', member, same⟩)
        rw [taken e' member, get_setFlag_ne other]
      · rw [List.map_cons, List.mem_cons, not_or] at outside
        rw [others k outside.2, get_setFlag_ne outside.1]

/-- A value that looks like a flag is not taken, and one of these flags ends up without its value. -/
theorem spoiled_of_dashed {given : List (String × String)} (known : ∀ e ∈ given, e.1 ∈ VALUE_FLAGS)
    (nodup : (given.map Prod.fst).Nodup) (dashed : ∃ e ∈ given, Text.startsWith e.2 "--" = true)
    {final : Flags} {positional' : List String}
    (h : parse flags positional (arguments given) = .ok (final, positional')) :
    ∃ e ∈ given, Text.startsWith e.2 "--" = true ∧ Spoiled final e.1 e.2 := by
  induction given generalizing flags positional with
  | nil =>
      obtain ⟨_, none, _⟩ := dashed
      cases none
  | cons e given ih =>
      obtain ⟨key, value⟩ := e
      rw [List.map_cons, List.nodup_cons] at nodup
      rw [List.forall_mem_cons] at known
      have own : key ≠ "__proto__" := (spelling known.1).2.2.2.2.2.2
      rw [arguments, List.flatMap_cons, List.cons_append, parse_valueFlag known.1] at h
      simp only [List.singleton_append] at h
      split at h
      · rename_i looks
        by_cases ends : value = "--"
        · -- The rest of the line is positional.
          subst ends
          rw [parse, if_pos rfl] at h
          obtain ⟨rfl, -⟩ := Prod.mk.inj (Except.ok.inj h)
          exact ⟨_, List.mem_cons_self, looks, .inl ⟨true, get_setFlag_self own _⟩⟩
        · obtain ⟨error, failed⟩ | ⟨flags', continues, effect⟩ :=
            parse_stray looks ends fun next => head_arguments known.2
          · rw [arguments] at failed
            rw [failed] at h
            cases h
          · rw [arguments] at continues
            rw [continues] at h
            by_cases later : ∃ e ∈ given, Text.startsWith e.2 "--" = true
            · obtain ⟨e, member, spoiled⟩ := ih known.2 nodup.2 later h
              exact ⟨e, List.mem_cons_of_mem _ member, spoiled⟩
            · have plain : ∀ e ∈ given, Text.startsWith e.2 "--" = false := fun e member =>
                Bool.eq_false_iff.mpr fun looks => later ⟨e, member, looks⟩
              obtain ⟨final', parsed, -, others⟩ := parse_arguments positional known.2 nodup.2 plain flags'
              rw [arguments] at parsed
              rw [parsed] at h
              obtain ⟨rfl, -⟩ := Prod.mk.inj (Except.ok.inj h)
              refine ⟨_, List.mem_cons_self, looks, ?_⟩
              rw [Spoiled, others key nodup.1]
              rcases effect key with same | bare | ⟨v, spelled, is⟩
              · exact .inl ⟨true, same.trans (get_setFlag_self own _)⟩
              · exact .inl bare
              · refine .inr ⟨v, keyValue_eq_some looks spelled, ?_⟩
                rw [is, get_setFlag_self own]
                rfl
      · rename_i taken
        obtain ⟨e, member, looks⟩ := dashed
        rcases List.mem_cons.mp member with rfl | later
        · exact absurd looks taken
        · obtain ⟨e, member, spoiled⟩ := ih known.2 nodup.2 ⟨e, later, looks⟩ h
          exact ⟨e, List.mem_cons_of_mem _ member, spoiled⟩

end

theorem mem_csvList {values : List String} {f : String} :
    f ∈ normalizeFeatureList (filled (csvList values)) ↔
      f ≠ "" ∧ ∃ value ∈ values, ∃ piece ∈ Text.split value ',', norm piece = f := by
  have list : (filled (csvList values)).getD [] = csvList values := by
    unfold filled
    split
    · rename_i empty; rw [empty]; rfl
    · rfl
  have again : ∀ piece, norm (Text.trim piece) = norm piece := fun piece => by
    rw [DeviceMode.norm, Text.trim_trim, ← DeviceMode.norm]
  rw [normalizeFeatureList, list, List.mem_eraseDups, List.mem_filter, List.mem_map, decide_eq_true_eq,
    and_comm]
  refine and_congr_right fun nonempty => ?_
  constructor
  · rintro ⟨item, member, rfl⟩
    obtain ⟨entry, listed, split⟩ := List.mem_flatMap.mp member
    rw [csvList, List.mem_eraseDups, List.mem_filter, List.mem_map] at listed
    obtain ⟨⟨piece, cut, rfl⟩, -⟩ := listed
    obtain ⟨value, given, cut⟩ := List.mem_flatMap.mp cut
    have clean : ',' ∉ (Text.trim piece).toList := fun comma =>
      Text.not_mem_of_mem_split cut (Text.mem_of_mem_trim comma)
    rw [Text.split_eq_singleton clean, List.mem_singleton] at split
    subst split
    exact ⟨value, given, piece, cut, (again piece).symm⟩
  · rintro ⟨value, given, piece, cut, rfl⟩
    have clean : ',' ∉ (Text.trim piece).toList := fun comma =>
      Text.not_mem_of_mem_split cut (Text.mem_of_mem_trim comma)
    refine ⟨Text.trim piece, List.mem_flatMap.mpr ⟨Text.trim piece, ?_, ?_⟩, again piece⟩
    · rw [csvList, List.mem_eraseDups, List.mem_filter, decide_eq_true_eq]
      refine ⟨List.mem_map_of_mem (List.mem_flatMap.mpr ⟨value, given, cut⟩), fun blank => nonempty ?_⟩
      rw [← again, blank]
      rfl
    · rw [Text.split_eq_singleton clean]
      exact List.mem_singleton_self _

end Quickchr.Cli
