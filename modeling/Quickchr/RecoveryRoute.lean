import Quickchr.Lib.ShellWords
import Quickchr.Flags
import Quickchr.DeviceModeRecord
import Quickchr.Names
import Mathlib.Data.String.Basic

/-!
# The route that a refusal prints

A refused device-mode request is answered with a command line. Followed, it is split into words by
the shell, its flags are parsed, and the request that they describe is resolved.
-/
namespace Quickchr.RecoveryRoute

open DeviceMode ProvisioningWindow Names Cli

/-- What the arguments of `set` ask for: the machine that they address, and the request. -/
def addressed (argv : List String) : Option (Option String × ResolvedDeviceModeOptions) :=
  match parseFlags argv with
  | .ok (flags, positional) =>
      some (positional.head?.or (flag flags "name"),
        resolveDeviceModeOptions (deviceModeFromFlags flags))
  | .error _ => none

def followed (line : String) : Option (Option String × ResolvedDeviceModeOptions) :=
  match ShellWords.words line with
  | some ("quickchr" :: "set" :: argv) => addressed argv
  | _ => none

/-- The same mode and the same feature values. -/
def SameSelection (r r' : ResolvedDeviceModeOptions) : Prop :=
  r'.mode = r.mode ∧ ∀ f, r'.features.get f = r.features.get f

theorem isLiteral_of_isPlain {c : Char} (h : isPlain c = true) : ShellWords.isLiteral c = true := by
  have other : ∀ d ∈ [' ', '\t', '#', '\x27', '\x22', '\\'], c ≠ d := by
    rintro d member rfl
    have quoted : [' ', '\t', '#', '\x27', '\x22', '\\'].all (isPlain · = false) = true := by
      decide
    rw [of_decide_eq_true (List.all_eq_true.mp quoted c member)] at h
    cases h
  have special : ShellWords.isSpecial c = false := by
    refine decide_eq_false fun member => ?_
    have quoted : "|&;<>()$`*?[~\n".toList.all (isPlain · = false) = true := by decide
    rw [of_decide_eq_true (List.all_eq_true.mp quoted c member)] at h
    cases h
  simp only [List.forall_mem_cons, List.not_mem_nil, false_imp_iff, implies_true, and_true] at other
  obtain ⟨space, tab, hash, single, double, slash⟩ := other
  simp only [ShellWords.isLiteral, ShellWords.isBlank, ShellWords.SINGLE, ShellWords.DOUBLE, special,
    space, tab, hash, single, double, slash, or_self, decide_false, Bool.not_false, ne_eq,
    not_false_eq_true, decide_true, Bool.and_self]

theorem shellQuote_run (v : String) (rest : List Char) :
    ShellWords.run .gap ((shellQuote v).toList ++ rest) = ShellWords.run (.word v.toList) rest := by
  unfold shellQuote
  split
  · rename_i plain
    refine ShellWords.run_gap_literal (fun c member => ?_) ?_
    · exact isLiteral_of_isPlain (List.all_eq_true.mp plain.2 c member)
    · rw [ne_eq, String.toList_eq_nil_iff]
      exact plain.1
  · rw [String.toList_ofList]
    exact ShellWords.run_gap_singleQuote

/-- The features that are set to this value, in the order they are printed in. -/
def named (r : ResolvedDeviceModeOptions) (value : DeviceModeBool) : List String :=
  ((r.features.filter (·.2 = value)).map Prod.fst).insertionSort Text.Before

/-- The flag for the features that are set to this value. -/
def side : DeviceModeBool → String
  | .yes => "device-mode-enable"
  | .no => "device-mode-disable"

variable {value : DeviceModeBool}

def listFlag (r : ResolvedDeviceModeOptions) (value : DeviceModeBool) : List (String × String) :=
  if named r value = [] then [] else [(side value, Text.join "," (named r value))]

/-- The flags that are printed, with their values. -/
def printed (r : ResolvedDeviceModeOptions) : List (String × String) :=
  (r.truthyMode.map ("device-mode", ·)).toList ++ listFlag r .yes ++ listFlag r .no

theorem mem_printed {r : ResolvedDeviceModeOptions} {e : String × String} :
    e ∈ printed r ↔ (∃ mode, r.truthyMode = some mode ∧ e = ("device-mode", mode)) ∨
      ∃ value, named r value ≠ [] ∧ e = (side value, Text.join "," (named r value)) := by
  have list : ∀ value, e ∈ listFlag r value ↔
      named r value ≠ [] ∧ e = (side value, Text.join "," (named r value)) := by
    intro value
    unfold listFlag
    split
    · rename_i empty; simp [empty]
    · rename_i filled; simp [filled]
  rw [printed, List.mem_append, List.mem_append, list, list, or_assoc, Option.mem_toList,
    Option.map_eq_some_iff]
  refine or_congr (exists_congr fun mode => and_congr_right fun _ => eq_comm) ?_
  constructor
  · rintro (enable | disable)
    · exact ⟨.yes, enable⟩
    · exact ⟨.no, disable⟩
  · rintro ⟨value, given⟩
    cases value with
    | yes => exact .inl given
    | no => exact .inr given

theorem mode_mem_printed {r : ResolvedDeviceModeOptions} {mode : String}
    (truthy : r.truthyMode = some mode) : ("device-mode", mode) ∈ printed r :=
  mem_printed.mpr (.inl ⟨mode, truthy, rfl⟩)

theorem list_mem_printed {r : ResolvedDeviceModeOptions} (filled : named r value ≠ []) :
    (side value, Text.join "," (named r value)) ∈ printed r :=
  mem_printed.mpr (.inr ⟨value, filled, rfl⟩)

theorem side_injective {value value' : DeviceModeBool} (h : side value = side value') : value = value' := by
  revert h
  cases value <;> cases value' <;> decide

theorem side_ne_mode : side value ≠ "device-mode" := by
  cases value <;> decide

theorem printed_known {r : ResolvedDeviceModeOptions} : ∀ e ∈ printed r, e.1 ∈ VALUE_FLAGS := by
  intro e member
  rcases mem_printed.mp member with ⟨mode, _, rfl⟩ | ⟨value, _, rfl⟩
  · show "device-mode" ∈ VALUE_FLAGS
    decide
  · cases value <;> simp only [side] <;> decide

theorem mode_not_printed {r : ResolvedDeviceModeOptions} (blank : r.truthyMode = none) :
    "device-mode" ∉ (printed r).map Prod.fst := by
  intro member
  obtain ⟨e, mem, key⟩ := List.mem_map.mp member
  rcases mem_printed.mp mem with ⟨mode, truthy, rfl⟩ | ⟨value, _, rfl⟩
  · rw [blank] at truthy
    cases truthy
  · exact side_ne_mode key

theorem nodup_printed {r : ResolvedDeviceModeOptions} : ((printed r).map Prod.fst).Nodup := by
  have order : ((printed r).map Prod.fst).Sublist
      ["device-mode", "device-mode-enable", "device-mode-disable"] := by
    have list : ∀ value, ((listFlag r value).map Prod.fst).Sublist [side value] := by
      intro value
      unfold listFlag
      split
      · exact List.nil_sublist _
      · exact List.Sublist.refl _
    have mode : ((r.truthyMode.map ("device-mode", ·)).toList.map Prod.fst).Sublist ["device-mode"] := by
      cases r.truthyMode with
      | none => exact List.nil_sublist _
      | some m => exact List.Sublist.refl _
    rw [printed, List.map_append, List.map_append]
    exact (mode.append (list .yes)).append (list .no)
  exact order.nodup (by decide)

theorem formatDeviceModeFlags_eq {r : ResolvedDeviceModeOptions} (applied : r.skip = false) :
    formatDeviceModeFlags r =
      Text.join " " ((printed r).map fun e => "--" ++ e.1 ++ " " ++ shellQuote e.2) := by
  have list : ∀ value,
      (listFlag r value).map (fun e => "--" ++ e.1 ++ " " ++ shellQuote e.2) =
        if named r value = [] then []
        else ["--" ++ side value ++ " " ++ shellQuote (Text.join "," (named r value))] := by
    intro value
    unfold listFlag
    split <;> rfl
  rw [formatDeviceModeFlags, applied, if_neg Bool.false_ne_true, printed, List.map_append,
    List.map_append, list, list]
  cases r.truthyMode <;> rfl

theorem printed_literal {key : String} (h : key ∈ VALUE_FLAGS) :
    "--" ++ key ≠ "" ∧ ∀ c ∈ ("--" ++ key).toList, ShellWords.isLiteral c = true := by
  have plain : ("--" ++ key).toList.all isPlain = true := by
    revert key
    decide
  have starts := (spelling h).2.1
  refine ⟨fun empty => ?_, fun c member => isLiteral_of_isPlain (List.all_eq_true.mp plain c member)⟩
  rw [empty] at starts
  exact absurd starts (by decide)

theorem run_printed {es : List (String × String)} {rest : List Char}
    (literal : ∀ e ∈ es, e.1 ≠ "" ∧ ∀ c ∈ e.1.toList, ShellWords.isLiteral c = true) :
    ShellWords.run .gap ((Text.join " " (es.map fun e => e.1 ++ " " ++ shellQuote e.2)).toList ++
        ' ' :: rest) =
      (ShellWords.run .gap rest).map ((es.flatMap fun e => [e.1.toList, e.2.toList]) ++ ·) := by
  -- One flag with its value, and the blank after it.
  have one : ∀ e : String × String, (e.1 ≠ "" ∧ ∀ c ∈ e.1.toList, ShellWords.isLiteral c = true) →
      ∀ rest, ShellWords.run .gap ((e.1 ++ " " ++ shellQuote e.2).toList ++ ' ' :: rest) =
        (ShellWords.run .gap rest).map ([e.1.toList, e.2.toList] ++ ·) := by
    rintro e ⟨filled, literal⟩ rest
    rw [String.toList_append, String.toList_append, List.append_assoc, List.append_assoc,
      ShellWords.run_gap_literal literal (by rwa [ne_eq, String.toList_eq_nil_iff])]
    change ShellWords.run (.word e.1.toList) (' ' :: ((shellQuote e.2).toList ++ ' ' :: rest)) = _
    rw [ShellWords.run_word_space, shellQuote_run, ShellWords.run_word_space, Option.map_map]
    rfl
  induction es with
  | nil =>
      rw [List.map_nil, Text.join, String.intercalate_nil, List.flatMap_nil]
      change ShellWords.run .gap (' ' :: rest) = _
      rw [ShellWords.run_gap_space]
      exact Option.map_id'.symm
  | cons e es ih =>
      have first := one e (literal e List.mem_cons_self)
      have later := ih fun e' member => literal e' (List.mem_cons_of_mem _ member)
      cases es with
      | nil =>
          rw [List.map_singleton, Text.join, String.intercalate_singleton, first]
          rfl
      | cons e' es =>
          rw [List.map_cons, List.map_cons, Text.join, String.intercalate_cons_cons,
            String.toList_append, String.toList_append, List.append_assoc, List.append_assoc]
          change ShellWords.run .gap ((e.1 ++ " " ++ shellQuote e.2).toList ++ ' ' ::
            ((Text.join " " ((e' :: es).map fun e => e.1 ++ " " ++ shellQuote e.2)).toList ++
              ' ' :: rest)) = _
          rw [first, later, Option.map_map, List.flatMap_cons]
          rfl

theorem words_route {name : String} {r : ResolvedDeviceModeOptions} (applied : r.skip = false) :
    ShellWords.words
        s!"quickchr set {shellQuote name} {formatDeviceModeFlags r}   # power-cycles the machine" =
      some ("quickchr" :: "set" :: name :: arguments (printed r)) := by
  have line : (s!"quickchr set {shellQuote name} {formatDeviceModeFlags r}   # power-cycles the machine").toList =
      "quickchr".toList ++ ' ' :: ("set".toList ++ ' ' :: ((shellQuote name).toList ++
        ' ' :: ((formatDeviceModeFlags r).toList ++ ' ' :: "  # power-cycles the machine".toList))) := by
    simp only [String.toList_append, toString, List.append_assoc]
    rfl
  have comment : ShellWords.run .gap "  # power-cycles the machine".toList = some [] := by
    decide
  have flags : formatDeviceModeFlags r = Text.join " "
      (((printed r).map fun e => ("--" ++ e.1, e.2)).map fun e => e.1 ++ " " ++ shellQuote e.2) := by
    rw [formatDeviceModeFlags_eq applied, List.map_map]
    rfl
  have literal : ∀ e ∈ (printed r).map fun e => ("--" ++ e.1, e.2),
      e.1 ≠ "" ∧ ∀ c ∈ e.1.toList, ShellWords.isLiteral c = true := by
    intro e member
    obtain ⟨given, mem, rfl⟩ := List.mem_map.mp member
    exact printed_literal (printed_known given mem)
  rw [ShellWords.words, line, ShellWords.run_gap_literal (List.all_eq_true.mp (by decide)) (by decide),
    ShellWords.run_word_space, ShellWords.run_gap_literal (List.all_eq_true.mp (by decide)) (by decide),
    ShellWords.run_word_space, shellQuote_run, ShellWords.run_word_space, flags, run_printed literal,
    comment]
  simp only [Option.map_some, List.append_nil, List.map_cons, String.ofList_toList, List.map_flatMap,
    List.map_nil, List.flatMap_map, arguments]

section

variable {r : ResolvedDeviceModeOptions} {flags : Flags} {value : DeviceModeBool} {f : String}

theorem mem_named (nodup : (r.features.map Prod.fst).Nodup) :
    f ∈ named r value ↔ r.features.get f = some value := by
  rw [named, List.mem_insertionSort, List.mem_map]
  constructor
  · rintro ⟨⟨g, v⟩, member, rfl⟩
    obtain ⟨mem, is⟩ := List.mem_filter.mp member
    obtain rfl : v = value := of_decide_eq_true is
    exact Record.get_of_mem nodup mem
  · intro is
    exact ⟨(f, value), List.mem_filter.mpr ⟨Record.mem_of_get is, decide_eq_true rfl⟩, rfl⟩

theorem nodup_named (nodup : (r.features.map Prod.fst).Nodup) : (named r value).Nodup := by
  rw [named, (List.perm_insertionSort _ _).nodup_iff]
  exact nodup.sublist (List.filter_sublist.map _)

/-- A value that was taken is read as the features it was made of. -/
theorem mem_list_taken {features : List String} (normalized : ∀ g ∈ features, Normalized g)
    (nonempty : features ≠ []) (is : flags.get (side value) = some (.text (Text.join "," features))) :
    f ∈ normalizeFeatureList (filled (csvList (flagList flags (side value)))) ↔ f ∈ features := by
  have pieces : Text.split (Text.join "," features) ',' = features :=
    Text.split_join rfl (fun g member => (normalized g member).comma) nonempty
  rw [mem_csvList, flagList, is]
  dsimp only
  simp only [List.mem_singleton, exists_eq_left, pieces]
  constructor
  · rintro ⟨-, g, member, rfl⟩
    rwa [(normalized g member).norm]
  · intro member
    exact ⟨(normalized f member).nonempty, f, member, (normalized f member).norm⟩

theorem length_norm_le (s : String) : (norm s).toList.length ≤ s.toList.length := by
  rw [DeviceMode.norm, Text.toLowerCase, String.toList_ofList, List.length_map]
  exact Text.length_trim_le s

theorem first_lost {features : List String} (normalized : ∀ g ∈ features, Normalized g)
    (nodup : features.Nodup) (first : features.head? = some f)
    (spoiled : Spoiled flags (side value) (Text.join "," features)) :
    f ∉ normalizeFeatureList (filled (csvList (flagList flags (side value)))) := by
  obtain ⟨rest, rfl⟩ : ∃ rest, features = f :: rest := by
    cases features with
    | nil => cases first
    | cons g rest => exact ⟨rest, by rw [Option.some.inj first]⟩
  rw [mem_csvList]
  rintro ⟨-, given, listed, piece, cut, is⟩
  obtain ⟨b, bare⟩ | ⟨v, spelled, text⟩ := spoiled
  · rw [flagList, bare] at listed
    cases listed
  · rw [flagList, text] at listed
    obtain rfl := List.mem_singleton.mp listed
    -- The flag's own name is part of the first feature.
    have clean : ',' ∉ ("--" ++ side value ++ "=").toList := by
      cases value <;> decide
    obtain ⟨short, tail, split, whole⟩ := Text.split_append (s := given) clean
    rw [← spelled, Text.split_join rfl (fun g member => (normalized g member).comma)
      (List.cons_ne_nil _ _)] at whole
    obtain ⟨longer, rfl⟩ := List.cons.inj whole
    rw [split] at cut
    rcases List.mem_cons.mp cut with rfl | later
    · have shorter := length_norm_le piece
      rw [is, longer, String.toList_append, List.length_append] at shorter
      have prefixed : 0 < ("--" ++ side value ++ "=").toList.length := by
        cases value <;> decide
      omega
    · rw [(normalized piece (List.mem_cons_of_mem _ later)).norm] at is
      subst is
      exact (List.nodup_cons.mp nodup).1 later

theorem dashed_resolveMode {value : String} (dashed : Text.startsWith (resolveMode value) "--" = true) :
    resolveMode value = value := by
  unfold resolveMode at dashed ⊢
  split
  · rename_i legacy
    rw [if_pos legacy] at dashed
    exact absurd dashed (by decide)
  · rename_i other
    rw [if_neg other] at dashed
    split
    · rename_i auto
      rw [if_pos auto] at dashed
      exact absurd dashed (by decide)
    · rfl

theorem mode_eq_some {o : Option DeviceModeOptions} {mode : String}
    (h : (resolveDeviceModeOptions o).mode = some mode) :
    ∃ given, o = some given ∧ mode = resolveMode (norm (given.mode.getD "auto")) := by
  cases o with
  | none => cases h
  | some given =>
      unfold resolveDeviceModeOptions at h
      dsimp only at h
      split at h
      · cases h
      · exact ⟨given, rfl, (Option.some.inj h).symm⟩

theorem described {o : DeviceModeOptions} (h : deviceModeFromFlags flags = some o) :
    o = { mode := some "skip" } ∨
      o = { mode := some ((flag flags "device-mode").getD "auto")
            enable := filled (csvList (flagList flags (side .yes)))
            disable := filled (csvList (flagList flags (side .no))) } := by
  unfold deviceModeFromFlags at h
  dsimp only at h
  split at h
  · exact .inl (Option.some.inj h).symm
  · split at h
    · cases h
    · exact .inr (Option.some.inj h).symm

theorem mode_lost {mode : String} (dashed : Text.startsWith mode "--" = true)
    (spoiled : Spoiled flags "device-mode" mode) :
    (resolveDeviceModeOptions (deviceModeFromFlags flags)).mode ≠ some mode := by
  intro same
  obtain ⟨given, read, is⟩ := mode_eq_some same
  rw [is] at dashed
  rw [dashed_resolveMode dashed] at is dashed
  rcases described read with rfl | rfl
  · exact absurd dashed (by decide)
  · rw [Option.getD_some] at is dashed
    rcases spoiled with ⟨b, bare⟩ | ⟨v, spelled, text⟩
    · have none : flag flags "device-mode" = none := by rw [flag, lastFlagValue, bare]
      rw [none] at dashed
      exact absurd dashed (by decide)
    · rw [flag, lastFlagValue, text] at is
      have shorter := length_norm_le v
      rw [show norm v = mode from is.symm, spelled, String.toList_append, List.length_append] at shorter
      have prefixed : 0 < ("--" ++ "device-mode" ++ "=").toList.length := by decide
      omega

theorem mode_not_blank (absent : flags.get "device-mode" = none) :
    (resolveDeviceModeOptions (deviceModeFromFlags flags)).mode ≠ some "" := by
  intro same
  obtain ⟨given, read, is⟩ := mode_eq_some same
  rcases described read with rfl | rfl
  · exact absurd is (by decide)
  · have unnamed : flag flags "device-mode" = none := by rw [flag, lastFlagValue, absent]
    rw [unnamed, Option.getD_none, Option.getD_some] at is
    exact absurd is (by decide)

/-- A feature that is set to a value was read from the list for it. -/
theorem read_of_feature {mode : String}
    (run : (resolveDeviceModeOptions (deviceModeFromFlags flags)).mode = some mode)
    (set : (resolveDeviceModeOptions (deviceModeFromFlags flags)).features.get f = some value) :
    f ∈ normalizeFeatureList (filled (csvList (flagList flags (side value)))) := by
  obtain ⟨given, read, -⟩ := mode_eq_some run
  have applied : (resolveDeviceModeOptions (some given)).skip = false := by
    rw [read] at run
    unfold resolveDeviceModeOptions at run ⊢
    dsimp only at run ⊢
    split at run
    · cases run
    · rename_i applied
      rw [if_neg applied]
  rw [read, get_features applied] at set
  rcases described read with rfl | rfl
  · exact absurd applied (by decide)
  · unfold feature at set
    split_ifs at set with proto off on
    · rw [← Option.some.inj set]
      exact off
    · rw [← Option.some.inj set]
      exact on

end

/-- The feature that comes first, in the order of `sort()`, of those the request sets to the value. -/
def Foremost (o : DeviceModeOptions) (value : DeviceModeBool) (f : String) : Prop :=
  feature o f = some value ∧ ∀ g, feature o g = some value → Text.Before f g

theorem Foremost.unique {o : DeviceModeOptions} {value : DeviceModeBool} {f g : String} (h : Foremost o value f)
    (k : Foremost o value g) : f = g := antisymm (h.2 g k.1) (k.2 f h.1)

/-- A request whose route can be read back: its mode is not blank, and neither the mode nor the first
of the features it sets to either value looks like a flag. -/
structure Printable (o : DeviceModeOptions) : Prop where
  filled : norm (o.mode.getD "auto") ≠ ""
  mode : Text.startsWith (norm (o.mode.getD "auto")) "--" = false
  features : ∀ value f, Foremost o value f → Text.startsWith f "--" = false

section

variable {o : DeviceModeOptions} {value : DeviceModeBool} {f : String}

theorem normalized_named (applied : (resolveDeviceModeOptions (some o)).skip = false) :
    ∀ g ∈ named (resolveDeviceModeOptions (some o)) value, Normalized g := by
  intro g member
  rw [mem_named (nodup_features _), get_features applied] at member
  exact normalized_of_feature member

theorem head_named (applied : (resolveDeviceModeOptions (some o)).skip = false) :
    (named (resolveDeviceModeOptions (some o)) value).head? = some f ↔
      Foremost o value f := by
  have mem : ∀ g, g ∈ named (resolveDeviceModeOptions (some o)) value ↔ feature o g = some value :=
    fun g => by rw [mem_named (nodup_features _), get_features applied]
  have order : (named (resolveDeviceModeOptions (some o)) value).Pairwise Text.Before :=
    List.pairwise_insertionSort _ _
  generalize named (resolveDeviceModeOptions (some o)) value = features at mem order ⊢
  cases features with
  | nil =>
      refine iff_of_false (fun none => by cases none) fun least => ?_
      exact List.not_mem_nil ((mem f).mpr least.1)
  | cons g features =>
      rw [List.pairwise_cons] at order
      have least : Foremost o value g := by
        refine ⟨(mem g).mp List.mem_cons_self, fun h set => ?_⟩
        rcases List.mem_cons.mp ((mem h).mpr set) with rfl | later
        · exact refl_of Text.Before _
        · exact order.1 h later
      rw [List.head?_cons, Option.some.injEq]
      exact ⟨fun same => same ▸ least, fun other => least.unique other⟩

theorem startsWith_join {rest : List String} (normalized : Normalized f) :
    Text.startsWith (Text.join "," (f :: rest)) "--" = Text.startsWith f "--" := by
  obtain ⟨tail, whole, next⟩ : ∃ tail, (Text.join "," (f :: rest)).toList = f.toList ++ tail ∧
      ∀ c, tail.head? = some c → c = ',' := by
    cases rest with
    | nil =>
        exact ⟨[], by rw [Text.join, String.intercalate_singleton, List.append_nil], fun _ none => by cases none⟩
    | cons g rest =>
        refine ⟨',' :: (Text.join "," (g :: rest)).toList, ?_, fun c is => (Option.some.inj is).symm⟩
        rw [Text.join, String.intercalate_cons_cons, String.toList_append, String.toList_append,
          List.append_assoc]
        rfl
  rw [Text.startsWith, Text.startsWith, whole]
  have nonempty : f.toList ≠ [] := fun none => normalized.nonempty (String.toList_eq_nil_iff.mp none)
  rcases chars : f.toList with _ | ⟨c, _ | ⟨d, l⟩⟩
  · exact absurd chars nonempty
  · cases tail with
    | nil => rfl
    | cons d tail =>
        rw [next d rfl]
        change (_ && (false && _)) = (_ && false)
        rw [Bool.false_and]
  · rfl

theorem mode_of_applied (applied : (resolveDeviceModeOptions (some o)).skip = false) :
    (resolveDeviceModeOptions (some o)).mode = some (resolveMode (norm (o.mode.getD "auto"))) := by
  obtain ⟨mode, is, -⟩ := resolve_run applied
  obtain ⟨given, same, resolved⟩ := mode_eq_some is
  rw [is, resolved, Option.some.inj same]

theorem resolveMode_eq_empty {mode : String} : resolveMode mode = "" ↔ mode = "" := by
  unfold resolveMode
  split
  · rename_i legacy; rw [legacy]; decide
  · split
    · rename_i auto; rw [auto]; decide
    · rfl

theorem startsWith_resolveMode {mode : String} :
    Text.startsWith (resolveMode mode) "--" = Text.startsWith mode "--" := by
  unfold resolveMode
  split
  · rename_i legacy; rw [legacy]; decide
  · split
    · rename_i auto; rw [auto]; decide
    · rfl

theorem printable_iff (applied : (resolveDeviceModeOptions (some o)).skip = false) :
    Printable o ↔ (∃ mode, (resolveDeviceModeOptions (some o)).truthyMode = some mode) ∧
      ∀ e ∈ printed (resolveDeviceModeOptions (some o)), Text.startsWith e.2 "--" = false := by
  have truthy : ∀ mode, (resolveDeviceModeOptions (some o)).truthyMode = some mode ↔
      resolveMode (norm (o.mode.getD "auto")) = mode ∧ norm (o.mode.getD "auto") ≠ "" := by
    intro mode
    rw [ResolvedDeviceModeOptions.truthyMode, mode_of_applied applied, Option.filter_eq_some_iff,
      Option.some.injEq, decide_eq_true_eq]
    refine and_congr_right fun is => ?_
    rw [← is, ne_eq, resolveMode_eq_empty]
  have list : ∀ value, named (resolveDeviceModeOptions (some o)) value ≠ [] →
      ∃ f, Foremost o value f ∧
        Text.startsWith (Text.join "," (named (resolveDeviceModeOptions (some o)) value)) "--" =
          Text.startsWith f "--" := by
    intro value filled
    obtain ⟨f, rest, is⟩ := List.exists_cons_of_ne_nil filled
    refine ⟨f, (head_named applied).mp (by rw [is]; rfl), ?_⟩
    rw [is]
    exact startsWith_join (normalized_named applied f (by rw [is]; exact List.mem_cons_self))
  constructor
  · rintro ⟨filled, mode, features⟩
    refine ⟨⟨_, (truthy _).mpr ⟨rfl, filled⟩⟩, fun e member => ?_⟩
    rcases mem_printed.mp member with ⟨m, is, rfl⟩ | ⟨value, given, rfl⟩
    · rw [← ((truthy m).mp is).1, startsWith_resolveMode, mode]
    · obtain ⟨f, least, same⟩ := list value given
      rw [same, features value f least]
  · rintro ⟨⟨m, is⟩, plain⟩
    refine ⟨((truthy m).mp is).2, ?_, fun value f least => ?_⟩
    · rw [← startsWith_resolveMode, ((truthy m).mp is).1]
      exact plain _ (mode_mem_printed is)
    · have given : named (resolveDeviceModeOptions (some o)) value ≠ [] := by
        intro empty
        have head := (head_named applied).mpr least
        rw [empty] at head
        cases head
      obtain ⟨g, least', same⟩ := list value given
      rw [least.unique least', ← same]
      have unflagged := plain _ (list_mem_printed given)
      dsimp only at unflagged
      exact unflagged

/-- Flags that got their values describe the selection that they were printed for. -/
theorem same_of_taken (applied : (resolveDeviceModeOptions (some o)).skip = false) {mode : String}
    (truthy : (resolveDeviceModeOptions (some o)).truthyMode = some mode) {flags : Flags}
    (taken : ∀ e ∈ printed (resolveDeviceModeOptions (some o)), flags.get e.1 = some (.text e.2))
    (others : ∀ key ∉ (printed (resolveDeviceModeOptions (some o))).map Prod.fst, flags.get key = none) :
    SameSelection (resolveDeviceModeOptions (some o))
      (resolveDeviceModeOptions (deviceModeFromFlags flags)) := by
  have read : ∀ value f, f ∈ normalizeFeatureList (filled (csvList (flagList flags (side value)))) ↔
      feature o f = some value := by
    intro value f
    rw [← get_features applied, ← mem_named (nodup_features (some o))]
    by_cases empty : named (resolveDeviceModeOptions (some o)) value = []
    · have absent : side value ∉ (printed (resolveDeviceModeOptions (some o))).map Prod.fst := by
        intro member
        obtain ⟨e, mem, key⟩ := List.mem_map.mp member
        rcases mem_printed.mp mem with ⟨_, _, rfl⟩ | ⟨value', given, rfl⟩
        · exact side_ne_mode key.symm
        · obtain rfl : value' = value := side_injective key
          exact given empty
      rw [flagList, others _ absent, empty]
      rfl
    · have text := taken _ (list_mem_printed empty)
      dsimp only at text
      exact mem_list_taken (normalized_named applied) empty text
  have moded := taken _ (mode_mem_printed truthy)
  dsimp only at moded
  have described : deviceModeFromFlags flags = some
      { mode := some mode
        enable := filled (csvList (flagList flags (side .yes)))
        disable := filled (csvList (flagList flags (side .no))) } := by
    have text : flag flags "device-mode" = some mode := by rw [flag, lastFlagValue, moded]
    have given : ¬ flags.get "device-mode" = some (.bool false) := by
      rw [moded]
      exact fun same => by cases same
    rw [deviceModeFromFlags, if_neg given, text, if_neg fun none => by cases none.1]
    rfl
  obtain ⟨settledMode, is, settled⟩ := resolve_run applied
  have same : (resolveDeviceModeOptions (some o)).mode = some mode :=
    (Option.filter_eq_some_iff.mp truthy).1
  obtain rfl : settledMode = mode := Option.some.inj (is.symm.trans same)
  rw [described]
  obtain ⟨run, resolved⟩ := @resolve_settled
    { mode := some settledMode
      enable := filled (csvList (flagList flags (side .yes)))
      disable := filled (csvList (flagList flags (side .no))) } settledMode rfl settled
  refine ⟨resolved.trans is.symm, fun f => ?_⟩
  rw [get_features run, get_features applied]
  conv_lhs => unfold feature
  simp only [read]
  by_cases proto : f = "__proto__"
  · rw [if_pos proto, feature, if_pos proto]
  · rw [if_neg proto]
    cases feature o f with
    | none => rfl
    | some value => cases value <;> rfl

end

theorem selection_of_asked {stored : Option Login} {state : MachineState}
    {request : ProvisioningRequest} {ask : ProvisioningAsk}
    (asked : ask ∈ classifyProvisioningRequest stored state request) (step : ask.step = .deviceMode) :
    deviceModeSelection request.deviceMode ≠ [] := by
  intro none
  have other : ∀ ask ∈ classifyProvisioningRequest stored state request, ask.step ≠ .deviceMode := by
    refine (forall_classify stored state request fun step _ => step ≠ .deviceMode).mpr ?_
    refine ⟨?_, ?_, fun given => absurd none given, ?_, ?_, ?_, ?_⟩ <;> intros <;> decide
  exact other ask asked step

theorem plain_of_creatable {name kind : String} (h : assertValidResourceName name kind = .ok ()) :
    Text.startsWith name "--" = false := by
  have valid : VALID_NAME name = true := by
    by_contra invalid
    unfold assertValidResourceName at h
    split_ifs at h
    rename_i valid
    exact valid (Bool.not_eq_true' _ ▸ Bool.eq_false_iff.mpr invalid)
  unfold VALID_NAME at valid
  have start : "--".toList = ['-', '-'] := rfl
  rw [Text.startsWith, start]
  generalize name.toList = cs at valid ⊢
  cases cs with
  | nil => cases valid
  | cons c rest =>
      have first : c.isAlphanum = true := (Bool.and_eq_true_iff.mp valid).1
      have other : ('-' == c) = false := by
        refine beq_false_of_ne ?_
        rintro rfl
        exact absurd first (by decide)
      change (_ && _) = false
      rw [other, Bool.false_and]

/-- What comes of a device-mode route: its flags, behind the name of the machine. -/
theorem followed_route {state : MachineState} {request : ProvisioningRequest} {ask : ProvisioningAsk}
    (step : ask.step = .deviceMode) (creatable : assertValidResourceName state.name "machine" = .ok ())
    (applied : (resolveDeviceModeOptions request.deviceMode).skip = false) :
    followed (postBootRoute ask request state.name) =
      match parse [] [state.name] (arguments (printed (resolveDeviceModeOptions request.deviceMode))) with
      | .ok (flags, positional) =>
          some (positional.head?.or (flag flags "name"),
            resolveDeviceModeOptions (deviceModeFromFlags flags))
      | .error _ => none := by
  have set : ∀ {line : String} {argv : List String},
      ShellWords.words line = some ("quickchr" :: "set" :: argv) → followed line = addressed argv := by
    intro line argv words
    unfold followed
    rw [words]
    rfl
  have words := @words_route state.name _ applied
  have route : postBootRoute ask request state.name =
      s!"quickchr set {shellQuote state.name} {formatDeviceModeFlags (resolveDeviceModeOptions request.deviceMode)}   # power-cycles the machine" := by
    rw [postBootRoute, step]
  rw [route, set words, addressed, parseFlags, parse_positional (plain_of_creatable creatable), List.nil_append]

/-- Whether the route printed for a device-mode request does what was asked for. It holds of a
refused request as of any other that is classified. -/
theorem route_followed_iff {stored : Option Login} {state : MachineState}
    {request : ProvisioningRequest} {ask : ProvisioningAsk} {o : DeviceModeOptions}
    (asked : ask ∈ classifyProvisioningRequest stored state request) (step : ask.step = .deviceMode)
    (creatable : assertValidResourceName state.name "machine" = .ok ())
    (given : request.deviceMode = some o) :
    (∃ r, followed (postBootRoute ask request state.name) = some (some state.name, r) ∧
        SameSelection (resolveDeviceModeOptions request.deviceMode) r) ↔ Printable o := by
  have applied := skip_of_shouldApply (shouldApply_of_selection (selection_of_asked asked step))
  rw [followed_route step creatable applied, given]
  rw [given] at applied
  rw [printable_iff applied]
  constructor
  · rintro ⟨r, read, moded, features⟩
    split at read
    · rename_i flags positional parsed
      obtain ⟨-, rfl⟩ := Prod.mk.inj (Option.some.inj read)
      have plain : ∀ e ∈ printed (resolveDeviceModeOptions (some o)),
          Text.startsWith e.2 "--" = false := by
        intro e member
        refine Bool.eq_false_iff.mpr fun looks => ?_
        obtain ⟨e, member, looks, spoiled⟩ :=
          spoiled_of_dashed printed_known nodup_printed ⟨e, member, looks⟩ parsed
        rcases mem_printed.mp member with ⟨mode, truthy, rfl⟩ | ⟨value, filled, rfl⟩
        · refine mode_lost looks spoiled (moded.trans ?_)
          exact (Option.filter_eq_some_iff.mp truthy).1
        · obtain ⟨f, rest, is⟩ := List.exists_cons_of_ne_nil filled
          have first : (named (resolveDeviceModeOptions (some o)) value).head? = some f := by rw [is]; rfl
          dsimp only at spoiled
          refine first_lost (normalized_named applied) (nodup_named (nodup_features _)) first spoiled ?_
          have set : feature o f = some value := ((head_named applied).mp first).1
          obtain ⟨mode, run, -⟩ := resolve_run applied
          refine read_of_feature (moded.trans run) ?_
          rw [features, get_features applied, set]
      refine ⟨?_, plain⟩
      obtain ⟨mode, run, -⟩ := resolve_run applied
      refine ⟨mode, ?_⟩
      rw [ResolvedDeviceModeOptions.truthyMode, run, Option.filter_eq_some_iff]
      refine ⟨rfl, decide_eq_true ?_⟩
      rintro rfl
      have blank : (resolveDeviceModeOptions (some o)).truthyMode = none := by
        rw [ResolvedDeviceModeOptions.truthyMode, run]
        rfl
      obtain ⟨final, parsed', -, others⟩ :=
        parse_arguments [state.name] printed_known nodup_printed plain []
      rw [parsed'] at parsed
      obtain ⟨rfl, -⟩ := Prod.mk.inj (Except.ok.inj parsed)
      exact mode_not_blank (others _ (mode_not_printed blank)) (moded.trans run)
    · cases read
  · rintro ⟨⟨mode, truthy⟩, plain⟩
    obtain ⟨flags, parsed, taken, others⟩ :=
      parse_arguments [state.name] printed_known nodup_printed plain []
    rw [parsed]
    exact ⟨_, rfl, same_of_taken applied truthy taken others⟩

def booted : MachineState where
  name := "lab"
  packages := []
  createdAt := 0
  lastStartedAt := some 1
  status := .stopped

def asking (o : DeviceModeOptions) : ProvisioningRequest where
  deviceMode := some o

def asked (o : DeviceModeOptions) : ProvisioningAsk where
  step := .deviceMode
  description := s!"device-mode ({formatDeviceModeSelection (resolveDeviceModeOptions (some o))})"
  satisfied := false

def enterprise : DeviceModeOptions := { mode := some "Enterprise", enable := some [" container"] }

/-- The route for a mode and a feature. -/
theorem route_followed_iff_container :
    ∃ r, followed (postBootRoute (asked enterprise) (asking enterprise) "lab") = some (some "lab", r) ∧
      SameSelection (resolveDeviceModeOptions (some enterprise)) r := by
  refine (@route_followed_iff none booted (asking enterprise) (asked enterprise) enterprise
    (by decide +kernel) rfl (by decide +kernel) rfl).mpr ⟨by decide +kernel, by decide +kernel, ?_⟩
  rintro value f ⟨set, -⟩
  rcases DeviceModeRecord.feature_eq_some set with on | off
  · have list : normalizeFeatureList enterprise.enable = ["container"] := by decide +kernel
    rw [list, List.mem_singleton] at on
    rw [on]
    decide
  · cases off

/-- A mode that looks like a flag is parsed as one, and the route asks for nothing. -/
theorem route_followed_fails : ¬ ∀ (stored : Option Login) (state : MachineState)
    (request : ProvisioningRequest) (e : QuickCHRError) (ask : ProvisioningAsk),
    assertProvisioningWindow stored state request = .error e →
      ask ∈ classifyProvisioningRequest stored state request → ask.step = .deviceMode →
      ask.satisfied = false → assertValidResourceName state.name "machine" = .ok () →
      ∃ r, followed (postBootRoute ask request state.name) = some (some state.name, r) ∧
        SameSelection (resolveDeviceModeOptions request.deviceMode) r := by
  intro all
  have refused : assertProvisioningWindow none booted (asking { mode := some "--x" }) =
      .error (windowClosed booted (asking { mode := some "--x" }) [asked { mode := some "--x" }]) := by
    decide +kernel
  obtain ⟨r, read, same, -⟩ := all none booted _ _ (asked { mode := some "--x" }) refused
    (by decide +kernel) rfl rfl (by decide +kernel)
  have nothing : followed (postBootRoute (asked { mode := some "--x" }) (asking { mode := some "--x" }) "lab") =
      some (some "lab", { skip := true }) := by
    decide +kernel
  obtain ⟨-, rfl⟩ := Prod.mk.inj (Option.some.inj (read.symm.trans nothing))
  exact absurd same (by decide +kernel)

end Quickchr.RecoveryRoute
