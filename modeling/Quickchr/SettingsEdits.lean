import Quickchr.Settings

/-!
# Edits of the settings file

An edit leaves one line for its key, or none. What is read of the file afterwards is compared with what was
asked for, and the other lines with the bytes that stood there: they go through a text and back.
-/
namespace Quickchr.Settings

def fileLines : SettingsFile → List (List UInt8)
  | none => []
  | some bytes =>
      let pieces := bytes.splitOn 0x0a
      if pieces.getLast? = some [] then pieces.dropLast else pieces

def textOf (line : List UInt8) : String := String.ofList (Utf8.decode line)

def bytesOf (line : String) : List UInt8 := Utf8.encode line.toList

section

variable {lines : List String} {file : SettingsFile}

theorem textOf_bytesOf (line : String) : textOf (bytesOf line) = line := by
  rw [textOf, bytesOf, Utf8.decode_encode, String.ofList_toList]

theorem textOf_eq_empty {line : List UInt8} : textOf line = "" ↔ line = [] := by
  rw [textOf, String.ofList_eq_empty_iff]
  exact ⟨fun none => by_contra fun some => Utf8.decode_ne_nil some none, fun none => none ▸ rfl⟩

theorem readSettingsFileLines_eq (file : SettingsFile) : readSettingsFileLines file = (fileLines file).map textOf := by
  cases file with
  | none => rfl
  | some bytes =>
      have pieces : Text.split (String.ofList (Utf8.decode bytes)) '\n' = (bytes.splitOn 0x0a).map textOf := by
        rw [Text.split, String.toList_ofList, Utf8.splitOn_decode, List.map_map]
        rfl
      rw [readSettingsFileLines, fileLines, pieces]
      have last : ((bytes.splitOn 0x0a).map textOf).getLast? = some "" ↔ (bytes.splitOn 0x0a).getLast? = some [] := by
        rw [List.getLast?_map, Option.map_eq_some_iff]
        constructor
        · rintro ⟨line, is, empty⟩
          rwa [textOf_eq_empty.mp empty] at is
        · exact fun is => ⟨[], is, rfl⟩
      by_cases ended : (bytes.splitOn 0x0a).getLast? = some []
      · rw [if_pos ended, if_pos (last.mpr ended), List.map_dropLast]
      · rw [if_neg ended, if_neg fun text => ended (last.mp text)]

theorem line_clean {line : String} (member : line ∈ readSettingsFileLines file) : '\n' ∉ line.toList := by
  cases file with
  | none => cases member
  | some bytes =>
      rw [readSettingsFileLines] at member
      split at member
      · exact Text.not_mem_of_mem_split ((List.dropLast_subset _) member)
      · exact Text.not_mem_of_mem_split member

theorem fileLines_write (clean : ∀ line ∈ lines, '\n' ∉ line.toList) :
    fileLines (writeSettingsFileLines lines) = lines.map bytesOf := by
  have joined : ∀ lines : List String, lines ≠ [] → (Text.join "\n" lines ++ "\n").toList =
      lines.flatMap fun line => line.toList ++ ['\n'] := by
    intro lines some
    rw [String.toList_append, Text.join, String.toList_intercalate]
    induction lines with
    | nil => exact absurd rfl some
    | cons line rest ih =>
        cases rest with
        | nil =>
            rw [List.map_singleton, List.intercalate_singleton, List.flatMap_singleton]
            rfl
        | cons next rest =>
            have more : (next :: rest).map String.toList ≠ [] := List.cons_ne_nil _ _
            rw [List.flatMap_cons, ← ih (List.cons_ne_nil _ _), List.map_cons, List.intercalate_cons_of_ne_nil more,
              List.append_assoc, List.append_assoc, List.append_assoc]
            rfl
  have text : (if lines = [] then "" else Text.join "\n" lines ++ "\n").toList =
      lines.flatMap fun line => line.toList ++ ['\n'] := by
    split
    · rename_i none
      rw [none]
      rfl
    · rename_i some
      exact joined lines some
  have bytes : Utf8.encode (lines.flatMap fun line => line.toList ++ ['\n']) =
      (lines.map bytesOf).flatMap (· ++ [0x0a]) := by
    rw [Utf8.encode, List.flatMap_assoc, List.flatMap_map]
    refine List.flatMap_congr fun line _ => ?_
    rw [List.flatMap_append]
    rfl
  have apart : ∀ piece ∈ lines.map bytesOf, (0x0a : UInt8) ∉ piece := by
    intro piece member newline
    obtain ⟨line, inside, rfl⟩ := List.mem_map.mp member
    exact clean line inside (Utf8.newline_of_mem_encode newline)
  rw [writeSettingsFileLines, fileLines, text, bytes, Text.splitOn_flatMap 0x0a apart, List.getLast?_concat, if_pos rfl, List.dropLast_concat]

theorem read_write (clean : ∀ line ∈ lines, '\n' ∉ line.toList) :
    readSettingsFileLines (writeSettingsFileLines lines) = lines := by
  rw [readSettingsFileLines_eq, fileLines_write clean, List.map_map]
  exact (List.map_congr_left fun line _ => textOf_bytesOf line).trans (List.map_id _)

def valueFor (key line : String) : Option String :=
  (assignment line).bind fun both => if isEnvName both.1 ∧ both.1 = key then some both.2 else none

theorem parse_concat (lines : List String) (line key : String) :
    parseSettingsFileLines (lines ++ [line]) key = (valueFor key line).or (parseSettingsFileLines lines key) := by
  rw [parseSettingsFileLines, List.foldl_append, List.foldl_cons, List.foldl_nil, valueFor, parseSettingsFileLines]
  cases assignment line with
  | none => rfl
  | some both =>
      obtain ⟨name, value⟩ := both
      dsimp only
      rw [Option.bind_some]
      by_cases same : name = key
      · rw [same]
        by_cases named : isEnvName key = true
        · rw [if_pos named, if_pos ⟨named, rfl⟩, Function.update_self]
          rfl
        · rw [if_neg named, if_neg fun both => named both.1]
          rfl
      · have other : ¬ (isEnvName name = true ∧ name = key) := fun both => same both.2
        rw [if_neg other]
        split
        · exact Function.update_of_ne (Ne.symm same) _ _
        · rfl

theorem parse_append (lines lines' : List String) (key : String) :
    parseSettingsFileLines (lines ++ lines') key =
      (parseSettingsFileLines lines' key).or (parseSettingsFileLines lines key) := by
  induction lines' using List.reverseRecOn with
  | nil => rw [List.append_nil]; rfl
  | append_singleton lines' line ih => rw [← List.append_assoc, parse_concat, parse_concat, ih, Option.or_assoc]

theorem parse_eq_none {key : String} (none : ∀ line ∈ lines, valueFor key line = none) :
    parseSettingsFileLines lines key = .none := by
  induction lines using List.reverseRecOn with
  | nil => rfl
  | append_singleton lines line ih =>
      obtain ⟨others, last⟩ := List.forall_mem_append.mp none
      rw [parse_concat, last line (List.mem_singleton_self line), ih others]
      rfl

theorem parse_filter {key : String} {p : String → Bool} (h : ∀ line, p line = false → valueFor key line = none)
    (lines : List String) : parseSettingsFileLines (lines.filter p) key = parseSettingsFileLines lines key := by
  induction lines using List.reverseRecOn with
  | nil => rfl
  | append_singleton lines line ih =>
      rw [List.filter_append, parse_append, parse_append, ih]
      by_cases stays : p line = true
      · rw [List.filter_singleton, stays, cond_true]
      · have none := h line (Bool.eq_false_iff.mpr stays)
        have dropped : [line].filter p = [] := List.filter_cons_of_neg stays
        have nothing := @parse_eq_none [line] key fun other member => by rw [List.mem_singleton.mp member, none]
        rw [dropped, nothing]
        rfl

theorem valueFor_of_lineEnvKey {key line : String} (h : lineEnvKey line ≠ some key) : valueFor key line = none := by
  rw [lineEnvKey] at h
  rw [valueFor]
  cases set : assignment line with
  | none => rfl
  | some both =>
      rw [set] at h
      exact if_neg fun same => h (congrArg some same.2)

theorem matchingLineIndices_concat (lines : List String) (line envKey : String) :
    matchingLineIndices (lines ++ [line]) envKey =
      matchingLineIndices lines envKey ++ if lineEnvKey line = some envKey then [lines.length] else [] := by
  rw [matchingLineIndices, List.length_append, List.length_singleton, List.range_succ, List.filter_append,
    matchingLineIndices]
  refine congrArg₂ (· ++ ·) ?_ ?_
  · refine List.filter_congr fun i member => ?_
    rw [List.getElem?_append_left (List.mem_range.mp member)]
  · have here : (lines ++ [line])[lines.length]?.getD "" = line := by
      rw [List.getElem?_concat_length]
      rfl
    rw [List.filter_singleton, here]
    by_cases set : lineEnvKey line = some envKey
    · rw [if_pos set, decide_eq_true set, cond_true]
    · rw [if_neg set, decide_eq_false set, cond_false]

/-- What the removal of these lines leaves, with other lines behind them. -/
theorem spliceAll_append (lines rest : List String) (envKey : String) :
    spliceAll (lines ++ rest) (matchingLineIndices lines envKey) =
      lines.filter (fun line => lineEnvKey line ≠ some envKey) ++ rest := by
  induction lines using List.reverseRecOn generalizing rest with
  | nil => rfl
  | append_singleton lines line ih =>
      rw [matchingLineIndices_concat, List.filter_append, List.append_assoc]
      by_cases set : lineEnvKey line = some envKey
      · have dropped : [line].filter (fun line => decide (lineEnvKey line ≠ some envKey)) = [] :=
          List.filter_cons_of_neg (by simpa using set)
        have removed : (lines ++ line :: rest).eraseIdx lines.length = lines ++ rest := by
          rw [List.eraseIdx_append_of_length_le (le_refl _), Nat.sub_self]
          rfl
        rw [if_pos set, dropped, List.append_nil, spliceAll, List.reverse_append, List.reverse_singleton,
          List.singleton_append, List.singleton_append, List.foldl_cons, removed]
        exact ih rest
      · have stays : [line].filter (fun line => decide (lineEnvKey line ≠ some envKey)) = [line] :=
          List.filter_cons_of_pos (by simpa using set)
        rw [if_neg set, List.append_nil, stays, List.append_assoc]
        exact ih _

theorem spliceAll_eq (lines : List String) (envKey : String) :
    spliceAll lines (matchingLineIndices lines envKey) = lines.filter fun line => lineEnvKey line ≠ some envKey := by
  have whole := spliceAll_append lines [] envKey
  rwa [List.append_nil, List.append_nil] at whole

theorem matchingLineIndices_eq_nil {envKey : String} :
    matchingLineIndices lines envKey = [] ↔ ∀ line ∈ lines, lineEnvKey line ≠ some envKey := by
  induction lines using List.reverseRecOn with
  | nil => exact iff_of_true rfl fun line none => by cases none
  | append_singleton lines line ih =>
      rw [matchingLineIndices_concat, List.append_eq_nil_iff, ih, List.forall_mem_append]
      refine and_congr_right fun _ => ?_
      rw [List.forall_mem_singleton]
      split <;> rename_i set
      · exact iff_of_false (List.cons_ne_nil _ _) fun other => other set
      · exact iff_of_true rfl set

theorem matchingLineIndices_append {envKey : String} {back : List String}
    (none : ∀ line ∈ back, lineEnvKey line ≠ some envKey) (front : List String) :
    matchingLineIndices (front ++ back) envKey = matchingLineIndices front envKey := by
  induction back using List.reverseRecOn with
  | nil => rw [List.append_nil]
  | append_singleton back line ih =>
      obtain ⟨others, last⟩ := List.forall_mem_append.mp none
      rw [← List.append_assoc, matchingLineIndices_concat, ih others, if_neg (last line (List.mem_singleton_self line)),
        List.append_nil]

theorem exists_last {envKey : String} (some : ∃ line ∈ lines, lineEnvKey line = .some envKey) : ∃ front line back,
    lines = front ++ line :: back ∧ lineEnvKey line = .some envKey ∧ ∀ line ∈ back, lineEnvKey line ≠ .some envKey := by
  obtain ⟨line, member, sets⟩ := some
  have kept : line ∈ lines.filter (lineEnvKey · = .some envKey) := List.mem_filter.mpr ⟨member, decide_eq_true sets⟩
  obtain ⟨last, is⟩ := Option.isSome_iff_exists.mp (List.getLast?_isSome.mpr (List.ne_nil_of_mem kept))
  obtain ⟨sets', front, back, whole, behind⟩ := Text.getLast?_filter_iff.mp is
  exact ⟨front, last, back, whole, of_decide_eq_true sets', fun line member => of_decide_eq_false (behind line member)⟩

/-- What `settingsSet` makes of the lines. -/
def setLines (lines : List String) (envKey newLine : String) : List String :=
  match (matchingLineIndices lines envKey).getLast? with
  | some index => spliceAll (lines.set index newLine) (matchingLineIndices lines envKey).dropLast
  | none => lines ++ [newLine]

theorem setLines_eq (lines : List String) (envKey newLine : String) : ∃ front back,
    setLines lines envKey newLine = front ++ newLine :: back ∧
      front ++ back = lines.filter fun line => lineEnvKey line ≠ some envKey := by
  by_cases set : ∃ line ∈ lines, lineEnvKey line = some envKey
  · obtain ⟨front, line, back, rfl, sets, behind⟩ := exists_last set
    have whole : front ++ line :: back = (front ++ [line]) ++ back := by
      rw [List.append_assoc]
      rfl
    have indices : matchingLineIndices (front ++ line :: back) envKey =
        matchingLineIndices front envKey ++ [front.length] := by
      rw [whole, matchingLineIndices_append behind, matchingLineIndices_concat, if_pos sets]
    have replaced : (front ++ line :: back).set front.length newLine = front ++ newLine :: back := by
      rw [List.set_append_right _ _ (le_refl _), Nat.sub_self, List.set_cons_zero]
    have dropped : (line :: back).filter (fun line => decide (lineEnvKey line ≠ some envKey)) =
        back.filter fun line => decide (lineEnvKey line ≠ some envKey) := List.filter_cons_of_neg (by simpa using sets)
    refine ⟨front.filter fun line => lineEnvKey line ≠ some envKey, back, ?_, ?_⟩
    · rw [setLines, indices, List.getLast?_concat]
      dsimp only
      rw [replaced, List.dropLast_concat, spliceAll_append]
    · rw [List.filter_append, dropped,
        List.filter_eq_self.mpr fun line member => decide_eq_true (behind line member)]
  · push Not at set
    refine ⟨lines, [], ?_, ?_⟩
    · rw [setLines, matchingLineIndices_eq_nil.mpr set]
      rfl
    · rw [List.append_nil, List.filter_eq_self.mpr fun line member => decide_eq_true (set line member)]

theorem envKey_plain {key : SettingsKeyDef} (managed : key ∈ SETTINGS_KEYS) : isEnvName key.envKey = true ∧
    key.envKey.toList ≠ [] ∧ key.envKey.toList.head? ≠ some '#' ∧ '=' ∉ key.envKey.toList ∧ Clean key.envKey := by
  have all : (SETTINGS_KEYS.all fun key => decide (isEnvName key.envKey = true ∧ key.envKey.toList ≠ [] ∧
      key.envKey.toList.head? ≠ some '#' ∧ '=' ∉ key.envKey.toList ∧ Clean key.envKey)) = true := by decide +kernel
  exact of_decide_eq_true (List.all_eq_true.mp all key managed)

theorem toList_line (name value : String) : s!"{name}={value}".toList = name.toList ++ '=' :: value.toList := by
  rw [String.toList_append, String.toList_append, List.append_assoc]
  rfl

theorem assignment_line {key : SettingsKeyDef} (managed : key ∈ SETTINGS_KEYS) {value : String} (clean : Clean value) :
    assignment s!"{key.envKey}={value}" = some (key.envKey, value) := by
  obtain ⟨-, some, comment, equals, plain⟩ := envKey_plain managed
  have text := toList_line key.envKey value
  obtain ⟨c, rest, first⟩ := List.exists_cons_of_ne_nil some
  have trimmed : Text.trim s!"{key.envKey}={value}" = s!"{key.envKey}={value}" := by
    refine Text.trim_eq_self (fun d is => ?_) fun d is => ?_
    · rw [text, first] at is
      refine Text.isSpace_head_trim (s := key.envKey) ?_
      rw [plain.trimmed, first]
      exact is
    · rw [text] at is
      by_cases empty : value.toList = []
      · rw [empty, List.getLast?_concat] at is
        obtain rfl := Option.some_inj.mp is
        rfl
      · rw [List.getLast?_append_of_ne_nil _ (List.cons_ne_nil _ _), List.getLast?_cons_of_ne_nil empty] at is
        refine Text.isSpace_last_trim (s := value) ?_
        rwa [clean.trimmed]
  have index : Text.indexOf ['='] s!"{key.envKey}={value}".toList = .some key.envKey.toList.length := by
    rw [text]
    exact Text.indexOf_append equals _
  have blank : ¬ (s!"{key.envKey}={value}" = "" ∨ Text.startsWith s!"{key.envKey}={value}" "#" = true) := by
    rintro (none | hash)
    · rw [none] at text
      exact absurd text.symm (List.append_ne_nil_of_left_ne_nil some _)
    · rw [Text.startsWith, text, first] at hash
      rw [first] at comment
      obtain ⟨behind, same⟩ := List.isPrefixOf_iff_prefix.mp hash
      exact comment (congrArg Option.some (List.cons.inj same).1.symm)
  have before : key.envKey.toList.length ≠ 0 := fun none => some (List.length_eq_zero_iff.mp none)
  unfold assignment
  rw [trimmed]
  dsimp only
  rw [if_neg blank, index]
  dsimp only
  rw [if_neg before, text, List.take_left, List.drop_length_add_append]
  simp only [List.drop_succ_cons, List.drop_zero, String.ofList_toList, plain.trimmed, clean.trimmed]

theorem line_newline {key : SettingsKeyDef} (managed : key ∈ SETTINGS_KEYS) {value : String} (clean : Clean value) :
    '\n' ∉ s!"{key.envKey}={value}".toList := by
  rw [toList_line, List.mem_append, List.mem_cons]
  rintro (name | equals | text)
  · exact (envKey_plain managed).2.2.2.2.line name
  · cases equals
  · exact clean.line text

end

def setsText (keys : List String) (line : String) : Bool := (lineEnvKey line).any fun name => decide (name ∈ keys)

def sets (keys : List String) (line : List UInt8) : Bool := setsText keys (textOf line)

/-- The lines that set none of these keys, in order. -/
def otherLines (keys : List String) (file : SettingsFile) : List (List UInt8) :=
  (fileLines file).filter fun line => !sets keys line

/-- Every other setting is what it was, and every other line is where it was. -/
structure Keeps (keys : List String) (file file' : SettingsFile) : Prop where
  others : ∀ attr key, lookupSettingsKey attr = some key → key.envKey ∉ keys →
    ∀ env, resolveSetting env file' attr = resolveSetting env file attr
  lines : otherLines keys file' = otherLines keys file

/-- No line sets these keys any more, and each of them is its default. -/
structure Resets (keys : List String) (file file' : SettingsFile) : Prop extends Keeps keys file file' where
  cleared : ∀ line ∈ fileLines file', sets keys line = false
  defaults : ∀ attr key, lookupSettingsKey attr = some key → key.envKey ∈ keys → ∀ env, env key.envKey = none →
    resolveSetting env file' attr = .ok { value := key.builtinDefault, source := .default }

def Encoded (line : List UInt8) : Prop := ∃ text, line = Utf8.encode text

section

variable {lines : List String} {file file' : SettingsFile} {keys : List String} {key : SettingsKeyDef} {attr : String}

theorem encoded_iff {line : List UInt8} : Encoded line ↔ bytesOf (textOf line) = line := by
  rw [bytesOf, textOf, String.toList_ofList]
  constructor
  · rintro ⟨text, rfl⟩
    rw [Utf8.decode_encode]
  · exact fun same => ⟨_, same.symm⟩

theorem setsText_eq_true {line : String} :
    setsText keys line = true ↔ ∃ name, lineEnvKey line = some name ∧ name ∈ keys := by
  rw [setsText, Option.any_eq_true]
  exact exists_congr fun name => and_congr_right fun _ => decide_eq_true_iff

theorem setsText_singleton {name line : String} : setsText [name] line = true ↔ lineEnvKey line = some name := by
  rw [setsText_eq_true]
  constructor
  · rintro ⟨other, is, member⟩
    rwa [List.mem_singleton.mp member] at is
  · exact fun is => ⟨name, is, List.mem_singleton_self name⟩

theorem filter_setsText_singleton (name : String) (lines : List String) :
    (lines.filter fun line => lineEnvKey line ≠ some name) = lines.filter fun line => !setsText [name] line := by
  refine List.filter_congr fun line _ => ?_
  by_cases set : lineEnvKey line = some name
  · rw [setsText_singleton.mpr set, decide_eq_false (not_not.mpr set)]
    rfl
  · rw [Bool.eq_false_iff.mpr fun sets => set (setsText_singleton.mp sets), decide_eq_true set]
    rfl

theorem mem_of_lookup (found : lookupSettingsKey attr = some key) : key ∈ SETTINGS_KEYS := by
  unfold lookupSettingsKey at found
  dsimp only at found
  exact List.mem_of_find?_eq_some found

theorem resolve_congr (found : lookupSettingsKey attr = some key)
    (same : loadSettingsFileDefaults file' key.envKey = loadSettingsFileDefaults file key.envKey)
    (env : String → Option String) : resolveSetting env file' attr = resolveSetting env file attr := by
  unfold resolveSetting
  rw [found]
  dsimp only
  rw [same]

theorem valueFor_other {line name : String} (sets : setsText keys line = true) (other : name ∉ keys) :
    valueFor name line = none := by
  obtain ⟨set, is, member⟩ := setsText_eq_true.mp sets
  refine valueFor_of_lineEnvKey fun same => other ?_
  obtain rfl := Option.some_inj.mp (is.symm.trans same)
  exact member

/-- Files with the same other lines, as texts, give the same for other settings. -/
theorem load_congr {name : String} (other : name ∉ keys)
    (same : ((readSettingsFileLines file').filter fun line => !setsText keys line) =
      (readSettingsFileLines file).filter fun line => !setsText keys line) :
    loadSettingsFileDefaults file' name = loadSettingsFileDefaults file name := by
  have apart : ∀ line, (!setsText keys line) = false → valueFor name line = none :=
    fun line sets => valueFor_other (by rwa [Bool.not_eq_false'] at sets) other
  rw [loadSettingsFileDefaults, loadSettingsFileDefaults, ← parse_filter apart, same, parse_filter apart]

theorem otherLines_write (clean : ∀ line ∈ lines, '\n' ∉ line.toList) :
    otherLines keys (writeSettingsFileLines lines) = (lines.filter fun line => !setsText keys line).map bytesOf := by
  rw [otherLines, fileLines_write clean, List.filter_map]
  refine congrArg _ (List.filter_congr fun line _ => ?_)
  rw [Function.comp_apply, sets, textOf_bytesOf]

theorem map_textOf_otherLines (keys : List String) (file : SettingsFile) :
    (otherLines keys file).map textOf = (readSettingsFileLines file).filter fun line => !setsText keys line := by
  rw [readSettingsFileLines_eq, List.filter_map, otherLines]
  rfl

/-- What is written in place of the lines of these keys keeps the others if and only if they are text. -/
theorem keeps_write_iff (clean : ∀ line ∈ lines, '\n' ∉ line.toList)
    (same : (lines.filter fun line => !setsText keys line) =
      (readSettingsFileLines file).filter fun line => !setsText keys line) :
    Keeps keys file (writeSettingsFileLines lines) ↔ ∀ line ∈ otherLines keys file, Encoded line := by
  have written : otherLines keys (writeSettingsFileLines lines) =
      (otherLines keys file).map fun line => bytesOf (textOf line) := by
    rw [otherLines_write clean, same, ← map_textOf_otherLines, List.map_map]
    rfl
  have back := read_write clean
  constructor
  · intro keeps line member
    have whole := written.symm.trans keeps.lines
    refine encoded_iff.mpr (List.map_inj_left.mp (whole.trans (List.map_id _).symm) line member)
  · intro encoded
    refine ⟨fun attr key found other env => resolve_congr found (load_congr other ?_) env, ?_⟩
    · rw [back]
      exact same
    · rw [written]
      exact (List.map_congr_left fun line member => encoded_iff.mp (encoded line member)).trans (List.map_id _)

theorem encoded_write (clean : ∀ line ∈ lines, '\n' ∉ line.toList) :
    ∀ line ∈ otherLines keys (writeSettingsFileLines lines), Encoded line := by
  intro line member
  rw [otherLines_write clean] at member
  obtain ⟨text, -, rfl⟩ := List.mem_map.mp member
  exact ⟨text.toList, rfl⟩

theorem resets_write (clean : ∀ line ∈ lines, '\n' ∉ line.toList) : Resets keys (writeSettingsFileLines lines)
    (writeSettingsFileLines (lines.filter fun line => !setsText keys line)) := by
  have clean' : ∀ line ∈ lines.filter (fun line => !setsText keys line), '\n' ∉ line.toList :=
    fun line member => clean line (List.mem_of_mem_filter member)
  have free : ∀ line ∈ lines.filter (fun line => !setsText keys line), setsText keys line = false := by
    intro line member
    have none := List.of_mem_filter member
    rwa [Bool.not_eq_true'] at none
  have keeps : Keeps keys (writeSettingsFileLines lines)
      (writeSettingsFileLines (lines.filter fun line => !setsText keys line)) := by
    refine (keeps_write_iff clean' ?_).mpr (encoded_write clean)
    rw [read_write clean, List.filter_filter]
    exact List.filter_congr fun line _ => Bool.and_self _
  refine { keeps with cleared := fun line member => ?_, defaults := fun attr key found member env unset => ?_ }
  · rw [fileLines_write clean'] at member
    obtain ⟨text, inside, rfl⟩ := List.mem_map.mp member
    rw [sets, textOf_bytesOf, free text inside]
  · have none : loadSettingsFileDefaults (writeSettingsFileLines (lines.filter fun line => !setsText keys line))
        key.envKey = none := by
      rw [loadSettingsFileDefaults, read_write clean']
      refine parse_eq_none fun line inside => valueFor_of_lineEnvKey fun same => ?_
      have set := setsText_eq_true.mpr ⟨_, same, member⟩
      rw [free line inside] at set
      cases set
    unfold resolveSetting
    rw [found]
    dsimp only
    rw [unset, none]

theorem settingsReset_attr (clean : ∀ line ∈ lines, '\n' ∉ line.toList) (found : lookupSettingsKey attr = some key) :
    ∃ cleared, settingsReset (writeSettingsFileLines lines) (some attr) =
      .ok (cleared, writeSettingsFileLines (lines.filter fun line => !setsText [key.envKey] line)) := by
  unfold settingsReset
  dsimp only
  rw [found]
  dsimp only
  rw [read_write clean, spliceAll_eq, ← filter_setsText_singleton]
  split
  · rename_i none
    have others := matchingLineIndices_eq_nil.mp none
    rw [List.filter_eq_self.mpr fun line member => decide_eq_true (others line member)]
    exact ⟨_, rfl⟩
  · exact ⟨_, rfl⟩

def managedNames : List String := SETTINGS_KEYS.map SettingsKeyDef.envKey

theorem settingsReset_all (clean : ∀ line ∈ lines, '\n' ∉ line.toList) :
    ∃ cleared, settingsReset (writeSettingsFileLines lines) none =
      .ok (cleared, writeSettingsFileLines (lines.filter fun line => !setsText managedNames line)) := by
  have managed : ∀ line, ((lineEnvKey line).bind fun name => SETTINGS_KEYS.find? fun key => key.envKey = name).isNone =
      !setsText managedNames line := by
    intro line
    rw [setsText]
    cases lineEnvKey line with
    | none => rfl
    | some name =>
        rw [Option.bind_some, Option.any_some, managedNames]
        by_cases member : name ∈ SETTINGS_KEYS.map SettingsKeyDef.envKey
        · obtain ⟨key, inside, same⟩ := List.mem_map.mp member
          have some := (List.find?_isSome (p := fun key => decide (key.envKey = name))).mpr
            ⟨key, inside, decide_eq_true same⟩
          rw [decide_eq_true member, Option.isNone_eq_false_iff.mpr some]
          rfl
        · have none : (SETTINGS_KEYS.find? fun key => key.envKey = name) = none :=
            List.find?_eq_none.mpr fun key inside same =>
              member (List.mem_map.mpr ⟨key, inside, of_decide_eq_true same⟩)
          rw [decide_eq_false member, none]
          rfl
  unfold settingsReset
  dsimp only
  rw [read_write clean]
  have filters : lines.filter (fun line =>
      ((lineEnvKey line).bind fun name => SETTINGS_KEYS.find? fun key => key.envKey = name).isNone) =
        lines.filter fun line => !setsText managedNames line := List.filter_congr fun line _ => managed line
  rw [filters]
  split
  · rename_i none
    rw [List.map_eq_nil_iff, List.filterMap_eq_nil_iff] at none
    have all : lines.filter (fun line => !setsText managedNames line) = lines :=
      List.filter_eq_self.mpr fun line member => by rw [← managed line, none line member]; rfl
    rw [all]
    exact ⟨_, rfl⟩
  · exact ⟨_, rfl⟩

end

/-- What is set is read back from the file, nothing else changes, and a reset of any setting or of all of them
leaves its default. -/
structure Exact (file : SettingsFile) (key : SettingsKeyDef) (value : SettingsValue) (file' : SettingsFile) :
    Prop where
  own : ∀ attr, lookupSettingsKey attr = some key → ∀ env, env key.envKey = none →
    resolveSetting env file' attr = .ok { value := some value, source := .file }
  keeps : Keeps [key.envKey] file file'
  reset : ∀ attr other, lookupSettingsKey attr = some other →
    ∃ cleared file'', settingsReset file' (some attr) = .ok (cleared, file'') ∧ Resets [other.envKey] file' file''
  resetAll : ∃ cleared file'', settingsReset file' none = .ok (cleared, file'') ∧ Resets managedNames file' file''

/-- A size is short, and the lines of others are text. -/
structure Writable (file : SettingsFile) (key : SettingsKeyDef) (raw : String) : Prop where
  short : Short key raw
  encoded : ∀ line ∈ otherLines [key.envKey] file, Encoded line

section

variable {file file' : SettingsFile} {key : SettingsKeyDef} {attr raw : String} {result : SettingsSetResult}

theorem settingsSet_ok (found : lookupSettingsKey attr = some key)
    (set : settingsSet file attr raw = .ok (result, file')) : key.parse raw = .ok result.value ∧
      file' = writeSettingsFileLines (setLines (readSettingsFileLines file) key.envKey
        s!"{key.envKey}={key.serialize result.value}") := by
  unfold settingsSet at set
  rw [found] at set
  dsimp only at set
  cases read : key.parse raw with
  | error e => rw [read] at set; cases set
  | ok value =>
      rw [read] at set
      cases set
      exact ⟨rfl, rfl⟩

theorem load_line {lines front back : List String} {line name value : String}
    (whole : lines = front ++ line :: back) (clean : ∀ line ∈ lines, '\n' ∉ line.toList)
    (set : valueFor name line = some value) (others : ∀ line ∈ back, lineEnvKey line ≠ some name) :
    loadSettingsFileDefaults (writeSettingsFileLines lines) name = some value := by
  have behind := @parse_eq_none back name fun line member => valueFor_of_lineEnvKey (others line member)
  rw [loadSettingsFileDefaults, read_write clean, whole, ← List.singleton_append, ← List.append_assoc, parse_append,
    behind, Option.none_or, parse_concat, set, Option.some_or]

/-- An edit does what it says if and only if a size is below what rounds to 10^21 and the lines of others are
text. -/
theorem editing_exact_iff (found : lookupSettingsKey attr = some key)
    (set : settingsSet file attr raw = .ok (result, file')) :
    Exact file key result.value file' ↔ Writable file key raw := by
  have managed := mem_of_lookup found
  obtain ⟨read, rfl⟩ := settingsSet_ok found set
  obtain ⟨clean, back⟩ := parse_serialize managed read
  have assigned := assignment_line managed clean
  have line := line_newline managed clean
  have own : lineEnvKey s!"{key.envKey}={key.serialize result.value}" = some key.envKey := by
    rw [lineEnvKey, assigned]
    rfl
  have value : valueFor key.envKey s!"{key.envKey}={key.serialize result.value}" =
      some (key.serialize result.value) := by
    rw [valueFor, assigned, Option.bind_some]
    exact if_pos ⟨(envKey_plain managed).1, rfl⟩
  obtain ⟨front, rest, whole, others⟩ := setLines_eq (readSettingsFileLines file) key.envKey
    s!"{key.envKey}={key.serialize result.value}"
  have foreign : ∀ line ∈ front ++ rest, line ∈ readSettingsFileLines file ∧ lineEnvKey line ≠ some key.envKey := by
    intro line member
    rw [others] at member
    exact ⟨List.mem_of_mem_filter member, by simpa using List.of_mem_filter member⟩
  generalize setLines (readSettingsFileLines file) key.envKey
    s!"{key.envKey}={key.serialize result.value}" = lines at whole ⊢
  have texts : ∀ line ∈ lines, '\n' ∉ line.toList := by
    rw [whole, List.forall_mem_append, List.forall_mem_cons]
    exact ⟨fun line member => line_clean (foreign line (List.mem_append_left _ member)).1, line,
      fun line member => line_clean (foreign line (List.mem_append_right _ member)).1⟩
  have loaded : loadSettingsFileDefaults (writeSettingsFileLines lines) key.envKey =
      some (key.serialize result.value) :=
    load_line whole texts value fun line member => (foreign line (List.mem_append_right _ member)).2
  have keeps : Keeps [key.envKey] file (writeSettingsFileLines lines) ↔
      ∀ line ∈ otherLines [key.envKey] file, Encoded line := by
    refine keeps_write_iff texts ?_
    have dropped : ∀ rest : List String, (s!"{key.envKey}={key.serialize result.value}" :: rest).filter
        (fun line => decide (lineEnvKey line ≠ some key.envKey)) =
          rest.filter fun line => decide (lineEnvKey line ≠ some key.envKey) :=
      fun rest => List.filter_cons_of_neg (by simpa using own)
    rw [← filter_setsText_singleton, ← filter_setsText_singleton, whole, ← others, List.filter_append, dropped,
      ← List.filter_append]
    exact List.filter_eq_self.mpr fun line member => decide_eq_true (foreign line member).2
  have resolved : ∀ name, lookupSettingsKey name = some key → ∀ env, env key.envKey = none →
      resolveSetting env (writeSettingsFileLines lines) name =
        (key.parse (key.serialize result.value)).map fun value => { value := some value, source := .file } := by
    intro name named env unset
    unfold resolveSetting
    rw [named]
    dsimp only
    rw [unset, loaded]
  constructor
  · intro exact
    refine ⟨back.mp ?_, keeps.mp exact.keeps⟩
    have reads := exact.own attr found (fun _ => none) rfl
    rw [resolved attr found _ rfl] at reads
    obtain ⟨value, ok, same⟩ := map_eq_ok.mp reads
    cases same
    exact ok
  · intro writable
    refine ⟨fun name named env unset => ?_, keeps.mpr writable.encoded, fun name other named => ?_, ?_⟩
    · rw [resolved name named env unset, back.mpr writable.short]
      rfl
    · obtain ⟨cleared, reset⟩ := settingsReset_attr texts named
      exact ⟨cleared, _, reset, resets_write texts⟩
    · obtain ⟨cleared, reset⟩ := settingsReset_all texts
      exact ⟨cleared, _, reset, resets_write texts⟩

end

def sample : SettingsFile := some (bytesOf "# mine\nQUICKCHR_ACCEL=hvf\nFOO=1\n QUICKCHR_ACCEL = tcg\n")

theorem editing_exact_sample : ∃ result file', settingsSet sample "QUICKCHR_ACCEL" " KVM" = .ok (result, file') ∧
    file' = some (bytesOf "# mine\nFOO=1\nQUICKCHR_ACCEL=kvm\n") ∧ Exact sample accel result.value file' := by
  have found : lookupSettingsKey "QUICKCHR_ACCEL" = some accel := by rfl
  have set : settingsSet sample "QUICKCHR_ACCEL" " KVM" =
      .ok ({ key := "accel", previous := some (.text "tcg"), value := .text "kvm" },
        some (bytesOf "# mine\nFOO=1\nQUICKCHR_ACCEL=kvm\n")) := by decide +kernel
  refine ⟨_, _, set, rfl, (editing_exact_iff found set).mpr ⟨fun size => absurd size (by decide), ?_⟩⟩
  have texts : ((otherLines ["QUICKCHR_ACCEL"] sample).all fun line => bytesOf (textOf line) = line) = true := by
    decide +kernel
  exact fun line member => encoded_iff.mpr (of_decide_eq_true (List.all_eq_true.mp texts line member))

/-- A size of 10^21 is written with an exponent, which no size has. -/
theorem editing_fails : ¬ ∀ file attr raw key result file', lookupSettingsKey attr = some key →
    settingsSet file attr raw = .ok (result, file') → Exact file key result.value file' := by
  intro all
  have found : lookupSettingsKey "storage-reserve" = some storageReserve := by rfl
  have set : settingsSet none "storage-reserve" "1000000000000000000000" =
      .ok ({ key := "storage-reserve", previous := none, value := .number (Number.round (10 ^ 21)) },
        some (bytesOf "QUICKCHR_STORAGE_RESERVE=1e+21\n")) := by decide +kernel
  have reads := (all _ _ _ _ _ _ found set).own "storage-reserve" found (fun _ => none) rfl
  have refused : (resolveSetting (fun _ => none) (some (bytesOf "QUICKCHR_STORAGE_RESERVE=1e+21\n"))
      "storage-reserve").toOption = none := by decide +kernel
  rw [reads] at refused
  cases refused

end Quickchr.Settings
