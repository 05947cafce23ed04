import Quickchr.Flags

/-!
# Command lines

A command line as the items it was written with. Reading it gives every item back: a flag with
values holds them in order, a switch what was said last, and the positionals keep their places.
-/
namespace Quickchr.Cli

inductive Item
  | assigned (key value : String)
  | separate (key value : String)
  | switch (key : String)
  | negated (key : String)
  | positional (arg : String)

/-- A flag's name. Every word of letters, digits and hyphens qualifies that does not start with
`no-` and was not removed. -/
structure Name (key : String) : Prop where
  nonempty : key ≠ ""
  characters : ∀ c ∈ key.toList, c ≠ '=' ∧ c ≠ '_'
  positive : Text.startsWith key "no-" = false
  kept : REMOVED_FLAGS.get key = none

namespace Item

def argv : Item → List String
  | assigned key value => ["--" ++ key ++ "=" ++ value]
  | separate key value => ["--" ++ key, value]
  | switch key => ["--" ++ key]
  | negated key => ["--no-" ++ key]
  | positional arg => [arg]

def Proper : Item → Prop
  | assigned key _ => Name key
  | separate key value => Name key ∧ key ∈ VALUE_FLAGS ∧ Text.startsWith value "--" = false
  | switch key => Name key ∧ key ∉ VALUE_FLAGS
  | negated key => Name key
  | positional arg => Text.startsWith arg "--" = false

def value? (key : String) : Item → Option String
  | assigned k value => if k = key then some value else none
  | separate k value => if k = key then some value else none
  | _ => none

def switch? (key : String) : Item → Option Bool
  | switch k => if k = key then some true else none
  | negated k => if k = key then some false else none
  | _ => none

def positional? : Item → Option String
  | positional arg => some arg
  | _ => none

def apply (flags : Flags) : Item → Flags
  | assigned key value => appendFlagValue flags key value
  | separate key value => appendFlagValue flags key value
  | switch key => setFlag flags key (.bool true)
  | negated key => setFlag flags key (.bool false)
  | positional _ => flags

end Item

def values (items : List Item) (key : String) : List String := items.filterMap (Item.value? key)

def switches (items : List Item) (key : String) : List Bool := items.filterMap (Item.switch? key)

def positionals (items : List Item) : List String := items.filterMap Item.positional?

/-- The command line: the items, and after `--` whatever follows. -/
def commandLine (items : List Item) (after : Option (List String)) : List String :=
  items.flatMap Item.argv ++ (after.map ("--" :: ·)).getD []

/-- What a flag holds after its values or, for a switch, after what was said of it. -/
def held : List String → List Bool → Option FlagValue
  | [], said => said.getLast?.map .bool
  | [value], _ => some (.text value)
  | vs, _ => some (.texts vs)

section

variable {key value arg : String} {flags : Flags} {positional rest : List String}

theorem name_of_word (nonempty : key ≠ "") (word : key.toList.all fun c => c.isAlphanum || c == '-')
    (positive : Text.startsWith key "no-" = false) (kept : REMOVED_FLAGS.get key = none) :
    Name key where
  nonempty := nonempty
  characters c member := by
    have letter := List.all_eq_true.mp word c member
    constructor <;> rintro rfl <;> exact absurd letter (by decide)
  positive := positive
  kept := kept

theorem Name.own (name : Name key) : key ≠ "__proto__" := by
  rintro rfl
  exact (name.characters '_' (by decide)).2 rfl

theorem Name.rejectRemovedFlag (name : Name key) : rejectRemovedFlag key = .ok () := by
  rw [Cli.rejectRemovedFlag, name.kept]

theorem Name.notEnd (name : Name key) : "--" ++ key ≠ "--" := fun same =>
  name.nonempty (String.append_right_inj "--" |>.mp (same.trans (String.append_empty).symm))

theorem startsWith_dashes : Text.startsWith ("--" ++ arg) "--" = true := by
  rw [Text.startsWith, String.toList_append]
  exact List.isPrefixOf_iff_prefix.mpr (List.prefix_append _ _)

theorem slice_dashes : slice ("--" ++ key) 2 = key := by
  rw [slice, String.toList_append]
  exact String.ofList_toList

theorem slice_negated : slice ("--no-" ++ key) 5 = key := by
  rw [slice, String.toList_append]
  exact String.ofList_toList

/-- After the dashes a flag is negated if its name starts with `no-`. -/
theorem startsWith_negated : Text.startsWith ("--" ++ key) "--no-" = Text.startsWith key "no-" := by
  rw [Text.startsWith, Text.startsWith, String.toList_append]
  rfl

theorem Name.takeWhile (name : Name key) (l : List Char) :
    (key.toList ++ l).takeWhile (· ≠ '=') = key.toList ++ l.takeWhile (· ≠ '=') :=
  List.takeWhile_append_of_pos fun c member => decide_eq_true (name.characters c member).1

theorem Name.dropWhile (name : Name key) (l : List Char) :
    (key.toList ++ l).dropWhile (· ≠ '=') = l.dropWhile (· ≠ '=') :=
  List.dropWhile_append_of_pos fun c member => decide_eq_true (name.characters c member).1

theorem Name.keyValue_assigned (name : Name key) :
    keyValue ("--" ++ key ++ "=" ++ value) = some (key, value) := by
  have body : ("--" ++ key ++ "=" ++ value).toList.drop 2 = key.toList ++ ('=' :: value.toList) := by
    simp only [String.toList_append, List.append_assoc]
    rfl
  rw [keyValue, body, name.dropWhile, name.takeWhile, List.dropWhile_cons_of_neg (by simp),
    List.takeWhile_cons_of_neg (by simp), List.append_nil, String.ofList_toList]
  dsimp only
  rw [String.ofList_toList]

theorem Name.keyValue_bare (name : Name key) : keyValue ("--" ++ key) = none := by
  have body : ("--" ++ key).toList.drop 2 = key.toList ++ [] := by
    rw [String.toList_append, List.append_nil]
    rfl
  rw [keyValue, body, name.dropWhile]
  rfl

theorem Name.keyValue_negated (name : Name key) : keyValue ("--no-" ++ key) = none := by
  have body : ("--no-" ++ key).toList.drop 2 = "no-".toList ++ (key.toList ++ []) := by
    rw [String.toList_append, List.append_nil]
    rfl
  have noEquals : ("no-".toList.all (· ≠ '=')) = true := by decide +kernel
  rw [keyValue, body, List.dropWhile_append_of_pos (List.all_eq_true.mp noEquals), name.dropWhile]
  rfl

theorem parse_assigned (name : Name key) :
    parse flags positional (("--" ++ key ++ "=" ++ value) :: rest) =
      parse (appendFlagValue flags key value) positional rest := by
  have starts : Text.startsWith ("--" ++ key ++ "=" ++ value) "--" = true := by
    rw [String.append_assoc, String.append_assoc]
    exact startsWith_dashes
  have notEnd : "--" ++ key ++ "=" ++ value ≠ "--" := fun same => by
    have parts : keyValue ("--" ++ key ++ "=" ++ value) = some (key, value) := name.keyValue_assigned
    rw [same, show keyValue "--" = none from rfl] at parts
    cases parts
  rw [parse, if_neg notEnd, if_pos starts, name.keyValue_assigned]
  dsimp only
  rw [name.rejectRemovedFlag]
  rfl

theorem parse_switch (name : Name key) (h : key ∉ VALUE_FLAGS) :
    parse flags positional (("--" ++ key) :: rest) =
      parse (setFlag flags key (.bool true)) positional rest := by
  rw [parse, if_neg name.notEnd, if_pos startsWith_dashes, name.keyValue_bare]
  dsimp only
  rw [startsWith_negated, name.positive, if_neg Bool.false_ne_true, slice_dashes,
    name.rejectRemovedFlag]
  cases rest with
  | nil => rfl
  | cons next following =>
      simp only [bind, Except.bind, h, false_and, if_false]

theorem parse_negated (name : Name key) :
    parse flags positional (("--no-" ++ key) :: rest) =
      parse (setFlag flags key (.bool false)) positional rest := by
  have spelled : "--no-" ++ key = "--" ++ ("no-" ++ key) := by
    rw [← String.append_assoc]
    rfl
  have notEnd : "--no-" ++ key ≠ "--" := fun same => by
    have chars := congrArg (List.length ∘ String.toList) same
    simp only [Function.comp_apply, String.toList_append, List.length_append] at chars
    have five : "--no-".toList.length = 5 := rfl
    have two : "--".toList.length = 2 := rfl
    omega
  have starts : Text.startsWith ("--no-" ++ key) "--no-" = true := by
    rw [Text.startsWith, String.toList_append]
    exact List.isPrefixOf_iff_prefix.mpr (List.prefix_append _ _)
  have dashes : Text.startsWith ("--no-" ++ key) "--" = true := by
    rw [spelled]
    exact startsWith_dashes
  rw [parse, if_neg notEnd, if_pos dashes, name.keyValue_negated]
  dsimp only
  rw [if_pos starts, slice_negated, name.rejectRemovedFlag]
  rfl

/-- Reading a proper item does to the flags what the item says, and goes on behind it. -/
theorem parse_item {item : Item} (proper : item.Proper) :
    parse flags positional (item.argv ++ rest) =
      parse (item.apply flags) (positional ++ item.positional?.toList) rest := by
  cases item with
  | assigned key value =>
      change _ = parse _ (positional ++ []) rest
      rw [List.append_nil]
      exact parse_assigned proper
  | separate key value =>
      obtain ⟨-, takesValue, plain⟩ := proper
      change parse flags positional (("--" ++ key) :: value :: rest) = parse _ (positional ++ []) rest
      rw [List.append_nil, parse_valueFlag takesValue]
      dsimp only
      rw [plain, if_neg Bool.false_ne_true]
      rfl
  | switch key =>
      change _ = parse _ (positional ++ []) rest
      rw [List.append_nil]
      exact parse_switch proper.1 proper.2
  | negated key =>
      change _ = parse _ (positional ++ []) rest
      rw [List.append_nil]
      exact parse_negated proper
  | positional arg => exact parse_positional proper

theorem get_apply {item : Item} (proper : item.Proper) :
    (item.apply flags).get key =
      match item.value? key, item.switch? key with
      | some value, _ => some (appended (flags.get key) value)
      | none, some b => some (.bool b)
      | none, none => flags.get key := by
  have added (name : Name key) (value : String) :
      (appendFlagValue flags key value).get key = some (appended (flags.get key) value) := by
    rw [appendFlagValue_eq, get_setFlag_self name.own]
  have other {k : String} (ne : k ≠ key) (value : String) :
      (appendFlagValue flags k value).get key = flags.get key := by
    rw [appendFlagValue_eq, get_setFlag_ne (Ne.symm ne)]
  cases item with
  | assigned k value =>
      by_cases here : k = key
      · subst here
        simpa only [Item.apply, Item.value?, if_true] using added proper value
      · simpa only [Item.apply, Item.value?, Item.switch?, here, if_false] using other here value
  | separate k value =>
      by_cases here : k = key
      · subst here
        simpa only [Item.apply, Item.value?, if_true] using added proper.1 value
      · simpa only [Item.apply, Item.value?, Item.switch?, here, if_false] using other here value
  | switch k =>
      by_cases here : k = key
      · subst here
        simpa only [Item.apply, Item.value?, Item.switch?, if_true] using get_setFlag_self proper.1.own _
      · simpa only [Item.apply, Item.value?, Item.switch?, here, if_false] using get_setFlag_ne (Ne.symm here) _
  | negated k =>
      by_cases here : k = key
      · subst here
        simpa only [Item.apply, Item.value?, Item.switch?, if_true] using get_setFlag_self proper.own _
      · simpa only [Item.apply, Item.value?, Item.switch?, here, if_false] using get_setFlag_ne (Ne.symm here) _
  | positional arg => rfl

theorem parse_items {items : List Item} (proper : ∀ item ∈ items, item.Proper) :
    parse flags positional (items.flatMap Item.argv ++ rest) =
      parse (items.foldl Item.apply flags) (positional ++ positionals items) rest := by
  induction items generalizing flags positional with
  | nil =>
      rw [positionals, List.filterMap_nil, List.append_nil]
      rfl
  | cons item items ih =>
      rw [List.forall_mem_cons] at proper
      have split : positionals (item :: items) = item.positional?.toList ++ positionals items := by
        unfold positionals
        rw [List.filterMap_cons]
        cases item.positional? <;> rfl
      rw [List.flatMap_cons, List.append_assoc, parse_item proper.1, ih proper.2, split,
        List.append_assoc]
      rfl

theorem parse_after (after : Option (List String)) :
    parse flags positional ((after.map ("--" :: ·)).getD []) =
      .ok (flags, positional ++ after.getD []) := by
  cases after with
  | none =>
      rw [Option.getD_none, List.append_nil]
      rfl
  | some rest =>
      change parse flags positional ("--" :: rest) = .ok (flags, positional ++ rest)
      rw [parse, if_pos rfl]

theorem held_append (vs : List String) (value : String) :
    held (vs ++ [value]) [] = some (appended (held vs []) value) := by
  rcases vs with - | ⟨v, - | ⟨w, vs⟩⟩ <;> rfl

theorem held_nil_append (said : List Bool) (b : Bool) : held [] (said ++ [b]) = some (.bool b) := by
  rw [held, List.getLast?_concat]
  rfl

theorem values_append (items : List Item) (item : Item) :
    values (items ++ [item]) key = values items key ++ (item.value? key).toList := by
  rw [values, List.filterMap_append, List.filterMap_cons]
  cases item.value? key <;> rfl

theorem switches_append (items : List Item) (item : Item) :
    switches (items ++ [item]) key = switches items key ++ (item.switch? key).toList := by
  rw [switches, List.filterMap_append, List.filterMap_cons]
  cases item.switch? key <;> rfl

/-- What the items say of a flag is what it holds, in every prefix of the line. -/
theorem get_items {items : List Item} (proper : ∀ item ∈ items, item.Proper)
    (style : values items key = [] ∨ switches items key = []) :
    (items.foldl Item.apply []).get key = held (values items key) (switches items key) := by
  induction items using List.reverseRecOn with
  | nil => rfl
  | append_singleton items item ih =>
      rw [List.forall_mem_append, List.forall_mem_singleton] at proper
      rw [values_append, switches_append] at style ⊢
      rw [List.append_eq_nil_iff, List.append_eq_nil_iff] at style
      rw [List.foldl_append, List.foldl_cons, List.foldl_nil, get_apply proper.2,
        ih proper.1 (style.imp And.left And.left)]
      cases valued : item.value? key with
      | some value =>
          -- The flag has values, so nothing switches it.
          rw [valued] at style
          obtain ⟨-, nothing⟩ | ⟨unsaid, last⟩ := style
          · cases nothing
          · rw [unsaid, last, List.append_nil, Option.toList_some, held_append]
      | none =>
          rw [Option.toList_none, List.append_nil]
          cases said : item.switch? key with
          | some b =>
              rw [said] at style
              obtain ⟨unvalued, -⟩ | ⟨-, nothing⟩ := style
              · rw [unvalued, Option.toList_some, held_nil_append]
              · cases nothing
          | none => rw [Option.toList_none, List.append_nil]

theorem flag_held {vs : List String} {said : List Bool}
    (h : flags.get key = held vs said) : flag flags key = vs.getLast? := by
  rw [flag, lastFlagValue, h]
  rcases vs with - | ⟨v, - | ⟨w, vs⟩⟩
  · cases last : said.getLast? <;> simp only [held, last, Option.map_none, Option.map_some,
      List.getLast?_nil]
  · rfl
  · simp only [held, List.getLast?_cons_cons, Option.map]
    cases last : (w :: vs).getLast? with
    | none => cases List.getLast?_eq_none_iff.mp last
    | some value => rfl

end

/-- Reading the line loses nothing and steals nothing. -/
theorem parseFlags_commandLine (items : List Item) (after : Option (List String))
    (proper : ∀ item ∈ items, item.Proper)
    (style : ∀ key, values items key = [] ∨ switches items key = []) :
    ∃ flags, parseFlags (commandLine items after) = .ok (flags, positionals items ++ after.getD []) ∧
      ∀ key, flags.get key = held (values items key) (switches items key) ∧
        flag flags key = (values items key).getLast? := by
  refine ⟨items.foldl Item.apply [], ?_, fun key => ?_⟩
  · rw [parseFlags, commandLine, parse_items proper, parse_after, List.nil_append]
  · have holds := get_items proper (style key)
    exact ⟨holds, flag_held holds⟩

def sampleItems : List Item :=
  [.assigned "add-package" "a", .positional "lab", .separate "add-package" "-b", .switch "json",
    .negated "json"]

theorem parseFlags_commandLine_sample :
    ∃ flags, parseFlags (commandLine sampleItems (some ["--x"])) = .ok (flags, ["lab", "--x"]) ∧
      flags.get "add-package" = some (.texts ["a", "-b"]) ∧ flag flags "add-package" = some "-b" ∧
      flags.get "json" = some (.bool false) := by
  have package : Name "add-package" := name_of_word (by decide) (by decide) (by decide) (by decide)
  have json : Name "json" := name_of_word (by decide) (by decide) (by decide) (by decide)
  obtain ⟨flags, parsed, holds⟩ := parseFlags_commandLine sampleItems (some ["--x"])
    (by
      simp only [sampleItems, List.forall_mem_cons, Item.Proper]
      exact ⟨package, by decide, ⟨package, by decide, by decide⟩, ⟨json, by decide⟩, json, by simp⟩)
    (fun key => by
      by_cases here : "json" = key
      · subst here
        exact .inl (by decide)
      · refine .inr ?_
        simp only [sampleItems, switches, List.filterMap_cons, List.filterMap_nil, Item.switch?, here,
          if_false])
  exact ⟨flags, parsed, (holds _).1, (holds _).2, (holds _).1⟩

end Quickchr.Cli
