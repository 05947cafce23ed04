import Mathlib.Data.List.Flatten
import Quickchr.Console

/-!
# The output in a console reply

The guest repeats the command, prints its output line by line, and draws the prompt again with the echo
of the line that prints the marker. The reply is cut at the marker's own line. What is left of the echo
and of the prompt is told from the output by how it looks.
-/
namespace Quickchr.ConsoleOutput

/-- The command as the terminal repeats it, with carriage returns around it. -/
def Repeats (command : String) (line : List Char) : Prop :=
  ∃ front back, (∀ c ∈ front, c = '\r') ∧ (∀ c ∈ back, c = '\r') ∧ line = front ++ command.toList ++ back

/-- What the terminal shows of one command. Carriage returns that it puts before the output, or that the
cut leaves after it, are part of the first and the last line. -/
structure Transcript (nonce : List Char) (command : String) where
  /-- The command, or a redraw of it after a prompt. -/
  echo : Option (List Char)
  output : List (List Char)
  /-- The prompt with the echo of the marker's line. -/
  redraw : Option (List Char)
  echo_line : ∀ line ∈ echo, '\n' ∉ line ∧ (Repeats command line ∨ PROMPT_PATTERN <:+: line)
  output_line : ∀ line ∈ output, '\n' ∉ line ∧ ¬ nonce <:+: line
  redraw_line : ∀ line ∈ redraw, '\n' ∉ line ∧ nonce <:+: line

section

variable {nonce : List Char} {command : String}

def Transcript.rows (t : Transcript nonce command) : List (List Char) :=
  t.echo.toList ++ t.output ++ t.redraw.toList

/-- The reply shows the transcript and then, on a line of its own, the marker. Escape sequences may stand
anywhere in what is shown. -/
def Transcript.Shows (t : Transcript nonce command) (reply : List Char) (index : ℕ) : Prop :=
  ∃ own rest, '\n' ∉ own ∧
    ((t.rows = [] ∧ (∀ c ∈ own, c = '\r') ∧ reply = own ++ (makeSentinel nonce).marker ++ rest ∧
        index = own.length) ∨
      ∃ shown, reply = shown ++ '\n' :: (own ++ (makeSentinel nonce).marker ++ rest) ∧
        index = shown.length + 1 + own.length ∧ stripAnsi shown = ['\r', '\n'].intercalate t.rows)

def textOf (lines : List (List Char)) : String := Text.trim (Text.join "\n" (lines.map String.ofList))

def isPrompt (line : List Char) : Bool := (trimmed PROMPT_PATTERN).isSuffixOf (trimmed line)

/-- No line of the output is taken for something else: the first one not for the echo, where no echo without
the nonce stands before it, and the last one that is not blank not for a prompt. -/
def Transcript.Plain (t : Transcript nonce command) : Prop :=
  ((∀ line ∈ t.echo, nonce <:+: line) → ∀ first, t.output.head? = some first → isEcho command first = false) ∧
    ∀ last, (t.output.filter fun line => !isBlank line).getLast? = some last → isPrompt last = false

end

section

variable {line front back text : List Char} {lines : List (List Char)} {command : String}

def ink (text : List Char) : List Char := text.filter fun c => !Text.isSpace c

theorem ink_eq_nil : ink text = [] ↔ ∀ c ∈ text, Text.isSpace c = true := by
  simp only [ink, List.filter_eq_nil_iff, Bool.not_eq_true', Bool.not_eq_false]

theorem ink_dropWhile (text : List Char) : ink (text.dropWhile Text.isSpace) = ink text := by
  induction text with
  | nil => rfl
  | cons c text ih =>
      by_cases space : Text.isSpace c = true
      · have dropped : ink (c :: text) = ink text := List.filter_cons_of_neg (by simp [space])
        rw [List.dropWhile_cons_of_pos space, ih, dropped]
      · rw [List.dropWhile_cons_of_neg space]

theorem ink_rdropWhile (text : List Char) : ink (text.rdropWhile Text.isSpace) = ink text := by
  have reversed : ∀ l, ink l.reverse = (ink l).reverse := fun l => List.filter_reverse
  rw [List.rdropWhile, reversed, ink_dropWhile, reversed, List.reverse_reverse]

theorem ink_trim (text : List Char) : ink (Text.trim (String.ofList text)).toList = ink text := by
  rw [Text.trim, String.toList_ofList, String.toList_ofList, ink_rdropWhile, ink_dropWhile]

theorem isBlank_iff : isBlank line = true ↔ ink line = [] := by
  rw [isBlank, List.isEmpty_iff, trimmed]
  constructor
  · intro none
    rw [← ink_trim, none]
    rfl
  · intro none
    have all := List.dropWhile_eq_nil_iff.mpr (ink_eq_nil.mp none)
    rw [Text.trim, String.toList_ofList, String.toList_ofList, all]
    rfl

theorem toList_join (lines : List (List Char)) :
    (Text.join "\n" (lines.map String.ofList)).toList = ['\n'].intercalate lines := by
  have back : (lines.map String.ofList).map String.toList = lines := by
    rw [List.map_map]
    exact (List.map_congr_left fun l _ => String.toList_ofList).trans (List.map_id _)
  rw [Text.join, String.toList_intercalate, back]
  rfl

theorem ink_intercalate (lines : List (List Char)) : ink (['\n'].intercalate lines) = lines.flatMap ink := by
  induction lines with
  | nil => rfl
  | cons line lines ih =>
      cases lines with
      | nil => rw [List.intercalate_singleton, List.flatMap_singleton]
      | cons next lines =>
          have joined : ['\n'].intercalate (line :: next :: lines) =
              line ++ '\n' :: ['\n'].intercalate (next :: lines) := rfl
          have newline : ∀ l, ink ('\n' :: l) = ink l := fun l => List.filter_cons_of_neg (by decide)
          have parts : ∀ l l', ink (l ++ l') = ink l ++ ink l' := fun l l' => List.filter_append ..
          rw [joined, parts, newline, ih]
          rfl

theorem ink_textOf (lines : List (List Char)) : ink (textOf lines).toList = lines.flatMap ink := by
  have trimmed := ink_trim (Text.join "\n" (lines.map String.ofList)).toList
  rw [String.ofList_toList] at trimmed
  rw [textOf, trimmed, toList_join, ink_intercalate]

theorem trim_spaces (before : ink front = []) (text : List Char) (behind : ink back = []) :
    Text.trim (String.ofList (front ++ text ++ back)) = Text.trim (String.ofList text) := by
  have start : (front ++ text ++ back).dropWhile Text.isSpace = (text ++ back).dropWhile Text.isSpace := by
    rw [List.append_assoc, List.dropWhile_append, List.dropWhile_eq_nil_iff.mpr (ink_eq_nil.mp before)]
    rfl
  rw [Text.trim, Text.trim, String.toList_ofList, String.toList_ofList, start, List.dropWhile_append]
  congr 1
  split
  · rename_i empty
    rw [List.dropWhile_eq_nil_iff.mpr (ink_eq_nil.mp behind), List.isEmpty_iff.mp empty]
  · induction back using List.reverseRecOn with
    | nil => rw [List.append_nil]
    | append_singleton back c ih =>
        have spaces := ink_eq_nil.mp behind
        obtain ⟨others, space⟩ := List.forall_mem_append.mp spaces
        rw [← List.append_assoc, List.rdropWhile_concat_pos _ _ _ (space c (List.mem_singleton_self c))]
        refine ih (ink_eq_nil.mpr others) ?_
        rw [List.append_assoc, List.dropWhile_append, List.dropWhile_eq_nil_iff.mpr (ink_eq_nil.mp before)]
        rfl

theorem intercalate_append {front back : List (List Char)} (filled : front ≠ []) (filled' : back ≠ []) :
    ['\n'].intercalate (front ++ back) = ['\n'].intercalate front ++ '\n' :: ['\n'].intercalate back := by
  induction front with
  | nil => exact absurd rfl filled
  | cons line front ih =>
      cases front with
      | nil =>
          rw [List.singleton_append, List.intercalate_cons_of_ne_nil filled', List.intercalate_singleton,
            List.append_assoc]
          rfl
      | cons next front =>
          have more : next :: front ≠ [] := List.cons_ne_nil _ _
          rw [List.cons_append, List.intercalate_cons_of_ne_nil (List.append_ne_nil_of_left_ne_nil more back), ih more,
            List.intercalate_cons_of_ne_nil more]
          simp only [List.append_assoc, List.cons_append, List.nil_append]

theorem textOf_eq (lines : List (List Char)) : textOf lines = Text.trim (String.ofList (['\n'].intercalate lines)) := by
  rw [← toList_join, String.ofList_toList, textOf]

theorem textOf_blank {blank blank' : List (List Char)} (none : ∀ line ∈ blank, ink line = [])
    (none' : ∀ line ∈ blank', ink line = []) (lines : List (List Char)) :
    textOf (blank ++ lines ++ blank') = textOf lines := by
  have clean : ∀ lines : List (List Char), (∀ line ∈ lines, ink line = []) → ink (['\n'].intercalate lines) = [] :=
    fun lines none => by rw [ink_intercalate]; exact List.flatMap_eq_nil_iff.mpr none
  obtain ⟨before, joined, spaces⟩ : ∃ before, ['\n'].intercalate (blank ++ lines) =
      before ++ ['\n'].intercalate lines ∧ ink before = [] := by
    by_cases empty : lines = []
    · exact ⟨['\n'].intercalate blank, by rw [empty, List.append_nil, List.intercalate_nil, List.append_nil],
        clean blank none⟩
    by_cases empty' : blank = []
    · exact ⟨[], by rw [empty']; rfl, rfl⟩
    · refine ⟨['\n'].intercalate blank ++ ['\n'], ?_, ?_⟩
      · rw [intercalate_append empty' empty, List.append_assoc, List.singleton_append]
      · rw [ink, List.filter_append]
        exact List.append_eq_nil_iff.mpr ⟨clean blank none, rfl⟩
  obtain ⟨behind, joined', spaces'⟩ : ∃ behind, ['\n'].intercalate (blank ++ lines ++ blank') =
      ['\n'].intercalate (blank ++ lines) ++ behind ∧ ink behind = [] := by
    by_cases empty : blank' = []
    · exact ⟨[], by rw [empty, List.append_nil, List.append_nil], rfl⟩
    by_cases empty' : blank ++ lines = []
    · exact ⟨['\n'].intercalate blank', by rw [empty']; rfl, clean blank' none'⟩
    · refine ⟨'\n' :: ['\n'].intercalate blank', intercalate_append empty' empty, ?_⟩
      have newline : ink ('\n' :: ['\n'].intercalate blank') = ink (['\n'].intercalate blank') :=
        List.filter_cons_of_neg (by decide)
      rw [newline]
      exact clean blank' none'
  rw [textOf_eq, textOf_eq, joined', joined]
  exact trim_spaces spaces _ spaces'

/-- The lines from the first that is not blank, without blank lines and prompts at their end. -/
def kept (lines : List (List Char)) : List (List Char) :=
  (lines.dropWhile isBlank).rdropWhile fun line => isBlank line || isPrompt line

theorem kept_sublist (lines : List (List Char)) : (kept lines).Sublist lines :=
  (List.rdropWhile_prefix _ _).sublist.trans (List.dropWhile_sublist _)

/-- The last line that is not blank has only blank lines behind it. -/
theorem last_filled {lines : List (List Char)} {last : List Char} :
    (lines.filter fun line => !isBlank line).getLast? = some last ↔
      isBlank last = false ∧ ∃ front back, lines = front ++ last :: back ∧ ∀ line ∈ back, isBlank line = true := by
  have kept := @Text.getLast?_filter_iff _ (fun line => !isBlank line) lines last
  simpa only [Bool.not_eq_true', Bool.not_eq_false'] using kept

theorem dropWhile_filled {last : List Char} (filled : isBlank last = false) (front back : List (List Char)) :
    (front ++ last :: back).dropWhile isBlank = front.dropWhile isBlank ++ last :: back := by
  have stays : (last :: back).dropWhile isBlank = last :: back :=
    List.dropWhile_cons_of_neg (Bool.eq_false_iff.mp filled)
  rw [List.dropWhile_append, stays]
  split
  · rename_i none
    rw [List.isEmpty_iff.mp none, List.nil_append]
  · rfl

/-- The lines behind the last one that is not blank are dropped, and it too if it ends like a prompt. -/
theorem kept_filled {last : List Char} (filled : isBlank last = false) (front : List (List Char))
    {back : List (List Char)} (blank : ∀ line ∈ back, isBlank line = true) :
    kept (front ++ last :: back) =
      if isPrompt last then
        (front.dropWhile isBlank).rdropWhile fun line => isBlank line || isPrompt line
      else front.dropWhile isBlank ++ [last] := by
  rw [kept, dropWhile_filled filled]
  induction back using List.reverseRecOn with
  | nil =>
      by_cases prompt : isPrompt last = true
      · rw [if_pos prompt]
        exact List.rdropWhile_concat_pos _ _ _ (by rw [prompt, Bool.or_true])
      · rw [if_neg prompt]
        refine List.rdropWhile_concat_neg _ _ _ ?_
        rw [filled, Bool.false_or]
        exact prompt
  | append_singleton back line ih =>
      obtain ⟨others, space⟩ := List.forall_mem_append.mp blank
      rw [← List.cons_append, ← List.append_assoc,
        List.rdropWhile_concat_pos _ _ _ (by rw [space line (List.mem_singleton_self line), Bool.true_or])]
      exact ih others

theorem textOf_ne {lines lines' : List (List Char)}
    (more : (lines.flatMap ink).length < (lines'.flatMap ink).length) : textOf lines ≠ textOf lines' := by
  intro same
  rw [← ink_textOf, ← ink_textOf, same] at more
  exact absurd more (lt_irrefl _)

theorem ink_pos (filled : isBlank line = false) : 0 < (ink line).length :=
  List.length_pos_iff.mpr fun none => Bool.false_ne_true (filled.symm.trans (isBlank_iff.mpr none))

theorem length_ink_kept_le (lines : List (List Char)) :
    ((kept lines).flatMap ink).length ≤ (lines.flatMap ink).length :=
  ((kept_sublist lines).flatMap ink).length_le

/-- Every line that is not blank is kept if and only if the last of them does not look like a prompt. -/
theorem textOf_kept_iff (lines : List (List Char)) : textOf (kept lines) = textOf lines ↔
    ∀ last, (lines.filter fun line => !isBlank line).getLast? = some last → isPrompt last = false := by
  cases found : (lines.filter fun line => !isBlank line).getLast? with
  | none =>
      have blank : ∀ line ∈ lines, isBlank line = true := by
        rw [List.getLast?_eq_none_iff, List.filter_eq_nil_iff] at found
        exact fun line member => by simpa using found line member
      have dropped : kept lines = [] := by
        rw [kept, List.dropWhile_eq_nil_iff.mpr blank]
        rfl
      refine iff_of_true ?_ fun last none => by cases none
      have spaces := textOf_blank (fun line member => isBlank_iff.mp (blank line member))
        (fun line (member : line ∈ []) => by cases member) []
      rw [List.append_nil, List.append_nil] at spaces
      rw [dropped, spaces]
  | some last =>
      obtain ⟨filled, front, back, rfl, blank⟩ := last_filled.mp found
      rw [kept_filled filled front blank]
      by_cases prompt : isPrompt last = true
      · refine iff_of_false ?_ fun none => Bool.false_ne_true ((none last rfl).symm.trans prompt)
        rw [if_pos prompt]
        refine textOf_ne ?_
        have fewer := length_ink_kept_le front
        rw [kept] at fewer
        rw [List.flatMap_append, List.flatMap_cons, List.length_append, List.length_append]
        have shown := ink_pos filled
        omega
      · refine iff_of_true ?_ fun line same => ?_
        · have behind : ∀ line ∈ back, ink line = [] := fun line member => isBlank_iff.mp (blank line member)
          have ahead : ∀ line ∈ front.takeWhile isBlank, ink line = [] :=
            fun line member => isBlank_iff.mp (List.mem_takeWhile_imp member)
          rw [if_neg prompt, ← textOf_blank ahead behind, ← List.append_assoc, List.takeWhile_append_dropWhile,
            List.append_assoc]
          rfl
        · obtain rfl := Option.some_inj.mp same
          exact Bool.eq_false_iff.mpr prompt

theorem textOf_kept_ne {first : List Char} (filled : isBlank first = false) (lines : List (List Char)) :
    textOf (kept lines) ≠ textOf (first :: lines) := by
  refine textOf_ne ?_
  have fewer := length_ink_kept_le lines
  have shown := ink_pos filled
  rw [List.flatMap_cons, List.length_append]
  omega

def unechoed (command : String) (lines : List (List Char)) : List (List Char) :=
  match lines with
  | first :: rest => if isEcho command first then rest else lines
  | [] => []

theorem extractOutput_eq (raw : List Char) (command : String) (nonce : List Char) :
    extractOutput raw command nonce = textOf (kept (unechoed command
      ((splitLines (stripAnsi raw)).filter fun line => (Text.indexOf nonce line).isNone))) :=
  rfl

theorem isBlank_of_isEcho (echo : isEcho command line = true) : isBlank line = false := by
  refine Bool.eq_false_iff.mpr fun blank => ?_
  have spaces := ink_eq_nil.mp (isBlank_iff.mp blank)
  rw [isEcho, decide_eq_true_eq] at echo
  rcases echo with prompt | ⟨filled, starts⟩
  · obtain ⟨i, found⟩ := Option.isSome_iff_exists.mp prompt
    have bracket : ']' ∈ PROMPT_PATTERN := by decide
    exact absurd (spaces ']' ((Text.infix_of_indexOf found).subset bracket)) (by decide)
  · rw [List.dropWhile_eq_nil_iff.mpr spaces] at starts
    exact filled (List.prefix_nil.mp (List.isPrefixOf_iff_prefix.mp starts))

theorem ink_returns (returns : ∀ c ∈ text, c = '\r') : ink text = [] :=
  ink_eq_nil.mpr fun c member => by rw [returns c member]; rfl

theorem isEcho_of_echo (echo : Repeats command line ∨ PROMPT_PATTERN <:+: line) :
    isEcho command line = true ∨ isBlank line = true := by
  rcases echo with ⟨front, back, before, behind, rfl⟩ | prompt
  · by_cases blank : ink command.toList = []
    · refine .inr (isBlank_iff.mpr ?_)
      have parts : ∀ l l', ink (l ++ l') = ink l ++ ink l' := fun l l' => List.filter_append ..
      rw [parts, parts, blank, ink_returns before, ink_returns behind]
      rfl
    have starts : (front ++ command.toList ++ back).dropWhile Text.isSpace =
        command.toList.dropWhile Text.isSpace ++ back := by
      rw [List.append_assoc, List.dropWhile_append, List.dropWhile_eq_nil_iff.mpr (ink_eq_nil.mp (ink_returns before)),
        if_pos List.isEmpty_nil, List.dropWhile_append, if_neg]
      rw [List.isEmpty_iff, List.dropWhile_eq_nil_iff, ← ink_eq_nil]
      exact blank
    refine .inl (decide_eq_true (.inr ⟨?_, ?_⟩))
    · have filled : (Text.trim command).toList ≠ [] := by
        intro none
        rw [← ink_trim, String.ofList_toList, none] at blank
        exact blank rfl
      obtain ⟨c, rest, first⟩ := List.exists_cons_of_ne_nil filled
      rw [first, Text.utf16, List.flatMap_cons, Text.units]
      split <;> exact List.cons_ne_nil _ _
    · have trim : (Text.trim command).toList <+: command.toList.dropWhile Text.isSpace := by
        rw [Text.trim, String.toList_ofList]
        exact List.rdropWhile_prefix _ _
      obtain ⟨rest, whole⟩ := trim
      rw [starts, ← whole, Text.utf16, Text.utf16, List.flatMap_append, List.flatMap_append, List.isPrefixOf_iff_prefix,
        List.append_assoc]
      exact (List.take_prefix _ _).trans (List.prefix_append _ _)
  · refine .inl (decide_eq_true (.inl ?_))
    cases found : Text.indexOf PROMPT_PATTERN line with
    | some i => rfl
    | none => exact absurd prompt (Text.indexOf_eq_none.mp found)

/-- Lines with no echo before them are kept if and only if the first does not look like one and the last not
like a prompt. -/
theorem textOf_unechoed_iff (lines : List (List Char)) : textOf (kept (unechoed command lines)) = textOf lines ↔
    (∀ first, lines.head? = some first → isEcho command first = false) ∧
      ∀ last, (lines.filter fun line => !isBlank line).getLast? = some last → isPrompt last = false := by
  cases lines with
  | nil =>
      refine iff_of_true rfl ⟨?_, ?_⟩
      · rintro first ⟨⟩
      · rintro last ⟨⟩
  | cons first rest =>
      rw [unechoed]
      by_cases echo : isEcho command first = true
      · rw [if_pos echo]
        exact iff_of_false (textOf_kept_ne (isBlank_of_isEcho echo) rest)
          fun plain => Bool.false_ne_true ((plain.1 first rfl).symm.trans echo)
      · rw [if_neg echo, textOf_kept_iff]
        refine (and_iff_right fun line same => ?_).symm
        obtain rfl := Option.some_inj.mp same
        exact Bool.eq_false_iff.mpr echo

theorem splitLines_cons {row : List Char} (clean : '\n' ∉ row) (text : List Char) :
    splitLines (row ++ '\r' :: '\n' :: text) = row :: splitLines text := by
  have whole : row ++ '\r' :: '\n' :: text = (row ++ ['\r']) ++ '\n' :: text := by
    rw [List.append_assoc]
    rfl
  have one : '\n' ∉ row ++ ['\r'] := by
    rw [List.mem_append, not_or]
    exact ⟨clean, by decide⟩
  have some := List.splitOn_ne_nil '\n' text
  rw [splitLines, splitLines, whole, List.splitOn_append_cons_self_of_not_mem one]
  rw [List.dropLast_cons_of_ne_nil some, List.map_cons, List.getLast?_concat, if_pos rfl, List.dropLast_concat,
    List.getLast?_cons_of_ne_nil some]
  rfl

theorem splitLines_singleton (clean : '\n' ∉ line) : splitLines line = [line] := by
  rw [splitLines, List.splitOn_eq_singleton clean]
  rfl

theorem splitLines_intercalate {rows : List (List Char)} (filled : rows ≠ []) (clean : ∀ row ∈ rows, '\n' ∉ row) :
    splitLines (['\r', '\n'].intercalate rows) = rows := by
  induction rows with
  | nil => exact absurd rfl filled
  | cons row rows ih =>
      obtain ⟨first, others⟩ := List.forall_mem_cons.mp clean
      cases rows with
      | nil => rw [List.intercalate_singleton, splitLines_singleton first]
      | cons next rows =>
          have more : next :: rows ≠ [] := List.cons_ne_nil _ _
          rw [List.intercalate_cons_of_ne_nil more, List.append_assoc]
          exact (splitLines_cons first _).trans (congrArg _ (ih more others))

theorem stripAnsi_eq_self {text : List Char} (plain : '\x1b' ∉ text) : stripAnsi text = text := by
  have within : ∀ n, stripAnsiWithin n text = text := by
    induction text with
    | nil => rintro (_ | n) <;> rfl
    | cons c text ih =>
        rw [List.mem_cons, not_or] at plain
        rintro (_ | n)
        · rfl
        · rw [stripAnsiWithin, if_neg (Ne.symm plain.1), ih plain.2]
  exact within _

theorem rawOutput_own {own : List Char} (clean : '\n' ∉ own) (nonce rest : List Char) :
    rawOutput own.length (own ++ (makeSentinel nonce).marker ++ rest) = own := by
  have upto : (own ++ (makeSentinel nonce).marker ++ rest).take (own.length + 1) = own ++ ['Q'] := by
    rw [List.append_assoc, List.take_length_add_append]
    rfl
  have none : '\n' ∉ own ++ ['Q'] := by
    rw [List.mem_append, not_or]
    exact ⟨clean, by decide⟩
  rw [rawOutput, upto, Text.lastIndexOf_eq_none none, List.append_assoc]
  exact List.take_left

theorem rawOutput_shown {own : List Char} (clean : '\n' ∉ own) (shown nonce rest : List Char) :
    rawOutput (shown.length + 1 + own.length) (shown ++ '\n' :: (own ++ (makeSentinel nonce).marker ++ rest)) =
      shown := by
  have upto : (shown ++ '\n' :: (own ++ (makeSentinel nonce).marker ++ rest)).take
      (shown.length + 1 + own.length + 1) = shown ++ '\n' :: (own ++ ['Q']) := by
    rw [Nat.add_assoc, Nat.add_assoc, List.take_length_add_append, Nat.add_comm 1, List.take_succ_cons,
      List.append_assoc, List.take_length_add_append]
    rfl
  have none : '\n' ∉ own ++ ['Q'] := by
    rw [List.mem_append, not_or]
    exact ⟨clean, by decide⟩
  rw [rawOutput, upto, Text.lastIndexOf_append none]
  exact List.take_left

end

section

variable {nonce reply : List Char} {command : String} {timeoutMs index : ℕ} {conversation : Conversation nonce}

theorem Transcript.row_clean (t : Transcript nonce command) : ∀ row ∈ t.rows, '\n' ∉ row := by
  intro row member
  rw [Transcript.rows, List.mem_append, List.mem_append, Option.mem_toList, Option.mem_toList] at member
  rcases member with (echo | output) | redraw
  · exact (t.echo_line row echo).1
  · exact (t.output_line row output).1
  · exact (t.redraw_line row redraw).1

/-- The lines with the nonce are dropped: what the prompt is drawn with, and an echo of the command if it holds
the nonce. -/
theorem Transcript.filter_rows (t : Transcript nonce command) :
    (t.rows.filter fun line => (Text.indexOf nonce line).isNone) =
      (t.echo.filter fun line => (Text.indexOf nonce line).isNone).toList ++ t.output := by
  have outputs : t.output.filter (fun line => (Text.indexOf nonce line).isNone) = t.output :=
    List.filter_eq_self.mpr fun line member =>
      Option.isNone_iff_eq_none.mpr (Text.indexOf_eq_none.mpr (t.output_line line member).2)
  have redraws : t.redraw.toList.filter (fun line => (Text.indexOf nonce line).isNone) = [] :=
    List.filter_eq_nil_iff.mpr fun line member none => Text.indexOf_eq_none.mp (Option.isNone_iff_eq_none.mp none)
      (t.redraw_line line (Option.mem_toList.mp member)).2
  rw [Transcript.rows, List.filter_append, List.filter_append, outputs, redraws, List.append_nil,
    Option.toList_filter]

theorem Transcript.kept_unechoed (t : Transcript nonce command) :
    textOf (kept (unechoed command (t.rows.filter fun line => (Text.indexOf nonce line).isNone))) =
      textOf t.output ↔ t.Plain := by
  rw [t.filter_rows, Transcript.Plain]
  by_cases seen : ∀ line ∈ t.echo, nonce <:+: line
  · have none : (t.echo.filter fun line => (Text.indexOf nonce line).isNone) = none := by
      refine Option.filter_eq_none_iff.mpr fun line member none => ?_
      exact Text.indexOf_eq_none.mp (Option.isNone_iff_eq_none.mp none) (seen line member)
    rw [none, Option.toList_none, List.nil_append, textOf_unechoed_iff, forall_prop_of_true seen]
  · rw [forall_prop_of_false seen, true_and]
    push Not at seen
    obtain ⟨echo, is, without⟩ := seen
    have stays : (t.echo.filter fun line => (Text.indexOf nonce line).isNone) = some echo := by
      rw [Option.mem_def.mp is]
      exact Option.filter_some_pos (by rw [Text.indexOf_eq_none.mpr without]; rfl)
    have dropped : kept (unechoed command (echo :: t.output)) = kept t.output := by
      rw [unechoed]
      by_cases recognized : isEcho command echo = true
      · rw [if_pos recognized]
      · have blank := (isEcho_of_echo (t.echo_line echo is).2).resolve_left recognized
        rw [if_neg recognized, kept, kept, List.dropWhile_cons_of_pos blank]
    rw [stays, Option.toList_some, List.singleton_append, dropped]
    exact textOf_kept_iff t.output

theorem Transcript.extracted_of_empty (t : Transcript nonce command) (none : t.rows = [])
    {lines : List (List Char)} (blank : ∀ line ∈ lines, isBlank line = true) :
    textOf (kept (unechoed command (lines.filter fun line => (Text.indexOf nonce line).isNone))) =
      textOf t.output ↔ t.Plain := by
  have output : t.output = [] := (List.append_eq_nil_iff.mp (List.append_eq_nil_iff.mp none).1).2
  have rest : kept (unechoed command (lines.filter fun line => (Text.indexOf nonce line).isNone)) = [] := by
    have spaces : ∀ line ∈ unechoed command (lines.filter fun line => (Text.indexOf nonce line).isNone),
        isBlank line = true := by
      intro line member
      refine blank line (List.mem_of_mem_filter (p := fun line => (Text.indexOf nonce line).isNone) ?_)
      generalize lines.filter (fun line => (Text.indexOf nonce line).isNone) = lines' at member ⊢
      cases lines' with
      | nil => cases member
      | cons first others =>
          rw [unechoed] at member
          split at member
          · exact List.mem_cons_of_mem _ member
          · exact member
    rw [kept, List.dropWhile_eq_nil_iff.mpr spaces]
    rfl
  rw [rest, output]
  refine iff_of_true rfl ⟨fun _ first same => ?_, fun last same => ?_⟩
  · rw [output] at same
    cases same
  · rw [output] at same
    cases same

theorem extractOutput_iff (t : Transcript nonce command) (shows : t.Shows reply index) :
    extractOutput (rawOutput index reply) command nonce = textOf t.output ↔ t.Plain := by
  obtain ⟨own, rest, clean, ⟨none, returns, rfl, rfl⟩ | ⟨shown, rfl, rfl, text⟩⟩ := shows
  · have plain : '\x1b' ∉ own := fun member => absurd (returns _ member) (by decide)
    rw [rawOutput_own clean, extractOutput_eq, stripAnsi_eq_self plain, splitLines_singleton clean]
    refine t.extracted_of_empty none fun line member => ?_
    rw [List.mem_singleton.mp member, isBlank_iff]
    exact ink_returns returns
  · rw [rawOutput_shown clean, extractOutput_eq, text]
    by_cases none : t.rows = []
    · rw [none]
      refine t.extracted_of_empty none fun line member => ?_
      rw [List.mem_singleton.mp member]
      rfl
    · rw [splitLines_intercalate none t.row_clean]
      exact t.kept_unechoed

theorem consoleExec_ended (ended : waitForReplyEnd conversation.looks (makeSentinel nonce).marker timeoutMs =
    some (.sentinel index, reply)) :
    (consoleExec nonce command timeoutMs (.loggedIn conversation)).result =
      .ok { output := extractOutput (rawOutput index reply) command nonce, framed := true } := by
  simp only [consoleExec, ended]
  rfl

/-- A reply that shows a transcript gives exactly its output if and only if no line of the output is taken for
the echo or for a prompt. -/
theorem output_iff_plain (t : Transcript nonce command)
    (ended : waitForReplyEnd conversation.looks (makeSentinel nonce).marker timeoutMs =
      some (.sentinel index, reply)) (shows : t.Shows reply index) :
    (consoleExec nonce command timeoutMs (.loggedIn conversation)).result =
      .ok { output := textOf t.output, framed := true } ↔ t.Plain := by
  rw [consoleExec_ended ended, ← extractOutput_iff t shows, Except.ok.injEq, ConsoleExecResult.mk.injEq,
    and_iff_left rfl]

end

/-- The whole reply arrives between two looks. -/
def arrived (nonce reply : List Char) : Conversation nonce where
  received := true
  looks :=
    { look := fun
        | 0 => { reply := [], streamDone := false }
        | _ + 1 => { reply, streamDone := false }
      clock := pollClock
      first := rfl
      grows := fun i => by
        cases i with
        | zero => exact List.nil_prefix
        | succ i => exact List.prefix_rfl }
  marked _ _ := rfl

theorem arrived_ended {nonce reply : List Char} {index : ℕ}
    (found : Text.indexOf (makeSentinel nonce).marker reply = some index) {timeoutMs : ℕ} (wait : 0 < timeoutMs) :
    waitForReplyEnd (arrived nonce reply).looks (makeSentinel nonce).marker timeoutMs =
      some (.sentinel index, reply) := by
  have decided : (arrived nonce reply).looks.decide (makeSentinel nonce).marker (promptStableWindow timeoutMs) 1 =
      some (some (.sentinel index, reply)) := by
    simp only [Looks.decide, arrived, found]
  have undecided : (arrived nonce reply).looks.decide (makeSentinel nonce).marker (promptStableWindow timeoutMs) 0 =
      none := by
    have missing : Text.indexOf (makeSentinel nonce).marker [] = none :=
      Text.indexOf_eq_none.mpr fun inside => by cases List.infix_nil.mp inside
    have prompt : trailingPrompt [] = none := by decide +kernel
    simp only [Looks.decide, arrived, missing, prompt]
    rfl
  have stop : Polling.StopsAt (arrived nonce reply).looks.clock timeoutMs
      ((arrived nonce reply).looks.decide (makeSentinel nonce).marker (promptStableWindow timeoutMs)) 0 1 := by
    refine ⟨Nat.zero_le 1, fun j _ before => ?_, .inl (by rw [decided]; exact fun none => by cases none)⟩
    obtain rfl := Nat.lt_one_iff.mp before
    exact ⟨undecided, wait⟩
  rw [waitForReplyEnd, Polling.poll_at stop, decided]
  rfl

def sentinelRedraw : List Char := "\r\r[admin@MikroTik] > :put (\"QCHR\" . \"ab\" . \"END\")\r".toList

/-- The reply that shows these rows, the marker on the line behind them. -/
def replyOf (shown : List Char) : List Char :=
  shown ++ '\n' :: (['\r'] ++ (makeSentinel ['a', 'b']).marker ++ ['\r', '\n'])

/-- A command with its echo, the cursor moved in the middle of it, and the prompt redrawn behind the output. -/
def hello : Transcript ['a', 'b'] ":put hi" where
  echo := some ":put hi\r[admin@MikroTik] > :put hi".toList
  output := ["\rhi".toList, [], "there >".toList]
  redraw := some sentinelRedraw
  echo_line := by
    rintro _ ⟨⟩
    exact ⟨by decide +kernel, .inr (by decide +kernel)⟩
  output_line := by decide +kernel
  redraw_line := by rintro _ ⟨⟩; decide +kernel

def helloShown : List Char :=
  ":put hi\r\x1b[9999B[admin@MikroTik] > :put hi\r\n\rhi\r\n\r\nthere >\r\n".toList ++ sentinelRedraw

theorem output_iff_plain_hello :
    (consoleExec ['a', 'b'] ":put hi" 30000 (.loggedIn (arrived ['a', 'b'] (replyOf helloShown)))).result =
      .ok { output := textOf hello.output, framed := true } := by
  have ended := @arrived_ended ['a', 'b'] (replyOf helloShown) (helloShown.length + 2) (by decide +kernel) 30000
    (by decide)
  refine (output_iff_plain hello ended ⟨['\r'], ['\r', '\n'], by decide, .inr ⟨helloShown, rfl, rfl, ?_⟩⟩).mpr
    ⟨fun seen => ?_, fun last is => ?_⟩
  · decide +kernel
  · exact absurd (seen _ rfl) (by decide +kernel)
  · have there : (hello.output.filter fun line => !isBlank line).getLast? = some "there >".toList := by decide +kernel
    obtain rfl := Option.some_inj.mp (there.symm.trans is)
    decide +kernel

/-- The output begins with the words of the command, which the terminal did not repeat. -/
def printed : Transcript ['a', 'b'] "print" where
  echo := none
  output := ["print done".toList, "ok".toList]
  redraw := some sentinelRedraw
  echo_line := by rintro _ ⟨⟩
  output_line := by decide +kernel
  redraw_line := by rintro _ ⟨⟩; decide +kernel

def printedShown : List Char := "print done\r\nok\r\n".toList ++ sentinelRedraw

theorem output_fails : ¬ ∀ (nonce : List Char) (command : String) (t : Transcript nonce command)
    (conversation : Conversation nonce) (timeoutMs index : ℕ) (reply : List Char),
    waitForReplyEnd conversation.looks (makeSentinel nonce).marker timeoutMs = some (.sentinel index, reply) →
      t.Shows reply index →
        (consoleExec nonce command timeoutMs (.loggedIn conversation)).result =
          .ok { output := textOf t.output, framed := true } := by
  intro all
  have ended := @arrived_ended ['a', 'b'] (replyOf printedShown) (printedShown.length + 2) (by decide +kernel) 30000
    (by decide)
  have shows : printed.Shows (replyOf printedShown) (printedShown.length + 2) :=
    ⟨['\r'], ['\r', '\n'], by decide, .inr ⟨printedShown, rfl, rfl, by decide +kernel⟩⟩
  have result := all _ _ printed _ 30000 _ _ ended shows
  rw [consoleExec_ended ended, Except.ok.injEq, ConsoleExecResult.mk.injEq, and_iff_left rfl] at result
  exact absurd result (by decide +kernel)

end Quickchr.ConsoleOutput
