import Mathlib.Data.List.Basic

/-!
# Shell words

The words of a line that is one simple command, by the quoting rules of the POSIX shell. A line in
which an unquoted character may be an operator, an expansion or a pattern has no words here, and
neither has one that ends inside quotes.
-/
namespace ShellWords

/-- Where the scan is, with the word so far. -/
inductive Mode
  | gap
  | word (w : List Char)
  | escape (w : List Char)
  | single (w : List Char)
  | double (w : List Char)
  | doubleEscape (w : List Char)
  | comment
  deriving DecidableEq

def isBlank (c : Char) : Bool := c = ' ' ∨ c = '\t'

def isSpecial (c : Char) : Bool := c ∈ "|&;<>()$`*?[~\n".toList

def SINGLE : Char := '\x27'

def DOUBLE : Char := '\x22'

def inWord (w : List Char) (c : Char) : Option Mode :=
  if c = SINGLE then some (.single w)
  else if c = DOUBLE then some (.double w)
  else if c = '\\' then some (.escape w)
  else if isSpecial c then none
  else some (.word (w ++ [c]))

/-- One character: the next mode, and the words that it ends. -/
def step : Mode → Char → Option (Mode × List (List Char))
  | .gap, c =>
      if isBlank c then some (.gap, [])
      else if c = '#' then some (.comment, [])
      else (inWord [] c).map (·, [])
  | .word w, c => if isBlank c then some (.gap, [w]) else (inWord w c).map (·, [])
  -- A line that is continued is one line.
  | .escape w, c => some (.word (if c = '\n' then w else w ++ [c]), [])
  | .single w, c => some (if c = SINGLE then .word w else .single (w ++ [c]), [])
  | .double w, c =>
      if c = DOUBLE then some (.word w, [])
      else if c = '\\' then some (.doubleEscape w, [])
      else if c ∈ ['$', '\x60'] then none
      else some (.double (w ++ [c]), [])
  | .doubleEscape w, c =>
      some (.double (if c = '\n' then w
        else if c ∈ ['$', '\x60', DOUBLE, '\\'] then w ++ [c]
        else w ++ ['\\', c]), [])
  | .comment, c => if c = '\n' then none else some (.comment, [])

def finish : Mode → Option (List (List Char))
  | .gap | .comment => some []
  | .word w => some [w]
  | .escape _ | .single _ | .double _ | .doubleEscape _ => none

def run : Mode → List Char → Option (List (List Char))
  | mode, [] => finish mode
  | mode, c :: cs => (step mode c).bind fun next => (run next.1 cs).map (next.2 ++ ·)

def words (line : String) : Option (List String) :=
  (run .gap line.toList).map (·.map String.ofList)

/-- A character that stands for itself outside quotes. -/
def isLiteral (c : Char) : Bool :=
  !isBlank c && c ≠ '#' && c ≠ SINGLE && c ≠ DOUBLE && c ≠ '\\' && !isSpecial c

/-- In single quotes; a single quote itself is put between two quoted parts. -/
def singleQuote (s : List Char) : List Char :=
  SINGLE :: (s.flatMap fun c => if c = SINGLE then [SINGLE, '\\', SINGLE, SINGLE] else [c]) ++ [SINGLE]

variable {w s rest : List Char} {c : Char}

theorem run_of_step {mode next : Mode} (h : step mode c = some (next, [])) :
    run mode (c :: rest) = run next rest := by
  rw [run, h, Option.bind_some]
  exact Option.map_id'

@[simp] theorem run_gap_space : run .gap (' ' :: rest) = run .gap rest := run_of_step rfl

@[simp] theorem run_word_space : run (.word w) (' ' :: rest) = (run .gap rest).map (w :: ·) := rfl

theorem inWord_literal (h : isLiteral c = true) : inWord w c = some (.word (w ++ [c])) := by
  simp only [isLiteral, Bool.and_eq_true, Bool.not_eq_true', decide_eq_true_eq] at h
  obtain ⟨⟨⟨⟨-, single⟩, double⟩, slash⟩, special⟩ := h
  rw [inWord, if_neg single, if_neg double, if_neg slash, special, if_neg Bool.false_ne_true]

theorem run_literal (h : ∀ c ∈ s, isLiteral c = true) :
    run (.word w) (s ++ rest) = run (.word (w ++ s)) rest := by
  induction s generalizing w with
  | nil => rw [List.nil_append, List.append_nil]
  | cons c s ih =>
      have literal := h c List.mem_cons_self
      have blank : isBlank c = false := by
        simp only [isLiteral, Bool.and_eq_true, Bool.not_eq_true'] at literal
        exact literal.1.1.1.1.1
      have moved : step (.word w) c = some (.word (w ++ [c]), []) := by
        rw [step, blank, if_neg Bool.false_ne_true, inWord_literal literal, Option.map_some]
      rw [List.cons_append, run_of_step moved, ih fun c member => h c (List.mem_cons_of_mem _ member),
        List.append_assoc, List.singleton_append]

theorem run_gap_literal (h : ∀ c ∈ s, isLiteral c = true) (filled : s ≠ []) :
    run .gap (s ++ rest) = run (.word s) rest := by
  obtain ⟨c, s, rfl⟩ := List.exists_cons_of_ne_nil filled
  have literal := h c List.mem_cons_self
  have begins := literal
  simp only [isLiteral, Bool.and_eq_true, Bool.not_eq_true', decide_eq_true_eq] at begins
  have moved : step .gap c = some (.word [c], []) := by
    rw [step, begins.1.1.1.1.1, if_neg Bool.false_ne_true, if_neg begins.1.1.1.1.2,
      inWord_literal literal, Option.map_some, List.nil_append]
  rw [List.cons_append, run_of_step moved,
    run_literal fun c member => h c (List.mem_cons_of_mem _ member), List.singleton_append]

theorem run_quoted : run (.single w)
    ((s.flatMap fun c => if c = SINGLE then [SINGLE, '\\', SINGLE, SINGLE] else [c]) ++ SINGLE :: rest) =
      run (.word (w ++ s)) rest := by
  induction s generalizing w with
  | nil => rw [List.append_nil]; exact run_of_step rfl
  | cons c s ih =>
      rw [List.flatMap_cons, List.append_assoc]
      by_cases quote : c = SINGLE
      · subst quote
        rw [if_pos rfl]
        have closed : step (.single w) SINGLE = some (.word w, []) := rfl
        have escaped : step (.word w) '\\' = some (.escape w, []) := rfl
        have taken : step (.escape w) SINGLE = some (.word (w ++ [SINGLE]), []) := rfl
        have opened : step (.word (w ++ [SINGLE])) SINGLE = some (.single (w ++ [SINGLE]), []) := rfl
        rw [List.cons_append, run_of_step closed, List.cons_append, run_of_step escaped,
          List.cons_append, run_of_step taken, List.cons_append, run_of_step opened, List.nil_append,
          ih, List.append_assoc, List.singleton_append]
      · rw [if_neg quote, List.singleton_append]
        have kept : step (.single w) c = some (.single (w ++ [c]), []) := by rw [step, if_neg quote]
        rw [run_of_step kept, ih, List.append_assoc, List.singleton_append]

theorem run_gap_singleQuote : run .gap (singleQuote s ++ rest) = run (.word s) rest := by
  have opened : step .gap SINGLE = some (.single [], []) := rfl
  rw [singleQuote, List.cons_append, List.cons_append, List.append_assoc, run_of_step opened,
    List.singleton_append, run_quoted, List.nil_append]

end ShellWords
