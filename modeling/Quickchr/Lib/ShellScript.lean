import Quickchr.Lib.ShellWords

/-!
# Shell scripts

Two simple kinds of scripts: assignments, and commands without assignments, each on a line of its
own. A quoted word goes on over the end of a line. A script with a null character is neither: each
shell makes of it what it will.
-/
namespace ShellScript

open ShellWords

def NUL : Char := '\x00'

def isName : List Char → Bool
  | [] => false
  | c :: cs => (c.isAlpha || c = '_') && cs.all fun c => c.isAlphanum || c = '_'

def within (mode : Mode) (c : Char) : Option Mode :=
  (step mode c).bind fun next => if next.2 = [] then some next.1 else none

inductive Place
  | name (n : List Char)
  | value (n : List Char) (mode : Mode)

/-- One character: the next place, and the assignments that it ends. A value ends with its line, and
nothing else is on that line. -/
def Place.step : Place → Char → Option (Place × List (List Char × List Char))
  | .name n, c =>
      if c = '\n' ∧ n = [] then some (.name [], [])
      else if c ≠ '=' then some (.name (n ++ [c]), [])
      else if isName n then some (.value n (.word []), []) else none
  | .value n mode, c =>
      match c == '\n', mode with
      | true, .word w => some (.name [], [(n, w)])
      | _, mode => (within mode c).map fun next => (.value n next, [])

def Place.finish : Place → Option (List (List Char × List Char))
  | .name n => if n = [] then some [] else none
  | .value n (.word w) => some [(n, w)]
  | .value _ _ => none

def Place.run : Place → List Char → Option (List (List Char × List Char))
  | place, [] => place.finish
  | place, c :: cs =>
      if c = NUL then none else (place.step c).bind fun next => (next.1.run cs).map (next.2 ++ ·)

/-- The variables that a script assigns, in order. -/
def assignments (script : List Char) : Option (List (List Char × List Char)) := (Place.name []).run script

/-- A line is no command if it has no words. -/
def line (words : List (List Char)) : List (List (List Char)) := if words = [] then [] else [words]

/-- The commands from here on, with the words of the first one so far. -/
def commandsFrom : Mode → List (List Char) → List Char → Option (List (List (List Char)))
  | mode, words, [] => (finish mode).map fun last => line (words ++ last)
  | mode, words, c :: cs =>
      if c = NUL then none
      else match c == '\n', finish mode with
        | true, some last => (commandsFrom .gap [] cs).map (line (words ++ last) ++ ·)
        | _, _ => (step mode c).bind fun next => commandsFrom next.1 (words ++ next.2) cs

def commands (script : List Char) : Option (List (List (List Char))) := commandsFrom .gap [] script

/-- From one mode to another without the end of a word. -/
def walk (mode : Mode) (text : List Char) : Option Mode := text.foldlM within mode

variable {mode next : Mode} {w s text rest : List Char} {c : Char}

theorem walk_append (first : walk mode text = some next) : walk mode (text ++ rest) = walk next rest := by
  rw [walk, List.foldlM_append]
  exact congrArg (· >>= fun m => rest.foldlM within m) first

theorem within_word {w' : List Char} (h : inWord w c = some (.word w')) (blank : isBlank c = false) :
    within (.word w) c = some (.word w') := by
  simp [within, step, blank, h]

theorem mem_of_not_isLiteral (h : isLiteral c = false) :
    c ∈ ' ' :: '\t' :: '#' :: SINGLE :: DOUBLE :: '\\' :: "|&;<>()$`*?[~\n".toList := by
  simp only [isLiteral, isBlank, isSpecial, Bool.and_eq_false_iff, Bool.not_eq_false', decide_eq_true_eq,
    decide_eq_false_iff_not, not_not] at h
  simp only [List.mem_cons]
  tauto

theorem walk_literal (h : ∀ c ∈ s, isLiteral c = true) : walk (.word w) s = some (.word (w ++ s)) := by
  induction s generalizing w with
  | nil => simp [walk]
  | cons c s ih =>
      have literal := h c List.mem_cons_self
      have blank : isBlank c = false := by
        simp only [isLiteral, Bool.and_eq_true, Bool.not_eq_true'] at literal
        exact literal.1.1.1.1.1
      have one : within (.word w) c = some (.word (w ++ [c])) := within_word (inWord_literal literal) blank
      have tail := @ih (w ++ [c]) fun c member => h c (List.mem_cons_of_mem _ member)
      rw [walk, List.foldlM_cons, one, Option.bind_eq_bind, Option.bind_some, ← walk, tail, List.append_assoc,
        List.singleton_append]

theorem walk_quoted : walk (.single w)
    ((s.flatMap fun c => if c = SINGLE then [SINGLE, '\\', SINGLE, SINGLE] else [c]) ++ [SINGLE]) =
      some (.word (w ++ s)) := by
  induction s generalizing w with
  | nil => simp [walk, within, step]
  | cons c s ih =>
      rw [List.flatMap_cons, List.append_assoc]
      by_cases quote : c = SINGLE
      · subst quote
        have escaped : walk (.single w) [SINGLE, '\\', SINGLE, SINGLE] = some (.single (w ++ [SINGLE])) := rfl
        rw [if_pos rfl, walk_append escaped, ih, List.append_assoc, List.singleton_append]
      · have kept : walk (.single w) [c] = some (.single (w ++ [c])) := by
          simp [walk, within, step, quote]
        rw [if_neg quote, walk_append kept, ih, List.append_assoc, List.singleton_append]

/-- Whatever a word holds, it is the rest of the word when it is written in single quotes. -/
theorem walk_singleQuote : walk (.word w) (singleQuote s) = some (.word (w ++ s)) := by
  have opened : walk (.word w) [SINGLE] = some (.single w) := rfl
  rw [singleQuote, List.cons_append, ← List.singleton_append, walk_append opened, walk_quoted]

theorem walk_gap_singleQuote : walk .gap (singleQuote s) = some (.word s) := by
  have opened : walk .gap [SINGLE] = some (.single []) := rfl
  rw [singleQuote, List.cons_append, ← List.singleton_append, walk_append opened, walk_quoted, List.nil_append]

theorem mem_singleQuote (other : c ≠ SINGLE) (plain : c ≠ '\\') : c ∈ singleQuote s ↔ c ∈ s := by
  simp only [singleQuote, List.cons_append, List.mem_cons, other, false_or, List.mem_append, List.mem_flatMap,
    or_false, List.not_mem_nil]
  constructor
  · rintro ⟨d, member, there⟩
    split at there
    · simp [other, plain] at there
    · obtain rfl := List.mem_singleton.mp there
      exact member
  · intro member
    refine ⟨c, member, ?_⟩
    rw [if_neg other]
    exact List.mem_singleton_self c

theorem within_newline (ends : (finish mode).isSome) : within mode '\n' = none := by
  cases mode <;> first | rfl | cases ends

theorem within_eq (h : within mode c = some next) : step mode c = some (next, []) := by
  unfold within at h
  cases stepped : step mode c with
  | none => simp [stepped] at h
  | some result =>
      obtain ⟨reached, ended⟩ := result
      simp only [stepped, Option.bind_some] at h
      split at h
      · rename_i none
        cases h
        exact congrArg some (Prod.ext rfl none)
      · cases h

theorem Place.step_value {n : List Char} (h : within mode c = some next) :
    (Place.value n mode).step c = some (.value n next, []) := by
  simp only [Place.step]
  split
  · rename_i newline
    rw [beq_iff_eq.mp newline, within_newline rfl] at h
    cases h
  · rw [h, Option.map_some]

theorem Place.run_value {n : List Char} (h : walk mode text = some next) :
    (Place.value n mode).run (text ++ rest) = if NUL ∈ text then none else (Place.value n next).run rest := by
  induction text generalizing mode with
  | nil =>
      cases h
      simp
  | cons c text ih =>
      rw [walk, List.foldlM_cons] at h
      obtain ⟨mid, first, tail⟩ := Option.bind_eq_some_iff.mp h
      rw [List.cons_append, Place.run]
      by_cases null : c = NUL
      · simp [null]
      · rw [if_neg null, Place.step_value first, Option.bind_some, ih tail]
        have same : NUL ∈ c :: text ↔ NUL ∈ text := by simp [Ne.symm null]
        simp [same]

theorem commandsFrom_walk {words : List (List Char)} (h : walk mode text = some next) :
    commandsFrom mode words (text ++ rest) = if NUL ∈ text then none else commandsFrom next words rest := by
  induction text generalizing mode with
  | nil =>
      cases h
      simp
  | cons c text ih =>
      rw [walk, List.foldlM_cons] at h
      obtain ⟨mid, first, tail⟩ := Option.bind_eq_some_iff.mp h
      rw [List.cons_append, commandsFrom]
      by_cases null : c = NUL
      · simp [null]
      · have same : NUL ∈ c :: text ↔ NUL ∈ text := by simp [Ne.symm null]
        rw [if_neg null]
        split
        · rename_i last newline ended
          rw [beq_iff_eq.mp newline, within_newline (by rw [ended]; rfl)] at first
          cases first
        · rw [within_eq first, Option.bind_some, List.append_nil, ih tail]
          simp [same]

theorem isName_ne {n : List Char} (h : isName n = true) {d : Char} (member : d ∈ n) : d ≠ '=' ∧ d ≠ '\n' ∧ d ≠ NUL := by
  have all : d.isAlphanum || d = '_' := by
    cases n with
    | nil => cases member
    | cons c cs =>
        simp only [isName, Bool.and_eq_true] at h
        rcases List.mem_cons.mp member with rfl | inside
        · simp only [Char.isAlphanum]
          have := h.1
          grind
        · exact List.all_eq_true.mp h.2 d inside
  refine ⟨?_, ?_, ?_⟩ <;> rintro rfl <;> revert all <;> decide

theorem Place.run_name {n front : List Char} (h : isName (front ++ n) = true) :
    (Place.name front).run (n ++ '=' :: rest) = (Place.value (front ++ n) (.word [])).run rest := by
  induction n generalizing front with
  | nil =>
      rw [List.append_nil] at h
      simp [Place.run, Place.step, h, NUL]
  | cons c n ih =>
      obtain ⟨mark, newline, null⟩ := isName_ne h (d := c) (by simp)
      have moved : front ++ c :: n = (front ++ [c]) ++ n := by simp
      rw [List.cons_append, Place.run, if_neg null, Place.step, if_neg (by simp [newline]), if_pos mark,
        Option.bind_some, moved, ← ih (by rw [← moved]; exact h)]
      simp

variable {write : List Char → List Char}

/-- Assignments, each on a line of its own, are read back when a value is written as one word that
is the value: but for a null character in a value. -/
theorem assignments_lines (written : ∀ v, walk (.word []) (write v) = some (.word v))
    (null : ∀ v, NUL ∈ write v ↔ NUL ∈ v) {entries : List (List Char × List Char)}
    (named : ∀ e ∈ entries, isName e.1 = true) :
    assignments (entries.flatMap fun e => e.1 ++ '=' :: (write e.2 ++ ['\n'])) =
      if ∃ e ∈ entries, NUL ∈ e.2 then none else some entries := by
  induction entries with
  | nil => simp [assignments, Place.run, Place.finish]
  | cons e entries ih =>
      have tail := ih fun e member => named e (List.mem_cons_of_mem _ member)
      have name := @Place.run_name (write e.2 ++ ['\n'] ++
        entries.flatMap fun e => e.1 ++ '=' :: (write e.2 ++ ['\n'])) e.1 [] (named e List.mem_cons_self)
      rw [List.nil_append] at name
      rw [List.flatMap_cons, assignments, List.append_assoc, List.cons_append, name, List.append_assoc,
        Place.run_value (written e.2)]
      by_cases holds : NUL ∈ e.2
      · simp [null, holds]
      · have ended : (Place.value e.1 (.word e.2)).step '\n' = some (.name [], [(e.1, e.2)]) := rfl
        rw [if_neg (by rwa [null]), List.singleton_append, Place.run, if_neg (by decide), ended,
          Option.bind_some, ← assignments, tail]
        by_cases later : ∃ e ∈ entries, NUL ∈ e.2
        · rw [if_pos later, if_pos]
          · rfl
          · obtain ⟨e', member, there⟩ := later
            exact ⟨e', List.mem_cons_of_mem _ member, there⟩
        · rw [if_neg later, if_neg]
          · rfl
          · rintro ⟨e', member, there⟩
            rcases List.mem_cons.mp member with rfl | member
            · exact holds there
            · exact later ⟨e', member, there⟩

end ShellScript
