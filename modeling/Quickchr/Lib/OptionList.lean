import Mathlib.Data.List.Basic

/-!
# Option lists

`word,key=value,…`: items between commas, where a doubled comma stands for one and the first `=`
of an item ends its key. A list that is written without doubling anything reads as it was meant
when no item has a comma and no word or key an equals sign, and only then.
-/
namespace OptionList

inductive Item
  | word (text : String)
  | pair (key value : String)
  deriving DecidableEq, Repr

def Item.text : Item → List Char
  | .word text => text.toList
  | .pair key value => key.toList ++ '=' :: value.toList

/-- What an item has to be to be written without doubling anything. -/
def Item.Plain : Item → Prop
  | .word text => ',' ∉ text.toList ∧ '=' ∉ text.toList
  | .pair key value => ',' ∉ key.toList ∧ '=' ∉ key.toList ∧ ',' ∉ value.toList

/-- A character in front of the first piece. -/
def push (c : Char) : List (List Char) → List (List Char)
  | [] => [[c]]
  | piece :: pieces => (c :: piece) :: pieces

def pieces : List Char → List (List Char)
  | [] => [[]]
  | ',' :: ',' :: rest => push ',' (pieces rest)
  | ',' :: rest => [] :: pieces rest
  | c :: rest => push c (pieces rest)

/-- The key and the value around the first `=`. -/
def cut : List Char → Option (List Char × List Char)
  | [] => none
  | c :: rest => if c = '=' then some ([], rest) else (cut rest).map fun e => (c :: e.1, e.2)

def item (piece : List Char) : Item :=
  match cut piece with
  | some (key, value) => .pair (String.ofList key) (String.ofList value)
  | none => .word (String.ofList piece)

def parse (text : String) : List Item := (pieces text.toList).map item

def escape (piece : List Char) : List Char :=
  piece.flatMap fun c => if c = ',' then [',', ','] else [c]

def join : List (List Char) → List Char
  | [] => []
  | [piece] => piece
  | piece :: pieces => piece ++ ',' :: join pieces

/-- The items one after the other, with nothing doubled. -/
def write (items : List Item) : String := String.ofList (join (items.map Item.text))

theorem join_cons {piece : List Char} {pieces : List (List Char)} (h : pieces ≠ []) :
    join (piece :: pieces) = piece ++ ',' :: join pieces := by
  cases pieces with
  | nil => exact absurd rfl h
  | cons => rfl

theorem join_append {ps qs : List (List Char)} (h : ps ≠ []) (h' : qs ≠ []) :
    join (ps ++ qs) = join ps ++ ',' :: join qs := by
  induction ps with
  | nil => exact absurd rfl h
  | cons p ps ih =>
      cases ps with
      | nil => exact join_cons h'
      | cons p' ps =>
          rw [List.cons_append, join_cons (by simp), ih (List.cons_ne_nil p' ps),
            join_cons (List.cons_ne_nil p' ps), List.append_assoc, List.cons_append]

theorem write_append {items more : List Item} (h : items ≠ []) (h' : more ≠ []) :
    write (items ++ more) = write items ++ "," ++ write more := by
  apply String.toList_inj.mp
  rw [write, List.map_append, join_append (by simpa using h) (by simpa using h')]
  simp [write]

theorem write_cons (i : Item) {items : List Item} (h : items ≠ []) :
    write (i :: items) = String.ofList i.text ++ "," ++ write items :=
  write_append (List.cons_ne_nil i []) h

theorem pieces_ne_nil (text : List Char) : pieces text ≠ [] := by
  fun_cases pieces text with
  | case1 => exact List.cons_ne_nil _ _
  | case2 rest => cases pieces rest <;> exact List.cons_ne_nil _ _
  | case3 rest => exact List.cons_ne_nil _ _
  | case4 c rest => cases pieces rest <;> exact List.cons_ne_nil _ _

theorem join_push {c : Char} {ps : List (List Char)} (h : ps ≠ []) :
    join ((push c ps).map escape) =
      (if c = ',' then [',', ','] else [c]) ++ join (ps.map escape) := by
  cases ps with
  | nil => exact absurd rfl h
  | cons p ps =>
      cases ps with
      | nil => rfl
      | cons q ps =>
          simp only [push, List.map_cons, join, escape, List.flatMap_cons, List.append_assoc]

theorem join_pieces (text : List Char) : join ((pieces text).map escape) = text := by
  fun_induction pieces text with
  | case1 => rfl
  | case2 rest ih => rw [join_push (pieces_ne_nil rest), ih, if_pos rfl]; rfl
  | case3 rest _ ih =>
      rw [List.map_cons, join_cons (by simpa using pieces_ne_nil rest), ih]
      rfl
  | case4 c rest _ plain ih =>
      rw [join_push (pieces_ne_nil rest), ih, if_neg]
      · rfl
      · rintro rfl
        exact plain rfl

theorem pieces_cons {c : Char} (h : c ≠ ',') (rest : List Char) :
    pieces (c :: rest) = push c (pieces rest) := by
  rw [pieces]
  · rintro rest' rfl
    exact absurd rfl h
  · rintro rfl
    exact absurd rfl h

theorem pieces_of_plain {piece : List Char} (h : ',' ∉ piece) : pieces piece = [piece] := by
  induction piece with
  | nil => rfl
  | cons c piece ih =>
      rw [List.mem_cons, not_or] at h
      rw [pieces_cons (Ne.symm h.1), ih h.2]
      rfl

theorem pieces_append {piece rest : List Char} (h : ',' ∉ piece) (next : rest.head? ≠ some ',') :
    pieces (piece ++ ',' :: rest) = piece :: pieces rest := by
  induction piece with
  | nil =>
      cases rest with
      | nil => rfl
      | cons c rest =>
          rw [List.nil_append, pieces]
          rintro rest' ⟨⟩
          exact absurd rfl next
  | cons c piece ih =>
      rw [List.mem_cons, not_or] at h
      rw [List.cons_append, pieces_cons (Ne.symm h.1), ih h.2]
      rfl

theorem head?_join {p : List Char} {ps : List (List Char)} (h : p ≠ []) :
    (join (p :: ps)).head? = p.head? := by
  obtain ⟨c, p, rfl⟩ := List.exists_cons_of_ne_nil h
  cases ps <;> rfl

/-- Pieces without a comma are read as they were joined, unless one is empty. -/
theorem pieces_join {ps : List (List Char)} (h : ps ≠ []) (filled : ∀ p ∈ ps, p ≠ [])
    (plain : ∀ p ∈ ps, ',' ∉ p) : pieces (join ps) = ps := by
  induction ps with
  | nil => exact absurd rfl h
  | cons p ps ih =>
      cases ps with
      | nil => exact pieces_of_plain (plain p List.mem_cons_self)
      | cons q ps =>
          have next : (join (q :: ps)).head? ≠ some ',' := by
            rw [head?_join (filled q (by simp))]
            intro comma
            exact plain q (by simp) (List.mem_of_head? comma)
          rw [join_cons (List.cons_ne_nil q ps), pieces_append (plain p List.mem_cons_self) next,
            ih (List.cons_ne_nil q ps) (fun p member => filled p (List.mem_cons_of_mem _ member))
              fun p member => plain p (List.mem_cons_of_mem _ member)]

theorem length_escape (piece : List Char) :
    (escape piece).length = piece.length + piece.count ',' := by
  induction piece with
  | nil => rfl
  | cons c piece ih =>
      rw [escape, List.flatMap_cons, List.length_append, ← escape, ih, List.length_cons,
        List.count_cons]
      by_cases comma : c = ','
      · rw [if_pos comma, if_pos (beq_iff_eq.mpr comma)]
        simp only [List.length_cons, List.length_nil]
        omega
      · rw [if_neg comma, if_neg (by simpa using comma)]
        simp only [List.length_cons, List.length_nil]
        omega

theorem length_join_escape (ps : List (List Char)) :
    (join (ps.map escape)).length = (join ps).length + ps.flatten.count ',' := by
  induction ps with
  | nil => rfl
  | cons p ps ih =>
      rw [List.flatten_cons, List.count_append]
      cases ps with
      | nil => simp [join, length_escape]
      | cons q ps =>
          rw [List.map_cons, join_cons (by simp), join_cons (by simp), List.length_append,
            List.length_append, List.length_cons, List.length_cons, ih, length_escape]
          omega

theorem plain_of_pieces_join {ps : List (List Char)} (h : pieces (join ps) = ps) :
    ∀ p ∈ ps, ',' ∉ p := by
  have same := join_pieces (join ps)
  rw [h] at same
  have lengths := length_join_escape ps
  rw [same] at lengths
  have none : ps.flatten.count ',' = 0 := by omega
  intro p member comma
  exact List.count_eq_zero.mp none (List.mem_flatten.mpr ⟨p, member, comma⟩)

theorem cut_eq_none {piece : List Char} : cut piece = none ↔ '=' ∉ piece := by
  induction piece with
  | nil => exact ⟨fun _ => List.not_mem_nil, fun _ => rfl⟩
  | cons c piece ih =>
      rw [cut, List.mem_cons, not_or]
      split
      · rename_i equals
        exact ⟨fun none => (by cases none), fun h => absurd equals.symm h.1⟩
      · rename_i other
        rw [Option.map_eq_none_iff, ih]
        exact ⟨fun h => ⟨Ne.symm other, h⟩, fun h => h.2⟩

theorem cut_eq_some {piece key value : List Char} :
    cut piece = some (key, value) ↔ piece = key ++ '=' :: value ∧ '=' ∉ key := by
  induction piece generalizing key with
  | nil => exact ⟨fun none => (by cases none), fun h => (by cases key <;> cases h.1)⟩
  | cons c piece ih =>
      rw [cut]
      split
      · rename_i equals
        subst equals
        constructor
        · rintro ⟨⟩
          exact ⟨rfl, List.not_mem_nil⟩
        · rintro ⟨same, plain⟩
          cases key with
          | nil => cases same; rfl
          | cons k key =>
              cases same
              exact absurd List.mem_cons_self plain
      · rename_i other
        rw [Option.map_eq_some_iff]
        constructor
        · rintro ⟨⟨key', value'⟩, found, is⟩
          cases is
          obtain ⟨rfl, plain⟩ := ih.mp found
          exact ⟨rfl, fun member => (List.mem_cons.mp member).elim (Ne.symm other) plain⟩
        · rintro ⟨same, plain⟩
          cases key with
          | nil => cases same; exact absurd rfl other
          | cons k key =>
              cases same
              exact ⟨(key, value), ih.mpr ⟨rfl, fun member => plain (List.mem_cons_of_mem _ member)⟩,
                rfl⟩

theorem text_item (piece : List Char) : (item piece).text = piece := by
  unfold item
  split
  · rename_i key value found
    rw [Item.text, String.toList_ofList, String.toList_ofList, (cut_eq_some.mp found).1]
  · exact String.toList_ofList

theorem item_text {i : Item} (h : i.Plain) : item i.text = i := by
  cases i with
  | word text =>
      rw [item, Item.text, cut_eq_none.mpr h.2]
      exact congrArg Item.word String.ofList_toList
  | pair key value =>
      have found : cut (Item.pair key value).text = some (key.toList, value.toList) :=
        cut_eq_some.mpr ⟨rfl, h.2.1⟩
      rw [item, found]
      exact congrArg₂ Item.pair String.ofList_toList String.ofList_toList

theorem plain_item {piece : List Char} (h : ',' ∉ piece) : (item piece).Plain := by
  unfold item
  split
  · rename_i key value found
    obtain ⟨rfl, plain⟩ := cut_eq_some.mp found
    rw [List.mem_append, not_or, List.mem_cons, not_or] at h
    simp only [Item.Plain, String.toList_ofList]
    exact ⟨h.1, plain, h.2.2⟩
  · rename_i none
    simp only [Item.Plain, String.toList_ofList]
    exact ⟨h, cut_eq_none.mp none⟩

theorem Item.Plain.comma {i : Item} (h : i.Plain) : ',' ∉ i.text := by
  cases i with
  | word text => exact h.1
  | pair key value =>
      rw [Item.text, List.mem_append, List.mem_cons, not_or, not_or]
      exact ⟨h.1, by decide, h.2.2⟩

/-- Items that are not empty, written with nothing doubled, are read back as they are exactly when
all of them are plain. -/
theorem parse_write {items : List Item} (h : items ≠ []) (filled : ∀ i ∈ items, i.text ≠ []) :
    parse (write items) = items ↔ ∀ i ∈ items, i.Plain := by
  rw [parse, write, String.toList_ofList]
  constructor
  · intro same
    have texts : pieces (join (items.map Item.text)) = items.map Item.text := by
      have read := congrArg (List.map Item.text) same
      rwa [List.map_map, show Item.text ∘ item = id from funext text_item, List.map_id] at read
    intro i member
    rw [← same, texts] at member
    obtain ⟨piece, written, rfl⟩ := List.mem_map.mp member
    exact plain_item (plain_of_pieces_join texts piece written)
  · intro plain
    rw [pieces_join (by simpa using h), List.map_map]
    · exact (List.map_congr_left fun i member => item_text (plain i member)).trans (List.map_id _)
    · exact List.forall_mem_map.mpr filled
    · exact List.forall_mem_map.mpr fun i member => (plain i member).comma

end OptionList
