import Quickchr.Lib.Text

/-!
# The lines of a text

A part of the text that has lines of its own, and what trimming does to the lines.
-/
namespace Text

variable {s sep : String} {c : Char}

theorem join_pieces (is : sep.toList = [c]) (before after : List String) (part : String) :
    join sep (before ++ split part c ++ after) = join sep (before ++ [part] ++ after) := by
  have pieces : split part c ≠ [] := by
    rw [split]
    exact fun none => List.splitOn_ne_nil c part.toList (List.map_eq_nil_iff.mp none)
  have back : String.intercalate sep (split part c) = part := join_split is
  have front : ∀ l m : List String, l ≠ [] → m ≠ [] → String.intercalate sep l = String.intercalate sep m →
      String.intercalate sep (before ++ l) = String.intercalate sep (before ++ m) := by
    intro l m some_ some_' same
    rcases eq_or_ne before [] with rfl | filled
    · exact same
    · rw [String.intercalate_append_of_ne_nil filled some_, String.intercalate_append_of_ne_nil filled some_', same]
  rw [join, join, List.append_assoc, List.append_assoc]
  refine front _ _ (by simp [pieces]) (by simp) ?_
  rcases eq_or_ne after [] with rfl | filled
  · rw [List.append_nil, List.append_nil, back, String.intercalate_singleton]
  · rw [String.intercalate_append_of_ne_nil pieces filled, back,
      String.intercalate_append_of_ne_nil (by simp) filled, String.intercalate_singleton]

section Pieces

variable {α : Type*} [BEq α] (a : α)

/-- What comes before a text changes no piece of it but the first. -/
theorem splitOn_tail_behind (front l : List α) :
    ∀ piece ∈ (l.splitOn a).tail, piece ∈ ((front ++ l).splitOn a).tail := by
  induction front with
  | nil => exact fun piece member => member
  | cons x front ih =>
      intro piece member
      rw [List.cons_append, List.splitOn_cons_eq_if_modifyHead]
      split
      · exact List.mem_of_mem_tail (ih piece member)
      · rw [List.tail_modifyHead]
        exact ih piece member

theorem splitOn_longer (l back : List α) :
    ∃ first rest first' rest', l.splitOn a = first :: rest ∧ (l ++ back).splitOn a = first' :: rest' ∧
      first <+: first' ∧ ∀ piece ∈ rest, ∃ whole ∈ rest', piece <+: whole := by
  induction l with
  | nil =>
      obtain ⟨first, rest, pieces⟩ := List.exists_cons_of_ne_nil (List.splitOn_ne_nil a ([] ++ back))
      exact ⟨[], [], first, rest, List.splitOn_nil a, pieces, List.nil_prefix, nofun⟩
  | cons x l ih =>
      obtain ⟨first, rest, first', rest', pieces, pieces', starts, ends⟩ := ih
      by_cases here : (x == a) = true
      · refine ⟨[], first :: rest, [], first' :: rest', ?_, ?_, List.prefix_rfl, fun piece member => ?_⟩
        · rw [List.splitOn_cons_eq_if_modifyHead, if_pos here, pieces]
        · rw [List.cons_append, List.splitOn_cons_eq_if_modifyHead, if_pos here, pieces']
        · rcases List.mem_cons.mp member with rfl | later
          · exact ⟨first', List.mem_cons_self, starts⟩
          · obtain ⟨whole, inside, is⟩ := ends piece later
            exact ⟨whole, List.mem_cons_of_mem _ inside, is⟩
      · refine ⟨x :: first, rest, x :: first', rest', ?_, ?_, (List.prefix_cons_inj x).mpr starts, ends⟩
        · rw [List.splitOn_cons_eq_if_modifyHead, if_neg here, pieces]
          rfl
        · rw [List.cons_append, List.splitOn_cons_eq_if_modifyHead, if_neg here, pieces']
          rfl

/-- Of a part of a text, every piece but the first begins a piece of the text. -/
theorem splitOn_part (front part back : List α) :
    ∀ piece ∈ (part.splitOn a).tail, ∃ whole ∈ (front ++ (part ++ back)).splitOn a, piece <+: whole := by
  intro piece member
  obtain ⟨first, rest, first', rest', pieces, pieces', -, ends⟩ := splitOn_longer a part back
  rw [pieces] at member
  obtain ⟨whole, inside, is⟩ := ends piece member
  refine ⟨whole, List.mem_of_mem_tail (splitOn_tail_behind a front (part ++ back) whole ?_), is⟩
  rw [pieces']
  exact inside

end Pieces

/-- The lines of a trimmed text, but for the first, begin lines of the text. -/
theorem trim_lines (s : String) :
    ∀ line ∈ (split (trim s) '\n').tail, ∃ whole ∈ split s '\n', line.toList <+: whole.toList := by
  intro line behind
  rw [split, ← List.map_tail] at behind
  obtain ⟨piece, member, rfl⟩ := List.mem_map.mp behind
  rw [trim, String.toList_ofList] at member
  obtain ⟨back, kept⟩ := List.rdropWhile_prefix isSpace (s.toList.dropWhile isSpace)
  obtain ⟨whole, inside, is⟩ := splitOn_part '\n' (s.toList.takeWhile isSpace) _ back piece member
  rw [kept, List.takeWhile_append_dropWhile] at inside
  refine ⟨String.ofList whole, List.mem_map_of_mem inside, ?_⟩
  rwa [String.toList_ofList, String.toList_ofList]

theorem trim_around {front back : List Char} (before : ∀ c ∈ front, isSpace c = true)
    (behind : ∀ c ∈ back, isSpace c = true) (l : List Char) :
    trim (String.ofList (front ++ (l ++ back))) = trim (String.ofList l) := by
  rw [trim, trim, String.toList_ofList, String.toList_ofList, List.dropWhile_append_of_pos before,
    List.dropWhile_append]
  split
  · rename_i blank
    rw [List.isEmpty_iff.mp blank, List.dropWhile_eq_nil_iff.mpr behind]
  · rw [List.rdropWhile, List.rdropWhile, List.reverse_append,
      List.dropWhile_append_of_pos fun c inside => behind c (List.mem_reverse.mp inside)]

theorem head_split {s line : String} (h : (split s '\n').head? = some line) : line.toList <+: s.toList := by
  obtain ⟨rest, pieces⟩ := List.head?_eq_some_iff.mp h
  have whole : s = join "\n" (line :: rest) := by rw [← pieces, join_split rfl]
  rw [whole, join]
  rcases eq_or_ne rest [] with rfl | more
  · simp
  · rw [String.intercalate_cons_of_ne_nil more, String.append_assoc, String.toList_append]
    exact List.prefix_append _ _

end Text
