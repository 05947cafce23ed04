import Mathlib.Data.List.Infix
import Mathlib.Logic.Function.Basic

/-!
# Trees of files

A place is the list of the names that lead to it. Making a directory makes those above it that are
missing, and fails at a file; writing a file fails at a directory. A list of files is extracted one
by one until one fails. Extraction stays below a place in every tree if and only if each file that
nothing before it keeps from being written lies there.
-/
namespace FileTree

variable {κ ν : Type*}

inductive Node (ν : Type*)
  | dir
  | file (content : ν)

abbrev Place (κ : Type*) := List κ

abbrev Tree (κ ν : Type*) := Place κ → Option (Node ν)

section Operations

variable [DecidableEq κ]

/-- Make the directories of a list; the second component says whether that worked. -/
def makeDirs : List (Place κ) → Tree κ ν → Tree κ ν × Bool
  | [], tree => (tree, true)
  | p :: ps, tree =>
      match tree p with
      | some (.file _) => (tree, false)
      | some .dir => makeDirs ps tree
      | none => makeDirs ps (Function.update tree p (some .dir))

def mkdir (p : Place κ) (tree : Tree κ ν) : Tree κ ν × Bool := makeDirs p.inits tree

def writeFile (p : Place κ) (content : ν) (tree : Tree κ ν) : Tree κ ν × Bool :=
  match tree p with
  | some .dir => (tree, false)
  | _ => (Function.update tree p (some (.file content)), true)

/-- A file to be written; a name that ends like a directory's cannot be. -/
structure Target (κ ν : Type*) where
  place : Place κ
  trailing : Bool
  content : ν

def Target.extract (t : Target κ ν) (tree : Tree κ ν) : Tree κ ν × Bool :=
  match mkdir t.place.dropLast tree with
  | (tree, false) => (tree, false)
  | (tree, true) => if t.trailing then (tree, false) else writeFile t.place t.content tree

def extractAll : List (Target κ ν) → Tree κ ν → Tree κ ν × Bool
  | [], tree => (tree, true)
  | t :: ts, tree =>
      match t.extract tree with
      | (tree, false) => (tree, false)
      | (tree, true) => extractAll ts tree

end Operations

def Tree.HasDir (tree : Tree κ ν) (p : Place κ) : Prop := ∀ q, q <+: p → tree q = some .dir

def Tree.IsFile (tree : Tree κ ν) (p : Place κ) : Prop := ∃ content, tree p = some (.file content)

section Directories

variable [DecidableEq κ] {tree : Tree κ ν} {ps : List (Place κ)} {p q : Place κ}

theorem makeDirs_kept (h : tree q ≠ none) : (makeDirs ps tree).1 q = tree q := by
  induction ps generalizing tree with
  | nil => rfl
  | cons p ps ih =>
      unfold makeDirs
      split
      · rfl
      · exact ih h
      · rename_i missing
        have other : q ≠ p := fun same => h (same ▸ missing)
        rw [ih (by rw [Function.update_of_ne other]; exact h), Function.update_of_ne other]

theorem makeDirs_others (h : q ∉ ps) : (makeDirs ps tree).1 q = tree q := by
  induction ps generalizing tree with
  | nil => rfl
  | cons p ps ih =>
      rw [List.mem_cons, not_or] at h
      unfold makeDirs
      split
      · rfl
      · exact ih h.2
      · rw [ih h.2, Function.update_of_ne h.1]

theorem makeDirs_works (h : ∀ p ∈ ps, ¬ tree.IsFile p) : (makeDirs ps tree).2 = true := by
  induction ps generalizing tree with
  | nil => rfl
  | cons p ps ih =>
      have rest : ∀ q ∈ ps, ¬ tree.IsFile q := fun q member => h q (List.mem_cons_of_mem _ member)
      unfold makeDirs
      split
      · rename_i content isFile
        exact absurd ⟨content, isFile⟩ (h p List.mem_cons_self)
      · exact ih rest
      · refine ih fun q member => ?_
        rintro ⟨content, isFile⟩
        by_cases same : q = p
        · rw [same, Function.update_self] at isFile
          cases isFile
        · rw [Function.update_of_ne same] at isFile
          exact rest q member ⟨content, isFile⟩

theorem makeDirs_made (h : (makeDirs ps tree).2 = true) {p : Place κ} (member : p ∈ ps) :
    (makeDirs ps tree).1 p = some .dir := by
  induction ps generalizing tree with
  | nil => cases member
  | cons p' ps ih =>
      unfold makeDirs at h ⊢
      split at h
      · cases h
      · rename_i isDir
        rcases List.mem_cons.mp member with rfl | later
        · rw [makeDirs_kept (by rw [isDir]; exact Option.some_ne_none _), isDir]
        · exact ih h later
      · rename_i missing
        rcases List.mem_cons.mp member with rfl | later
        · rw [makeDirs_kept (by rw [Function.update_self]; exact Option.some_ne_none _),
            Function.update_self]
        · exact ih h later

theorem makeDirs_fails (h : tree.IsFile p) (member : p ∈ ps) : (makeDirs ps tree).2 = false := by
  obtain ⟨content, isFile⟩ := h
  cases worked : (makeDirs ps tree).2 with
  | false => rfl
  | true =>
      have made := makeDirs_made worked member
      rw [makeDirs_kept (by rw [isFile]; exact Option.some_ne_none _), isFile] at made
      cases made

theorem mkdir_kept (h : tree q ≠ none) : (mkdir p tree).1 q = tree q := makeDirs_kept h

theorem mkdir_others (h : ¬ q <+: p) : (mkdir p tree).1 q = tree q :=
  makeDirs_others fun member => h ((List.mem_inits _ _).mp member)

theorem mkdir_works (h : ∀ q, q <+: p → ¬ tree.IsFile q) : (mkdir p tree).2 = true :=
  makeDirs_works fun q member => h q ((List.mem_inits _ _).mp member)

theorem mkdir_made (h : (mkdir p tree).2 = true) : (mkdir p tree).1.HasDir p :=
  fun _ above => makeDirs_made h ((List.mem_inits _ _).mpr above)

theorem mkdir_fails (h : tree.IsFile q) (above : q <+: p) : (mkdir p tree).2 = false :=
  makeDirs_fails h ((List.mem_inits _ _).mpr above)

/-- A place is missing after `mkdir`, or a directory, if it was missing before. -/
theorem mkdir_missing (h : tree q = none) :
    (mkdir p tree).1 q = none ∨ (mkdir p tree).1 q = some .dir := by
  unfold mkdir
  generalize p.inits = ps
  induction ps generalizing tree with
  | nil => exact .inl h
  | cons p' ps ih =>
      unfold makeDirs
      split
      · exact .inl h
      · exact ih h
      · by_cases same : q = p'
        · subst same
          rw [makeDirs_kept (by rw [Function.update_self]; exact Option.some_ne_none _),
            Function.update_self]
          exact .inr rfl
        · exact ih (by rw [Function.update_of_ne same]; exact h)

theorem mkdir_isFile : (mkdir p tree).1.IsFile q ↔ tree.IsFile q := by
  constructor
  · rintro ⟨content, isFile⟩
    cases was : tree q with
    | some node => rw [mkdir_kept (by rw [was]; exact Option.some_ne_none _)] at isFile
                   exact ⟨content, was ▸ isFile⟩
    | none =>
        rcases @mkdir_missing κ ν _ tree p q was with missing | isDir
        · rw [missing] at isFile; cases isFile
        · rw [isDir] at isFile; cases isFile
  · rintro ⟨content, isFile⟩
    exact ⟨content, by rw [mkdir_kept (by rw [isFile]; exact Option.some_ne_none _), isFile]⟩

end Directories

theorem prefix_dropLast {p q : Place κ} (above : q <+: p) (other : q ≠ p) : q <+: p.dropLast := by
  obtain ⟨rest, rfl⟩ := above
  have more : rest ≠ [] := fun none => other (by rw [none, List.append_nil])
  rw [List.dropLast_append_of_ne_nil more]
  exact List.prefix_append q rest.dropLast

theorem not_prefix_dropLast {p : Place κ} (some_ : p ≠ []) : ¬ p <+: p.dropLast := by
  intro above
  have lengths := above.length_le
  rw [List.length_dropLast] at lengths
  have positive := List.length_pos_iff.mpr some_
  omega

section Extract

variable [DecidableEq κ] {tree : Tree κ ν} {t : Target κ ν} {q : Place κ}

theorem writeFile_cases {p : Place κ} {content : ν} :
    (tree p = some .dir ∧ writeFile p content tree = (tree, false)) ∨
      tree p ≠ some .dir ∧
        writeFile p content tree = (Function.update tree p (some (.file content)), true) := by
  unfold writeFile
  cases at_ : tree p with
  | none => exact .inr ⟨fun eq => (by cases eq), rfl⟩
  | some node =>
      cases node with
      | dir => exact .inl ⟨rfl, rfl⟩
      | file content => exact .inr ⟨fun eq => (by cases eq), rfl⟩

/-- A file is written after its directories, or what is left are those that were made. -/
theorem extract_cases :
    t.extract tree = ((mkdir t.place.dropLast tree).1, false) ∨
      (mkdir t.place.dropLast tree).2 = true ∧ t.trailing = false ∧
        (mkdir t.place.dropLast tree).1 t.place ≠ some .dir ∧
        t.extract tree = (Function.update (mkdir t.place.dropLast tree).1 t.place
          (some (.file t.content)), true) := by
  unfold Target.extract
  rcases mkdir t.place.dropLast tree with ⟨made, _ | _⟩
  · exact .inl rfl
  · cases t.trailing with
    | true => exact .inl rfl
    | false =>
        rcases @writeFile_cases κ ν _ made t.place t.content with ⟨-, eq⟩ | ⟨notDir, eq⟩
        · exact .inl eq
        · exact .inr ⟨rfl, rfl, notDir, eq⟩

theorem extract_works (made : (mkdir t.place.dropLast tree).2 = true) (named : t.trailing = false)
    (notDir : (mkdir t.place.dropLast tree).1 t.place ≠ some .dir) :
    t.extract tree = (Function.update (mkdir t.place.dropLast tree).1 t.place
      (some (.file t.content)), true) := by
  unfold Target.extract
  revert made notDir
  rcases mkdir t.place.dropLast tree with ⟨tree', _ | _⟩
  · rintro ⟨⟩
  · intro _ notDir
    rcases @writeFile_cases κ ν _ tree' t.place t.content with ⟨isDir, -⟩ | ⟨-, eq⟩
    · exact absurd isDir notDir
    · simp only [named]
      exact eq

theorem extract_kept (h : tree q ≠ none) : (t.extract tree).1 q ≠ none := by
  have kept : (mkdir t.place.dropLast tree).1 q ≠ none := by
    rw [mkdir_kept h]
    exact h
  rcases @extract_cases κ ν _ tree t with eq | ⟨-, -, -, eq⟩
  · rw [eq]
    exact kept
  · rw [eq]
    dsimp only
    by_cases same : q = t.place
    · rw [same, Function.update_self]
      exact Option.some_ne_none _
    · rw [Function.update_of_ne same]
      exact kept

theorem extractAll_kept {ts : List (Target κ ν)} (h : tree q ≠ none) :
    (extractAll ts tree).1 q ≠ none := by
  induction ts generalizing tree with
  | nil => exact h
  | cons t ts ih =>
      have kept := @extract_kept κ ν _ tree t q h
      unfold extractAll
      split
      · rename_i eq
        rw [eq] at kept
        exact kept
      · rename_i eq
        rw [eq] at kept
        exact ih kept

end Extract

/-- The last place that is made for a file: its own, or its directory's if it cannot be written. -/
def Target.reach (t : Target κ ν) : Place κ := if t.trailing then t.place.dropLast else t.place

def Target.Inside (dest : Place κ) (t : Target κ ν) : Prop := dest <+: t.reach ∨ t.reach <+: dest

/-- In no tree that has `dest` a file can be written that names a directory there, `dest` or one
above it, or a directory of an earlier file, or that would lie below an earlier file. -/
def Blocked (dest : Place κ) (earlier : List (Place κ)) (t : Target κ ν) : Prop :=
  t.trailing = true ∨ t.place <+: dest ∨
    ∃ u ∈ earlier, u ≠ t.place ∧ (u <+: t.place ∨ t.place <+: u)

/-- Each file up to the first that is blocked stays inside. -/
def Contained (dest : Place κ) : List (Place κ) → List (Target κ ν) → Prop
  | _, [] => True
  | earlier, t :: ts =>
      t.Inside dest ∧ (Blocked dest earlier t ∨ Contained dest (earlier ++ [t.place]) ts)

section Contained

variable [DecidableEq κ] {tree : Tree κ ν} {t : Target κ ν} {dest : Place κ}
  {earlier : List (Place κ)}

/-- A tree in which the earlier files have been written. -/
structure Written (tree : Tree κ ν) (dest : Place κ) (earlier : List (Place κ)) : Prop where
  dest : tree.HasDir dest
  files : ∀ u ∈ earlier, tree.IsFile u
  above : ∀ u ∈ earlier, tree.HasDir u.dropLast

theorem HasDir.mkdir {p q : Place κ} (h : tree.HasDir p) : (mkdir q tree).1.HasDir p := by
  intro r above
  rw [mkdir_kept (by rw [h r above]; exact Option.some_ne_none _), h r above]

theorem extract_outside (h : tree.HasDir dest) (inside : t.Inside dest) {q : Place κ}
    (outside : ¬ dest <+: q) : (t.extract tree).1 q = tree q := by
  have parent : t.place.dropLast <+: t.reach := by
    unfold Target.reach
    split
    · exact List.prefix_rfl
    · exact List.dropLast_prefix _
  have made : (mkdir t.place.dropLast tree).1 q = tree q := by
    by_cases above : q <+: t.place.dropLast
    · have isAbove : q <+: dest := by
        rcases inside with below | above'
        · rcases List.prefix_or_prefix_of_prefix (above.trans parent) below with le | ge
          · exact le
          · exact absurd ge outside
        · exact (above.trans parent).trans above'
      rw [mkdir_kept (by rw [h q isAbove]; exact Option.some_ne_none _)]
    · exact mkdir_others above
  rcases @extract_cases κ ν _ tree t with eq | ⟨-, named, notDir, eq⟩
  · rw [eq]
    exact made
  · rw [eq]
    dsimp only
    by_cases same : q = t.place
    · -- the file would be a directory above `dest`
      exfalso
      have reach : t.reach = t.place := by rw [Target.reach, named]; rfl
      rw [Target.Inside, reach] at inside
      rcases inside with below | above
      · exact outside (same ▸ below)
      · exact notDir (HasDir.mkdir h t.place above)
    · rw [Function.update_of_ne same]
      exact made

theorem Written.blocked (h : Written tree dest earlier) (blocked : Blocked dest earlier t) :
    (t.extract tree).2 = false := by
  rcases @extract_cases κ ν _ tree t with eq | ⟨made, named, notDir, eq⟩
  · rw [eq]
  exfalso
  rcases blocked with trailing | above | ⟨u, member, other, below | above⟩
  · rw [named] at trailing
    cases trailing
  · exact notDir (HasDir.mkdir h.dest t.place above)
  · rw [mkdir_fails (h.files u member) (prefix_dropLast below other)] at made
    cases made
  · exact notDir (HasDir.mkdir (h.above u member) t.place (prefix_dropLast above (Ne.symm other)))

theorem Written.extract (h : Written tree dest earlier) (works : (t.extract tree).2 = true) :
    Written (t.extract tree).1 dest (earlier ++ [t.place]) := by
  rcases @extract_cases κ ν _ tree t with eq | ⟨made, named, notDir, eq⟩
  · rw [eq] at works
    cases works
  rw [eq]
  dsimp only
  -- a directory is where no file was written
  have dirs : ∀ p, (mkdir t.place.dropLast tree).1.HasDir p → Tree.HasDir
      (Function.update (mkdir t.place.dropLast tree).1 t.place (some (.file t.content))) p := by
    intro p hasDir q above
    by_cases same : q = t.place
    · exact absurd (same ▸ hasDir q above) notDir
    · rw [Function.update_of_ne same]
      exact hasDir q above
  refine ⟨dirs dest (HasDir.mkdir h.dest), fun u member => ?_, fun u member => ?_⟩
  · by_cases same : u = t.place
    · exact ⟨t.content, by rw [same, Function.update_self]⟩
    · rcases List.mem_append.mp member with before | own
      · obtain ⟨content, isFile⟩ := mkdir_isFile.mpr (h.files u before)
        exact ⟨content, by rw [Function.update_of_ne same]; exact isFile⟩
      · exact absurd (List.mem_singleton.mp own) same
  · rcases List.mem_append.mp member with before | own
    · exact dirs _ (HasDir.mkdir (h.above u before))
    · rw [List.mem_singleton.mp own]
      exact dirs _ (mkdir_made made)

theorem Written.outside {ts : List (Target κ ν)} (h : Written tree dest earlier)
    (contained : Contained dest earlier ts) {q : Place κ} (outside : ¬ dest <+: q) :
    (extractAll ts tree).1 q = tree q := by
  induction ts generalizing tree earlier with
  | nil => rfl
  | cons t ts ih =>
      obtain ⟨inside, rest⟩ := contained
      have same := extract_outside h.dest inside outside
      have blocked := @Written.blocked κ ν _ tree t dest earlier h
      have written := @Written.extract κ ν _ tree t dest earlier h
      unfold extractAll
      rcases extracted : t.extract tree with ⟨after, _ | _⟩
      · rw [extracted] at same
        exact same
      · rw [extracted] at same blocked written
        rcases rest with isBlocked | rest
        · cases blocked isBlocked
        · exact (ih (written rfl) rest).trans same

def bare (dest : Place κ) : Tree κ ν := fun p => if p <+: dest then some .dir else none

/-- What a tree holds that was bare, when the earlier files have been written. -/
structure BareWith (tree : Tree κ ν) (dest : Place κ) (earlier : List (Place κ)) : Prop where
  inside : ∀ u ∈ earlier, dest <+: u
  dirs : ∀ p, tree p = some .dir → p <+: dest ∨ ∃ u ∈ earlier, p <+: u ∧ p ≠ u
  files : ∀ p, tree.IsFile p → p ∈ earlier

theorem BareWith.start : BareWith (bare dest : Tree κ ν) dest [] where
  inside _ member := by cases member
  dirs p isDir := .inl (Option.ite_none_right_eq_some.mp isDir).1
  files p isFile := by
    obtain ⟨content, eq⟩ := isFile
    cases (Option.ite_none_right_eq_some.mp eq).2

/-- A file that does not stay inside makes something where nothing was. -/
theorem BareWith.escapes (h : BareWith tree dest earlier) (escapes : ¬ t.Inside dest) :
    ∃ q, ¬ dest <+: q ∧ tree q = none ∧ (t.extract tree).1 q ≠ none := by
  rw [Target.Inside, not_or] at escapes
  obtain ⟨notBelow, notAbove⟩ := escapes
  have parent : t.place.dropLast <+: t.reach := by
    unfold Target.reach
    split
    · exact List.prefix_rfl
    · exact List.dropLast_prefix _
  have made : (mkdir t.place.dropLast tree).2 = true := mkdir_works fun q above isFile =>
    notBelow ((h.inside q (h.files q isFile)).trans (above.trans parent))
  have missing : tree t.reach = none := by
    cases at_ : tree t.reach with
    | none => rfl
    | some node =>
        exfalso
        cases node with
        | dir =>
            rcases h.dirs _ at_ with above | ⟨u, member, above, -⟩
            · exact notAbove above
            · rcases List.prefix_or_prefix_of_prefix above (h.inside u member) with le | ge
              · exact notAbove le
              · exact notBelow ge
        | file content => exact notBelow (h.inside _ (h.files _ ⟨content, at_⟩))
  refine ⟨t.reach, notBelow, missing, ?_⟩
  cases named : t.trailing with
  | true =>
      have reach : t.reach = t.place.dropLast := by rw [Target.reach, named]; rfl
      have isDir := mkdir_made made t.place.dropLast List.prefix_rfl
      rw [reach]
      rcases @extract_cases κ ν _ tree t with eq | ⟨-, notTrailing, -, -⟩
      · rw [eq, isDir]
        exact Option.some_ne_none _
      · rw [named] at notTrailing
        cases notTrailing
  | false =>
      have reach : t.reach = t.place := by rw [Target.reach, named]; rfl
      rw [reach] at missing notAbove ⊢
      have some_ : t.place ≠ [] := fun none => notAbove (none ▸ List.nil_prefix)
      have stays : (mkdir t.place.dropLast tree).1 t.place = none := by
        rw [mkdir_others (not_prefix_dropLast some_), missing]
      rw [extract_works made named (by rw [stays]; exact fun eq => by cases eq)]
      dsimp only
      rw [Function.update_self]
      exact Option.some_ne_none _

theorem BareWith.extract (h : BareWith tree dest earlier) (inside : t.Inside dest)
    (free : ¬ Blocked dest earlier t) : (t.extract tree).2 = true ∧
      BareWith (t.extract tree).1 dest (earlier ++ [t.place]) := by
  rw [Blocked, not_or, not_or] at free
  obtain ⟨notTrailing, notAbove, clear⟩ := free
  have named : t.trailing = false := eq_false_of_ne_true notTrailing
  have below : dest <+: t.place := by
    rw [Target.Inside, Target.reach, named] at inside
    exact inside.resolve_right notAbove
  have some_ : t.place ≠ [] := fun none => notAbove (none ▸ List.nil_prefix)
  have made : (mkdir t.place.dropLast tree).2 = true := mkdir_works fun q above isFile =>
    clear ⟨q, h.files q isFile, fun same => not_prefix_dropLast some_ (same ▸ above),
      .inl (above.trans (List.dropLast_prefix _))⟩
  have notDir : (mkdir t.place.dropLast tree).1 t.place ≠ some .dir := by
    rw [mkdir_others (not_prefix_dropLast some_)]
    intro isDir
    rcases h.dirs _ isDir with above | ⟨u, member, above, other⟩
    · exact notAbove above
    · exact clear ⟨u, member, Ne.symm other, .inr above⟩
  rw [extract_works made named notDir]
  dsimp only
  refine ⟨rfl, fun u member => ?_, fun p isDir => ?_, fun p isFile => ?_⟩
  · rcases List.mem_append.mp member with before | own
    · exact h.inside u before
    · exact List.mem_singleton.mp own ▸ below
  · by_cases same : p = t.place
    · rw [same, Function.update_self] at isDir
      cases isDir
    · rw [Function.update_of_ne same] at isDir
      by_cases above : p <+: t.place.dropLast
      · exact .inr ⟨t.place, List.mem_append_right _ List.mem_cons_self,
          above.trans (List.dropLast_prefix _), same⟩
      · rw [mkdir_others above] at isDir
        rcases h.dirs p isDir with isAbove | ⟨u, member, isAbove, other⟩
        · exact .inl isAbove
        · exact .inr ⟨u, List.mem_append_left _ member, isAbove, other⟩
  · by_cases same : p = t.place
    · rw [same]
      exact List.mem_append_right _ List.mem_cons_self
    · obtain ⟨content, isFile⟩ := isFile
      rw [Function.update_of_ne same] at isFile
      exact List.mem_append_left _ (h.files p (mkdir_isFile.mp ⟨content, isFile⟩))

theorem BareWith.leaves {ts : List (Target κ ν)} (h : BareWith tree dest earlier)
    (escapes : ¬ Contained dest earlier ts) :
    ∃ q, ¬ dest <+: q ∧ tree q = none ∧ (extractAll ts tree).1 q ≠ none := by
  induction ts generalizing tree earlier with
  | nil => exact absurd trivial escapes
  | cons t ts ih =>
      have next : ∀ q, (t.extract tree).1 q ≠ none → (extractAll (t :: ts) tree).1 q ≠ none := by
        intro q there
        unfold extractAll
        rcases extracted : t.extract tree with ⟨after, _ | _⟩
        · rw [extracted] at there
          exact there
        · rw [extracted] at there
          exact extractAll_kept there
      by_cases inside : t.Inside dest
      · have later : ¬ (Blocked dest earlier t ∨ Contained dest (earlier ++ [t.place]) ts) :=
          fun rest => escapes ⟨inside, rest⟩
        rw [not_or] at later
        obtain ⟨works, bare⟩ := h.extract inside later.1
        obtain ⟨q, outside, missing, there⟩ := ih bare later.2
        refine ⟨q, outside, ?_, ?_⟩
        · by_contra was
          exact extract_kept was missing
        · unfold extractAll
          rcases extracted : t.extract tree with ⟨after, worked⟩
          rw [extracted] at works there
          cases works
          exact there
      · obtain ⟨q, outside, missing, there⟩ := h.escapes inside
        exact ⟨q, outside, missing, next q there⟩

/-- Extraction changes nothing outside a directory, whatever the tree, if and only if each file up
to the first that is blocked lies inside. -/
theorem extractAll_outside_iff {ts : List (Target κ ν)} :
    (∀ tree : Tree κ ν, tree.HasDir dest → ∀ q, ¬ dest <+: q → (extractAll ts tree).1 q = tree q) ↔
      Contained dest [] ts := by
  constructor
  · intro kept
    by_contra escapes
    obtain ⟨q, outside, missing, there⟩ := BareWith.start.leaves escapes
    rw [kept (bare dest) (fun p above => if_pos above) q outside] at there
    exact there missing
  · intro contained tree hasDir q outside
    have start : Written tree dest [] :=
      ⟨hasDir, fun _ member => (by cases member), fun _ member => (by cases member)⟩
    exact start.outside contained outside

end Contained

end FileTree
