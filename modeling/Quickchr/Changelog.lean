import Quickchr.Lib.Lines

/-!
# Changelog roll-over

`scripts/release-prep.ts` on the text of `CHANGELOG.md`: the section of a version, and moving the
unreleased entries under a version of their own. A changelog is an introduction and sections.
-/
namespace Quickchr.Changelog

/-- `/^## /`. -/
def isHeading (line : String) : Bool := Text.startsWith line "## "

/-- `/^## \[Unreleased\]/i`. -/
def isUnreleased (line : String) : Bool := Text.startsWith (Text.toLowerCase line) "## [unreleased]"

/-- The heading of a version: its name in brackets, then white space or the end. -/
def isHeadingOf (version line : String) : Bool :=
  match Text.after ("## [" ++ version ++ "]") line with
  | some rest => rest.toList.head?.all Text.isSpace
  | none => false

/-- Where the section that begins at a line ends. -/
def sectionEnd (lines : List String) (start : ℕ) : ℕ :=
  start + 1 + (lines.drop (start + 1)).findIdx isHeading

/-- `lines.slice(start + 1, end).join("\n").trim()`. -/
def sectionText (lines : List String) (start : ℕ) : String :=
  Text.trim (Text.join "\n" ((lines.drop (start + 1)).take (sectionEnd lines start - (start + 1))))

structure Rollover where
  changelog : String
  notes : String
  deriving DecidableEq

def NO_UNRELEASED : String := "CHANGELOG.md has no '## [Unreleased]' heading"

def EMPTY_UNRELEASED : String :=
  "CHANGELOG.md [Unreleased] is empty — a release must document what changed. " ++
    "Add entries under '## [Unreleased]' first."

def rolloverChangelog (text version date : String) : Except String Rollover :=
  let lines := Text.split text '\n'
  match lines.findIdx? isUnreleased with
  | none => .error NO_UNRELEASED
  | some unreleasedIdx =>
      let notes := sectionText lines unreleasedIdx
      if notes = "" then .error EMPTY_UNRELEASED
      else
        let out := lines.take unreleasedIdx ++
          (["## [Unreleased]", "", "## [" ++ version ++ "] — " ++ date, "", notes, ""] ++
            lines.drop (sectionEnd lines unreleasedIdx))
        .ok ⟨Text.join "\n" out, notes⟩

def releaseNotesForVersion (text version : String) : Except String String :=
  let lines := Text.split text '\n'
  match lines.findIdx? (isHeadingOf version) with
  | none => .error ("CHANGELOG.md has no '## [" ++ version ++ "]' heading")
  | some versionIdx =>
      let notes := sectionText lines versionIdx
      if notes = "" then .error ("CHANGELOG.md section '## [" ++ version ++ "]' is empty") else .ok notes

structure Plain (line : String) : Prop where
  noHeading : isHeading line = false
  oneLine : '\n' ∉ line.toList

structure Section where
  heading : String
  lines : List String
  isHeading : isHeading heading = true
  oneLine : '\n' ∉ heading.toList
  plain : ∀ line ∈ lines, Plain line

def Section.all (s : Section) : List String := s.heading :: s.lines

def Section.notes (s : Section) : String := Text.trim (Text.join "\n" s.lines)

structure Doc where
  intro : List String
  plain : ∀ line ∈ intro, Plain line
  unreleased : Section
  isUnreleased : isUnreleased unreleased.heading = true
  released : List Section

namespace Doc

def lines (d : Doc) : List String := d.intro ++ (d.unreleased :: d.released).flatMap Section.all

def text (d : Doc) : String := Text.join "\n" d.lines

end Doc

/-- The notes of a version: those of the first section under its name. -/
def notesIn (version : String) (sections : List Section) : Except String String :=
  match sections.find? fun s => isHeadingOf version s.heading with
  | none => .error ("CHANGELOG.md has no '## [" ++ version ++ "]' heading")
  | some s =>
      if s.notes = "" then .error ("CHANGELOG.md section '## [" ++ version ++ "]' is empty") else .ok s.notes

def Doc.notes (d : Doc) (version : String) : Except String String :=
  notesIn version (d.unreleased :: d.released)

theorem notesIn_cons_of_heading {version : String} {s : Section} (l : List Section)
    (h : isHeadingOf version s.heading = true) (some_ : s.notes ≠ "") :
    notesIn version (s :: l) = .ok s.notes := by
  rw [notesIn, List.find?_cons_of_pos (p := fun s : Section => isHeadingOf version s.heading) h]
  exact if_neg some_

theorem notesIn_cons_of_other {version : String} {s : Section} (l : List Section)
    (h : isHeadingOf version s.heading = false) : notesIn version (s :: l) = notesIn version l := by
  rw [notesIn, List.find?_cons_of_neg (p := fun s : Section => isHeadingOf version s.heading)
    (by rw [h]; exact nofun)]
  rfl

theorem isHeading_iff {line : String} : isHeading line = true ↔ "## ".toList <+: line.toList :=
  List.isPrefixOf_iff_prefix

theorem isHeading_of_begins {line whole : String} (h : isHeading line = true) (is : line.toList <+: whole.toList) :
    isHeading whole = true :=
  isHeading_iff.mpr ((isHeading_iff.mp h).trans is)

theorem isHeadingOf_iff {version line : String} : isHeadingOf version line = true ↔
    ∃ rest : String, line = "## [" ++ version ++ "]" ++ rest ∧ rest.toList.head?.all Text.isSpace = true := by
  unfold isHeadingOf
  constructor
  · intro h
    split at h
    · rename_i rest is
      exact ⟨rest, Text.after_eq_some.mp is, h⟩
    · cases h
  · rintro ⟨rest, is, space⟩
    rw [Text.after_eq_some.mpr is]
    exact space

theorem isHeading_of_version {version line : String} (h : isHeadingOf version line = true) :
    isHeading line = true := by
  obtain ⟨rest, rfl, -⟩ := isHeadingOf_iff.mp h
  rw [isHeading_iff, String.append_assoc, String.append_assoc, String.toList_append]
  exact List.IsPrefix.trans (by decide : "## ".toList <+: "## [".toList) (List.prefix_append _ _)

theorem isHeading_of_isUnreleased {line : String} (h : isUnreleased line = true) : isHeading line = true := by
  obtain ⟨rest, is⟩ := List.isPrefixOf_iff_prefix.mp h
  rw [Text.toLowerCase, String.toList_ofList, String.toList_ofList] at is
  rw [isHeading_iff]
  generalize line.toList = l at is ⊢
  rcases l with _ | ⟨a, _ | ⟨b, _ | ⟨c, more⟩⟩⟩
  · exact absurd is (by simp)
  · exact absurd is (by simp)
  · exact absurd is (by simp)
  · simp only [List.map_cons, List.cons_append, List.cons.injEq] at is
    obtain ⟨first, second, third, -⟩ := is
    obtain rfl := (Text.lower_eq_iff (by decide)).mp first.symm
    obtain rfl := (Text.lower_eq_iff (by decide)).mp second.symm
    obtain rfl := (Text.lower_eq_iff (by decide)).mp third.symm
    exact ⟨more, rfl⟩

theorem head_sections {l : List Section} {line : String} (h : line ∈ (l.flatMap Section.all).head?) :
    isHeading line = true := by
  cases l with
  | nil => cases h
  | cons s l =>
      cases h
      exact s.isHeading

theorem drop_heading (before : List String) (s : Section) (after : List String) :
    (before ++ (s.all ++ after)).drop (before.length + 1) = s.lines ++ after := by
  rw [← List.drop_drop, List.drop_left]
  rfl

theorem sectionEnd_at (before : List String) (s : Section) {after : List String}
    (stops : ∀ line ∈ after.head?, isHeading line = true) :
    sectionEnd (before ++ (s.all ++ after)) before.length = before.length + 1 + s.lines.length := by
  have none : ∀ line ∈ s.lines, isHeading line = false := fun line inside => (s.plain line inside).noHeading
  rw [sectionEnd, drop_heading, List.findIdx_append]
  have outside : s.lines.findIdx isHeading = s.lines.length :=
    List.findIdx_eq_length.mpr none
  rw [outside, if_neg (lt_irrefl _)]
  cases after with
  | nil => simp
  | cons line after => simp [List.findIdx_cons, stops line rfl]

theorem sectionText_at (before : List String) (s : Section) {after : List String}
    (stops : ∀ line ∈ after.head?, isHeading line = true) :
    sectionText (before ++ (s.all ++ after)) before.length = s.notes ∧
      (before ++ (s.all ++ after)).drop (sectionEnd (before ++ (s.all ++ after)) before.length) = after := by
  rw [sectionText, sectionEnd_at before s stops, drop_heading, Nat.add_sub_cancel_left, List.take_left]
  refine ⟨rfl, ?_⟩
  rw [← List.drop_drop, drop_heading, List.drop_left]

theorem findIdx?_lines {intro : List String} (plain : ∀ line ∈ intro, Plain line) {p : String → Bool}
    (heading : ∀ line, p line = true → isHeading line = true) (l : List Section) :
    (l.find? (p ·.heading) = none → (intro ++ l.flatMap Section.all).findIdx? p = none) ∧
    ∀ s, l.find? (p ·.heading) = some s → ∃ front back, l = front ++ s :: back ∧
      (∀ s ∈ front, p s.heading = false) ∧
      (intro ++ l.flatMap Section.all).findIdx? p = some (intro ++ front.flatMap Section.all).length := by
  have other : ∀ line, Plain line → p line = false := fun line is =>
    Bool.eq_false_iff.mpr fun found => Bool.false_ne_true (is.noHeading.symm.trans (heading line found))
  have sections : ∀ front : List Section, (∀ s ∈ front, p s.heading = false) →
      ∀ line ∈ intro ++ front.flatMap Section.all, p line = false := by
    intro front none line member
    rcases List.mem_append.mp member with before | inside
    · exact other line (plain line before)
    · obtain ⟨s, is, inside⟩ := List.mem_flatMap.mp inside
      rcases List.mem_cons.mp inside with rfl | inside
      · exact none s is
      · exact other line (s.plain line inside)
  constructor
  · intro none
    rw [List.findIdx?_eq_none_iff]
    exact sections l fun s is => Bool.eq_false_iff.mpr (List.find?_eq_none.mp none s is)
  · intro s found
    obtain ⟨is, front, back, rfl, none⟩ := List.find?_eq_some_iff_append.mp found
    have none : ∀ s ∈ front, p s.heading = false := fun s before => by simpa using none s before
    refine ⟨front, back, rfl, none, ?_⟩
    have missing : (intro ++ front.flatMap Section.all).findIdx? p = Option.none :=
      List.findIdx?_eq_none_iff.mpr (sections front none)
    rw [List.flatMap_append, List.flatMap_cons, ← List.append_assoc, List.findIdx?_append, missing, Section.all,
      List.cons_append, List.findIdx?_cons, is]
    simp

theorem Doc.oneLine {d : Doc} : ∀ line ∈ d.lines, '\n' ∉ line.toList := by
  intro line member
  rcases List.mem_append.mp member with before | inside
  · exact (d.plain line before).oneLine
  · obtain ⟨s, -, inside⟩ := List.mem_flatMap.mp inside
    rcases List.mem_cons.mp inside with rfl | inside
    · exact s.oneLine
    · exact (s.plain line inside).oneLine

theorem Doc.split_text (d : Doc) : Text.split d.text '\n' = d.lines := by
  refine Text.split_join rfl d.oneLine fun none => ?_
  have : d.lines.length = 0 := congrArg List.length none
  simp [Doc.lines, Section.all] at this

theorem releaseNotesForVersion_text (d : Doc) (version : String) :
    releaseNotesForVersion d.text version = d.notes version := by
  obtain ⟨missing, found⟩ := findIdx?_lines d.plain (fun line => @isHeading_of_version version line)
    (d.unreleased :: d.released)
  rw [releaseNotesForVersion, Doc.notes, notesIn, d.split_text]
  cases first : (d.unreleased :: d.released).find? fun s => isHeadingOf version s.heading with
  | none =>
      have none := missing first
      rw [Doc.lines, none]
  | some s =>
      obtain ⟨front, back, sections, -, at_⟩ := found s first
      have whole : d.lines = (d.intro ++ front.flatMap Section.all) ++ (s.all ++ back.flatMap Section.all) := by
        rw [Doc.lines, sections, List.flatMap_append, List.flatMap_cons, List.append_assoc]
      have read := (@sectionText_at (d.intro ++ front.flatMap Section.all) s (back.flatMap Section.all)
        fun line => head_sections).1
      rw [← whole] at read
      change d.lines.findIdx? _ = _ at at_
      rw [at_]
      dsimp only
      rw [read]

/-- A text that may stand between brackets as the name of a version. -/
structure Label (version : String) : Prop where
  oneLine : '\n' ∉ version.toList
  closed : ']' ∉ version.toList
  released : ∀ c ∈ version.toList.head?, Text.lower c ≠ 'u'

/-- The section of unreleased entries goes under no version's name. -/
theorem not_isHeadingOf_unreleased {version line : String} (label : Label version) (h : isUnreleased line = true) :
    isHeadingOf version line = false := by
  refine Bool.eq_false_iff.mpr fun found => ?_
  obtain ⟨rest, rfl, -⟩ := isHeadingOf_iff.mp found
  obtain ⟨more, is⟩ := List.isPrefixOf_iff_prefix.mp h
  rw [Text.toLowerCase, String.toList_append, String.toList_append, String.toList_append, String.toList_ofList,
    String.toList_ofList] at is
  have lead : "## [".toList = ['#', '#', ' ', '['] := rfl
  have close : "]".toList = [']'] := rfl
  rw [lead, close] at is
  cases name : version.toList with
  | nil =>
      rw [name] at is
      have fifth := congrArg (fun l : List Char => l[4]?) is
      cases fifth
  | cons c name' =>
      rw [name] at is
      have fifth := congrArg (fun l : List Char => l[4]?) is
      exact label.released c (by rw [name]; rfl) (Option.some.inj fifth).symm

theorem headingOf_iff {version w date : String} (label : Label version) (label' : Label w) :
    isHeadingOf w ("## [" ++ version ++ "] — " ++ date) = true ↔ w = version := by
  rw [isHeadingOf_iff]
  constructor
  · rintro ⟨rest, is, -⟩
    have is := congrArg String.toList is
    simp only [String.toList_append, List.append_assoc] at is
    have is := List.append_cancel_left is
    -- both names end at the first bracket that closes
    have name : ∀ {l l' : List Char}, ']' ∉ l → (l ++ ']' :: l').takeWhile (· ≠ ']') = l := by
      intro l l' closed
      rw [List.takeWhile_append_of_pos fun c inside => by simpa using ne_of_mem_of_not_mem inside closed,
        List.takeWhile_cons_of_neg (by simp), List.append_nil]
    have same := congrArg (List.takeWhile (· ≠ ']')) is
    exact String.toList_inj.mp ((name label'.closed).symm.trans (same.symm.trans (name label.closed)))
  · rintro rfl
    refine ⟨" — " ++ date, ?_, ?_⟩
    · simp only [String.append_assoc]
      rfl
    · rw [String.toList_append]
      rfl

/-- The lines of the notes are no headings, unless the notes begin with one. -/
theorem Section.plain_notes (s : Section) (clean : Changelog.isHeading s.notes = false) :
    ∀ line ∈ Text.split s.notes '\n', Plain line := by
  intro line member
  refine ⟨?_, Text.not_mem_of_mem_split member⟩
  refine Bool.eq_false_iff.mpr fun heading => ?_
  obtain ⟨first, rest, pieces⟩ : ∃ first rest, Text.split s.notes '\n' = first :: rest :=
    List.exists_cons_of_ne_nil (List.ne_nil_of_mem member)
  rw [pieces] at member
  rcases List.mem_cons.mp member with rfl | behind
  · have starts := Text.head_split (by rw [pieces]; rfl : (Text.split s.notes '\n').head? = some line)
    exact Bool.false_ne_true (clean.symm.trans (isHeading_of_begins heading starts))
  · -- a line behind the first begins a line of the section
    have behind : line ∈ (Text.split (Text.trim (Text.join "\n" s.lines)) '\n').tail := by
      change line ∈ (Text.split s.notes '\n').tail
      rw [pieces]
      exact behind
    obtain ⟨whole, inside, starts⟩ := Text.trim_lines _ line behind
    rcases eq_or_ne s.lines [] with empty | filled
    · rw [empty] at behind
      cases behind
    · rw [Text.split_join rfl (fun line inside => (s.plain line inside).oneLine) filled] at inside
      exact Bool.false_ne_true ((s.plain whole inside).noHeading.symm.trans (isHeading_of_begins heading starts))

theorem plain_blank : Plain "" := ⟨by decide, by decide⟩

/-- The unreleased entries as the section of a version. -/
def Section.under (s : Section) (clean : Changelog.isHeading s.notes = false) {version date : String}
    (oneLine : '\n' ∉ version.toList) (dateLine : '\n' ∉ date.toList) : Section where
  heading := "## [" ++ version ++ "] — " ++ date
  lines := "" :: (Text.split s.notes '\n' ++ [""])
  isHeading := by
    rw [isHeading_iff, String.append_assoc, String.append_assoc, String.toList_append]
    exact List.IsPrefix.trans (by decide : "## ".toList <+: "## [".toList) (List.prefix_append _ _)
  oneLine := by
    simp only [String.toList_append, List.mem_append, not_or]
    exact ⟨⟨⟨by decide, oneLine⟩, by decide⟩, dateLine⟩
  plain := by
    intro line member
    rcases List.mem_cons.mp member with rfl | member
    · exact plain_blank
    · rcases List.mem_append.mp member with inside | last
      · exact s.plain_notes clean line inside
      · rw [List.mem_singleton.mp last]
        exact plain_blank

theorem Section.notes_under (s : Section) (clean : Changelog.isHeading s.notes = false) {version date : String}
    (oneLine : '\n' ∉ version.toList) (dateLine : '\n' ∉ date.toList) :
    (s.under clean oneLine dateLine).notes = s.notes := by
  have lines : (s.under clean oneLine dateLine).lines = [""] ++ Text.split s.notes '\n' ++ [""] := by
    simp only [Section.under, List.cons_append, List.nil_append]
  have text : Text.join "\n" ([""] ++ [s.notes] ++ [""]) = String.ofList (['\n'] ++ (s.notes.toList ++ ['\n'])) := by
    refine String.toList_inj.mp ?_
    simp [Text.join]
  have blank : ∀ c ∈ ['\n'], Text.isSpace c = true := by simp [Text.isSpace]
  rw [Section.notes, lines, @Text.join_pieces "\n" '\n' rfl, text, Text.trim_around blank blank, String.ofList_toList,
    Section.notes, Text.trim_trim]

def fresh : Section where
  heading := "## [Unreleased]"
  lines := [""]
  isHeading := by decide
  oneLine := by decide
  plain := fun line member => by
    rw [List.mem_singleton.mp member]
    exact plain_blank

def Doc.release (d : Doc) (clean : Changelog.isHeading d.unreleased.notes = false) {version date : String}
    (oneLine : '\n' ∉ version.toList) (dateLine : '\n' ∉ date.toList) : Doc where
  intro := d.intro
  plain := d.plain
  unreleased := fresh
  isUnreleased := by decide
  released := d.unreleased.under clean oneLine dateLine :: d.released

theorem Doc.lines_eq (d : Doc) : d.lines = d.intro ++ (d.unreleased.all ++ d.released.flatMap Section.all) := rfl

theorem Doc.reads (d : Doc) : d.lines.findIdx? Changelog.isUnreleased = some d.intro.length ∧
    sectionText d.lines d.intro.length = d.unreleased.notes ∧
    d.lines.drop (sectionEnd d.lines d.intro.length) = d.released.flatMap Section.all := by
  have first : (d.unreleased :: d.released).find? (fun s => Changelog.isUnreleased s.heading) = some d.unreleased := by
    exact List.find?_cons_of_pos (p := fun s : Section => Changelog.isUnreleased s.heading) d.isUnreleased
  obtain ⟨front, back, sections, none, at_⟩ :=
    (findIdx?_lines d.plain (fun line => isHeading_of_isUnreleased) (d.unreleased :: d.released)).2 _ first
  obtain rfl : front = [] := by
    cases front with
    | nil => rfl
    | cons s front =>
        obtain ⟨rfl, -⟩ := List.cons_eq_cons.mp sections
        exact absurd (none _ List.mem_cons_self) (by rw [d.isUnreleased]; exact nofun)
  obtain ⟨read, rest⟩ := @sectionText_at d.intro d.unreleased (d.released.flatMap Section.all)
    fun line => head_sections
  rw [List.flatMap_nil, List.append_nil] at at_
  rw [← d.lines_eq] at read rest
  exact ⟨at_, read, rest⟩

/-- Rolling over makes the unreleased entries a section of their own. -/
theorem rolloverChangelog_text (d : Doc) (clean : isHeading d.unreleased.notes = false) {version date : String}
    (oneLine : '\n' ∉ version.toList) (dateLine : '\n' ∉ date.toList) :
    rolloverChangelog d.text version date =
      if d.unreleased.notes = "" then .error EMPTY_UNRELEASED
      else .ok ⟨(d.release clean oneLine dateLine).text, d.unreleased.notes⟩ := by
  obtain ⟨at_, read, rest⟩ := d.reads
  rw [rolloverChangelog, d.split_text, at_]
  dsimp only
  rw [read, rest]
  split
  · rfl
  · have lines : (d.release clean oneLine dateLine).lines =
        (d.intro ++ ["## [Unreleased]", "", "## [" ++ version ++ "] — " ++ date, ""]) ++
          Text.split d.unreleased.notes '\n' ++ "" :: d.released.flatMap Section.all := by
      simp [Doc.lines, Doc.release, Section.all, fresh, Section.under]
    rw [Doc.text, lines, @Text.join_pieces "\n" '\n' rfl, d.lines_eq, List.take_left]
    simp only [List.append_assoc, List.cons_append, List.nil_append]

/-- The notes of the versions after rolling over: the new one has the unreleased entries, the others
have what they had. -/
theorem Doc.notes_release (d : Doc) (clean : isHeading d.unreleased.notes = false) {version w date : String}
    (label : Label version) (label' : Label w) (dateLine : '\n' ∉ date.toList) (some_ : d.unreleased.notes ≠ "") :
    (d.release clean label.oneLine dateLine).notes w = if w = version then .ok d.unreleased.notes else d.notes w := by
  have skipped : isHeadingOf w fresh.heading = false := not_isHeadingOf_unreleased label' (by decide)
  have skipped' := not_isHeadingOf_unreleased label' d.isUnreleased
  have notes := d.unreleased.notes_under clean label.oneLine dateLine
  rw [Doc.notes, Doc.notes, notesIn_cons_of_other _ skipped']
  simp only [Doc.release]
  rw [notesIn_cons_of_other _ skipped]
  have named : isHeadingOf w (d.unreleased.under clean label.oneLine dateLine).heading = true ↔ w = version := by
    simp only [Section.under]
    exact headingOf_iff label label'
  by_cases same : w = version
  · rw [if_pos same, notesIn_cons_of_heading _ (named.mpr same) (by rw [notes]; exact some_), notes]
  · rw [if_neg same, notesIn_cons_of_other _ (Bool.eq_false_iff.mpr fun found => same (named.mp found))]

end Quickchr.Changelog
