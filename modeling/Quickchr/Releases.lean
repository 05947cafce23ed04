import Mathlib.Data.List.Lex
import Quickchr.Lib.NumberOrder
import Quickchr.Changelog

/-!
# Releases

A release is prepared on a branch (`scripts/release-prep.ts`), and published by a workflow that somebody
dispatches (`.github/workflows/release.yml`): it checks, makes the release with the notes of its version,
publishes the package under a tag, and moves the tag that must not stay behind.
-/
namespace Quickchr.Releases

open Changelog

/-- `/^(\d+)\.(\d+)\.(\d+)$/`, as numbers. -/
def parseXyz (version : String) : Option (List ℕ) :=
  match Text.split version '.' with
  | [major, minor, patch] => do
      return [← Number.digits major.toList, ← Number.digits minor.toList, ← Number.digits patch.toList]
  | _ => none

/-- `n + 1`. -/
def succ : Number → Number
  | .finite value _ => Number.round (value + 1)
  | n => n

def dotted (major minor patch : Number) : String :=
  Text.join "." [major.text, minor.text, patch.text]

def nextVersion (current bump : String) : Except String String :=
  match parseXyz current with
  | some [maj, min, pat] =>
      if bump = "patch" then .ok (dotted (.round maj) (.round min) (succ (.round pat)))
      else if bump = "minor" then .ok (dotted (.round maj) (succ (.round min)) (.round 0))
      else if bump = "major" then .ok (dotted (succ (.round maj)) (.round 0) (.round 0))
      else if (parseXyz bump).isSome then .ok bump
      else .error ("bump \"" ++ bump ++ "\" is not patch/minor/major or an exact X.Y.Z")
  | _ => .error ("current version \"" ++ current ++ "\" is not X.Y.Z")

inductive NpmTag
  | next
  | latest
  deriving DecidableEq

/-- The tags that are moved onto a release besides its own. -/
def extraNpmTags : NpmTag → List NpmTag
  | .latest => [.next]
  | .next => []

def difference : List ℕ → List ℕ → Number
  | m :: a, n :: b =>
      let d := Number.sub (.round m) (.round n)
      if d ≠ .round 0 then d else difference a b
  | _, _ => .round 0

def assertNotBehindLatest (version : String) (currentLatest : Option String) : Except String Unit :=
  match currentLatest with
  | none => .ok ()
  | some currentLatest =>
      if currentLatest = "" then .ok ()
      else
        match parseXyz version, parseXyz currentLatest with
        | none, _ => .error ("version \"" ++ version ++ "\" is not X.Y.Z")
        | _, none => .error ("version \"" ++ currentLatest ++ "\" is not X.Y.Z")
        | some a, some b =>
            if (difference a b).sign = some (-1) then
              .error ("version " ++ version ++ " is older than npm latest " ++ currentLatest ++
                " — next must never lag latest")
            else .ok ()

structure Release where
  version : String
  notes : String
  tag : NpmTag
  deriving DecidableEq

/-- The main branch, what preparing printed, the releases and the registry; what is newest comes first. -/
structure World where
  version : String
  changelog : String
  printed : List (String × String)
  releases : List Release
  published : List String
  latest : Option String
  next : Option String

/-- Entries that somebody writes under the unreleased heading. -/
structure Entries where
  lines : List String
  plain : ∀ line ∈ lines, Plain line
  /-- No line turns into a heading when the text is trimmed. -/
  clean : Changelog.isHeading (Text.trim (Text.join "\n" lines)) = false

structure Day where
  text : String
  oneLine : '\n' ∉ text.toList

/-- One run of the workflow: what is asked for, and how the parts that can fail turn out. -/
structure Dispatch where
  tag : NpmTag
  dryRun : Bool
  /-- The branch, the integration runs and the unit tests. -/
  gates : Bool
  /-- `npm view` of the latest version answers. -/
  lookup : Bool
  /-- The tags of the repository and the registry can be read. -/
  targets : Bool
  create : Bool
  publish : Bool
  /-- The attempts to move a trailing tag. -/
  moves : List Bool

inductive Event
  | write (entries : Entries)
  | edit (version : String)
  | prep (bump : String) (date : Day)
  | dispatch (run : Dispatch)
  | rerun (release : Release) (publish : Bool) (moves : List Bool)

namespace World

-- Whether the registry takes a version beside those it has.
variable (takes : List String → String → Bool) (w : World)

/-- The section of unreleased entries, rewritten. -/
def write (entries : Entries) : World :=
  let lines := Text.split w.changelog '\n'
  match lines.findIdx? isUnreleased with
  | none => w
  | some at_ =>
      { w with changelog := Text.join "\n" (lines.take (at_ + 1) ++ (entries.lines ++ lines.drop (sectionEnd lines at_))) }

def prep (bump : String) (date : Day) : World :=
  match nextVersion w.version bump with
  | .error _ => w
  | .ok version =>
      match rolloverChangelog w.changelog version date.text with
      | .error _ => w
      | .ok rollover =>
          -- the line of the version would stay as it is
          if version = w.version then w
          else
            { w with
              version := version
              changelog := rollover.changelog
              printed := (version, rollover.notes) :: w.printed }

def setTag (tag : NpmTag) (version : String) : World :=
  match tag with
  | .next => { w with next := some version }
  | .latest => { w with latest := some version }

/-- The checks of the workflow: the release that is to be made. -/
def prepare (run : Dispatch) : Option Release :=
  if run.gates && (parseXyz w.version).isSome then
    match assertNotBehindLatest w.version (if run.lookup then w.latest else none),
      releaseNotesForVersion w.changelog w.version with
    | .ok _, .ok notes =>
        if run.targets && w.version ∉ w.releases.map Release.version && w.version ∉ w.published then
          some ⟨w.version, notes, run.tag⟩
        else none
    | _, _ => none
  else none

/-- Of the attempts to move a tag only three are made. -/
def moved (moves : List Bool) : Bool := (moves.take 3).any id

def publish (release : Release) (succeeds : Bool) (moves : List Bool) : World :=
  if succeeds && takes w.published release.version then
    let there := ({ w with published := release.version :: w.published } : World).setTag release.tag release.version
    if moved moves then (extraNpmTags release.tag).foldl (fun w tag => w.setTag tag release.version) there else there
  else w

def dispatch (run : Dispatch) : World :=
  match w.prepare run with
  | none => w
  | some release =>
      if run.dryRun || !run.create then w
      else ({ w with releases := release :: w.releases } : World).publish takes release run.publish run.moves

def step : Event → World
  | .write entries => w.write entries
  | .edit version => { w with version := version }
  | .prep bump date => w.prep bump date
  | .dispatch run => w.dispatch takes run
  | .rerun release succeeds moves =>
      if release ∈ w.releases then w.publish takes release succeeds moves else w

def run (events : List Event) : World := events.foldl (step takes) w

end World

/-- What the differences compare: the numbers, up to one that is too large. -/
def cut : List ℕ → List (WithTop ℚ)
  | [] => []
  | n :: rest => if (Number.round n).size = ⊤ then [⊤] else (Number.round n).size :: cut rest

theorem cut_top {n : ℕ} (h : (Number.round n).size = ⊤) (rest : List ℕ) : cut (n :: rest) = [⊤] := if_pos h

theorem cut_finite {n : ℕ} (h : (Number.round n).size ≠ ⊤) (rest : List ℕ) :
    cut (n :: rest) = (Number.round n).size :: cut rest := if_neg h

theorem cut_cons (n : ℕ) (rest : List ℕ) : ∃ more, cut (n :: rest) = (Number.round n).size :: more := by
  by_cases top : (Number.round n).size = ⊤
  · exact ⟨[], by rw [cut_top top, top]⟩
  · exact ⟨cut rest, cut_finite top rest⟩

theorem difference_behind {a b : List ℕ} (same : a.length = b.length) :
    (difference a b).sign = some (-1) ↔ cut a < cut b := by
  induction a generalizing b with
  | nil =>
      obtain rfl := List.length_eq_zero_iff.mp same.symm
      have zero : (difference [] []).sign = some 0 := Number.sign_eq_zero_iff.mpr rfl
      exact iff_of_false (by rw [zero]; decide) (lt_irrefl _)
  | cons m a ih =>
      cases b with
      | nil => cases same
      | cons n b =>
          have tells := Number.sub_tells m n
          rw [difference]
          by_cases zero : Number.sub (.round m) (.round n) = .round 0
          · -- neither is too large, and they are equal
            obtain ⟨equal, number⟩ := tells.zero_iff.mp (Number.sign_eq_zero_iff.mpr zero)
            have finite : (Number.round m).size ≠ ⊤ := fun top =>
              number (Number.sign_sub_nan_iff.mpr ⟨top, equal ▸ top⟩)
            rw [if_neg (not_not.mpr zero), ih (Nat.succ.inj same), cut_finite finite, cut_finite (equal ▸ finite),
              List.cons_lt_cons_iff, equal]
            simp
          · rw [if_pos zero, tells.below]
            by_cases equal : (Number.round m).size = (Number.round n).size
            · have top : (Number.round m).size = ⊤ := by
                by_contra finite
                refine zero (Number.sign_eq_zero_iff.mp (tells.zero_iff.mpr ⟨equal, fun nan => finite ?_⟩))
                exact (Number.sign_sub_nan_iff.mp nan).1
              rw [cut_top top, cut_top (equal ▸ top)]
              exact iff_of_false (by rw [equal]; exact lt_irrefl _) (lt_irrefl _)
            · obtain ⟨more, is⟩ := cut_cons m a
              obtain ⟨more', is'⟩ := cut_cons n b
              rw [is, is', List.cons_lt_cons_iff]
              simp [equal]

/-- The script would release the one version where the other is the latest. -/
def NotBehind (version latest : String) : Prop := assertNotBehindLatest version (some latest) = .ok ()

theorem length_of_parseXyz {version : String} {numbers : List ℕ} (h : parseXyz version = some numbers) :
    numbers.length = 3 := by
  unfold parseXyz at h
  split at h
  · simp only [Option.bind_eq_bind, Option.bind_eq_some_iff, Option.pure_def, Option.some.injEq] at h
    obtain ⟨x, -, y, -, z, -, rfl⟩ := h
    rfl
  · cases h

theorem notBehind_iff {version latest : String} : NotBehind version latest ↔
    latest = "" ∨ ∃ a b, parseXyz version = some a ∧ parseXyz latest = some b ∧ cut b ≤ cut a := by
  rw [NotBehind, assertNotBehindLatest]
  by_cases none : latest = ""
  · exact iff_of_true (by rw [if_pos none]) (.inl none)
  rw [if_neg none]
  cases is : parseXyz version with
  | none => simp [none]
  | some a =>
      cases is' : parseXyz latest with
      | none => simp [none]
      | some b =>
          have behind := difference_behind ((length_of_parseXyz is).trans (length_of_parseXyz is').symm)
          by_cases older : (difference a b).sign = some (-1)
          · simp [none, older, behind.mp older]
          · simp [none, older, not_lt.mp (mt behind.mpr older)]

theorem NotBehind.trans {a b c : String} (h : NotBehind b a) (h' : NotBehind c b) (version : (parseXyz b).isSome) :
    NotBehind c a := by
  obtain empty | ⟨x, y, is, is', le⟩ := notBehind_iff.mp h
  · exact notBehind_iff.mpr (.inl empty)
  · obtain rfl | ⟨x', y', is₂, is₂', le'⟩ := notBehind_iff.mp h'
    · cases version
    · rw [is] at is₂'
      obtain rfl := Option.some.inj is₂'
      exact notBehind_iff.mpr (.inr ⟨x', y, is₂, is', le.trans le'⟩)

theorem NotBehind.refl {version : String} (h : (parseXyz version).isSome) : NotBehind version version := by
  obtain ⟨a, is⟩ := Option.isSome_iff_exists.mp h
  exact notBehind_iff.mpr (.inr ⟨a, a, is, is, le_rfl⟩)

/-- The characters that versions are written with. -/
def isWritten (c : Char) : Bool := c.isDigit || ".e+-InfityNa".toList.contains c

theorem label_of_isWritten {c : Char} (h : isWritten c = true) : c ≠ '\n' ∧ c ≠ ']' ∧ Text.lower c ≠ 'u' := by
  rcases Bool.or_eq_true_iff.mp h with digit | letter
  · have range : 48 ≤ c.val.toNat ∧ c.val.toNat ≤ 57 := by
      simp only [Char.isDigit, Bool.and_eq_true, decide_eq_true_eq] at digit
      exact ⟨digit.1, digit.2⟩
    have lower : ¬ ('A' ≤ c ∧ c ≤ 'Z') := by
      rintro ⟨low, -⟩
      have low : 65 ≤ c.val.toNat := low
      omega
    have apart : ∀ d : Char, d.val.toNat < 48 ∨ 57 < d.val.toNat → c ≠ d := by
      rintro d outside rfl
      omega
    rw [Text.lower_of_ne (apart _ (by decide)), Text.toLower_of_not_upper lower]
    exact ⟨apart _ (by decide), apart _ (by decide), apart _ (by decide)⟩
  · have all : (".e+-InfityNa".toList.all fun c => c ≠ '\n' && c ≠ ']' && Text.lower c ≠ 'u') = true := by
      decide
    have is := List.all_eq_true.mp all c (List.contains_iff_mem.mp letter)
    simpa [and_assoc] using is

theorem label_of_written {version : String} (h : ∀ c ∈ version.toList, isWritten c = true) : Label version :=
  ⟨fun inside => (label_of_isWritten (h _ inside)).1 rfl, fun inside => (label_of_isWritten (h _ inside)).2.1 rfl,
    fun c first => (label_of_isWritten (h c (List.mem_of_mem_head? first))).2.2⟩

theorem isWritten_of_isDigit {c : Char} (h : c.isDigit = true) : isWritten c = true := by
  rw [isWritten, h, Bool.true_or]

theorem written_text (n : Number) : ∀ c ∈ n.text.toList, isWritten c = true := by
  have nat : ∀ v : ℕ, ∀ c ∈ (Number.textOfNat v).toList, isWritten c = true := by
    intro v c inside
    rcases Number.mem_textOfNat inside with digit | rfl | rfl | rfl
    · exact isWritten_of_isDigit digit
    · decide
    · decide
    · decide
  cases n with
  | nan => exact List.all_eq_true.mp (by decide : ("NaN".toList.all isWritten) = true)
  | infinity negative =>
      cases negative
      · exact List.all_eq_true.mp (by decide : ("Infinity".toList.all isWritten) = true)
      · exact List.all_eq_true.mp (by decide : ("-Infinity".toList.all isWritten) = true)
  | finite value double =>
      intro c inside
      rw [Number.text] at inside
      split at inside
      · have inside : c ∈ ("-" ++ Number.textOfNat value.num.natAbs).toList := inside
        rw [String.toList_append, List.mem_append] at inside
        rcases inside with sign | inside
        · rw [show c = '-' by simpa using sign]
          decide
        · exact nat _ c inside
      · exact nat _ c inside

theorem written_join {x y z : String} (hx : ∀ c ∈ x.toList, isWritten c = true)
    (hy : ∀ c ∈ y.toList, isWritten c = true) (hz : ∀ c ∈ z.toList, isWritten c = true) :
    ∀ c ∈ (Text.join "." [x, y, z]).toList, isWritten c = true := by
  intro c inside
  have inside : c ∈ x.toList ∨ c = '.' ∨ c ∈ y.toList ∨ c = '.' ∨ c ∈ z.toList := by
    simpa [Text.join, or_assoc] using inside
  rcases inside with inside | rfl | inside | rfl | inside
  · exact hx c inside
  · decide
  · exact hy c inside
  · decide
  · exact hz c inside

theorem written_digits {l : List Char} {n : ℕ} (h : Number.digits l = some n) : ∀ c ∈ l, isWritten c = true := by
  unfold Number.digits at h
  split at h
  · rename_i digits
    exact fun c inside => isWritten_of_isDigit (List.all_eq_true.mp digits.2 c inside)
  · cases h

theorem written_of_parseXyz {version : String} {numbers : List ℕ} (h : parseXyz version = some numbers) :
    ∀ c ∈ version.toList, isWritten c = true := by
  unfold parseXyz at h
  split at h
  · rename_i major minor patch pieces
    simp only [Option.bind_eq_bind, Option.bind_eq_some_iff, Option.pure_def, Option.some.injEq] at h
    obtain ⟨x, hx, y, hy, z, hz, -⟩ := h
    have whole : version = Text.join "." [major, minor, patch] := by rw [← pieces, Text.join_split rfl]
    rw [whole]
    exact written_join (written_digits hx) (written_digits hy) (written_digits hz)
  · cases h

theorem label_of_parseXyz {version : String} (h : (parseXyz version).isSome = true) : Label version := by
  obtain ⟨numbers, is⟩ := Option.isSome_iff_exists.mp h
  exact label_of_written (written_of_parseXyz is)

theorem label_of_nextVersion {current bump version : String} (h : nextVersion current bump = .ok version) :
    Label version := by
  have dots : ∀ a b c : Number, Label (dotted a b c) := fun a b c =>
    label_of_written (written_join (written_text a) (written_text b) (written_text c))
  unfold nextVersion at h
  split at h
  · split at h
    · cases h
      exact dots _ _ _
    split at h
    · cases h
      exact dots _ _ _
    split at h
    · cases h
      exact dots _ _ _
    split at h
    · rename_i exact_
      cases h
      exact label_of_parseXyz exact_
    · cases h
  · cases h

structure Beginning where
  doc : Doc
  clean : Changelog.isHeading doc.unreleased.notes = false
  version : String

def Beginning.world (b : Beginning) : World where
  version := b.version
  changelog := b.doc.text
  printed := []
  releases := []
  published := []
  latest := none
  next := none

/-- What a version is to have in the changelog: what preparing it printed last, or what it had before. -/
def Beginning.notes (b : Beginning) (printed : List (String × String)) (version : String) : Except String String :=
  match printed.lookup version with
  | some notes => .ok notes
  | none => releaseNotesForVersion b.doc.text version

structure Shape (b : Beginning) (w : World) (d : Doc) : Prop where
  text : w.changelog = d.text
  clean : Changelog.isHeading d.unreleased.notes = false
  notes : ∀ version, Label version → d.notes version = b.notes w.printed version

def written (d : Doc) (entries : Entries) : Doc where
  intro := d.intro
  plain := d.plain
  unreleased := { d.unreleased with lines := entries.lines, plain := entries.plain }
  isUnreleased := d.isUnreleased
  released := d.released

theorem notes_written (d : Doc) (entries : Entries) {version : String} (label : Label version) :
    (written d entries).notes version = d.notes version := by
  have skipped := not_isHeadingOf_unreleased label d.isUnreleased
  have same : isHeadingOf version (written d entries).unreleased.heading = false := skipped
  exact (notesIn_cons_of_other (written d entries).released same).trans
    (notesIn_cons_of_other d.released skipped).symm

theorem write_text {w : World} {d : Doc} (text : w.changelog = d.text) (entries : Entries) :
    w.write entries = { w with changelog := (written d entries).text } := by
  obtain ⟨at_, -, rest⟩ := d.reads
  have whole : d.lines = d.intro ++ (d.unreleased.heading :: (d.unreleased.lines ++ d.released.flatMap Section.all)) := rfl
  have front : d.lines.take (d.intro.length + 1) = d.intro ++ [d.unreleased.heading] := by
    rw [whole, List.take_length_add_append]
    rfl
  have lines : (written d entries).lines =
      d.intro ++ [d.unreleased.heading] ++ (entries.lines ++ d.released.flatMap Section.all) := by
    simp [Doc.lines, written, Section.all]
  rw [World.write, text, d.split_text, at_]
  simp only [front, rest, Doc.text, lines]

theorem Shape.write {b : Beginning} {w : World} {d : Doc} (h : Shape b w d) (entries : Entries) :
    Shape b (w.write entries) (written d entries) := by
  rw [write_text h.text]
  exact ⟨rfl, entries.clean, fun version label => (notes_written d entries label).trans (h.notes version label)⟩

theorem Shape.prep {b : Beginning} {w : World} {d : Doc} (h : Shape b w d) (bump : String) (date : Day) :
    ∃ d', Shape b (w.prep bump date) d' := by
  unfold World.prep
  split
  · exact ⟨d, h⟩
  · rename_i version next
    have label := label_of_nextVersion next
    rw [h.text, rolloverChangelog_text d h.clean label.oneLine date.oneLine]
    by_cases empty : d.unreleased.notes = ""
    · rw [if_pos empty]
      exact ⟨d, h⟩
    · rw [if_neg empty]
      dsimp only
      split
      · exact ⟨d, h⟩
      · refine ⟨d.release h.clean label.oneLine date.oneLine, rfl, ?_, fun w' label' => ?_⟩
        · exact (by decide : Changelog.isHeading fresh.notes = false)
        · rw [d.notes_release h.clean label label' date.oneLine empty, Beginning.notes, List.lookup_cons]
          by_cases same : w' = version
          · rw [if_pos same, same, beq_self_eq_true]
          · rw [if_neg same, beq_eq_false_iff_ne.mpr same]
            exact h.notes w' label'

section

variable {takes : List String → String → Bool}

theorem publish_eq (w : World) (r : Release) (succeeds : Bool) (moves : List Bool) :
    w.publish takes r succeeds moves = w ∨ (takes w.published r.version = true ∧ succeeds = true ∧
      w.publish takes r succeeds moves = { w with
        published := r.version :: w.published
        latest := if r.tag = .latest then some r.version else w.latest
        next := if r.tag = .next ∨ World.moved moves = true then some r.version else w.next }) := by
  unfold World.publish
  split
  · rename_i goes
    obtain ⟨succeeds, taken⟩ := Bool.and_eq_true_iff.mp goes
    refine .inr ⟨taken, succeeds, ?_⟩
    cases tag : r.tag <;> by_cases moved : World.moved moves = true <;>
      simp [moved, World.setTag, extraNpmTags]
  · exact .inl rfl

theorem prepare_eq_some {w : World} {run : Dispatch} {r : Release} (h : w.prepare run = some r) :
    r.version = w.version ∧ r.tag = run.tag ∧ (parseXyz w.version).isSome = true ∧
      assertNotBehindLatest w.version (if run.lookup then w.latest else none) = .ok () ∧
      releaseNotesForVersion w.changelog w.version = .ok r.notes ∧
      w.version ∉ w.releases.map Release.version ∧ w.version ∉ w.published := by
  unfold World.prepare at h
  split at h
  · rename_i checked
    split at h
    · rename_i current notes
      split at h
      · rename_i unused
        cases h
        obtain ⟨unreleased, unpublished⟩ := Bool.and_eq_true_iff.mp unused
        exact ⟨rfl, rfl, (Bool.and_eq_true_iff.mp checked).2, current, notes,
          of_decide_eq_true (Bool.and_eq_true_iff.mp unreleased).2, of_decide_eq_true unpublished⟩
      · cases h
    · cases h
  · cases h

theorem dispatch_eq (w : World) (run : Dispatch) : w.dispatch takes run = w ∨ ∃ r, w.prepare run = some r ∧
    w.dispatch takes run = ({ w with releases := r :: w.releases } : World).publish takes r run.publish run.moves := by
  unfold World.dispatch
  cases prepared : w.prepare run with
  | none => exact .inl rfl
  | some r =>
      dsimp only
      split
      · exact .inl rfl
      · exact .inr ⟨r, rfl, rfl⟩

theorem publish_branch (w : World) (r : Release) (succeeds : Bool) (moves : List Bool) :
    (w.publish takes r succeeds moves).changelog = w.changelog ∧ (w.publish takes r succeeds moves).printed = w.printed ∧
      (w.publish takes r succeeds moves).releases = w.releases := by
  rcases publish_eq w r succeeds moves with is | ⟨-, -, is⟩ <;> rw [is] <;> exact ⟨rfl, rfl, rfl⟩

theorem notes_ne_empty {text version notes : String} (h : releaseNotesForVersion text version = .ok notes) :
    notes ≠ "" := by
  unfold releaseNotesForVersion at h
  dsimp only at h
  split at h
  · cases h
  · split at h
    · cases h
    · rename_i some_
      cases h
      exact some_

/-- What holds of the releases and of the registry. -/
structure Registry (b : Beginning) (w : World) : Prop where
  once : (w.releases.map Release.version).Nodup
  released : ∀ version ∈ w.published, ∃ r ∈ w.releases, r.version = version
  notes : ∀ r ∈ w.releases, (parseXyz r.version).isSome = true ∧ r.notes ≠ "" ∧
    ((r.version, r.notes) ∈ w.printed ∨ releaseNotesForVersion b.doc.text r.version = .ok r.notes)

theorem Registry.publish {b : Beginning} {w : World} (h : Registry b w) {r : Release} (there : r ∈ w.releases)
    (succeeds : Bool) (moves : List Bool) : Registry b (w.publish takes r succeeds moves) := by
  rcases publish_eq w r succeeds moves with is | ⟨-, -, is⟩
  · rw [is]
    exact h
  · rw [is]
    refine ⟨h.once, fun version member => ?_, h.notes⟩
    rcases List.mem_cons.mp member with rfl | before
    · exact ⟨r, there, rfl⟩
    · exact h.released version before

theorem Registry.release {b : Beginning} {w : World} {d : Doc} (h : Registry b w) (shape : Shape b w d)
    {run : Dispatch} {r : Release} (prepared : w.prepare run = some r) :
    Registry b { w with releases := r :: w.releases } := by
  obtain ⟨version, -, xyz, -, notes, unused, -⟩ := prepare_eq_some prepared
  have origin : (r.version, r.notes) ∈ w.printed ∨ releaseNotesForVersion b.doc.text r.version = .ok r.notes := by
    rw [shape.text, releaseNotesForVersion_text, shape.notes _ (label_of_parseXyz xyz), Beginning.notes] at notes
    rw [version]
    cases printed : w.printed.lookup w.version with
    | none =>
        rw [printed] at notes
        exact .inr notes
    | some text =>
        rw [printed] at notes
        cases notes
        obtain ⟨front, back, is, -⟩ := List.lookup_eq_some_iff.mp printed
        exact .inl (by rw [is]; exact List.mem_append_right _ List.mem_cons_self)
  refine ⟨List.nodup_cons.mpr ⟨by rw [version]; exact unused, h.once⟩, fun v member => ?_, ?_⟩
  · obtain ⟨r', inside, is⟩ := h.released v member
    exact ⟨r', List.mem_cons_of_mem _ inside, is⟩
  · intro r' member
    rcases List.mem_cons.mp member with rfl | before
    · exact ⟨by rw [version]; exact xyz, notes_ne_empty notes, origin⟩
    · exact h.notes r' before

/-- The changelog of some sections, and a registry that agrees with it. -/
def Sound (b : Beginning) (w : World) : Prop := (∃ d, Shape b w d) ∧ Registry b w

theorem Sound.publish {b : Beginning} {w : World} (h : Sound b w) {r : Release} (there : r ∈ w.releases)
    (succeeds : Bool) (moves : List Bool) : Sound b (w.publish takes r succeeds moves) := by
  obtain ⟨⟨d, shape⟩, registry⟩ := h
  obtain ⟨changelog, printed, -⟩ := publish_branch w r succeeds moves
  refine ⟨⟨d, changelog.trans shape.text, shape.clean, ?_⟩, registry.publish there succeeds moves⟩
  rw [printed]
  exact shape.notes

theorem Sound.step {b : Beginning} {w : World} (h : Sound b w) (e : Event) : Sound b (w.step takes e) := by
  obtain ⟨⟨d, shape⟩, registry⟩ := h
  cases e with
  | write entries =>
      refine ⟨⟨_, shape.write entries⟩, ?_⟩
      change Registry b (w.write entries)
      rw [write_text shape.text]
      exact ⟨registry.once, registry.released, registry.notes⟩
  | edit version =>
      exact ⟨⟨d, shape.text, shape.clean, shape.notes⟩, registry.once, registry.released, registry.notes⟩
  | prep bump date =>
      refine ⟨shape.prep bump date, ?_⟩
      change Registry b (w.prep bump date)
      unfold World.prep
      split
      · exact registry
      · split
        · exact registry
        · split
          · exact registry
          · refine ⟨registry.once, registry.released, fun r member => ?_⟩
            obtain ⟨xyz, some_, origin⟩ := registry.notes r member
            exact ⟨xyz, some_, origin.imp (List.mem_cons_of_mem _) id⟩
  | dispatch run =>
      change Sound b (w.dispatch takes run)
      rcases dispatch_eq w run with is | ⟨r, prepared, is⟩
      · rw [is]
        exact ⟨⟨d, shape⟩, registry⟩
      · have there : Sound b { w with releases := r :: w.releases } :=
          ⟨⟨d, shape.text, shape.clean, shape.notes⟩, registry.release shape prepared⟩
        rw [is]
        exact there.publish List.mem_cons_self _ _
  | rerun r succeeds moves =>
      change Sound b (if r ∈ w.releases then w.publish takes r succeeds moves else w)
      split
      · rename_i there
        exact Sound.publish ⟨⟨d, shape⟩, registry⟩ there succeeds moves
      · exact ⟨⟨d, shape⟩, registry⟩

theorem Sound.run {b : Beginning} {w : World} (h : Sound b w) (events : List Event) : Sound b (w.run takes events) := by
  induction events generalizing w with
  | nil => exact h
  | cons e events ih => exact ih (h.step e)

theorem Beginning.sound (b : Beginning) : Sound b b.world := by
  refine ⟨⟨b.doc, rfl, b.clean, fun version label => ?_⟩, List.nodup_nil, nofun, nofun⟩
  rw [Beginning.notes, releaseNotesForVersion_text]
  rfl

/-- The registry takes no version that it has. -/
def Refuses (takes : List String → String → Bool) : Prop :=
  ∀ published version, version ∈ published → takes published version = false

def Event.isRerun : Event → Bool
  | .rerun _ _ _ => true
  | _ => false

theorem nodup_publish {w : World} (h : w.published.Nodup) {r : Release} {succeeds : Bool} {moves : List Bool}
    (unpublished : takes w.published r.version = true → r.version ∉ w.published) :
    (w.publish takes r succeeds moves).published.Nodup := by
  rcases @publish_eq takes w r succeeds moves with is | ⟨taken, -, is⟩ <;> rw [is]
  · exact h
  · exact List.nodup_cons.mpr ⟨unpublished taken, h⟩

theorem nodup_step {w : World} (h : w.published.Nodup) {e : Event}
    (refuses : e.isRerun = true → Refuses takes) : (w.step takes e).published.Nodup := by
  cases e with
  | write entries =>
      change (w.write entries).published.Nodup
      rw [World.write]
      split <;> exact h
  | edit version => exact h
  | prep bump date =>
      change (w.prep bump date).published.Nodup
      unfold World.prep
      split
      · exact h
      · split
        · exact h
        · split <;> exact h
  | dispatch run =>
      change (w.dispatch takes run).published.Nodup
      rcases @dispatch_eq takes w run with is | ⟨r, prepared, is⟩ <;> rw [is]
      · exact h
      · obtain ⟨version, -, -, -, -, -, unpublished⟩ := prepare_eq_some prepared
        exact @nodup_publish takes { w with releases := r :: w.releases } h _ _ _ fun _ => version ▸ unpublished
  | rerun r succeeds moves =>
      change (if r ∈ w.releases then w.publish takes r succeeds moves else w).published.Nodup
      split
      · refine nodup_publish h fun taken there => ?_
        rw [refuses rfl _ _ there] at taken
        cases taken
      · exact h

theorem nodup_run {w : World} (h : w.published.Nodup) {events : List Event}
    (refuses : events.any Event.isRerun = true → Refuses takes) : (w.run takes events).published.Nodup := by
  induction events generalizing w with
  | nil => exact h
  | cons e events ih =>
      rw [List.any_cons, Bool.or_eq_true] at refuses
      exact ih (nodup_step h fun again => refuses (.inl again)) fun again => refuses (.inr again)

/-- The latest version is looked up, the trailing tag is moved, and no job is run again. -/
def Orderly : Event → Prop
  | .dispatch run => run.lookup = true ∧ (run.tag = .latest → run.publish = true → World.moved run.moves = true)
  | .rerun _ _ _ => False
  | _ => True

structure Ordered (w : World) : Prop where
  latest : ∀ latest, w.latest = some latest → (parseXyz latest).isSome = true
  next : ∀ latest, w.latest = some latest → ∃ next, w.next = some next ∧ NotBehind next latest

/-- The latest version of the second is not behind that of the first. -/
def Follows (w t : World) : Prop :=
  ∀ old, w.latest = some old → ∃ latest, t.latest = some latest ∧ NotBehind latest old

theorem Ordered.follows {w : World} (h : Ordered w) : Follows w w := fun old is =>
  ⟨old, is, NotBehind.refl (h.latest old is)⟩

theorem Follows.of_latest {w t t' : World} (h : Follows w t) (same : t'.latest = t.latest) : Follows w t' := by
  intro old is
  rw [same]
  exact h old is

theorem Ordered.of_tags {w t : World} (h : Ordered w) (latest : t.latest = w.latest) (next : t.next = w.next) :
    Ordered t := by
  refine ⟨fun l is => h.latest l (latest ▸ is), fun l is => ?_⟩
  rw [next]
  exact h.next l (latest ▸ is)

theorem Ordered.dispatch {w : World} (h : Ordered w) {run : Dispatch} (orderly : Orderly (.dispatch run)) :
    Ordered (w.dispatch takes run) ∧ Follows w (w.dispatch takes run) := by
  rcases dispatch_eq w run with is | ⟨r, prepared, is⟩
  · rw [is]
    exact ⟨h, h.follows⟩
  obtain ⟨version, tag, xyz, current, -, -, -⟩ := prepare_eq_some prepared
  rw [if_pos orderly.1] at current
  rw [is]
  rcases publish_eq ({ w with releases := r :: w.releases } : World) r run.publish run.moves with
    is | ⟨-, succeeds, is⟩
  · rw [is]
    exact ⟨h.of_tags rfl rfl, h.follows.of_latest rfl⟩
  rw [is, version, tag]
  have notBehind : ∀ latest, w.latest = some latest → NotBehind w.version latest := by
    intro latest is
    rwa [is] at current
  cases asked : run.tag with
  | next =>
      refine ⟨⟨h.latest, fun latest is => ⟨w.version, rfl, notBehind latest is⟩⟩, h.follows.of_latest rfl⟩
  | latest =>
      have moved := orderly.2 asked succeeds
      refine ⟨⟨fun latest is => ?_, fun latest is => ?_⟩, fun old was => ⟨w.version, rfl, notBehind old was⟩⟩
      · cases is
        exact xyz
      · cases is
        exact ⟨w.version, by simp [moved], NotBehind.refl xyz⟩

theorem Ordered.step {w : World} (h : Ordered w) {e : Event} (orderly : Orderly e) :
    Ordered (w.step takes e) ∧ Follows w (w.step takes e) := by
  have kept : ∀ t : World, t.latest = w.latest → t.next = w.next → Ordered t ∧ Follows w t := fun t latest next =>
    ⟨h.of_tags latest next, h.follows.of_latest latest⟩
  cases e with
  | write entries =>
      change Ordered (w.write entries) ∧ Follows w (w.write entries)
      rw [World.write]
      split
      · exact kept _ rfl rfl
      · exact kept _ rfl rfl
  | edit version => exact kept _ rfl rfl
  | prep bump date =>
      change Ordered (w.prep bump date) ∧ Follows w (w.prep bump date)
      unfold World.prep
      split
      · exact kept _ rfl rfl
      · split
        · exact kept _ rfl rfl
        · split
          · exact kept _ rfl rfl
          · exact kept _ rfl rfl
  | dispatch run => exact h.dispatch orderly
  | rerun r succeeds moves => exact orderly.elim

theorem Ordered.run {w : World} (h : Ordered w) {events : List Event} (orderly : ∀ e ∈ events, Orderly e) :
    Ordered (w.run takes events) ∧ Follows w (w.run takes events) := by
  induction events generalizing w with
  | nil => exact ⟨h, h.follows⟩
  | cons e events ih =>
      rw [List.forall_mem_cons] at orderly
      obtain ⟨ordered, follows⟩ := h.step orderly.1
      obtain ⟨ordered', follows'⟩ := ih ordered orderly.2
      refine ⟨ordered', fun old is => ?_⟩
      obtain ⟨between, there, notBehind⟩ := follows old is
      obtain ⟨latest, now, notBehind'⟩ := follows' between there
      exact ⟨latest, now, notBehind.trans notBehind' (ordered.latest between there)⟩

end

/-- What a history of edits, preparations and workflow runs leaves. -/
structure Publishes (takes : List String → String → Bool) (b : Beginning) (events : List Event) : Prop where
  once : ((b.world.run takes events).releases.map Release.version).Nodup
  /-- A job that is run again relies on the registry. -/
  published : (events.any Event.isRerun = true → Refuses takes) → (b.world.run takes events).published.Nodup
  released : ∀ version ∈ (b.world.run takes events).published, ∃ r ∈ (b.world.run takes events).releases, r.version = version
  notes : ∀ r ∈ (b.world.run takes events).releases, (parseXyz r.version).isSome = true ∧ r.notes ≠ "" ∧
    ((r.version, r.notes) ∈ (b.world.run takes events).printed ∨
      releaseNotesForVersion b.doc.text r.version = .ok r.notes)
  changelog : ∀ version, Label version → releaseNotesForVersion (b.world.run takes events).changelog version =
    b.notes (b.world.run takes events).printed version
  next : (∀ e ∈ events, Orderly e) → ∀ latest, (b.world.run takes events).latest = some latest →
    ∃ next, (b.world.run takes events).next = some next ∧ NotBehind next latest
  latest : (∀ e ∈ events, Orderly e) → ∀ front back, events = front ++ back →
    Follows (b.world.run takes front) (b.world.run takes events)

/-- Whatever is written, prepared, dispatched and run again, a version is published at most once, its release
has the notes that preparing it printed, and the changelog keeps the notes of every version; while the
workflow can look up and move tags, the latest version never falls back and the next is not behind it. -/
theorem publishes (takes : List String → String → Bool) (b : Beginning) (events : List Event) :
    Publishes takes b events := by
  obtain ⟨⟨d, shape⟩, registry⟩ := b.sound.run events
  have first : Ordered b.world := ⟨nofun, nofun⟩
  refine ⟨registry.once, fun refuses => nodup_run List.nodup_nil refuses, registry.released, registry.notes, fun version label => ?_,
    fun orderly => (first.run orderly).1.next, fun orderly front back parts => ?_⟩
  · rw [shape.text, releaseNotesForVersion_text]
    exact shape.notes version label
  · rw [parts] at orderly ⊢
    obtain ⟨before, behind⟩ := List.forall_mem_append.mp orderly
    have parted : b.world.run takes (front ++ back) = (b.world.run takes front).run takes back := List.foldl_append
    rw [parted]
    exact ((first.run before).1.run behind).2

theorem plain_of_all {lines : List String} (h : (lines.all fun l => !isHeading l && '\n' ∉ l.toList) = true) :
    ∀ line ∈ lines, Plain line := by
  intro line member
  obtain ⟨noHeading, oneLine⟩ := Bool.and_eq_true_iff.mp (List.all_eq_true.mp h line member)
  exact ⟨Bool.not_eq_true' _ ▸ noHeading, of_decide_eq_true oneLine⟩

def beginning : Beginning where
  doc :=
    { intro := ["# Changelog", ""]
      plain := plain_of_all (by decide +kernel)
      unreleased :=
        { fresh with
          lines := ["", "- a fix", ""]
          plain := plain_of_all (by decide +kernel) }
      isUnreleased := by decide +kernel
      released := [] }
  clean := by decide +kernel
  version := "0.5.6"

/-- A patch is prepared, published, and its job run again. -/
def patched : List Event :=
  [.prep "patch" ⟨"2026-01-02", by decide⟩,
    .dispatch
      { tag := .next, dryRun := false, gates := true, lookup := true, targets := true, create := true, publish := true
        moves := [] },
    .rerun ⟨"0.5.7", "- a fix", .next⟩ true []]

theorem publishes_patched : (beginning.world.run (fun published version => version ∉ published) patched).published.Nodup ∧
    ∃ r ∈ (beginning.world.run (fun published version => version ∉ published) patched).releases,
      r.version = "0.5.7" ∧ r.notes ≠ "" := by
  have shipped := publishes (fun published version => version ∉ published) beginning patched
  obtain ⟨r, released, is⟩ := shipped.released "0.5.7" (by decide +kernel)
  exact ⟨shipped.published fun _ published version there => decide_eq_false (not_not.mpr there), r, released, is,
    (shipped.notes r released).2.1⟩

end Quickchr.Releases
