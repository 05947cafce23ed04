import Quickchr.ConsoleOutput
import Quickchr.LegLedger
import Quickchr.Lib.Marker

/-!
# Check runs of a leg

A leg reports its progress in a check run, and its heartbeat in another one. Both carry a block of JSON
between two markers, and the aggregate tells them apart by their external ids.
-/
namespace Quickchr.CheckRuns

open LegLedger

structure LegIdentity where
  platform : String
  target : String
  resolved : Option String
  accel : Option String
  sha : String
  run_id : String
  attempt : String

def externalId (leg : LegIdentity) : String :=
  Text.join "/" [leg.run_id, leg.attempt, leg.platform, leg.target]

def heartbeatExternalId (leg : LegIdentity) : String :=
  Text.join "/" [leg.run_id, leg.attempt, leg.platform, leg.target, "hb"]

structure ExternalId where
  run_id : String
  attempt : String
  platform : String
  target : String
  deriving DecidableEq

def parseExternalId (id : Option String) : Option ExternalId :=
  match id.filter (· ≠ "") with
  | none => none
  | some id =>
      match Text.split id '/' with
      | [run_id, attempt, platform, target] =>
          if run_id = "" ∨ attempt = "" ∨ platform = "" ∨ target = "" then none
          else some { run_id, attempt, platform, target }
      | _ => none

/-- A part of an identity that is there and has no separator. -/
def Part (part : String) : Prop := part ≠ "" ∧ '/' ∉ part.toList

/-- What an identity of a leg is read back as. -/
def LegIdentity.external (leg : LegIdentity) : ExternalId where
  run_id := leg.run_id
  attempt := leg.attempt
  platform := leg.platform
  target := leg.target

structure LegIdentity.Plain (leg : LegIdentity) : Prop where
  run_id : Part leg.run_id
  attempt : Part leg.attempt
  platform : Part leg.platform
  target : Part leg.target

/-- `JSON.stringify` and `JSON.parse` of what a block holds. Nothing that ends before the text of an object
does is a text of JSON. -/
structure Codec (β α : Type) where
  stringify : β → String
  parse : String → Option α
  view : β → α
  parse_stringify : ∀ b, parse (stringify b) = some (view b)
  bounded : ∀ b, Text.trim (stringify b) = stringify b
  cut : ∀ b front back, (stringify b).toList = front ++ back → back ≠ [] →
    parse (Text.trim (String.ofList front)) = none

def writeBlock (opens json : String) : String := opens ++ "\n" ++ json ++ "\n" ++ PAYLOAD_CLOSE

/-- `parsePayload`, by the marker that the block begins with. -/
def readBlock {α : Type} (opens : String) (parse : String → Option α) (text : Option String) : Option α :=
  match text with
  | none => none
  | some text =>
      if text = "" then none
      else
        match Text.indexOf opens.toList text.toList with
        | none => none
        | some start =>
            let block := text.toList.drop start
            match Text.indexOf PAYLOAD_CLOSE.toList block with
            | none => none
            | some stop => parse (Text.trim (String.ofList ((block.take stop).drop opens.toList.length)))

theorem parsePayload_eq (parse : String → Option Payload) : parsePayload parse = readBlock PAYLOAD_OPEN parse := rfl

structure Opens (opens : String) : Prop where
  filled : opens ≠ ""
  line : '\n' ∉ opens.toList
  no_close : ¬ PAYLOAD_CLOSE.toList <:+: opens.toList

/-- Exactly the identities that have four parts are read, each as itself. -/
theorem parseExternalId_eq_some_iff {id : String} {e : ExternalId} : parseExternalId (some id) = some e ↔
    (Part e.run_id ∧ Part e.attempt ∧ Part e.platform ∧ Part e.target) ∧
      id = Text.join "/" [e.run_id, e.attempt, e.platform, e.target] := by
  have slash : "/".toList = ['/'] := rfl
  constructor
  · intro reads
    unfold parseExternalId at reads
    split at reads
    · cases reads
    rename_i id' is
    obtain ⟨same, -⟩ := Option.filter_eq_some_iff.mp is
    cases same
    split at reads
    · rename_i run_id attempt platform target pieces
      split at reads
      · cases reads
      rename_i filled
      cases reads
      simp only [not_or] at filled
      have clean : ∀ part ∈ [run_id, attempt, platform, target], '/' ∉ part.toList :=
        fun part member => Text.not_mem_of_mem_split (pieces ▸ member)
      simp only [List.forall_mem_cons] at clean
      refine ⟨⟨⟨filled.1, clean.1⟩, ⟨filled.2.1, clean.2.1⟩, ⟨filled.2.2.1, clean.2.2.1⟩, ⟨filled.2.2.2, clean.2.2.2.1⟩⟩, ?_⟩
      rw [← pieces]
      exact (Text.join_split slash).symm
    · cases reads
  · rintro ⟨⟨run_id, attempt, platform, target⟩, rfl⟩
    have pieces := @Text.split_join [e.run_id, e.attempt, e.platform, e.target] "/" '/' slash
      (by simp [run_id.2, attempt.2, platform.2, target.2]) (List.cons_ne_nil _ _)
    have filled : Text.join "/" [e.run_id, e.attempt, e.platform, e.target] ≠ "" := by
      intro empty
      rw [empty] at pieces
      have one : Text.split "" '/' = [""] := rfl
      rw [one] at pieces
      exact absurd (congrArg List.length pieces) (by simp)
    unfold parseExternalId
    rw [Option.filter_some, if_pos (decide_eq_true filled)]
    dsimp only
    rw [pieces]
    simp [run_id.1, attempt.1, platform.1, target.1]

theorem parseExternalId_externalId {leg : LegIdentity} (plain : leg.Plain) :
    parseExternalId (some (externalId leg)) = some leg.external :=
  parseExternalId_eq_some_iff.mpr ⟨⟨plain.run_id, plain.attempt, plain.platform, plain.target⟩, rfl⟩

/-- No heartbeat is taken for a checkpoint, whatever the leg is called. -/
theorem parseExternalId_heartbeat (leg : LegIdentity) : parseExternalId (some (heartbeatExternalId leg)) = none := by
  cases reads : parseExternalId (some (heartbeatExternalId leg)) with
  | none => rfl
  | some e =>
      obtain ⟨⟨run_id, attempt, platform, target⟩, same⟩ := parseExternalId_eq_some_iff.mp reads
      have slashes := congrArg (fun id => id.toList.count '/') same
      simp only [heartbeatExternalId, Text.join, String.toList_intercalate] at slashes
      have four := List.count_eq_zero_of_not_mem run_id.2
      have three := List.count_eq_zero_of_not_mem attempt.2
      have two := List.count_eq_zero_of_not_mem platform.2
      have one := List.count_eq_zero_of_not_mem target.2
      simp [List.intercalate, List.intersperse, four, three, two, one] at slashes
      omega

theorem toList_writeBlock (opens json : String) : (writeBlock opens json).toList =
    opens.toList ++ '\n' :: (json.toList ++ '\n' :: PAYLOAD_CLOSE.toList) := by
  simp [writeBlock]

theorem readBlock_writeBlock {α : Type} {opens : String} (marks : Opens opens) (parse : String → Option α)
    {json : String} {k : ℕ}
    (stop : Text.indexOf PAYLOAD_CLOSE.toList (json.toList ++ '\n' :: PAYLOAD_CLOSE.toList) = some k) :
    readBlock opens parse (some (writeBlock opens json)) =
      parse (Text.trim (String.ofList ((json.toList ++ '\n' :: PAYLOAD_CLOSE.toList).take k))) := by
  have line : '\n' ∉ PAYLOAD_CLOSE.toList := by decide
  have close : PAYLOAD_CLOSE.toList ≠ [] := by decide
  have filled : opens.toList ≠ [] := fun none => marks.filled (String.toList_inj.mp none)
  have written : writeBlock opens json ≠ "" := by
    intro empty
    have none := congrArg String.toList empty
    rw [toList_writeBlock] at none
    exact filled (List.append_eq_nil_iff.mp none).1
  have start : Text.indexOf opens.toList (writeBlock opens json).toList = some 0 := by
    rw [toList_writeBlock]
    exact Marker.indexOf_self_append filled
  have stop' : Text.indexOf PAYLOAD_CLOSE.toList (writeBlock opens json).toList =
      some (k + (opens.toList.length + 1)) := by
    rw [toList_writeBlock, Marker.indexOf_append_cons line close marks.no_close, stop]
    rfl
  have newline : ConsoleOutput.ink ['\n'] = [] := by decide
  have inside : ((writeBlock opens json).toList.take (k + (opens.toList.length + 1))).drop opens.toList.length =
      ['\n'] ++ (json.toList ++ '\n' :: PAYLOAD_CLOSE.toList).take k := by
    rw [toList_writeBlock, List.take_append, List.drop_append, List.take_of_length_le (by omega), List.drop_length,
      show k + (opens.toList.length + 1) - opens.toList.length = k + 1 by omega, Nat.sub_self]
    rfl
  unfold readBlock
  dsimp only
  rw [if_neg written, start]
  dsimp only
  rw [List.drop_zero, stop']
  dsimp only
  rw [inside, ← List.append_nil (['\n'] ++ _), ConsoleOutput.trim_spaces newline _ rfl]

/-- A block is read as what was written just when the text does not hold the mark of its end. -/
theorem readBlock_writeBlock_iff {β α : Type} {opens : String} (marks : Opens opens) (codec : Codec β α) (b : β) :
    readBlock opens codec.parse (some (writeBlock opens (codec.stringify b))) = some (codec.view b) ↔
      ¬ PAYLOAD_CLOSE.toList <:+: (codec.stringify b).toList := by
  generalize whole : codec.stringify b = json
  cases found : Text.indexOf PAYLOAD_CLOSE.toList json.toList with
  | none =>
      have lacks := Text.indexOf_eq_none.mp found
      have stop : Text.indexOf PAYLOAD_CLOSE.toList (json.toList ++ '\n' :: PAYLOAD_CLOSE.toList) =
          some (json.toList.length + 1) := by
        have self := @Marker.indexOf_self_append PAYLOAD_CLOSE.toList [] (by decide)
        rw [List.append_nil] at self
        rw [Marker.indexOf_append_cons (by decide) (by decide) lacks, self, Option.map_some, Nat.zero_add]
      have newline : ConsoleOutput.ink ['\n'] = [] := by decide
      have text : (json.toList ++ '\n' :: PAYLOAD_CLOSE.toList).take (json.toList.length + 1) =
          [] ++ json.toList ++ ['\n'] := by
        rw [List.take_append, List.take_of_length_le (by omega), Nat.add_sub_cancel_left]
        rfl
      rw [readBlock_writeBlock marks codec.parse stop, text, ConsoleOutput.trim_spaces rfl _ newline, String.ofList_toList,
        ← whole, codec.bounded, codec.parse_stringify]
      rw [← whole] at lacks
      exact iff_of_true rfl lacks
  | some i =>
      have inside := Text.infix_of_indexOf found
      rw [readBlock_writeBlock marks codec.parse (Marker.indexOf_append_of_some found)]
      refine iff_of_false ?_ (not_not.mpr inside)
      have behind : json.toList.drop i ≠ [] := by
        intro none
        have here := Marker.prefix_of_indexOf found
        rw [none] at here
        exact absurd (List.prefix_nil.mp here) (by decide)
      have early : i ≤ json.toList.length := by
        by_contra late
        exact behind (List.drop_of_length_le (by omega))
      have broken := codec.cut b (json.toList.take i) (json.toList.drop i)
        (by rw [whole, List.take_append_drop]) behind
      rw [List.take_append_of_le_length early, broken]
      simp

end Quickchr.CheckRuns
