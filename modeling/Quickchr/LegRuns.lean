import Quickchr.CheckRuns
import Quickchr.Lib.Transition
import Mathlib.Data.Countable.Basic
import Mathlib.Logic.Equiv.List

/-!
# The legs of one run

Every leg of a plan reports from its own runner to a server, and any call may be lost with or without effect. A
runner that is lost makes no more calls. The aggregate reads the server's check runs, among them those of
heartbeats and of other runs, and builds the ledger.
-/
namespace Quickchr.LegRuns

open CheckRuns LegLedger

deriving instance DecidableEq for PlannedLeg

structure DuplicateLegs where
  platform : String
  resolved : String
  targets : List String

/-- The legs by their keys, in the order they are dispatched. -/
def groups (legs : List PlannedLeg) : Record (List PlannedLeg) :=
  legs.foldl (fun groups leg =>
    let key := plannedLegKey leg
    match groups.get key with
    | some group => groups.set key (group ++ [leg])
    | none => groups.set key [leg]) []

def findDuplicateLegs (legs : List PlannedLeg) : List DuplicateLegs :=
  (sortedKeys (groups legs)).filterMap fun key =>
    match ((groups legs).get key).getD [] with
    | first :: second :: rest => some
        { platform := first.id
          resolved := first.resolved.getD first.target
          targets := (first :: second :: rest).map (·.target) }
    | _ => none

def sharing (legs : List PlannedLeg) (key : String) : List PlannedLeg := legs.filter fun leg => plannedLegKey leg = key

theorem get_groups (legs : List PlannedLeg) (key : String) :
    (groups legs).get key = if sharing legs key = [] then none else some (sharing legs key) := by
  induction legs using List.reverseRecOn with
  | nil => rfl
  | append_singleton legs leg ih =>
      have own : sharing (legs ++ [leg]) key = sharing legs key ++ if plannedLegKey leg = key then [leg] else [] := by
        rw [sharing, List.filter_append, List.filter_singleton]
        by_cases same : plannedLegKey leg = key <;> simp [same, sharing]
      have last : groups (legs ++ [leg]) = (groups legs).set (plannedLegKey leg)
          (((groups legs).get (plannedLegKey leg)).getD [] ++ [leg]) := by
        rw [groups, List.foldl_append, ← groups, List.foldl_cons, List.foldl_nil]
        dsimp only
        cases (groups legs).get (plannedLegKey leg) <;> rfl
      rw [last, own]
      by_cases same : plannedLegKey leg = key
      · subst same
        rw [Record.get_set_self, ih, if_pos rfl]
        by_cases none : sharing legs (plannedLegKey leg) = [] <;> simp [none]
      · rw [Record.get_set_ne _ _ _ (Ne.symm same), ih, if_neg same, List.append_nil]

theorem group_eq (legs : List PlannedLeg) (key : String) : ((groups legs).get key).getD [] = sharing legs key := by
  rw [get_groups]
  split
  · rename_i none
    exact none.symm
  · rfl

theorem sharing_of_not_mem {legs : List PlannedLeg} {key : String} (h : key ∉ sortedKeys (groups legs)) :
    sharing legs key = [] := by
  have missing := Record.get_eq_none.mpr fun member => h (mem_sortedKeys.mpr member)
  rw [← group_eq, missing]
  rfl

theorem findDuplicateLegs_eq_nil_iff (legs : List PlannedLeg) :
    findDuplicateLegs legs = [] ↔ (legs.map plannedLegKey).Nodup := by
  have count (key : String) : (legs.map plannedLegKey).count key = (sharing legs key).length := by
    rw [List.count, List.countP_map, List.countP_eq_length_filter, sharing]
    congr 2
  rw [findDuplicateLegs, List.filterMap_eq_nil_iff, List.nodup_iff_count_le_one]
  simp only [group_eq, count]
  constructor
  · intro single key
    by_cases listed : key ∈ sortedKeys (groups legs)
    · have one := single key listed
      split at one
      · cases one
      · rename_i few
        match whole : sharing legs key with
        | [] => exact Nat.zero_le 1
        | [leg] => exact Nat.le_refl 1
        | first :: second :: rest => exact absurd whole (few first second rest)
    · rw [sharing_of_not_mem listed]
      exact Nat.zero_le 1
  · intro few key _
    split
    · rename_i first second rest whole
      have many := few key
      rw [whole] at many
      simp at many
    · rfl

section Checkpoint

variable {Host : Type}

/-- One file's end, as the loop observed it. -/
structure FileRecord (Host : Type) extends CheckpointRecord where
  index : ℕ
  outcome : String
  duration_s : Option ℤ
  cap_s : Option Number
  host : Option Host

structure CheckpointState (Host : Type) where
  checkRunId : Option ℕ
  leg : LegIdentity
  planned : List String
  startedAt : String
  records : List (FileRecord Host)

def CheckpointState.current (state : CheckpointState Host) : Option String := state.planned[state.records.length]?

/-- What the aggregate uses of the payload. -/
def CheckpointState.payload (state : CheckpointState Host) : Payload where
  planned := some state.planned
  records := some (state.records.map (·.toCheckpointRecord))
  current := state.current

/-- How a state is written, and what the host columns of a row are. -/
structure Blocks (Host : Type) extends Codec (CheckpointState Host) Payload where
  view_eq : ∀ state, view state = state.payload
  hostColumns : Option Host → String

def row (blocks : Blocks Host) (total : ℕ) (record : FileRecord Host) : String :=
  s!"| {record.index}/{total} | `" ++ record.file ++ "` | " ++ record.outcome ++ " | " ++
    record.duration_s.elim "?" toString ++ "s | " ++ record.cap_s.elim "—" Number.text ++ " | " ++
    blocks.hostColumns record.host

def renderOutput (blocks : Blocks Host) (state : CheckpointState Host) : Output :=
  let done := state.records.length
  let total := state.planned.length
  let running := state.current.filter (· ≠ "")
  { title := match running with
      | some current => s!"{done}/{total} done — running {current}"
      | none => s!"{done}/{total} files reported"
    summary := Text.join "\n"
      (["**" ++ state.leg.platform ++ " · " ++ state.leg.target ++ "**" ++
          (state.leg.resolved.filter (· ≠ "")).elim "" fun resolved => " (" ++ resolved ++ ")",
        "accel `" ++ state.leg.accel.getD "?" ++ "` · run " ++ state.leg.run_id ++ " attempt " ++ state.leg.attempt ++
          " · started " ++ state.startedAt,
        "",
        match running with
        | some current => "Currently running `" ++ current ++
            "`. **If this check never completes, the runner was lost here.**"
        | none => "All planned files reported.",
        "",
        "| # | file | outcome | duration | cap | free mem | load | qemu |",
        "|---|------|---------|----------|-----|----------|------|------|"] ++
        state.records.map (row blocks total))
    text := some (writeBlock PAYLOAD_OPEN (blocks.stringify state)) }

def tally (n : ℕ) : String := String.ofList ('{' :: (List.replicate n '1' ++ ['}']))

theorem tally_inj {n m : ℕ} (same : tally n = tally m) : n = m := by
  have lengths := congrArg (fun s => s.toList.length) same
  simpa [tally] using lengths

theorem not_tally {front back : List Char} {n m : ℕ} (cut : (tally n).toList = front ++ back) (behind : back ≠ []) :
    Text.trim (String.ofList front) ≠ tally m := by
  intro whole
  have closes : '}' ∈ (tally m).toList := by simp [tally]
  rw [← whole] at closes
  have inside := Text.mem_of_mem_trim closes
  rw [String.toList_ofList] at inside
  obtain ⟨rest, last, rfl⟩ : ∃ rest last, back = rest ++ [last] := ⟨_, _, (List.dropLast_append_getLast behind).symm⟩
  rw [tally, String.toList_ofList, ← List.cons_append, ← List.append_assoc] at cut
  have short := (List.append_inj' cut rfl).1
  have among : '}' ∈ '{' :: List.replicate n '1' := short ▸ List.mem_append_left rest inside
  simp at among

/-- There is a way to write every state. -/
instance : Nonempty (Blocks Host) := by
  have chars : Countable Char := @Function.Injective.countable _ _ _ Char.toNat fun _ _ => Char.toNat_inj.mp
  have texts : Countable String := @Function.Injective.countable _ _ _ String.toList fun _ _ => String.toList_inj.mp
  obtain ⟨code, inj⟩ := Countable.exists_injective_nat (List String × List (String × String))
  let key (state : CheckpointState Host) : ℕ := code (state.planned, state.records.map fun record => (record.file, record.ts))
  have view {state state' : CheckpointState Host} (same : key state = key state') : state.payload = state'.payload := by
    obtain ⟨planned, records⟩ := Prod.mk.inj (inj same)
    have number : state.records.length = state'.records.length := by simpa using congrArg List.length records
    have short (state : CheckpointState Host) : state.records.map (·.toCheckpointRecord) =
        (state.records.map fun record => (record.file, record.ts)).map fun e => ⟨e.1, e.2⟩ := by
      rw [List.map_map]
      rfl
    rw [CheckpointState.payload, CheckpointState.payload, CheckpointState.current, CheckpointState.current, short, short,
      planned, records, number]
  classical
  refine ⟨{
    stringify := fun state => tally (key state)
    parse := fun text => if h : ∃ state, tally (key state) = text then some h.choose.payload else none
    view := (·.payload)
    parse_stringify := fun state => ?_
    bounded := fun state => ?_
    cut := fun state front back cut behind => ?_
    view_eq := fun _ => rfl
    hostColumns := fun _ => "" }⟩
  · have is : ∃ state', tally (key state') = tally (key state) := ⟨state, rfl⟩
    rw [dif_pos is, view (tally_inj is.choose_spec)]
  · refine Text.trim_eq_self (fun c first => ?_) fun c last => ?_
    · rw [tally, String.toList_ofList, List.head?_cons] at first
      cases first
      decide
    · rw [tally, String.toList_ofList, ← List.cons_append, List.getLast?_append, List.getLast?_singleton] at last
      cases last
      decide
  · exact dif_neg fun ⟨state', is⟩ => not_tally cut behind is.symm
structure CheckRun where
  id : ℕ
  external_id : Option String
  status : String
  output : Output

inductive Delivery
  | answered
  /-- It had its effect, but the answer was lost. -/
  | unheard
  | lost
  deriving DecidableEq

/-- What a leg's runner has, and what became of its calls. -/
structure Runner (Host : Type) where
  state : CheckpointState Host
  missed : Bool
  closing : Bool

def patch (server : List CheckRun) (id : ℕ) (f : CheckRun → CheckRun) : List CheckRun :=
  server.map fun run => if run.id = id then f run else run

end Checkpoint

/-- The run of a workflow with an accepted plan. -/
structure Workflow where
  runId : String
  attempt : String
  sha : String
  planned : List PlannedLeg
  run_id : Part runId
  attempt_part : Part attempt
  accepted : findDuplicateLegs planned = []
  named : ∀ leg ∈ planned, Part leg.id ∧ ∃ resolved, leg.resolved = some resolved ∧ Part resolved

section Run

variable {Host : Type} (workflow : Workflow) (blocks : Blocks Host)

def identity (leg : PlannedLeg) (accel : Option String) : LegIdentity where
  platform := leg.id
  target := ((leg.resolved.filter (· ≠ "")).getD "stable")
  resolved := leg.resolved.filter (· ≠ "")
  accel := accel
  sha := workflow.sha
  run_id := workflow.runId
  attempt := workflow.attempt

structure World (Host : Type) where
  server : List CheckRun
  runners : String → Option (Runner Host)

/-- A check run is one of this run's checkpoints. -/
def isOurs (run : CheckRun) : Bool :=
  (parseExternalId run.external_id).any fun e => e.run_id = workflow.runId ∧ e.attempt = workflow.attempt

inductive Event (Host : Type)
  | «open» (leg : PlannedLeg) (accel : Option String) (planned : List String) (startedAt : String) (id : ℕ)
      (delivery : Delivery)
  | mark (leg : PlannedLeg) (file outcome ts : String) (duration_s : Option ℤ) (cap_s : Option Number)
      (host : Option Host) (delivery : Delivery)
  | close (leg : PlannedLeg) (delivery : Delivery)
  /-- The heartbeat of a leg creates its own check run. -/
  | heartbeat (leg : LegIdentity) (id : ℕ) (output : Output)
  /-- Another run creates a check run. -/
  | other (run : CheckRun)
  /-- One of theirs is updated. -/
  | update (id : ℕ) (status : String) (output : Output)

def World.setRunner (w : World Host) (leg : PlannedLeg) (runner : Runner Host) : World Host :=
  { w with runners := fun key => if key = plannedLegKey leg then some runner else w.runners key }

/-- A call that updates the check run of a leg, if its id is known. -/
def World.send (w : World Host) (leg : PlannedLeg) (runner : Runner Host) (delivery : Delivery)
    (f : CheckRun → CheckRun) : World Host :=
  let w := w.setRunner leg { runner with missed := runner.missed || decide (delivery ≠ .answered) }
  match runner.state.checkRunId with
  | none => w
  | some id => if delivery = .lost then w else { w with server := patch w.server id f }

def next (w : World Host) : Event Host → Option (World Host)
  | .open leg accel planned startedAt id delivery =>
      if leg ∈ workflow.planned ∧ (w.runners (plannedLegKey leg)).isNone ∧ id ≠ 0 ∧ (∀ run ∈ w.server, run.id ≠ id) then
        let state : CheckpointState Host :=
          { checkRunId := none, leg := identity workflow leg accel, planned, startedAt, records := [] }
        let run : CheckRun :=
          { id, external_id := some (externalId state.leg), status := "in_progress", output := renderOutput blocks state }
        let known := if delivery = .answered then some id else none
        let w := if delivery = .lost then w else { w with server := w.server ++ [run] }
        some (w.setRunner leg
          { state := { state with checkRunId := known }
            missed := decide (delivery ≠ .answered)
            closing := false })
      else none
  | .mark leg file outcome ts duration_s cap_s host delivery =>
      if leg ∈ workflow.planned then
        (w.runners (plannedLegKey leg)).map fun runner =>
          let record : FileRecord Host :=
            { file, ts, index := runner.state.records.length + 1, outcome, duration_s, cap_s, host }
          let state := { runner.state with records := runner.state.records ++ [record] }
          w.send leg { runner with state } delivery fun run => { run with output := renderOutput blocks state }
      else none
  | .close leg delivery =>
      if leg ∈ workflow.planned then
        (w.runners (plannedLegKey leg)).map fun runner =>
          w.send leg { runner with closing := true } delivery fun run =>
            { run with status := "completed", output := renderOutput blocks runner.state }
      else none
  | .heartbeat leg id output =>
      if ∀ known ∈ w.server, known.id ≠ id then
        some { w with
          server := w.server ++ [{ id, external_id := some (heartbeatExternalId leg), status := "in_progress", output }] }
      else none
  | .other run =>
      if isOurs workflow run = false ∧ ∀ known ∈ w.server, known.id ≠ run.id then
        some { w with server := w.server ++ [run] }
      else none
  | .update id status output =>
      if ∀ run ∈ w.server, run.id = id → isOurs workflow run = false then
        some { w with server := patch w.server id fun run => { run with status, output } }
      else none

def system : Transition.System (World Host) (Event Host) where
  Initial w := w = { server := [], runners := fun _ => none }
  next := next workflow blocks

/-- The pages of check runs, so many of a hundred at most, up to the first that is not full. -/
def fetchPages : ℕ → List CheckRun → List CheckRun
  | 0, _ => []
  | pages + 1, listed =>
      let runs := listed.take 100
      if runs.length < 100 then runs else runs ++ fetchPages pages (listed.drop 100)

def viewOf (run : CheckRun) : CheckpointView blocks.parse where
  status := run.status
  checkRunId := some run.id
  payloadText := run.output.text
  payload := parsePayload blocks.parse run.output.text
  read := rfl

/-- The checkpoints of this run by the keys of their legs. -/
def fetchCheckpoints (listed : List CheckRun) : Record (CheckpointView blocks.parse) :=
  Record.assign [] ((fetchPages 10 listed).filterMap fun run =>
    match parseExternalId run.external_id with
    | none => none
    | some e =>
        if e.run_id ≠ workflow.runId ∨ e.attempt ≠ workflow.attempt then none
        else some (legKey e.platform e.target, viewOf blocks run))

end Run

section Invariant

variable {Host : Type} {workflow : Workflow} {blocks : Blocks Host}

/-- The external id of a leg, as it is read. -/
def external (workflow : Workflow) (leg : PlannedLeg) : ExternalId where
  run_id := workflow.runId
  attempt := workflow.attempt
  platform := leg.id
  target := leg.resolved.getD ""

def own (workflow : Workflow) (leg : PlannedLeg) (server : List CheckRun) : List CheckRun :=
  server.filter fun run => parseExternalId run.external_id = some (external workflow leg)

/-- The check run shows the leg as its last call that had an effect left it. -/
structure Shows (blocks : Blocks Host) (runner : Runner Host) (run : CheckRun) : Prop where
  posted : ∃ posted : CheckpointState Host, posted.planned = runner.state.planned ∧
    posted.records <+: runner.state.records ∧
    (runner.missed = false → posted.records = runner.state.records) ∧ run.output = renderOutput blocks posted
  known : runner.state.checkRunId = none ∧ runner.missed = true ∨ runner.state.checkRunId = some run.id
  status : run.status = "in_progress" ∨ run.status = "completed" ∧ runner.closing = true
  closed : runner.missed = false → runner.closing = true → run.status = "completed"

/-- A leg has at most one check run, none before it opens one. -/
inductive Mirrors (blocks : Blocks Host) : Option (Runner Host) → List CheckRun → Prop
  | idle : Mirrors blocks none []
  | unseen {runner : Runner Host} : runner.state.checkRunId = none → runner.missed = true →
      Mirrors blocks (some runner) []
  | seen {runner : Runner Host} {run : CheckRun} : Shows blocks runner run → Mirrors blocks (some runner) [run]

structure Inv (workflow : Workflow) (blocks : Blocks Host) (w : World Host) : Prop where
  ids : (w.server.map (·.id)).Nodup
  ours : ∀ run ∈ w.server, isOurs workflow run = true →
    ∃ leg ∈ workflow.planned, parseExternalId run.external_id = some (external workflow leg)
  legs : ∀ leg ∈ workflow.planned, Mirrors blocks (w.runners (plannedLegKey leg)) (own workflow leg w.server)

theorem Workflow.leg_eq (workflow : Workflow) {leg leg' : PlannedLeg} (member : leg ∈ workflow.planned)
    (member' : leg' ∈ workflow.planned) (same : plannedLegKey leg = plannedLegKey leg') : leg = leg' :=
  List.inj_on_of_nodup_map ((findDuplicateLegs_eq_nil_iff _).mp workflow.accepted) member member' same

theorem plannedLegKey_eq {leg : PlannedLeg} (member : leg ∈ workflow.planned) :
    plannedLegKey leg = legKey (external workflow leg).platform (external workflow leg).target := by
  obtain ⟨-, resolved, is, -⟩ := workflow.named leg member
  simp [plannedLegKey, external, is]

theorem external_identity {leg : PlannedLeg} (member : leg ∈ workflow.planned) (accel : Option String) :
    parseExternalId (some (externalId (identity workflow leg accel))) = some (external workflow leg) := by
  obtain ⟨id, resolved, is, part⟩ := workflow.named leg member
  have target : (identity workflow leg accel).target = resolved := by
    simp [identity, is, Option.filter_some, part.1]
  have plain : (identity workflow leg accel).Plain :=
    ⟨workflow.run_id, workflow.attempt_part, id, by rw [target]; exact part⟩
  rw [parseExternalId_externalId plain, LegIdentity.external, target, external, is]
  rfl

theorem own_append (leg : PlannedLeg) (server : List CheckRun) (run : CheckRun) :
    own workflow leg (server ++ [run]) = own workflow leg server ++
      if parseExternalId run.external_id = some (external workflow leg) then [run] else [] := by
  rw [own, List.filter_append, List.filter_singleton]
  by_cases is : parseExternalId run.external_id = some (external workflow leg) <;> simp [is, own]

theorem own_patch (leg : PlannedLeg) (server : List CheckRun) {id : ℕ} {f : CheckRun → CheckRun}
    (keeps : ∀ run, (f run).external_id = run.external_id) :
    own workflow leg (patch server id f) = patch (own workflow leg server) id f := by
  rw [own, patch, List.filter_map, patch, own]
  congr 1
  refine List.filter_congr fun run _ => ?_
  dsimp only [Function.comp]
  split
  · rw [keeps]
  · rfl

theorem patch_of_ne {server : List CheckRun} {id : ℕ} {f : CheckRun → CheckRun} (other : ∀ run ∈ server, run.id ≠ id) :
    patch server id f = server := by
  rw [patch]
  refine (List.map_congr_left fun run member => ?_).trans (List.map_id server)
  exact if_neg (other run member)

theorem ids_patch (server : List CheckRun) {id : ℕ} {f : CheckRun → CheckRun} (keeps : ∀ run, (f run).id = run.id) :
    (patch server id f).map (·.id) = server.map (·.id) := by
  rw [patch, List.map_map]
  refine List.map_congr_left fun run _ => ?_
  dsimp only [Function.comp]
  split
  · exact keeps run
  · rfl

theorem mem_own {leg : PlannedLeg} {server : List CheckRun} {run : CheckRun} : run ∈ own workflow leg server ↔
    run ∈ server ∧ parseExternalId run.external_id = some (external workflow leg) := by
  rw [own, List.mem_filter, decide_eq_true_iff]

theorem external_inj {leg leg' : PlannedLeg} (member : leg ∈ workflow.planned) (member' : leg' ∈ workflow.planned)
    (same : external workflow leg = external workflow leg') : leg = leg' := by
  refine workflow.leg_eq member member' ?_
  rw [plannedLegKey_eq member, plannedLegKey_eq member', same]

theorem isOurs_patch {run : CheckRun} {id : ℕ} {f : CheckRun → CheckRun} (keeps : ∀ run, (f run).external_id = run.external_id) :
    (if run.id = id then f run else run).external_id = run.external_id := by
  split
  · exact keeps run
  · rfl

section Steps

variable {w : World Host}

theorem setRunner_self (leg : PlannedLeg) (runner : Runner Host) :
    (w.setRunner leg runner).runners (plannedLegKey leg) = some runner := if_pos rfl

theorem setRunner_ne {leg : PlannedLeg} {key : String} (other : key ≠ plannedLegKey leg) (runner : Runner Host) :
    (w.setRunner leg runner).runners key = w.runners key := if_neg other

theorem Inv.apart (h : Inv workflow blocks w) {leg leg' : PlannedLeg} (member : leg ∈ workflow.planned)
    (member' : leg' ∈ workflow.planned) (other : leg' ≠ leg) {run run' : CheckRun}
    (mine : run ∈ own workflow leg w.server) (theirs : run' ∈ own workflow leg' w.server) : run'.id ≠ run.id := by
  intro same
  obtain ⟨listed, is⟩ := mem_own.mp mine
  obtain ⟨listed', is'⟩ := mem_own.mp theirs
  obtain rfl := List.inj_on_of_nodup_map h.ids listed' listed same
  exact other (external_inj member' member (Option.some.inj (is'.symm.trans is)))

theorem Inv.patched (h : Inv workflow blocks w) {leg : PlannedLeg} (member : leg ∈ workflow.planned) {run : CheckRun}
    (mine : run ∈ own workflow leg w.server) {f : CheckRun → CheckRun} (id : ∀ run, (f run).id = run.id)
    (keeps : ∀ run, (f run).external_id = run.external_id) {runner : Runner Host}
    (mirrors : Mirrors blocks (some runner) (patch (own workflow leg w.server) run.id f)) :
    Inv workflow blocks { w.setRunner leg runner with server := patch w.server run.id f } where
  ids := by
    rw [ids_patch w.server id]
    exact h.ids
  ours run' among ours := by
    obtain ⟨known, listed, rfl⟩ := List.mem_map.mp among
    rw [isOurs, isOurs_patch keeps, ← isOurs] at ours
    rw [isOurs_patch keeps]
    exact h.ours known listed ours
  legs leg' member' := by
    dsimp only
    rw [own_patch leg' w.server keeps]
    by_cases same : leg' = leg
    · subst same
      rw [setRunner_self]
      exact mirrors
    · have key : plannedLegKey leg' ≠ plannedLegKey leg := fun eq => same (workflow.leg_eq member' member eq)
      rw [setRunner_ne key, patch_of_ne fun run' theirs => h.apart member member' same mine theirs]
      exact h.legs leg' member'

theorem Inv.setRunner (h : Inv workflow blocks w) {leg : PlannedLeg} (member : leg ∈ workflow.planned)
    {runner : Runner Host} (mirrors : Mirrors blocks (some runner) (own workflow leg w.server)) :
    Inv workflow blocks (w.setRunner leg runner) where
  ids := h.ids
  ours := h.ours
  legs leg' member' := by
    by_cases same : leg' = leg
    · subst same
      rw [setRunner_self]
      exact mirrors
    · have key : plannedLegKey leg' ≠ plannedLegKey leg := fun eq => same (workflow.leg_eq member' member eq)
      rw [setRunner_ne key]
      exact h.legs leg' member'

/-- What a call of a leg keeps of its runner, and what it makes of the check run. -/
structure Call (blocks : Blocks Host) (runner runner' : Runner Host) (f : CheckRun → CheckRun) : Prop where
  checkRunId : runner'.state.checkRunId = runner.state.checkRunId
  planned : runner'.state.planned = runner.state.planned
  records : runner.state.records <+: runner'.state.records
  missed : runner'.missed = runner.missed
  closing : runner.closing = true → runner'.closing = true
  id : ∀ run, (f run).id = run.id
  keeps : ∀ run, (f run).external_id = run.external_id
  output : ∀ run, (f run).output = renderOutput blocks runner'.state
  status : ∀ run, (f run).status = run.status ∧ runner'.closing = runner.closing ∨
    (f run).status = "completed" ∧ runner'.closing = true

theorem Shows.missed {runner runner' : Runner Host} {run : CheckRun} {f : CheckRun → CheckRun}
    (h : Shows blocks runner run) (call : Call blocks runner runner' f) :
    Shows blocks { runner' with missed := true } run where
  posted := by
    obtain ⟨posted, planned, front, -, output⟩ := h.posted
    exact ⟨posted, planned.trans call.planned.symm, front.trans call.records, by simp, output⟩
  known := by
    dsimp only
    rw [call.checkRunId]
    exact h.known.imp (fun none => ⟨none.1, rfl⟩) id
  status := h.status.imp id fun completed => ⟨completed.1, call.closing completed.2⟩
  closed := by simp

theorem Shows.updated {runner runner' : Runner Host} {run : CheckRun} {f : CheckRun → CheckRun}
    (h : Shows blocks runner run) (call : Call blocks runner runner' f) (known : runner.state.checkRunId = some run.id)
    (late : Bool) : Shows blocks { runner' with missed := runner'.missed || late } (f run) where
  posted := ⟨runner'.state, rfl, List.prefix_rfl, fun _ => rfl, call.output run⟩
  known := .inr (call.checkRunId.trans (known.trans (by rw [call.id])))
  status := by
    rcases call.status run with ⟨same, closing⟩ | completed
    · dsimp only
      rw [same, closing]
      exact h.status
    · exact .inr completed
  closed heard closing := by
    rcases call.status run with ⟨same, unchanged⟩ | completed
    · rw [Bool.or_eq_false_iff] at heard
      rw [same]
      exact h.closed (call.missed.symm.trans heard.1) (unchanged.symm.trans closing)
    · exact completed.1

theorem Inv.send (h : Inv workflow blocks w) {leg : PlannedLeg} (member : leg ∈ workflow.planned)
    {runner runner' : Runner Host} (is : w.runners (plannedLegKey leg) = some runner) {f : CheckRun → CheckRun}
    (call : Call blocks runner runner' f) (delivery : Delivery) :
    Inv workflow blocks (w.send leg runner' delivery f) := by
  have mirrors := h.legs leg member
  rw [is] at mirrors
  generalize mine : own workflow leg w.server = list at mirrors
  unfold World.send
  cases mirrors with
  | unseen unknown missed =>
      rw [call.checkRunId, unknown]
      refine h.setRunner member ?_
      rw [mine]
      exact .unseen (call.checkRunId.trans unknown) (by simp [call.missed, missed])
  | @seen _ run shows =>
      have listed : run ∈ own workflow leg w.server := by
        rw [mine]
        exact List.mem_singleton_self run
      rcases shows.known with ⟨unknown, missed⟩ | known
      · rw [call.checkRunId, unknown]
        refine h.setRunner member ?_
        rw [mine, call.missed, missed]
        exact .seen (shows.missed call)
      · rw [call.checkRunId, known]
        dsimp only
        split
        · rename_i lost
          refine h.setRunner member ?_
          rw [mine, lost]
          simpa using Mirrors.seen (shows.missed call)
        · refine h.patched member listed call.id call.keeps ?_
          rw [mine, patch, List.map_singleton, if_pos rfl]
          exact .seen (shows.updated call known _)

theorem Inv.created (h : Inv workflow blocks w) {run : CheckRun} (fresh : ∀ known ∈ w.server, known.id ≠ run.id)
    {runners : String → Option (Runner Host)}
    (ours : isOurs workflow run = true →
      ∃ leg ∈ workflow.planned, parseExternalId run.external_id = some (external workflow leg))
    (legs : ∀ leg ∈ workflow.planned, Mirrors blocks (runners (plannedLegKey leg)) (own workflow leg (w.server ++ [run]))) :
    Inv workflow blocks { server := w.server ++ [run], runners } where
  ids := by
    rw [List.map_append, List.nodup_append]
    refine ⟨h.ids, List.nodup_singleton _, fun id listed id' last => ?_⟩
    obtain ⟨known, member, rfl⟩ := List.mem_map.mp listed
    rw [List.map_singleton, List.mem_singleton] at last
    rw [last]
    exact fresh known member
  ours known listed := by
    rcases List.mem_append.mp listed with before | last
    · exact h.ours known before
    · rw [List.mem_singleton.mp last]
      exact ours
  legs := legs

theorem isOurs_of_external {run : CheckRun} {leg : PlannedLeg}
    (is : parseExternalId run.external_id = some (external workflow leg)) : isOurs workflow run = true := by
  rw [isOurs, is]
  simp [external]

theorem Inv.open (h : Inv workflow blocks w) {leg : PlannedLeg} (member : leg ∈ workflow.planned)
    (idle : w.runners (plannedLegKey leg) = none) (accel : Option String) (planned : List String) (startedAt : String)
    {id : ℕ} (fresh : ∀ known ∈ w.server, known.id ≠ id) {t : World Host} (delivery : Delivery)
    (opened : next workflow blocks w (.open leg accel planned startedAt id delivery) = some t) : Inv workflow blocks t := by
  have none : own workflow leg w.server = [] := by
    have mirrors := h.legs leg member
    rw [idle] at mirrors
    generalize own workflow leg w.server = list at mirrors
    cases mirrors
    rfl
  simp only [next] at opened
  split at opened
  · rw [Option.some.injEq] at opened
    subst opened
    by_cases lost : delivery = .lost
    · rw [if_pos lost]
      refine h.setRunner member ?_
      rw [none]
      exact .unseen (by simp [lost]) (by simp [lost])
    · rw [if_neg lost]
      have is := external_identity member accel
      refine h.created fresh (fun _ => ⟨leg, member, is⟩) fun leg' member' => ?_
      rw [own_append]
      by_cases same : leg' = leg
      · subst same
        rw [if_pos is, none, if_pos rfl]
        refine .seen ⟨⟨{ checkRunId := Option.none, leg := identity workflow leg' accel, planned, startedAt, records := [] },
          rfl, List.prefix_rfl, fun _ => rfl, rfl⟩, ?_, .inl rfl, by simp⟩
        cases delivery with
        | answered => exact .inr rfl
        | unheard => exact .inl ⟨rfl, rfl⟩
        | lost => exact absurd rfl lost
      · have key : plannedLegKey leg' ≠ plannedLegKey leg := fun eq => same (workflow.leg_eq member' member eq)
        have foreign : parseExternalId (some (externalId (identity workflow leg accel))) ≠ some (external workflow leg') :=
          fun eq => same (external_inj member' member (Option.some.inj (eq.symm.trans is)))
        rw [if_neg key, if_neg foreign, List.append_nil]
        exact h.legs leg' member'
  · cases opened

theorem Inv.foreign (h : Inv workflow blocks w) {run : CheckRun} (theirs : isOurs workflow run = false)
    (fresh : ∀ known ∈ w.server, known.id ≠ run.id) :
    Inv workflow blocks { w with server := w.server ++ [run] } := by
  refine h.created fresh (fun ours => absurd (theirs.symm.trans ours) Bool.false_ne_true) fun leg member => ?_
  have foreign : parseExternalId run.external_id ≠ some (external workflow leg) := by
    intro is
    rw [isOurs_of_external is] at theirs
    exact Bool.noConfusion theirs
  rw [own_append, if_neg foreign, List.append_nil]
  exact h.legs leg member

theorem Inv.next (h : Inv workflow blocks w) {t : World Host} {event : Event Host}
    (step : next workflow blocks w event = some t) : Inv workflow blocks t := by
  cases event with
  | «open» leg accel planned startedAt id delivery =>
      have guard := step
      simp only [LegRuns.next] at guard
      split at guard
      · rename_i enabled
        exact h.open enabled.1 (Option.isNone_iff_eq_none.mp enabled.2.1) accel planned startedAt enabled.2.2.2 delivery step
      · cases guard
  | mark leg file outcome ts duration_s cap_s host delivery =>
      simp only [LegRuns.next] at step
      split at step
      · rename_i member
        obtain ⟨runner, is, rfl⟩ := Option.map_eq_some_iff.mp step
        refine h.send member is ?_ delivery
        exact ⟨rfl, rfl, List.prefix_append _ _, rfl, id, fun _ => rfl, fun _ => rfl, fun _ => rfl,
          fun _ => .inl ⟨rfl, rfl⟩⟩
      · cases step
  | close leg delivery =>
      simp only [LegRuns.next] at step
      split at step
      · rename_i member
        obtain ⟨runner, is, rfl⟩ := Option.map_eq_some_iff.mp step
        refine h.send member is ?_ delivery
        exact ⟨rfl, rfl, List.prefix_rfl, rfl, fun _ => rfl, fun _ => rfl, fun _ => rfl, fun _ => rfl,
          fun _ => .inr ⟨rfl, rfl⟩⟩
      · cases step
  | heartbeat leg id output =>
      obtain ⟨fresh, ⟨⟩⟩ := Option.ite_none_right_eq_some.mp step
      exact h.foreign (by simp [isOurs, parseExternalId_heartbeat]) fresh
  | other run =>
      simp only [LegRuns.next] at step
      split at step
      · rename_i enabled
        cases step
        exact h.foreign enabled.1 enabled.2
      · cases step
  | update id status output =>
      simp only [LegRuns.next] at step
      split at step
      · rename_i foreign
        cases step
        have keeps (run : CheckRun) : ({ run with status := status, output := output } : CheckRun).external_id =
            run.external_id := rfl
        refine ⟨?_, fun run' among ours => ?_, fun leg member => ?_⟩
        · rw [ids_patch]
          · exact h.ids
          · exact fun _ => rfl
        · obtain ⟨known, listed, rfl⟩ := List.mem_map.mp among
          rw [isOurs, isOurs_patch keeps, ← isOurs] at ours
          rw [isOurs_patch keeps]
          exact h.ours known listed ours
        · have other : ∀ run ∈ own workflow leg w.server, run.id ≠ id := by
            intro run mine same
            obtain ⟨listed, is⟩ := mem_own.mp mine
            exact absurd ((foreign run listed same).symm.trans (isOurs_of_external is)) Bool.false_ne_true
          dsimp only
          rw [own_patch leg w.server keeps, patch_of_ne other]
          exact h.legs leg member
      · cases step

/-- Whatever the legs do, in whatever order, and whatever becomes of their calls. -/
theorem inv_of_reachable (h : (system workflow blocks).Reachable w) : Inv workflow blocks w := by
  refine h.invariant ?_ fun s e t _ inv _ step => inv.next step
  rintro _ rfl
  exact ⟨List.nodup_nil, by simp, fun leg _ => .idle⟩

end Steps

theorem fetchPages_eq (pages : ℕ) (listed : List CheckRun) : fetchPages pages listed = listed.take (100 * pages) := by
  induction pages generalizing listed with
  | zero => rfl
  | succ pages ih =>
      unfold fetchPages
      dsimp only
      split
      · rename_i short
        rw [List.length_take] at short
        rw [List.take_of_length_le (by omega), List.take_of_length_le (by omega)]
      · rw [ih, Nat.mul_succ, Nat.add_comm, List.take_add]

/-- The check runs as the aggregate gets them, in any order. -/
structure Listing (workflow : Workflow) (blocks : Blocks Host) where
  world : World Host
  reachable : (system workflow blocks).Reachable world
  listed : List CheckRun
  perm : listed.Perm world.server
  few : listed.length ≤ 1000

variable (listing : Listing workflow blocks)

def entryOf (workflow : Workflow) (blocks : Blocks Host) (run : CheckRun) :
    Option (String × CheckpointView blocks.parse) :=
  match parseExternalId run.external_id with
  | none => none
  | some e =>
      if e.run_id ≠ workflow.runId ∨ e.attempt ≠ workflow.attempt then none
      else some (legKey e.platform e.target, viewOf blocks run)

theorem fetchCheckpoints_eq (listed : List CheckRun) (few : listed.length ≤ 1000) :
    fetchCheckpoints workflow blocks listed = Record.assign [] (listed.filterMap (entryOf workflow blocks)) := by
  rw [fetchCheckpoints, fetchPages_eq, List.take_of_length_le few]
  rfl

theorem entryOf_own {leg : PlannedLeg} (member : leg ∈ workflow.planned) {run : CheckRun}
    (is : parseExternalId run.external_id = some (external workflow leg)) :
    entryOf workflow blocks run = some (plannedLegKey leg, viewOf blocks run) := by
  rw [entryOf, is, plannedLegKey_eq member]
  simp [external]

theorem entryOf_eq_some {run : CheckRun} {e : String × CheckpointView blocks.parse}
    (h : entryOf workflow blocks run = some e) : isOurs workflow run = true ∧ e.2 = viewOf blocks run := by
  unfold entryOf at h
  split at h
  · cases h
  · rename_i id is
    split at h
    · cases h
    · rename_i fine
      cases h
      rw [not_or, not_ne_iff, not_ne_iff] at fine
      rw [isOurs, is]
      exact ⟨by simp [fine], rfl⟩

theorem get_fetchCheckpoints {leg : PlannedLeg} (member : leg ∈ workflow.planned) :
    (fetchCheckpoints workflow blocks listing.listed).get (plannedLegKey leg) =
      (own workflow leg listing.world.server).head?.map (viewOf blocks) := by
  have inv := inv_of_reachable listing.reachable
  rw [fetchCheckpoints_eq _ listing.few, Record.get_assign, Record.get_nil, Option.or_none]
  have mirrors := inv.legs leg member
  -- whatever stands under the key belongs to the leg
  have belongs {v : CheckpointView blocks.parse}
      (found : Record.get (listing.listed.filterMap (entryOf workflow blocks)).reverse (plannedLegKey leg) = some v) :
      ∃ run ∈ own workflow leg listing.world.server, v = viewOf blocks run := by
    have entry := List.mem_reverse.mp (Record.mem_of_get found)
    obtain ⟨run, listed, made⟩ := List.mem_filterMap.mp entry
    have among := listing.perm.mem_iff.mp listed
    obtain ⟨leg', member', is⟩ := inv.ours run among (entryOf_eq_some made).1
    have key := @entryOf_own _ _ blocks leg' member' run is
    rw [made] at key
    obtain rfl := workflow.leg_eq member member' (congrArg Prod.fst (Option.some.inj key))
    exact ⟨run, mem_own.mpr ⟨among, is⟩, (entryOf_eq_some made).2⟩
  cases found : Record.get (listing.listed.filterMap (entryOf workflow blocks)).reverse (plannedLegKey leg) with
  | none =>
      rw [Record.get_eq_none] at found
      have empty : own workflow leg listing.world.server = [] := by
        refine List.eq_nil_iff_forall_not_mem.mpr fun run mine => found ?_
        obtain ⟨among, is⟩ := mem_own.mp mine
        refine List.mem_map.mpr ⟨(plannedLegKey leg, viewOf blocks run), List.mem_reverse.mpr ?_, rfl⟩
        exact List.mem_filterMap.mpr ⟨run, listing.perm.mem_iff.mpr among, entryOf_own member is⟩
      rw [empty]
      rfl
  | some v =>
      obtain ⟨run, mine, rfl⟩ := belongs found
      generalize own workflow leg listing.world.server = list at mirrors mine
      generalize listing.world.runners (plannedLegKey leg) = runner at mirrors
      cases mirrors with
      | idle => cases mine
      | unseen _ _ => cases mine
      | seen _ =>
          rw [List.mem_singleton.mp mine]
          rfl

end Invariant

section Ledger

variable {Host : Type} {workflow : Workflow} {blocks : Blocks Host}

theorem isIndex_legKey (platform target : String) : Record.isIndex (legKey platform target) = false :=
  Record.isIndex_of_mem (c := '|') (by simp [legKey]) rfl

/-- With one leg for each key, every leg that is not complete has its own row, in the order of the plan. -/
theorem reconcile_of_nodup {parse : String → Option Payload} {elapsed : String → String → Number}
    {completed : Finset String} {checkpoints : Record (CheckpointView parse)} {jobs : Record JobView}
    {planned : List PlannedLeg} (distinct : (planned.map plannedLegKey).Nodup) :
    (reconcile elapsed completed checkpoints jobs planned).1 =
      (planned.filter fun leg => plannedLegKey leg ∉ completed).map fun leg =>
        (plannedLegKey leg, classifyLeg elapsed leg completed checkpoints jobs) := by
  induction planned using List.reverseRecOn with
  | nil => rfl
  | append_singleton planned leg ih =>
      rw [List.map_append, List.nodup_append] at distinct
      rw [reconcile_append, List.filter_append, List.filter_singleton, List.map_append, ← ih distinct.1]
      by_cases done : plannedLegKey leg ∈ completed
      · rw [if_pos done]
        simp [done]
      · rw [if_neg done]
        have new : plannedLegKey leg ∉ (reconcile elapsed completed checkpoints jobs planned).1.map Prod.fst := by
          rw [ih distinct.1, List.map_map]
          intro member
          obtain ⟨other, listed, same⟩ := List.mem_map.mp member
          exact distinct.2.2 _ (List.mem_map_of_mem (List.mem_of_mem_filter listed)) _
            (List.mem_singleton_self _) same
        dsimp only
        rw [Record.set_of_not_mem new (isIndex_legKey _ _)]
        simp [done]

/-- What the ledger says of a leg without a metrics record: of a leg that was never heard of, nothing, and of
another one what its last call that had an effect said. A leg that did not close, with a job that is not over,
was lost; one that closed was not. -/
structure Accounts (blocks : Blocks Host) (runner : Option (Runner Host)) (job : Option JobView)
    (entry : LegLedgerEntry) : Prop where
  silent : entry.files_reported = none → ∀ r, runner = some r → r.missed = true
  reported : entry.files_reported.isSome = true → ∃ r posted, runner = some r ∧
    posted.planned = r.state.planned ∧ posted.records <+: r.state.records ∧
    (r.missed = false → posted.records = r.state.records) ∧
    (¬ PAYLOAD_CLOSE.toList <:+: (blocks.stringify posted).toList →
      entry.files_reported = some posted.records.length ∧ entry.files_planned = some posted.planned.length ∧
      entry.last_file = posted.records.getLast?.map (·.file) ∧ entry.current_file = posted.current)
  lost : ∀ r, runner = some r → r.closing = false → entry.files_reported.isSome = true →
    (∀ j, job = some j → j.status ≠ "completed") → entry.terminal = .runnerLost
  closed : ∀ r, runner = some r → r.missed = false → r.closing = true → job.bind stalledStep = none →
    entry.terminal = .attemptedIncomplete

theorem opens_checkpoint : Opens PAYLOAD_OPEN := ⟨by decide, by decide, by decide⟩

/-- An open check run with a job that is not over is a lost runner. -/
theorem ruling_of_open {parse : String → Option Payload} {cp : CheckpointView parse} {job : Option JobView}
    (opened : cp.status = "in_progress") (unfinished : ∀ j, job = some j → j.status ≠ "completed") :
    (ruling false (some cp) job).1 = .runnerLost := by
  have running : ¬ ∃ j, job = some j ∧ j.status = "completed" := fun ⟨j, is, completed⟩ => unfinished j is completed
  exact (@ruling_of_unsettled parse cp { cp with status := "completed" } job opened running rfl).1

/-- A closed check run is none, if no step of the job was left running. -/
theorem ruling_of_closed {parse : String → Option Payload} {cp : CheckpointView parse} {job : Option JobView}
    (closed : cp.status = "completed") (orderly : job.bind stalledStep = none) :
    (ruling false (some cp) job).1 = .attemptedIncomplete := by
  have other : ¬ (cp.status = "in_progress" ∧ job.all (·.status ≠ "completed") = true) := by
    rw [closed]
    exact fun h => absurd h.1 (by decide)
  have stalled : job.filter (fun job => job.status = "completed" ∧ truthy (stalledStep job)) = none := by
    cases job with
    | none => rfl
    | some j =>
        rw [Option.bind_some] at orderly
        simp [orderly, truthy]
  unfold ruling
  rw [if_neg Bool.false_ne_true, stalled]
  dsimp only
  rw [if_neg other]

/-- What a check run shows is read back, if no text in it holds the mark of the end. -/
theorem payload_viewOf {run : CheckRun} {posted : CheckpointState Host} (output : run.output = renderOutput blocks posted)
    (lacks : ¬ PAYLOAD_CLOSE.toList <:+: (blocks.stringify posted).toList) :
    (viewOf blocks run).payload = some posted.payload := by
  have text : run.output.text = some (writeBlock PAYLOAD_OPEN (blocks.stringify posted)) := by
    rw [output]
    rfl
  change parsePayload blocks.parse run.output.text = _
  rw [text, parsePayload_eq, ← blocks.view_eq]
  exact (readBlock_writeBlock_iff opens_checkpoint blocks.toCodec posted).mpr lacks

theorem accounts_classifyLeg (listing : Listing workflow blocks) (elapsed : String → String → Number)
    {completed : Finset String} (jobs : Record JobView) {leg : PlannedLeg} (member : leg ∈ workflow.planned)
    (undone : plannedLegKey leg ∉ completed) :
    Accounts blocks (listing.world.runners (plannedLegKey leg)) (jobs.get (plannedLegKey leg))
      (classifyLeg elapsed leg completed (fetchCheckpoints workflow blocks listing.listed) jobs) := by
  have mirrors := (inv_of_reachable listing.reachable).legs leg member
  unfold classifyLeg
  dsimp only
  rw [get_fetchCheckpoints listing member, decide_eq_false undone]
  generalize own workflow leg listing.world.server = list at mirrors
  generalize listing.world.runners (plannedLegKey leg) = runner at mirrors
  generalize jobs.get (plannedLegKey leg) = job
  cases mirrors with
  | idle => exact ⟨by simp, by simp, by simp, by simp⟩
  | unseen unknown missed => exact ⟨by simp [missed], by simp, by simp, by simp [missed]⟩
  | @seen runner run shows =>
      obtain ⟨posted, planned, before, all, output⟩ := shows.posted
      refine ⟨by simp, fun _ => ?_, ?_, ?_⟩
      · refine ⟨runner, posted, rfl, planned, before, all, fun lacks => ?_⟩
        have payload := payload_viewOf output lacks
        simp [LegLedger.records, plannedFiles, payload, CheckpointState.payload, Function.comp_def]
      · intro r same opened _ unfinished
        cases same
        refine ruling_of_open ?_ unfinished
        obtain running | ⟨-, closing⟩ := shows.status
        · exact running
        · exact absurd (opened.symm.trans closing) Bool.false_ne_true
      · intro r same heard closing orderly
        cases same
        exact ruling_of_closed (shows.closed heard closing) orderly

/-- The ledger of a run with an accepted plan accounts for every leg, each in its own row: whatever the legs did in
whatever order, and whatever became of their calls. -/
theorem accounts (listing : Listing workflow blocks) (elapsed : String → String → Number) (completed : Finset String)
    (jobs : Record JobView) (about : Meta) :
    let ledger := buildRunLedger elapsed workflow.planned completed (fetchCheckpoints workflow blocks listing.listed)
      jobs about
    ledger.complete + (ledger.incomplete.getD []).length = ledger.planned ∧
      ∀ leg ∈ workflow.planned, if plannedLegKey leg ∈ completed then
          (ledger.incomplete.getD []).get (plannedLegKey leg) = none
        else ∃ entry, (ledger.incomplete.getD []).get (plannedLegKey leg) = some entry ∧
          Accounts blocks (listing.world.runners (plannedLegKey leg)) (jobs.get (plannedLegKey leg)) entry := by
  have distinct := (findDuplicateLegs_eq_nil_iff _).mp workflow.accepted
  have rows := @reconcile_of_nodup blocks.parse elapsed completed (fetchCheckpoints workflow blocks listing.listed) jobs
    workflow.planned distinct
  dsimp only
  rw [incomplete_buildRunLedger]
  refine ⟨?_, fun leg member => ?_⟩
  · have counted := @complete_reconcile blocks.parse elapsed completed
      (fetchCheckpoints workflow blocks listing.listed) jobs workflow.planned
    rw [rows, List.length_map]
    change (reconcile elapsed completed (fetchCheckpoints workflow blocks listing.listed) jobs workflow.planned).2 + _ =
      workflow.planned.length
    rw [counted, List.countP_eq_length_filter]
    have whole := workflow.planned.length_eq_length_filter_add fun leg => decide (plannedLegKey leg ∈ completed)
    simp only [← decide_not] at whole
    exact whole.symm
  · rw [rows]
    split
    · rename_i done
      refine Record.get_eq_none.mpr fun listed => ?_
      rw [List.map_map] at listed
      obtain ⟨other, among, same⟩ := List.mem_map.mp listed
      have undone := of_decide_eq_true (List.mem_filter.mp among).2
      dsimp only [Function.comp] at same
      rw [same] at undone
      exact undone done
    · rename_i undone
      refine ⟨_, Record.get_of_mem ?_ ?_, accounts_classifyLeg listing elapsed jobs member undone⟩
      · rw [List.map_map]
        exact distinct.sublist ((List.filter_sublist).map plannedLegKey)
      · exact List.mem_map.mpr ⟨leg, List.mem_filter.mpr ⟨member, decide_eq_true undone⟩, rfl⟩

def linuxLeg : PlannedLeg where
  id := "linux-x64"
  target := "stable"
  resolved := some "7.22"

def oneLeg : Workflow where
  runId := "42"
  attempt := "1"
  sha := "80a1d4c"
  planned := [linuxLeg]
  run_id := ⟨by decide, by decide⟩
  attempt_part := ⟨by decide, by decide⟩
  accepted := by decide +kernel
  named leg member := by
    rw [List.mem_singleton.mp member]
    exact ⟨⟨by decide, by decide⟩, "7.22", rfl, by decide, by decide⟩

def opening : Event Unit := .open linuxLeg none ["a.test.ts"] "2026-01-01T00:00:00Z" 7 .answered

theorem opening_next (blocks : Blocks Unit) : ∃ w runner,
    next oneLeg blocks { server := [], runners := fun _ => none } opening = some w ∧
      w.runners (plannedLegKey linuxLeg) = some runner ∧ runner.missed = false ∧ runner.closing = false ∧
      w.server.length = 1 := by
  unfold next opening
  dsimp only
  rw [if_pos ⟨List.mem_cons_self, rfl, by decide, nofun⟩]
  exact ⟨_, _, rfl, setRunner_self _ _, rfl, rfl, rfl⟩

/-- The leg opens its check run, and its runner is never heard of again. -/
theorem accounts_lost : ∃ (blocks : Blocks Unit) (listing : Listing oneLeg blocks) (entry : LegLedgerEntry),
    ((buildRunLedger (fun _ _ => Number.nan) oneLeg.planned ∅ (fetchCheckpoints oneLeg blocks listing.listed) []
      ⟨"", "", "", ""⟩).incomplete.getD []).get (plannedLegKey linuxLeg) = some entry ∧ entry.terminal = .runnerLost := by
  obtain ⟨blocks⟩ : Nonempty (Blocks Unit) := inferInstance
  obtain ⟨w, runner, opened, is, heard, running, one⟩ := opening_next blocks
  have reached : (system oneLeg blocks).Reachable w := .step (e := opening) (.initial rfl) trivial opened
  have accounted := (accounts ⟨w, reached, w.server, .refl _, by omega⟩ (fun _ _ => Number.nan) ∅ [] ⟨"", "", "", ""⟩).2
    linuxLeg List.mem_cons_self
  rw [if_neg (Finset.notMem_empty _)] at accounted
  obtain ⟨entry, listed, told⟩ := accounted
  refine ⟨blocks, ⟨w, reached, w.server, .refl _, by omega⟩, entry, listed,
    told.lost runner is running ?_ fun j none => by cases none⟩
  cases files : entry.files_reported with
  | some n => rfl
  | none =>
      have missed := told.silent files runner is
      rw [heard] at missed
      cases missed

end Ledger

end Quickchr.LegRuns
