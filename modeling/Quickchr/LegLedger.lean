import Quickchr.Lib.Record
import Quickchr.Lib.Number
import Mathlib.Data.Finset.Basic

/-!
# The ledger of planned legs

A run's legs are reconciled with the records they left, and check runs of legs that were lost are
closed. The ledger is built again when the push has to be repeated, from what was closed.
-/
namespace Quickchr.LegLedger

structure PlannedLeg where
  id : String
  target : String
  resolved : Option String

structure CheckpointRecord where
  file : String
  ts : String

structure Payload where
  planned : Option (List String)
  records : Option (List CheckpointRecord)
  current : Option String

def legKey (platform target : String) : String := platform ++ "|" ++ target

def plannedLegKey (leg : PlannedLeg) : String := legKey leg.id (leg.resolved.getD leg.target)

def PAYLOAD_OPEN : String := "<!--quickchr-checkpoint"

def PAYLOAD_CLOSE : String := "-->"

section Checkpoints

-- `JSON.parse` of a payload; `none` where it throws.
variable (parse : String → Option Payload)

def parsePayload (text : Option String) : Option Payload :=
  match text with
  | none => none
  | some text =>
      if text = "" then none
      else
        match Text.indexOf PAYLOAD_OPEN.toList text.toList with
        | none => none
        | some start =>
            let block := text.toList.drop start
            match Text.indexOf PAYLOAD_CLOSE.toList block with
            | none => none
            | some stop =>
                parse (Text.trim (String.ofList ((block.take stop).drop PAYLOAD_OPEN.toList.length)))

/-- What the check run of a leg is read as. -/
structure CheckpointView where
  status : String
  checkRunId : Option ℕ
  payloadText : Option String
  payload : Option Payload
  read : payload = parsePayload parse payloadText

end Checkpoints

structure Step where
  name : String
  status : String
  started_at : Option String

structure JobView where
  status : String
  conclusion : Option String
  started_at : Option String
  completed_at : Option String
  steps : Option (List Step)

inductive LegTerminal
  | complete
  | runnerLost
  | attemptedIncomplete
  | notStarted
  deriving DecidableEq

def LegTerminal.text : LegTerminal → String
  | complete => "complete"
  | runnerLost => "runner-lost"
  | attemptedIncomplete => "attempted-incomplete"
  | notStarted => "not-started"

structure LegLedgerEntry where
  platform : String
  target : String
  resolved : Option String
  terminal : LegTerminal
  last_file : Option String
  current_file : Option String
  files_reported : Option ℕ
  files_planned : Option ℕ
  last_checkpoint_ts : Option String
  stalled_step : Option String
  job_conclusion : Option String
  job_elapsed_s : Option Number
  job_matched : Bool
  why : String

structure Meta where
  ts : String
  sha : String
  attempt : String
  event : String

structure RunLedger extends Meta where
  planned : ℕ
  complete : ℕ
  incomplete : Option (Record LegLedgerEntry)

def truthy (s : Option String) : Bool := s.any (· ≠ "")

section Classification

variable {parse : String → Option Payload}
-- The seconds between two times, `Math.round((Date.parse(b) - Date.parse(a)) / 1000)`.
variable (elapsed : String → String → Number)

def stalledStep (job : JobView) : Option String :=
  ((job.steps.getD []).find? fun s => s.status ≠ "completed" && truthy s.started_at).map (·.name)

/-- What became of a leg, and why it is thought so. -/
def ruling (done : Bool) (cp : Option (CheckpointView parse)) (job : Option JobView) :
    LegTerminal × String :=
  if done then (.complete, "a metrics record reached ci-data")
  else
    match job.filter (fun job => job.status = "completed" ∧ truthy (stalledStep job)) with
    | some job =>
        (.runnerLost, "job reached a terminal state with '" ++ (stalledStep job).getD "" ++
          "' still in progress — the runner stopped reporting")
    | none =>
        match cp with
        | some cp =>
            if cp.status = "in_progress" ∧ job.all (·.status ≠ "completed") then
              (.runnerLost,
                if job.isSome then
                  "the leg's checkpoint check run was never closed, and its job never reached a " ++
                    "terminal state"
                else
                  "the leg's checkpoint check run was never closed, and no job could be matched to " ++
                    "corroborate")
            else
              (.attemptedIncomplete,
                if cp.status = "in_progress" then
                  "the leg's job completed every step, but its checkpoint was never closed and no " ++
                    "metrics record reached ci-data — a failed close, not a lost runner"
                else "the leg checkpointed and closed, but no metrics record reached ci-data")
        | none =>
            match job with
            | some job =>
                (.attemptedIncomplete, "job ended '" ++ job.conclusion.getD job.status ++
                  "' before the suite could instrument itself")
            | none => (.notStarted, "no job, no checkpoint — the leg never started")

def records (cp : Option (CheckpointView parse)) : List CheckpointRecord :=
  ((cp.bind (·.payload)).bind (·.records)).getD []

def plannedFiles (cp : Option (CheckpointView parse)) : List String :=
  ((cp.bind (·.payload)).bind (·.planned)).getD []

def classifyLeg (leg : PlannedLeg) (completed : Finset String)
    (checkpoints : Record (CheckpointView parse)) (jobs : Record JobView) : LegLedgerEntry :=
  let key := plannedLegKey leg
  let cp := checkpoints.get key
  let job := jobs.get key
  let ruled := ruling (key ∈ completed) cp job
  { platform := leg.id
    target := leg.target
    resolved := leg.resolved
    terminal := ruled.1
    last_file := (records cp).getLast?.map (·.file)
    current_file := (cp.bind (·.payload)).bind (·.current)
    files_reported := cp.map fun _ => (records cp).length
    files_planned := cp.map fun _ => (plannedFiles cp).length
    last_checkpoint_ts := (records cp).getLast?.map (·.ts)
    stalled_step := job.bind stalledStep
    job_conclusion := job.bind (·.conclusion)
    job_elapsed_s := job.bind fun job =>
      if truthy job.started_at && truthy job.completed_at then
        some (elapsed (job.started_at.getD "") (job.completed_at.getD ""))
      else none
    job_matched := job.isSome
    why := ruled.2 }

/-- The loop of `buildRunLedger`: the incomplete legs, and the number of the others. -/
def reconcile (completed : Finset String) (checkpoints : Record (CheckpointView parse))
    (jobs : Record JobView) (planned : List PlannedLeg) : Record LegLedgerEntry × ℕ :=
  planned.foldl (fun (incomplete, complete) leg =>
    let entry := classifyLeg elapsed leg completed checkpoints jobs
    if entry.terminal = .complete then (incomplete, complete + 1)
    else (incomplete.set (plannedLegKey leg) entry, complete)) ([], 0)

def buildRunLedger (planned : List PlannedLeg) (completed : Finset String)
    (checkpoints : Record (CheckpointView parse)) (jobs : Record JobView) (about : Meta) : RunLedger :=
  let (incomplete, complete) := reconcile elapsed completed checkpoints jobs planned
  { about with
    planned := planned.length
    complete
    incomplete := if incomplete = [] then none else some incomplete }

end Classification

structure Output where
  title : String
  summary : String
  text : Option String

/-- A PATCH of a check run, which is set to completed with this output. -/
structure Patch where
  checkRunId : ℕ
  output : Output

section Closing

variable {parse : String → Option Payload}

def renderFinalizedOutput (entry : LegLedgerEntry) (cp : CheckpointView parse) : Output where
  title := entry.terminal.text ++ " — last file " ++ entry.last_file.getD "(none reported)"
  summary := Text.join "\n"
    ["**" ++ entry.terminal.text ++ "** · " ++ entry.why,
      "",
      "- last completed file: `" ++ entry.last_file.getD "—" ++ "`",
      "- was running: `" ++ entry.current_file.getD "—" ++ "`",
      "- files reported: " ++ toString (entry.files_reported.getD 0) ++ "/" ++
        (entry.files_planned.map toString).getD "?",
      "- stalled step: " ++ entry.stalled_step.getD "—",
      "- job elapsed: " ++ (entry.job_elapsed_s.map Number.text).getD "?" ++
        "s (upper bound on the wedge — see #76)",
      "",
      "Closed by the aggregate job; the leg's own runner never reported a terminal."]
  text := cp.payloadText

/-- One round of `finalizeLostCheckRuns`. -/
def closing (checkpoints : Record (CheckpointView parse)) (key : String) (entry : LegLedgerEntry) :
    Option Patch :=
  match checkpoints.get key with
  | none => none
  | some cp =>
      match cp.checkRunId with
      | none => none
      | some id =>
          if id = 0 ∨ cp.status = "completed" then none
          else some { checkRunId := id, output := renderFinalizedOutput entry cp }

def finalizeLostCheckRuns (ledger : RunLedger) (checkpoints : Record (CheckpointView parse)) :
    Record Patch :=
  (ledger.incomplete.getD []).filterMap fun e => (closing checkpoints e.1 e.2).map (e.1, ·)

/-- A check run as it is read once it was closed. -/
def closed (cp : CheckpointView parse) (patch : Patch) : CheckpointView parse where
  status := "completed"
  checkRunId := cp.checkRunId
  payloadText := patch.output.text
  payload := parsePayload parse patch.output.text
  read := rfl

/-- A check run as it is read again, where the PATCHes of the legs in `patched` succeeded. -/
def readAgain (patched : String → Bool) (patches : Record Patch) (key : String)
    (cp : CheckpointView parse) : CheckpointView parse :=
  match patches.get key with
  | some patch => if patched key then closed cp patch else cp
  | none => cp

def reread (patched : String → Bool) (patches : Record Patch)
    (checkpoints : Record (CheckpointView parse)) : Record (CheckpointView parse) :=
  checkpoints.map fun e => (e.1, readAgain patched patches e.1 e.2)

end Closing

section Fold

variable {α : Type}

/-- `r[k] = v`; assigning `__proto__` adds no key. -/
def assignKey (r : Record α) (k : String) (v : α) : Record α :=
  if k = "__proto__" then r else r.set k v

/-- `Object.keys(r).sort()`. -/
def sortedKeys (r : Record α) : List String :=
  (r.map Prod.fst).mergeSort fun a b => decide (Text.Before a b)

/-- One round of the loop over the sorted keys. -/
def copyKey (f : α → α) (r out : Record α) (k : String) : Record α :=
  match r.get k with
  | none => out
  | some v => assignKey out k (f v)

/-- `sortKeysDeep` of an object, with `f` what it makes of the values. -/
def sortKeys (f : α → α) (r : Record α) : Record α := (sortedKeys r).foldl (copyKey f r) []

def RunLedger.sortKeysDeep (ledger : RunLedger) : RunLedger :=
  { ledger with incomplete := ledger.incomplete.map (sortKeys id) }

def foldLedgerInto (existing : Record RunLedger) (runId : String) (ledger : RunLedger) :
    Record RunLedger :=
  sortKeys RunLedger.sortKeysDeep (existing.set runId ledger)

end Fold

/-- The map of all runs: neither a run nor a leg is called `__proto__`. -/
structure Persisted where
  runs : Record RunLedger
  runIds : "__proto__" ∉ runs.map Prod.fst
  legs : ∀ run ∈ runs, "__proto__" ∉ (run.2.incomplete.getD []).map Prod.fst

/-- The same run, whatever the order of its legs. -/
def RunLedger.Same (a b : RunLedger) : Prop :=
  { a with incomplete := none } = { b with incomplete := none } ∧
    (a.incomplete = none ↔ b.incomplete = none) ∧
    ∀ key, (a.incomplete.getD []).get key = (b.incomplete.getD []).get key

structure Verdict where
  terminal : LegTerminal
  last_file : Option String
  last_checkpoint_ts : Option String
  files_reported : Option ℕ
  files_planned : Option ℕ
  deriving DecidableEq

def LegLedgerEntry.verdict (entry : LegLedgerEntry) : Verdict where
  terminal := entry.terminal
  last_file := entry.last_file
  last_checkpoint_ts := entry.last_checkpoint_ts
  files_reported := entry.files_reported
  files_planned := entry.files_planned

/-- What a ledger says of a leg; complete legs are not listed. -/
def RunLedger.verdict (ledger : RunLedger) (leg : PlannedLeg) : Option Verdict :=
  ((ledger.incomplete.getD []).get (plannedLegKey leg)).map (·.verdict)

/-- A leg whose check run is still open when it is closed here has a job that is over. -/
def Settled (completed : Finset String) {parse : String → Option Payload}
    (checkpoints : Record (CheckpointView parse)) (jobs : Record JobView) (patched : String → Bool)
    (leg : PlannedLeg) : Prop :=
  plannedLegKey leg ∉ completed →
    ∀ cp, checkpoints.get (plannedLegKey leg) = some cp → cp.status = "in_progress" →
      (∃ id, cp.checkRunId = some id ∧ id ≠ 0) → patched (plannedLegKey leg) = true →
      ∃ job, jobs.get (plannedLegKey leg) = some job ∧ job.status = "completed"

section

variable {parse : String → Option Payload} {elapsed : String → String → Number}
  {completed : Finset String} {checkpoints : Record (CheckpointView parse)} {jobs : Record JobView}
  {planned : List PlannedLeg} {about : Meta} {leg leg' : PlannedLeg}

theorem ruling_complete {done : Bool} {cp : Option (CheckpointView parse)} {job : Option JobView} :
    (ruling done cp job).1 = .complete ↔ done = true := by
  unfold ruling
  split
  · exact iff_of_true rfl ‹_›
  · refine iff_of_false (fun is => ?_) ‹_›
    split at is
    · cases is
    · split at is
      · split at is <;> cases is
      · split at is <;> cases is

theorem terminal_complete :
    (classifyLeg elapsed leg completed checkpoints jobs).terminal = .complete ↔
      plannedLegKey leg ∈ completed := by
  unfold classifyLeg
  dsimp only
  rw [ruling_complete, decide_eq_true_eq]

theorem verdict_classifyLeg (same : plannedLegKey leg = plannedLegKey leg') :
    (classifyLeg elapsed leg completed checkpoints jobs).verdict =
      (classifyLeg elapsed leg' completed checkpoints jobs).verdict := by
  unfold LegLedgerEntry.verdict classifyLeg
  dsimp only
  rw [same]

theorem reconcile_append (planned : List PlannedLeg) (leg : PlannedLeg) :
    reconcile elapsed completed checkpoints jobs (planned ++ [leg]) =
      if plannedLegKey leg ∈ completed then
        ((reconcile elapsed completed checkpoints jobs planned).1,
          (reconcile elapsed completed checkpoints jobs planned).2 + 1)
      else
        ((reconcile elapsed completed checkpoints jobs planned).1.set (plannedLegKey leg)
            (classifyLeg elapsed leg completed checkpoints jobs),
          (reconcile elapsed completed checkpoints jobs planned).2) := by
  rw [reconcile, List.foldl_append, ← reconcile, List.foldl_cons, List.foldl_nil]
  dsimp only
  simp only [terminal_complete]

theorem complete_reconcile : (reconcile elapsed completed checkpoints jobs planned).2 =
    planned.countP fun leg => plannedLegKey leg ∈ completed := by
  induction planned using List.reverseRecOn with
  | nil => rfl
  | append_singleton planned leg ih =>
      rw [reconcile_append, List.countP_append, List.countP_singleton, ← ih]
      by_cases done : plannedLegKey leg ∈ completed
      · rw [if_pos done, if_pos (decide_eq_true done)]
      · rw [if_neg done, if_neg (by rwa [decide_eq_true_eq])]
        rfl

theorem nodup_reconcile :
    ((reconcile elapsed completed checkpoints jobs planned).1.map Prod.fst).Nodup := by
  induction planned using List.reverseRecOn with
  | nil => exact List.nodup_nil
  | append_singleton planned leg ih =>
      rw [reconcile_append]
      split
      · exact ih
      · exact Record.nodup_set _ _ _ ih

theorem get_reconcile :
    ((reconcile elapsed completed checkpoints jobs planned).1.get (plannedLegKey leg)).map (·.verdict) =
      if plannedLegKey leg ∈ planned.map plannedLegKey ∧ plannedLegKey leg ∉ completed then
        some (classifyLeg elapsed leg completed checkpoints jobs).verdict
      else none := by
  induction planned using List.reverseRecOn with
  | nil =>
      rw [if_neg fun no => List.not_mem_nil no.1]
      rfl
  | append_singleton planned last ih =>
      rw [reconcile_append, List.map_append, List.map_singleton]
      by_cases same : plannedLegKey leg = plannedLegKey last
      · by_cases done : plannedLegKey last ∈ completed
        · rw [if_pos done, ih, if_neg (by rw [same]; exact fun h => h.2 done),
            if_neg (by rw [same]; exact fun h => h.2 done)]
        · rw [if_neg done, if_pos ⟨List.mem_append_right _ (by rw [same]; exact List.mem_singleton_self _),
            by rwa [same]⟩, verdict_classifyLeg same, same, Record.get_set_self, Option.map_some]
      · have among : plannedLegKey leg ∈ planned.map plannedLegKey ++ [plannedLegKey last] ↔
            plannedLegKey leg ∈ planned.map plannedLegKey := by
          rw [List.mem_append, List.mem_singleton, or_iff_left same]
        simp only [among]
        rw [← ih]
        split
        · rfl
        · rw [Record.get_set_ne _ _ _ same]

theorem incomplete_buildRunLedger :
    (buildRunLedger elapsed planned completed checkpoints jobs about).incomplete.getD [] =
      (reconcile elapsed completed checkpoints jobs planned).1 := by
  unfold buildRunLedger
  dsimp only
  split
  · rename_i none
    exact none.symm
  · rfl

/-- A ledger says of the legs that did not complete what was made of each. -/
theorem verdict_buildRunLedger (member : leg ∈ planned) :
    (buildRunLedger elapsed planned completed checkpoints jobs about).verdict leg =
      if plannedLegKey leg ∈ completed then none
      else some (classifyLeg elapsed leg completed checkpoints jobs).verdict := by
  rw [RunLedger.verdict, incomplete_buildRunLedger, get_reconcile]
  by_cases done : plannedLegKey leg ∈ completed
  · rw [if_pos done, if_neg fun h => h.2 done]
  · rw [if_neg done, if_pos ⟨List.mem_map_of_mem member, done⟩]

variable {patched : String → Bool}

/-- What is closed after the first build: the check runs of its incomplete legs that are still open. -/
theorem get_finalizeLostCheckRuns {key : String} :
    (finalizeLostCheckRuns (buildRunLedger elapsed planned completed checkpoints jobs about)
        checkpoints).get key =
      ((reconcile elapsed completed checkpoints jobs planned).1.get key).bind (closing checkpoints key) := by
  rw [finalizeLostCheckRuns, incomplete_buildRunLedger]
  exact Record.get_filterMap key (closing checkpoints) nodup_reconcile

theorem closing_eq_some {key : String} {entry : LegLedgerEntry} {patch : Patch} :
    closing checkpoints key entry = some patch ↔
      ∃ cp id, checkpoints.get key = some cp ∧ cp.checkRunId = some id ∧ id ≠ 0 ∧
        cp.status ≠ "completed" ∧ patch = { checkRunId := id, output := renderFinalizedOutput entry cp } := by
  unfold closing
  constructor
  · intro h
    split at h
    · cases h
    · rename_i cp is
      split at h
      · cases h
      · rename_i id known
        split at h
        · cases h
        · rename_i still
          rw [not_or] at still
          exact ⟨cp, id, is, known, still.1, still.2, (Option.some.inj h).symm⟩
  · rintro ⟨cp, id, is, known, nonzero, still, rfl⟩
    rw [is]
    dsimp only
    rw [known]
    dsimp only
    rw [if_neg (not_or.mpr ⟨nonzero, still⟩)]

/-- How the check run of an incomplete leg is read when the ledger is built again. -/
theorem get_reread (member : leg ∈ planned) (undone : plannedLegKey leg ∉ completed)
    {cp : CheckpointView parse} (is : checkpoints.get (plannedLegKey leg) = some cp) :
    ∃ cp', (reread patched (finalizeLostCheckRuns
        (buildRunLedger elapsed planned completed checkpoints jobs about) checkpoints) checkpoints).get
          (plannedLegKey leg) = some cp' ∧ cp'.payload = cp.payload ∧
      cp'.status = if patched (plannedLegKey leg) = true ∧ cp.checkRunId.getD 0 ≠ 0 then "completed"
        else cp.status := by
  have said := @get_reconcile parse elapsed completed checkpoints jobs planned leg
  rw [if_pos ⟨List.mem_map_of_mem member, undone⟩] at said
  obtain ⟨entry, listed, -⟩ := Option.map_eq_some_iff.mp said
  rw [reread, Record.get_map, is]
  refine ⟨_, rfl, ?_⟩
  rw [readAgain, get_finalizeLostCheckRuns, listed, Option.bind_some]
  cases patch : closing checkpoints (plannedLegKey leg) entry with
  | some patch =>
      obtain ⟨cp', id, is', known, nonzero, -, rfl⟩ := closing_eq_some.mp patch
      rw [is] at is'
      obtain rfl := Option.some.inj is'
      rw [known, Option.getD_some]
      dsimp only
      by_cases success : patched (plannedLegKey leg) = true
      · rw [if_pos success, if_pos ⟨success, nonzero⟩]
        exact ⟨cp.read.symm, rfl⟩
      · rw [if_neg success, if_neg fun h => success h.1]
        exact ⟨rfl, rfl⟩
  | none =>
      refine ⟨rfl, ?_⟩
      dsimp only
      by_cases closable : patched (plannedLegKey leg) = true ∧ cp.checkRunId.getD 0 ≠ 0
      · rw [if_pos closable]
        by_contra still
        cases known : cp.checkRunId with
        | none =>
            rw [known] at closable
            exact closable.2 rfl
        | some id =>
            rw [known] at closable
            have some_ : closing checkpoints (plannedLegKey leg) entry = some _ :=
              closing_eq_some.mpr ⟨cp, id, is, known, closable.2, still, rfl⟩
            rw [patch] at some_
            cases some_
      · rw [if_neg closable]

/-- Legs without a check run, and those that completed, are seen as before. -/
theorem get_reread_none (is : checkpoints.get (plannedLegKey leg) = none) (patches : Record Patch) :
    (reread patched patches checkpoints).get (plannedLegKey leg) = none := by
  rw [reread, Record.get_map, is, Option.map_none]

theorem ruling_of_status {done : Bool} {cp cp' : CheckpointView parse} {job : Option JobView}
    (status : cp'.status = cp.status) : (ruling done (some cp') job).1 = (ruling done (some cp) job).1 := by
  unfold ruling
  dsimp only
  rw [status]

theorem ruling_of_settled {cp cp' : CheckpointView parse} {job : Option JobView}
    (settled : cp.status = "in_progress" → ∃ j, job = some j ∧ j.status = "completed")
    (settled' : cp'.status = "in_progress" → ∃ j, job = some j ∧ j.status = "completed") :
    (ruling false (some cp') job).1 = (ruling false (some cp) job).1 := by
  have last {cp : CheckpointView parse}
      (settled : cp.status = "in_progress" → ∃ j, job = some j ∧ j.status = "completed") :
      ¬ (cp.status = "in_progress" ∧ job.all (·.status ≠ "completed") = true) := by
    rintro ⟨opened, unfinished⟩
    obtain ⟨j, rfl, over_⟩ := settled opened
    rw [Option.all_some, decide_eq_true_eq] at unfinished
    exact unfinished over_
  unfold ruling
  rw [if_neg Bool.false_ne_true, if_neg Bool.false_ne_true]
  split
  · rfl
  · dsimp only
    rw [if_neg (last settled), if_neg (last settled')]

/-- An open check run without a finished job is a lost runner, until the check run is closed. -/
theorem ruling_of_unsettled {cp cp' : CheckpointView parse} {job : Option JobView}
    (opened : cp.status = "in_progress") (unfinished : ¬ ∃ j, job = some j ∧ j.status = "completed")
    (closed : cp'.status = "completed") :
    (ruling false (some cp) job).1 = .runnerLost ∧
      (ruling false (some cp') job).1 = .attemptedIncomplete := by
  have running : job.all (·.status ≠ "completed") = true := by
    cases job with
    | none => rfl
    | some j =>
        rw [Option.all_some, decide_eq_true_eq]
        exact fun over_ => unfinished ⟨j, rfl, over_⟩
  have notOver : job.filter (fun job => job.status = "completed" ∧ truthy (stalledStep job)) = none := by
    cases job with
    | none => rfl
    | some j =>
        rw [Option.filter_some, if_neg]
        rw [decide_eq_true_eq]
        exact fun h => unfinished ⟨j, rfl, h.1⟩
  have other : ¬ (cp'.status = "in_progress" ∧ job.all (·.status ≠ "completed") = true) := by
    rw [closed]
    exact fun h => absurd h.1 (by decide)
  unfold ruling
  rw [if_neg Bool.false_ne_true, if_neg Bool.false_ne_true, notOver]
  dsimp only
  rw [if_pos ⟨opened, running⟩, if_neg other]
  exact ⟨rfl, rfl⟩

/-- Where the payload is the same, the verdicts differ in nothing but the terminal. -/
theorem verdict_eq_iff {checkpoints' : Record (CheckpointView parse)}
    (undone : plannedLegKey leg ∉ completed) {cp cp' : CheckpointView parse}
    (is : checkpoints.get (plannedLegKey leg) = some cp)
    (is' : checkpoints'.get (plannedLegKey leg) = some cp') (payload : cp'.payload = cp.payload) :
    (classifyLeg elapsed leg completed checkpoints' jobs).verdict =
        (classifyLeg elapsed leg completed checkpoints jobs).verdict ↔
      (ruling false (some cp') (jobs.get (plannedLegKey leg))).1 =
        (ruling false (some cp) (jobs.get (plannedLegKey leg))).1 := by
  have read : records (some cp') = records (some cp) ∧ plannedFiles (some cp') = plannedFiles (some cp) := by
    unfold records plannedFiles
    simp only [Option.bind_some, payload]
    exact ⟨trivial, trivial⟩
  have undone_ : decide (plannedLegKey leg ∈ completed) = false := decide_eq_false undone
  unfold LegLedgerEntry.verdict classifyLeg
  dsimp only
  rw [is, is', undone_, read.1, read.2, Verdict.mk.injEq]
  simp only [Option.map_some, and_true]

theorem verdict_again_iff (member : leg ∈ planned) {about' : Meta} :
    (buildRunLedger elapsed planned completed (reread patched (finalizeLostCheckRuns
        (buildRunLedger elapsed planned completed checkpoints jobs about) checkpoints) checkpoints)
        jobs about').verdict leg =
      (buildRunLedger elapsed planned completed checkpoints jobs about).verdict leg ↔
    Settled completed checkpoints jobs patched leg := by
  rw [verdict_buildRunLedger member, verdict_buildRunLedger member]
  by_cases done : plannedLegKey leg ∈ completed
  · rw [if_pos done, if_pos done]
    exact iff_of_true rfl fun undone => absurd done undone
  · rw [if_neg done, if_neg done, Option.some.injEq]
    cases is : checkpoints.get (plannedLegKey leg) with
    | none =>
        refine iff_of_true ?_ fun _ cp is' => by rw [is] at is'; cases is'
        unfold LegLedgerEntry.verdict classifyLeg
        dsimp only
        rw [is, get_reread_none is]
    | some cp =>
        obtain ⟨cp', is', payload, status⟩ := @get_reread parse elapsed completed checkpoints jobs planned
          about leg patched member done cp is
        rw [verdict_eq_iff done is is' payload]
        have known : cp.checkRunId.getD 0 ≠ 0 ↔ ∃ id, cp.checkRunId = some id ∧ id ≠ 0 := by
          cases cp.checkRunId with
          | none => exact iff_of_false (fun no => no rfl) fun ⟨_, is, _⟩ => by cases is
          | some id => exact ⟨fun nonzero => ⟨id, rfl, nonzero⟩, fun ⟨_, is, nonzero⟩ => by
              rwa [Option.some.inj is]⟩
        constructor
        · intro same _ cp'' is'' opened closable success
          rw [is] at is''
          obtain rfl := Option.some.inj is''
          by_contra unfinished
          rw [if_pos ⟨success, known.mpr closable⟩] at status
          obtain ⟨before, after⟩ := ruling_of_unsettled opened unfinished status
          rw [before, after] at same
          cases same
        · intro settled
          by_cases closable : patched (plannedLegKey leg) = true ∧ cp.checkRunId.getD 0 ≠ 0
          · rw [if_pos closable] at status
            refine ruling_of_settled (fun opened => ?_) fun opened => ?_
            · exact settled done cp is opened (known.mp closable.2) closable.1
            · rw [status] at opened
              exact absurd opened (by decide)
          · rw [if_neg closable] at status
            exact ruling_of_status status

end

section

variable {α : Type} {r : Record α} {k : String}

theorem mem_sortedKeys : k ∈ sortedKeys r ↔ k ∈ r.map Prod.fst := List.mem_mergeSort

theorem get_copyKey {f : α → α} {out : Record α} {j : String} (own : k ≠ "__proto__") :
    (copyKey f r out j).get k = if k = j then ((r.get k).map f).or (out.get k) else out.get k := by
  unfold copyKey
  by_cases same : k = j
  · subst same
    rw [if_pos rfl]
    cases r.get k with
    | none => rfl
    | some v =>
        dsimp only
        rw [assignKey, if_neg own, Record.get_set_self]
        rfl
  · rw [if_neg same]
    cases r.get j with
    | none => rfl
    | some v =>
        dsimp only
        rw [assignKey]
        split
        · rfl
        · rw [Record.get_set_ne _ _ _ same]

theorem get_copyKeys {f : α → α} (own : k ≠ "__proto__") (keys : List String) (out : Record α) :
    (keys.foldl (copyKey f r) out).get k =
      if k ∈ keys then ((r.get k).map f).or (out.get k) else out.get k := by
  induction keys generalizing out with
  | nil => rfl
  | cons j keys ih =>
      rw [List.foldl_cons, ih, get_copyKey own]
      by_cases same : k = j
      · rw [if_pos same, if_pos (List.mem_cons.mpr (.inl same))]
        split
        · rw [← Option.or_assoc, Option.or_self]
        · rfl
      · rw [if_neg same]
        simp only [List.mem_cons, same, false_or]

theorem get_sortKeys (f : α → α) (own : k ≠ "__proto__") : (sortKeys f r).get k = (r.get k).map f := by
  rw [sortKeys, get_copyKeys own, Record.get_nil, Option.or_none]
  by_cases member : k ∈ sortedKeys r
  · rw [if_pos member]
  · rw [mem_sortedKeys] at member
    rw [if_neg (by rwa [mem_sortedKeys]), Record.get_eq_none.mpr member, Option.map_none]

theorem proto_not_mem_copyKeys {f : α → α} {out : Record α} (keys : List String)
    (h : "__proto__" ∉ out.map Prod.fst) :
    "__proto__" ∉ (keys.foldl (copyKey f r) out).map Prod.fst := by
  induction keys generalizing out with
  | nil => exact h
  | cons j keys ih =>
      refine ih ?_
      unfold copyKey
      split
      · exact h
      · rw [assignKey]
        split
        · exact h
        · rename_i other
          rw [Record.mem_keys_set, not_or]
          exact ⟨Ne.symm other, h⟩

theorem made_of_mem_copyKeys {f : α → α} {out : Record α} (keys : List String)
    (h : ∀ e ∈ out, ∃ v, e.2 = f v) : ∀ e ∈ keys.foldl (copyKey f r) out, ∃ v, e.2 = f v := by
  induction keys generalizing out with
  | nil => exact h
  | cons j keys ih =>
      refine ih fun e member => ?_
      unfold copyKey at member
      split at member
      · exact h e member
      · rename_i v _
        rw [assignKey] at member
        split at member
        · exact h e member
        · obtain before | rfl := Record.mem_set member
          · exact h e before
          · exact ⟨v, rfl⟩

theorem proto_not_mem_sortKeys (f : α → α) : "__proto__" ∉ (sortKeys f r).map Prod.fst :=
  proto_not_mem_copyKeys _ List.not_mem_nil

end

theorem same_sortKeysDeep {ledger : RunLedger} (legs : "__proto__" ∉ (ledger.incomplete.getD []).map Prod.fst) :
    ledger.sortKeysDeep.Same ledger := by
  refine ⟨rfl, Option.map_eq_none_iff, fun key => ?_⟩
  rw [RunLedger.sortKeysDeep]
  cases is : ledger.incomplete with
  | none => rfl
  | some incomplete =>
      rw [is, Option.getD_some] at legs
      rw [Option.map_some, Option.getD_some, Option.getD_some]
      by_cases own : key = "__proto__"
      · subst own
        rw [Record.get_eq_none.mpr legs, Record.get_eq_none.mpr (proto_not_mem_sortKeys id)]
      · rw [get_sortKeys id own, Option.map_id]
        rfl

/-- Whatever was read, the map that is written is well formed. -/
def Persisted.fold (existing : Record RunLedger) (runId : String) (ledger : RunLedger) : Persisted where
  runs := foldLedgerInto existing runId ledger
  runIds := proto_not_mem_sortKeys _
  legs run member := by
    obtain ⟨ledger, is⟩ := made_of_mem_copyKeys _ (fun _ none => absurd none List.not_mem_nil) run member
    rw [is, RunLedger.sortKeysDeep]
    cases ledger.incomplete with
    | none => exact List.not_mem_nil
    | some incomplete => exact proto_not_mem_sortKeys id

theorem foldLedgerInto_other (persisted : Persisted) {runId run : String} (other : run ≠ runId)
    (ledger : RunLedger) :
    Option.Rel RunLedger.Same ((foldLedgerInto persisted.runs runId ledger).get run)
      (persisted.runs.get run) := by
  by_cases own : run = "__proto__"
  · subst own
    rw [foldLedgerInto, Record.get_eq_none.mpr persisted.runIds,
      Record.get_eq_none.mpr (proto_not_mem_sortKeys _)]
    exact .none
  · rw [foldLedgerInto, get_sortKeys _ own, Record.get_set_ne _ _ _ other]
    cases is : persisted.runs.get run with
    | none => exact .none
    | some ledger => exact .some (same_sortKeysDeep (persisted.legs _ (Record.mem_of_get is)))

section

variable {parse : String → Option Payload} (elapsed : String → String → Number)
  (planned : List PlannedLeg) (completed : Finset String)
  (checkpoints : Record (CheckpointView parse)) (jobs : Record JobView) (patched : String → Bool)
  (about about' : Meta)

/-- The ledger as it is built again, after the check runs of the first one were closed. -/
def rebuilt : RunLedger :=
  let first := buildRunLedger elapsed planned completed checkpoints jobs about
  buildRunLedger elapsed planned completed
    (reread patched (finalizeLostCheckRuns first checkpoints) checkpoints) jobs about'

/-- Building again gives the same verdicts if and only if no check run is closed that alone told of
a lost runner; other runs are kept in any case. -/
theorem rebuilt_same_iff :
    ((∀ leg ∈ planned,
        (rebuilt elapsed planned completed checkpoints jobs patched about about').verdict leg =
          (buildRunLedger elapsed planned completed checkpoints jobs about).verdict leg) ∧
      (rebuilt elapsed planned completed checkpoints jobs patched about about').complete =
        (buildRunLedger elapsed planned completed checkpoints jobs about).complete ∧
      ∀ (persisted : Persisted) (runId run : String), run ≠ runId →
        Option.Rel RunLedger.Same
          ((foldLedgerInto persisted.runs runId
            (rebuilt elapsed planned completed checkpoints jobs patched about about')).get run)
          (persisted.runs.get run)) ↔
    ∀ leg ∈ planned, Settled completed checkpoints jobs patched leg := by
  have counted (cps : Record (CheckpointView parse)) (about : Meta) :
      (buildRunLedger elapsed planned completed cps jobs about).complete =
        planned.countP fun leg => plannedLegKey leg ∈ completed := complete_reconcile
  rw [and_iff_left ⟨by rw [rebuilt, counted, counted], fun persisted runId run other =>
    foldLedgerInto_other persisted other _⟩]
  exact forall₂_congr fun leg member => verdict_again_iff member

end

def lostLeg : PlannedLeg := { id := "macos-x86", target := "stable", resolved := none }

/-- An open check run that no job corroborates. -/
def openCheckpoint (parse : String → Option Payload) : CheckpointView parse where
  status := "in_progress"
  checkRunId := some 42
  payloadText := none
  payload := none
  read := rfl

theorem rebuilt_same_fails :
    ¬ ∀ (parse : String → Option Payload) (elapsed : String → String → Number) (planned : List PlannedLeg)
      (completed : Finset String) (checkpoints : Record (CheckpointView parse)) (jobs : Record JobView)
      (patched : String → Bool) (about about' : Meta), ∀ leg ∈ planned,
      (rebuilt elapsed planned completed checkpoints jobs patched about about').verdict leg =
        (buildRunLedger elapsed planned completed checkpoints jobs about).verdict leg := by
  intro claim
  let parse : String → Option Payload := fun _ => none
  have about : Meta := ⟨"", "", "", ""⟩
  have same := claim parse (fun _ _ => .nan) [lostLeg] ∅ [("macos-x86|stable", openCheckpoint parse)] []
    (fun _ => true) about about lostLeg List.mem_cons_self
  have settled := verdict_again_iff List.mem_cons_self |>.mp same
  have key : plannedLegKey lostLeg = "macos-x86|stable" := by decide
  rw [Settled, key] at settled
  obtain ⟨job, is, -⟩ := settled (Finset.notMem_empty _) (openCheckpoint parse) rfl rfl
    ⟨42, rfl, by decide⟩ rfl
  cases is

end Quickchr.LegLedger
