import Quickchr.Download
import Mathlib.Logic.Function.Basic

/-!
# The files of downloads

Any number of calls for one destination, whose events interleave anyhow. Each writes a part file of
its own, and the destination changes by the rename of one that is complete.
-/
namespace Quickchr.Download
open Transition

variable {ε : Type}

theorem partPath_ne_dest (req : Request) : req.partPath ≠ req.destPath := by
  intro same
  have lengths := congrArg (fun s => s.toList.length) same
  simp only [Request.partPath, String.toList_append, List.length_append] at lengths
  have dot : (".".toList).length = 1 := rfl
  omega

theorem partPath_injective {req req' : Request} (dest : req.destPath = req'.destPath)
    (same : req.partPath = req'.partPath) : req.suffix = req'.suffix := by
  unfold Request.partPath at same
  have lists := congrArg String.toList same
  simp only [dest, String.toList_append, List.append_assoc, List.append_cancel_left_eq,
    List.append_cancel_right_eq] at lists
  exact String.toList_inj.mp lists

abbrev Files := String → Option (List UInt8)

/-- What an operation makes of the files. A rename needs the file that it renames. -/
def FileOp.apply (req : Request) (files : Files) : FileOp → Files
  | .openPart => Function.update files req.partPath (some [])
  | .write data => Function.update files req.partPath ((files req.partPath).map (· ++ data))
  | .publish =>
      match files req.partPath with
      | some content =>
          Function.update (Function.update files req.destPath (some content)) req.partPath none
      | none => files
  | .unlink => Function.update files req.partPath none

theorem FileOp.apply_others {req : Request} {files : Files} {op : FileOp} {path : String}
    (notPart : path ≠ req.partPath) (notDest : path ≠ req.destPath) :
    op.apply req files path = files path := by
  cases op with
  | openPart => exact Function.update_of_ne notPart ..
  | write data => exact Function.update_of_ne notPart ..
  | publish =>
      simp only [FileOp.apply]
      cases files req.partPath with
      | none => rfl
      | some content =>
          dsimp only
          rw [Function.update_of_ne notPart, Function.update_of_ne notDest]
  | unlink => exact Function.update_of_ne notPart ..

theorem FileOp.apply_dest {req : Request} {files : Files} {op : FileOp} (h : op ≠ .publish) :
    op.apply req files req.destPath = files req.destPath := by
  cases op with
  | publish => exact absurd rfl h
  | openPart => exact Function.update_of_ne (partPath_ne_dest req).symm ..
  | write data => exact Function.update_of_ne (partPath_ne_dest req).symm ..
  | unlink => exact Function.update_of_ne (partPath_ne_dest req).symm ..

/-- Calls for one destination, whose part files have distinct names. -/
structure Downloads where
  destPath : String
  request : ℕ → Request
  sameDest : ∀ i, (request i).destPath = destPath
  distinct : ∀ i j, (request i).suffix = (request j).suffix → i = j

namespace Downloads

variable (d : Downloads)

def part (i : ℕ) : String := (d.request i).partPath

theorem part_injective {i j : ℕ} (h : d.part i = d.part j) : i = j :=
  d.distinct i j (partPath_injective ((d.sameDest i).trans (d.sameDest j).symm) h)

theorem part_ne_dest (i : ℕ) : d.part i ≠ d.destPath := by
  rw [← d.sameDest i]
  exact partPath_ne_dest (d.request i)

end Downloads

structure World (ε : Type) where
  files : Files
  calls : ℕ → Call ε

/-- The files and the calls, of which the one at `e.1` takes the event at `e.2`. -/
def downloads (host : Host ε) (d : Downloads) : System (World ε) (ℕ × Moment ε) where
  Initial w := (∀ i, w.calls i = {}) ∧ ∀ i, w.files (d.part i) = none
  next w e := (Call.step host (d.request e.1) e.2 (w.calls e.1)).map fun next =>
    { files := next.2.foldl (FileOp.apply (d.request e.1)) w.files
      calls := Function.update w.calls e.1 next.1 }

/-- A chunk may still come, or the sink is not closed after the last one. -/
def Attempt.Streams (a : Attempt ε) : Prop := a.awaits = .chunk ∨ a.awaits = .sinkEnd

/-- While it streams, what an attempt has written is what its part file holds. -/
structure Attempt.Writes (host : Host ε) (a : Attempt ε) (file : Option (List UInt8)) : Prop where
  file : file = some a.seen.wrote
  bytes : a.bytes = a.seen.wrote.length
  expected : a.expected = declaredLength host a.seen.contentLength

/-- What an attempt has written is complete: not empty, and as long as was declared. -/
def Complete (host : Host ε) (seen : Seen) : Prop :=
  0 < seen.wrote.length ∧
    ∀ n, declaredLength host seen.contentLength = some n → seen.wrote.length = n

/-- The part file after an operation, if there is one. -/
def partAfter (file : Option (List UInt8)) : Option FileOp → Option (List UInt8)
  | none => file
  | some .openPart => some []
  | some (.write data) => file.map (· ++ data)
  | some .publish => none
  | some .unlink => none

theorem FileOp.apply_part {req : Request} {files : Files} {op : FileOp}
    (there : op = .publish → files req.partPath ≠ none) :
    op.apply req files req.partPath = partAfter (files req.partPath) (some op) := by
  cases op with
  | openPart => exact Function.update_self ..
  | write data => exact Function.update_self ..
  | publish =>
      simp only [FileOp.apply]
      cases part : files req.partPath with
      | none => exact absurd part (there rfl)
      | some content => exact Function.update_self ..
  | unlink => exact Function.update_self ..

section Attempt

variable {host : Host ε} {req : Request} {now : ℕ} {a : Attempt ε} {file : Option (List UInt8)}

/-- What an event makes of an attempt and of its part file. -/
def Keeps (host : Host ε) (file : Option (List UInt8)) : Progress ε → Prop
  | .goes a op => op ≠ some .publish ∧ (a.Streams → a.Writes host (partAfter file op))
  | .returns a _ => a.Writes host file ∧ Complete host a.seen
  | .throws _ _ _ => True

theorem goes_keeps (inv : a.Streams → a.Writes host file) : Keeps host file (.goes a none) := by
  refine ⟨fun publishes => ?_, inv⟩
  cases publishes

theorem Attempt.Writes.congr {a' : Attempt ε} (h : a.Writes host file)
    (seen : a'.seen.wrote = a.seen.wrote ∧ a'.seen.contentLength = a.seen.contentLength)
    (bytes : a'.bytes = a.bytes) (expected : a'.expected = a.expected) : a'.Writes host file where
  file := by rw [seen.1]; exact h.file
  bytes := by rw [seen.1, bytes]; exact h.bytes
  expected := by rw [seen.2, expected]; exact h.expected

theorem not_streams_release {status : ℕ} (h : a.awaits = .release status) : ¬ a.Streams := by
  unfold Attempt.Streams
  rw [h]
  simp

theorem not_streams_sinkClose {error : AttemptError ε} {before : Option DownloadDeadline}
    (h : a.awaits = .sinkClose error before) : ¬ a.Streams := by
  unfold Attempt.Streams
  rw [h]
  simp

theorem Attempt.onResponse_keeps {status : ℕ} {contentLength : Option String} {hasBody : Bool}
    {openFails : Option ε} (fresh : a.bytes = 0 ∧ a.seen.wrote = []) :
    Keeps host file (a.onResponse host req now status contentLength hasBody openFails) := by
  unfold Attempt.onResponse
  dsimp only
  split
  · exact goes_keeps fun streams => absurd streams (not_streams_release rfl)
  · split
    · trivial
    · split
      · trivial
      · refine ⟨fun publishes => ?_, fun _ => ⟨?_, ?_, rfl⟩⟩
        · cases publishes
        · exact congrArg some fresh.2.symm
        · dsimp only
          rw [fresh.1, fresh.2]
          rfl

theorem Attempt.complete_keeps (writes : a.Writes host file) :
    Keeps host file (a.complete now) := by
  unfold Attempt.complete
  split
  · trivial
  · rename_i some_
    split
    · trivial
    · rename_i exact_
      refine ⟨writes, by rw [← writes.bytes]; omega, fun n declared => ?_⟩
      rw [writes.expected, declared] at exact_
      rw [← writes.bytes]
      simpa using exact_

/-- Until a response is taken, nothing is written. -/
def Attempt.Fresh (a : Attempt ε) : Prop :=
  a.awaits = .response → a.bytes = 0 ∧ a.seen.wrote = []

theorem Attempt.steps_keeps {event : Event ε} {p : Progress ε}
    (h : Attempt.Steps host req now a event p) (fresh : a.Fresh)
    (inv : a.Streams → a.Writes host file) : Keeps host file p := by
  cases h with
  | stallFires _ _ =>
      exact goes_keeps (fun streams => (inv streams).congr ⟨rfl, rfl⟩ rfl rfl)
  | budgetFires _ _ =>
      exact goes_keeps (fun streams => (inv streams).congr ⟨rfl, rfl⟩ rfl rfl)
  | response at_ => exact Attempt.onResponse_keeps (fresh at_)
  | fetchFails _ => trivial
  | released _ => trivial
  | chunk at_ =>
      obtain ⟨isFile, bytes, expected⟩ := inv (.inl at_)
      refine ⟨fun publishes => ?_, fun _ => ⟨?_, ?_, expected⟩⟩
      · cases publishes
      · rw [isFile]
        rfl
      · dsimp only
        rw [List.length_append, bytes]
  | bodyFails _ => exact goes_keeps (fun streams => absurd streams (not_streams_sinkClose rfl))
  | bodyEnds at_ => exact goes_keeps (fun _ => (inv (.inl at_)).congr ⟨rfl, rfl⟩ rfl rfl)
  | sinkFails _ => exact goes_keeps (fun streams => absurd streams (not_streams_sinkClose rfl))
  | sinkEnds at_ => exact Attempt.complete_keeps (inv (.inr at_))
  | sinkClosed _ => trivial

theorem Attempt.steps_fresh {event : Event ε} {a' : Attempt ε} {op : Option FileOp}
    (h : Attempt.Steps host req now a event (.goes a' op)) (fresh : a.Fresh) : a'.Fresh := by
  intro at_
  generalize goes : Progress.goes a' op = p at h
  cases h with
  | stallFires _ _ => cases goes; exact fresh at_
  | budgetFires _ _ => cases goes; exact fresh at_
  | response _ =>
      unfold Attempt.onResponse at goes
      dsimp only at goes
      split at goes
      · cases goes; cases at_
      · split at goes
        · cases goes
        · split at goes
          · cases goes
          · cases goes; cases at_
  | fetchFails _ => cases goes
  | released _ => cases goes
  | chunk chunk => cases goes; exact absurd (chunk.symm.trans at_) (by simp)
  | bodyFails _ => cases goes; cases at_
  | bodyEnds _ => cases goes; cases at_
  | sinkFails _ => cases goes; cases at_
  | sinkEnds _ =>
      unfold Attempt.complete at goes
      split at goes
      · cases goes
      · split at goes
        · cases goes
        · cases goes
  | sinkClosed _ => cases goes

theorem Attempt.steps_returns {event : Event ε} {a' : Attempt ε} {outcome : TransferOutcome}
    (h : Attempt.Steps host req now a event (.returns a' outcome)) : a' = a := by
  generalize returns : Progress.returns a' outcome = p at h
  cases h with
  | sinkEnds _ =>
      unfold Attempt.complete at returns
      split at returns
      · cases returns
      · split at returns
        · cases returns
        · cases returns
          rfl
  | response _ =>
      unfold Attempt.onResponse at returns
      dsimp only at returns
      split at returns
      · cases returns
      · split at returns
        · cases returns
        · split at returns <;> cases returns
  | stallFires _ _ => cases returns
  | budgetFires _ _ => cases returns
  | fetchFails _ => cases returns
  | released _ => cases returns
  | chunk _ => cases returns
  | bodyFails _ => cases returns
  | bodyEnds _ => cases returns
  | sinkFails _ => cases returns
  | sinkClosed _ => cases returns

end Attempt

/-- What holds of a call and its part file between two events. -/
def Call.Tidy (host : Host ε) (c : Call ε) (file : Option (List UInt8)) : Prop :=
  match c.phase with
  | .idle => file = none ∧ c.failed = []
  | .attempting _ a => a.Fresh ∧ (a.Streams → a.Writes host file)
  | .sleeping _ _ => True
  | .returned _ => True
  | .threw _ => (∀ r, c.failed.head? = some r → r.unlinked = true) → file = none

section Call

variable {host : Host ε} {req : Request} {m : Moment ε} {c : Call ε} {file : Option (List UInt8)}

theorem Attempt.launch_fresh {now : ℕ} : (Attempt.launch req now : Attempt ε).Fresh :=
  fun _ => ⟨rfl, rfl⟩

theorem Attempt.launch_not_streams {now : ℕ} : ¬ (Attempt.launch req now : Attempt ε).Streams := by
  unfold Attempt.Streams Attempt.launch
  simp

/-- What a step of a call does to its part file and to the destination. -/
structure Call.Acts (host : Host ε) (file : Option (List UInt8)) (c : Call ε)
    (next : Call ε × List FileOp) : Prop where
  tidy : next.1.Tidy host (next.2.foldl (fun file op => partAfter file (some op)) file)
  publishes : .publish ∈ next.2 → next.2 = [.publish] ∧ ∃ number a outcome,
    c.phase = .attempting number a ∧ file = some a.seen.wrote ∧ Complete host a.seen ∧
    next.1.phase = .returned outcome

theorem Call.fails_acts {record : Record ε} (unlinked : record.unlinked = m.unlinks) :
    Call.Acts host file c (c.fails host req m record) := by
  refine ⟨?_, fun publishes => ?_⟩
  · unfold Call.fails Call.Tidy Call.afterFailure
    dsimp only
    have removed : (∀ r, (record :: c.failed).head? = some r → r.unlinked = true) →
        (if m.unlinks = true then [FileOp.unlink] else []).foldl
          (fun file op => partAfter file (some op)) file = none := by
      intro works
      rw [if_pos (unlinked.symm.trans (works record rfl))]
      rfl
    cases verdict host record.thrown with
    | throws error => exact removed
    | retries =>
        by_cases more : record.number < req.attempts
        · simp only [if_pos more]
        · simp only [if_neg more]
          exact removed
  · unfold Call.fails at publishes
    dsimp only at publishes
    split at publishes
    · cases List.mem_singleton.mp publishes
    · cases publishes

theorem Call.steps_acts {next : Call ε × List FileOp} (h : Call.Steps host req m c next)
    (tidy : c.Tidy host file) : Call.Acts host file c next := by
  unfold Call.Tidy at tidy
  cases h with
  | begins at_ =>
      rw [at_] at tidy
      refine ⟨?_, fun publishes => by cases publishes⟩
      unfold Call.Tidy Call.begins
      dsimp only
      by_cases some_ : 1 ≤ req.attempts
      · simp only [if_pos some_]
        exact ⟨Attempt.launch_fresh, fun streams => absurd streams Attempt.launch_not_streams⟩
      · simp only [if_neg some_]
        exact fun _ => tidy.1
  | wakes at_ awake =>
      exact ⟨⟨Attempt.launch_fresh, fun streams => absurd streams Attempt.launch_not_streams⟩,
        fun publishes => by cases publishes⟩
  | @attempts number a p at_ stepped =>
      rw [at_] at tidy
      obtain ⟨fresh, inv⟩ := tidy
      have keeps := Attempt.steps_keeps stepped fresh fun streams =>
        (inv streams).congr ⟨rfl, rfl⟩ rfl rfl
      cases p with
      | goes a' op =>
          have stays := Attempt.steps_fresh stepped fresh
          obtain ⟨notPublish, writes⟩ := keeps
          cases op with
          | none => exact ⟨⟨stays, writes⟩, fun publishes => by cases publishes⟩
          | some op =>
              refine ⟨⟨stays, writes⟩, fun publishes => ?_⟩
              exact absurd (congrArg some (List.mem_singleton.mp publishes).symm) notPublish
      | throws a' error before => exact Call.fails_acts rfl
      | returns a' outcome =>
          unfold Call.onProgress
          cases m.renameFails with
          | some e => exact Call.fails_acts rfl
          | none =>
              obtain ⟨writes, complete⟩ := keeps
              cases Attempt.steps_returns stepped
              exact ⟨trivial, fun _ => ⟨rfl, number, a, outcome, at_, writes.file, complete, rfl⟩⟩

end Call

section Downloads

variable {host : Host ε} {d : Downloads} {w w' : World ε} {i : ℕ} {m : Moment ε}

theorem downloads_next (h : (downloads host d).next w (i, m) = some w') :
    ∃ next, Call.Steps host (d.request i) m (w.calls i) next ∧
      w'.files = next.2.foldl (FileOp.apply (d.request i)) w.files ∧
      w'.calls = Function.update w.calls i next.1 := by
  obtain ⟨next, stepped, rfl⟩ := Option.map_eq_some_iff.mp h
  exact ⟨next, (Call.steps_of_step stepped).2, rfl, rfl⟩

theorem foldl_apply_others {req : Request} {ops : List FileOp} {files : Files} {path : String}
    (notPart : path ≠ req.partPath) (notDest : path ≠ req.destPath) :
    ops.foldl (FileOp.apply req) files path = files path := by
  induction ops generalizing files with
  | nil => rfl
  | cons op ops ih => exact ih.trans (FileOp.apply_others notPart notDest)

theorem foldl_apply_dest {req : Request} {ops : List FileOp} {files : Files}
    (none : .publish ∉ ops) : ops.foldl (FileOp.apply req) files req.destPath = files req.destPath := by
  induction ops generalizing files with
  | nil => rfl
  | cons op ops ih =>
      rw [List.mem_cons, not_or] at none
      exact (ih none.2).trans (FileOp.apply_dest (Ne.symm none.1))

theorem foldl_apply_part {req : Request} {ops : List FileOp} {files : Files}
    (there : .publish ∈ ops → ops = [.publish] ∧ files req.partPath ≠ none) :
    ops.foldl (FileOp.apply req) files req.partPath =
      ops.foldl (fun file op => partAfter file (some op)) (files req.partPath) := by
  by_cases publishes : .publish ∈ ops
  · obtain ⟨rfl, part⟩ := there publishes
    exact @FileOp.apply_part req files .publish fun _ => part
  · clear there
    induction ops generalizing files with
    | nil => rfl
    | cons op ops ih =>
        rw [List.mem_cons, not_or] at publishes
        rw [List.foldl_cons, List.foldl_cons, ih publishes.2,
          FileOp.apply_part fun eq => absurd eq.symm publishes.1]

def World.Tidy (host : Host ε) (d : Downloads) (w : World ε) : Prop :=
  ∀ i, (w.calls i).Tidy host (w.files (d.part i))

theorem World.Tidy.acts (tidy : w.Tidy host d) {next : Call ε × List FileOp}
    (stepped : Call.Steps host (d.request i) m (w.calls i) next) :
    Call.Acts host (w.files (d.part i)) (w.calls i) next :=
  Call.steps_acts stepped (tidy i)

theorem World.Tidy.next (tidy : w.Tidy host d) (h : (downloads host d).next w (i, m) = some w') :
    w'.Tidy host d := by
  obtain ⟨next, stepped, files, calls⟩ := downloads_next h
  obtain ⟨own, publishes⟩ := tidy.acts stepped
  intro j
  rw [files, calls]
  by_cases same : j = i
  · subst same
    rw [Function.update_self]
    have part := @foldl_apply_part (d.request j) next.2 w.files fun member => by
      obtain ⟨only, number, a, outcome, -, isFile, -, -⟩ := publishes member
      refine ⟨only, fun missing => ?_⟩
      have isFile : w.files (d.request j).partPath = some a.seen.wrote := isFile
      rw [isFile] at missing
      cases missing
    rw [Downloads.part, part]
    exact own
  · rw [Function.update_of_ne same, foldl_apply_others]
    · exact tidy j
    · exact fun eq => same (d.part_injective eq)
    · rw [d.sameDest i]
      exact d.part_ne_dest j

theorem downloads_tidy (h : (downloads host d).Reachable w) : w.Tidy host d := by
  refine System.ReachableUnder.invariant (I := fun w => w.Tidy host d) ?_ ?_ h
  · rintro w ⟨idle, none⟩ i
    rw [idle i]
    exact ⟨none i, rfl⟩
  · rintro w ⟨i, m⟩ w' - tidy - next
    exact tidy.next next

/-- The step of a call that renames its complete part file to the destination, and returns. -/
structure Publishes (host : Host ε) (d : Downloads) (w : World ε) (i : ℕ) (w' : World ε) : Prop where
  renamed : ∃ content, w.files (d.part i) = some content ∧
    w'.files = Function.update (Function.update w.files d.destPath (some content)) (d.part i) none
  complete : ∃ number a, (w.calls i).phase = .attempting number a ∧
    w.files (d.part i) = some a.seen.wrote ∧ Complete host a.seen
  returned : ∃ outcome, (w'.calls i).phase = .returned outcome

theorem publishes_of_changed (tidy : w.Tidy host d)
    (h : (downloads host d).next w (i, m) = some w')
    (changed : w'.files d.destPath ≠ w.files d.destPath) : Publishes host d w i w' := by
  obtain ⟨next, stepped, files, calls⟩ := downloads_next h
  obtain ⟨-, publishes⟩ := tidy.acts stepped
  have member : .publish ∈ next.2 := by
    by_contra none
    refine changed ?_
    rw [files, ← d.sameDest i]
    exact foldl_apply_dest none
  obtain ⟨only, number, a, outcome, at_, isFile, complete, returned⟩ := publishes member
  refine ⟨⟨a.seen.wrote, isFile, ?_⟩, ⟨number, a, at_, isFile, complete⟩, ⟨outcome, ?_⟩⟩
  · have isFile : w.files (d.request i).partPath = some a.seen.wrote := isFile
    rw [files, only, ← d.sameDest i]
    simp only [List.foldl_cons, List.foldl_nil, FileOp.apply, isFile, Downloads.part]
  · rw [calls, Function.update_self]
    exact returned

theorem returned_stays {outcome : TransferOutcome} (at_ : (w.calls i).phase = .returned outcome)
    (l : (downloads host d).Leads w w') : (w'.calls i).phase = .returned outcome := by
  induction l with
  | refl => exact at_
  | @tail w w' e _ next ih =>
      obtain ⟨j, m⟩ := e
      obtain ⟨after, stepped, -, calls⟩ := downloads_next next
      rw [calls]
      by_cases same : i = j
      · subst same
        cases stepped with
        | begins idle => rw [ih] at idle; cases idle
        | wakes sleeping _ => rw [ih] at sleeping; cases sleeping
        | attempts attempting _ => rw [ih] at attempting; cases attempting
      · rw [Function.update_of_ne same]
        exact ih

/-- What downloads for one destination do to its files. -/
structure PublishesOnlyComplete (host : Host ε) (d : Downloads) (w : World ε) : Prop where
  /-- The destination changes by the rename of a complete part file only. -/
  changes : ∀ i m w', (downloads host d).next w (i, m) = some w' →
    w'.files d.destPath ≠ w.files d.destPath → Publishes host d w i w'
  /-- A call writes no file but the destination and a part file that no other call writes. -/
  own : ∀ i m w', (downloads host d).next w (i, m) = some w' → ∀ path, path ≠ d.destPath →
    path ≠ d.part i → w'.files path = w.files path
  parts : ∀ i j, i ≠ j → d.part i ≠ d.part j
  /-- A call that has changed the destination does not throw. -/
  unchanged : ∀ i m w' w'', (downloads host d).next w (i, m) = some w' →
    w'.files d.destPath ≠ w.files d.destPath → (downloads host d).Leads w' w'' →
    ∀ error, (w''.calls i).phase ≠ .threw error
  /-- A call that has thrown has left no part file, if its last `unlink` worked. -/
  removed : ∀ i error, (w.calls i).phase = .threw error →
    (∀ r, (w.calls i).failed.head? = some r → r.unlinked = true) → w.files (d.part i) = none

end Downloads

/-- Two calls for one image, with part files `a` and `aa`. -/
def imageDownloads : Downloads where
  destPath := "cache/chr.img.zip"
  request i :=
    { url := "https://download.mikrotik.com/chr.img.zip", hostname := "download.mikrotik.com"
      proxyConfigured := false, destPath := "cache/chr.img.zip"
      suffix := String.ofList (List.replicate (i + 1) 'a')
      maxAttempts := none, stallMs := none, budgetMs := none }
  sameDest _ := rfl
  distinct i j same := by
    have lengths := congrArg List.length (String.ofList_injective same)
    simpa using lengths

/-- Two bytes are declared; all that is read as a number is their count. -/
def twoBytes : Host Unit where
  number _ := some 2
  isProxyRefusal _ := false

def interleaved : List (ℕ × Moment Unit) :=
  [(0, { now := 0, event := .begins }), (1, { now := 0, event := .begins }),
   (0, { now := 5, event := .response 200 (some "2") true none }),
   (0, { now := 6, event := .chunk [1] }),
   (1, { now := 7, event := .response 200 (some "2") true none }),
   (1, { now := 8, event := .chunk [3, 4] }), (0, { now := 9, event := .chunk [2] }),
   (0, { now := 9, event := .bodyEnds })]

end Quickchr.Download
