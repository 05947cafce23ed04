import Quickchr.RestDelivery
import Quickchr.Lib.Base64
import Quickchr.Lib.Record

/-!
# Text that goes through the guest agent

Files are written and read, and scripts are run, by commands that carry their data in base64. The
program writes and reads that base64 with `btoa` and `atob`; the agent keeps bytes.
-/
namespace Quickchr.QgaFiles

open Base64

structure Handle where
  path : String
  position : ℕ := 0

structure Agent where
  files : Record (List UInt8)
  /-- Each handle that was ever given out, by its number. -/
  handles : List (Option Handle) := []

def refused (reason : String) : Thrown :=
  .quickchr { code := .PROCESS_FAILED, message := s!"QGA error: {reason}" } none

inductive Mode
  | r | w
  deriving DecidableEq

def Agent.fileOpen (agent : Agent) (path : String) : Mode → Agent × Except Thrown ℕ
  | .w =>
      ({ files := agent.files.set path [], handles := agent.handles ++ [some { path }] },
        .ok agent.handles.length)
  | .r =>
      match agent.files.get path with
      | some _ => ({ agent with handles := agent.handles ++ [some { path }] }, .ok agent.handles.length)
      | none => (agent, .error (refused s!"failed to open file '{path}'"))

def Agent.handle (agent : Agent) (n : ℕ) : Option Handle := (agent.handles[n]?).join

/-- The bytes are put where the handle stands. -/
def Agent.fileWrite (agent : Agent) (n : ℕ) (bufB64 : String) : Agent × Except Thrown ℕ :=
  match agent.handle n, Base64.decode bufB64.toList with
  | none, _ => (agent, .error (refused s!"handle '{n}' has not been found"))
  | some _, none => (agent, .error (refused "failed to decode buf-b64"))
  | some handle, some bytes =>
      let content := (agent.files.get handle.path).getD []
      let position := handle.position + bytes.length
      ({ files := agent.files.set handle.path
          (content.take handle.position ++ bytes ++ content.drop position)
         handles := agent.handles.set n (some { handle with position }) }, .ok bytes.length)

/-- At most `count` bytes, from where the handle stands. -/
def Agent.fileRead (agent : Agent) (n count : ℕ) : Agent × Except Thrown String :=
  match agent.handle n with
  | none => (agent, .error (refused s!"handle '{n}' has not been found"))
  | some handle =>
      let bytes := (((agent.files.get handle.path).getD []).drop handle.position).take count
      ({ agent with
          handles := agent.handles.set n (some { handle with position := handle.position + bytes.length }) },
        .ok (String.ofList (Base64.encode bytes)))

def Agent.fileClose (agent : Agent) (n : ℕ) : Agent := { agent with handles := agent.handles.set n none }

/-- The text in a field of a reply; an absent or empty one is no text. -/
def textOf (field : Option String) : Except Thrown String :=
  match field with
  | none => .ok ""
  | some data => if data = "" then .ok "" else (atob data).elim (.error .invalidCharacter) .ok

def qgaFileWrite (agent : Agent) (filename content : String) : Agent × Except Thrown Unit :=
  match agent.fileOpen filename .w with
  | (agent, .error e) => (agent, .error e)
  | (agent, .ok handle) =>
      -- the file is open, and empty, before the content is encoded
      match Base64.btoa content with
      | none => (agent, .error .invalidCharacter)
      | some encoded =>
          match agent.fileWrite handle encoded with
          | (agent, .error e) => (agent, .error e)
          | (agent, .ok _) => (agent.fileClose handle, .ok ())

def READ_COUNT : ℕ := 1048576

def qgaFileRead (agent : Agent) (filename : String) : Agent × Except Thrown String :=
  match agent.fileOpen filename .r with
  | (agent, .error e) => (agent, .error e)
  | (agent, .ok handle) =>
      match agent.fileRead handle READ_COUNT with
      | (agent, .error e) => (agent, .error e)
      | (agent, .ok bufB64) =>
          match textOf (some bufB64) with
          | .error e => (agent, .error e)
          | .ok content => (agent.fileClose handle, .ok content)

/-- What a script does in the guest. An output that is not sent back is `none`. -/
structure Execution where
  /-- The queries that are answered before it has exited. -/
  pending : ℕ
  exitcode : Option ℤ
  out : Option (List UInt8)
  err : Option (List UInt8)

structure QgaExecResult where
  exitcode : ℤ
  stdout : String
  stderr : String
  deriving DecidableEq, Repr

def EXEC_MAX_POLLS : ℕ := 40

def sentBack (bytes : Option (List UInt8)) : Option String :=
  bytes.map fun bytes => String.ofList (Base64.encode bytes)

def exited (execution : Execution) : Except Thrown QgaExecResult := do
  let stdout ← textOf (sentBack execution.out)
  let stderr ← textOf (sentBack execution.err)
  return { exitcode := execution.exitcode.getD 0, stdout, stderr }

/-- The queries from `i` on, with `left` of them to spare. -/
def poll (execution : Execution) (late : Thrown) (now : ℕ → ℕ) (deadline : ℕ) :
    (left i : ℕ) → Except Thrown QgaExecResult
  | 0, _ => .error late
  | left + 1, i =>
      if now i < deadline then
        if execution.pending ≤ i then exited execution else poll execution late now deadline left (i + 1)
      else .error late

/-- A run of a script: the bytes that the guest was given, and the result. -/
structure ExecRun where
  given : Option (List UInt8)
  result : Except Thrown QgaExecResult

/-- `now i` is the time right before query `i`, counted from the reply with the PID. -/
def qgaExec (guest : List UInt8 → ℕ × Execution) (now : ℕ → ℕ) (script : String) (timeoutMs : ℕ) : ExecRun :=
  match Base64.btoa script with
  | none => { given := none, result := .error .invalidCharacter }
  | some inputData =>
      match Base64.decode inputData.toList with
      | none => { given := none, result := .error (refused "failed to decode input-data") }
      | some bytes =>
          let (pid, execution) := guest bytes
          let late := Thrown.quickchr
            { code := .BOOT_TIMEOUT
              message := s!"QGA guest-exec PID {pid} did not exit within {timeoutMs}ms" } none
          { given := some bytes, result := poll execution late now timeoutMs EXEC_MAX_POLLS 0 }

variable {agent : Agent} {filename content : String} {bytes : List UInt8}

theorem textOf_encode :
    textOf (some (String.ofList (Base64.encode bytes))) = .ok (String.ofList (bytes.map charOf)) := by
  unfold textOf
  dsimp only
  split
  · rename_i empty
    have nothing : bytes = [] := encode_injective (String.ofList_injective empty)
    rw [nothing]
    rfl
  · rw [atob, String.toList_ofList, decode_encode]
    rfl

/-- UTF-8 that is read as one character a byte is the text just when the text is ASCII. -/
theorem map_charOf_eq_iff {text : String} :
    String.ofList ((Utf8.encode text.toList).map charOf) = text ↔ Ascii text := by
  constructor
  · intro same
    by_contra other
    obtain ⟨c, outside⟩ := not_forall.mp other
    obtain ⟨member, large⟩ := Classical.not_imp.mp outside
    have more := Utf8.length_lt_encode member (Nat.le_of_not_lt large)
    have lengths := congrArg List.length (congrArg String.toList same)
    rw [String.toList_ofList, List.length_map] at lengths
    omega
  · intro ascii
    have back := atob_btoa (btoa_ascii ascii)
    rw [atob, ofUtf8, String.toList_ofList, decode_encode] at back
    exact Option.some.inj back

theorem decode_btoa {sent : String} (h : Base64.btoa content = some sent) :
    Base64.decode sent.toList = some (content.toList.map byteOf) := by
  obtain ⟨-, written⟩ := Option.ite_none_right_eq_some.mp h
  rw [← Option.some.inj written, String.toList_ofList, decode_encode]

theorem handle_opened (agent : Agent) (path : String) :
    ({ agent with handles := agent.handles ++ [some { path }] } : Agent).handle agent.handles.length =
      some { path } := by
  rw [Agent.handle, List.getElem?_concat_length]
  rfl

theorem qgaFileWrite_bytes {encoded : String} (h : Base64.btoa content = some encoded) :
    (qgaFileWrite agent filename content).2 = .ok () ∧
      (qgaFileWrite agent filename content).1.files.get filename = some (content.toList.map byteOf) := by
  have opened := handle_opened { agent with files := agent.files.set filename [] } filename
  unfold qgaFileWrite Agent.fileOpen
  dsimp only
  rw [h]
  dsimp only
  unfold Agent.fileWrite
  rw [opened, decode_btoa h]
  dsimp only
  refine ⟨rfl, ?_⟩
  rw [Agent.fileClose, Record.get_set_self, Record.get_set_self, Option.getD_some, List.take_nil,
    List.drop_nil, List.nil_append, List.append_nil]

theorem qgaFileWrite_refused (h : Base64.btoa content = none) :
    (qgaFileWrite agent filename content).2 = .error .invalidCharacter ∧
      (qgaFileWrite agent filename content).1.files.get filename = some [] := by
  unfold qgaFileWrite Agent.fileOpen
  dsimp only
  rw [h]
  exact ⟨rfl, Record.get_set_self _ _ _⟩

/-- What is read are the first bytes of the file, one character each. -/
theorem qgaFileRead_bytes (stored : agent.files.get filename = some bytes) :
    (qgaFileRead agent filename).2 = .ok (String.ofList ((bytes.take READ_COUNT).map charOf)) := by
  have opened := handle_opened agent filename
  unfold qgaFileRead Agent.fileOpen
  dsimp only
  rw [stored]
  dsimp only
  unfold Agent.fileRead
  rw [opened]
  dsimp only
  rw [textOf_encode, stored]
  rfl

/-- A file comes back as it was written just when it fits into one read and its characters are bytes. -/
theorem read_back_iff :
    (qgaFileWrite agent filename content).2 = .ok () ∧
        (qgaFileRead (qgaFileWrite agent filename content).1 filename).2 = .ok content ↔
      (∀ c ∈ content.toList, c.toNat < 256) ∧ content.length ≤ READ_COUNT := by
  have domain : (content.toList.all fun c => c.toNat < 256) = true ↔ ∀ c ∈ content.toList, c.toNat < 256 :=
    List.all_eq_true.trans (forall₂_congr fun _ _ => decide_eq_true_iff)
  cases h : Base64.btoa content with
  | none =>
      have outside : ¬ ∀ c ∈ content.toList, c.toNat < 256 := fun inside => by
        rw [Base64.btoa, if_pos (domain.mpr inside)] at h
        cases h
      rw [(qgaFileWrite_refused h).1]
      exact iff_of_false (fun both => by cases both.1) fun both => outside both.1
  | some encoded =>
      obtain ⟨inside, -⟩ := Option.ite_none_right_eq_some.mp h
      obtain ⟨written, stored⟩ := @qgaFileWrite_bytes agent filename content encoded h
      have whole : content.toList.map (charOf ∘ byteOf) = content.toList := by
        refine (List.map_congr_left fun c member => ?_).trans (List.map_id _)
        exact charOf_byteOf (domain.mp inside c member)
      rw [written, qgaFileRead_bytes stored, ← List.map_take, List.map_map, and_iff_right rfl,
        and_iff_right (domain.mp inside)]
      constructor
      · intro same
        have lengths := congrArg String.length (Except.ok.inj same)
        rw [String.length_ofList, List.length_map, List.length_take, String.length_toList] at lengths
        omega
      · intro fits
        rw [List.take_of_length_le (by rwa [String.length_toList]), whole, String.ofList_toList]

theorem stored_iff :
    (qgaFileWrite agent filename content).1.files.get filename = some (Utf8.encode content.toList) ∧
        (qgaFileWrite agent filename content).2 = .ok () ↔ Ascii content := by
  cases h : Base64.btoa content with
  | none =>
      rw [(qgaFileWrite_refused h).1]
      refine iff_of_false (fun both => by cases both.2) fun ascii => ?_
      rw [btoa_ascii ascii] at h
      cases h
  | some encoded =>
      obtain ⟨written, stored⟩ := @qgaFileWrite_bytes agent filename content encoded h
      rw [written, stored, and_iff_left rfl, Option.some.injEq]
      exact map_byteOf_eq_iff

theorem given_iff {guest : List UInt8 → ℕ × Execution} {now : ℕ → ℕ} {script : String} {timeoutMs : ℕ} :
    (qgaExec guest now script timeoutMs).given = some (Utf8.encode script.toList) ↔ Ascii script := by
  unfold qgaExec
  cases h : Base64.btoa script with
  | none =>
      refine iff_of_false (fun same => by cases same) fun ascii => ?_
      rw [btoa_ascii ascii] at h
      cases h
  | some inputData =>
      dsimp only
      rw [decode_btoa h]
      dsimp only
      rw [Option.some.injEq]
      exact map_byteOf_eq_iff

theorem textOf_sentBack (field : Option (List UInt8)) :
    textOf (sentBack field) = .ok (String.ofList ((field.getD []).map charOf)) := by
  cases field with
  | none => rfl
  | some bytes => exact textOf_encode

theorem poll_eq_ok {execution : Execution} {late : Thrown} {now : ℕ → ℕ} {deadline left i : ℕ}
    {result : QgaExecResult} (h : poll execution late now deadline left i = .ok result) :
    exited execution = .ok result := by
  induction left generalizing i with
  | zero => cases h
  | succ left ih =>
      rw [poll] at h
      split at h
      · split at h
        · exact h
        · exact ih h
      · cases h

theorem exited_stdout {execution : Execution} {result : QgaExecResult} (h : exited execution = .ok result) :
    result.stdout = String.ofList ((execution.out.getD []).map charOf) := by
  rw [exited, textOf_sentBack, textOf_sentBack] at h
  cases h
  rfl

/-- A script that has run: the guest was given its bytes, and what it has put out is read back. -/
theorem qgaExec_eq_ok {guest : List UInt8 → ℕ × Execution} {now : ℕ → ℕ} {script : String} {timeoutMs : ℕ}
    {result : QgaExecResult} (h : (qgaExec guest now script timeoutMs).result = .ok result) :
    result.stdout = String.ofList (((guest (script.toList.map byteOf)).2.out.getD []).map charOf) := by
  unfold qgaExec at h
  cases encoded : Base64.btoa script with
  | none =>
      rw [encoded] at h
      cases h
  | some inputData =>
      rw [encoded] at h
      dsimp only at h
      rw [decode_btoa encoded] at h
      exact exited_stdout (poll_eq_ok h)

/-- Text goes through the agent in UTF-8, both ways, just when it is ASCII and a file fits into one
read. -/
theorem round_trip_iff (agent : Agent) (filename content script : String)
    (guest : List UInt8 → ℕ × Execution) (now : ℕ → ℕ) (timeoutMs : ℕ) :
    ((qgaFileWrite agent filename content).2 = .ok () ∧
        (qgaFileRead (qgaFileWrite agent filename content).1 filename).2 = .ok content ∧
        (qgaFileWrite agent filename content).1.files.get filename = some (Utf8.encode content.toList) ↔
      Ascii content ∧ content.length ≤ READ_COUNT) ∧
    ((qgaExec guest now script timeoutMs).given = some (Utf8.encode script.toList) ↔ Ascii script) ∧
    ∀ (result : QgaExecResult) (printed : String),
      (qgaExec guest now script timeoutMs).result = .ok result →
      (guest (script.toList.map byteOf)).2.out.getD [] = Utf8.encode printed.toList →
        (result.stdout = printed ↔ Ascii printed) := by
  refine ⟨?_, given_iff, fun result printed ran prints => ?_⟩
  · constructor
    · rintro ⟨written, same, stored⟩
      exact ⟨stored_iff.mp ⟨stored, written⟩, (read_back_iff.mp ⟨written, same⟩).2⟩
    · rintro ⟨ascii, fits⟩
      obtain ⟨stored, written⟩ := stored_iff.mpr ascii
      have small := fun c member => Nat.lt_trans (ascii c member) (show 0x80 < 256 by decide)
      exact ⟨written, (read_back_iff.mpr ⟨small, fits⟩).2, stored⟩
  · rw [qgaExec_eq_ok ran, prints]
    exact map_charOf_eq_iff

/-- A line of configuration, and a script that prints one. -/
theorem round_trip_iff_ascii :
    (qgaFileRead (qgaFileWrite { files := [] } "a.rsc" "/ip/route/print").1 "a.rsc").2 =
        .ok "/ip/route/print" ∧
      ∃ result, (qgaExec (fun _ => (7, ⟨1, some 0, some (Utf8.encode "hello".toList), none⟩)) id
          ":put hello" 100).result = .ok result ∧ result.stdout = "hello" := by
  obtain ⟨file, -, printed⟩ := round_trip_iff { files := [] } "a.rsc" "/ip/route/print" ":put hello"
    (fun _ => (7, ⟨1, some 0, some (Utf8.encode "hello".toList), none⟩)) id 100
  have exits : (qgaExec (fun _ => (7, ⟨1, some 0, some (Utf8.encode "hello".toList), none⟩)) id
      ":put hello" 100).result = .ok { exitcode := 0, stdout := "hello", stderr := "" } := by
    decide +kernel
  exact ⟨(file.mpr ⟨by decide +kernel, by decide +kernel⟩).2.1, _, exits,
    (printed _ "hello" exits rfl).mpr (by decide +kernel)⟩

/-- An umlaut is stored in Latin-1. -/
theorem round_trip_fails :
    ¬ ∀ (agent : Agent) (filename content script : String) (guest : List UInt8 → ℕ × Execution) (now : ℕ → ℕ)
        (timeoutMs : ℕ),
      ((qgaFileWrite agent filename content).2 = .ok () ∧
          (qgaFileRead (qgaFileWrite agent filename content).1 filename).2 = .ok content ∧
          (qgaFileWrite agent filename content).1.files.get filename = some (Utf8.encode content.toList)) ∧
        (qgaExec guest now script timeoutMs).given = some (Utf8.encode script.toList) ∧
        ∀ (result : QgaExecResult) (printed : String), (qgaExec guest now script timeoutMs).result = .ok result →
          (guest (script.toList.map byteOf)).2.out.getD [] = Utf8.encode printed.toList → result.stdout = printed := by
  intro all
  have stored := (all { files := [] } "a.rsc" "ü" ":put x" (fun _ => (7, ⟨0, some 0, none, none⟩)) id 100).1.2.2
  exact absurd stored (by decide +kernel)

end Quickchr.QgaFiles
