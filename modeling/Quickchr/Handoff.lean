import Quickchr.Auth
import Quickchr.FlagSuggestions
import Quickchr.NetworkResolution
import Quickchr.PortBlocks
import Quickchr.Lib.ShellScript

/-!
# The environment of a machine

What `quickchr env` prints for a running machine is sourced by a shell, and the script that hands a
password to `ssh` is run by one. Both hold text that a user has chosen.
-/
namespace Quickchr.Handoff

open Auth Credentials PortBlocks Cli ShellScript ShellWords

/-- What a handle reads of a machine's record. Its forwards are an object, so each has a name of its own. -/
structure Machine extends MachineAuth where
  status : Status
  version : String
  arch : Arch
  cpu : ℕ
  mem : ℕ
  pid : Option Pid
  machineDir : String
  createdAt : String
  lastStartedAt : Option String
  ports : Record PortMapping
  distinct : (ports.map Prod.fst).Nodup
  managedSshKey : Option ManagedSshKey
  networks : List NetworkConfig

def camelCase : List Char → List Char
  | [] => []
  | [c] => [c]
  | c :: d :: cs => if c = '-' ∧ d.isLower then d.toUpper :: camelCase cs else c :: camelCase (d :: cs)

/-- The host ports by their names in camel case. A number is no prototype, so nothing is set under
`__proto__`. -/
def toChrPorts (ports : Record PortMapping) : Record ℕ :=
  Record.assign [] ((ports.map fun e => (String.ofList (camelCase e.1.toList), e.2.host)).filter
    (·.1 ≠ "__proto__"))

def portText (port : Option ℕ) : String := port.elim "undefined" toString

def restUrl (m : Machine) : String := "http://127.0.0.1:" ++ portText ((toChrPorts m.ports).get "http")

def buildEnv (file : File) (m : Machine) : Record String :=
  let creds := resolveCreds file m.toMachineAuth none none
  let rawCreds := creds.user ++ ":" ++ creds.password
  let restBase := restUrl m ++ "/rest"
  [("QUICKCHR_NAME", m.name),
    ("QUICKCHR_REST_URL", restUrl m),
    ("QUICKCHR_REST_BASE", restBase),
    ("QUICKCHR_SSH_PORT", portText ((toChrPorts m.ports).get "ssh")),
    ("QUICKCHR_AUTH", rawCreds),
    ("URLBASE", restBase),
    ("BASICAUTH", rawCreds)]

/-- A character that `shellQuoteEnv` leaves without quotes. -/
def isBare (c : Char) : Bool := c.isAlphanum || c ∈ "_./:@+-".toList

def shellQuoteEnv (value : List Char) : List Char := if value.all isBare then value else singleQuote value

def statusText : Status → String
  | .stopped => "stopped"
  | .running => "running"
  | .error => "error"

def notRunning (m : Machine) : QuickCHRError where
  code := .MACHINE_STOPPED
  message := "Machine \"" ++ m.name ++ "\" must be running to inspect its connection environment (current status: " ++
    statusText m.status ++ ")."

/-- What `quickchr env` prints for a machine. -/
def cmdEnv (file : File) (m : Machine) : Except QuickCHRError (List Char) :=
  if m.status = .running then
    .ok ((buildEnv file m).flatMap fun e => e.1.toList ++ '=' :: (shellQuoteEnv e.2.toList ++ ['\n']))
  else .error (notRunning m)

/-- The script that `writeAskpass` writes where there is a POSIX shell. -/
def askpassScript (password : List Char) : List Char :=
  "#!/bin/sh\nprintf '%s' ".toList ++ singleQuote password

theorem isLiteral_of_isBare {c : Char} (h : isBare c = true) : isLiteral c = true := by
  have quoted : (' ' :: '\t' :: '#' :: SINGLE :: DOUBLE :: '\\' :: "|&;<>()$`*?[~\n".toList).all (isBare · = false) = true := by
    decide +kernel
  by_contra other
  have member := mem_of_not_isLiteral (Bool.not_eq_true _ ▸ other)
  rw [of_decide_eq_true (List.all_eq_true.mp quoted c member)] at h
  cases h

theorem walk_shellQuoteEnv (value : List Char) : walk (.word []) (shellQuoteEnv value) = some (.word value) := by
  unfold shellQuoteEnv
  split
  · rename_i bare
    exact walk_literal fun c member => isLiteral_of_isBare (List.all_eq_true.mp bare c member)
  · exact walk_singleQuote

theorem null_shellQuoteEnv (value : List Char) : NUL ∈ shellQuoteEnv value ↔ NUL ∈ value := by
  unfold shellQuoteEnv
  split
  · exact Iff.rfl
  · exact mem_singleQuote (by decide) (by decide)

theorem isName_buildEnv {file : File} {m : Machine} {e : String × String} (h : e ∈ buildEnv file m) :
    isName e.1.toList = true := by
  have all : ∀ k ∈ ["QUICKCHR_NAME", "QUICKCHR_REST_URL", "QUICKCHR_REST_BASE", "QUICKCHR_SSH_PORT", "QUICKCHR_AUTH",
      "URLBASE", "BASICAUTH"], isName k.toList = true := by decide
  exact all e.1 (List.mem_map_of_mem h)

theorem null_portText (port : Option ℕ) : NUL ∉ (portText port).toList := by
  cases port with
  | none => decide
  | some n =>
      intro member
      have digit : NUL.isDigit = true := Nat.isDigit_of_mem_toDigits (by decide) (by decide) (b := 10) (n := n)
        (by simpa [portText] using member)
      exact absurd digit (by decide)

theorem null_restUrl (m : Machine) : NUL ∉ (restUrl m).toList := by
  change NUL ∉ ("http://127.0.0.1:" ++ portText ((toChrPorts m.ports).get "http")).toList
  simp only [String.toList_append, List.mem_append, not_or]
  exact ⟨by decide, null_portText _⟩

/-- The text a user has chosen is all that may hold a null character. -/
theorem null_buildEnv (file : File) (m : Machine) :
    (∃ e ∈ buildEnv file m, NUL ∈ e.2.toList) ↔ NUL ∈ m.name.toList ∨
      NUL ∈ (resolveCreds file m.toMachineAuth none none).user.toList ∨
      NUL ∈ (resolveCreds file m.toMachineAuth none none).password.toList := by
  have mark : NUL ∉ (":" : String).toList := by decide
  have slash : NUL ∉ ("/rest" : String).toList := by decide
  have port := null_portText ((toChrPorts m.ports).get "ssh")
  have url := null_restUrl m
  simp only [buildEnv, List.exists_mem_cons_iff, List.not_mem_nil, false_and, exists_false, or_false,
    String.toList_append, List.mem_append, mark, slash, port, url, false_or, or_self]

def shellVariables (r : Record String) : List (List Char × List Char) := r.map fun e => (e.1.toList, e.2.toList)

/-- A shell that sources what is printed has each variable as it was, whatever characters a name or a password is
made of, and nothing else happens there; `ssh` is handed the password as it is. A null character is the exception. -/
theorem sourced (file : File) (m : Machine) (password : List Char) :
    (m.status = .running ↔ ∃ text, cmdEnv file m = .ok text) ∧
    (∀ text, cmdEnv file m = .ok text → (assignments text = some (shellVariables (buildEnv file m)) ↔
      NUL ∉ m.name.toList ∧ NUL ∉ (resolveCreds file m.toMachineAuth none none).user.toList ∧
        NUL ∉ (resolveCreds file m.toMachineAuth none none).password.toList)) ∧
    (commands (askpassScript password) = some [["printf".toList, "%s".toList, password]] ↔ NUL ∉ password) := by
  refine ⟨?_, fun text printed => ?_, ?_⟩
  · unfold cmdEnv
    split <;> simp_all
  · unfold cmdEnv at printed
    split at printed
    · obtain rfl := Except.ok.inj printed
      have lines := @assignments_lines shellQuoteEnv walk_shellQuoteEnv null_shellQuoteEnv
        (shellVariables (buildEnv file m)) fun e member => by
          obtain ⟨e, entry, rfl⟩ := List.mem_map.mp member
          exact isName_buildEnv entry
      rw [shellVariables, List.flatMap_map, ← shellVariables] at lines
      have holds : (∃ e ∈ shellVariables (buildEnv file m), NUL ∈ e.2) ↔ ∃ e ∈ buildEnv file m, NUL ∈ e.2.toList := by
        simp [shellVariables]
      rw [lines, ← not_or, ← not_or, ← null_buildEnv file m, ← holds]
      split
      · rename_i null
        exact iff_of_false (fun same => by cases same) (not_not.mpr null)
      · rename_i clean
        exact iff_of_true rfl clean
    · cases printed
  · have comment : ∀ rest, commandsFrom .gap [] ("#!/bin/sh\n".toList ++ rest) =
        (commandsFrom .gap [] rest).map ([] ++ ·) := fun rest => rfl
    have words : ∀ rest, commandsFrom .gap [] ("printf '%s' ".toList ++ rest) =
        commandsFrom .gap ["printf".toList, "%s".toList] rest := fun rest => rfl
    have last := @commandsFrom_walk _ _ _ [] ["printf".toList, "%s".toList] (@walk_gap_singleQuote password)
    have parts : askpassScript password =
        "#!/bin/sh\n".toList ++ ("printf '%s' ".toList ++ (singleQuote password ++ [])) := by
      rw [List.append_nil]
      rfl
    have null : NUL ∈ singleQuote password ↔ NUL ∈ password := mem_singleQuote (by decide) (by decide)
    have whole : commands (askpassScript password) = (commandsFrom .gap ["printf".toList, "%s".toList]
        (singleQuote password ++ [])).map ([] ++ ·) := by
      rw [commands, parts]
      exact (comment _).trans (congrArg (Option.map _) (words _))
    rw [whole, last, ← null]
    split
    · rename_i holds
      simp [holds]
    · rename_i clean
      simp [clean, commandsFrom, finish, line]

/-- A machine with the plain web forward and one for SSH. -/
def lab : Machine where
  name := "lab"
  user := some { name := "quickchr", password := "it's" }
  status := .running
  version := "7.22"
  arch := .x86
  cpu := 1
  mem := 256
  pid := some 100
  machineDir := "/machines/lab"
  createdAt := "2026-01-01T00:00:00Z"
  lastStartedAt := none
  ports := [("http", ⟨"http", 9100, 80, .tcp⟩), ("ssh", ⟨"ssh", 9103, 22, .tcp⟩)]
  distinct := by decide
  managedSshKey := none
  networks := []

theorem sourced_lab : ∃ text, cmdEnv .absent lab = .ok text ∧
    assignments text = some (shellVariables (buildEnv .absent lab)) ∧
    commands (askpassScript "it's".toList) = some [["printf".toList, "%s".toList, "it's".toList]] := by
  obtain ⟨runs, printed, asked⟩ := sourced .absent lab "it's".toList
  obtain ⟨text, is⟩ := runs.mp rfl
  exact ⟨text, is, (printed text is).mpr (by decide +kernel), asked.mpr (by decide +kernel)⟩

end Quickchr.Handoff
