import Quickchr.MachineState
import Quickchr.Lib.Text

/-!
# Resource names

The name of a machine or of a named socket is a path segment and a command-line argument. A new
name is checked for both, a name in use only for what a path allows.
-/
namespace Quickchr

/-- Where the operations run: the platform and the directory of the named sockets. -/
structure Host where
  win32 : Bool
  networks : String

def MAX_NAME_LENGTH : ℕ := 64

def VALID_NAME (name : String) : Bool :=
  match name.toList with
  | [] => false
  | c :: rest => c.isAlphanum && rest.all fun c => c.isAlphanum || c ∈ ['.', '_', '-']

def invalidName (kind name why : String) : QuickCHRError :=
  { code := .INVALID_NAME, message := s!"Invalid {kind} name \"{name}\" — {why}" }

def assertValidResourceName (name kind : String) : Except QuickCHRError Unit :=
  if name.isEmpty then .error (invalidName kind name "names cannot be empty")
  else if name.startsWith "-" then
    .error (invalidName kind name "names cannot start with \"-\" (it would be read as a flag)")
  else if Text.length name > MAX_NAME_LENGTH then
    .error (invalidName kind name s!"names are limited to {MAX_NAME_LENGTH} characters")
  else if !VALID_NAME name then
    .error (invalidName kind name ("names may contain only letters, digits, dot, underscore and " ++
      "hyphen, and must start with a letter or digit"))
  else .ok ()

def isPathSafeName (host : Host) (name : String) : Bool :=
  !name.isEmpty && name ≠ "." && name ≠ ".." && !name.toList.contains '/' &&
    !name.toList.contains (Char.ofNat 0) && !(host.win32 && name.toList.contains '\\')

def assertPathSafeName (host : Host) (name kind : String) : Except QuickCHRError Unit :=
  if isPathSafeName host name then .ok ()
  else .error
    { code := .INVALID_NAME
      message := s!"Invalid {kind} name {Text.json name} — a name cannot be empty, " ++
        "\".\" or \"..\", or contain a path separator" }

end Quickchr
