import Quickchr.Credentials
import Quickchr.RestDelivery
import Quickchr.Lib.Base64

/-!
# Which credentials are used

Two readers choose the credentials for a running instance: one gives them in clear text, the other
as the header of a request. They share an order of precedence, and the header is written with
`btoa`, which takes strings of bytes only.
-/
namespace Quickchr.Auth

open Credentials Base64

structure ResolvedAuth where
  header : String
  user : String
  deriving DecidableEq, Repr

structure ResolvedCreds where
  user : String
  password : String
  deriving DecidableEq, Repr

def STORED_IN_SECRETS_PASSWORD : String := "(stored in secrets)"

/-- The account that provisioning has recorded. -/
structure Account where
  name : String
  password : String
  deriving DecidableEq, Repr

/-- What the readers see of a machine's record. -/
structure MachineAuth where
  name : String
  user : Option Account := none
  disableAdmin : Bool := false

def btoa (text : String) : Except Thrown String :=
  (Base64.btoa text).elim (.error .invalidCharacter) .ok

def resolveAuth (file : File) (state : MachineAuth) (user password : Option String) :
    Except Thrown ResolvedAuth :=
  match user with
  | some user => do
      let given := password.getD ""
      let encoded ← btoa s!"{user}:{given}"
      return { header := s!"Basic {encoded}", user }
  | none =>
      match state.user with
      | some account =>
          let recorded := do
            let encoded ← btoa s!"{account.name}:{account.password}"
            return { header := s!"Basic {encoded}", user := account.name }
          if account.password = STORED_IN_SECRETS_PASSWORD then
            match getInstanceCredentials file state.name with
            | some stored => do
                let encoded ← btoa s!"{stored.user}:{stored.password}"
                return { header := s!"Basic {encoded}", user := stored.user }
            | none => recorded
          else recorded
      | none =>
          match getInstanceCredentials file state.name with
          | some stored => do
              let encoded ← btoa s!"{stored.user}:{stored.password}"
              return { header := s!"Basic {encoded}", user := stored.user }
          | none => do
              let encoded ← btoa "admin:"
              return { header := s!"Basic {encoded}", user := "admin" }

def resolveCreds (file : File) (state : MachineAuth) (user password : Option String) : ResolvedCreds :=
  match user with
  | some user => { user, password := password.getD "" }
  | none =>
      match state.user with
      | some account =>
          let recorded := { user := account.name, password := account.password }
          if account.password = STORED_IN_SECRETS_PASSWORD then
            match getInstanceCredentials file state.name with
            | some stored => { user := stored.user, password := stored.password }
            | none => recorded
          else recorded
      | none =>
          match getInstanceCredentials file state.name with
          | some stored => { user := stored.user, password := stored.password }
          | none => { user := "admin", password := "" }

/-- The header as it is written for a pair of credentials. -/
def basic (creds : ResolvedCreds) : Except Thrown ResolvedAuth :=
  (btoa s!"{creds.user}:{creds.password}").map fun encoded =>
    { header := s!"Basic {encoded}", user := creds.user }

/-- Basic authentication with the credentials in UTF-8. -/
def utf8Auth (creds : ResolvedCreds) : ResolvedAuth :=
  let pair := s!"{creds.user}:{creds.password}"
  { header := s!"Basic {ofUtf8 pair}", user := creds.user }

/-- The user and the password that take precedence are ASCII. -/
def AsciiCredentials (file : File) (state : MachineAuth) (user password : Option String) : Prop :=
  match user, state.user, getInstanceCredentials file state.name with
  | some user, _, _ => Ascii user ∧ Ascii (password.getD "")
  | none, some account, some stored =>
      if account.password = STORED_IN_SECRETS_PASSWORD then Ascii stored.user ∧ Ascii stored.password
      else Ascii account.name ∧ Ascii account.password
  | none, some account, none => Ascii account.name ∧ Ascii account.password
  | none, none, some stored => Ascii stored.user ∧ Ascii stored.password
  | none, none, none => True

variable {file : File} {state : MachineAuth} {user password : Option String}

theorem resolveAuth_eq : resolveAuth file state user password = basic (resolveCreds file state user password) := by
  cases user with
  | some user => rfl
  | none =>
      cases known : state.user with
      | some account =>
          by_cases placeholder : account.password = STORED_IN_SECRETS_PASSWORD
          · cases saved : getInstanceCredentials file state.name with
            | some stored =>
                simp only [resolveAuth, resolveCreds, known, if_pos placeholder, saved]
                rfl
            | none =>
                simp only [resolveAuth, resolveCreds, known, if_pos placeholder, saved]
                rfl
          · simp only [resolveAuth, resolveCreds, known, if_neg placeholder]
            rfl
      | none =>
          cases saved : getInstanceCredentials file state.name with
          | some stored =>
              simp only [resolveAuth, resolveCreds, known, saved]
              rfl
          | none =>
              simp only [resolveAuth, resolveCreds, known, saved]
              rfl

theorem asciiCredentials_iff :
    AsciiCredentials file state user password ↔
      Ascii (resolveCreds file state user password).user ∧
        Ascii (resolveCreds file state user password).password := by
  cases user with
  | some user => exact Iff.rfl
  | none =>
      cases known : state.user with
      | some account =>
          cases saved : getInstanceCredentials file state.name with
          | some stored =>
              simp only [AsciiCredentials, resolveCreds, known, saved]
              split <;> exact Iff.rfl
          | none =>
              simp only [AsciiCredentials, resolveCreds, known, saved]
              split <;> exact Iff.rfl
      | none =>
          cases saved : getInstanceCredentials file state.name with
          | some stored =>
              simp only [AsciiCredentials, resolveCreds, known, saved]
          | none =>
              simp only [AsciiCredentials, resolveCreds, known, saved]
              exact iff_of_true trivial (by decide +kernel)

theorem ascii_pair {user password : String} :
    Ascii s!"{user}:{password}" ↔ Ascii user ∧ Ascii password := by
  have pieces : (s!"{user}:{password}").toList = user.toList ++ ':' :: password.toList := by
    rw [show s!"{user}:{password}" = user ++ ":" ++ password from rfl, String.toList_append,
      String.toList_append, List.append_assoc]
    rfl
  rw [Ascii, pieces, List.forall_mem_append, List.forall_mem_cons]
  exact and_congr_right fun _ => and_iff_right (by decide)

theorem btoa_eq_iff {text : String} : btoa text = .ok (ofUtf8 text) ↔ Ascii text := by
  rw [← Base64.btoa_eq_iff, btoa]
  cases Base64.btoa text with
  | none => exact iff_of_false (fun same => by cases same) fun same => by cases same
  | some encoded => exact ⟨fun same => congrArg some (Except.ok.inj same), fun same => congrArg Except.ok (Option.some.inj same)⟩

/-- The header names the credentials in UTF-8 just when they are ASCII. -/
theorem resolveAuth_eq_utf8_iff (file : File) (state : MachineAuth) (user password : Option String) :
    resolveAuth file state user password = .ok (utf8Auth (resolveCreds file state user password)) ↔
      AsciiCredentials file state user password := by
  generalize creds : resolveCreds file state user password = chosen
  rw [resolveAuth_eq, asciiCredentials_iff, creds, ← ascii_pair, ← btoa_eq_iff, basic, utf8Auth]
  cases encoded : btoa s!"{chosen.user}:{chosen.password}" with
  | error e => exact iff_of_false (fun same => by cases same) fun same => by cases same
  | ok text =>
      constructor
      · intro same
        have headers := congrArg ResolvedAuth.header (Except.ok.inj same)
        have whole : ∀ t : String, (s!"Basic {t}").toList = "Basic ".toList ++ t.toList := fun t =>
          String.toList_append
        have texts := congrArg String.toList headers
        rw [whole, whole] at texts
        rw [String.toList_inj.mp (List.append_cancel_left texts)]
      · intro same
        rw [Except.ok.inj same]
        rfl

/-- The placeholder of a password whose credentials are stored. -/
theorem resolveAuth_eq_utf8_iff_stored :
    resolveAuth (.holds [("lab", .saved ⟨"quickchr", "s3cret"⟩)])
        { name := "lab", user := some ⟨"quickchr", "(stored in secrets)"⟩ } none none =
      .ok { header := "Basic cXVpY2tjaHI6czNjcmV0", user := "quickchr" } :=
  ((resolveAuth_eq_utf8_iff (.holds [("lab", .saved ⟨"quickchr", "s3cret"⟩)])
    { name := "lab", user := some ⟨"quickchr", "(stored in secrets)"⟩ } none none).mpr
      ⟨by decide +kernel, by decide +kernel⟩).trans (by decide +kernel)

/-- A password with an umlaut is sent in Latin-1. -/
theorem resolveAuth_eq_utf8_fails : ¬ ∀ (file : File) (state : MachineAuth) (user password : Option String),
    resolveAuth file state user password = .ok (utf8Auth (resolveCreds file state user password)) := by
  intro all
  exact absurd (all .absent { name := "lab" } (some "admin") (some "ü")) (by decide +kernel)

end Quickchr.Auth
