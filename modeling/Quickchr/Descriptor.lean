import Quickchr.Handoff

/-!
# The descriptor of a machine

A consumer connects to a running machine by its descriptor, which says of each service where it is and
who may log in. Another one reads the environment.
-/
namespace Quickchr.Handoff

open Auth Credentials PortBlocks Cli

structure Address where
  host : String := "127.0.0.1"
  port : ℕ
  guestPort : ℕ
  transport : Proto
  tls : Bool
  url : String
  provider : String := "quickchr"
  portMappingName : String
  deriving DecidableEq

structure ServiceAuth where
  username : String
  password : String
  basic : Option String := none
  header : Option String := none
  deriving DecidableEq

inductive ServiceEndpoint
  | available (address : Address) (auth : ServiceAuth)
  | unavailable (unavailableReason : String) (echo : Option Address)
  deriving DecidableEq

inductive SshMode
  | privateKey | agentOrConfig | password
  deriving DecidableEq

structure SshAuth where
  username : String
  privateKeyPath : Option String
  modes : List SshMode
  batchModes : List SshMode
  passwordAvailable : Bool
  deriving DecidableEq

inductive SshServiceEndpoint
  | available (address : Address) (auth : SshAuth)
  | unavailable (unavailableReason : String)
  deriving DecidableEq

structure CustomForward where
  name : String
  transport : Proto
  host : String := "127.0.0.1"
  hostPort : ℕ
  guestPort : ℕ
  deriving DecidableEq

structure NetworkTopologyEntry where
  id : String
  specifier : NetworkSpecifier
  deriving DecidableEq

def QUICKCHR_DESCRIPTOR_VERSION : ℕ := 1

structure Descriptor where
  descriptorVersion : ℕ := QUICKCHR_DESCRIPTOR_VERSION
  packageVersion : String := "0.5.6"
  name : String
  version : String
  arch : Arch
  cpu : ℕ
  mem : ℕ
  pid : Option Pid
  machineDir : String
  createdAt : String
  lastStartedAt : Option String
  restApi : ServiceEndpoint
  nativeApi : ServiceEndpoint
  ssh : SshServiceEndpoint
  customForwards : List CustomForward
  networks : List NetworkTopologyEntry

def CANONICAL_PORT_NAMES : List String := ["http", "https", "api", "api-ssl", "ssh"]

def buildHttpService (credentialsAvailable : Bool) (securePM plainPM : Option PortMapping)
    (serviceLabel secure plain : String) (auth : ServiceAuth) (urlSuffix : String) : ServiceEndpoint :=
  match plainPM.or securePM with
  | none => .unavailable ("no forwarded port for " ++ serviceLabel) none
  | some chosen =>
      let tls := plainPM.isNone
      let echo := {
        port := chosen.host
        guestPort := chosen.guest
        transport := chosen.proto
        tls
        url := (if tls then secure else plain) ++ "://127.0.0.1:" ++ toString chosen.host ++ urlSuffix
        portMappingName := chosen.name }
      if credentialsAvailable then .available echo auth
      else .unavailable "admin disabled, no user provisioned" (some echo)

/-- The credentials are more than a fallback. -/
def credentialsAvailable (file : File) (m : MachineAuth) : Bool :=
  let storedCreds := getInstanceCredentials file m.name
  let disableAdminLockout := m.disableAdmin && m.user.isNone && storedCreds.isNone
  let sentinelUnresolvable := m.user.map (·.password) == some Auth.STORED_IN_SECRETS_PASSWORD && storedCreds.isNone
  !disableAdminLockout && !sentinelUnresolvable

def sshService (m : Machine) (credentialsAvailable : Bool) : SshServiceEndpoint :=
  match m.ports.get "ssh" with
  | none => .unavailable "no forwarded port for ssh"
  | some sshPM =>
      let sshUsername := m.user.elim "admin" (·.name)
      let batchVerified := m.managedSshKey.map (·.batchVerified) == some true
      .available {
          port := sshPM.host
          guestPort := sshPM.guest
          transport := sshPM.proto
          tls := false
          url := "ssh://" ++ sshUsername ++ "@127.0.0.1:" ++ toString sshPM.host
          portMappingName := "ssh" } {
          username := sshUsername
          privateKeyPath := if batchVerified then m.managedSshKey.map (·.privateKeyPath) else none
          modes := (if m.managedSshKey.isSome then [.privateKey] else []) ++ .agentOrConfig ::
            (if credentialsAvailable then [.password] else [])
          batchModes := if batchVerified then [.privateKey] else []
          passwordAvailable := credentialsAvailable }

def customForwards (ports : Record PortMapping) : List CustomForward :=
  (ports.filter (·.1 ∉ CANONICAL_PORT_NAMES)).map fun e =>
    { name := e.1, transport := e.2.proto, hostPort := e.2.host, guestPort := e.2.guest }

def buildDescriptor (file : File) (m : Machine) : Except Thrown Descriptor :=
  if m.status ≠ .running then
    .error (.quickchr (notRunning m) none)
  else do
    let auth ← resolveAuth file m.toMachineAuth none none
    let creds := resolveCreds file m.toMachineAuth none none
    let available := credentialsAvailable file m.toMachineAuth
    return {
      name := m.name
      version := m.version
      arch := m.arch
      cpu := m.cpu
      mem := m.mem
      pid := m.pid
      machineDir := m.machineDir
      createdAt := m.createdAt
      lastStartedAt := m.lastStartedAt
      restApi :=
        if isRouterOs6 m.version then
          .unavailable ("RouterOS " ++ m.version ++ " has no REST API — use native-api") none
        else
          buildHttpService available (m.ports.get "https") (m.ports.get "http") "rest-api" "https" "http"
            { username := creds.user, password := creds.password, basic := some (creds.user ++ ":" ++ creds.password),
              header := some auth.header } "/rest"
      nativeApi :=
        buildHttpService available (m.ports.get "api-ssl") (m.ports.get "api") "native-api" "tls" "tcp"
          { username := creds.user, password := creds.password } ""
      ssh := sshService m available
      customForwards := customForwards m.ports
      networks := m.networks.map fun n => { id := n.id, specifier := n.specifier } }

section Records

variable {α : Type} {r : Record α} {k : String} {v : α}

theorem get_of_only (member : (k, v) ∈ r) (only : ∀ w, (k, w) ∈ r → w = v) : r.get k = some v := by
  cases found : r.get k with
  | none => exact absurd (List.mem_map_of_mem member) (Record.get_eq_none.mp found)
  | some w => rw [only w (Record.mem_of_get found)]

theorem filterMap_get_perm (distinct : (r.map Prod.fst).Nodup) {keys : List String} (nodup : keys.Nodup) :
    (keys.filterMap fun k => (r.get k).map (k, ·)).Perm (r.filter (·.1 ∈ keys)) := by
  have one : ∀ {k k' : String} {e : String × α}, (r.get k).map (k, ·) = some e →
      (r.get k').map (k', ·) = some e → k = k' := by
    intro k k' e is is'
    obtain ⟨v, -, rfl⟩ := Option.map_eq_some_iff.mp is
    obtain ⟨v', -, same⟩ := Option.map_eq_some_iff.mp is'
    exact (congrArg Prod.fst same).symm
  refine (List.perm_ext_iff_of_nodup (nodup.filterMap fun k k' e is is' => one is is') ?_).mpr fun e => ?_
  · exact (List.Nodup.of_map Prod.fst distinct).filter _
  · rw [List.mem_filterMap, List.mem_filter, decide_eq_true_eq]
    constructor
    · rintro ⟨k, member, is⟩
      obtain ⟨v, found, rfl⟩ := Option.map_eq_some_iff.mp is
      exact ⟨Record.mem_of_get found, member⟩
    · rintro ⟨there, member⟩
      exact ⟨e.1, member, by rw [Record.get_of_mem distinct there]; rfl⟩

end Records

section CamelCase

theorem eq_of_camelCase {s k : List Char} (h : camelCase s = k) (plain : ∀ c ∈ k, c.isUpper = false) : s = k := by
  induction s using camelCase.induct generalizing k with
  | case1 => exact h
  | case2 c => exact h
  | case3 c d cs hump ih =>
      rw [camelCase, if_pos hump] at h
      subst h
      have upper : d.toUpper.isUpper = true := by
        obtain ⟨low, high⟩ := Bool.and_eq_true_iff.mp hump.2
        have low : 'a'.val ≤ d.val := of_decide_eq_true low
        have high : d.val ≤ 'z'.val := of_decide_eq_true high
        have value : d.toUpper.val = d.val + ('A'.val - 'a'.val) := by
          change (dite ('a'.val ≤ d.val ∧ d.val ≤ 'z'.val) _ _ : Char).val = _
          rw [dif_pos ⟨low, high⟩]
        have shift : ('A'.val - 'a'.val).toNat = 2 ^ 32 - 32 := by decide
        have low : 97 ≤ d.val.toNat := low
        have high : d.val.toNat ≤ 122 := high
        have place : d.toUpper.val.toNat = d.val.toNat - 32 := by
          rw [value, UInt32.toNat_add, shift]
          omega
        have from_ : 65 ≤ d.toUpper.val.toNat := by omega
        have to_ : d.toUpper.val.toNat ≤ 90 := by omega
        exact decide_eq_true ⟨from_, to_⟩
      rw [plain d.toUpper List.mem_cons_self] at upper
      cases upper
  | case4 c d cs flat ih =>
      rw [camelCase, if_neg flat] at h
      subst h
      exact congrArg (c :: ·) (ih rfl fun c member => plain c (List.mem_cons_of_mem _ member))

theorem camelCase_eq {k : List Char} (h : '-' ∉ k) : camelCase k = k := by
  induction k using camelCase.induct with
  | case1 => rfl
  | case2 c => rfl
  | case3 c d cs hump ih => exact absurd (hump.1 ▸ List.mem_cons_self) h
  | case4 c d cs flat ih => rw [camelCase, if_neg flat, ih fun member => h (List.mem_cons_of_mem _ member)]

theorem get_toChrPorts {ports : Record PortMapping} (distinct : (ports.map Prod.fst).Nodup) {k : String}
    (lower : (k.toList.all fun c => !c.isUpper && c != '-') = true) (proper : k ≠ "__proto__") :
    (toChrPorts ports).get k = (ports.get k).map (·.host) := by
  have lower : ∀ c ∈ k.toList, c.isUpper = false ∧ c ≠ '-' := fun c member => by
    simpa using List.all_eq_true.mp lower c member
  have same : ∀ s : String, String.ofList (camelCase s.toList) = k ↔ s = k := by
    intro s
    constructor
    · rintro is
      have flat := eq_of_camelCase (s := s.toList) (k := k.toList) (by rw [← is, String.toList_ofList])
        fun c member => (lower c member).1
      exact String.toList_inj.mp flat
    · rintro rfl
      rw [camelCase_eq fun member => (lower '-' member).2 rfl, String.ofList_toList]
  have entries : ∀ n, (k, n) ∈ (ports.map fun e => (String.ofList (camelCase e.1.toList), e.2.host)).filter
      (·.1 ≠ "__proto__") ↔ (ports.get k).map (·.host) = some n := by
    intro n
    simp only [List.mem_filter, List.mem_map, decide_eq_true_eq, Option.map_eq_some_iff]
    constructor
    · rintro ⟨⟨e, member, is⟩, -⟩
      obtain ⟨is, rfl⟩ := Prod.ext_iff.mp is
      exact ⟨e.2, by rw [← (same e.1).mp is, Record.get_of_mem distinct member], rfl⟩
    · rintro ⟨m, found, rfl⟩
      exact ⟨⟨(k, m), Record.mem_of_get found, Prod.ext ((same k).mpr rfl) rfl⟩, proper⟩
  rw [toChrPorts, Record.get_assign, Record.get_nil, Option.or_none]
  cases found : (ports.get k).map (·.host) with
  | none =>
      rw [Record.get_eq_none, List.map_reverse, List.mem_reverse]
      intro member
      obtain ⟨⟨k', n⟩, there, rfl⟩ := List.mem_map.mp member
      rw [(entries n).mp there] at found
      cases found
  | some n =>
      refine get_of_only (List.mem_reverse.mpr ((entries n).mpr found)) fun w there => ?_
      have other := (entries w).mp (List.mem_reverse.mp there)
      rw [found] at other
      exact (Option.some.inj other).symm

end CamelCase

/-- Who is known to be able to log in: the account that was provisioned with a password of its own, the one whose
credentials are stored, or the factory's as long as it is not disabled. -/
inductive Vouched (file : File) (m : MachineAuth) : ResolvedCreds → Prop
  | recorded {account : Auth.Account} : m.user = some account → account.password ≠ Auth.STORED_IN_SECRETS_PASSWORD →
      Vouched file m { user := account.name, password := account.password }
  | stored {creds : InstanceCredentials} : getInstanceCredentials file m.name = some creds →
      (∀ account, m.user = some account → account.password = Auth.STORED_IN_SECRETS_PASSWORD) →
      Vouched file m { user := creds.user, password := creds.password }
  | factory : m.user = none → getInstanceCredentials file m.name = none → m.disableAdmin = false →
      Vouched file m { user := "admin", password := "" }

section Creds

variable {file : File} {m : MachineAuth}

/-- The credentials in the store are used for an account without a password of its own. -/
def FromStore (file : File) (m : MachineAuth) (creds : InstanceCredentials) : Prop :=
  getInstanceCredentials file m.name = some creds ∧
    ∀ account, m.user = some account → account.password = Auth.STORED_IN_SECRETS_PASSWORD

theorem resolveCreds_stored {creds : InstanceCredentials} (h : FromStore file m creds) :
    resolveCreds file m none none = { user := creds.user, password := creds.password } := by
  obtain ⟨saved, placeholder⟩ := h
  cases known : m.user with
  | none => simp only [resolveCreds, known, saved]
  | some account => simp only [resolveCreds, known, saved, if_pos (placeholder account known)]

theorem resolveCreds_own (h : ∀ creds, ¬ FromStore file m creds) :
    resolveCreds file m none none = m.user.elim { user := "admin", password := "" }
      fun account => { user := account.name, password := account.password } := by
  cases known : m.user with
  | none =>
      cases saved : getInstanceCredentials file m.name with
      | none => simp only [resolveCreds, known, saved, Option.elim_none]
      | some creds => exact absurd ⟨saved, by simp [known]⟩ (h creds)
  | some account =>
      by_cases placeholder : account.password = Auth.STORED_IN_SECRETS_PASSWORD
      · cases saved : getInstanceCredentials file m.name with
        | none => simp only [resolveCreds, known, saved, if_pos placeholder, Option.elim_some]
        | some creds => exact absurd ⟨saved, by simp [known, placeholder]⟩ (h creds)
      · simp only [resolveCreds, known, if_neg placeholder, Option.elim_some]

theorem credentialsAvailable_iff : credentialsAvailable file m = true ↔ Vouched file m (resolveCreds file m none none) := by
  by_cases stored : ∃ creds, FromStore file m creds
  · obtain ⟨creds, saved, placeholder⟩ := stored
    rw [resolveCreds_stored ⟨saved, placeholder⟩]
    exact iff_of_true (by simp [credentialsAvailable, saved]) (.stored saved placeholder)
  · rw [resolveCreds_own (not_exists.mp stored)]
    have unsaved : ∀ creds, getInstanceCredentials file m.name = some creds →
        ¬ ∀ account, m.user = some account → account.password = Auth.STORED_IN_SECRETS_PASSWORD :=
      fun creds saved placeholder => stored ⟨creds, saved, placeholder⟩
    cases known : m.user with
    | none =>
        have none : getInstanceCredentials file m.name = none :=
          Option.eq_none_iff_forall_ne_some.mpr fun creds saved => unsaved creds saved (by simp [known])
        have enabled : Vouched file m { user := "admin", password := "" } ↔ m.disableAdmin = false := by
          refine ⟨fun vouched => ?_, fun enabled => .factory known none enabled⟩
          generalize whose : ({ user := "admin", password := "" } : ResolvedCreds) = c at vouched
          cases vouched with
          | recorded is => simp [known] at is
          | stored is => simp [none] at is
          | factory _ _ enabled => exact enabled
        simp [credentialsAvailable, known, none, enabled]
    | some account =>
        have own : Vouched file m { user := account.name, password := account.password } ↔
            account.password ≠ Auth.STORED_IN_SECRETS_PASSWORD := by
          refine ⟨fun vouched => ?_, fun own => .recorded known own⟩
          generalize whose : ({ user := account.name, password := account.password } : ResolvedCreds) = c at vouched
          cases vouched with
          | recorded is own =>
              rw [known] at is
              cases is
              exact own
          | stored saved placeholder => exact absurd placeholder (unsaved _ saved)
          | factory is => simp [known] at is
        simp only [credentialsAvailable, known, Option.elim_some, own]
        by_cases placeholder : account.password = Auth.STORED_IN_SECRETS_PASSWORD
        · have none : getInstanceCredentials file m.name = none :=
            Option.eq_none_iff_forall_ne_some.mpr fun creds saved => unsaved creds saved (by simp [known, placeholder])
          simp [none, placeholder]
        · simp [placeholder]

/-- The user whose password is spoken of, and the user that `ssh` is told of. -/
theorem user_eq_iff : m.user.elim "admin" (·.name) = (resolveCreds file m none none).user ↔
    ∀ creds, FromStore file m creds → creds.user = m.user.elim "admin" (·.name) := by
  by_cases stored : ∃ creds, FromStore file m creds
  · obtain ⟨creds, from_⟩ := stored
    rw [resolveCreds_stored from_]
    refine ⟨fun same other from' => ?_, fun all => (all creds from_).symm⟩
    obtain rfl := Option.some.inj (from_.1.symm.trans from'.1)
    exact same.symm
  · rw [resolveCreds_own (not_exists.mp stored)]
    refine iff_of_true ?_ fun creds from_ => absurd ⟨creds, from_⟩ stored
    cases m.user <;> rfl

end Creds

def ServiceEndpoint.address : ServiceEndpoint → Option Address
  | .available address _ => some address
  | .unavailable _ echo => echo

def ServiceEndpoint.auth : ServiceEndpoint → Option ServiceAuth
  | .available _ auth => some auth
  | .unavailable _ _ => none

def SshServiceEndpoint.address : SshServiceEndpoint → Option Address
  | .available address _ => some address
  | .unavailable _ => none

/-- The host port, the guest port and the protocol of each forward that is told. -/
def Descriptor.forwards (d : Descriptor) : List (ℕ × ℕ × Proto) :=
  (d.restApi.address.toList ++ d.nativeApi.address.toList ++ d.ssh.address.toList).map
      (fun a => (a.port, a.guestPort, a.transport)) ++
    d.customForwards.map fun f => (f.hostPort, f.guestPort, f.transport)

/-- The forwards that are not told: those of the web server of a RouterOS 6, else the secure one of a service with a
plain one. -/
def hidden (m : Machine) : List String :=
  (if isRouterOs6 m.version then ["http", "https"] else if (m.ports.get "http").isSome then ["https"] else []) ++
    if (m.ports.get "api").isSome then ["api-ssl"] else []

def endpoint (m : PortMapping) : ℕ × ℕ × Proto := (m.host, m.guest, m.proto)

/-- What a descriptor says, and how it agrees with the environment. -/
structure Describes (file : File) (m : Machine) (d : Descriptor) : Prop where
  rest : d.restApi.auth.isSome ↔ isRouterOs6 m.version = false ∧
    (m.ports.get "http" ≠ none ∨ m.ports.get "https" ≠ none) ∧
      Vouched file m.toMachineAuth (resolveCreds file m.toMachineAuth none none)
  native : d.nativeApi.auth.isSome ↔ (m.ports.get "api" ≠ none ∨ m.ports.get "api-ssl" ≠ none) ∧
    Vouched file m.toMachineAuth (resolveCreds file m.toMachineAuth none none)
  /-- No placeholder is told as a password, and all secrets are of one account. -/
  secrets : ∀ auth, d.restApi.auth = some auth ∨ d.nativeApi.auth = some auth →
    Vouched file m.toMachineAuth { user := auth.username, password := auth.password } ∧
      (buildEnv file m).get "QUICKCHR_AUTH" = some (auth.username ++ ":" ++ auth.password) ∧
      (auth.basic = none ∧ auth.header = none ∨ ∃ encoded, auth.basic = some (auth.username ++ ":" ++ auth.password) ∧
        Base64.btoa (auth.username ++ ":" ++ auth.password) = some encoded ∧ auth.header = some ("Basic " ++ encoded))
  /-- Each forward is told once, or is hidden. -/
  forwards : (d.forwards ++ ((hidden m).filterMap m.ports.get).map endpoint).Perm (m.ports.map fun e => endpoint e.2)
  /-- A key is told when a login with it was seen, and then it is for batches. -/
  key : ∀ address auth, d.ssh = .available address auth →
    (∀ path, auth.privateKeyPath = some path ↔
      ∃ key, m.managedSshKey = some key ∧ key.batchVerified = true ∧ key.privateKeyPath = path) ∧
    (.privateKey ∈ auth.batchModes ↔ auth.privateKeyPath ≠ none) ∧ auth.batchModes ⊆ auth.modes ∧
    (.password ∈ auth.modes ↔ Vouched file m.toMachineAuth (resolveCreds file m.toMachineAuth none none))
  /-- The password that is there for a login by `ssh` is that of its user, unless the store has another user's. -/
  sshUser : ∀ address auth, d.ssh = .available address auth →
    (auth.username = (resolveCreds file m.toMachineAuth none none).user ↔
      ∀ creds, FromStore file m.toMachineAuth creds → creds.user = m.user.elim "admin" (·.name))
  sshPort : (buildEnv file m).get "QUICKCHR_SSH_PORT" = some (portText (d.ssh.address.map (·.port)))
  /-- The environment has the plain forward only. -/
  restBase : ∀ address, d.restApi.address = some address →
    ((buildEnv file m).get "QUICKCHR_REST_BASE" = some address.url ↔ m.ports.get "http" ≠ none)

section Services

variable {file : File} {m : Machine} {available : Bool} {securePM plainPM : Option PortMapping}
  {label secure plain suffix : String} {auth : ServiceAuth}

theorem auth_buildHttpService {a : ServiceAuth} :
    (buildHttpService available securePM plainPM label secure plain auth suffix).auth = some a ↔
      (plainPM ≠ none ∨ securePM ≠ none) ∧ available = true ∧ a = auth := by
  unfold buildHttpService
  cases plainPM <;> cases securePM <;> cases available <;>
    simp [ServiceEndpoint.auth, eq_comm]

theorem address_buildHttpService {f : Address → ℕ × ℕ × Proto} (is : f = fun a => (a.port, a.guestPort, a.transport)) :
    (buildHttpService available securePM plainPM label secure plain auth suffix).address.map f =
      (plainPM.or securePM).map endpoint := by
  unfold buildHttpService
  subst is
  cases chosen : plainPM.or securePM <;> cases available <;> rfl

theorem url_buildHttpService {a : Address}
    (is : (buildHttpService available securePM plainPM label secure plain auth suffix).address = some a) :
    ∃ chosen, plainPM.or securePM = some chosen ∧
      a.url = (if plainPM.isNone then secure else plain) ++ "://127.0.0.1:" ++ toString chosen.host ++ suffix := by
  unfold buildHttpService at is
  cases chosen : plainPM.or securePM with
  | none => simp [chosen, ServiceEndpoint.address] at is
  | some mapping =>
      refine ⟨mapping, rfl, ?_⟩
      simp only [chosen] at is
      cases available <;>
        · obtain rfl := Option.some.inj is
          rfl

theorem address_sshService {f : Address → ℕ × ℕ × Proto} (is : f = fun a => (a.port, a.guestPort, a.transport)) :
    (sshService m available).address.map f = (m.ports.get "ssh").map endpoint := by
  subst is
  unfold sshService
  cases m.ports.get "ssh" <;> rfl

theorem key_sshService {address : Address} {auth : SshAuth} (is : sshService m available = .available address auth) :
    (∀ path, auth.privateKeyPath = some path ↔
      ∃ key, m.managedSshKey = some key ∧ key.batchVerified = true ∧ key.privateKeyPath = path) ∧
    (.privateKey ∈ auth.batchModes ↔ auth.privateKeyPath ≠ none) ∧ auth.batchModes ⊆ auth.modes ∧
    (.password ∈ auth.modes ↔ available = true) := by
  unfold sshService at is
  cases forwarded : m.ports.get "ssh" with
  | none => simp [forwarded] at is
  | some mapping =>
      simp only [forwarded, SshServiceEndpoint.available.injEq] at is
      obtain ⟨-, rfl⟩ := is
      cases m.managedSshKey with
      | none => cases available <;> simp
      | some key => cases seen : key.batchVerified <;> cases available <;> simp [seen]

theorem username_sshService {address : Address} {auth : SshAuth} (is : sshService m available = .available address auth) :
    auth.username = m.user.elim "admin" (·.name) := by
  unfold sshService at is
  split at is
  · cases is
  · obtain ⟨-, rfl⟩ := SshServiceEndpoint.available.inj is
    rfl

theorem restBase_iff {address : Address}
    (is : (buildHttpService available (m.ports.get "https") (m.ports.get "http") label "https" "http" auth
      "/rest").address = some address) :
    (buildEnv file m).get "QUICKCHR_REST_BASE" = some address.url ↔ m.ports.get "http" ≠ none := by
  obtain ⟨chosen, some, url⟩ := url_buildHttpService is
  have base : (buildEnv file m).get "QUICKCHR_REST_BASE" =
      Option.some ("http://127.0.0.1:" ++ portText ((m.ports.get "http").map (·.host)) ++ "/rest") := by
    rw [← get_toChrPorts m.distinct (by decide +kernel) (by decide)]
    rfl
  rw [base, url]
  cases plain : m.ports.get "http" with
  | none =>
      refine iff_of_false (fun same => ?_) (not_not.mpr rfl)
      have texts := congrArg String.toList (Option.some.inj same)
      simp at texts
  | some mapping =>
      rw [plain, Option.some_or] at some
      obtain rfl := Option.some.inj some
      refine iff_of_true ?_ (by simp)
      rfl

end Services

/-- The forwards by their names: those of the services, and the others. -/
theorem ports_perm (m : Machine) :
    (m.ports.map fun e => endpoint e.2).Perm
      ((CANONICAL_PORT_NAMES.flatMap fun k => (m.ports.get k).toList).map endpoint ++
        (customForwards m.ports).map fun f => (f.hostPort, f.guestPort, f.transport)) := by
  have split := (List.filter_append_perm (fun e : String × PortMapping => e.1 ∈ CANONICAL_PORT_NAMES) m.ports).symm
  have named : (m.ports.filter (·.1 ∈ CANONICAL_PORT_NAMES)).Perm
      (CANONICAL_PORT_NAMES.filterMap fun k => (m.ports.get k).map (k, ·)) :=
    (filterMap_get_perm m.distinct (by decide)).symm
  have told : (customForwards m.ports).map (fun f => (f.hostPort, f.guestPort, f.transport)) =
      (m.ports.filter (·.1 ∉ CANONICAL_PORT_NAMES)).map fun e => endpoint e.2 := by
    rw [customForwards, List.map_map]
    rfl
  have entries : (CANONICAL_PORT_NAMES.flatMap fun k => (m.ports.get k).toList).map endpoint =
      (CANONICAL_PORT_NAMES.filterMap fun k => (m.ports.get k).map (k, ·)).map fun e => endpoint e.2 := by
    rw [List.filterMap_eq_flatMap_toList, List.map_flatMap, List.map_flatMap]
    congr 1
    funext k
    cases m.ports.get k <;> rfl
  rw [told, entries]
  refine (split.map fun e => endpoint e.2).trans ?_
  rw [List.map_append]
  refine (named.map _).append ?_
  simp only [decide_not]
  rfl

/-- What is built for a machine that runs, when the credentials can be encoded. -/
theorem buildDescriptor_spec (file : File) (m : Machine) :
    let creds := resolveCreds file m.toMachineAuth none none
    let available := credentialsAvailable file m.toMachineAuth
    match buildDescriptor file m with
    | .ok d => m.status = .running ∧ ∃ encoded, Base64.btoa (creds.user ++ ":" ++ creds.password) = some encoded ∧
        d.restApi = (if isRouterOs6 m.version then
            .unavailable ("RouterOS " ++ m.version ++ " has no REST API — use native-api") none
          else buildHttpService available (m.ports.get "https") (m.ports.get "http") "rest-api" "https" "http"
            { username := creds.user, password := creds.password, basic := some (creds.user ++ ":" ++ creds.password),
              header := some ("Basic " ++ encoded) } "/rest") ∧
        d.nativeApi = buildHttpService available (m.ports.get "api-ssl") (m.ports.get "api") "native-api" "tls" "tcp"
          { username := creds.user, password := creds.password } "" ∧
        d.ssh = sshService m available ∧ d.customForwards = customForwards m.ports
    | .error _ => m.status ≠ .running ∨ Base64.btoa (creds.user ++ ":" ++ creds.password) = none := by
  dsimp only
  unfold buildDescriptor
  by_cases running : m.status = .running
  · rw [if_neg (not_not.mpr running), resolveAuth_eq]
    have header : basic (resolveCreds file m.toMachineAuth none none) =
        ((Base64.btoa ((resolveCreds file m.toMachineAuth none none).user ++ ":" ++
          (resolveCreds file m.toMachineAuth none none).password)).elim (Except.error Thrown.invalidCharacter) Except.ok).map
            fun encoded => { header := "Basic " ++ encoded, user := (resolveCreds file m.toMachineAuth none none).user } :=
      rfl
    rw [header]
    cases encoding : Base64.btoa ((resolveCreds file m.toMachineAuth none none).user ++ ":" ++
      (resolveCreds file m.toMachineAuth none none).password) with
    | none => exact .inr rfl
    | some encoded => exact ⟨running, encoded, rfl, rfl, rfl, rfl, rfl⟩
  · rw [if_pos running]
    exact .inl running

section Fields

variable {file : File} {m : Machine} {d : Descriptor} {creds : ResolvedCreds} {available : Bool} {encoded : String}

theorem forwards_told (web : d.restApi.address.map (fun a => (a.port, a.guestPort, a.transport)) =
      if isRouterOs6 m.version then none else ((m.ports.get "http").or (m.ports.get "https")).map endpoint)
    (api : d.nativeApi.address.map (fun a => (a.port, a.guestPort, a.transport)) =
      ((m.ports.get "api").or (m.ports.get "api-ssl")).map endpoint)
    (ssh : d.ssh.address.map (fun a => (a.port, a.guestPort, a.transport)) = (m.ports.get "ssh").map endpoint)
    (custom : d.customForwards = customForwards m.ports) :
    (d.forwards ++ ((hidden m).filterMap m.ports.get).map endpoint).Perm (m.ports.map fun e => endpoint e.2) := by
  refine List.Perm.trans ?_ (ports_perm m).symm
  rw [Descriptor.forwards, List.map_append, List.map_append, ← Option.toList_map, ← Option.toList_map,
    ← Option.toList_map, web, api, ssh, custom, hidden, List.filterMap_eq_flatMap_toList, List.perm_iff_count]
  intro x
  simp only [CANONICAL_PORT_NAMES, List.flatMap_cons, List.flatMap_nil, List.append_nil, List.map_append, List.count_append]
  cases isRouterOs6 m.version <;> cases plain : m.ports.get "http" <;> cases m.ports.get "api" <;>
    simp [List.count_cons, List.count_append, Option.toList_map, plain] <;> omega

end Fields

theorem describes (file : File) (m : Machine) :
    match buildDescriptor file m with
    | .ok d => (m.status = .running ∧ (Base64.btoa ((resolveCreds file m.toMachineAuth none none).user ++ ":" ++
        (resolveCreds file m.toMachineAuth none none).password)).isSome = true) ∧ Describes file m d
    | .error _ => m.status ≠ .running ∨ Base64.btoa ((resolveCreds file m.toMachineAuth none none).user ++ ":" ++
        (resolveCreds file m.toMachineAuth none none).password) = none := by
  have spec := buildDescriptor_spec file m
  have vouched := @credentialsAvailable_iff file m.toMachineAuth
  dsimp only at spec
  cases built : buildDescriptor file m with
  | error e => simpa only [built] using spec
  | ok d =>
      simp only [built] at spec
      obtain ⟨running, encoded, encoding, web, api, ssh, custom⟩ := spec
      have webAuth : ∀ a, d.restApi.auth = some a ↔ isRouterOs6 m.version = false ∧
          (m.ports.get "http" ≠ none ∨ m.ports.get "https" ≠ none) ∧ credentialsAvailable file m.toMachineAuth = true ∧
          a = {
            username := (resolveCreds file m.toMachineAuth none none).user
            password := (resolveCreds file m.toMachineAuth none none).password
            basic := some ((resolveCreds file m.toMachineAuth none none).user ++ ":" ++
              (resolveCreds file m.toMachineAuth none none).password)
            header := some ("Basic " ++ encoded) } := by
        intro a
        rw [web]
        split
        · rename_i old
          simp [ServiceEndpoint.auth, old]
        · rename_i new
          rw [auth_buildHttpService]
          simp [new]
      have apiAuth : ∀ a, d.nativeApi.auth = some a ↔
          (m.ports.get "api" ≠ none ∨ m.ports.get "api-ssl" ≠ none) ∧ credentialsAvailable file m.toMachineAuth = true ∧
          a = {
            username := (resolveCreds file m.toMachineAuth none none).user
            password := (resolveCreds file m.toMachineAuth none none).password } := by
        intro a
        rw [api, auth_buildHttpService]
      refine ⟨⟨running, by rw [encoding]; rfl⟩, ?_, ?_, ?_, ?_, ?_, ?_, ?_, ?_⟩
      · rw [Option.isSome_iff_exists, ← vouched]
        simp [webAuth]
      · rw [Option.isSome_iff_exists, ← vouched]
        simp [apiAuth]
      · rintro auth (is | is)
        · obtain ⟨-, -, known, rfl⟩ := (webAuth auth).mp is
          exact ⟨vouched.mp known, rfl, .inr ⟨encoded, rfl, encoding, rfl⟩⟩
        · obtain ⟨-, known, rfl⟩ := (apiAuth auth).mp is
          exact ⟨vouched.mp known, rfl, .inl ⟨rfl, rfl⟩⟩
      · refine forwards_told ?_ ?_ ?_ custom
        · rw [web]
          split
          · rfl
          · exact address_buildHttpService rfl
        · rw [api, address_buildHttpService rfl]
        · rw [ssh, address_sshService rfl]
      · intro address auth is
        rw [← vouched]
        exact key_sshService (ssh ▸ is)
      · intro address auth is
        rw [username_sshService (ssh ▸ is)]
        exact user_eq_iff
      · rw [ssh]
        have port : (sshService m (credentialsAvailable file m.toMachineAuth)).address.map (·.port) =
            (m.ports.get "ssh").map (·.host) := by
          unfold sshService
          cases m.ports.get "ssh" <;> rfl
        rw [port, ← get_toChrPorts m.distinct (by decide +kernel) (by decide)]
        rfl
      · intro address is
        rw [web] at is
        split at is
        · cases is
        · exact restBase_iff is

theorem describes_lab : ∃ d address auth, buildDescriptor .absent lab = .ok d ∧ d.restApi = .available address auth ∧
    (buildEnv .absent lab).get "QUICKCHR_REST_BASE" = some address.url := by
  have built := describes .absent lab
  cases is : buildDescriptor .absent lab with
  | error e =>
      rw [is] at built
      rcases built with stopped | unencoded
      · exact absurd rfl stopped
      · exact absurd unencoded (by decide +kernel)
  | ok d =>
      rw [is] at built
      have told := built.2.rest.mpr
        ⟨by decide +kernel, .inl (by decide), credentialsAvailable_iff.mp (by decide +kernel)⟩
      cases endpoint : d.restApi with
      | available address auth =>
          exact ⟨d, address, auth, rfl, endpoint, (built.2.restBase address (by rw [endpoint]; rfl)).mpr (by decide)⟩
      | unavailable reason echo =>
          rw [endpoint] at told
          cases told

end Quickchr.Handoff
