import Quickchr.DeviceModeUpdate

/-!
# Renewing a license

The server's answer may be there when the request returns, or later, so the level is read until it is the one
that was asked for. Shortly after a boot the endpoint answers with what belongs to another one, and then the
request is made again; an answer of the license server is not asked for twice.
-/
namespace Quickchr.License

open BootWait PackageReboot DeviceModeUpdate

def LICENSE_VERIFY_TIMEOUT : ℕ := 90000

def MAX_RENEW_ATTEMPTS : ℕ := 3

structure LicenseOptions where
  account : Option String
  password : Option String
  level : Option String

/-- An option that is not the empty string. -/
def given (option : Option String) : Option String := option.filter (· ≠ "")

def renewBody (opts : LicenseOptions) : Record String :=
  ([("account", given opts.account), ("password", given opts.password), ("level", given opts.level)].filterMap
    fun e => e.2.map (e.1, ·)) ++ [("duration", "10s")]

inductive Renewal
  | done | error | pending | notReady
  deriving DecidableEq

def member (members : List (List UInt16 × JsonText.Value)) (key : String) : Option JsonText.Value :=
  members.lookup (units key)

def lastStatus : JsonText.Value → Option (List UInt16)
  | .arr items =>
      match items.getLast? with
      | some (.obj members) =>
          match member members "status" with
          | some (.str status) => some status
          | _ => none
      | _ => none
  | _ => none

def isResourceData (members : List (List UInt16 × JsonText.Value)) : Bool :=
  hasKey members "board-name" || hasKey members "architecture-name"

def classifyRenewResponse (text : String) : Renewal :=
  match JsonText.parse text.toList with
  | some (.obj members) => if isResourceData members then .notReady else .pending
  | some data =>
      match lastStatus data with
      | some status =>
          if status = units "done" then .done
          else if (units "ERROR:").isPrefixOf status then .error else .pending
      | none => .pending
  | none => .pending

/-- The words of the license server, or the answer as it is. -/
def errorDetail (text : String) : List UInt16 :=
  ((JsonText.parse text.toList).bind lastStatus).getD (units text)

def isLicenseBody (body : String) : Bool :=
  match JsonText.parse body.toList with
  | some (.obj members) => hasKey members "system-id" && !hasKey members "board-name"
  | _ => false

/-- What is true as a condition. Numbers are told by their digits. -/
def truthy : JsonText.Value → Bool
  | .null => false
  | .bool b => b
  | .num literal => (literal.text.takeWhile fun c => c ≠ 'e' ∧ c ≠ 'E').any fun c => c.isDigit && c ≠ '0'
  | .str units => units ≠ []
  | .arr _ | .obj _ => true

inductive LicenseLook
  | again (error : Option (List UInt16))
  | fail (error : Failure)
  | level (level : JsonText.Value)

/-- One reading of the license. The free tier has no level of its own. -/
def licenseLook : Except Caught RestResponse → LicenseLook
  | .error e => .again (some (units e.message))
  | .ok answer =>
      if !succeeded answer then
        .fail (fail .PROCESS_FAILED s!"Failed to get license info: HTTP {answer.status} — {answer.body}")
      else
        match JsonText.parse answer.body.toList with
        | none => .again (some (units s!"Invalid JSON from /system/license: {answer.body}"))
        | some (.obj members) =>
            if isResourceData members then .again none
            else .level (((member members "level").filter truthy).getD (.str (units "free")))
        | some (.arr _) => .level (.str (units "free"))
        -- `in` takes objects only.
        | some _ => .fail { code := none, message := units "Cannot use 'in' operator on a primitive value" }

/-- The readings after a request: when each is made. -/
structure Looks where
  start : ℕ
  clock : Polling.Clock
  begun : start ≤ clock.now 0
  answers : ℕ → Except Caught RestResponse

section Reading

variable (looks : Looks)

/-- `getLicenseInfo` from look `i` on: what it comes to, and the number of the next look. -/
def getLicenseInfo (deadline i : ℕ) (lastError : Option (List UInt16)) :
    Except Failure JsonText.Value × ℕ :=
  match licenseLook (looks.answers i) with
  | .fail e => (.error e, i + 1)
  | .level level => (.ok level, i + 1)
  | .again error =>
      let lastError := error.or lastError
      if looks.clock.now (i + 1) < deadline then getLicenseInfo deadline (i + 1) lastError
      else (.error
        { code := some .PROCESS_FAILED
          message := units "License info request failed after retries: " ++ lastError.getD (units "timed out") }, i + 1)
termination_by deadline - looks.clock.now i
decreasing_by
  have := looks.clock.advances i
  omega

theorem getLicenseInfo_later (deadline i : ℕ) (lastError : Option (List UInt16)) :
    i < (getLicenseInfo looks deadline i lastError).2 := by
  induction i, lastError using getLicenseInfo.induct looks deadline with
  | case1 i lastError e is => simp [getLicenseInfo, is]
  | case2 i lastError level is => simp [getLicenseInfo, is]
  | case3 i lastError error is _ early ih =>
      rw [getLicenseInfo, is]
      simp only [if_pos early]
      exact (Nat.lt_succ_self i).trans ih
  | case4 i lastError error is _ =>
      rename_i late
      rw [getLicenseInfo, is]
      simp only [if_neg late]
      exact Nat.lt_succ_self i

theorem now_le {i j : ℕ} (h : i ≤ j) : looks.clock.now i ≤ looks.clock.now j :=
  monotone_nat_of_le_succ (fun i => (looks.clock.advances i).le) h

theorem now_lt {i j : ℕ} (h : i < j) : looks.clock.now i < looks.clock.now j :=
  (looks.clock.advances i).trans_le (now_le looks h)

/-- The polls for the level, until one reads it or the deadline has passed. -/
def awaitLevel (wanted : String) (deadline i : ℕ) : Bool :=
  if looks.clock.now i < deadline then
    match (getLicenseInfo looks (looks.clock.now i + 15000) i none).1 with
    | .ok (.str level) =>
        level = units wanted || awaitLevel wanted deadline (getLicenseInfo looks (looks.clock.now i + 15000) i none).2
    | _ => awaitLevel wanted deadline (getLicenseInfo looks (looks.clock.now i + 15000) i none).2
  else false
termination_by deadline - looks.clock.now i
decreasing_by
  all_goals
    have := now_lt looks (getLicenseInfo_later looks (looks.clock.now i + 15000) i none)
    omega

variable {looks}

/-- Look `j` reads the level that is wanted. -/
def Reads (looks : Looks) (wanted : String) (j : ℕ) : Prop :=
  licenseLook (looks.answers j) = .level (.str (units wanted))

/-- One call looks until a look says something, or its time is over. -/
theorem getLicenseInfo_spec (deadline i : ℕ) (lastError : Option (List UInt16)) :
    let r := getLicenseInfo looks deadline i lastError
    ∃ last, r.2 = last + 1 ∧ i ≤ last ∧
      (∀ j, i ≤ j → j < last → (∃ e, licenseLook (looks.answers j) = .again e) ∧ looks.clock.now (j + 1) < deadline) ∧
      ∀ level, r.1 = .ok level ↔ licenseLook (looks.answers last) = .level level := by
  dsimp only
  induction i, lastError using getLicenseInfo.induct looks deadline with
  | case1 i lastError e is =>
      rw [getLicenseInfo, is]
      exact ⟨i, rfl, le_rfl, fun j above below => by omega, fun level => by simp [is]⟩
  | case2 i lastError level is =>
      rw [getLicenseInfo, is]
      exact ⟨i, rfl, le_rfl, fun j above below => by omega, fun level => by simp [is]⟩
  | case3 i lastError error is told early ih =>
      obtain ⟨last, next, later, before, result⟩ := ih
      rw [getLicenseInfo, is]
      simp only [if_pos early]
      refine ⟨last, next, by omega, fun j above below => ?_, result⟩
      rcases Nat.eq_or_lt_of_le above with rfl | above
      · exact ⟨⟨error, is⟩, early⟩
      · exact before j above below
  | case4 i lastError error is _ =>
      rename_i late
      rw [getLicenseInfo, is]
      simp only [if_neg late]
      exact ⟨i, rfl, le_rfl, fun j above below => by omega, fun level => by simp [is]⟩

/-- Polls go on only when the call before has not read the level. -/
theorem awaitLevel_eq {wanted : String} {deadline i : ℕ} (early : looks.clock.now i < deadline) :
    let r := getLicenseInfo looks (looks.clock.now i + 15000) i none
    awaitLevel looks wanted deadline i = true ↔
      r.1 = .ok (.str (units wanted)) ∨ awaitLevel looks wanted deadline r.2 = true := by
  dsimp only
  rw [awaitLevel, if_pos early]
  split
  · rename_i level is
    simp [is]
  · rename_i other
    constructor
    · exact .inr
    · rintro (is | later)
      · exact absurd is (other _)
      · exact later

theorem awaitLevel_sound {wanted : String} {deadline i : ℕ} (h : awaitLevel looks wanted deadline i = true) :
    ∃ j, looks.clock.now j < deadline + 15000 ∧ Reads looks wanted j := by
  induction left : deadline - looks.clock.now i using Nat.strongRecOn generalizing i with
  | ind left ih =>
      by_cases early : looks.clock.now i < deadline
      · obtain ⟨last, next, above, before, result⟩ :=
          @getLicenseInfo_spec looks (looks.clock.now i + 15000) i none
        rcases (awaitLevel_eq early).mp h with is | later
        · refine ⟨last, ?_, (result _).mp is⟩
          rcases Nat.eq_or_lt_of_le above with rfl | above
          · omega
          · have within := (before (last - 1) (by omega) (by omega)).2
            rw [Nat.sub_add_cancel (by omega)] at within
            omega
        · have advanced := now_lt looks (getLicenseInfo_later looks (looks.clock.now i + 15000) i none)
          exact ih _ (by omega) later rfl
      · rw [awaitLevel, if_neg early] at h
        cases h

theorem awaitLevel_complete {wanted : String} {deadline i j : ℕ} (at_ : i ≤ j) (early : looks.clock.now j < deadline)
    (reads : Reads looks wanted j) : awaitLevel looks wanted deadline i = true := by
  induction left : deadline - looks.clock.now i using Nat.strongRecOn generalizing i with
  | ind left ih =>
      have begun : looks.clock.now i < deadline := (now_le looks at_).trans_lt early
      obtain ⟨last, next, above, before, result⟩ :=
        @getLicenseInfo_spec looks (looks.clock.now i + 15000) i none
      refine (awaitLevel_eq begun).mpr ?_
      rcases Nat.lt_trichotomy j last with inside | rfl | after
      · obtain ⟨⟨e, again⟩, -⟩ := before j at_ inside
        rw [reads] at again
        cases again
      · exact .inl ((result _).mpr reads)
      · have advanced := now_lt looks (getLicenseInfo_later looks (looks.clock.now i + 15000) i none)
        exact .inr (ih _ (by omega) (by omega) rfl)

end Reading

structure Env where
  /-- The looks at the endpoint before anything is asked. -/
  ready : Probes 2000
  posts : ℕ → Except Caught RestResponse
  looks : Looks

inductive Action
  | awaited (ready : Bool)
  | post (body : Record String) (answer : Except Caught RestResponse)
  | verify (wanted : String) (seen : Bool)

section Renew

variable (opts : LicenseOptions) (env : Env)

/-- `waitForLicenseApi`: a wait in vain is no error. -/
def readyLoop (deadline i : ℕ) : Bool :=
  if env.ready.times.now i < deadline then
    match env.ready.answers i with
    | .ok answer => (succeeded answer && isLicenseBody answer.body) || readyLoop deadline (i + 1)
    | .error _ => readyLoop deadline (i + 1)
  else false
termination_by deadline - env.ready.times.now i
decreasing_by
  all_goals
    have := env.ready.times.clock.advances i
    change env.ready.times.now i < env.ready.times.now (i + 1) at this
    omega

def waitForLicenseApi : Bool := readyLoop env (env.ready.times.start + 30000) 0

/-- What follows an answer of the license server. -/
def verifyLevel : List Action × Except Failure Unit :=
  match given opts.level with
  | none => ([], .ok ())
  | some level =>
      let seen := awaitLevel env.looks level (env.looks.start + LICENSE_VERIFY_TIMEOUT) 0
      ([.verify level seen], if seen then .ok () else .error (fail .PROCESS_FAILED
        s!"License renewal accepted but level did not change to \"{level}\" within {LICENSE_VERIFY_TIMEOUT / 1000}s"))

/-- The attempts from number `attempt` on, with so many to go. -/
def tryRenew : ℕ → ℕ → List Action × Except Failure Unit
  | 0, _ => ([], .ok ())
  | left + 1, attempt =>
      let post := Action.post (renewBody opts) (env.posts attempt)
      match env.posts attempt with
      | .error e => ([post], .error (fail .PROCESS_FAILED s!"License renewal request failed: {e.message}"))
      | .ok answer =>
          if !succeeded answer then
            ([post], .error (fail .PROCESS_FAILED s!"License renewal failed: HTTP {answer.status} — {answer.body}"))
          else
            match classifyRenewResponse answer.body with
            | .error => ([post], .error
                { code := some .PROCESS_FAILED
                  message := units "License renewal rejected by MikroTik: " ++ errorDetail answer.body })
            | .notReady =>
                if left = 0 then
                  ([post], .error (fail .PROCESS_FAILED ("License renew endpoint returned system resource data after " ++
                    "multiple attempts — REST API not fully initialized")))
                else
                  let (actions, result) := tryRenew left (attempt + 1)
                  (post :: actions, result)
            | .done | .pending =>
                let (actions, result) := verifyLevel opts env
                (post :: actions, result)

def renewLicense : List Action × Except Failure Unit :=
  let (actions, result) := tryRenew opts env MAX_RENEW_ATTEMPTS 1
  (.awaited (waitForLicenseApi env) :: actions, result)

end Renew

/-- The answer belongs to another endpoint. -/
def NotReady (answer : Except Caught RestResponse) : Prop :=
  ∃ r, answer = .ok r ∧ succeeded r = true ∧ classifyRenewResponse r.body = .notReady

/-- The license server has taken the request. -/
def Taken (answer : Except Caught RestResponse) : Prop :=
  ∃ r, answer = .ok r ∧ succeeded r = true ∧
    (classifyRenewResponse r.body = .done ∨ classifyRenewResponse r.body = .pending)

/-- The level is read by this time. No level is read at any time. -/
def ReadBy (opts : LicenseOptions) (looks : Looks) (time : ℕ) : Prop :=
  ∀ level, given opts.level = some level → ∃ j, looks.clock.now j < time ∧ Reads looks level j

def Action.isPost : Action → Bool
  | .post _ _ => true
  | _ => false

/-- The requests before the one that is taken or fails belong to another endpoint, and only after a request that is
taken is the level read. A renewal that returns has read the level; one whose level is there in time returns. -/
structure Renews (opts : LicenseOptions) (env : Env) (r : List Action × Except Failure Unit) : Prop where
  posts : ∃ n < MAX_RENEW_ATTEMPTS, (∀ i < n, NotReady (env.posts (i + 1))) ∧ ∃ last,
    r.1 = .awaited (waitForLicenseApi env) ::
      (List.range (n + 1)).map (fun i => .post (renewBody opts) (env.posts (i + 1))) ++ last ∧
    last.any Action.isPost = false ∧ (last ≠ [] → Taken (env.posts (n + 1))) ∧
    (r.2 = .ok () → Taken (env.posts (n + 1)) ∧ ReadBy opts env.looks (env.looks.start + LICENSE_VERIFY_TIMEOUT + 15000))
  returns : (∃ n < MAX_RENEW_ATTEMPTS, (∀ i < n, NotReady (env.posts (i + 1))) ∧ Taken (env.posts (n + 1))) →
    ReadBy opts env.looks (env.looks.start + LICENSE_VERIFY_TIMEOUT) → r.2 = .ok ()

section

variable {opts : LicenseOptions} {env : Env}

theorem verifyLevel_sound (h : (verifyLevel opts env).2 = .ok ()) :
    ReadBy opts env.looks (env.looks.start + LICENSE_VERIFY_TIMEOUT + 15000) := by
  intro level wanted
  simp only [verifyLevel, wanted] at h
  split at h
  · rename_i seen
    exact awaitLevel_sound seen
  · cases h

theorem verifyLevel_complete (h : ReadBy opts env.looks (env.looks.start + LICENSE_VERIFY_TIMEOUT)) :
    (verifyLevel opts env).2 = .ok () := by
  unfold verifyLevel
  split
  · rfl
  · rename_i level wanted
    obtain ⟨j, early, reads⟩ := h level wanted
    have seen := awaitLevel_complete (Nat.zero_le j) early reads
    simp only [seen, if_true]

theorem verifyLevel_posts : (verifyLevel opts env).1.any Action.isPost = false := by
  unfold verifyLevel
  split <;> rfl

theorem tryRenew_cases (left attempt : ℕ) :
    let r := tryRenew opts env (left + 1) attempt
    let post := Action.post (renewBody opts) (env.posts attempt)
    (∃ e, r = ([post], .error e) ∧ ¬ Taken (env.posts attempt) ∧ (NotReady (env.posts attempt) → left = 0)) ∨
      (NotReady (env.posts attempt) ∧ left ≠ 0 ∧
        r = (post :: (tryRenew opts env left (attempt + 1)).1, (tryRenew opts env left (attempt + 1)).2)) ∨
      Taken (env.posts attempt) ∧ r = (post :: (verifyLevel opts env).1, (verifyLevel opts env).2) := by
  dsimp only
  rw [tryRenew]
  cases answered : env.posts attempt with
  | error e => exact .inl ⟨_, rfl, by simp [Taken], by simp [NotReady]⟩
  | ok answer =>
      dsimp only
      split
      · rename_i failed
        have failed : succeeded answer = false := by simpa using failed
        exact .inl ⟨_, rfl, by simp [Taken, failed], by simp [NotReady, failed]⟩
      · rename_i success
        have success : succeeded answer = true := by simpa using success
        cases said : classifyRenewResponse answer.body with
        | error => exact .inl ⟨_, rfl, by simp [Taken, said], by simp [NotReady, said]⟩
        | notReady =>
            by_cases none : left = 0
            · exact .inl ⟨_, if_pos none, by simp [Taken, said], fun _ => none⟩
            · exact .inr (.inl ⟨⟨answer, rfl, success, said⟩, none, if_neg none⟩)
        | done => exact .inr (.inr ⟨⟨answer, rfl, success, .inl said⟩, rfl⟩)
        | pending => exact .inr (.inr ⟨⟨answer, rfl, success, .inr said⟩, rfl⟩)

theorem not_taken_of_notReady {answer : Except Caught RestResponse} (h : NotReady answer) : ¬ Taken answer := by
  rintro ⟨r, is, -, said⟩
  obtain ⟨r', is', -, other⟩ := h
  rw [is] at is'
  cases is'
  rw [other] at said
  rcases said with said | said <;> cases said

theorem tryRenew_posts (left attempt : ℕ) :
    let r := tryRenew opts env (left + 1) attempt
    ∃ n < left + 1, (∀ i < n, NotReady (env.posts (attempt + i))) ∧ ∃ last,
      r.1 = (List.range (n + 1)).map (fun i => .post (renewBody opts) (env.posts (attempt + i))) ++ last ∧
      last.any Action.isPost = false ∧ (last ≠ [] → Taken (env.posts (attempt + n))) ∧
      (r.2 = .ok () → Taken (env.posts (attempt + n)) ∧
        ReadBy opts env.looks (env.looks.start + LICENSE_VERIFY_TIMEOUT + 15000)) := by
  dsimp only
  induction left generalizing attempt with
  | zero =>
      rcases @tryRenew_cases opts env 0 attempt with ⟨e, is, -, -⟩ | ⟨-, more, -⟩ | ⟨taken, is⟩
      · rw [is]
        exact ⟨0, by omega, fun i low => by omega, [], rfl, rfl, fun some => absurd rfl some, fun ok => by cases ok⟩
      · exact absurd rfl more
      · rw [is]
        exact ⟨0, by omega, fun i low => by omega, _, rfl, verifyLevel_posts, fun _ => taken,
          fun ok => ⟨taken, verifyLevel_sound ok⟩⟩
  | succ left ih =>
      rcases @tryRenew_cases opts env (left + 1) attempt with ⟨e, is, -, -⟩ | ⟨other, -, is⟩ | ⟨taken, is⟩
      · rw [is]
        exact ⟨0, by omega, fun i low => by omega, [], rfl, rfl, fun some => absurd rfl some, fun ok => by cases ok⟩
      · obtain ⟨n, few, others, last, whole, clean, taken, ok⟩ := ih (attempt + 1)
        have shifted : ∀ i, attempt + 1 + i = attempt + (i + 1) := fun i => by omega
        simp only [shifted] at others whole taken ok
        rw [is]
        refine ⟨n + 1, by omega, fun i low => ?_, last, ?_, clean, taken, ok⟩
        · cases i with
          | zero => exact other
          | succ i => exact others i (by omega)
        · rw [List.range_succ_eq_map, List.map_cons, List.map_map, List.cons_append]
          exact congrArg (_ :: ·) whole
      · rw [is]
        exact ⟨0, by omega, fun i low => by omega, _, rfl, verifyLevel_posts, fun _ => taken,
          fun ok => ⟨taken, verifyLevel_sound ok⟩⟩

theorem tryRenew_returns {left attempt : ℕ}
    (taken : ∃ n < left + 1, (∀ i < n, NotReady (env.posts (attempt + i))) ∧ Taken (env.posts (attempt + n)))
    (read : ReadBy opts env.looks (env.looks.start + LICENSE_VERIFY_TIMEOUT)) :
    (tryRenew opts env (left + 1) attempt).2 = .ok () := by
  induction left generalizing attempt with
  | zero =>
      obtain ⟨n, few, -, taken⟩ := taken
      obtain rfl : n = 0 := by omega
      rcases @tryRenew_cases opts env 0 attempt with ⟨-, -, not, -⟩ | ⟨-, more, -⟩ | ⟨-, is⟩
      · exact absurd taken not
      · exact absurd rfl more
      · rw [is]
        exact verifyLevel_complete read
  | succ left ih =>
      obtain ⟨n, few, others, taken⟩ := taken
      rcases @tryRenew_cases opts env (left + 1) attempt with ⟨-, -, not, last⟩ | ⟨other, -, is⟩ | ⟨-, is⟩
      · cases n with
        | zero => exact absurd taken not
        | succ n => exact absurd (last (others 0 (Nat.succ_pos n))) (Nat.succ_ne_zero left)
      · cases n with
        | zero => exact absurd taken (not_taken_of_notReady other)
        | succ n =>
            have shifted : ∀ i, attempt + (i + 1) = attempt + 1 + i := fun i => by omega
            rw [is]
            refine ih ⟨n, by omega, fun i low => ?_, by rwa [← shifted]⟩
            rw [← shifted]
            exact others (i + 1) (by omega)
      · rw [is]
        exact verifyLevel_complete read

end

theorem renews (opts : LicenseOptions) (env : Env) : Renews opts env (renewLicense opts env) where
  posts := by
    obtain ⟨n, few, others, last, whole, rest⟩ := @tryRenew_posts opts env 2 1
    simp only [Nat.add_comm 1] at others whole rest
    refine ⟨n, few, others, last, ?_, rest⟩
    exact congrArg (Action.awaited (waitForLicenseApi env) :: ·) whole
  returns taken read := by
    obtain ⟨n, few, others, taken⟩ := taken
    refine @tryRenew_returns opts env 2 1 ⟨n, few, fun i low => ?_, ?_⟩ read
    · rw [Nat.add_comm]
      exact others i low
    · rwa [Nat.add_comm]

/-- The request is taken at once, and the level is there at the third look. -/
def renewing : Env where
  ready := ⟨.steady 2000, booting⟩
  posts _ := .ok { status := 200, body := "[\x7b\"status\":\"connecting\"\x7d,\x7b\"status\":\"done\"\x7d]" }
  looks :=
    { start := 0
      clock := { now := fun i => 2000 * i, advances := fun i => by omega }
      begun := Nat.zero_le _
      answers := fun i => .ok
        { status := 200, body := if i < 2 then "\x7b\"system-id\":\"x\"\x7d" else "\x7b\"system-id\":\"x\",\"level\":\"p1\"\x7d" } }

def toP1 : LicenseOptions where
  account := some "account"
  password := some "password"
  level := some "p1"

theorem renews_toP1 : (renewLicense toP1 renewing).2 = .ok () := by
  refine (renews toP1 renewing).returns ⟨0, by decide, nofun, _, rfl, by decide, .inl (by decide +kernel)⟩
    fun level wanted => ⟨2, by decide, ?_⟩
  obtain rfl : "p1" = level := Option.some.inj (by rw [← wanted]; decide +kernel)
  rfl

end Quickchr.License
