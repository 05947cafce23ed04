import Quickchr.Console

/-!
# The first account on a guest

Provisioning creates an account over REST, as the JSON values of a request, or, when REST does
not come up, as a line typed into the serial console. RouterOS reads the line in a language of
its own: between double quotes a backslash starts an escape and `$` a reference to a variable.
-/
namespace Quickchr

structure Account where
  name : String
  password : String
  group : String
  deriving DecidableEq, Repr

/-- What of RouterOS the accounts depend on. -/
structure RouterOs where
  /-- Why it does not take an account beside those it holds. -/
  refusal : List Account → Account → Option String
  /-- What an escape stands for, read after its backslash, and the text behind it. -/
  escape : List Char → Option (List Char × List Char)
  escape_length : ∀ {text value rest}, escape text = some (value, rest) →
    value.length + rest.length ≤ text.length

def RouterOs.add (ros : RouterOs) (accounts : List Account) (account : Account) : List Account :=
  match ros.refusal accounts account with
  | none => accounts ++ [account]
  | some _ => accounts

/-- Characters that do not stand for themselves between double quotes. -/
def isQuotedSpecial (c : Char) : Bool := c = '"' ∨ c = '\\' ∨ c = '$'

def isVariableChar (c : Char) : Bool := c.isAlphanum

/-- The text up to the double quote that ends it, and what follows. A guest that was just installed
has no variable set, so a reference reads as nothing. -/
def RouterOs.readQuoted (ros : RouterOs) : List Char → Option (List Char × List Char)
  | [] => none
  | c :: text =>
      if c = '"' then some ([], text)
      else if c = '\\' then
        match _escaped : ros.escape text with
        | some (value, rest) => (ros.readQuoted rest).map fun read => (value ++ read.1, read.2)
        | none => none
      else if c = '$' then ros.readQuoted (text.dropWhile isVariableChar)
      else (ros.readQuoted text).map fun read => (c :: read.1, read.2)
termination_by text => text.length
decreasing_by
  · have := ros.escape_length _escaped
    rw [List.length_cons]
    omega
  · exact Nat.lt_succ_of_le (List.dropWhile_sublist _).length_le
  · exact Nat.lt_succ_self _

/-- The account that a line asks for, in the form in which the program writes it. -/
def RouterOs.readUserAdd (ros : RouterOs) (line : List Char) : Option Account := do
  let text ← line.dropPrefix? "/user add name=\"".toList
  let (name, text) ← ros.readQuoted text
  let text ← text.dropPrefix? " password=\"".toList
  let (password, text) ← ros.readQuoted text
  let group ← text.dropPrefix? " group=".toList
  some { name := String.ofList name, password := String.ofList password, group := String.ofList group }

/-- One line that the guest has read. Another one is another command or none at all. -/
def RouterOs.enter (ros : RouterOs) (accounts : List Account) (line : List Char) : List Account :=
  match ros.readUserAdd line with
  | some account => ros.add accounts account
  | none => accounts

def isLineEnd (c : Char) : Bool := c = '\r' ∨ c = '\n'

/-- What is typed into the console: every line end enters the line before it. -/
def RouterOs.type (ros : RouterOs) (accounts : List Account) (text : List Char) : List Account :=
  (text.splitOnP isLineEnd).foldl ros.enter accounts

/-- Nothing in the text means something else on the command line. -/
def Plain (text : String) : Prop := ∀ c ∈ text.toList, isQuotedSpecial c = false ∧ isLineEnd c = false

instance (text : String) : Decidable (Plain text) :=
  List.decidableBAll (fun c => isQuotedSpecial c = false ∧ isLineEnd c = false) text.toList

def userAddCommand (name password : String) : String :=
  "/user add name=\"" ++ name ++ "\" password=\"" ++ password ++ "\" group=full"

section CommandLine

variable {ros : RouterOs}

/-- Nothing is read as more than what was written, and only what stands for itself as that much. -/
theorem RouterOs.readQuoted_length {text value rest : List Char}
    (h : ros.readQuoted text = some (value, rest)) :
    value.length + 1 + rest.length ≤ text.length ∧
      (value.length + 1 + rest.length = text.length →
        text = value ++ '"' :: rest ∧ ∀ c ∈ value, isQuotedSpecial c = false) := by
  induction text using RouterOs.readQuoted.induct ros generalizing value rest with
  | case1 =>
      rw [RouterOs.readQuoted] at h
      cases h
  | case2 text =>
      rw [RouterOs.readQuoted, if_pos rfl] at h
      cases h
      refine ⟨?_, fun _ => ⟨rfl, fun c none => by cases none⟩⟩
      simp only [List.length_nil, List.length_cons]
      omega
  | case3 text read text' escaped notQuote ih =>
      rw [RouterOs.readQuoted, if_neg notQuote, if_pos rfl] at h
      have shorter := ros.escape_length escaped
      split at h
      · rename_i read' text'' escaped'
        rw [escaped] at escaped'
        cases escaped'
        obtain ⟨⟨value', rest'⟩, later, eq⟩ := Option.map_eq_some_iff.mp h
        cases eq
        have := (ih later).1
        dsimp only
        rw [List.length_append, List.length_cons]
        exact ⟨by omega, fun same => by omega⟩
      · cases h
  | case4 text escaped notQuote =>
      rw [RouterOs.readQuoted, if_neg notQuote, if_pos rfl] at h
      split at h
      · rename_i read text' escaped'
        rw [escaped] at escaped'
        cases escaped'
      · cases h
  | case5 text notQuote notEscape ih =>
      rw [RouterOs.readQuoted, if_neg notQuote, if_neg notEscape, if_pos rfl] at h
      have := (ih h).1
      have := (List.dropWhile_sublist isVariableChar (l := text)).length_le
      rw [List.length_cons]
      exact ⟨by omega, fun same => by omega⟩
  | case6 c text notQuote notEscape notVariable ih =>
      rw [RouterOs.readQuoted, if_neg notQuote, if_neg notEscape, if_neg notVariable] at h
      obtain ⟨⟨value', rest'⟩, later, eq⟩ := Option.map_eq_some_iff.mp h
      cases eq
      obtain ⟨shorter, verbatim⟩ := ih later
      dsimp only at shorter verbatim ⊢
      rw [List.length_cons, List.length_cons]
      refine ⟨by omega, fun same => ?_⟩
      obtain ⟨rfl, plain⟩ := verbatim (by omega)
      refine ⟨rfl, List.forall_mem_cons.mpr ⟨?_, plain⟩⟩
      simp only [isQuotedSpecial, notQuote, notEscape, notVariable, or_self, decide_false]

theorem RouterOs.readQuoted_plain {value rest : List Char}
    (plain : ∀ c ∈ value, isQuotedSpecial c = false) :
    ros.readQuoted (value ++ '"' :: rest) = some (value, rest) := by
  induction value with
  | nil => rw [List.nil_append, RouterOs.readQuoted, if_pos rfl]
  | cons c value ih =>
      obtain ⟨first, others⟩ := List.forall_mem_cons.mp plain
      simp only [isQuotedSpecial, decide_eq_false_iff_not, not_or] at first
      obtain ⟨notQuote, notEscape, notVariable⟩ := first
      rw [List.cons_append, RouterOs.readQuoted, if_neg notQuote, if_neg notEscape,
        if_neg notVariable, ih others]
      rfl

theorem toList_parts (a b c n p : String) : (a ++ n ++ b ++ p ++ c).toList =
    a.toList ++ (n.toList ++ (b.toList ++ (p.toList ++ c.toList))) := by
  simp only [String.toList_append, List.append_assoc]

theorem userAddCommand_parts (name password : String) :
    (userAddCommand name password).toList = "/user add name=\"".toList ++ (name.toList ++
      '"' :: (" password=\"".toList ++ (password.toList ++ '"' :: " group=full".toList))) := by
  have middle : "\" password=\"".toList = '"' :: " password=\"".toList := by decide
  have last : "\" group=full".toList = '"' :: " group=full".toList := by decide
  have parts := toList_parts "/user add name=\"" "\" password=\"" "\" group=full" name password
  rw [middle, last] at parts
  exact parts

/-- No line that asks for the same account is shorter than the program's own, and no other one as
short. -/
theorem RouterOs.readUserAdd_verbatim {line : List Char} {name password : String}
    (h : ros.readUserAdd line = some ⟨name, password, "full"⟩) :
    (userAddCommand name password).toList.length ≤ line.length ∧
      (line.length ≤ (userAddCommand name password).toList.length →
        line = (userAddCommand name password).toList ∧
          (∀ c ∈ name.toList, isQuotedSpecial c = false) ∧
          ∀ c ∈ password.toList, isQuotedSpecial c = false) := by
  unfold RouterOs.readUserAdd at h
  obtain ⟨text, start, h⟩ := Option.bind_eq_some_iff.mp h
  obtain ⟨⟨name', text'⟩, readName, h⟩ := Option.bind_eq_some_iff.mp h
  obtain ⟨text'', middle, h⟩ := Option.bind_eq_some_iff.mp h
  obtain ⟨⟨password', ending⟩, readPassword, h⟩ := Option.bind_eq_some_iff.mp h
  obtain ⟨group, last, h⟩ := Option.bind_eq_some_iff.mp h
  have full : " group=full".toList = " group=".toList ++ "full".toList := by decide
  simp only [Option.some.injEq, Account.mk.injEq] at h
  obtain ⟨rfl, rfl, isFull⟩ := h
  have isFull : group = "full".toList := by rw [← isFull, String.toList_ofList]
  have start := Text.dropPrefix?_eq_some start
  have middle := Text.dropPrefix?_eq_some middle
  have last := Text.dropPrefix?_eq_some last
  obtain ⟨nameShort, nameVerbatim⟩ := ros.readQuoted_length readName
  obtain ⟨passwordShort, passwordVerbatim⟩ := ros.readQuoted_length readPassword
  rw [userAddCommand_parts, @String.toList_ofList name', @String.toList_ofList password', full,
    ← isFull, ← last]
  subst start
  rw [middle, List.length_append] at nameShort nameVerbatim
  simp only [List.length_append, List.length_cons]
  refine ⟨by omega, fun short => ?_⟩
  obtain ⟨rfl, namePlain⟩ := nameVerbatim (by omega)
  obtain ⟨rfl, passwordPlain⟩ := passwordVerbatim (by omega)
  exact ⟨rfl, namePlain, passwordPlain⟩

theorem RouterOs.readUserAdd_plain {name password : String}
    (plainName : ∀ c ∈ name.toList, isQuotedSpecial c = false)
    (plainPassword : ∀ c ∈ password.toList, isQuotedSpecial c = false) :
    ros.readUserAdd (userAddCommand name password).toList = some ⟨name, password, "full"⟩ := by
  have full : " group=full".toList = " group=".toList ++ "full".toList := by decide
  have group : String.ofList "full".toList = "full" := String.ofList_toList
  rw [userAddCommand_parts, full]
  refine Option.bind_eq_some_iff.mpr ⟨_, Text.dropPrefix?_append _ _, ?_⟩
  refine Option.bind_eq_some_iff.mpr ⟨_, ros.readQuoted_plain plainName, ?_⟩
  refine Option.bind_eq_some_iff.mpr ⟨_, Text.dropPrefix?_append _ _, ?_⟩
  refine Option.bind_eq_some_iff.mpr ⟨_, ros.readQuoted_plain plainPassword, ?_⟩
  refine Option.bind_eq_some_iff.mpr ⟨_, Text.dropPrefix?_append _ _, ?_⟩
  rw [String.ofList_toList, String.ofList_toList, group]

theorem RouterOs.foldl_enter (lines : List (List Char)) (accounts : List Account) :
    ∃ added, lines.foldl ros.enter accounts = accounts ++ added ∧
      ∀ account ∈ added, ∃ line ∈ lines, ros.readUserAdd line = some account := by
  induction lines generalizing accounts with
  | nil => exact ⟨[], (List.append_nil _).symm, fun account none => by cases none⟩
  | cons line lines ih =>
      obtain ⟨added, eq, asked⟩ := ih (ros.enter accounts line)
      have later : ∀ account ∈ added, ∃ other ∈ line :: lines,
          ros.readUserAdd other = some account := fun account mem =>
        (asked account mem).imp fun other h => ⟨List.mem_cons_of_mem _ h.1, h.2⟩
      rw [List.foldl_cons, eq, RouterOs.enter]
      cases read : ros.readUserAdd line with
      | none => exact ⟨added, rfl, later⟩
      | some account =>
          dsimp only
          rw [RouterOs.add]
          cases ros.refusal accounts account with
          | none =>
              refine ⟨account :: added, by rw [List.append_assoc, List.singleton_append], ?_⟩
              exact List.forall_mem_cons.mpr ⟨⟨line, List.mem_cons_self, read⟩, later⟩
          | some reason => exact ⟨added, rfl, later⟩

/-- Typing the command adds the account it was made for, and nothing else, exactly when nothing in
it means something else and RouterOS takes the account. -/
theorem RouterOs.type_userAdd_iff {accounts : List Account} {name password : String} :
    ros.type accounts (userAddCommand name password).toList =
        accounts ++ [⟨name, password, "full"⟩] ↔
      Plain name ∧ Plain password ∧ ros.refusal accounts ⟨name, password, "full"⟩ = none := by
  -- the lines of a command without line ends
  have single : (∀ c ∈ (userAddCommand name password).toList, isLineEnd c = false) →
      (userAddCommand name password).toList.splitOnP isLineEnd =
        [(userAddCommand name password).toList] := List.splitOnP_eq_singleton
  have parts : ∀ {line : List Char}, line = (userAddCommand name password).toList →
      (∀ c ∈ name.toList, c ∈ line) ∧ ∀ c ∈ password.toList, c ∈ line := by
    rintro line rfl
    rw [userAddCommand_parts]
    constructor
    · intro c member
      exact List.mem_append_right _ (List.mem_append_left _ member)
    · intro c member
      exact List.mem_append_right _ (List.mem_append_right _ (List.mem_cons_of_mem _
        (List.mem_append_right _ (List.mem_append_left _ member))))
  have entered : ros.readUserAdd (userAddCommand name password).toList =
        some ⟨name, password, "full"⟩ →
      ((ros.enter accounts (userAddCommand name password).toList) =
          accounts ++ [⟨name, password, "full"⟩] ↔
        ros.refusal accounts ⟨name, password, "full"⟩ = none) := by
    intro read
    rw [RouterOs.enter, read]
    dsimp only
    rw [RouterOs.add]
    cases ros.refusal accounts ⟨name, password, "full"⟩ with
    | none => exact iff_of_true rfl rfl
    | some reason =>
        refine iff_of_false (fun same => ?_) (by simp)
        have longer := congrArg List.length same
        dsimp only at longer
        rw [List.length_append, List.length_singleton] at longer
        omega
  constructor
  · intro typed
    obtain ⟨added, eq, asked⟩ := ros.foldl_enter
      ((userAddCommand name password).toList.splitOnP isLineEnd) accounts
    rw [← RouterOs.type, typed] at eq
    obtain ⟨line, piece, read⟩ := asked ⟨name, password, "full"⟩
      (List.append_cancel_left eq ▸ List.mem_singleton_self _)
    obtain ⟨short, clean⟩ := Text.of_mem_splitOnP piece
    obtain ⟨rfl, plainName, plainPassword⟩ := (ros.readUserAdd_verbatim read).2 short
    obtain ⟨inName, inPassword⟩ := parts rfl
    refine ⟨fun c member => ⟨plainName c member, clean c (inName c member)⟩,
      fun c member => ⟨plainPassword c member, clean c (inPassword c member)⟩, ?_⟩
    rw [RouterOs.type, single clean] at typed
    exact (entered read).mp typed
  · rintro ⟨plainName, plainPassword, taken⟩
    have clean : ∀ c ∈ (userAddCommand name password).toList, isLineEnd c = false := by
      rw [userAddCommand_parts]
      simp only [List.forall_mem_append, List.forall_mem_cons]
      have own : ∀ {part : List Char}, part.all (fun c => !isLineEnd c) = true →
          ∀ c ∈ part, isLineEnd c = false := fun all c member => by
        simpa using List.all_eq_true.mp all c member
      exact ⟨own (by decide), fun c member => (plainName c member).2, by decide, own (by decide),
        fun c member => (plainPassword c member).2, by decide, own (by decide)⟩
    rw [RouterOs.type, single clean]
    exact (entered (ros.readUserAdd_plain (fun c member => (plainName c member).1)
      fun c member => (plainPassword c member).1)).mpr taken

end CommandLine

/-- A request that changes the guest: answered, or lost before or after the guest took it. -/
inductive Link
  | delivered
  | lost (executed : Bool) (error : PlainError)
  deriving DecidableEq, Repr

/-- What RouterOS answers to `/rest/user/add`. -/
def RouterOs.answer (ros : RouterOs) (accounts : List Account) (account : Account) : RestResponse :=
  match ros.refusal accounts account with
  | none => { status := 200, body := "\x7b\"ret\":\"*2\"\x7d" }
  | some reason => { status := 400, body := reason }

/-- What a reading of the user list gives. -/
inductive Listing
  | unanswered (error : PlainError)
  | refused (response : RestResponse)
  | unreadable
  | users (users : List (String × Option String))
  deriving DecidableEq, Repr

/-- The group of the first user of that name, if there is one. -/
def readUser (name : String) : Listing → Except Thrown (Option (Option String))
  | .unanswered error => .error (.plain error)
  | .refused response => .error (.quickchr
      { code := .PROCESS_FAILED
        message := s!"Failed to read user list: HTTP {response.status} — {response.body}" } none)
  | .unreadable => .ok none
  | .users users => .ok ((users.find? fun u => u.1 = name).map (·.2))

/-- What REST answers to `createUser` after its request to add the user. -/
structure RestGuest where
  up : Bool
  link : Link
  listings : ℕ → Listing
  listed : Polling.Clock
  /-- The status of each attempt to log in, unless it got none. -/
  statuses : ℕ → Option ℕ
  tried : Polling.Clock

def failed (message : String) : Thrown :=
  .quickchr { code := .PROCESS_FAILED, message := message } none

def restUnavailable : Thrown :=
  .quickchr { code := .BOOT_TIMEOUT, message := "REST API did not become available" } none

/-- One reading of the list by `createUser`: whether it shows the user, in its group. -/
def visibleAt (name expectedGroup : String) (listing : Listing) : Option (Except Thrown Unit) :=
  match readUser name listing with
  | .error (.quickchr e cause) =>
      if (Text.indexOf "unexpected group".toList e.message.toList).isSome then
        some (.error (.quickchr e cause))
      else none
  | .error (.plain _) => none
  | .ok none => none
  | .ok (some group) =>
      let actualGroup := Text.toLowerCase (Text.trim (group.getD ""))
      if actualGroup = "" then none
      else if actualGroup ≠ expectedGroup then some (.error (failed
        (s!"User \"{name}\" created with unexpected group (expected={expectedGroup}, " ++
          s!"actual={actualGroup})")))
      else some (.ok ())

def waitVisible (guest : RestGuest) (name expectedGroup : String) : Except Thrown Unit :=
  let invisible := Except.error (failed
    s!"User \"{name}\" creation was acknowledged but did not become visible in RouterOS")
  Polling.poll guest.listed 30000
    (fun i => if 30000 ≤ guest.listed.now i then some invisible
      else visibleAt name expectedGroup (guest.listings i))
    (fun _ => invisible) 0

/-- The status of the last attempt before `i` that got one. -/
def RestGuest.lastStatus (guest : RestGuest) : ℕ → Option ℕ
  | 0 => none
  | i + 1 => (guest.statuses i).orElse fun _ => guest.lastStatus i

def waitForAuth (guest : RestGuest) (timeoutMs : ℕ) : Except Thrown Unit :=
  let expired := fun attempts =>
    let last := (guest.lastStatus attempts).elim "no response" toString
    Except.error (failed (s!"Credentials were not accepted within {timeoutMs}ms over {attempts} " ++
      s!"attempt(s) (last HTTP status: {last}) — the user record exists but RouterOS is not " ++
      "authenticating it"))
  Polling.poll guest.tried timeoutMs
    (fun i => if timeoutMs ≤ guest.tried.now i then some (expired i)
      else if (guest.statuses i).any fun status => 200 ≤ status ∧ status < 300 then some (.ok ())
      else none)
    (fun i => expired (i + 1)) 0

/-- `btoa` takes only characters of one byte. -/
def btoa (text : String) : Except Thrown Unit :=
  if text.toList.all fun c => c.toNat < 256 then .ok ()
  else .error (.plain { message := "The string contains invalid characters." })

/-- A run that may have changed the accounts of the guest. -/
structure AccountRun where
  accounts : List Account
  result : Except Thrown Unit

def createUser (ros : RouterOs) (accounts : List Account) (guest : RestGuest)
    (name password group : String) : AccountRun :=
  let account : Account := { name := name, password := password, group := group }
  if !guest.up then { accounts := accounts, result := .error restUnavailable }
  else
    match guest.link with
    | .lost executed error =>
        { accounts := if executed then ros.add accounts account else accounts
          result := .error (.plain error) }
    | .delivered =>
        let response := ros.answer accounts account
        { accounts := ros.add accounts account
          result :=
            if response.status < 200 ∨ response.status ≥ 300 then
              .error (failed
                s!"Failed to create user \"{name}\": HTTP {response.status} — {response.body}")
            else do
              let expectedGroup := Text.toLowerCase (Text.trim group)
              waitVisible guest name expectedGroup
              -- a limited group may not use the probe
              if expectedGroup ≠ "full" then .ok ()
              else do
                btoa s!"{name}:{password}"
                waitForAuth guest 30000 }

theorem RouterOs.answer_accepted {ros : RouterOs} {accounts : List Account} {account : Account}
    (h : ¬ ((ros.answer accounts account).status < 200 ∨
      (ros.answer accounts account).status ≥ 300)) : ros.refusal accounts account = none := by
  cases refusal : ros.refusal accounts account with
  | none => rfl
  | some reason =>
      refine absurd (.inr ?_) h
      rw [RouterOs.answer, refusal]
      show 400 ≥ 300
      decide

/-- A user that was created is held by the guest, in its group and with its password. -/
theorem createUser_creates {ros : RouterOs} {accounts : List Account} {guest : RestGuest}
    {name password group : String}
    (h : (createUser ros accounts guest name password group).result = .ok ()) :
    ros.refusal accounts ⟨name, password, group⟩ = none ∧
      (createUser ros accounts guest name password group).accounts =
        accounts ++ [⟨name, password, group⟩] := by
  unfold createUser at h ⊢
  split at h
  · cases h
  · rename_i up
    rw [if_neg up]
    cases link : guest.link with
    | lost executed error =>
        simp only [link] at h
        cases h
    | delivered =>
        simp only [link] at h
        split at h
        · cases h
        · rename_i accepted
          have refusal := RouterOs.answer_accepted accepted
          exact ⟨refusal, by simp only [RouterOs.add, refusal]⟩

/-- Credentials as they were saved, and the accounts on the guest at that time. -/
structure Saved where
  login : Login
  accounts : List Account

structure Provisioned where
  accounts : List Account
  saved : List Saved
  result : Except Thrown (Option Login)

/-- A command that was typed into the console, if the guest has read it. -/
def ConsoleRun.typed (run : ConsoleRun) (ros : RouterOs) (accounts : List Account)
    (command : String) : List Account :=
  if run.received then ros.type accounts command.toList else accounts

section Console

variable (ros : RouterOs) (accounts : List Account) {nonce : List Char}

def consoleDisableAdmin (shouldDisableAdmin : Bool) (attach : Attach nonce) : AccountRun :=
  if shouldDisableAdmin then
    let command := "/user set [find name=admin] disabled=yes"
    let run := consoleExec nonce command 30000 attach
    { accounts := run.typed ros accounts command, result := run.result.map fun _ => () }
  else { accounts := accounts, result := .ok () }

/-- The console path. What the guest says to a command is not looked at. -/
def consoleProvision (effectiveUser : Option Login) (shouldDisableAdmin : Bool)
    (attach attach' : Attach nonce) : Provisioned :=
  match effectiveUser with
  | some user =>
      let command := userAddCommand user.name user.password
      let run := consoleExec nonce command 30000 attach
      let added := run.typed ros accounts command
      match run.result with
      | .error e => { accounts := added, saved := [], result := .error e }
      | .ok _ =>
          let disabled := consoleDisableAdmin ros added shouldDisableAdmin attach'
          { accounts := disabled.accounts
            saved := [{ login := user, accounts := added }]
            result := disabled.result.map fun _ => some user }
  | none =>
      let disabled := consoleDisableAdmin ros accounts shouldDisableAdmin attach'
      { accounts := disabled.accounts, saved := [], result := disabled.result.map fun _ => none }

end Console

structure FirstBoot (nonce : List Char) where
  /-- REST comes up in time. -/
  restUp : Bool
  guest : RestGuest
  disableAdmin : Except Thrown Unit
  /-- The sessions of the console's commands. -/
  attach : Attach nonce
  attach' : Attach nonce

def provision {nonce : List Char} (ros : RouterOs) (accounts : List Account) (user : Option Login)
    (shouldDisableAdmin : Bool) (secureLogin : Option Bool) (generatePassword : String)
    (hasMachineDir : Bool) (boot : FirstBoot nonce) : Provisioned :=
  let effectiveUser :=
    match user with
    | some user => some user
    | none =>
        if secureLogin = some true then
          some { name := QUICKCHR_USER, password := generatePassword }
        else none
  if effectiveUser = none ∧ !shouldDisableAdmin then
    { accounts := accounts
      saved := [{ login := { name := "admin", password := "" }, accounts := accounts }]
      result := .ok none }
  else if !boot.restUp then
    if hasMachineDir then
      consoleProvision ros accounts effectiveUser shouldDisableAdmin boot.attach boot.attach'
    else { accounts := accounts, saved := [], result := .error restUnavailable }
  else
    let disabled := if shouldDisableAdmin then boot.disableAdmin else .ok ()
    match effectiveUser with
    | some user =>
        let created := createUser ros accounts boot.guest user.name user.password "full"
        match created.result with
        | .error e => { accounts := created.accounts, saved := [], result := .error e }
        | .ok () =>
            { accounts := created.accounts
              saved := [{ login := user, accounts := created.accounts }]
              result := disabled.map fun _ => some user }
    | none => { accounts := accounts, saved := [], result := disabled.map fun _ => none }

/-- The account as it was asked for, taken by the guest before its credentials were saved. -/
structure Saved.Held (saved : Saved) (ros : RouterOs) (before : List Account) (user : Login) :
    Prop where
  login : saved.login = user
  taken : ros.refusal before ⟨user.name, user.password, "full"⟩ = none
  account : saved.accounts = before ++ [⟨user.name, user.password, "full"⟩]

section Paths

variable {nonce : List Char} (ros : RouterOs) (accounts : List Account) (user : Login)
  (shouldDisableAdmin : Bool) (secureLogin : Option Bool) (generatePassword : String)
  (boot : FirstBoot nonce)

/-- The REST path saves only the credentials of an account that the guest holds. -/
theorem provision_rest_held (hasMachineDir : Bool) : ∀ saved ∈
    (provision ros accounts (some user) shouldDisableAdmin secureLogin generatePassword
      hasMachineDir { boot with restUp := true }).saved, saved.Held ros accounts user := by
  intro saved member
  simp only [provision, reduceCtorEq, false_and, if_false, Bool.not_true, Bool.false_eq_true] at member
  split at member
  · cases member
  · rename_i created
    obtain ⟨taken, account⟩ := createUser_creates created
    rw [List.mem_singleton.mp member]
    exact ⟨rfl, taken, account⟩

/-- The console path creates the account that was asked for, or fails, if and only if the reply to
its command ends only where the guest has read it, takes the account, and nothing in the name or the
password means something else on the line. -/
theorem consoleProvision_held_iff (attach attach' : Attach nonce) :
    (((consoleProvision ros accounts (some user) shouldDisableAdmin attach attach').saved = [] ∧
        ∃ e, (consoleProvision ros accounts (some user) shouldDisableAdmin attach attach').result =
          .error e) ∨
      ∃ saved, (consoleProvision ros accounts (some user) shouldDisableAdmin attach attach').saved =
          [saved] ∧ saved.Held ros accounts user) ↔
      ((∃ reply, (consoleExec nonce (userAddCommand user.name user.password) 30000
          attach).result = .ok reply) →
        (consoleExec nonce (userAddCommand user.name user.password) 30000 attach).received ∧
          ros.refusal accounts ⟨user.name, user.password, "full"⟩ = none ∧
          Plain user.name ∧ Plain user.password) := by
  simp only [consoleProvision]
  cases ended : (consoleExec nonce (userAddCommand user.name user.password) 30000 attach).result with
  | error e => exact iff_of_true (.inl ⟨rfl, e, rfl⟩) fun h => by obtain ⟨_, ok⟩ := h; cases ok
  | ok reply =>
      dsimp only
      rw [forall_prop_of_true ⟨reply, rfl⟩]
      constructor
      · rintro (⟨none, -⟩ | ⟨saved, eq, held⟩)
        · cases none
        · cases List.cons.inj eq |>.1
          have typed := held.account
          dsimp only at typed
          unfold ConsoleRun.typed at typed
          split at typed
          · rename_i read
            obtain ⟨plainName, plainPassword, -⟩ := ros.type_userAdd_iff.mp typed
            exact ⟨read, held.taken, plainName, plainPassword⟩
          · have longer := congrArg List.length typed
            rw [List.length_append, List.length_singleton] at longer
            omega
      · rintro ⟨read, taken, plainName, plainPassword⟩
        refine .inr ⟨_, rfl, rfl, taken, ?_⟩
        dsimp only
        rw [ConsoleRun.typed, if_pos read]
        exact ros.type_userAdd_iff.mpr ⟨plainName, plainPassword, taken⟩

/-- Both paths create the account that was asked for, or fail, and save its credentials only once
the guest holds it, if and only if the console path does. -/
theorem provision_paths_agree_iff :
    ((∀ saved ∈ (provision ros accounts (some user) shouldDisableAdmin secureLogin generatePassword
          true { boot with restUp := true }).saved, saved.Held ros accounts user) ∧
      (((provision ros accounts (some user) shouldDisableAdmin secureLogin generatePassword true
            { boot with restUp := false }).saved = [] ∧
          ∃ e, (provision ros accounts (some user) shouldDisableAdmin secureLogin generatePassword
            true { boot with restUp := false }).result = .error e) ∨
        ∃ saved, (provision ros accounts (some user) shouldDisableAdmin secureLogin generatePassword
            true { boot with restUp := false }).saved = [saved] ∧
          saved.Held ros accounts user)) ↔
      ((∃ reply, (consoleExec nonce (userAddCommand user.name user.password) 30000
          boot.attach).result = .ok reply) →
        (consoleExec nonce (userAddCommand user.name user.password) 30000 boot.attach).received ∧
          ros.refusal accounts ⟨user.name, user.password, "full"⟩ = none ∧
          Plain user.name ∧ Plain user.password) := by
  rw [and_iff_right (provision_rest_held ros accounts user shouldDisableAdmin secureLogin
    generatePassword boot true)]
  exact consoleProvision_held_iff ros accounts user shouldDisableAdmin boot.attach boot.attach'

end Paths

/-- The marker, after the command and the line that prints it. -/
def markedReply : Looks where
  look
    | 0 => { reply := [], streamDone := false }
    | _ + 1 => { reply := "\rQCHRaEND\r\n".toList, streamDone := false }
  clock := pollClock
  first := rfl
  grows i := by
    cases i with
    | zero => exact List.nil_prefix
    | succ i => exact List.prefix_rfl

/-- REST did not come up, and the guest reads what the console is sent. -/
def consoleBoot : FirstBoot ['a'] where
  restUp := false
  guest :=
    { up := false
      link := .delivered
      listings := fun _ => .unreadable
      listed := markedReply.clock
      statuses := fun _ => none
      tried := markedReply.clock }
  disableAdmin := .ok ()
  attach := .loggedIn { received := true, looks := markedReply, marked := fun _ _ => rfl }
  attach' := .noChannel

def newGuest : RouterOs where
  refusal _ _ := none
  escape _ := none
  escape_length none := by cases none

theorem markedReply_ends : ∃ ended,
    waitForReplyEnd markedReply (makeSentinel ['a']).marker 30000 = some ended := by
  have stop : Polling.StopsAt markedReply.clock 30000 (markedReply.decide
      (makeSentinel ['a']).marker (promptStableWindow 30000)) 0 1 :=
    ⟨Nat.zero_le 1, fun j _ before => by
      rw [Nat.lt_one_iff.mp before]
      exact ⟨rfl, by decide⟩, .inl (by decide)⟩
  rw [waitForReplyEnd, Polling.poll_at stop]
  exact ⟨_, rfl⟩

theorem provision_paths_agree_fails :
    ¬ ((∀ saved ∈ (provision newGuest [] (some ⟨"ops", "pa$$word"⟩) false none "" true
          { consoleBoot with restUp := true }).saved, saved.Held newGuest [] ⟨"ops", "pa$$word"⟩) ∧
      (((provision newGuest [] (some ⟨"ops", "pa$$word"⟩) false none "" true
            { consoleBoot with restUp := false }).saved = [] ∧
          ∃ e, (provision newGuest [] (some ⟨"ops", "pa$$word"⟩) false none "" true
            { consoleBoot with restUp := false }).result = .error e) ∨
        ∃ saved, (provision newGuest [] (some ⟨"ops", "pa$$word"⟩) false none "" true
            { consoleBoot with restUp := false }).saved = [saved] ∧
          saved.Held newGuest [] ⟨"ops", "pa$$word"⟩)) := by
  rintro ⟨-, agree⟩
  obtain ⟨ended, eq⟩ := markedReply_ends
  have replied : ∃ reply, (consoleExec ['a'] (userAddCommand "ops" "pa$$word") 30000
      consoleBoot.attach).result = .ok reply := by
    simp only [consoleBoot, consoleExec, eq]
    exact ⟨_, rfl⟩
  obtain ⟨-, -, -, plain⟩ := (consoleProvision_held_iff newGuest [] ⟨"ops", "pa$$word"⟩ false
    consoleBoot.attach consoleBoot.attach').mp agree replied
  exact absurd plain (by decide)

end Quickchr
