import Quickchr.Console
import Quickchr.Lib.Marker
import Mathlib.Data.Nat.Find

/-!
# Logging in on the serial console

The console is shared, and whoever used it last may still be logged in. A login answers the prompts it knows, each
once, whatever else the console shows and however the text of it arrives.
-/
namespace Quickchr.ConsoleLogin

def LOGIN_PATTERN : List Char := "Login:".toList

def PASSWORD_PATTERN : List Char := "Password:".toList

def LICENSE_PATTERN : List Char := "[Y/n]:".toList

def NEW_PASSWORD_PATTERN : List Char := "new password>".toList

def POKE_INTERVAL_MS : ℕ := 2000

/-- `buffer.indexOf(pattern, start)`. -/
def find (pattern buffer : List Char) (start : ℕ) : Option ℕ :=
  (Text.indexOf pattern (buffer.drop start)).map (start + ·)

/-- The user that the prompt after this text names. -/
def currentUser (beforePrompt : List Char) : Option (List Char) :=
  match Text.lastIndexOf ['['] beforePrompt with
  | none => none
  | some bracketIdx =>
      match find ['@'] beforePrompt bracketIdx with
      | none => none
      | some atIdx => some ((beforePrompt.take atIdx).drop (bracketIdx + 1))

/-- What the session saw at a place of the buffer, and so wrote. -/
inductive Act
  | poke
  /-- The prompt of another user, who is logged out once. -/
  | quit (at_ : ℕ)
  | foreign (at_ : ℕ)
  | name (at_ : ℕ)
  | password (at_ : ℕ)
  | license (at_ : ℕ)
  | skip (at_ : ℕ)
  /-- The prompt that a command can be written at. -/
  | arrived (at_ : ℕ)
  deriving DecidableEq

def Act.found : Act → Option (List Char × ℕ)
  | poke => none
  | quit i => some (PROMPT_PATTERN, i)
  | foreign i => some (PROMPT_PATTERN, i)
  | name i => some (LOGIN_PATTERN, i)
  | password i => some (PASSWORD_PATTERN, i)
  | license i => some (LICENSE_PATTERN, i)
  | skip i => some (NEW_PASSWORD_PATTERN, i)
  | arrived i => some (PROMPT_PATTERN, i)

def Act.written (user password : String) : Act → Option String
  | poke => some "\r"
  | quit _ => some "/quit\r"
  | foreign _ => none
  | name _ => some (user ++ "\r")
  | Act.password _ => some (password ++ "\r")
  | license _ => some "n\r"
  | skip _ => some "\x03"
  | arrived _ => none

/-- Where the functions stand: `ensureLoggedIn`, its wait for `Password:`, `handlePostLogin`, and its return. -/
inductive Phase
  | soliciting (hasQuit : Bool) (lastPokeAt : ℕ)
  | waiting (deadline : ℕ)
  | postLogin
  | ended (reached : Bool)
  deriving DecidableEq

structure Session where
  phase : Phase
  matchOffset : ℕ
  acts : List Act

/-- The console as the session sees it, look by look. -/
structure Terminal where
  buffer : ℕ → List Char
  streamDone : ℕ → Bool
  now : ℕ → ℕ
  grows : ∀ i, buffer i <+: buffer (i + 1)
  passes : ∀ i, now i ≤ now (i + 1)
  unbounded : ∀ t, ∃ i, t ≤ now i

section Look

variable (user : String) (deadline now : ℕ) (buffer : List Char) (streamDone : Bool)

def Session.answer (s : Session) (pattern : List Char) (at_ : ℕ) (act : Act) (phase : Phase) : Session where
  phase := phase
  matchOffset := at_ + pattern.length
  acts := s.acts ++ [act]

def Session.ends (s : Session) (reached : Bool) : Session := { s with phase := .ended reached }

/-- One round of the loop of `ensureLoggedIn`. -/
def Session.solicit (s : Session) (hasQuit : Bool) (lastPokeAt : ℕ) : Session :=
  if deadline ≤ now then s.ends false
  else
    match find PROMPT_PATTERN buffer s.matchOffset with
    | some promptIdx =>
        if currentUser (buffer.take promptIdx) = some user.toList then
          s.answer PROMPT_PATTERN promptIdx (.arrived promptIdx) (.ended true)
        else if hasQuit then
          s.answer PROMPT_PATTERN promptIdx (.foreign promptIdx) (.soliciting true lastPokeAt)
        else s.answer PROMPT_PATTERN promptIdx (.quit promptIdx) (.soliciting true lastPokeAt)
    | none =>
        match find LOGIN_PATTERN buffer s.matchOffset with
        | some loginIdx =>
            s.answer LOGIN_PATTERN loginIdx (.name loginIdx) (.waiting (now + min (deadline - now) 10000))
        | none =>
            if POKE_INTERVAL_MS ≤ now - lastPokeAt then
              { s with phase := .soliciting hasQuit now, acts := s.acts ++ [.poke] }
            else s

/-- One round of `waitFor(session, "Password:", …)`. -/
def Session.await (s : Session) (waitDeadline : ℕ) : Session :=
  if waitDeadline ≤ now then s.ends false
  else
    match find PASSWORD_PATTERN buffer s.matchOffset with
    | some idx => s.answer PASSWORD_PATTERN idx (.password idx) .postLogin
    | none => if streamDone then s.ends false else s

/-- One round of the loop of `handlePostLogin`. -/
def Session.postLogin (s : Session) : Session :=
  if deadline ≤ now then s.ends false
  else
    match find PROMPT_PATTERN buffer s.matchOffset with
    | some promptIdx => s.answer PROMPT_PATTERN promptIdx (.arrived promptIdx) (.ended true)
    | none =>
        match find LICENSE_PATTERN buffer s.matchOffset with
        | some licenseIdx => s.answer LICENSE_PATTERN licenseIdx (.license licenseIdx) .postLogin
        | none =>
            match find NEW_PASSWORD_PATTERN buffer s.matchOffset with
            | some pwIdx => s.answer NEW_PASSWORD_PATTERN pwIdx (.skip pwIdx) .postLogin
            | none => if streamDone then s.ends false else s

def Session.look (s : Session) : Session :=
  match s.phase with
  | .soliciting hasQuit lastPokeAt => s.solicit user deadline now buffer hasQuit lastPokeAt
  | .waiting waitDeadline => s.await now buffer streamDone waitDeadline
  | .postLogin => s.postLogin deadline now buffer streamDone
  | .ended _ => s

end Look

variable (t : Terminal) (user : String) (timeoutMs : ℕ)

def Terminal.deadline : ℕ := t.now 0 + timeoutMs

/-- The session before look `i`. -/
def session : ℕ → Session
  | 0 => { phase := .soliciting false (t.now 0), matchOffset := 0, acts := [.poke] }
  | i + 1 => (session i).look user (t.deadline timeoutMs) (t.now i) (t.buffer i) (t.streamDone i)

theorem find_eq_some {pattern buffer : List Char} {start i : ℕ} (h : find pattern buffer start = some i) :
    start ≤ i ∧ pattern <+: buffer.drop i := by
  obtain ⟨j, found, rfl⟩ := Option.map_eq_some_iff.mp h
  refine ⟨Nat.le_add_right _ _, ?_⟩
  rw [← List.drop_drop]
  exact Marker.prefix_of_indexOf found

/-- What the text before a prompt, or the phase before it, lets a session answer. -/
inductive Turn (user : String) (deadline : ℕ) (buffer : List Char) : Phase → Act → Phase → Prop
  | own {hasQuit : Bool} {lastPokeAt i : ℕ} : currentUser (buffer.take i) = some user.toList →
      Turn user deadline buffer (.soliciting hasQuit lastPokeAt) (.arrived i) (.ended true)
  | quit {lastPokeAt i : ℕ} :
      Turn user deadline buffer (.soliciting false lastPokeAt) (.quit i) (.soliciting true lastPokeAt)
  | foreign {lastPokeAt i : ℕ} :
      Turn user deadline buffer (.soliciting true lastPokeAt) (.foreign i) (.soliciting true lastPokeAt)
  | name {hasQuit : Bool} {lastPokeAt i waitDeadline : ℕ} : waitDeadline ≤ deadline →
      Turn user deadline buffer (.soliciting hasQuit lastPokeAt) (.name i) (.waiting waitDeadline)
  | password {waitDeadline i : ℕ} : Turn user deadline buffer (.waiting waitDeadline) (.password i) .postLogin
  | license {i : ℕ} : Turn user deadline buffer .postLogin (.license i) .postLogin
  | skip {i : ℕ} : Turn user deadline buffer .postLogin (.skip i) .postLogin
  | arrived {i : ℕ} : Turn user deadline buffer .postLogin (.arrived i) (.ended true)

inductive Looked (user : String) (deadline : ℕ) (buffer : List Char) (s : Session) : Session → Prop
  | same : Looked user deadline buffer s s
  | fails : (∀ reached, s.phase ≠ .ended reached) → Looked user deadline buffer s (s.ends false)
  | pokes {hasQuit : Bool} {lastPokeAt now : ℕ} : s.phase = .soliciting hasQuit lastPokeAt →
      Looked user deadline buffer s { s with phase := .soliciting hasQuit now, acts := s.acts ++ [.poke] }
  | answers {pattern : List Char} {i : ℕ} {act : Act} {phase : Phase} : act.found = some (pattern, i) →
      s.matchOffset ≤ i → pattern <+: buffer.drop i → Turn user deadline buffer s.phase act phase →
      Looked user deadline buffer s (s.answer pattern i act phase)

theorem looked (s : Session) (user : String) (deadline now : ℕ) (buffer : List Char) (streamDone : Bool) :
    Looked user deadline buffer s (s.look user deadline now buffer streamDone) := by
  have at_ {pattern : List Char} {i : ℕ} {act : Act} {phase : Phase} (is : act.found = some (pattern, i))
      (found : find pattern buffer s.matchOffset = some i) (turn : Turn user deadline buffer s.phase act phase) :
      Looked user deadline buffer s (s.answer pattern i act phase) :=
    .answers is (find_eq_some found).1 (find_eq_some found).2 turn
  unfold Session.look
  split
  · rename_i hasQuit lastPokeAt is
    unfold Session.solicit
    split
    · exact .fails (by simp [is])
    rename_i early
    split
    · rename_i i found
      split
      · rename_i own
        exact at_ rfl found (is ▸ .own own)
      · split
        · rename_i quit
          exact at_ rfl found (by rw [is, quit]; exact .foreign)
        · rename_i quit
          rw [Bool.not_eq_true] at quit
          exact at_ rfl found (by rw [is, quit]; exact .quit)
    · split
      · rename_i i found
        exact at_ rfl found (is ▸ .name (by omega))
      · split
        · exact .pokes is
        · exact .same
  · rename_i waitDeadline is
    unfold Session.await
    split
    · exact .fails (by simp [is])
    split
    · rename_i i found
      exact at_ rfl found (is ▸ .password)
    · split
      · exact .fails (by simp [is])
      · exact .same
  · rename_i is
    unfold Session.postLogin
    split
    · exact .fails (by simp [is])
    split
    · rename_i i found
      exact at_ rfl found (is ▸ .arrived)
    · split
      · rename_i i found
        exact at_ rfl found (by rw [is]; exact .license)
      · split
        · rename_i i found
          exact at_ rfl found (by rw [is]; exact .skip)
        · split
          · exact .fails (by simp [is])
          · exact .same
  · exact .same

/-- Nothing but what has the console show something, and its user logged out once. -/
structure Solicits (acts : List Act) : Prop where
  only : ∀ act ∈ acts, act = .poke ∨ ∃ i, act = .quit i ∨ act = .foreign i
  once : (acts.countP fun act => act matches .quit _) ≤ 1

/-- The prompts that may come before the first one of a session. -/
def Declines (acts : List Act) : Prop := ∀ act ∈ acts, ∃ i, act = .license i ∨ act = .skip i

/-- What a session that returned, or has not, can have written: the password only to the prompt that followed the
name, and no more than once. -/
inductive Talk (user : String) (buffer : List Char) : Option Bool → List Act → Prop
  | solicits {result : Option Bool} {acts : List Act} : result ≠ some true → Solicits acts →
      Talk user buffer result acts
  | named {result : Option Bool} {front : List Act} {i : ℕ} : result ≠ some true → Solicits front →
      Talk user buffer result (front ++ [.name i])
  | identified {result : Option Bool} {front back : List Act} {i j : ℕ} : result ≠ some true → Solicits front →
      Declines back → Talk user buffer result (front ++ .name i :: .password j :: back)
  | own {front : List Act} {i : ℕ} : Solicits front → currentUser (buffer.take i) = some user.toList →
      Talk user buffer (some true) (front ++ [.arrived i])
  | loggedIn {front back : List Act} {i j k : ℕ} : Solicits front → Declines back →
      Talk user buffer (some true) (front ++ .name i :: .password j :: back ++ [.arrived k])

/-- Every prompt that is answered is there, and comes after the one answered before. -/
structure Spans (buffer : List Char) (acts : List Act) : Prop where
  found : ∀ act ∈ acts, ∀ e, act.found = some e → e.1 <+: buffer.drop e.2
  apart : (acts.filterMap Act.found).Pairwise fun e e' => e.2 + e.1.length ≤ e'.2

def Phase.result : Phase → Option Bool
  | ended reached => some reached
  | _ => none

/-- What the acts of a session have been, by the phase it is in. -/
def Stage (user : String) (buffer : List Char) (acts : List Act) : Phase → Prop
  | .soliciting hasQuit _ => (∀ act ∈ acts, act = .poke ∨ ∃ i, act = .quit i ∨ act = .foreign i) ∧
      (acts.countP fun act => act matches .quit _) = if hasQuit then 1 else 0
  | .waiting _ => ∃ front i, Solicits front ∧ acts = front ++ [.name i]
  | .postLogin => ∃ front back i j, Solicits front ∧ Declines back ∧ acts = front ++ .name i :: .password j :: back
  | .ended reached => Talk user buffer (some reached) acts

structure Inv (user : String) (buffer : List Char) (s : Session) : Prop where
  spans : Spans buffer s.acts
  passed : ∀ e ∈ s.acts.filterMap Act.found, e.2 + e.1.length ≤ s.matchOffset
  stage : Stage user buffer s.acts s.phase

section Steps

variable {user : String} {buffer buffer' : List Char} {s : Session} {acts : List Act}

theorem Spans.grows (h : Spans buffer acts) (more : buffer <+: buffer') : Spans buffer' acts where
  found act member e is := (h.found act member e is).trans (more.drop e.2)
  apart := h.apart

theorem take_of_found {i : ℕ} (found : PROMPT_PATTERN <+: buffer.drop i) (more : buffer <+: buffer') :
    buffer'.take i = buffer.take i := by
  have inside : i ≤ buffer.length := by
    have fits := found.length_le
    rw [List.length_drop] at fits
    have four : PROMPT_PATTERN.length = 4 := rfl
    omega
  obtain ⟨rest, rfl⟩ := more
  exact List.take_append_of_le_length inside

theorem Talk.grows {result : Option Bool} (h : Talk user buffer result acts) (spans : Spans buffer acts)
    (more : buffer <+: buffer') : Talk user buffer' result acts := by
  cases h with
  | solicits unfinished solicits => exact .solicits unfinished solicits
  | named unfinished solicits => exact .named unfinished solicits
  | identified unfinished solicits declines => exact .identified unfinished solicits declines
  | loggedIn solicits declines => exact .loggedIn solicits declines
  | @own front i solicits own =>
      have found := spans.found (.arrived i) (List.mem_append_right _ (List.mem_singleton_self _)) _ rfl
      refine .own solicits ?_
      rwa [take_of_found found more]

theorem Inv.grows (h : Inv user buffer s) (more : buffer <+: buffer') : Inv user buffer' s := by
  refine ⟨h.spans.grows more, h.passed, ?_⟩
  have stage := h.stage
  generalize s.phase = phase at stage
  cases phase with
  | ended reached => exact Talk.grows stage h.spans more
  | _ => exact stage

theorem solicits_of_stage {hasQuit : Bool} {lastPokeAt : ℕ} (h : Stage user buffer acts (.soliciting hasQuit lastPokeAt)) :
    Solicits acts := by
  refine ⟨h.1, h.2.le.trans ?_⟩
  split <;> omega

theorem Stage.talk {phase : Phase} {result : Option Bool} (h : Stage user buffer acts phase)
    (open_ : phase.result = none) (unfinished : result ≠ some true) : Talk user buffer result acts := by
  cases phase with
  | soliciting hasQuit lastPokeAt => exact .solicits unfinished (solicits_of_stage h)
  | waiting waitDeadline =>
      obtain ⟨front, i, solicits, rfl⟩ := h
      exact .named unfinished solicits
  | postLogin =>
      obtain ⟨front, back, i, j, solicits, declines, rfl⟩ := h
      exact .identified unfinished solicits declines
  | ended reached => cases open_

theorem Stage.turn {phase phase' : Phase} {act : Act} {deadline : ℕ} (h : Stage user buffer acts phase)
    (turn : Turn user deadline buffer phase act phase') : Stage user buffer (acts ++ [act]) phase' := by
  cases turn with
  | own own => exact .own (solicits_of_stage h) own
  | quit =>
      obtain ⟨only, none⟩ := h
      refine ⟨fun act member => ?_, ?_⟩
      · obtain before | last := List.mem_append.mp member
        · exact only act before
        · exact .inr ⟨_, .inl (List.mem_singleton.mp last)⟩
      · rw [List.countP_append, none]
        rfl
  | foreign =>
      obtain ⟨only, one⟩ := h
      refine ⟨fun act member => ?_, ?_⟩
      · obtain before | last := List.mem_append.mp member
        · exact only act before
        · exact .inr ⟨_, .inr (List.mem_singleton.mp last)⟩
      · rw [List.countP_append, one]
        rfl
  | name => exact ⟨acts, _, solicits_of_stage h, rfl⟩
  | @password waitDeadline j =>
      obtain ⟨front, i, solicits, rfl⟩ := h
      exact ⟨front, [], i, j, solicits, fun act none => absurd none List.not_mem_nil, by simp⟩
  | @license k =>
      obtain ⟨front, back, i, j, solicits, declines, rfl⟩ := h
      refine ⟨front, back ++ [.license k], i, j, solicits, fun act member => ?_, by simp⟩
      obtain before | last := List.mem_append.mp member
      · exact declines act before
      · exact ⟨_, .inl (List.mem_singleton.mp last)⟩
  | @skip k =>
      obtain ⟨front, back, i, j, solicits, declines, rfl⟩ := h
      refine ⟨front, back ++ [.skip k], i, j, solicits, fun act member => ?_, by simp⟩
      obtain before | last := List.mem_append.mp member
      · exact declines act before
      · exact ⟨_, .inr (List.mem_singleton.mp last)⟩
  | arrived =>
      obtain ⟨front, back, i, j, solicits, declines, rfl⟩ := h
      exact .loggedIn solicits declines

theorem Inv.look (h : Inv user buffer s) {deadline now : ℕ} {streamDone : Bool} :
    Inv user buffer (s.look user deadline now buffer streamDone) := by
  have step := looked s user deadline now buffer streamDone
  generalize s.look user deadline now buffer streamDone = s' at step
  cases step with
  | same => exact h
  | fails running =>
      refine ⟨h.spans, h.passed, ?_⟩
      refine Stage.talk h.stage ?_ (by simp)
      cases is : s.phase with
      | ended reached => exact absurd is (running reached)
      | _ => rfl
  | @pokes hasQuit lastPokeAt now' is =>
      have stage := h.stage
      rw [is] at stage
      have none : (s.acts ++ [Act.poke]).filterMap Act.found = s.acts.filterMap Act.found := by
        rw [List.filterMap_append]
        exact List.append_nil _
      refine ⟨⟨fun act member e is' => ?_, ?_⟩, ?_, ?_, ?_⟩
      · obtain before | last := List.mem_append.mp member
        · exact h.spans.found act before e is'
        · rw [List.mem_singleton.mp last] at is'
          cases is'
      · rw [none]
        exact h.spans.apart
      · dsimp only
        rw [none]
        exact h.passed
      · intro act member
        obtain before | last := List.mem_append.mp member
        · exact stage.1 act before
        · exact .inl (List.mem_singleton.mp last)
      · rw [List.countP_append, stage.2]
        rfl
  | @answers pattern i act phase is from_ found turn =>
      have last : (s.acts ++ [act]).filterMap Act.found = s.acts.filterMap Act.found ++ [(pattern, i)] := by
        rw [List.filterMap_append, List.filterMap_cons, is]
        rfl
      refine ⟨⟨fun act' member e is' => ?_, ?_⟩, ?_, h.stage.turn turn⟩
      · obtain before | this := List.mem_append.mp member
        · exact h.spans.found act' before e is'
        · rw [List.mem_singleton.mp this, is] at is'
          cases is'
          exact found
      · rw [Session.answer, last, List.pairwise_append]
        refine ⟨h.spans.apart, List.pairwise_singleton _ _, fun e member e' member' => ?_⟩
        rw [List.mem_singleton.mp member']
        exact (h.passed e member).trans from_
      · intro e member
        rw [Session.answer, last] at member
        obtain before | this := List.mem_append.mp member
        · exact ((h.passed e before).trans from_).trans (Nat.le_add_right _ _)
        · rw [List.mem_singleton.mp this]
          exact Nat.le_refl _

end Steps

section Runs

variable (t : Terminal) (user : String) (timeoutMs : ℕ)

theorem inv_session (i : ℕ) : Inv user (t.buffer i) (session t user timeoutMs i) := by
  induction i with
  | zero =>
      refine ⟨⟨fun act member e is => ?_, List.Pairwise.nil⟩, by simp [session, Act.found], ?_⟩
      · rw [session, List.mem_singleton] at member
        rw [member] at is
        cases is
      · exact ⟨fun act member => .inl (List.mem_singleton.mp member), rfl⟩
  | succ i ih => exact ih.look.grows (t.grows i)

theorem Terminal.now_mono {i j : ℕ} (le : i ≤ j) : t.now i ≤ t.now j := monotone_nat_of_le_succ t.passes le

theorem wait_le_deadline (i : ℕ) :
    ∀ d, (session t user timeoutMs i).phase = .waiting d → d ≤ t.deadline timeoutMs := by
  induction i with
  | zero => exact fun d is => nomatch is
  | succ i ih =>
      intro d is
      rw [session] at is
      generalize session t user timeoutMs i = s at ih is
      have step := looked s user (t.deadline timeoutMs) (t.now i) (t.buffer i) (t.streamDone i)
      generalize s.look user (t.deadline timeoutMs) (t.now i) (t.buffer i) (t.streamDone i) = s' at step is
      cases step with
      | same => exact ih d is
      | fails running => cases is
      | pokes was => cases is
      | answers act from_ found turn =>
          rw [Session.answer] at is
          subst is
          generalize s.phase = phase at turn
          cases turn with
          | name short => exact short

theorem ended_of_late {i : ℕ} (late : t.deadline timeoutMs ≤ t.now i) :
    ∃ reached, (session t user timeoutMs (i + 1)).phase = .ended reached := by
  have short := wait_le_deadline t user timeoutMs i
  rw [session]
  generalize session t user timeoutMs i = s at short
  unfold Session.look
  split
  · exact ⟨false, by rw [Session.solicit, if_pos late]; rfl⟩
  · rename_i d is
    exact ⟨false, by rw [Session.await, if_pos ((short d is).trans late)]; rfl⟩
  · exact ⟨false, by rw [Session.postLogin, if_pos late]; rfl⟩
  · exact ⟨_, ‹_›⟩

theorem ends : ∃ i, ((session t user timeoutMs i).phase.result).isSome = true := by
  obtain ⟨i, late⟩ := t.unbounded (t.deadline timeoutMs)
  obtain ⟨reached, is⟩ := ended_of_late t user timeoutMs late
  exact ⟨i + 1, by rw [is]; rfl⟩

/-- Whether a prompt was reached, and what was done for it. -/
def ensureLoggedIn : Bool × List Act :=
  let last := session t user timeoutMs (Nat.find (ends t user timeoutMs))
  (decide (last.phase.result = some true), last.acts)

end Runs

/-- Whatever the console shows, and whenever: a login answers prompts that are there, each once and in their order,
and is over by the first look after its time. The password is written only to the prompt that follows the name, and a
login without it is one at the user's own prompt. -/
theorem talks (t : Terminal) (user : String) (timeoutMs : ℕ) :
    let (reached, acts) := ensureLoggedIn t user timeoutMs
    ∃ n, (session t user timeoutMs n).phase = .ended reached ∧ (session t user timeoutMs n).acts = acts ∧
      (∀ i, i + 1 < n → t.now i < t.deadline timeoutMs) ∧ Spans (t.buffer n) acts ∧
      Talk user (t.buffer n) (some reached) acts := by
  obtain ⟨reached, phase⟩ : ∃ reached,
      (session t user timeoutMs (Nat.find (ends t user timeoutMs))).phase = .ended reached := by
    have over_ := Nat.find_spec (ends t user timeoutMs)
    cases phase : (session t user timeoutMs (Nat.find (ends t user timeoutMs))).phase with
    | ended reached => exact ⟨reached, rfl⟩
    | _ =>
        rw [phase] at over_
        cases over_
  have inv := inv_session t user timeoutMs (Nat.find (ends t user timeoutMs))
  have result : ensureLoggedIn t user timeoutMs =
      (reached, (session t user timeoutMs (Nat.find (ends t user timeoutMs))).acts) := by
    rw [ensureLoggedIn, phase]
    cases reached <;> rfl
  rw [result]
  refine ⟨Nat.find (ends t user timeoutMs), phase, rfl, fun i before => ?_, inv.spans, ?_⟩
  · by_contra late
    obtain ⟨reached, is⟩ := ended_of_late t user timeoutMs (Nat.le_of_not_lt late)
    exact Nat.find_min (ends t user timeoutMs) before (by rw [is]; rfl)
  · have stage := inv.stage
    rw [phase] at stage
    exact stage

section Find

variable {pattern buffer buffer' : List Char} {o : ℕ}

theorem find_eq_none : find pattern buffer o = none ↔ ∀ i, o ≤ i → ¬ pattern <+: buffer.drop i := by
  rw [find, Option.map_eq_none_iff, Text.indexOf_eq_none]
  constructor
  · intro none i from_ here
    refine none (here.isInfix.trans ?_)
    obtain ⟨d, rfl⟩ := Nat.exists_eq_add_of_le from_
    rw [← List.drop_drop]
    exact (List.drop_suffix d _).isInfix
  · rintro none ⟨front, back, whole⟩
    refine none (o + front.length) (Nat.le_add_right _ _) ⟨back, ?_⟩
    rw [← List.drop_drop, ← whole, List.append_assoc, List.drop_left]

theorem find_succ (other : ¬ pattern <+: buffer.drop o) : find pattern buffer (o + 1) = find pattern buffer o := by
  rw [find, find, ← List.drop_drop]
  cases rest : buffer.drop o with
  | nil =>
      rw [rest] at other
      have filled : pattern.isEmpty = false := by
        rw [Bool.eq_false_iff]
        intro empty
        rw [List.isEmpty_iff.mp empty] at other
        exact other List.nil_prefix
      simp [Text.indexOf, filled]
  | cons c rest =>
      rw [rest] at other
      rw [Text.indexOf, if_neg fun starts => other (List.isPrefixOf_iff_prefix.mp starts), List.drop_one, List.tail_cons,
        Option.map_map]
      congr 1
      funext i
      simp only [Function.comp]
      omega

theorem find_skip {o' : ℕ} (le : o ≤ o') (others : ∀ i, o ≤ i → i < o' → ¬ pattern <+: buffer.drop i) :
    find pattern buffer o' = find pattern buffer o := by
  induction o', le using Nat.le_induction with
  | base => rfl
  | succ o' le ih =>
      rw [find_succ (others o' le (Nat.lt_succ_self _))]
      exact ih fun i from_ before => others i from_ (before.trans (Nat.lt_succ_self _))

def Apart (pattern : List Char) : Prop :=
  PROMPT_PATTERN.length ≤ pattern.length ∧
    ∀ d < pattern.length, pattern.length < d + PROMPT_PATTERN.length → ¬ pattern.drop d <+: PROMPT_PATTERN

theorem apart_license : Apart LICENSE_PATTERN := by unfold Apart; decide

theorem apart_newPassword : Apart NEW_PASSWORD_PATTERN := by unfold Apart; decide

/-- To answer a prompt that declines something skips no prompt of the command line, whatever comes later. -/
theorem find_answered (apart : Apart pattern) {i : ℕ} (from_ : o ≤ i) (found : pattern <+: buffer.drop i)
    (more : buffer <+: buffer') (none : find PROMPT_PATTERN buffer o = none) :
    find PROMPT_PATTERN buffer' (i + pattern.length) = find PROMPT_PATTERN buffer' o := by
  refine find_skip (by omega) fun j after before prompt => ?_
  have fits := found.length_le
  rw [List.length_drop] at fits
  have long := apart.1
  have four : PROMPT_PATTERN.length = 4 := rfl
  by_cases inside : j + PROMPT_PATTERN.length ≤ buffer.length
  · -- it was there before
    refine find_eq_none.mp none j after ?_
    refine List.prefix_of_prefix_length_le prompt (more.drop j) ?_
    rw [List.length_drop]
    omega
  · -- it begins within the pattern
    obtain ⟨d, rfl⟩ := Nat.exists_eq_add_of_le (show i ≤ j by omega)
    refine apart.2 d (by omega) (by omega) ?_
    have tail : pattern.drop d <+: buffer'.drop (i + d) := by
      rw [← List.drop_drop]
      exact (found.trans (more.drop i)).drop d
    refine List.prefix_of_prefix_length_le tail prompt ?_
    rw [List.length_drop]
    omega

end Find

/-- The pattern shows at look `i` for the first time from look `start` on, beyond this place of the buffer. -/
structure Shows (t : Terminal) (pattern : List Char) (offset start i at_ : ℕ) : Prop where
  from_ : start ≤ i
  found : find pattern (t.buffer i) offset = some at_
  first : ∀ m, start ≤ m → m < i → find pattern (t.buffer m) offset = none

/-- A console that stays connected, and shows no prompt before a name was given. -/
structure LoggedOut (user : String) (timeoutMs : ℕ) extends Terminal where
  connected : ∀ i, streamDone i = false
  silent : ∀ i hasQuit lastPokeAt, (session toTerminal user timeoutMs i).phase = .soliciting hasQuit lastPokeAt →
    find PROMPT_PATTERN (buffer i) 0 = none

section LoggedOut

variable {user : String} {timeoutMs : ℕ} (t : LoggedOut user timeoutMs)

theorem result_of_ended (t : Terminal) {i : ℕ} {reached : Bool}
    (is : (session t user timeoutMs i).phase = .ended reached) :
    ensureLoggedIn t user timeoutMs = (reached, (session t user timeoutMs i).acts) := by
  have stays (n m : ℕ) (le : n ≤ m) (over_ : (session t user timeoutMs n).phase.result.isSome = true) :
      session t user timeoutMs m = session t user timeoutMs n := by
    induction m, le using Nat.le_induction with
    | base => rfl
    | succ m le ih =>
        rw [session, ih]
        generalize session t user timeoutMs n = s at over_
        unfold Session.look
        cases phase : s.phase with
        | ended reached => rfl
        | _ => simp [phase, Phase.result] at over_
  have least := Nat.find_spec (ends t user timeoutMs)
  have before : Nat.find (ends t user timeoutMs) ≤ i := Nat.find_min' _ (by rw [is]; rfl)
  have same := stays _ i before least
  rw [ensureLoggedIn, ← same, is]
  cases reached <;> rfl

/-- Before a name is asked for, the session does nothing but poke. -/
theorem solicits_until {i : ℕ} (early : ∀ m < i, t.now m < t.deadline timeoutMs)
    (none : ∀ m < i, find LOGIN_PATTERN (t.buffer m) 0 = none) :
    (∃ lastPokeAt, (session t.toTerminal user timeoutMs i).phase = .soliciting false lastPokeAt) ∧
      (session t.toTerminal user timeoutMs i).matchOffset = 0 ∧
      ∀ act ∈ (session t.toTerminal user timeoutMs i).acts, act = .poke := by
  induction i with
  | zero => exact ⟨⟨_, rfl⟩, rfl, fun act member => List.mem_singleton.mp member⟩
  | succ i ih =>
      obtain ⟨⟨lastPokeAt, is⟩, offset, pokes⟩ := ih (fun m before => early m (by omega)) fun m before => none m (by omega)
      have quiet := t.silent i _ _ is
      rw [session]
      generalize session t.toTerminal user timeoutMs i = s at is offset pokes
      rw [Session.look, is]
      dsimp only
      rw [Session.solicit, if_neg (Nat.not_le.mpr (early i (by omega))), offset, quiet, none i (by omega)]
      dsimp only
      split
      · refine ⟨⟨_, rfl⟩, rfl, fun act member => ?_⟩
        obtain before | last := List.mem_append.mp member
        · exact pokes act before
        · exact List.mem_singleton.mp last
      · exact ⟨⟨_, is⟩, offset, pokes⟩

/-- The acts of a session that has seen the prompts for a name and a password. -/
structure Named (acts : List Act) (i : ℕ) (front : List Act) : Prop where
  pokes : ∀ act ∈ front, act = .poke
  acts : acts = front ++ [.name i]

theorem waits_until {i a j : ℕ} (login : Shows t.toTerminal LOGIN_PATTERN 0 0 i a)
    (early : t.now i < t.deadline timeoutMs) (from_ : i + 1 ≤ j)
    (soon : ∀ m, i < m → m < j → t.now m < t.now i + min (t.deadline timeoutMs - t.now i) 10000)
    (none : ∀ m, i < m → m < j → find PASSWORD_PATTERN (t.buffer m) (a + LOGIN_PATTERN.length) = none) :
    (session t.toTerminal user timeoutMs j).phase =
        .waiting (t.now i + min (t.deadline timeoutMs - t.now i) 10000) ∧
      (session t.toTerminal user timeoutMs j).matchOffset = a + LOGIN_PATTERN.length ∧
      ∃ front, Named (session t.toTerminal user timeoutMs j).acts a front := by
  induction j, from_ using Nat.le_induction with
  | base =>
      have before := fun m (lt : m < i) => (t.toTerminal.now_mono lt.le).trans_lt early
      obtain ⟨⟨lastPokeAt, is⟩, offset, pokes⟩ := solicits_until t before fun m lt => login.first m (Nat.zero_le m) lt
      have quiet := t.silent i _ _ is
      rw [session]
      generalize session t.toTerminal user timeoutMs i = s at is offset pokes
      rw [Session.look, is]
      dsimp only
      rw [Session.solicit, if_neg (Nat.not_le.mpr early), offset, quiet, login.found]
      exact ⟨rfl, rfl, s.acts, pokes, rfl⟩
  | succ j from_ ih =>
      obtain ⟨is, offset, named⟩ := ih (fun m after lt => soon m after (by omega)) fun m after lt => none m after (by omega)
      have same : session t.toTerminal user timeoutMs (j + 1) = session t.toTerminal user timeoutMs j := by
        rw [session]
        generalize session t.toTerminal user timeoutMs j = s at is offset
        rw [Session.look, is]
        dsimp only
        rw [Session.await, if_neg (Nat.not_le.mpr (soon j from_ (Nat.lt_succ_self j))), offset,
          none j from_ (Nat.lt_succ_self j), t.connected j]
        rfl
      rw [same]
      exact ⟨is, offset, named⟩

/-- The login after its password, with the next prompt still to be found where it was to be found then. -/
structure Identified (t : Terminal) (s : Session) (k a b : ℕ) : Prop where
  phase : s.phase = .postLogin
  next : ∀ m, k ≤ m → find PROMPT_PATTERN (t.buffer m) s.matchOffset =
    find PROMPT_PATTERN (t.buffer m) (b + PASSWORD_PATTERN.length)
  acts : ∃ front back, (∀ act ∈ front, act = .poke) ∧ Declines back ∧
    s.acts = front ++ .name a :: .password b :: back

theorem Terminal.grows_to (t : Terminal) {i j : ℕ} (le : i ≤ j) : t.buffer i <+: t.buffer j := by
  induction j, le using Nat.le_induction with
  | base => exact List.prefix_rfl
  | succ j _ ih => exact ih.trans (t.grows j)

theorem Identified.declines {t : Terminal} {s : Session} {k a b : ℕ} (h : Identified t s k a b) {pattern : List Char}
    (apart : Apart pattern) {i : ℕ} {act : Act} (is : act = .license i ∨ act = .skip i)
    (found : find pattern (t.buffer k) s.matchOffset = some i)
    (none : find PROMPT_PATTERN (t.buffer k) s.matchOffset = none) :
    Identified t (s.answer pattern i act .postLogin) (k + 1) a b := by
  obtain ⟨from_, here⟩ := find_eq_some found
  refine ⟨rfl, fun m later => ?_, ?_⟩
  · rw [← h.next m (by omega)]
    exact find_answered apart from_ here (t.grows_to (show k ≤ m by omega)) none
  · obtain ⟨front, back, pokes, declines, acts⟩ := h.acts
    refine ⟨front, back ++ [act], pokes, fun act' member => ?_, ?_⟩
    · obtain before | last := List.mem_append.mp member
      · exact declines act' before
      · rw [List.mem_singleton.mp last]
        exact ⟨i, is⟩
    · rw [Session.answer, acts, List.append_assoc, List.cons_append, List.cons_append]

theorem identified_until {i a j b k : ℕ} (login : Shows t.toTerminal LOGIN_PATTERN 0 0 i a)
    (early : t.now i < t.deadline timeoutMs)
    (asked : Shows t.toTerminal PASSWORD_PATTERN (a + LOGIN_PATTERN.length) (i + 1) j b)
    (soon : t.now j < t.now i + min (t.deadline timeoutMs - t.now i) 10000) (from_ : j + 1 ≤ k)
    (intime : ∀ m, j < m → m < k → t.now m < t.deadline timeoutMs)
    (none : ∀ m, j < m → m < k → find PROMPT_PATTERN (t.buffer m) (b + PASSWORD_PATTERN.length) = none) :
    Identified t.toTerminal (session t.toTerminal user timeoutMs k) k a b := by
  induction k, from_ using Nat.le_induction with
  | base =>
      obtain ⟨is, offset, front, named⟩ := waits_until t login early asked.from_
        (fun m _ lt => (t.toTerminal.now_mono lt.le).trans_lt soon) fun m after lt => asked.first m after lt
      rw [session]
      generalize session t.toTerminal user timeoutMs j = s at is offset named
      rw [Session.look, is]
      dsimp only
      rw [Session.await, if_neg (Nat.not_le.mpr soon), offset, asked.found]
      refine ⟨rfl, fun _ _ => rfl, front, [], named.pokes, fun act none => absurd none List.not_mem_nil, ?_⟩
      change s.acts ++ [.password b] = _
      rw [named.acts, List.append_assoc]
      rfl
  | succ k from_ ih =>
      have h := ih (fun m after lt => intime m after (by omega)) fun m after lt => none m after (by omega)
      have quiet := none k from_ (Nat.lt_succ_self k)
      rw [← h.next k (Nat.le_refl k)] at quiet
      rw [session]
      generalize session t.toTerminal user timeoutMs k = s at h quiet
      rw [Session.look, h.phase]
      dsimp only
      rw [Session.postLogin, if_neg (Nat.not_le.mpr (intime k from_ (Nat.lt_succ_self k))), quiet]
      dsimp only
      split
      · rename_i l found
        exact h.declines apart_license (.inl rfl) found quiet
      · split
        · rename_i l found
          exact h.declines apart_newPassword (.inr rfl) found quiet
        · rw [t.connected k]
          exact ⟨h.phase, fun m later => h.next m (by omega), h.acts⟩

/-- Either the pattern shows in time, or the time is over before it does. -/
theorem shows_or_late (t : Terminal) (pattern : List Char) (offset start limit : ℕ) :
    (∃ i at_, Shows t pattern offset start i at_ ∧ t.now i < limit) ∨
      ∃ i, start ≤ i ∧ limit ≤ t.now i ∧ (∀ m, start ≤ m → m < i → t.now m < limit) ∧
        ∀ m, start ≤ m → m < i → find pattern (t.buffer m) offset = none := by
  have stops : ∃ i, start ≤ i ∧ (limit ≤ t.now i ∨ find pattern (t.buffer i) offset ≠ none) := by
    obtain ⟨i, late⟩ := t.unbounded limit
    exact ⟨max start i, Nat.le_max_left _ _, .inl (late.trans (t.now_mono (Nat.le_max_right _ _)))⟩
  classical
  obtain ⟨from_, what⟩ := Nat.find_spec stops
  have before (m : ℕ) (le : start ≤ m) (lt : m < Nat.find stops) :
      t.now m < limit ∧ find pattern (t.buffer m) offset = none := by
    have not := Nat.find_min stops lt
    simpa [le, not_or] using not
  by_cases late : limit ≤ t.now (Nat.find stops)
  · exact .inr ⟨_, from_, late, fun m le lt => (before m le lt).1, fun m le lt => (before m le lt).2⟩
  · obtain ⟨at_, found⟩ := Option.ne_none_iff_exists'.mp (what.resolve_left late)
    exact .inl ⟨_, at_, ⟨from_, found, fun m le lt => (before m le lt).2⟩, Nat.not_le.mp late⟩

/-- What the session does once the three prompts have shown in time. -/
theorem arrives {i a j b k c : ℕ} (login : Shows t.toTerminal LOGIN_PATTERN 0 0 i a)
    (early : t.now i < t.deadline timeoutMs)
    (asked : Shows t.toTerminal PASSWORD_PATTERN (a + LOGIN_PATTERN.length) (i + 1) j b)
    (soon : t.now j < t.now i + min (t.deadline timeoutMs - t.now i) 10000)
    (prompts : Shows t.toTerminal PROMPT_PATTERN (b + PASSWORD_PATTERN.length) (j + 1) k c)
    (intime : t.now k < t.deadline timeoutMs) :
    ∃ front back, (∀ act ∈ front, act = .poke) ∧ Declines back ∧
      ensureLoggedIn t.toTerminal user timeoutMs =
        (true, front ++ .name a :: .password b :: back ++ [.arrived c]) := by
  have h := identified_until t login early asked soon prompts.from_
    (fun m _ lt => (t.toTerminal.now_mono lt.le).trans_lt intime) fun m after lt => prompts.first m after lt
  have found := h.next k (Nat.le_refl k)
  rw [prompts.found] at found
  obtain ⟨front, back, pokes, declines, acts⟩ := h.acts
  have last : session t.toTerminal user timeoutMs (k + 1) =
      (session t.toTerminal user timeoutMs k).answer PROMPT_PATTERN c (.arrived c) (.ended true) := by
    rw [session, Session.look, h.phase]
    dsimp only
    rw [Session.postLogin, if_neg (Nat.not_le.mpr intime), found]
  refine ⟨front, back, pokes, declines, ?_⟩
  rw [@result_of_ended user timeoutMs t.toTerminal (k + 1) true (by rw [last]; rfl), last, Session.answer, acts]

end LoggedOut

/-- A guest that nobody is logged in to is logged in to just when it asks for the name in time, for the password
within ten seconds of it, and then prompts in time: however its text is cut, and whatever it wants declined before. -/
theorem logsIn {user : String} {timeoutMs : ℕ} (t : LoggedOut user timeoutMs) :
    (ensureLoggedIn t.toTerminal user timeoutMs).1 = true ↔
      ∃ i a j b k c, Shows t.toTerminal LOGIN_PATTERN 0 0 i a ∧ t.now i < t.deadline timeoutMs ∧
        Shows t.toTerminal PASSWORD_PATTERN (a + LOGIN_PATTERN.length) (i + 1) j b ∧
        t.now j < t.now i + min (t.deadline timeoutMs - t.now i) 10000 ∧
        Shows t.toTerminal PROMPT_PATTERN (b + PASSWORD_PATTERN.length) (j + 1) k c ∧ t.now k < t.deadline timeoutMs ∧
        ∃ front back, (∀ act ∈ front, act = .poke) ∧ Declines back ∧
          (ensureLoggedIn t.toTerminal user timeoutMs).2 = front ++ .name a :: .password b :: back ++ [.arrived c] := by
  have fails {n : ℕ} (next : (session t.toTerminal user timeoutMs (n + 1)).phase = .ended false) :
      (ensureLoggedIn t.toTerminal user timeoutMs).1 ≠ true := by
    rw [result_of_ended t.toTerminal next]
    exact Bool.false_ne_true
  constructor
  · intro reached
    obtain ⟨i, a, login, early⟩ | ⟨i, -, late, before, none⟩ :=
      shows_or_late t.toTerminal LOGIN_PATTERN 0 0 (t.deadline timeoutMs)
    · obtain ⟨j, b, asked, soon⟩ | ⟨j, from_, late, before, none⟩ :=
        shows_or_late t.toTerminal PASSWORD_PATTERN (a + LOGIN_PATTERN.length) (i + 1)
          (t.now i + min (t.deadline timeoutMs - t.now i) 10000)
      · obtain ⟨k, c, prompts, intime⟩ | ⟨k, from_, late, before, none⟩ :=
          shows_or_late t.toTerminal PROMPT_PATTERN (b + PASSWORD_PATTERN.length) (j + 1) (t.deadline timeoutMs)
        · obtain ⟨front, back, pokes, declines, is⟩ := arrives t login early asked soon prompts intime
          exact ⟨i, a, j, b, k, c, login, early, asked, soon, prompts, intime, front, back, pokes, declines,
            congrArg Prod.snd is⟩
        · have is := (identified_until t login early asked soon from_ before none).phase
          refine absurd reached (@fails k ?_)
          rw [session, Session.look, is]
          dsimp only
          rw [Session.postLogin, if_pos late]
          rfl
      · have is := (waits_until t login early from_ before none).1
        refine absurd reached (@fails j ?_)
        rw [session, Session.look, is]
        dsimp only
        rw [Session.await, if_pos late]
        rfl
    · obtain ⟨⟨lastPokeAt, is⟩, -⟩ := solicits_until t (fun m lt => before m (Nat.zero_le m) lt)
        fun m lt => none m (Nat.zero_le m) lt
      refine absurd reached (@fails i ?_)
      rw [session, Session.look, is]
      dsimp only
      rw [Session.solicit, if_pos late]
      rfl
  · rintro ⟨i, a, j, b, k, c, login, early, asked, soon, prompts, intime, -⟩
    obtain ⟨front, back, -, -, is⟩ := arrives t login early asked soon prompts intime
    rw [is]

/-- What a guest shows after a login prompt, look by look. -/
def adminShows : List String := ["MikroTik Login: ", "admin\r\nPassword: ", "\r\n\r\n[admin@MikroTik] > "]

def adminTerminal : Terminal where
  buffer i := (adminShows.take (i + 1)).flatMap String.toList
  streamDone _ := false
  now i := 100 * i
  grows i := by
    rw [List.take_add_one (i := i + 1), List.flatMap_append]
    exact List.prefix_append _ _
  passes i := by omega
  unbounded t := ⟨t, by omega⟩

theorem adminTerminal_ended : ∀ i, 3 ≤ i → (session adminTerminal "admin" 30000 i).phase = .ended true := by
  refine fun i from_ => Nat.le_induction (by decide +kernel) (fun i _ ended => ?_) i from_
  rw [session, Session.look, ended]
  exact ended

theorem adminTerminal_soliciting {i lastPokeAt : ℕ} {hasQuit : Bool}
    (phase : (session adminTerminal "admin" 30000 i).phase = .soliciting hasQuit lastPokeAt) : i = 0 := by
  have waiting : (session adminTerminal "admin" 30000 1).phase = .waiting 10000 := by decide +kernel
  have postLogin : (session adminTerminal "admin" 30000 2).phase = .postLogin := by decide +kernel
  by_contra later
  obtain rfl | rfl | from_ : i = 1 ∨ i = 2 ∨ 3 ≤ i := by omega
  · cases waiting.symm.trans phase
  · cases postLogin.symm.trans phase
  · cases (adminTerminal_ended i from_).symm.trans phase

def adminLogin : LoggedOut "admin" 30000 where
  toTerminal := adminTerminal
  connected _ := rfl
  silent i hasQuit lastPokeAt phase := by
    rw [adminTerminal_soliciting phase]
    decide +kernel

theorem logsIn_admin : (ensureLoggedIn adminTerminal "admin" 30000).1 = true := by
  have shows {pattern : List Char} {offset i at_ : ℕ} (from_ : find pattern (adminTerminal.buffer i) offset = some at_) :
      Shows adminTerminal pattern offset i i at_ :=
    ⟨le_rfl, from_, fun m after before => absurd (after.trans_lt before) (lt_irrefl _)⟩
  have acts := congrArg Prod.snd (result_of_ended adminTerminal (adminTerminal_ended 3 le_rfl))
  exact (logsIn adminLogin).mpr ⟨0, 9, 1, 23, 2, 52, shows (by decide +kernel), by decide, shows (by decide +kernel),
    by decide, shows (by decide +kernel), by decide, [.poke], [], by decide, nofun,
    acts.trans (by decide +kernel)⟩

theorem talks_admin : ∃ n, (session adminTerminal "admin" 30000 n).phase =
    .ended (ensureLoggedIn adminTerminal "admin" 30000).1 ∧ ∀ i, i + 1 < n → 100 * i < 30000 := by
  obtain ⟨n, ended, -, early, -⟩ := talks adminTerminal "admin" 30000
  exact ⟨n, ended, fun i before => by simpa [Terminal.deadline, adminTerminal] using early i before⟩

end Quickchr.ConsoleLogin
