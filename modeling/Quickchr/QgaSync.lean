import Quickchr.Qga
import Quickchr.Lib.Transition

/-!
# The handshake with the guest agent

A connection begins with a synchronizing request, and a second one when the first is answered with
something else. A request reads only while it is open: of a chunk that holds its response, and until
the next request listens, everything else is lost.
-/
namespace Quickchr.QgaSync

open Utf8 Qga

/-- Values that can be compared with a number. -/
structure Numbered extends Values where
  /-- `value === n` -/
  strictEq : Value → ℕ → Bool
  strictEq_unique : ∀ value m n, strictEq value m = true → strictEq value n = true → m = n

def syncId (now : ℕ) : ℕ := now % 1000000000

def retrySyncId (now : ℕ) : ℕ := (syncId now + 1) % 1000000000

/-- One connection: the reply that is still in the channel, and what the agent answers each request. -/
structure Connection (V : Numbered) where
  now : ℕ
  stale : Sent
  first : Sent
  retry : Sent
  command : Sent
  stale_other : ∃ r, answer V.toValues stale.text = some r ∧ ∀ value, r = .result (some value) →
    V.strictEq value (syncId now) = false ∧ V.strictEq value (retrySyncId now) = false
  first_eq : ∃ value, answer V.toValues first.text = some (.result (some value)) ∧
    V.strictEq value (syncId now) = true
  retry_eq : ∃ value, answer V.toValues retry.text = some (.result (some value)) ∧
    V.strictEq value (retrySyncId now) = true
  command_json : (answer V.toValues command.text).isSome = true

inductive Request
  | first | retry | command

inductive Phase (V : Values)
  /-- A request is open, or its response is not looked at yet. -/
  | asked (request : Request)
  | synced (syncId : ℕ)
  | failed (error : QuickCHRError)
  | thrown
  | delivered (response : Response V)

inductive Event
  /-- The next bytes arrive, so many in one chunk. -/
  | arrive (n : ℕ)
  | answer
  /-- The code that awaits the response goes on. -/
  | resume
  /-- The command is sent over the connection. -/
  | send

section

variable {V : Numbered} (c : Connection V)

structure State (V : Values) where
  phase : Phase V
  request : Qga.State V
  /-- The bytes that are on the way. -/
  channel : List UInt8
  /-- What the agent has yet to answer. -/
  pending : List Request

def Connection.reply (request : Request) : List UInt8 :=
  match request with
  | .first => marked [c.first] 0
  | .retry => marked [c.retry] 0
  | .command => marked [c.command] 0

/-- `sendAndReceive` begins: it listens, and its request is written. -/
def State.ask (s : State V.toValues) (request : Request) : State V.toValues :=
  { s with phase := .asked request, request := {}, pending := s.pending ++ [request] }

/-- What `qgaSync`, and after it the caller, do with a response. -/
def respondTo (s : State V.toValues) (request : Request) (response : Response V.toValues) : State V.toValues :=
  match request, response with
  | .command, response => { s with phase := .delivered response }
  | _, .failed error => { s with phase := .failed error }
  | _, .thrown => { s with phase := .thrown }
  | .first, .result result =>
      if result.any (V.strictEq · (syncId c.now)) then { s with phase := .synced (syncId c.now) }
      -- stale data, retry once
      else s.ask .retry
  | .retry, .result result =>
      if result.any (V.strictEq · (retrySyncId c.now)) then { s with phase := .synced (retrySyncId c.now) }
      else
        { s with
          phase := .failed
            { code := .PROCESS_FAILED, message := "QGA sync failed after retry — unexpected sync ID" } }

def next (s : State V.toValues) : Event → Option (State V.toValues)
  | .arrive n =>
      if 0 < n ∧ n ≤ s.channel.length then
        some
          { s with
            request := Qga.next s.request (.data (s.channel.take n))
            channel := s.channel.drop n }
      else none
  | .answer =>
      match s.pending with
      | [] => none
      | request :: pending => some { s with channel := s.channel ++ c.reply request, pending }
  | .resume =>
      match s.phase, s.request.settled with
      | .asked request, some response => some (respondTo c s request response)
      | _, _ => none
  | .send =>
      match s.phase with
      | .synced _ => some (s.ask .command)
      | _ => none

def start : State V.toValues where
  phase := .asked .first
  request := {}
  channel := marked [c.stale] 0
  pending := [.first]

def system : Transition.System (State V.toValues) Event where
  Initial s := s = start c
  next := next c

/-- The bytes that are still to come for what was asked. -/
def State.ahead (s : State V.toValues) : List UInt8 := s.channel ++ s.pending.flatMap c.reply

/-- No chunk ends inside a character, and the retry is not sent while a message is still to come. -/
def Timely (s : State V.toValues) : Event → Prop
  | .arrive n => (s.channel.drop n).head?.any isContinuation = false
  | .resume =>
      (match s.phase with
        | .asked .first => (parseQgaMessages V.toValues (String.ofList (decode (s.ahead c)))).1.isEmpty
        | _ => true) = true
  | _ => True

instance (s : State V.toValues) (event : Event) : Decidable (Timely c s event) :=
  match event with
  | .arrive _ => inferInstanceAs (Decidable (_ = false))
  | .resume => inferInstanceAs (Decidable (_ = true))
  | .answer | .send => isTrue trivial

/-- What is asked of a connection: the handshake does not fail, the command gets its own answer, and
nothing stops before it has it. -/
structure Resynchronized (s : State V.toValues) : Prop where
  unfailed : (∀ error, s.phase ≠ .failed error) ∧ s.phase ≠ .thrown
  own : ∀ response, s.phase = .delivered response → answer V.toValues c.command.text = some response
  ends : (∀ event, next c s event = none) → ∃ response, s.phase = .delivered response

/-- No marker stands before an answer, and the stale reply is no error that would be read. -/
structure Plain : Prop where
  first : c.first.markers = 0
  retry : c.retry.markers = 0
  command : c.command.markers = 0
  stale : c.stale.markers = 0 → ∃ result, answer V.toValues c.stale.text = some (.result result)

end

section

variable {V : Numbered} {heard ahead rest : List UInt8} {m : Sent}

theorem completeLines_ended (text more : List Char) :
    completeLines (text ++ '\n' :: more) = completeLines (text ++ ['\n']) ++ completeLines more := by
  obtain ⟨last, line, -, later⟩ := completeLines_append (V := plainValues) text
  have empty : completeLines [] = [] := rfl
  rw [later, later, completeLines_line line, completeLines_line line, empty, List.append_assoc]
  rfl

theorem completeLines_prefix (text more : List Char) :
    completeLines text <+: completeLines (text ++ more) := by
  obtain ⟨last, -, -, later⟩ := completeLines_append (V := plainValues) text
  exact ⟨_, (later more).symm⟩

variable (V) in
/-- Whole lines, none of which is answered. -/
structure Mute (bytes : List UInt8) : Prop where
  ended : bytes = [] ∨ ∃ front, bytes = front ++ [0x0a]
  silent : (completeLines (decode bytes)).findSome? (answerLine V.toValues) = none

theorem decode_ended (bytes : List UInt8) : decode (bytes ++ [0x0a]) = decode bytes ++ ['\n'] := by
  rw [decode_append]
  · rfl
  · intro b is
    rw [← Option.some.inj is]
    decide

theorem Mute.findSome? {junk : List UInt8} (mute : Mute V junk) (text : List Char) :
    (completeLines (decode junk ++ text)).findSome? (answerLine V.toValues) =
      (completeLines text).findSome? (answerLine V.toValues) := by
  rcases mute.ended with rfl | ⟨front, rfl⟩
  · rfl
  · have silent := mute.silent
    rw [decode_ended] at silent ⊢
    rw [List.append_assoc, List.singleton_append, completeLines_ended, List.findSome?_append, silent, Option.none_or]

theorem marked_single (unmarked : m.markers = 0) : marked [m] 0 = encode m.text ++ [0x0a] := by
  rw [marked_cons, unmarked]
  rfl

/-- After what is mute, a message is heard when all of it has arrived. -/
theorem heard_eq {junk : List UInt8} (mute : Mute V junk) (unmarked : m.markers = 0)
    (whole : heard ++ ahead = junk ++ marked [m] 0)
    (clean : ∀ b, ahead.head? = some b → isContinuation b = false) :
    (completeLines (decode heard)).findSome? (answerLine V.toValues) =
      if ahead = [] then answer V.toValues m.text else none := by
  have line : completeLines m.text = [] := completeLines_open m.line
  rw [marked_single unmarked] at whole
  rcases List.eq_nil_or_concat' ahead with rfl | ⟨left, b, rfl⟩
  · have text : decode heard = decode junk ++ (m.text ++ ['\n']) := by
      rw [← @decode_encode m.text, ← decode_ended, ← decode_append, ← whole, List.append_nil]
      exact fun b => head_line
    rw [text, mute.findSome?, completeLines_line m.line, if_pos rfl, List.findSome?_cons, answerLine_filter]
    cases answer V.toValues m.text <;> rfl
  · rw [← List.append_assoc, ← List.append_assoc] at whole
    obtain ⟨before, -⟩ := List.append_inj' whole rfl
    have text : decode heard ++ decode left = decode junk ++ m.text := by
      rw [← @decode_encode m.text, ← decode_append, ← decode_append, before]
      · exact fun b => head_encode
      · intro b is
        refine clean b ?_
        rw [List.head?_append, is]
        rfl
    have silent := mute.findSome? m.text
    rw [line, ← text] at silent
    obtain ⟨more, lines⟩ := completeLines_prefix (decode heard) (decode left)
    rw [← lines, List.findSome?_append] at silent
    rw [if_neg (List.append_ne_nil_of_right_ne_nil _ (List.cons_ne_nil _ _))]
    exact (Option.or_eq_none_iff.mp silent).1

/-- The first message of a stream is what is heard, or there is more to come. -/
theorem heard_first {r : Response V.toValues} (unmarked : m.markers = 0)
    (answers : answer V.toValues m.text = some r) (whole : heard ++ ahead = marked [m] 0 ++ rest)
    (clean : ∀ b, ahead.head? = some b → isContinuation b = false) :
    (completeLines (decode heard)).findSome? (answerLine V.toValues) = some r ∨
      (completeLines (decode heard)).findSome? (answerLine V.toValues) = none ∧ ahead ≠ [] := by
  have nothing : Mute V [] := ⟨.inl rfl, rfl⟩
  rcases List.append_eq_append_iff.mp whole with ⟨left, message, rfl⟩ | ⟨more, rfl, -⟩
  · by_cases all : left = []
    · left
      rw [all, List.append_nil] at message
      have whole : heard ++ [] = [] ++ marked [m] 0 := by rw [List.append_nil, ← message]; rfl
      rw [heard_eq nothing unmarked whole (fun b none => nomatch none), if_pos rfl, answers]
    · right
      have whole : heard ++ left = [] ++ marked [m] 0 := by rw [← message]; rfl
      rw [heard_eq nothing unmarked whole, if_neg all]
      · exact ⟨rfl, fun none => all (List.append_eq_nil_iff.mp none).1⟩
      · intro b is
        refine clean b ?_
        rw [List.head?_append, is]
        rfl
  · left
    have text : decode (marked [m] 0 ++ more) = m.text ++ '\n' :: decode more := by
      rw [marked_single unmarked, List.append_assoc, decode_encode_append]
      rfl
    rw [text, completeLines_line m.line, List.findSome?_cons, answerLine_filter, answers]

theorem mute_marked (h : m.markers ≠ 0) : Mute V (marked [m] 0) := by
  obtain ⟨n, markers⟩ := Nat.exists_eq_succ_of_ne_zero h
  have line : '\n' ∉ REPLACEMENT :: (List.replicate n REPLACEMENT ++ m.text) := by
    rw [List.mem_cons, List.mem_append, not_or, not_or]
    exact ⟨by decide, fun member => absurd (List.eq_of_mem_replicate member) (by decide), m.line⟩
  have text : decode (marked [m] 0) = (REPLACEMENT :: (List.replicate n REPLACEMENT ++ m.text)) ++ '\n' :: [] := by
    rw [marked_cons, markers, decode_markers, decode_encode_append, List.replicate_succ]
    simp only [List.cons_append, List.append_assoc]
    rfl
  have kept : (REPLACEMENT :: (List.replicate n REPLACEMENT ++ m.text)).filter (· ≠ '\xff') =
      REPLACEMENT :: (List.replicate n REPLACEMENT ++ m.text).filter (· ≠ '\xff') :=
    List.filter_cons_of_pos (by decide)
  constructor
  · right
    exact ⟨List.replicate m.markers 0xff ++ encode m.text, by rw [marked_cons, List.append_assoc]; rfl⟩
  · rw [text, completeLines_line line, kept, List.findSome?_cons, answerLine_replacement]
    rfl

end

section

variable {V : Numbered} {c : Connection V} {s t : State V.toValues} {stream : List UInt8}

variable (c) in
/-- The request has listened to the stream from its beginning, and the rest of it is still to come. -/
def Listening (s : State V.toValues) (stream : List UInt8) : Prop :=
  (∀ b, (s.ahead c).head? = some b → isContinuation b = false) ∧
    ∃ chunks : List (List UInt8), s.request = chunks.foldl (fun request chunk => Qga.next request (.data chunk)) {} ∧
      (∀ chunk ∈ chunks, ∀ b, chunk.head? = some b → isContinuation b = false) ∧
      chunks.flatten ++ s.ahead c = stream

theorem Listening.settled (h : Listening c s stream) :
    ∃ heard, heard ++ s.ahead c = stream ∧
      s.request.settled = (completeLines (decode heard)).findSome? (answerLine V.toValues) := by
  obtain ⟨-, chunks, request, clean, whole⟩ := h
  refine ⟨chunks.flatten, whole, ?_⟩
  rw [request, ← decodeAll_eq fun piece member => clean piece (List.mem_of_mem_tail member)]
  exact foldl_data List.not_mem_nil

theorem reply_ne_nil (request : Request) : c.reply request ≠ [] := by
  have filled : ∀ m : Sent, marked [m] 0 ≠ [] := by
    intro m
    rw [marked_cons]
    exact List.append_ne_nil_of_right_ne_nil _ (List.append_ne_nil_of_right_ne_nil _ (List.cons_ne_nil _ _))
  cases request <;> exact filled _

theorem head_reply (request : Request) (rest : List UInt8) {b : UInt8}
    (h : (c.reply request ++ rest).head? = some b) : isContinuation b = false := by
  rw [List.head?_append_of_ne_nil _ (reply_ne_nil request)] at h
  cases request <;> exact head_marked h

/-- A request that begins hears what was still to come, and its own reply. -/
theorem listening_ask (request : Request)
    (clean : ∀ b, (s.ahead c).head? = some b → isContinuation b = false) :
    Listening c (s.ask request) (s.ahead c ++ c.reply request) := by
  have ahead : (s.ask request).ahead c = s.ahead c ++ c.reply request := by
    rw [State.ahead, State.ask, List.flatMap_append, ← List.append_assoc, List.flatMap_singleton, State.ahead]
  refine ⟨fun b is => ?_, [], rfl, fun chunk none => (List.not_mem_nil none).elim, ahead⟩
  rw [ahead] at is
  by_cases empty : s.ahead c = []
  · rw [empty, List.nil_append, ← List.append_nil (c.reply request)] at is
    exact head_reply request [] is
  · rw [List.head?_append_of_ne_nil _ empty] at is
    exact clean b is

/-- The bytes on their way stay the same when the agent answers, and a chunk is taken off their front. -/
theorem next_ahead {event : Event} (n : next c s event = some t) :
    (∃ request pending, event = .answer ∧ s.pending = request :: pending ∧ t.phase = s.phase ∧
      t.request = s.request ∧ t.channel = s.channel ++ c.reply request ∧ t.pending = pending) ∨
      (∃ size, event = .arrive size ∧ 0 < size ∧ size ≤ s.channel.length ∧ t.phase = s.phase ∧
        t.request = Qga.next s.request (.data (s.channel.take size)) ∧ t.channel = s.channel.drop size ∧
        t.pending = s.pending) ∨
      (∃ request response, event = .resume ∧ s.phase = .asked request ∧ s.request.settled = some response ∧
        t = respondTo c s request response) ∨
      (∃ id, event = .send ∧ s.phase = .synced id ∧ t = s.ask .command) := by
  cases event with
  | arrive size =>
      obtain ⟨⟨positive, fits⟩, is⟩ := Option.ite_none_right_eq_some.mp n
      cases is
      exact .inr (.inl ⟨size, rfl, positive, fits, rfl, rfl, rfl, rfl⟩)
  | answer =>
      rw [next] at n
      split at n
      · cases n
      · rename_i request pending is
        cases n
        exact .inl ⟨request, pending, rfl, is, rfl, rfl, rfl, rfl⟩
  | resume =>
      rw [next] at n
      split at n
      · rename_i request response phase settled
        cases n
        exact .inr (.inr (.inl ⟨request, response, rfl, phase, settled, rfl⟩))
      · cases n
  | send =>
      rw [next] at n
      split at n
      · rename_i id phase
        cases n
        exact .inr (.inr (.inr ⟨id, rfl, phase, rfl⟩))
      · cases n

theorem ahead_answer {request : Request} {pending : List Request} (head : s.pending = request :: pending)
    (channel : t.channel = s.channel ++ c.reply request) (rest : t.pending = pending) :
    t.ahead c = s.ahead c := by
  rw [State.ahead, State.ahead, head, channel, rest, List.flatMap_cons, List.append_assoc]

theorem Listening.answer (h : Listening c s stream) (request : t.request = s.request)
    (ahead : t.ahead c = s.ahead c) : Listening c t stream := by
  rw [Listening, request, ahead]
  exact h

theorem Listening.arrive {size : ℕ} (h : Listening c s stream) (positive : 0 < size)
    (fits : size ≤ s.channel.length) (clean : (s.channel.drop size).head?.any isContinuation = false)
    (request : t.request = Qga.next s.request (.data (s.channel.take size)))
    (channel : t.channel = s.channel.drop size) (pending : t.pending = s.pending) : Listening c t stream := by
  obtain ⟨boundary, chunks, heard, boundaries, whole⟩ := h
  have split : s.ahead c = s.channel.take size ++ t.ahead c := by
    rw [State.ahead, State.ahead, channel, pending, ← List.append_assoc, List.take_append_drop]
  have filled : s.channel.take size ≠ [] := by
    refine List.ne_nil_of_length_pos ?_
    rw [List.length_take]
    omega
  refine ⟨fun b is => ?_, chunks ++ [s.channel.take size], ?_, ?_, ?_⟩
  · rw [State.ahead, channel, pending] at is
    by_cases empty : s.channel.drop size = []
    · rw [empty, List.nil_append] at is
      cases waiting : s.pending with
      | nil =>
          rw [waiting] at is
          cases is
      | cons request pending =>
          rw [waiting, List.flatMap_cons] at is
          exact head_reply request _ is
    · rw [List.head?_append_of_ne_nil _ empty] at is
      rw [is] at clean
      exact clean
  · rw [List.foldl_append, ← heard, request]
    rfl
  · refine List.forall_mem_append.mpr ⟨boundaries, List.forall_mem_singleton.mpr fun b is => boundary b ?_⟩
    rw [split, List.head?_append_of_ne_nil _ filled, is]
  · rw [List.flatten_append, List.flatten_singleton, List.append_assoc, ← split, whole]

variable (c) in
/-- What each phase listens to, and what it has still to hear. -/
def Aligned (s : State V.toValues) : Prop :=
  match s.phase with
  | .asked .first => Listening c s (marked [c.stale] 0 ++ c.reply .first)
  | .asked .retry => ∃ junk, Mute V junk ∧ Listening c s (junk ++ c.reply .retry)
  | .asked .command => Listening c s (c.reply .command)
  | .synced _ => s.ahead c = []
  | .delivered response => answer V.toValues c.command.text = some response
  | .failed _ | .thrown => False

theorem aligned_start : Aligned c (start c) := by
  refine ⟨fun b is => ?_, [], rfl, fun chunk none => (List.not_mem_nil none).elim, ?_⟩
  · have filled : marked [c.stale] 0 ≠ [] := by
      rw [marked_cons]
      exact List.append_ne_nil_of_right_ne_nil _ (List.append_ne_nil_of_right_ne_nil _ (List.cons_ne_nil _ _))
    rw [State.ahead, start, List.head?_append_of_ne_nil _ filled] at is
    exact head_marked is
  · rw [State.ahead, start, List.flatMap_singleton]
    rfl

theorem aligned_of_listening (phase : t.phase = s.phase)
    (listening : ∀ stream, Listening c s stream → Listening c t stream)
    (ahead : s.ahead c = [] → t.ahead c = []) (h : Aligned c s) : Aligned c t := by
  unfold Aligned at h ⊢
  rw [phase]
  cases is : s.phase with
  | asked request =>
      rw [is] at h
      cases request with
      | first => exact listening _ h
      | retry =>
          obtain ⟨junk, mute, h⟩ := h
          exact ⟨junk, mute, listening _ h⟩
      | command => exact listening _ h
  | synced id =>
      rw [is] at h
      exact ahead h
  | failed error => rw [is] at h; exact h
  | thrown => rw [is] at h; exact h
  | delivered response => rw [is] at h; exact h

theorem mute_nil : Mute V [] := ⟨.inl rfl, rfl⟩

/-- The response to the first request is the stale reply, or, when nobody can read that one, its own. -/
theorem settled_first (plain : Plain c) {response : Response V.toValues}
    (h : Listening c s (marked [c.stale] 0 ++ c.reply .first)) (settled : s.request.settled = some response) :
    answer V.toValues c.stale.text = some response ∧ c.stale.markers = 0 ∨
      answer V.toValues c.first.text = some response ∧ s.ahead c = [] := by
  obtain ⟨heard, whole, is⟩ := h.settled
  by_cases unmarked : c.stale.markers = 0
  · left
    obtain ⟨result, answers⟩ := plain.stale unmarked
    rcases heard_first unmarked answers whole h.1 with first | ⟨none, -⟩
    · rw [answers, ← first, ← is, settled]
      exact ⟨rfl, unmarked⟩
    · rw [← is, settled] at none
      cases none
  · right
    have own := heard_eq (V := V) (mute_marked unmarked) plain.first whole h.1
    rw [← is, settled] at own
    split at own
    · rename_i all
      exact ⟨own.symm, all⟩
    · cases own

/-- What is still to come when the first response is read ends with a line. -/
theorem ended_ahead (h : Listening c s (marked [c.stale] 0 ++ c.reply .first)) :
    s.ahead c = [] ∨ ∃ front, s.ahead c = front ++ [0x0a] := by
  obtain ⟨-, chunks, -, -, whole⟩ := h
  rcases List.eq_nil_or_concat' (s.ahead c) with empty | ⟨front, b, is⟩
  · exact .inl empty
  · right
    refine ⟨front, ?_⟩
    have last : c.reply .first = List.replicate c.first.markers 0xff ++ encode c.first.text ++ [0x0a] := by
      rw [Connection.reply, marked_cons, List.append_assoc]
      rfl
    rw [is, last, ← List.append_assoc, ← List.append_assoc] at whole
    obtain ⟨-, newline⟩ := List.append_inj' whole rfl
    rw [is, newline]

theorem aligned_resume (plain : Plain c) {request : Request} {response : Response V.toValues}
    (h : Aligned c s) (timely : Timely c s .resume) (phase : s.phase = .asked request)
    (settled : s.request.settled = some response) : Aligned c (respondTo c s request response) := by
  unfold Aligned at h
  unfold Timely at timely
  rw [phase] at h timely
  cases request with
  | first =>
      have nothing : (parseQgaMessages V.toValues (String.ofList (decode (s.ahead c)))).1 = [] :=
        List.isEmpty_iff.mp timely
      obtain ⟨result, rfl, own⟩ : ∃ result, response = .result result ∧
          (result.any (V.strictEq · (syncId c.now)) = true → s.ahead c = []) := by
        rcases settled_first plain h settled with ⟨stale, unmarked⟩ | ⟨first, all⟩
        · obtain ⟨result, answers⟩ := plain.stale unmarked
          obtain ⟨r, same, other⟩ := c.stale_other
          rw [stale] at answers same
          cases answers
          cases same
          refine ⟨result, rfl, fun synced => ?_⟩
          obtain ⟨value, is, equal⟩ := (Option.any_eq_true _ _).mp synced
          rw [(other value (by rw [is])).1] at equal
          cases equal
        · obtain ⟨value, answers, -⟩ := c.first_eq
          rw [first] at answers
          cases answers
          exact ⟨some value, rfl, fun _ => all⟩
      rw [respondTo]
      split
      · rename_i synced
        exact own synced
      · refine ⟨s.ahead c, ⟨ended_ahead h, ?_⟩, listening_ask .retry h.1⟩
        rw [← parseQgaMessages_fst, nothing]
        rfl
  | retry =>
      obtain ⟨junk, mute, listening⟩ := h
      obtain ⟨heard, whole, is⟩ := listening.settled
      have own := heard_eq mute plain.retry whole listening.1
      obtain ⟨value, answers, equal⟩ := c.retry_eq
      rw [← is, settled] at own
      split at own
      · rename_i all
        rw [answers] at own
        cases own
        have synced : (some value).any (V.strictEq · (retrySyncId c.now)) = true := equal
        rw [respondTo, if_pos synced]
        exact all
      · cases own
  | command =>
      obtain ⟨heard, whole, is⟩ := h.settled
      have own := heard_eq (V := V) mute_nil plain.command whole h.1
      rw [← is, settled] at own
      split at own
      · exact own.symm
      · cases own

theorem aligned_next (plain : Plain c) {event : Event} (h : Aligned c s) (timely : Timely c s event)
    (n : next c s event = some t) : Aligned c t := by
  rcases next_ahead n with ⟨request, pending, rfl, head, phase, same, channel, rest⟩ |
    ⟨size, rfl, positive, fits, phase, request, channel, pending⟩ |
    ⟨request, response, rfl, phase, settled, rfl⟩ | ⟨id, rfl, phase, rfl⟩
  · have ahead := ahead_answer head channel rest
    exact aligned_of_listening phase (fun stream listening => listening.answer same ahead) (ahead ▸ id) h
  · refine aligned_of_listening phase
      (fun stream listening => listening.arrive positive fits timely request channel pending) (fun none => ?_) h
    have empty := (List.append_eq_nil_iff.mp none).1
    rw [empty] at fits
    exact absurd (Nat.lt_of_lt_of_le positive fits) (Nat.lt_irrefl 0)
  · exact aligned_resume plain h timely phase settled
  · unfold Aligned at h
    rw [phase] at h
    have none : s.ahead c = [] := h
    have listening := listening_ask (c := c) (s := s) .command fun b is => by
      rw [none] at is
      cases is
    rw [none] at listening
    exact listening

/-- As long as the command has no answer there is something to come or something to do. -/
theorem delivered_of_ends (plain : Plain c) (h : Aligned c s) (ends : ∀ event, next c s event = none) :
    ∃ response, s.phase = .delivered response := by
  have channel : s.channel = [] := by
    by_contra filled
    have size := List.length_pos_iff.mpr filled
    have arrives := ends (.arrive 1)
    rw [next, if_pos ⟨Nat.one_pos, size⟩] at arrives
    cases arrives
  have pending : s.pending = [] := by
    cases waiting : s.pending with
    | nil => rfl
    | cons request pending =>
        have answers := ends .answer
        rw [next, waiting] at answers
        cases answers
  have all : s.ahead c = [] := by rw [State.ahead, channel, pending]; rfl
  -- a request that has heard everything has its response
  have goes : ∀ {request r}, s.phase = .asked request → s.request.settled ≠ some r := by
    intro request r phase settled
    have resumes := ends .resume
    rw [next, phase, settled] at resumes
    cases resumes
  unfold Aligned at h
  cases phase : s.phase with
  | asked request =>
      rw [phase] at h
      exfalso
      cases request with
      | first =>
          obtain ⟨heard, whole, is⟩ := h.settled
          by_cases unmarked : c.stale.markers = 0
          · obtain ⟨result, answers⟩ := plain.stale unmarked
            rcases heard_first unmarked answers whole h.1 with first | ⟨-, more⟩
            · exact goes phase (is.trans first)
            · exact more all
          · obtain ⟨value, answers, -⟩ := c.first_eq
            have own := heard_eq (V := V) (mute_marked unmarked) plain.first whole h.1
            rw [if_pos all, answers] at own
            exact goes phase (is.trans own)
      | retry =>
          obtain ⟨junk, mute, listening⟩ := h
          obtain ⟨heard, whole, is⟩ := listening.settled
          obtain ⟨value, answers, -⟩ := c.retry_eq
          have own := heard_eq mute plain.retry whole listening.1
          rw [if_pos all, answers] at own
          exact goes phase (is.trans own)
      | command =>
          obtain ⟨heard, whole, is⟩ := h.settled
          obtain ⟨response, answers⟩ := Option.isSome_iff_exists.mp c.command_json
          have own := heard_eq (V := V) mute_nil plain.command whole h.1
          rw [if_pos all, answers] at own
          exact goes phase (is.trans own)
  | synced id =>
      have sends := ends .send
      rw [next, phase] at sends
      cases sends
  | failed error => rw [phase] at h; exact h.elim
  | thrown => rw [phase] at h; exact h.elim
  | delivered response => exact ⟨response, rfl⟩

variable (c) in
def Connection.cost (request : Request) : ℕ := 1 + (c.reply request).length

variable (c) in
def Connection.steps (phase : Phase V.toValues) : ℕ :=
  match phase with
  | .asked .first => c.cost .retry + c.cost .command + 4
  | .asked .retry => c.cost .command + 3
  | .synced _ => c.cost .command + 2
  | .asked .command => 1
  | .failed _ | .thrown | .delivered _ => 0

variable (c) in
/-- The steps that a state has left, at most. -/
def left (s : State V.toValues) : ℕ := c.steps s.phase + s.channel.length + (s.pending.map c.cost).sum

theorem left_ask (request : Request) :
    left c (s.ask request) =
      c.steps (.asked request) + s.channel.length + (s.pending.map c.cost).sum + c.cost request := by
  rw [left, State.ask, List.map_append, List.sum_append, ← Nat.add_assoc]
  rfl

/-- A response is followed by the retry, or by a phase with less to do. -/
theorem respondTo_cases (request : Request) (response : Response V.toValues) :
    request = .first ∧ respondTo c s request response = s.ask .retry ∨
      ∃ phase, respondTo c s request response = { s with phase } ∧ c.steps phase < c.steps (.asked request) := by
  have positive : 0 < c.steps (.asked request) := by cases request <;> exact Nat.succ_pos _
  cases request with
  | first =>
      cases response with
      | result result =>
          by_cases synced : result.any (V.strictEq · (syncId c.now)) = true
          · exact .inr ⟨_, if_pos synced, by dsimp only [Connection.steps]; omega⟩
          · exact .inl ⟨rfl, if_neg synced⟩
      | failed error => exact .inr ⟨_, rfl, positive⟩
      | thrown => exact .inr ⟨_, rfl, positive⟩
  | retry =>
      right
      cases response with
      | result result =>
          by_cases synced : result.any (V.strictEq · (retrySyncId c.now)) = true
          · exact ⟨_, if_pos synced, Nat.lt_succ_self _⟩
          · exact ⟨_, if_neg synced, positive⟩
      | failed error => exact ⟨_, rfl, positive⟩
      | thrown => exact ⟨_, rfl, positive⟩
  | command => exact .inr ⟨_, rfl, positive⟩

theorem left_next {event : Event} (n : next c s event = some t) : left c t < left c s := by
  rcases next_ahead n with ⟨request, pending, -, head, phase, -, channel, rest⟩ |
    ⟨size, -, positive, fits, phase, -, channel, pending⟩ |
    ⟨request, response, -, phase, -, rfl⟩ | ⟨id, -, phase, rfl⟩
  · have cost : c.cost request = 1 + (c.reply request).length := rfl
    rw [left, left, phase, channel, rest, head, List.length_append, List.map_cons, List.sum_cons]
    omega
  · rw [left, left, phase, channel, pending, List.length_drop]
    omega
  · rcases respondTo_cases (c := c) (s := s) request response with ⟨rfl, is⟩ | ⟨after, is, less⟩
    · rw [is, left_ask, left, phase]
      dsimp only [Connection.steps]
      omega
    · rw [is, left, left, phase]
      dsimp only
      omega
  · rw [left_ask, left, phase]
    dsimp only [Connection.steps]
    omega

/-- What was missed is what makes the difference: when all of the first reply is still to come as the retry
is sent, the retry reads that one, whatever comes then. -/
theorem not_synced_of_early (plain : Plain c) (early : s.ahead c = c.reply .first) {u : State V.toValues}
    (run : ({ Initial := (· = s.ask .retry), next := next c } : Transition.System _ _).ReachableUnder
      (Timely c) u) (id : ℕ) : u.phase ≠ .synced id := by
  have start := listening_ask (c := c) (s := s) .retry fun b is => by
    rw [early, ← List.append_nil (c.reply .first)] at is
    exact head_reply .first [] is
  have fails : u.phase = .asked .retry ∧ Listening c u (s.ahead c ++ c.reply .retry) ∨
      ∃ error, u.phase = .failed error := by
    refine Transition.System.ReachableUnder.invariant (I := fun u => u.phase = .asked .retry ∧
      Listening c u (s.ahead c ++ c.reply .retry) ∨ ∃ error, u.phase = .failed error) ?_ ?_ run
    · rintro t rfl
      exact .inl ⟨rfl, start⟩
    · intro t event t' _ h timely n
      rcases next_ahead n with ⟨request, pending, rfl, head, same, listens, channel, rest⟩ |
        ⟨size, rfl, positive, fits, same, listens, channel, pending⟩ |
        ⟨request, response, rfl, asked, settled, rfl⟩ | ⟨id, rfl, synced, rfl⟩
      · rw [same]
        exact h.imp_left fun ⟨phase, listening⟩ => ⟨phase, listening.answer listens (ahead_answer head channel rest)⟩
      · rw [same]
        exact h.imp_left fun ⟨phase, listening⟩ =>
          ⟨phase, listening.arrive positive fits timely listens channel pending⟩
      · rcases h with ⟨phase, listening⟩ | ⟨error, phase⟩
        · cases asked.symm.trans phase
          rw [early] at listening
          obtain ⟨heard, whole, is⟩ := listening.settled
          obtain ⟨value, answers, first⟩ := c.first_eq
          rcases heard_first plain.first answers whole listening.1 with read | ⟨none, -⟩
          · rw [← is, settled] at read
            cases read
            have other : (some value).any (V.strictEq · (retrySyncId c.now)) = false := by
              refine Bool.eq_false_iff.mpr fun retry => ?_
              have same := V.strictEq_unique value _ _ first retry
              unfold retrySyncId syncId at same
              omega
            right
            rw [respondTo, if_neg (Bool.eq_false_iff.mp other)]
            exact ⟨_, rfl⟩
          · rw [← is, settled] at none
            cases none
        · cases asked.symm.trans phase
      · rcases h with ⟨phase, -⟩ | ⟨error, phase⟩ <;> cases synced.symm.trans phase
  rcases fails with ⟨phase, -⟩ | ⟨error, phase⟩
  · rw [phase]
    exact fun other => nomatch other
  · rw [phase]
    exact fun other => nomatch other

theorem replay_left {events : List Event} (run : (system c).replay s events = some t) :
    events.length + left c t ≤ left c s := by
  induction events generalizing s with
  | nil => cases run; exact Nat.le_of_eq (Nat.zero_add _)
  | cons event events ih =>
      obtain ⟨u, first, rest⟩ := Option.bind_eq_some_iff.mp run
      have less := left_next first
      have later := ih rest
      rw [List.length_cons]
      omega

/-- The connection resynchronizes when the retry is not sent before the reply to the first request has
begun to arrive: a run comes to its end, and never fails, and the command gets its own answer. -/
theorem resynchronized_of_timely (c : Connection V) (plain : Plain c) :
    (∃ bound, ∀ events s, (system c).replay (start c) events = some s → events.length ≤ bound) ∧
      ∀ s, (system c).ReachableUnder (Timely c) s → Resynchronized c s := by
  refine ⟨⟨left c (start c), fun events s run => ?_⟩, fun s reachable => ?_⟩
  · exact Nat.le_trans (Nat.le_add_right _ _) (replay_left run)
  · have aligned : Aligned c s := by
      refine reachable.invariant ?_ fun s event t _ aligned timely n => aligned_next plain aligned timely n
      rintro s rfl
      exact aligned_start
    refine ⟨⟨fun error phase => ?_, fun phase => ?_⟩, fun response phase => ?_, delivered_of_ends plain aligned⟩
    all_goals
      unfold Aligned at aligned
      rw [phase] at aligned
      exact aligned

end

def plainNumbered : Numbered :=
  { plainValues with
    strictEq := fun (value : Json) n =>
      match value with
      | .num k => k = n
      | _ => false
    strictEq_unique := by
      intro (value : Json) m n first second
      cases value with
      | num k =>
          have is : k = m := of_decide_eq_true first
          have is' : k = n := of_decide_eq_true second
          omega
      | _ => cases first }

def returns (text : List Char) (n : ℕ) : Bool :=
  match answer plainNumbered.toValues text with
  | some (.result (some value)) => plainNumbered.strictEq value n
  | _ => false

theorem exists_of_returns {text : List Char} {n : ℕ} (h : returns text n = true) :
    ∃ value, answer plainNumbered.toValues text = some (.result (some value)) ∧
      plainNumbered.strictEq value n = true := by
  unfold returns at h
  split at h
  · rename_i value is
    exact ⟨value, is, h⟩
  · cases h

theorem other_of_returns {text : List Char} {n now : ℕ} (h : returns text n = true) (first : syncId now ≠ n)
    (retry : retrySyncId now ≠ n) :
    ∃ r, answer plainNumbered.toValues text = some r ∧ ∀ value, r = .result (some value) →
      plainNumbered.strictEq value (syncId now) = false ∧
        plainNumbered.strictEq value (retrySyncId now) = false := by
  obtain ⟨value, is, equal⟩ := exists_of_returns h
  have other : ∀ m, m ≠ n → plainNumbered.strictEq value m = false := fun m differs =>
    Bool.eq_false_iff.mpr fun same => differs (plainNumbered.strictEq_unique value m n same equal)
  refine ⟨_, is, ?_⟩
  rintro value' ⟨⟩
  exact ⟨other _ first, other _ retry⟩

def sent (text : String) (line : '\n' ∉ text.toList) : Sent where
  markers := 0
  text := text.toList
  line

/-- The handle that an earlier `guest-file-open` returned is still in the channel. -/
def leftover : Connection plainNumbered where
  now := 41
  stale := sent "\x7b\"return\":7\x7d" (by decide +kernel)
  first := sent "\x7b\"return\":41\x7d" (by decide +kernel)
  retry := sent "\x7b\"return\":42\x7d" (by decide +kernel)
  command := sent "\x7b\"return\":\"ok\"\x7d" (by decide +kernel)
  stale_other := other_of_returns (n := 7) (by decide +kernel) (by decide) (by decide)
  first_eq := exists_of_returns (by decide +kernel)
  retry_eq := exists_of_returns (by decide +kernel)
  command_json := by decide +kernel

theorem plain_leftover : Plain leftover where
  first := rfl
  retry := rfl
  command := rfl
  stale _ := by
    have returned : returns leftover.stale.text 7 = true := by decide +kernel
    obtain ⟨value, is, -⟩ := exists_of_returns returned
    exact ⟨some value, is⟩

def Phase.isDelivered {V : Values} : Phase V → Bool
  | .delivered _ => true
  | _ => false

def Phase.isFailed {V : Values} : Phase V → Bool
  | .failed _ => true
  | _ => false

/-- The chunk that completes the stale reply has the first byte of the next one. -/
theorem resynchronized_of_timely_leftover :
    ∃ s, (system leftover).ReachableUnder (Timely leftover) s ∧ s.phase.isDelivered = true ∧
      Resynchronized leftover s := by
  obtain ⟨s, reachable, delivered⟩ := Transition.System.exists_reachable
    (S := (system leftover).restrict (Timely leftover)) (P := fun s => s.phase.isDelivered = true)
    [.arrive 5, .answer, .arrive 9, .resume, .answer, .arrive 20, .arrive 7, .resume, .send, .answer, .arrive 16,
      .resume]
    rfl (by decide +kernel)
  have under := Transition.System.ReachableUnder.of_restrict reachable
  exact ⟨s, under, delivered, (resynchronized_of_timely leftover plain_leftover).2 s under⟩

/-- The stale reply arrives by itself, and the retry reads the reply to the first request. -/
theorem resynchronized_fails :
    ¬ ∀ (V : Numbered) (c : Connection V), Plain c → ∀ s, (system c).Reachable s → Resynchronized c s := by
  intro all
  obtain ⟨s, reachable, failed⟩ := Transition.System.exists_reachable
    (S := system leftover) (P := fun s => s.phase.isFailed = true)
    [.arrive 13, .resume, .answer, .arrive 14, .resume] rfl (by decide +kernel)
  have unfailed := (all plainNumbered leftover plain_leftover s reachable).unfailed.1
  cases phase : s.phase with
  | failed error => exact unfailed error phase
  | _ => rw [phase] at failed; cases failed

end Quickchr.QgaSync
