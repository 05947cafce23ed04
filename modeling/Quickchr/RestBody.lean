import Quickchr.RestDelivery
import Quickchr.Lib.Utf8

/-!
# The body of a response

A response to a REST request arrives in chunks of bytes. The four request functions read it in the
same way: each chunk is turned into text by itself, and the first event that ends the exchange
settles the promise.
-/
namespace Quickchr.RestBody

open Utf8

/-- What happens to a request once it is sent. -/
inductive Event
  | response (statusCode : Option ℕ)
  | data (chunk : List UInt8)
  | «end»
  | error (e : PlainError)
  | requestError (e : PlainError)
  | timer

structure State where
  done : Bool := false
  statusCode : Option ℕ := none
  body : String := ""
  settled : Option (Except PlainError RestResponse) := none

def State.settle (s : State) (result : Except PlainError RestResponse) : State :=
  if s.done then s else { s with done := true, settled := some result }

def next (timedOut : String) (s : State) : Event → State
  | .response statusCode => { s with statusCode }
  | .data chunk => { s with body := s.body ++ String.ofList (decode chunk) }
  | .end => s.settle (.ok { status := s.statusCode.getD 0, body := s.body })
  | .error e => s.settle (.error e)
  | .requestError e => s.settle (.error e)
  | .timer => s.settle (.error { message := timedOut })

def settled (timedOut : String) (events : List Event) : Option (Except PlainError RestResponse) :=
  (events.foldl (next timedOut) {}).settled

def restGet (url : String) (timeoutMs : ℕ) : List Event → Option (Except PlainError RestResponse) :=
  settled s!"restGet timeout after {timeoutMs}ms: {url}"

def restPost (url : String) (timeoutMs : ℕ) : List Event → Option (Except PlainError RestResponse) :=
  settled s!"restPost timeout after {timeoutMs}ms: {url}"

def restPatch (url : String) (timeoutMs : ℕ) : List Event → Option (Except PlainError RestResponse) :=
  settled s!"restPatch timeout after {timeoutMs}ms: {url}"

def restRequest (url method : String) (timeoutMs : ℕ) :
    List Event → Option (Except PlainError RestResponse) :=
  settled s!"restRequest timeout after {timeoutMs}ms: {method} {url}"

def requests (url method : String) (timeoutMs : ℕ) :
    List (List Event → Option (Except PlainError RestResponse)) :=
  [restGet url timeoutMs, restPost url timeoutMs, restPatch url timeoutMs,
    restRequest url method timeoutMs]

/-- A response whose bytes arrive in these chunks, and what happens after it has ended. -/
def arriving (statusCode : Option ℕ) (chunks : List (List UInt8)) (later : List Event) : List Event :=
  .response statusCode :: chunks.map .data ++ .end :: later

variable {timedOut : String} {chunks : List (List UInt8)} {s : State}

theorem exists_of_mem_requests {url method : String} {timeoutMs : ℕ}
    {request : List Event → Option (Except PlainError RestResponse)}
    (member : request ∈ requests url method timeoutMs) : ∃ timedOut, request = settled timedOut := by
  rcases List.mem_cons.mp member with is | member
  · exact ⟨_, is⟩
  rcases List.mem_cons.mp member with is | member
  · exact ⟨_, is⟩
  rcases List.mem_cons.mp member with is | member
  · exact ⟨_, is⟩
  · exact ⟨_, List.mem_singleton.mp member⟩

theorem next_done (done : s.done = true) (event : Event) :
    (next timedOut s event).done = true ∧ (next timedOut s event).settled = s.settled := by
  have kept : ∀ result, s.settle result = s := fun result => if_pos done
  cases event with
  | response statusCode => exact ⟨done, rfl⟩
  | data chunk => exact ⟨done, rfl⟩
  | «end» => rw [next, kept]; exact ⟨done, rfl⟩
  | error e => rw [next, kept]; exact ⟨done, rfl⟩
  | requestError e => rw [next, kept]; exact ⟨done, rfl⟩
  | timer => rw [next, kept]; exact ⟨done, rfl⟩

theorem foldl_done (done : s.done = true) (events : List Event) :
    (events.foldl (next timedOut) s).settled = s.settled := by
  induction events generalizing s with
  | nil => rfl
  | cons event events ih =>
      obtain ⟨still, same⟩ := @next_done timedOut s done event
      rw [List.foldl_cons, ih still, same]

theorem foldl_data :
    (chunks.map Event.data).foldl (next timedOut) s =
      { s with body := s.body ++ String.ofList (decodeAll chunks) } := by
  induction chunks generalizing s with
  | nil =>
      rw [decodeAll, List.flatMap_nil, String.ofList_nil, String.append_empty]
      rfl
  | cons chunk chunks ih =>
      have more : decodeAll (chunk :: chunks) = decode chunk ++ decodeAll chunks := List.flatMap_cons
      rw [List.map_cons, List.foldl_cons, ih, more, String.ofList_append, ← String.append_assoc]
      rfl

/-- The promise resolves with the chunks, each decoded by itself. -/
theorem settled_arriving (statusCode : Option ℕ) (later : List Event) :
    settled timedOut (arriving statusCode chunks later) =
      some (.ok { status := statusCode.getD 0, body := String.ofList (decodeAll chunks) }) := by
  rw [settled, arriving, List.cons_append, List.foldl_cons, List.foldl_append, foldl_data, List.foldl_cons,
    foldl_done]
  · rw [next, next, State.settle, String.empty_append]
    rfl
  · rfl

/-- A body resolves to its text just when no chunk of it begins inside a character. -/
theorem resolves_whole_iff {text : List Char} (whole : chunks.flatten = encode text)
    (url method : String) (timeoutMs : ℕ) (statusCode : Option ℕ) (later : List Event) :
    ∀ request ∈ requests url method timeoutMs,
      request (arriving statusCode chunks later) =
          some (.ok { status := statusCode.getD 0, body := String.ofList text }) ↔
        ∀ chunk ∈ chunks, ∀ b, chunk.head? = some b → isContinuation b = false := by
  intro request member
  obtain ⟨timedOut, rfl⟩ := exists_of_mem_requests member
  rw [settled_arriving, ← decodeAll_eq_text_iff whole]
  constructor
  · intro same
    have bodies := congrArg RestResponse.body (Except.ok.inj (Option.some.inj same))
    exact String.ofList_injective bodies
  · intro same
    rw [same]

/-- A name with an umlaut, cut after the umlaut. -/
theorem resolves_whole_iff_umlaut :
    restGet "http://127.0.0.1:9100/rest/system/identity" 10000
        (arriving (some 200) [encode "Zü".toList, encode "rich".toList] []) =
      some (.ok { status := 200, body := "Zürich" }) :=
  ((@resolves_whole_iff [encode "Zü".toList, encode "rich".toList] "Zürich".toList (by decide +kernel)
    "http://127.0.0.1:9100/rest/system/identity" "GET" 10000 (some 200) []) _
      List.mem_cons_self).mpr (by decide +kernel)

/-- The same name, cut between the two bytes of the umlaut and in one piece. -/
theorem resolves_whole_fails :
    ([[0x5a, 0xc3], [0xbc, 0x72, 0x69, 0x63, 0x68]] : List (List UInt8)).flatten = encode "Zürich".toList ∧
      ∀ request ∈ requests "http://127.0.0.1:9100/rest/system/identity" "GET" 10000,
        request (arriving (some 200) [[0x5a, 0xc3], [0xbc, 0x72, 0x69, 0x63, 0x68]] []) =
            some (.ok { status := 200, body := "Z\ufffd\ufffdrich" }) ∧
          request (arriving (some 200) [[0x5a, 0xc3, 0xbc, 0x72, 0x69, 0x63, 0x68]] []) =
            some (.ok { status := 200, body := "Zürich" }) := by
  refine ⟨by decide +kernel, fun request member => ?_⟩
  obtain ⟨timedOut, rfl⟩ := exists_of_mem_requests member
  rw [settled_arriving, settled_arriving]
  exact ⟨by decide +kernel, by decide +kernel⟩

end Quickchr.RestBody
