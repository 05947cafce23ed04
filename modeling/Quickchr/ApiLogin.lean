import Quickchr.RestDelivery
import Quickchr.Lib.Utf8

/-!
# Login over the native API

A word is sent with its length before it, in one to five bytes, and a sentence is its words and an
empty one. A login reads sentences until one of them ends the reply, from bytes that may be cut
anywhere.
-/
namespace Quickchr.ApiLogin

open Utf8

def encodeApiLength (length : ℕ) : List UInt8 :=
  if length < 0x80 then [.ofNat length]
  else if length < 0x4000 then [.ofNat ((length >>> 8) ||| 0x80), .ofNat (length &&& 0xff)]
  else if length < 0x200000 then
    [.ofNat ((length >>> 16) ||| 0xc0), .ofNat ((length >>> 8) &&& 0xff), .ofNat (length &&& 0xff)]
  else if length < 0x10000000 then
    [.ofNat ((length >>> 24) ||| 0xe0), .ofNat ((length >>> 16) &&& 0xff), .ofNat ((length >>> 8) &&& 0xff),
      .ofNat (length &&& 0xff)]
  else
    [0xf0, .ofNat ((length >>> 24) &&& 0xff), .ofNat ((length >>> 16) &&& 0xff),
      .ofNat ((length >>> 8) &&& 0xff), .ofNat (length &&& 0xff)]

def encodeApiWord (word : String) : List UInt8 :=
  let bytes := encode word.toList
  encodeApiLength bytes.length ++ bytes

def encodeApiSentence (words : List String) : List UInt8 := words.flatMap encodeApiWord ++ [0]

/-- How many bytes a length takes that begins with this one. -/
def prefixSize (first : ℕ) : ℕ :=
  if first &&& 0x80 = 0 then 1
  else if first &&& 0xc0 = 0x80 then 2
  else if first &&& 0xe0 = 0xc0 then 3
  else if first &&& 0xf0 = 0xe0 then 4
  else 5

/-- A length and its size; none when the buffer ends inside it. -/
def decodeApiLength : List UInt8 → Option (ℕ × ℕ)
  | [] => none
  | first :: rest =>
      let size := prefixSize first.toNat
      if size > rest.length + 1 then none
      else
        let high := if size = 5 then 0 else first.toNat &&& (0xff >>> size)
        some ((rest.take (size - 1)).foldl (fun length b => length * 256 + b.toNat) high, size)

/-- `TextDecoder.decode`: a byte order mark at the start is no text. -/
def decodeWord (bytes : List UInt8) : String :=
  String.ofList <|
    match decode bytes with
    | '\ufeff' :: text => text
    | text => text

/-- The sentences in the rest of the buffer, with the words of the one that has begun. A round takes at
least one byte, so the buffer's length is fuel enough. -/
def parseLoop : (fuel : ℕ) → List String → List UInt8 → List (List String)
  | 0, _, _ => []
  | fuel + 1, words, buf =>
      match decodeApiLength buf with
      | none => []
      | some (length, size) =>
          if size + length > buf.length then []
          else if length = 0 then words :: parseLoop fuel [] (buf.drop size)
          else
            parseLoop fuel (words ++ [decodeWord ((buf.drop size).take length)]) (buf.drop (size + length))

def parseApiSentences (buf : List UInt8) : List (List String) := parseLoop buf.length [] buf

variable {n fuel : ℕ} {word : String} {words before : List String} {rest cut : List UInt8}

theorem prefixSize_first :
    (∀ n < 128, prefixSize n = 1 ∧ n &&& 0xff >>> 1 = n) ∧
      (∀ n < 64, (n ||| 0x80) < 256 ∧ prefixSize (n ||| 0x80) = 2 ∧ (n ||| 0x80) &&& 0xff >>> 2 = n) ∧
      (∀ n < 32, (n ||| 0xc0) < 256 ∧ prefixSize (n ||| 0xc0) = 3 ∧ (n ||| 0xc0) &&& 0xff >>> 3 = n) ∧
      ∀ n < 16, (n ||| 0xe0) < 256 ∧ prefixSize (n ||| 0xe0) = 4 ∧ (n ||| 0xe0) &&& 0xff >>> 4 = n := by
  decide

theorem toNat_low (n : ℕ) : (UInt8.ofNat (n &&& 0xff)).toNat = n % 256 := by
  have low : n &&& 0xff = n % 256 := Nat.and_two_pow_sub_one_eq_mod n 8
  rw [low]
  exact UInt8.toNat_ofNat_of_lt' (Nat.mod_lt n (by decide))

/-- The number that a first byte of this size begins, with the bytes that follow it. -/
def valueOf (first : UInt8) (rest : List UInt8) : ℕ :=
  rest.foldl (fun length b => length * 256 + b.toNat)
    (if rest.length + 1 = 5 then 0 else first.toNat &&& (0xff >>> (rest.length + 1)))

theorem encodeApiLength_eq (h : n < 2 ^ 32) :
    ∃ first rest, encodeApiLength n = first :: rest ∧ prefixSize first.toNat = rest.length + 1 ∧
      valueOf first rest = n := by
  obtain ⟨one, two, three, four⟩ := prefixSize_first
  have byte : ∀ {n}, n < 256 → (UInt8.ofNat n).toNat = n := fun small => UInt8.toNat_ofNat_of_lt' small
  have shift : ∀ i, n >>> i = n / 2 ^ i := fun i => Nat.shiftRight_eq_div_pow n i
  unfold encodeApiLength
  split
  · rename_i small
    obtain ⟨size, high⟩ := one n small
    have first := byte (n := n) (by omega)
    refine ⟨_, _, rfl, by rw [first, size]; rfl, ?_⟩
    rw [valueOf, List.foldl_nil, first, List.length_nil, if_neg (by decide), high]
  · split
    · obtain ⟨small, size, high⟩ := two (n >>> 8) (by rw [shift]; omega)
      have first := byte small
      refine ⟨_, _, rfl, by rw [first, size]; rfl, ?_⟩
      rw [valueOf, List.foldl_cons, List.foldl_nil, toNat_low, first, List.length_singleton, if_neg (by decide), high,
        shift]
      omega
    · split
      · obtain ⟨small, size, high⟩ := three (n >>> 16) (by rw [shift]; omega)
        have first := byte small
        refine ⟨_, _, rfl, by rw [first, size]; rfl, ?_⟩
        simp only [valueOf, List.foldl_cons, List.foldl_nil, toNat_low, first, List.length_cons, List.length_nil]
        rw [if_neg (by decide), high, shift, shift]
        omega
      · split
        · obtain ⟨small, size, high⟩ := four (n >>> 24) (by rw [shift]; omega)
          have first := byte small
          refine ⟨_, _, rfl, by rw [first, size]; rfl, ?_⟩
          simp only [valueOf, List.foldl_cons, List.foldl_nil, toNat_low, first, List.length_cons, List.length_nil]
          rw [if_neg (by decide), high, shift, shift, shift]
          omega
        · refine ⟨_, _, rfl, rfl, ?_⟩
          simp only [valueOf, List.foldl_cons, List.foldl_nil, toNat_low, List.length_cons, List.length_nil]
          rw [if_pos trivial, shift, shift, shift]
          omega

theorem decodeApiLength_encode (h : n < 2 ^ 32) :
    decodeApiLength (encodeApiLength n ++ rest) = some (n, (encodeApiLength n).length) := by
  obtain ⟨first, tail, encoded, size, value⟩ := encodeApiLength_eq h
  rw [encoded, List.cons_append, decodeApiLength]
  dsimp only
  rw [size, if_neg (by rw [List.length_append]; omega), Nat.add_sub_cancel, List.take_left]
  exact congrArg (fun length => some (length, tail.length + 1)) value

theorem decodeApiLength_cut (h : n < 2 ^ 32) (begins : cut <+: encodeApiLength n)
    (short : cut ≠ encodeApiLength n) : decodeApiLength cut = none := by
  obtain ⟨first, tail, encoded, size, -⟩ := encodeApiLength_eq h
  obtain ⟨missing, whole⟩ := begins
  rw [← whole] at encoded short
  cases cut with
  | nil => rfl
  | cons b cut =>
      have more : missing ≠ [] := fun none => short (by rw [none, List.append_nil])
      have lengths := List.length_pos_iff.mpr more
      rw [List.cons_append] at encoded
      obtain ⟨rfl, rfl⟩ := List.cons.inj encoded
      rw [decodeApiLength]
      dsimp only
      rw [size, if_pos (by rw [List.length_append]; omega)]

theorem decodeApiLength_zero : decodeApiLength (0 :: rest) = some (0, 1) := by
  have size : prefixSize (0 : UInt8).toNat = 1 := rfl
  rw [decodeApiLength]
  dsimp only
  rw [size, if_neg (by omega)]
  rfl

/-- A word that can be sent and read back: it is not the end of a sentence, its length can be written, and
its first character is no mark that the decoder drops. -/
def Encodable (word : String) : Prop :=
  word ≠ "" ∧ word.toList.head? ≠ some '\ufeff' ∧ (encode word.toList).length < 2 ^ 32

instance (word : String) : Decidable (Encodable word) :=
  inferInstanceAs (Decidable (_ ∧ _ ∧ _))

theorem decodeWord_encode (h : Encodable word) : decodeWord (encode word.toList) = word := by
  have unmarked := h.2.1
  rw [decodeWord, decode_encode]
  split
  · rename_i marked
    exact absurd (by rw [marked]; rfl) unmarked
  · exact String.ofList_toList

theorem encode_length_ne_zero (h : Encodable word) : (encode word.toList).length ≠ 0 := by
  intro empty
  have nothing := @decode_encode word.toList
  rw [List.length_eq_zero_iff.mp empty] at nothing
  exact h.1 (String.toList_inj.mp nothing.symm)

theorem parseLoop_word (h : Encodable word) :
    parseLoop (fuel + 1) before (encodeApiWord word ++ rest) = parseLoop fuel (before ++ [word]) rest := by
  rw [parseLoop, encodeApiWord, List.append_assoc, decodeApiLength_encode h.2.2]
  dsimp only
  rw [if_neg (by simp only [List.length_append]; omega), if_neg (encode_length_ne_zero h), List.drop_left,
    List.take_left, decodeWord_encode h, ← List.append_assoc, ← List.length_append, List.drop_left]

theorem parseLoop_end : parseLoop (fuel + 1) before (0 :: rest) = before :: parseLoop fuel [] rest := by
  rw [parseLoop, decodeApiLength_zero]
  dsimp only
  rw [if_neg (by rw [List.length_cons]; omega), if_pos rfl]
  rfl

theorem parseLoop_cut (h : Encodable word) (begins : cut <+: encodeApiWord word)
    (short : cut ≠ encodeApiWord word) : parseLoop fuel before cut = [] := by
  cases fuel with
  | zero => rfl
  | succ fuel =>
      rw [parseLoop]
      rcases List.prefix_or_prefix_of_prefix begins (List.prefix_append _ _) with inside | beyond
      · by_cases all : cut = encodeApiLength (encode word.toList).length
        · have read := @decodeApiLength_encode _ [] h.2.2
          rw [List.append_nil, ← all] at read
          rw [read]
          dsimp only
          rw [if_pos]
          have text := encode_length_ne_zero h
          omega
        · rw [decodeApiLength_cut h.2.2 inside all]
      · obtain ⟨text, rfl⟩ := beyond
        rw [decodeApiLength_encode h.2.2]
        dsimp only
        rw [if_pos]
        have fewer := lt_of_le_of_ne begins.length_le fun same => short (begins.eq_of_length same)
        rw [encodeApiWord, @List.length_append _ (encodeApiLength _) (encode _)] at fewer
        exact fewer

/-- A whole sentence is read, with the words before it, and what is left has fuel enough. -/
theorem parseLoop_sentence (h : ∀ word ∈ words, Encodable word)
    (enough : (encodeApiSentence words ++ rest).length ≤ fuel) :
    ∃ left, rest.length ≤ left ∧
      parseLoop fuel before (encodeApiSentence words ++ rest) = (before ++ words) :: parseLoop left [] rest := by
  induction words generalizing before fuel with
  | nil =>
      obtain ⟨left, rfl⟩ : ∃ left, fuel = left + 1 := Nat.exists_eq_add_of_le' (Nat.le_trans (Nat.le_add_left 1 _) enough)
      refine ⟨left, Nat.le_of_succ_le_succ enough, ?_⟩
      rw [List.append_nil]
      exact parseLoop_end
  | cons word words ih =>
      have first := h word (List.mem_cons_self ..)
      rw [encodeApiSentence, List.flatMap_cons, List.append_assoc, List.append_assoc,
        ← List.append_assoc (words.flatMap _)] at enough ⊢
      rw [List.length_append] at enough
      have some : (encodeApiWord word).length ≠ 0 := by
        have text := encode_length_ne_zero first
        rw [encodeApiWord, List.length_append]
        omega
      obtain ⟨more, rfl⟩ : ∃ more, fuel = more + 1 := Nat.exists_eq_add_of_le' (by omega)
      rw [parseLoop_word first]
      have fits : (encodeApiSentence words ++ rest).length ≤ more := by
        rw [encodeApiSentence]
        omega
      obtain ⟨left, fits, read⟩ := @ih more (before ++ [word])
        (fun word member => h word (List.mem_cons_of_mem _ member)) fits
      refine ⟨left, fits, ?_⟩
      rw [encodeApiSentence] at read
      rw [read, List.append_assoc, List.singleton_append]

/-- A sentence that is cut is left for later, whatever words of it are there. -/
theorem parseLoop_sentence_cut (h : ∀ word ∈ words, Encodable word) (begins : cut <+: encodeApiSentence words)
    (short : cut ≠ encodeApiSentence words) : parseLoop fuel before cut = [] := by
  induction words generalizing before fuel cut with
  | nil =>
      have empty : cut = [] := by
        rcases List.prefix_cons_iff.mp begins with empty | ⟨tail, rfl, nothing⟩
        · exact empty
        · exact absurd (by rw [List.prefix_nil.mp nothing]; rfl) short
      rw [empty]
      cases fuel <;> rfl
  | cons word words ih =>
      have first := h word (List.mem_cons_self ..)
      rw [encodeApiSentence, List.flatMap_cons, List.append_assoc] at begins short
      by_cases read : encodeApiWord word <+: cut
      · obtain ⟨tail, rfl⟩ := read
        cases fuel with
        | zero => rfl
        | succ fuel =>
            rw [parseLoop_word first]
            refine ih (fun word member => h word (List.mem_cons_of_mem _ member))
              ((List.prefix_append_right_inj _).mp begins) fun all => short ?_
            rw [all, encodeApiSentence]
      · have inside := (List.prefix_or_prefix_of_prefix begins (List.prefix_append _ _)).resolve_right read
        exact parseLoop_cut first inside fun all => read (all ▸ List.prefix_refl _)

theorem parseApiSentences_cut {sentences : List (List String)} {further : List String}
    (h : ∀ words ∈ sentences, ∀ word ∈ words, Encodable word) (last : ∀ word ∈ further, Encodable word)
    (begins : cut <+: encodeApiSentence further) (short : cut ≠ encodeApiSentence further) :
    parseApiSentences (sentences.flatMap encodeApiSentence ++ cut) = sentences := by
  have read : ∀ fuel, (sentences.flatMap encodeApiSentence ++ cut).length ≤ fuel →
      parseLoop fuel [] (sentences.flatMap encodeApiSentence ++ cut) = sentences := by
    induction sentences with
    | nil => exact fun fuel _ => parseLoop_sentence_cut last begins short
    | cons words sentences ih =>
        intro fuel enough
        rw [List.flatMap_cons, List.append_assoc] at enough ⊢
        obtain ⟨left, fits, whole⟩ := @parseLoop_sentence _ words [] _ (h words (List.mem_cons_self ..)) enough
        rw [whole, ih (fun words member => h words (List.mem_cons_of_mem _ member)) left fits, List.nil_append]
  exact read _ (Nat.le_refl _)

inductive ApiLoginResult
  | done
  | trap (message : String)
  | fatal (message : String)
  deriving DecidableEq

def messageOf (sentence : List String) : String :=
  match sentence.findSome? (Text.after "=message=") with
  | some message => message
  | none => Text.join " " (sentence.drop 1)

def classifyLoginReply (sentences : List (List String)) : Option ApiLoginResult :=
  match sentences.find? (·.head? = some "!fatal") with
  | some fatal => some (.fatal (messageOf fatal))
  | none =>
      if !sentences.any (·.head? = some "!done") then none
      else
        match sentences.find? (·.head? = some "!trap") with
        | some trap => some (.trap (messageOf trap))
        | none => some .done

inductive Event
  | connect
  | data (chunk : List UInt8)
  | error (e : PlainError)
  | close
  | timer

structure State where
  sent : List UInt8 := []
  received : List UInt8 := []
  settled : Option (Except PlainError ApiLoginResult) := none

def State.finish (s : State) (result : Except PlainError ApiLoginResult) : State :=
  { s with settled := s.settled.or (some result) }

def next (user password : String) (s : State) : Event → State
  | .connect =>
      { s with
        sent := s.sent ++ encodeApiSentence ["/login", s!"=name={user}", s!"=password={password}"] }
  | .data chunk =>
      let s := { s with received := s.received ++ chunk }
      match classifyLoginReply (parseApiSentences s.received) with
      | some result => s.finish (.ok result)
      | none => s
  | .error e => s.finish (.error e)
  | .close => s.finish (.error { message := "closed before reply" })
  | .timer => s.finish (.error { message := "apiLogin timeout" })

def apiLogin (user password : String) (events : List Event) : State := events.foldl (next user password) {}

/-- The first word of a sentence that ends a reply. -/
def Ends (sentence : List String) : Prop := sentence.head? = some "!done" ∨ sentence.head? = some "!fatal"

instance (sentence : List String) : Decidable (Ends sentence) := inferInstanceAs (Decidable (_ ∨ _))

variable {user password : String} {front : List (List String)}
  {last : List String} {s : State}

/-- What stands before a point of the encoding is whole sentences and a cut one, unless it is all. -/
theorem prefix_flatMap {α β : Type*} {f : α → List β} {l : List α} {start : List β} (h : start <+: l.flatMap f)
    (short : start ≠ l.flatMap f) :
    ∃ front x back cut, l = front ++ x :: back ∧ start = front.flatMap f ++ cut ∧ cut <+: f x ∧ cut ≠ f x := by
  induction l generalizing start with
  | nil => exact absurd (List.prefix_nil.mp h) short
  | cons x l ih =>
      rw [List.flatMap_cons] at h short
      by_cases read : f x <+: start
      · obtain ⟨tail, rfl⟩ := read
        obtain ⟨front, y, back, cut, rfl, rfl, begins, cuts⟩ := ih ((List.prefix_append_right_inj _).mp h)
          fun all => short (by rw [all])
        exact ⟨x :: front, y, back, cut, rfl, by rw [List.flatMap_cons, List.append_assoc], begins, cuts⟩
      · have inside := (List.prefix_or_prefix_of_prefix h (List.prefix_append _ _)).resolve_right read
        exact ⟨[], x, l, start, rfl, rfl, inside, fun all => read (all ▸ List.prefix_refl _)⟩

theorem classifyLoginReply_open (h : ∀ sentence ∈ front, ¬ Ends sentence) : classifyLoginReply front = none := by
  have fatal : front.find? (·.head? = some "!fatal") = none :=
    List.find?_eq_none.mpr fun sentence member is => h sentence member (.inr (of_decide_eq_true is))
  have done : front.any (·.head? = some "!done") = false :=
    List.any_eq_false.mpr fun sentence member is => h sentence member (.inl (of_decide_eq_true is))
  rw [classifyLoginReply, fatal, done]
  rfl

theorem classifyLoginReply_ends (h : Ends last) : ∃ result, classifyLoginReply (front ++ [last]) = some result := by
  unfold classifyLoginReply
  split
  · exact ⟨_, rfl⟩
  · rename_i open_
    have done : (front ++ [last]).any (·.head? = some "!done") = true := by
      refine List.any_eq_true.mpr ⟨last, List.mem_concat_self, decide_eq_true ?_⟩
      refine h.resolve_right fun fatal => ?_
      exact List.find?_eq_none.mp open_ last List.mem_concat_self (decide_eq_true fatal)
    rw [done]
    split
    · rename_i not
      cases not
    · split
      · exact ⟨_, rfl⟩
      · exact ⟨_, rfl⟩

theorem classifyLoginReply_prefix {bytes : List UInt8}
    (h : ∀ words ∈ front ++ [last], ∀ word ∈ words, Encodable word) (only : ∀ sentence ∈ front, ¬ Ends sentence)
    (begins : bytes <+: (front ++ [last]).flatMap encodeApiSentence)
    (short : bytes ≠ (front ++ [last]).flatMap encodeApiSentence) :
    classifyLoginReply (parseApiSentences bytes) = none := by
  obtain ⟨before, next, back, cut, sentences, rfl, inside, cuts⟩ := prefix_flatMap begins short
  rw [sentences] at h
  rw [parseApiSentences_cut (fun words member => h words (List.mem_append_left _ member))
    (h next (List.mem_append_right _ (List.mem_cons_self ..))) inside cuts]
  have earlier : before <+: front := by
    have same := congrArg List.dropLast sentences
    rw [List.dropLast_concat, List.dropLast_append_cons] at same
    exact ⟨_, same.symm⟩
  exact classifyLoginReply_open fun sentence member => only sentence (earlier.subset member)

theorem parseApiSentences_whole {sentences : List (List String)}
    (h : ∀ words ∈ sentences, ∀ word ∈ words, Encodable word) :
    parseApiSentences (sentences.flatMap encodeApiSentence) = sentences := by
  have read := @parseApiSentences_cut [] sentences [] h (fun _ none => nomatch none)
    (List.nil_prefix) (List.cons_ne_nil _ _).symm
  rwa [List.append_nil] at read

theorem next_settled {r : Except PlainError ApiLoginResult} (is : s.settled = some r) (event : Event) :
    (next user password s event).settled = some r := by
  have stays : ∀ s' : State, s'.settled = some r → ∀ r', (s'.finish r').settled = some r := by
    intro s' is r'
    rw [State.finish, is]
    rfl
  cases event with
  | connect => exact is
  | data chunk =>
      rw [next]
      dsimp only
      split
      · exact stays _ is _
      · exact is
  | error e => exact stays s is _
  | close => exact stays s is _
  | timer => exact stays s is _

theorem foldl_settled {r : Except PlainError ApiLoginResult} (is : s.settled = some r) (events : List Event) :
    (events.foldl (next user password) s).settled = some r := by
  induction events generalizing s with
  | nil => exact is
  | cons event events ih => exact ih (next_settled is event)

theorem next_data (chunk : List UInt8) :
    (next user password s (.data chunk)).received = s.received ++ chunk ∧
      (next user password s (.data chunk)).settled =
        s.settled.or ((classifyLoginReply (parseApiSentences (s.received ++ chunk))).map .ok) := by
  rw [next]
  dsimp only
  split
  · rename_i result answers
    rw [answers]
    exact ⟨rfl, rfl⟩
  · rename_i open_
    rw [open_]
    exact ⟨rfl, (Option.or_none).symm⟩

/-- After any pieces: the bytes so far, and an answer as soon as the sentences in them give one. -/
theorem foldl_data (arrived : List (List UInt8)) (whole : List UInt8) (r : ApiLoginResult)
    (answers : classifyLoginReply (parseApiSentences whole) = some r)
    (only : ∀ bytes, bytes <+: whole → bytes ≠ whole → classifyLoginReply (parseApiSentences bytes) = none)
    (s : State) (h : s.settled = if s.received = whole then some (.ok r) else none)
    (begins : s.received ++ arrived.flatten <+: whole) :
    let after := (arrived.map .data).foldl (next user password) s
    after.settled = if s.received ++ arrived.flatten = whole then some (.ok r) else none := by
  induction arrived generalizing s with
  | nil =>
      rw [List.flatten_nil, List.append_nil]
      exact h
  | cons chunk arrived ih =>
      obtain ⟨received, settled⟩ := @next_data user password s chunk
      rw [List.flatten_cons, ← List.append_assoc, ← received] at begins ⊢
      refine ih _ ?_ begins
      have now : s.received ++ chunk <+: whole := by
        rw [← received]
        exact (List.prefix_append _ _).trans begins
      rw [settled, h, received]
      by_cases all : s.received ++ chunk = whole
      · rw [all, answers, if_pos rfl]
        split
        · rfl
        · rfl
      · rw [only _ now all, if_neg all, if_neg]
        · rfl
        · intro already
          exact all (now.eq_of_length_le (by rw [← already, List.length_append]; omega))

/-- What is written is read back, without the sentence that is still coming; and a login has its answer when
the last sentence of the reply is complete, the one that the whole reply gives, wherever the reply was cut. -/
theorem reply_is_read_back :
    (∀ (sentences : List (List String)) (further : List String) (cut : List UInt8),
      (∀ words ∈ sentences, ∀ word ∈ words, Encodable word) → (∀ word ∈ further, Encodable word) →
        cut <+: encodeApiSentence further → cut ≠ encodeApiSentence further →
          parseApiSentences (sentences.flatMap encodeApiSentence ++ cut) = sentences) ∧
      ∀ (front : List (List String)) (last : List String) (whole : List UInt8),
        (∀ words ∈ front ++ [last], ∀ word ∈ words, Encodable word) →
          (∀ sentence ∈ front, ¬ Ends sentence) → Ends last → whole = (front ++ [last]).flatMap encodeApiSentence →
            ∃ result, classifyLoginReply (front ++ [last]) = some result ∧
              ∀ (user password : String) (arrived : List (List UInt8)), arrived.flatten <+: whole →
                (apiLogin user password (.connect :: arrived.map .data)).settled =
                    (if arrived.flatten = whole then some (.ok result) else none) ∧
                  ∀ later, arrived.flatten = whole →
                    (apiLogin user password (.connect :: arrived.map .data ++ later)).settled =
                      some (.ok result) := by
  refine ⟨fun sentences further cut => parseApiSentences_cut, ?_⟩
  rintro front last whole encodable only ends rfl
  obtain ⟨result, answers⟩ := @classifyLoginReply_ends front last ends
  refine ⟨result, answers, fun user password arrived begins => ?_⟩
  have read := parseApiSentences_whole encodable
  have some : (front ++ [last]).flatMap encodeApiSentence ≠ [] := by
    intro none
    rw [none] at read
    exact List.append_ne_nil_of_right_ne_nil front (List.cons_ne_nil last []) read.symm
  have settled := @foldl_data user password arrived _ result (by rw [read]; exact answers)
    (fun bytes => classifyLoginReply_prefix encodable only) (next user password {} .connect)
    (if_neg fun none => some none.symm).symm begins
  refine ⟨settled, fun later all => ?_⟩
  rw [apiLogin, List.foldl_append]
  exact foldl_settled (settled.trans (if_pos all)) later

/-- A refusal in two sentences, cut inside the second. -/
theorem reply_is_read_back_trap :
    let trap := ["!trap", "=message=invalid user name or password (6)"]
    parseApiSentences (encodeApiSentence trap ++ [5, 0x21, 0x64]) = [trap] ∧
      ∃ result, classifyLoginReply [trap, ["!done"]] = some result ∧
        (apiLogin "admin" "" [.connect, .data (encodeApiSentence trap ++ [5, 0x21]),
          .data [0x64, 0x6f, 0x6e, 0x65, 0], .close]).settled = some (.ok result) := by
  intro trap
  have encodable : ∀ words ∈ [trap] ++ [["!done"]], ∀ word ∈ words, Encodable word := by decide
  have read := reply_is_read_back.1 [trap] ["!done"] [5, 0x21, 0x64]
    (fun words member => encodable words (List.mem_append_left _ member))
    (fun word member => encodable _ List.mem_concat_self word member) (by decide) (by decide)
  obtain ⟨result, answers, settles⟩ := reply_is_read_back.2 [trap] ["!done"] _ encodable (by decide) (by decide) rfl
  refine ⟨read, result, answers, ?_⟩
  exact (settles "admin" "" [encodeApiSentence trap ++ [5, 0x21], [0x64, 0x6f, 0x6e, 0x65, 0]] (by decide)).2
    [.close] (by decide)

end Quickchr.ApiLogin
