import Quickchr.Lib.Utf8

/-!
# Base64, and strings of bytes

Three bytes are written with four characters of the alphabet, and the last one or two bytes are
padded. A string whose characters are all below U+0100 stands for bytes: one character, one byte.
-/
namespace Base64

def ALPHABET : List Char := "ABCDEFGHIJKLMNOPQRSTUVWXYZabcdefghijklmnopqrstuvwxyz0123456789+/".toList

def digit (n : ℕ) : Char := ALPHABET.getD n 'A'

def value (c : Char) : Option ℕ :=
  if 'A' ≤ c ∧ c ≤ 'Z' then some (c.toNat - 65)
  else if 'a' ≤ c ∧ c ≤ 'z' then some (c.toNat - 71)
  else if '0' ≤ c ∧ c ≤ '9' then some (c.toNat + 4)
  else if c = '+' then some 62
  else if c = '/' then some 63
  else none

def sextets : List UInt8 → List ℕ
  | [] => []
  | [a] => [a.toNat / 4, a.toNat % 4 * 16]
  | [a, b] => [a.toNat / 4, a.toNat % 4 * 16 + b.toNat / 16, b.toNat % 16 * 4]
  | a :: b :: c :: rest =>
      a.toNat / 4 :: (a.toNat % 4 * 16 + b.toNat / 16) :: (b.toNat % 16 * 4 + c.toNat / 64) ::
        c.toNat % 64 :: sextets rest

/-- The bytes that sextets stand for. Bits that fill no byte are dropped, a single sextet is refused. -/
def octets : List ℕ → Option (List UInt8)
  | [] => some []
  | [_] => none
  | [w, x] => some [UInt8.ofNat (w * 4 + x / 16)]
  | [w, x, y] => some [UInt8.ofNat (w * 4 + x / 16), UInt8.ofNat (x % 16 * 16 + y / 4)]
  | w :: x :: y :: z :: rest =>
      (octets rest).map fun bytes =>
        UInt8.ofNat (w * 4 + x / 16) :: UInt8.ofNat (x % 16 * 16 + y / 4) ::
          UInt8.ofNat (y % 4 * 64 + z) :: bytes

def encode (bytes : List UInt8) : List Char :=
  (sextets bytes).map digit ++ List.replicate ((3 - bytes.length % 3) % 3) '='

def isSpace (c : Char) : Bool := c = ' ' ∨ c = '\t' ∨ c = '\n' ∨ c = '\x0c' ∨ c = '\r'

def unpad (text : List Char) : List Char := if text.getLast? = some '=' then text.dropLast else text

/-- The forgiving decoder: white space is skipped and padding may be missing. -/
def decode (text : List Char) : Option (List UInt8) :=
  let kept := text.filter fun c => !isSpace c
  ((if kept.length % 4 = 0 then unpad (unpad kept) else kept).mapM value).bind octets

theorem digit_facts : ∀ n < 64, value (digit n) = some n ∧ isSpace (digit n) = false ∧ digit n ≠ '=' := by
  decide +kernel

theorem sextets_lt (bytes : List UInt8) : ∀ n ∈ sextets bytes, n < 64 := by
  fun_induction sextets bytes with
  | case1 => exact fun n none => absurd none List.not_mem_nil
  | case2 a =>
      have small := a.toNat_lt
      simp only [List.forall_mem_cons, List.not_mem_nil, false_imp_iff, implies_true, and_true]
      omega
  | case3 a b =>
      have small := a.toNat_lt
      have small' := b.toNat_lt
      simp only [List.forall_mem_cons, List.not_mem_nil, false_imp_iff, implies_true, and_true]
      omega
  | case4 a b c rest ih =>
      have small := a.toNat_lt
      have small' := b.toNat_lt
      have small'' := c.toNat_lt
      simp only [List.forall_mem_cons]
      exact ⟨by omega, by omega, by omega, by omega, ih⟩

theorem length_sextets (bytes : List UInt8) :
    ((sextets bytes).length + (3 - bytes.length % 3) % 3) % 4 = 0 := by
  fun_induction sextets bytes with
  | case1 => rfl
  | case2 a => simp only [List.length_cons, List.length_nil]
  | case3 a b => simp only [List.length_cons, List.length_nil]
  | case4 a b c rest ih =>
      simp only [List.length_cons]
      omega

theorem octets_sextets (bytes : List UInt8) : octets (sextets bytes) = some bytes := by
  have byte : ∀ (a : UInt8) (n : ℕ), n = a.toNat → UInt8.ofNat n = a := by
    rintro a n rfl
    exact UInt8.ofNat_toNat
  fun_induction sextets bytes with
  | case1 => rfl
  | case2 a =>
      have small := a.toNat_lt
      rw [octets, byte a _ (by omega)]
  | case3 a b =>
      have small := a.toNat_lt
      have small' := b.toNat_lt
      rw [octets, byte a _ (by omega), byte b _ (by omega)]
  | case4 a b c rest ih =>
      have small := a.toNat_lt
      have small' := b.toNat_lt
      have small'' := c.toNat_lt
      rw [octets, ih, byte a _ (by omega), byte b _ (by omega), byte c _ (by omega)]
      rfl

theorem mapM_value {l : List ℕ} (h : ∀ n ∈ l, n < 64) : (l.map digit).mapM value = some l := by
  induction l with
  | nil => rfl
  | cons n l ih =>
      rw [List.forall_mem_cons] at h
      rw [List.map_cons, List.mapM_cons, (digit_facts n h.1).1, ih h.2]
      rfl

theorem unpad_digits {l : List ℕ} (h : ∀ n ∈ l, n < 64) : unpad (l.map digit) = l.map digit := by
  refine if_neg fun last => ?_
  obtain ⟨n, member, is⟩ := List.mem_map.mp (List.mem_of_getLast? last)
  exact (digit_facts n (h n member)).2.2 is

theorem unpad_concat (text : List Char) : unpad (text ++ ['=']) = text := by
  rw [unpad, if_pos List.getLast?_concat, List.dropLast_concat]

theorem unpad_encode (bytes : List UInt8) : unpad (unpad (encode bytes)) = (sextets bytes).map digit := by
  have digits := unpad_digits (sextets_lt bytes)
  rcases length : (3 - bytes.length % 3) % 3 with _ | _ | _ | n
  · rw [encode, length, List.replicate_zero, List.append_nil, digits, digits]
  · rw [encode, length, List.replicate_one, unpad_concat, digits]
  · rw [encode, length, show List.replicate (0 + 1 + 1) '=' = ['='] ++ ['='] from rfl, ← List.append_assoc,
      unpad_concat, unpad_concat]
  · omega

theorem decode_encode (bytes : List UInt8) : decode (encode bytes) = some bytes := by
  have kept : (encode bytes).filter (fun c => !isSpace c) = encode bytes := by
    refine List.filter_eq_self.mpr fun c member => ?_
    rcases List.mem_append.mp member with written | padding
    · obtain ⟨n, inside, rfl⟩ := List.mem_map.mp written
      rw [(digit_facts n (sextets_lt bytes n inside)).2.1]
      rfl
    · rw [List.eq_of_mem_replicate padding]
      rfl
  have whole : (encode bytes).length % 4 = 0 := by
    rw [encode, List.length_append, List.length_map, List.length_replicate]
    exact length_sextets bytes
  rw [decode, kept, if_pos whole, unpad_encode, mapM_value (sextets_lt bytes)]
  exact octets_sextets bytes

theorem encode_injective {l bytes : List UInt8} (h : encode l = encode bytes) : l = bytes :=
  Option.some.inj ((decode_encode l).symm.trans (h ▸ decode_encode bytes))

def byteOf (c : Char) : UInt8 := UInt8.ofNat c.toNat

def charOf (b : UInt8) : Char := Char.ofNat b.toNat

/-- `none` where it throws: a character is no byte. -/
def btoa (text : String) : Option String :=
  if text.toList.all fun c => c.toNat < 256 then
    some (String.ofList (encode (text.toList.map byteOf)))
  else none

/-- `none` where it throws: this is no base64. -/
def atob (text : String) : Option String :=
  (decode text.toList).map fun bytes => String.ofList (bytes.map charOf)

theorem charOf_byteOf {c : Char} (h : c.toNat < 256) : charOf (byteOf c) = c := by
  rw [charOf, byteOf, UInt8.toNat_ofNat_of_lt' h, Char.ofNat_toNat]

theorem atob_btoa {text sent : String} (h : btoa text = some sent) : atob sent = some text := by
  obtain ⟨bytes, rfl⟩ := Option.ite_none_right_eq_some.mp h |>.imp id fun is => (Option.some.inj is).symm
  have back : text.toList.map (charOf ∘ byteOf) = text.toList := by
    refine (List.map_congr_left fun c member => ?_).trans (List.map_id _)
    exact charOf_byteOf (of_decide_eq_true (List.all_eq_true.mp bytes c member))
  rw [atob, String.toList_ofList, decode_encode, Option.map_some, List.map_map, back, String.ofList_toList]

/-- Characters of the ASCII range, and no others, are the byte that UTF-8 writes for them. -/
theorem map_byteOf_eq_iff {text : List Char} :
    text.map byteOf = Utf8.encode text ↔ ∀ c ∈ text, c.toNat < 0x80 := by
  constructor
  · intro same
    by_contra other
    obtain ⟨c, outside⟩ := not_forall.mp other
    obtain ⟨member, large⟩ := Classical.not_imp.mp outside
    have more := Utf8.length_lt_encode member (Nat.le_of_not_lt large)
    rw [← same, List.length_map] at more
    exact absurd more (Nat.lt_irrefl _)
  · intro ascii
    induction text with
    | nil => rfl
    | cons c text ih =>
        rw [List.forall_mem_cons] at ascii
        rw [List.map_cons, ih ascii.2, Utf8.encode, Utf8.encode, List.flatMap_cons,
          Utf8.encodeChar_ascii ascii.1]
        rfl

def Ascii (text : String) : Prop := ∀ c ∈ text.toList, c.toNat < 0x80

theorem all_iff_ascii {text : String} : (text.toList.all fun c => c.toNat < 0x80) = true ↔ Ascii text :=
  List.all_eq_true.trans (forall₂_congr fun _ _ => decide_eq_true_iff)

instance (text : String) : Decidable (Ascii text) := decidable_of_iff _ all_iff_ascii

def ofUtf8 (text : String) : String := String.ofList (encode (Utf8.encode text.toList))

theorem btoa_ascii {text : String} (h : Ascii text) : btoa text = some (ofUtf8 text) := by
  have small : text.toList.all (fun c => c.toNat < 256) = true := by
    refine List.all_eq_true.mpr fun c member => decide_eq_true ?_
    exact Nat.lt_trans (h c member) (by decide)
  rw [btoa, if_pos small, map_byteOf_eq_iff.mpr h]
  rfl

theorem ascii_of_btoa {text : String} (h : btoa text = some (ofUtf8 text)) : Ascii text := by
  obtain ⟨-, written⟩ := Option.ite_none_right_eq_some.mp h
  exact map_byteOf_eq_iff.mp (encode_injective (String.ofList_injective (Option.some.inj written)))

/-- `btoa` writes the UTF-8 of a text just when the text is ASCII. -/
theorem btoa_eq_iff {text : String} : btoa text = some (ofUtf8 text) ↔ Ascii text :=
  ⟨ascii_of_btoa, btoa_ascii⟩

end Base64
