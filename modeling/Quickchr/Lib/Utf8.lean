import Quickchr.Lib.Text

/-!
# UTF-8 that may be cut

Bytes are decoded one at a time. What is no character becomes U+FFFD, one for each longest piece
that a character could have begun with. A text that is decoded piece by piece is the whole text as
long as no piece begins inside a character.
-/
namespace Utf8

def REPLACEMENT : Char := '\ufffd'

/-- A character that has begun, with the bounds of its next byte. -/
structure Pending where
  needed : ℕ
  point : ℕ
  lower : ℕ
  upper : ℕ
  low : 0x80 ≤ lower
  high : upper ≤ 0xbf
  /-- It is not one that a single byte would do for. -/
  long : if needed = 1 then 2 ≤ point else 1 ≤ point ∨ 0x90 ≤ lower

def lead (b : UInt8) : Option Pending × List Char :=
  if b.toNat < 0x80 then (none, [Char.ofNat b.toNat])
  else if two : 0xc2 ≤ b.toNat ∧ b.toNat ≤ 0xdf then
    (some
      { needed := 1, point := b.toNat % 32, lower := 0x80, upper := 0xbf
        low := Nat.le_refl _, high := Nat.le_refl _, long := by rw [if_pos rfl]; omega }, [])
  else if three : 0xe0 ≤ b.toNat ∧ b.toNat ≤ 0xef then
    (some
      { needed := 2, point := b.toNat % 16
        lower := if b.toNat = 0xe0 then 0xa0 else 0x80
        upper := if b.toNat = 0xed then 0x9f else 0xbf
        low := by split <;> omega, high := by split <;> omega
        long := by rw [if_neg (by decide)]; split <;> omega }, [])
  else if four : 0xf0 ≤ b.toNat ∧ b.toNat ≤ 0xf4 then
    (some
      { needed := 3, point := b.toNat % 8
        lower := if b.toNat = 0xf0 then 0x90 else 0x80
        upper := if b.toNat = 0xf4 then 0x8f else 0xbf
        low := by split <;> omega, high := by split <;> omega
        long := by rw [if_neg (by decide)]; split <;> omega }, [])
  else (none, [REPLACEMENT])

def step : Option Pending → UInt8 → Option Pending × List Char
  | none, b => lead b
  | some p, b =>
      if next : p.lower ≤ b.toNat ∧ b.toNat ≤ p.upper then
        let point := p.point * 64 + b.toNat % 64
        if last : p.needed = 1 then (none, [Char.ofNat point])
        else
          (some
            { needed := p.needed - 1, point, lower := 0x80, upper := 0xbf
              low := Nat.le_refl _, high := Nat.le_refl _
              long := by
                have long := p.long
                have low := p.low
                have high := p.high
                rw [if_neg last] at long
                split <;> omega }, [])
      -- The byte may begin the next character.
      else ((lead b).1, REPLACEMENT :: (lead b).2)

def run : Option Pending → List UInt8 → List Char
  | none, [] => []
  | some _, [] => [REPLACEMENT]
  | s, b :: bs => (step s b).2 ++ run (step s b).1 bs

def decode (bytes : List UInt8) : List Char := run none bytes

def encode (text : List Char) : List UInt8 := text.flatMap String.utf8EncodeChar

def isContinuation (b : UInt8) : Bool := 0x80 ≤ b.toNat ∧ b.toNat ≤ 0xbf

variable {b : UInt8} {bs l : List UInt8} {c : Char} {text : List Char}

theorem run_cons (s : Option Pending) : run s (b :: bs) = (step s b).2 ++ run (step s b).1 bs := by
  cases s <;> rfl

theorem step_some (p : Pending) (h : isContinuation b = false) :
    step (some p) b = ((lead b).1, REPLACEMENT :: (lead b).2) := by
  have outside : ¬ (p.lower ≤ b.toNat ∧ b.toNat ≤ p.upper) := by
    have low := p.low
    have high := p.high
    have other := of_decide_eq_false h
    omega
  rw [step, dif_neg outside]

/-- What stands before a byte that continues nothing is decoded by itself. -/
theorem run_append (s : Option Pending) (h : isContinuation b = false) :
    run s (l ++ b :: bs) = run s l ++ decode (b :: bs) := by
  induction l generalizing s with
  | nil =>
      cases s with
      | none => rfl
      | some p =>
          rw [List.nil_append, run_cons, step_some p h, decode, run_cons]
          rfl
  | cons a l ih => rw [List.cons_append, run_cons, run_cons, ih, List.append_assoc]

theorem decode_append (h : ∀ b, bs.head? = some b → isContinuation b = false) :
    decode (l ++ bs) = decode l ++ decode bs := by
  cases bs with
  | nil => rw [List.append_nil]; exact (List.append_nil _).symm
  | cons b bs => exact run_append none (h b rfl)

theorem decode_marker : decode (0xff :: bs) = REPLACEMENT :: decode bs := rfl

theorem decode_newline : decode (0x0a :: bs) = '\n' :: decode bs := rfl

theorem run_lead (h : 0xc2 ≤ b.toNat ∧ b.toNat ≤ 0xf4) :
    ∃ p : Pending, (∀ bs, decode (b :: bs) = run (some p) bs) ∧
      (b.toNat ≤ 0xdf → p.needed = 1 ∧ p.point = b.toNat % 32 ∧ p.lower = 0x80 ∧ p.upper = 0xbf) ∧
      (0xe0 ≤ b.toNat ∧ b.toNat ≤ 0xef → p.needed = 2 ∧ p.point = b.toNat % 16 ∧
        p.lower = (if b.toNat = 0xe0 then 0xa0 else 0x80) ∧
        p.upper = if b.toNat = 0xed then 0x9f else 0xbf) ∧
      (0xf0 ≤ b.toNat → p.needed = 3 ∧ p.point = b.toNat % 8 ∧
        p.lower = (if b.toNat = 0xf0 then 0x90 else 0x80) ∧
        p.upper = if b.toNat = 0xf4 then 0x8f else 0xbf) := by
  have begun : ∃ p, lead b = (some p, []) ∧
      (b.toNat ≤ 0xdf → p.needed = 1 ∧ p.point = b.toNat % 32 ∧ p.lower = 0x80 ∧ p.upper = 0xbf) ∧
      (0xe0 ≤ b.toNat ∧ b.toNat ≤ 0xef → p.needed = 2 ∧ p.point = b.toNat % 16 ∧
        p.lower = (if b.toNat = 0xe0 then 0xa0 else 0x80) ∧
        p.upper = if b.toNat = 0xed then 0x9f else 0xbf) ∧
      (0xf0 ≤ b.toNat → p.needed = 3 ∧ p.point = b.toNat % 8 ∧
        p.lower = (if b.toNat = 0xf0 then 0x90 else 0x80) ∧
        p.upper = if b.toNat = 0xf4 then 0x8f else 0xbf) := by
    unfold lead
    rw [if_neg (by omega)]
    split
    · exact ⟨_, rfl, fun _ => ⟨rfl, rfl, rfl, rfl⟩, fun _ => by omega, fun _ => by omega⟩
    · split
      · exact ⟨_, rfl, fun _ => by omega, fun _ => ⟨rfl, rfl, rfl, rfl⟩, fun _ => by omega⟩
      · rw [dif_pos (by omega)]
        exact ⟨_, rfl, fun _ => by omega, fun _ => by omega, fun _ => ⟨rfl, rfl, rfl, rfl⟩⟩
  obtain ⟨p, leads, numbers⟩ := begun
  refine ⟨p, fun bs => ?_, numbers⟩
  rw [decode, run_cons, step, leads]
  rfl

theorem run_more {p : Pending} (h : p.lower ≤ b.toNat ∧ b.toNat ≤ p.upper) (more : p.needed ≠ 1) :
    ∃ p' : Pending, (∀ bs, run (some p) (b :: bs) = run (some p') bs) ∧ p'.needed = p.needed - 1 ∧
      p'.point = p.point * 64 + b.toNat % 64 ∧ p'.lower = 0x80 ∧ p'.upper = 0xbf := by
  refine ⟨{ needed := p.needed - 1, point := p.point * 64 + b.toNat % 64, lower := 0x80, upper := 0xbf
            low := Nat.le_refl _, high := Nat.le_refl _, long := ?_ }, fun bs => ?_, rfl, rfl, rfl, rfl⟩
  · have long := p.long
    have low := p.low
    have high := p.high
    rw [if_neg more] at long
    split <;> omega
  · rw [run_cons, step, dif_pos h]
    dsimp only
    rw [dif_neg more]
    rfl

theorem run_last {p : Pending} (h : p.lower ≤ b.toNat ∧ b.toNat ≤ p.upper) (last : p.needed = 1) :
    run (some p) (b :: bs) = Char.ofNat (p.point * 64 + b.toNat % 64) :: decode bs := by
  rw [run_cons, step, dif_pos h]
  dsimp only
  rw [dif_pos last]
  rfl

/-- A character that is written out is read back, whatever follows. -/
theorem encodeChar_append (c : Char) : decode (String.utf8EncodeChar c ++ bs) = c :: decode bs := by
  have byte : ∀ n < 256, (UInt8.ofNat n).toNat = n := fun n small => UInt8.toNat_ofNat_of_lt' small
  have char : Char.ofNat c.val.toNat = c := Char.ofNat_toNat c
  have valid : c.val.toNat < 0xd800 ∨ 0xdfff < c.val.toNat ∧ c.val.toNat < 0x110000 := c.valid
  generalize point : c.val.toNat = v at char valid
  unfold String.utf8EncodeChar
  simp only [point]
  split
  · have single := byte v (by omega)
    rw [List.singleton_append, decode, run_cons, step, lead, if_pos (by omega), single, char]
    rfl
  · split
    · have first := byte (v / 64 % 0x20 + 0xc0) (by omega)
      have second := byte (v % 0x40 + 0x80) (by omega)
      obtain ⟨p, begun, two, -⟩ := run_lead (b := UInt8.ofNat (v / 64 % 0x20 + 0xc0)) (by omega)
      obtain ⟨needed, bits, lower, upper⟩ := two (by omega)
      rw [List.cons_append, begun, List.cons_append, run_last (by omega) needed, bits]
      have whole : (UInt8.ofNat (v / 64 % 0x20 + 0xc0)).toNat % 32 * 64 +
          (UInt8.ofNat (v % 0x40 + 0x80)).toNat % 64 = v := by omega
      rw [whole, char]
      rfl
    · split
      · have first := byte (v / 4096 % 0x10 + 0xe0) (by omega)
        have second := byte (v / 64 % 0x40 + 0x80) (by omega)
        have third := byte (v % 0x40 + 0x80) (by omega)
        obtain ⟨p, begun, -, three, -⟩ := run_lead (b := UInt8.ofNat (v / 4096 % 0x10 + 0xe0)) (by omega)
        obtain ⟨needed, bits, lower, upper⟩ := three (by omega)
        obtain ⟨p', next, needed', bits', lower', upper'⟩ :=
          run_more (p := p) (b := UInt8.ofNat (v / 64 % 0x40 + 0x80)) (by split at lower <;> split at upper <;> omega)
            (by omega)
        rw [List.cons_append, begun, List.cons_append, next, List.cons_append,
          run_last (by omega) (by omega), bits', bits]
        have whole : ((UInt8.ofNat (v / 4096 % 0x10 + 0xe0)).toNat % 16 * 64 +
            (UInt8.ofNat (v / 64 % 0x40 + 0x80)).toNat % 64) * 64 +
              (UInt8.ofNat (v % 0x40 + 0x80)).toNat % 64 = v := by omega
        rw [whole, char]
        rfl
      · have first := byte (v / 262144 % 0x08 + 0xf0) (by omega)
        have second := byte (v / 4096 % 0x40 + 0x80) (by omega)
        have third := byte (v / 64 % 0x40 + 0x80) (by omega)
        have fourth := byte (v % 0x40 + 0x80) (by omega)
        obtain ⟨p, begun, -, -, four⟩ := run_lead (b := UInt8.ofNat (v / 262144 % 0x08 + 0xf0)) (by omega)
        obtain ⟨needed, bits, lower, upper⟩ := four (by omega)
        obtain ⟨p', next, needed', bits', lower', upper'⟩ :=
          run_more (p := p) (b := UInt8.ofNat (v / 4096 % 0x40 + 0x80))
            (by split at lower <;> split at upper <;> omega) (by omega)
        obtain ⟨p'', next', needed'', bits'', lower'', upper''⟩ :=
          run_more (p := p') (b := UInt8.ofNat (v / 64 % 0x40 + 0x80)) (by omega) (by omega)
        rw [List.cons_append, begun, List.cons_append, next, List.cons_append, next', List.cons_append,
          run_last (by omega) (by omega), bits'', bits', bits]
        have whole : (((UInt8.ofNat (v / 262144 % 0x08 + 0xf0)).toNat % 8 * 64 +
            (UInt8.ofNat (v / 4096 % 0x40 + 0x80)).toNat % 64) * 64 +
              (UInt8.ofNat (v / 64 % 0x40 + 0x80)).toNat % 64) * 64 +
                (UInt8.ofNat (v % 0x40 + 0x80)).toNat % 64 = v := by omega
        rw [whole, char]
        rfl

theorem decode_encode_append : decode (encode text ++ bs) = text ++ decode bs := by
  induction text with
  | nil => rfl
  | cons c text ih =>
      rw [encode, List.flatMap_cons, List.append_assoc, encodeChar_append]
      exact congrArg (c :: ·) ih

theorem decode_encode : decode (encode text) = text := by
  have whole := @decode_encode_append [] text
  rwa [List.append_nil, show decode [] = [] from rfl, List.append_nil] at whole

theorem head_encode (h : (encode text).head? = some b) : isContinuation b = false := by
  cases text with
  | nil => cases h
  | cons c text =>
      rw [encode, List.flatMap_cons] at h
      have byte : ∀ n < 256, (UInt8.ofNat n).toNat = n := fun n small => UInt8.toNat_ofNat_of_lt' small
      have first : ∀ n < 256, (n < 0x80 ∨ 0xbf < n) → UInt8.ofNat n = b → isContinuation b = false := by
        rintro n small outside rfl
        rw [isContinuation, byte n small]
        exact decide_eq_false (by omega)
      unfold String.utf8EncodeChar at h
      dsimp only at h
      split at h
      · exact first _ (by omega) (by omega) (Option.some.inj h)
      · split at h
        · exact first _ (by omega) (by omega) (Option.some.inj h)
        · split at h
          · exact first _ (by omega) (by omega) (Option.some.inj h)
          · exact first _ (by omega) (by omega) (Option.some.inj h)

theorem newline_of_mem_encode (h : 0x0a ∈ encode text) : '\n' ∈ text := by
  obtain ⟨c, member, byte⟩ := List.mem_flatMap.mp h
  have value : ∀ n < 256, 0x0a = UInt8.ofNat n → n = 10 := by
    intro n small same
    have value := congrArg UInt8.toNat same
    rw [UInt8.toNat_ofNat_of_lt' small] at value
    exact value.symm
  have other : ∀ n < 256, 0x80 ≤ n → 0x0a ≠ UInt8.ofNat n := fun n small large same => by
    have is := value n small same
    omega
  have newline : c.val.toNat = 10 := by
    unfold String.utf8EncodeChar at byte
    dsimp only at byte
    split at byte
    · exact value _ (by omega) (List.mem_singleton.mp byte)
    · exfalso
      revert byte
      rw [imp_false]
      split
      · refine List.not_mem_cons_of_ne_of_not_mem (other _ (by omega) (by omega)) ?_
        exact fun last => other _ (by omega) (by omega) (List.mem_singleton.mp last)
      · split
        · refine List.not_mem_cons_of_ne_of_not_mem (other _ (by omega) (by omega)) ?_
          refine List.not_mem_cons_of_ne_of_not_mem (other _ (by omega) (by omega)) ?_
          exact fun last => other _ (by omega) (by omega) (List.mem_singleton.mp last)
        · refine List.not_mem_cons_of_ne_of_not_mem (other _ (by omega) (by omega)) ?_
          refine List.not_mem_cons_of_ne_of_not_mem (other _ (by omega) (by omega)) ?_
          refine List.not_mem_cons_of_ne_of_not_mem (other _ (by omega) (by omega)) ?_
          exact fun last => other _ (by omega) (by omega) (List.mem_singleton.mp last)
  have is : c = '\n' := Char.ext (UInt32.toNat_inj.mp newline)
  rwa [← is]

theorem newline_of_mem_run {s : Option Pending} (h : '\n' ∈ run s bs) : 0x0a ∈ bs := by
  have ofNat : ∀ n, Char.ofNat n = '\n' → n = 10 := by
    intro n same
    by_cases valid : n.isValidChar
    · have is : (Char.ofNat n).toNat = n := by
        rw [Char.ofNat, dif_pos valid]
        rfl
      rw [← is, same]
      rfl
    · rw [Char.ofNat, dif_neg valid] at same
      exact absurd same (by decide)
  have leads : ∀ b, '\n' ∈ (lead b).2 → b = 0x0a := by
    intro b member
    unfold lead at member
    split at member
    · exact UInt8.toNat_inj.mp (ofNat _ (List.mem_singleton.mp member).symm)
    · split at member
      · cases member
      · split at member
        · cases member
        · split at member
          · cases member
          · exact absurd (List.mem_singleton.mp member) (by decide)
  induction bs generalizing s with
  | nil =>
      cases s with
      | none => cases h
      | some p => exact absurd (List.mem_singleton.mp h) (by decide)
  | cons b bs ih =>
      rw [run_cons, List.mem_append] at h
      rcases h with now | later
      · rw [List.mem_cons]
        left
        cases s with
        | none => exact (leads b now).symm
        | some p =>
            by_cases next : p.lower ≤ b.toNat ∧ b.toNat ≤ p.upper
            · rw [step, dif_pos next] at now
              dsimp only at now
              by_cases last : p.needed = 1
              · rw [dif_pos last, List.mem_singleton] at now
                have large := p.long
                rw [if_pos last] at large
                have small := ofNat _ now.symm
                omega
              · rw [dif_neg last] at now
                cases now
            · rw [step, dif_neg next] at now
              rcases List.mem_cons.mp now with is | now
              · exact absurd is (by decide)
              · exact (leads b now).symm
      · exact List.mem_cons_of_mem _ (ih later)

theorem splitOn_decode (bytes : List UInt8) : (decode bytes).splitOn '\n' = (bytes.splitOn 0x0a).map decode := by
  have joined : ∀ pieces : List (List UInt8), pieces ≠ [] → (∀ piece ∈ pieces, 0x0a ∉ piece) →
      (decode ([0x0a].intercalate pieces)).splitOn '\n' = pieces.map decode := by
    intro pieces some clean
    induction pieces with
    | nil => exact absurd rfl some
    | cons piece pieces ih =>
        obtain ⟨first, others⟩ := List.forall_mem_cons.mp clean
        have line : '\n' ∉ decode piece := fun member => first (newline_of_mem_run member)
        cases pieces with
        | nil => rw [List.intercalate_singleton, List.splitOn_eq_singleton line, List.map_singleton]
        | cons next pieces =>
            have more : next :: pieces ≠ [] := List.cons_ne_nil _ _
            have begins : ∀ b, (0x0a :: [0x0a].intercalate (next :: pieces)).head? = Option.some b →
                isContinuation b = false := by
              rintro b ⟨⟩
              rfl
            rw [List.intercalate_cons_of_ne_nil more, List.append_assoc, List.singleton_append, decode_append begins,
              decode_newline, List.splitOn_append_cons_self_of_not_mem line, ih more others]
            rfl
  have whole := joined (bytes.splitOn 0x0a) (List.splitOn_ne_nil _ _)
    fun piece member => Text.not_mem_of_mem_splitOn member
  rwa [List.intercalate_splitOn] at whole

section

variable {α : Type*}

/-- The first elements and the rest, both in the pieces that they came in. -/
def cut : ℕ → List (List α) → List (List α) × List (List α)
  | _, [] => ([], [])
  | n, piece :: pieces =>
      if n = 0 then ([], piece :: pieces)
      else if piece.length ≤ n then
        let rest := cut (n - piece.length) pieces
        (piece :: rest.1, rest.2)
      else ([piece.take n], piece.drop n :: pieces)

theorem cut_zero (pieces : List (List α)) : cut 0 pieces = ([], pieces) := by
  cases pieces <;> rfl

theorem flatten_cut (n : ℕ) (pieces : List (List α)) :
    (cut n pieces).1.flatten = pieces.flatten.take n ∧
      (cut n pieces).2.flatten = pieces.flatten.drop n := by
  induction pieces generalizing n with
  | nil => exact ⟨List.take_nil.symm, List.drop_nil.symm⟩
  | cons piece pieces ih =>
      unfold cut
      split
      · rename_i zero
        rw [zero]
        exact ⟨rfl, rfl⟩
      · split
        · rename_i short
          have rest := ih (n - piece.length)
          rw [List.flatten_cons, List.flatten_cons, rest.1, rest.2, List.take_append, List.drop_append,
            List.take_of_length_le short, List.drop_of_length_le short]
          exact ⟨rfl, rfl⟩
        · rename_i long
          have inside : n ≤ piece.length := by omega
          rw [List.flatten_cons, List.flatten_cons, List.take_append_of_le_length inside,
            List.drop_append_of_le_length inside]
          exact ⟨List.append_nil _, rfl⟩

end

def decodeAll (pieces : List (List UInt8)) : List Char := pieces.flatMap decode

theorem decodeAll_cut {n : ℕ} {pieces : List (List UInt8)}
    (h : ∀ b, (pieces.flatten.drop n).head? = some b → isContinuation b = false) :
    decodeAll pieces = decodeAll (cut n pieces).1 ++ decodeAll (cut n pieces).2 := by
  induction pieces generalizing n with
  | nil => rfl
  | cons piece pieces ih =>
      unfold cut
      split
      · rfl
      · split
        · rename_i short
          rw [List.flatten_cons, List.drop_append, List.drop_of_length_le short, List.nil_append] at h
          rw [decodeAll, List.flatMap_cons]
          dsimp only
          rw [decodeAll, List.flatMap_cons, List.append_assoc]
          exact congrArg (decode piece ++ ·) (ih h)
        · rename_i long
          have inside : n ≤ piece.length := by omega
          have first : ∀ b, (piece.drop n).head? = some b → isContinuation b = false := by
            intro b is
            refine h b ?_
            rw [List.flatten_cons, List.drop_append_of_le_length inside, List.head?_append, is]
            rfl
          rw [decodeAll, decodeAll, decodeAll, List.flatMap_cons, List.flatMap_singleton,
            List.flatMap_cons, ← List.append_assoc, ← decode_append first, List.take_append_drop]

theorem decodeAll_eq {pieces : List (List UInt8)}
    (h : ∀ piece ∈ pieces.tail, ∀ b, piece.head? = some b → isContinuation b = false) :
    decodeAll pieces = decode pieces.flatten := by
  induction pieces with
  | nil => rfl
  | cons piece pieces ih =>
      have flat : ∀ {later : List (List UInt8)},
          (∀ piece ∈ later, ∀ b, piece.head? = some b → isContinuation b = false) →
            ∀ b, later.flatten.head? = some b → isContinuation b = false := by
        intro later all b is
        induction later with
        | nil => cases is
        | cons piece later ih =>
            rw [List.forall_mem_cons] at all
            rw [List.flatten_cons, List.head?_append] at is
            cases own : piece.head? with
            | none => rw [own] at is; exact ih all.2 is
            | some b' =>
                rw [own] at is
                exact all.1 b (own.trans is)
      rw [List.flatten_cons, @decode_append pieces.flatten piece (flat h), ← ih fun later member => h later (List.mem_of_mem_tail member)]
      rfl

/-- How many characters begin in the bytes. -/
def starts (bytes : List UInt8) : ℕ := bytes.countP fun b => !isContinuation b

theorem starts_append (l bs : List UInt8) : starts (l ++ bs) = starts l + starts bs := List.countP_append

theorem starts_cons (b : UInt8) (bs : List UInt8) :
    starts (b :: bs) = starts bs + if isContinuation b then 0 else 1 := by
  rw [starts, List.countP_cons, starts]
  cases isContinuation b <;> rfl

/-- A byte that begins a character leaves one behind it or begun. -/
theorem lead_length (b : UInt8) : 1 ≤ (lead b).2.length + if (lead b).1.isSome then 1 else 0 := by
  unfold lead
  split
  · exact Nat.le_add_right 1 _
  · split
    · exact Nat.le_refl 1
    · split
      · exact Nat.le_refl 1
      · split
        · exact Nat.le_refl 1
        · exact Nat.le_add_right 1 _

theorem step_length (s : Option Pending) (b : UInt8) :
    (if isContinuation b then 0 else 1) + (if s.isSome then 1 else 0) ≤
      (step s b).2.length + if (step s b).1.isSome then 1 else 0 := by
  cases s with
  | none =>
      have leads := lead_length b
      rw [step]
      refine Nat.le_trans ?_ leads
      split <;> decide
  | some p =>
      by_cases next : p.lower ≤ b.toNat ∧ b.toNat ≤ p.upper
      · have continues : isContinuation b = true := by
          have low := p.low
          have high := p.high
          exact decide_eq_true (by omega)
        rw [if_pos continues, step, dif_pos next]
        dsimp only
        by_cases last : p.needed = 1
        · rw [dif_pos last]
          exact Nat.le_refl 1
        · rw [dif_neg last]
          exact Nat.le_refl 1
      · have leads := lead_length b
        rw [step, dif_neg next]
        dsimp only
        have one : (if (some p).isSome = true then 1 else 0) = 1 := rfl
        rw [List.length_cons, one]
        split <;> omega

theorem starts_le_run (s : Option Pending) (bytes : List UInt8) :
    starts bytes + (if s.isSome then 1 else 0) ≤ (run s bytes).length := by
  induction bytes generalizing s with
  | nil => cases s <;> exact Nat.le_refl _
  | cons b bs ih =>
      have one := step_length s b
      have rest := ih (step s b).1
      rw [run_cons, List.length_append, starts_cons]
      omega

theorem starts_le_decode (bytes : List UInt8) : starts bytes ≤ (decode bytes).length :=
  starts_le_run none bytes

theorem starts_lt_decode (h : isContinuation b = true) : starts (b :: bs) < (decode (b :: bs)).length := by
  have range : 0x80 ≤ b.toNat ∧ b.toNat ≤ 0xbf := of_decide_eq_true h
  have alone : lead b = (none, [REPLACEMENT]) := by
    unfold lead
    rw [if_neg (by omega), dif_neg (by omega), dif_neg (by omega), dif_neg (by omega)]
  have rest := starts_le_run none bs
  rw [starts_cons, if_pos h, decode, run_cons, step, alone]
  exact Nat.lt_succ_of_le rest

theorem decode_ne_nil (h : l ≠ []) : decode l ≠ [] := by
  obtain ⟨b, bs, rfl⟩ := List.exists_cons_of_ne_nil h
  rw [ne_eq, ← List.length_eq_zero_iff]
  by_cases inside : isContinuation b = true
  · have more := @starts_lt_decode b bs inside
    omega
  · have least := starts_le_decode (b :: bs)
    rw [starts_cons, if_neg inside] at least
    omega

theorem starts_encodeChar (c : Char) : starts (String.utf8EncodeChar c) = 1 := by
  have byte : ∀ n < 256, (UInt8.ofNat n).toNat = n := fun n small => UInt8.toNat_ofNat_of_lt' small
  have begins : ∀ n < 256, (n < 0x80 ∨ 0xbf < n) → isContinuation (UInt8.ofNat n) = false := by
    intro n small outside
    rw [isContinuation, byte n small]
    exact decide_eq_false (by omega)
  have continues : ∀ n, isContinuation (UInt8.ofNat (n % 0x40 + 0x80)) = true := by
    intro n
    rw [isContinuation, byte _ (by omega)]
    exact decide_eq_true (by omega)
  have none : starts [] = 0 := rfl
  unfold String.utf8EncodeChar
  dsimp only
  split
  · rw [starts_cons, none, begins _ (by omega) (by omega)]
    rfl
  · split
    · rw [starts_cons, starts_cons, none, continues, begins _ (by omega) (by omega)]
      rfl
    · split
      · rw [starts_cons, starts_cons, starts_cons, none, continues, continues,
          begins _ (by omega) (by omega)]
        rfl
      · have valid : c.val.toNat < 0xd800 ∨ 0xdfff < c.val.toNat ∧ c.val.toNat < 0x110000 := c.valid
        rw [starts_cons, starts_cons, starts_cons, starts_cons, none, continues, continues, continues,
          begins _ (by omega) (by omega)]
        rfl

theorem starts_encode (text : List Char) : starts (encode text) = text.length := by
  induction text with
  | nil => rfl
  | cons c text ih =>
      rw [encode, List.flatMap_cons, starts_append, starts_encodeChar, List.length_cons, Nat.add_comm]
      exact congrArg (· + 1) ih

theorem encodeChar_ascii (h : c.toNat < 0x80) : String.utf8EncodeChar c = [UInt8.ofNat c.toNat] := by
  unfold String.utf8EncodeChar
  dsimp only
  exact if_pos (Nat.le_of_lt_succ h)

theorem lt_length_encodeChar (h : 0x80 ≤ c.toNat) : 1 < (String.utf8EncodeChar c).length := by
  have multiple : ¬ c.val.toNat ≤ 127 := Nat.not_le_of_lt h
  unfold String.utf8EncodeChar
  dsimp only
  rw [if_neg multiple]
  split
  · exact Nat.lt_add_one 1
  · split
    · exact Nat.lt_add_of_pos_right Nat.two_pos
    · exact Nat.lt_add_of_pos_right (Nat.zero_lt_succ 2)

theorem length_le_encode (text : List Char) : text.length ≤ (encode text).length := by
  rw [← starts_encode]
  exact List.countP_le_length

theorem length_lt_encode (member : c ∈ text) (h : 0x80 ≤ c.toNat) : text.length < (encode text).length := by
  obtain ⟨before, after, rfl⟩ := List.append_of_mem member
  have front := length_le_encode before
  have back := length_le_encode after
  have middle := lt_length_encodeChar h
  rw [encode] at front back ⊢
  rw [List.flatMap_append, List.flatMap_cons, List.length_append, List.length_append, List.length_append,
    List.length_cons]
  omega

theorem starts_le_decodeAll (pieces : List (List UInt8)) :
    starts pieces.flatten ≤ (decodeAll pieces).length := by
  induction pieces with
  | nil => exact Nat.zero_le _
  | cons piece pieces ih =>
      rw [List.flatten_cons, starts_append, decodeAll, List.flatMap_cons, List.length_append]
      exact Nat.add_le_add (starts_le_decode piece) ih

theorem starts_lt_decodeAll {pieces : List (List UInt8)} {piece : List UInt8} (member : piece ∈ pieces)
    (inside : ∃ b, piece.head? = some b ∧ isContinuation b = true) :
    starts pieces.flatten < (decodeAll pieces).length := by
  obtain ⟨before, after, rfl⟩ := List.append_of_mem member
  obtain ⟨b, first, continues⟩ := inside
  obtain ⟨bs, rfl⟩ := List.head?_eq_some_iff.mp first
  have front := starts_le_decodeAll before
  have middle := @starts_lt_decode b bs continues
  have back := starts_le_decodeAll after
  rw [List.flatten_append, List.flatten_cons, starts_append, starts_append, decodeAll, List.flatMap_append,
    List.flatMap_cons, List.length_append, List.length_append]
  exact Nat.add_lt_add_of_le_of_lt front (Nat.add_lt_add_of_lt_of_le middle back)

/-- The pieces of a text are decoded to that text just when none begins inside a character. -/
theorem decodeAll_eq_text_iff {pieces : List (List UInt8)} (whole : pieces.flatten = encode text) :
    decodeAll pieces = text ↔
      ∀ piece ∈ pieces, ∀ b, piece.head? = some b → isContinuation b = false := by
  constructor
  · intro same piece member b first
    by_contra inside
    have more := starts_lt_decodeAll member ⟨b, first, eq_true_of_ne_false inside⟩
    rw [whole, starts_encode, same] at more
    exact absurd more (Nat.lt_irrefl _)
  · intro apart
    rw [decodeAll_eq fun piece member => apart piece (List.mem_of_mem_tail member), whole, decode_encode]

end Utf8
