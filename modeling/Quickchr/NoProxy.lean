import Quickchr.Lib.IpText

/-!
# Proxy exceptions

Which entries of `NO_PROXY` match a host that is an IP address. Entries are compared by number
whatever they look like, but for addresses that end in a dotted quad, which are compared as texts.
-/
namespace Quickchr.Net

open Ip

/-- `/^\d+$/`. -/
def isDigits (text : List Char) : Bool := (Number.digits text).isSome

/-- `Number(text)` of digits; an infinite one, which is above every bound, is `none`. -/
def number (text : List Char) : Option ℕ :=
  (Number.integer (Number.ofString (String.ofList text))).map Int.toNat

/-- One round of the loop of `parseIpv4`. -/
def octet (n : ℕ) (part : List Char) : Option ℕ :=
  if ¬ isDigits part then none
  else
    match number part with
    | none => none
    | some b => if b > 255 then none else some (n * 256 + b)

def parseIpv4 (s : List Char) : Option ℕ :=
  let parts := s.splitOn '.'
  if parts.length ≠ 4 then none else parts.foldlM octet 0

/-- `s.split("::")`. -/
def splitDouble : List Char → List (List Char)
  | ':' :: ':' :: rest => [] :: splitDouble rest
  | c :: rest => (splitDouble rest).modifyHead (c :: ·)
  | [] => [[]]

/-- `/^[0-9a-fA-F]{1,4}$/`, and `Number.parseInt(g, 16)`. -/
def group (g : List Char) : Option ℕ :=
  if g ≠ [] ∧ g.length ≤ 4 ∧ g.all isHex then some (hexValue g) else none

def parseGroups (side : List Char) : Option (List ℕ) :=
  if side = [] then some [] else (side.splitOn ':').mapM group

def parseIpv6 (s : List Char) : Option ℕ :=
  let halves := splitDouble s
  if halves.length > 2 then none
  else
    parseGroups (halves.getD 0 []) >>= fun left =>
      (if halves.length = 2 then parseGroups (halves.getD 1 []) else some []) >>= fun right =>
        if halves.length = 1 ∧ left.length ≠ 8 then none
        else if halves.length = 2 ∧ left.length + right.length > 7 then none
        else
          let groups := left ++ List.replicate (8 - left.length - right.length) 0 ++ right
          some (groups.foldl (fun n g => n <<< 16 ||| g) 0)

/-- `n >>> s` of numbers, which takes the last 32 bits of the one and the last 5 of the other. -/
def unsignedShift (n s : ℕ) : ℕ := (n % 2 ^ 32) >>> (s % 32)

def inCidrBlock (host base bitsText : List Char) : Bool :=
  if ¬ isDigits bitsText then false
  else
    match number bitsText with
    | none => false
    | some bits =>
        if ':' ∈ base then
          if bits > 128 then false
          else
            match parseIpv6 host, parseIpv6 base with
            | some hostNum, some baseNum => hostNum >>> (128 - bits) == baseNum >>> (128 - bits)
            | _, _ => false
        else if bits > 32 then false
        else
          match parseIpv4 host, parseIpv4 base with
          | some hostNum, some baseNum =>
              bits == 0 || unsignedShift hostNum (32 - bits) == unsignedShift baseNum (32 - bits)
          | _, _ => false

/-- `text.replace(/^start/, "")`. -/
def without (start text : List Char) : List Char := (text.dropPrefix? start).getD text

/-- The host of an entry, and its port if there is one; `none` if brackets are not closed or
something else follows them. -/
def entryParts (e : List Char) : Option (List Char × Option (List Char)) :=
  if e.head? = some '[' then
    if ']' ∈ e then
      match (e.dropWhile (· ≠ ']')).tail with
      | [] => some ((e.takeWhile (· ≠ ']')).tail, none)
      | ':' :: entryPort => some ((e.takeWhile (· ≠ ']')).tail, some entryPort)
      | _ => none
    else none
  else if e.count ':' = 1 then
    -- Exactly one colon is `host:port`.
    some (e.takeWhile (· ≠ ':'), some (e.dropWhile (· ≠ ':')).tail)
  else some (e, none)

def portMatches (port : ℕ) : Option (List Char) → Bool
  | none => true
  | some entryPort => isDigits entryPort && number entryPort == some port

/-- The host against the entry's own, once the port is right. -/
def matchesHost (host entryHost : List Char) : Bool :=
  match parseIpv4 entryHost with
  | some entryIpv4 => parseIpv4 host == some entryIpv4
  | none =>
      match parseIpv6 entryHost with
      | some entryIpv6 => parseIpv6 host == some entryIpv6
      | none =>
          let base := without ['.'] (without ['*', '.'] entryHost)
          host == base || ('.' :: base).isSuffixOf host

def matchesNoProxyEntry (host : String) (port : ℕ) (entry : String) : Bool :=
  let e := (Text.toLowerCase entry).toList
  if e = ['*'] then true
  else if '/' ∈ e then
    inCidrBlock host.toList (e.takeWhile (· ≠ '/')) (e.dropWhile (· ≠ '/')).tail
  else
    match entryParts e with
    | none => false
    | some (entryHost, entryPort) => portMatches port entryPort && matchesHost host.toList entryHost

def Port := { n : ℕ // n < 2 ^ 16 }

inductive Entry
  | bare (address : Literal)
  | ported (quad : Quad) (port : Decimal)
  | bracketed (address : Literal) (port : Option Decimal)
  | block (base : Literal) (bits : Decimal) (inside : bits.value ≤ base.address.width)

namespace Entry

def text : Entry → List Char
  | bare l => l.text
  | ported q port => q.text ++ ':' :: port.text
  | bracketed l port => '[' :: l.text ++ ']' :: (port.map (':' :: ·.text)).getD []
  | block l bits _ => l.text ++ '/' :: bits.text

def literal : Entry → Literal
  | bare l => l
  | ported q _ => .v4 q
  | bracketed l _ => l
  | block l _ _ => l

/-- On how many bits the addresses have to agree. -/
def bits : Entry → ℕ
  | block _ bits _ => bits.value
  | entry => entry.literal.address.width

def port : Entry → Option ℕ
  | ported _ port => some port.value
  | bracketed _ port => port.map Decimal.value
  | _ => none

def IsBlock : Entry → Prop
  | block _ _ _ => True
  | _ => False

end Entry

/-- The entry's address is the host's on the bits that count, and so is the port, if given. -/
def Numeric (host : Literal) (port : Port) (entry : Entry) : Prop :=
  host.address.Agree entry.bits entry.literal.address ∧ ∀ p ∈ entry.port, p = port.val

/-- An address with a dotted quad at its end is on one side only if the two differ anyway, or it is
spelled the same on both. -/
def Comparable (host : Literal) (port : Port) (entry : Entry) : Prop :=
  host.Dotted ∨ entry.literal.Dotted →
    ¬ Numeric host port entry ∨ ¬ entry.IsBlock ∧ host.text = entry.literal.text.map Char.toLower

section

variable {d : Decimal} {k : ℕ}

theorem isDigits_text (d : Decimal) : isDigits d.text = true := by
  rw [isDigits, Number.digits, if_pos ⟨d.nonempty, d.digits⟩]
  rfl

theorem number_eq_some_iff (small : k < 2 ^ 53) : number d.text = some k ↔ d.value = k := by
  rw [number, Number.ofString_digits d.nonempty d.digits, ← Decimal.value, Option.map_eq_some_iff]
  constructor
  · rintro ⟨m, is, rfl⟩
    by_cases large : 2 ^ 53 ≤ d.value
    · have least := Number.le_integer_round large is
      omega
    · rw [Number.integer_round (by omega)] at is
      rw [← Option.some.inj is, Int.toNat_natCast]
  · rintro rfl
    exact ⟨d.value, Number.integer_round (by omega), Int.toNat_natCast _⟩

theorem number_text (small : d.value < 2 ^ 53) : number d.text = some d.value :=
  (number_eq_some_iff small).mpr rfl

theorem portMatches_text {port : Port} {given : Option Decimal} :
    portMatches port.val (given.map Decimal.text) = true ↔ ∀ p ∈ given.map Decimal.value, p = port.val := by
  cases given with
  | none => simp only [Option.map_none, portMatches, Option.not_mem_none, false_imp_iff, implies_true]
  | some d =>
      have small : port.val < 2 ^ 53 := lt_trans port.property (by decide)
      rw [Option.map_some, Option.map_some, portMatches, isDigits_text, Bool.true_and, beq_iff_eq,
        number_eq_some_iff small]
      simp only [Option.mem_some_iff, forall_eq']

end

theorem octet_text (n : ℕ) (o : Octet) : octet n o.text = some (n * 256 + o.value) := by
  have small := o.small
  rw [octet, isDigits_text, if_neg (by decide), number_text (by omega)]
  exact if_neg (by omega)

theorem parseIpv4_text (q : Quad) : parseIpv4 q.text = some q.value := by
  have parts : q.text.splitOn '.' = q.octets.map fun o => o.text := by
    refine List.splitOn_intercalate '.' (fun l member dot => ?_) (List.cons_ne_nil _ _)
    obtain ⟨o, -, rfl⟩ := List.mem_map.mp member
    exact absurd (List.all_eq_true.mp o.digits '.' dot) (by decide)
  rw [parseIpv4, parts, Quad.value, Quad.octets]
  simp only [List.map_cons, List.map_nil, List.length_cons, List.length_nil, Nat.reduceAdd, ne_eq,
    not_true_eq_false, if_false, List.foldlM_cons, List.foldlM_nil, octet_text, Option.bind_eq_bind,
    Option.bind_some, Option.pure_def, List.foldl_cons, List.foldl_nil]

theorem Quad.value_lt (q : Quad) : q.value < 2 ^ 32 := by
  have := q.first.small
  have := q.second.small
  have := q.third.small
  have := q.fourth.small
  simp only [Quad.value, Quad.octets, List.foldl_cons, List.foldl_nil]
  omega

theorem octets_digits {parts : List (List Char)} {n m : ℕ} (h : parts.foldlM octet n = some m)
    {part : List Char} (member : part ∈ parts) : part.all Char.isDigit = true := by
  induction parts generalizing n with
  | nil => cases member
  | cons first parts ih =>
      rw [List.foldlM_cons, Option.bind_eq_bind, Option.bind_eq_some_iff] at h
      obtain ⟨next, one, rest⟩ := h
      obtain rfl | later := List.mem_cons.mp member
      · by_contra other
        have no : isDigits part = false := by
          rw [isDigits, Number.digits, if_neg fun digits => other digits.2]
          rfl
        rw [octet, no, if_pos (by decide)] at one
        cases one
      · exact ih rest later

theorem mem_of_parseIpv4 {s : List Char} {n : ℕ} (h : parseIpv4 s = some n) {c : Char} (member : c ∈ s) :
    c.isDigit = true ∨ c = '.' := by
  unfold parseIpv4 at h
  dsimp only at h
  split at h
  · cases h
  · rw [← @List.intercalate_splitOn _ s _ _ '.'] at member
    obtain dot | ⟨part, among, here⟩ := mem_intercalate member
    · exact .inr dot
    · exact .inl (List.all_eq_true.mp (octets_digits h among) c here)

theorem splitDouble_cons {c : Char} (other : c ≠ ':') (t : List Char) :
    splitDouble (c :: t) = (splitDouble t).modifyHead (c :: ·) := by
  rw [splitDouble]
  intro rest is
  exact absurd is other

theorem splitDouble_append {w : List Char} (clean : ':' ∉ w) (t : List Char) :
    splitDouble (w ++ t) = (splitDouble t).modifyHead (w ++ ·) := by
  induction w with
  | nil =>
      rw [List.nil_append]
      cases splitDouble t <;> rfl
  | cons c w ih =>
      rw [List.mem_cons, not_or] at clean
      rw [List.cons_append, splitDouble_cons (Ne.symm clean.1), ih clean.2]
      cases splitDouble t <;> rfl

theorem splitDouble_colon {c : Char} (other : c ≠ ':') (t : List Char) :
    splitDouble (':' :: c :: t) = (splitDouble (c :: t)).modifyHead (':' :: ·) := by
  rw [splitDouble]
  rintro rest - is
  exact absurd (List.cons.inj is).1 other

theorem splitDouble_colons {words : List (List Char)} (clean : ∀ w ∈ words, w ≠ [] ∧ ':' ∉ w)
    {t : List Char} {more : List (List Char)} (start : splitDouble t = [] :: more) :
    splitDouble (colons words ++ t) = colons words :: more := by
  induction words with
  | nil => exact start
  | cons w words ih =>
      rw [List.forall_mem_cons] at clean
      cases words with
      | nil =>
          rw [colons, List.intercalate_singleton, splitDouble_append clean.1.2, start,
            List.modifyHead_cons, List.append_nil]
      | cons v words =>
          have rest := ih clean.2
          obtain ⟨nonempty, free⟩ := clean.2 v List.mem_cons_self
          obtain ⟨c, v, rfl⟩ := List.exists_cons_of_ne_nil nonempty
          rw [List.mem_cons, not_or] at free
          have next : colons ((c :: v) :: words) ++ t = c :: ((colons ((c :: v) :: words) ++ t).tail) := by
            cases words <;> rfl
          rw [colons, List.intercalate_cons_cons, ← colons, List.append_assoc, List.append_assoc,
            splitDouble_append clean.1.2, List.singleton_append, next, splitDouble_colon (Ne.symm free.1),
            ← next, rest]
          simp only [List.modifyHead_cons, List.append_assoc, List.singleton_append]

theorem texts_clean (groups : List Group) : ∀ w ∈ V6.texts groups, w ≠ [] ∧ ':' ∉ w := by
  intro w member
  refine ⟨?_, fun colon => absurd (mem_texts member colon) (by decide)⟩
  obtain ⟨g, -, rfl⟩ := List.mem_map.mp member
  exact g.nonempty

theorem group_text (g : Group) : group g.text = some g.value := if_pos ⟨g.nonempty, g.short, g.hex⟩

theorem parseGroups_colons (groups : List Group) :
    parseGroups (colons (V6.texts groups)) = some (groups.map Group.value) := by
  have each : (V6.texts groups).mapM group = some (groups.map Group.value) := by
    induction groups with
    | nil => rfl
    | cons g groups ih =>
        rw [V6.texts] at ih
        rw [V6.texts, List.map_cons, List.mapM_cons, group_text, ih]
        rfl
  cases groups with
  | nil => rfl
  | cons g groups =>
      have filled : colons (V6.texts (g :: groups)) ≠ [] := by
        obtain ⟨c, rest, is⟩ := List.exists_cons_of_ne_nil g.nonempty
        cases groups with
        | nil =>
            rw [V6.texts, List.map_singleton, colons, List.intercalate_singleton]
            exact g.nonempty
        | cons f groups =>
            rw [V6.texts, List.map_cons, List.map_cons, colons, List.intercalate_cons_cons, is]
            exact List.cons_ne_nil _ _
      have pieces : (colons (V6.texts (g :: groups))).splitOn ':' = V6.texts (g :: groups) :=
        List.splitOn_intercalate ':' (fun w member => (texts_clean _ w member).2) (List.cons_ne_nil _ _)
      rw [parseGroups, if_neg filled, pieces, each]

theorem foldl_shift {l : List ℕ} (small : ∀ g ∈ l, g < 2 ^ 16) :
    l.foldl (fun n g => n <<< 16 ||| g) 0 = join l := by
  refine List.foldl_ext _ _ 0 fun n g member => ?_
  rw [← Nat.shiftLeft_add_eq_or_of_lt (small g member), Nat.shiftLeft_eq]

theorem groups_of_plain {a : V6} (plain : a.tail = none) :
    a.groups = a.left.map Group.value ++ List.replicate (8 - a.left.length - a.back.length) 0 ++
      a.back.map Group.value := by
  rw [V6.groups, plain, Option.toList_none, List.flatMap_nil, List.append_nil]
  rfl

theorem value_of_plain {a : V6} (plain : a.tail = none) :
    a.value = (a.left.map Group.value ++ List.replicate (8 - a.left.length - a.back.length) 0 ++
      a.back.map Group.value).foldl (fun n g => n <<< 16 ||| g) 0 := by
  have words (l : List Group) : ∀ g ∈ l.map Group.value, g < 2 ^ 16 := by
    intro g member
    obtain ⟨w, -, rfl⟩ := List.mem_map.mp member
    exact w.value_lt
  rw [V6.value, groups_of_plain plain, foldl_shift]
  rw [List.forall_mem_append, List.forall_mem_append]
  refine ⟨⟨words _, fun g member => ?_⟩, words _⟩
  rw [List.eq_of_mem_replicate member]
  decide

theorem parseIpv6_text {a : V6} (plain : a.tail = none) : parseIpv6 a.text = some a.value := by
  have noTail : a.tailTexts = [] := by rw [V6.tailTexts, plain]; rfl
  have whole (t : List Group) : splitDouble (colons (V6.texts t)) = [colons (V6.texts t)] := by
    rw [← List.append_nil (colons _), splitDouble_colons (texts_clean t) rfl, List.append_nil]
  have size := a.size
  rw [V6.text, noTail, value_of_plain plain, V6.back]
  rw [plain] at size
  cases is : a.right with
  | none =>
      rw [is] at size
      have eight : a.left.length = 8 := size
      dsimp only
      rw [List.append_nil, parseIpv6, whole]
      simp only [List.length_singleton, List.getD_cons_zero, parseGroups_colons, Option.bind_eq_bind,
        Option.bind_some, List.length_map, eight, List.length_nil, Option.getD_none]
      rfl
  | some right =>
      rw [is] at size
      have few : a.left.length + right.length ≤ 7 := size
      have halves : splitDouble (colons (V6.texts a.left) ++ "::".toList ++ colons (V6.texts right)) =
          [colons (V6.texts a.left), colons (V6.texts right)] := by
        have start : splitDouble ("::".toList ++ colons (V6.texts right)) =
            [] :: [colons (V6.texts right)] := by
          rw [← whole right]
          rfl
        rw [List.append_assoc, splitDouble_colons (texts_clean a.left) start]
      dsimp only
      rw [List.append_nil, parseIpv6, halves]
      simp only [List.length_cons, List.length_nil, List.getD_cons_zero, List.getD_cons_succ,
        parseGroups_colons, Option.bind_eq_bind, Option.bind_some, List.length_map, Option.getD_some,
        Nat.reduceAdd, if_true, Nat.reduceEqDiff, false_and, if_false]
      rw [if_neg (by decide), if_neg (by omega)]

theorem splitDouble_ne_nil (s : List Char) : splitDouble s ≠ [] := by
  induction s using splitDouble.induct with
  | case1 rest ih =>
      rw [splitDouble]
      exact List.cons_ne_nil _ _
  | case2 d rest single ih =>
      rw [splitDouble]
      · rwa [ne_eq, List.modifyHead_eq_nil_iff]
      · exact single
  | case3 => exact List.cons_ne_nil _ _

theorem mem_splitDouble {s : List Char} {c : Char} (other : c ≠ ':') (h : c ∈ s) :
    ∃ half ∈ splitDouble s, c ∈ half := by
  induction s using splitDouble.induct with
  | case1 rest ih =>
      simp only [List.mem_cons, other, false_or] at h
      obtain ⟨half, member, here⟩ := ih h
      rw [splitDouble]
      exact ⟨half, List.mem_cons_of_mem _ member, here⟩
  | case2 d rest single ih =>
      have step : splitDouble (d :: rest) = (splitDouble rest).modifyHead (d :: ·) := by
        rw [splitDouble]
        exact single
      rw [step]
      cases halves : splitDouble rest with
      | nil => exact absurd halves (splitDouble_ne_nil rest)
      | cons first halves =>
          rw [List.modifyHead_cons]
          obtain rfl | later := List.mem_cons.mp h
          · exact ⟨_, List.mem_cons_self, List.mem_cons_self⟩
          · obtain ⟨half, member, here⟩ := ih later
            rw [halves] at member
            obtain rfl | among := List.mem_cons.mp member
            · exact ⟨_, List.mem_cons_self, List.mem_cons_of_mem _ here⟩
            · exact ⟨half, List.mem_cons_of_mem _ among, here⟩
  | case3 => cases h

theorem hex_of_groups {pieces : List (List Char)} {gs : List ℕ} (h : pieces.mapM group = some gs)
    {piece : List Char} (member : piece ∈ pieces) : piece.all isHex = true := by
  induction pieces generalizing gs with
  | nil => cases member
  | cons first pieces ih =>
      rw [List.mapM_cons, Option.bind_eq_bind, Option.bind_eq_some_iff] at h
      obtain ⟨g, one, rest⟩ := h
      rw [Option.bind_eq_bind, Option.bind_eq_some_iff] at rest
      obtain ⟨gs, others, -⟩ := rest
      obtain rfl | later := List.mem_cons.mp member
      · rw [group] at one
        exact (Option.ite_none_right_eq_some.mp one).1.2.2
      · exact ih others later

theorem mem_of_parseGroups {side : List Char} {gs : List ℕ} (h : parseGroups side = some gs) {c : Char}
    (member : c ∈ side) : c = ':' ∨ isHex c = true := by
  unfold parseGroups at h
  split at h
  · rename_i empty
    rw [empty] at member
    cases member
  · rw [← @List.intercalate_splitOn _ side _ _ ':'] at member
    obtain colon | ⟨piece, among, here⟩ := mem_intercalate member
    · exact .inl colon
    · exact .inr (List.all_eq_true.mp (hex_of_groups h among) c here)

/-- What is read as an IPv6 address has hexadecimal digits and colons only. -/
theorem mem_of_parseIpv6 {s : List Char} {n : ℕ} (h : parseIpv6 s = some n) {c : Char} (member : c ∈ s) :
    c = ':' ∨ isHex c = true := by
  by_cases colon : c = ':'
  · exact .inl colon
  · obtain ⟨half, among, here⟩ := mem_splitDouble colon member
    unfold parseIpv6 at h
    dsimp only at h
    split at h
    · cases h
    · rw [Option.bind_eq_bind, Option.bind_eq_some_iff] at h
      obtain ⟨left, leftGroups, h⟩ := h
      rw [Option.bind_eq_some_iff] at h
      obtain ⟨right, rightGroups, -⟩ := h
      rename_i few
      rcases halves : splitDouble s with - | ⟨first, - | ⟨second, - | ⟨third, rest⟩⟩⟩
      · exact absurd halves (splitDouble_ne_nil s)
      · rw [halves] at among leftGroups
        obtain rfl := List.mem_singleton.mp among
        exact mem_of_parseGroups leftGroups here
      · rw [halves] at among leftGroups rightGroups
        obtain rfl | among := List.mem_cons.mp among
        · exact mem_of_parseGroups leftGroups here
        · obtain rfl := List.mem_singleton.mp among
          exact mem_of_parseGroups rightGroups here
      · rw [halves] at few
        simp only [List.length_cons] at few
        omega

/-- However it is written, an IPv6 address has more than one colon. -/
theorem two_le_count (a : V6) : 2 ≤ a.text.count ':' := by
  have size := a.size
  unfold V6.text
  cases is : a.right with
  | none =>
      rw [is] at size
      have many : 3 ≤ (V6.texts a.left ++ a.tailTexts).length := by
        have one : a.tail.toList.length ≤ 1 := Option.length_toList_le
        rw [List.length_append, V6.texts, V6.tailTexts, List.length_map, List.length_map]
        dsimp only at size
        omega
      obtain ⟨u, v, w, ws, words⟩ : ∃ u v w ws, V6.texts a.left ++ a.tailTexts = u :: v :: w :: ws := by
        rcases all : V6.texts a.left ++ a.tailTexts with - | ⟨u, - | ⟨v, - | ⟨w, ws⟩⟩⟩
        · rw [all] at many; cases many
        · rw [all] at many; simp at many
        · rw [all] at many; simp at many
        · exact ⟨u, v, w, ws, rfl⟩
      dsimp only
      rw [words, colons, List.intercalate_cons_cons, List.intercalate_cons_cons]
      simp only [List.count_append, List.count_singleton_self]
      omega
  | some right =>
      dsimp only
      rw [List.count_append, List.count_append]
      have double : "::".toList.count ':' = 2 := by decide
      omega

theorem colon_mem_text (a : V6) : ':' ∈ a.text :=
  List.count_pos_iff.mp (lt_of_lt_of_le Nat.zero_lt_two (two_le_count a))

theorem dot_mem_quad (q : Quad) : '.' ∈ q.text := by
  rw [Quad.text, Quad.octets, List.map_cons, List.map_cons, List.intercalate_cons_cons]
  simp only [List.mem_append, List.mem_singleton, or_true, true_or]

theorem dot_mem_text {a : V6} : '.' ∈ a.text ↔ a.tail ≠ none := by
  constructor
  · intro dot
    obtain colon | hex | ⟨dotted, -⟩ := V6.mem_text dot
    · cases colon
    · cases hex
    · exact dotted
  · intro dotted
    obtain ⟨q, is⟩ := Option.ne_none_iff_exists'.mp dotted
    rw [V6.text_of_tail is]
    exact List.mem_append_right _ (dot_mem_quad q)

theorem parseIpv4_literal {l : Literal} {n : ℕ} :
    parseIpv4 l.text = some n ↔ l.address = .v4 n := by
  cases l with
  | v4 q =>
      change parseIpv4 q.text = some n ↔ Address.v4 q.value = .v4 n
      rw [parseIpv4_text, Option.some.injEq, Address.v4.injEq]
  | v6 a =>
      refine ⟨fun read => ?_, fun is => by cases is⟩
      obtain digit | dot := mem_of_parseIpv4 read (colon_mem_text a)
      · exact absurd digit (by decide)
      · exact absurd dot (by decide)

theorem parseIpv6_literal {l : Literal} {n : ℕ} :
    parseIpv6 l.text = some n ↔ ¬ l.Dotted ∧ l.address = .v6 n := by
  have noDot {s : List Char} (dot : '.' ∈ s) : parseIpv6 s ≠ some n := fun read => by
    obtain colon | hex := mem_of_parseIpv6 read dot
    · cases colon
    · cases hex
  cases l with
  | v4 q =>
      exact iff_of_false (noDot (dot_mem_quad q)) fun is => by cases is.2
  | v6 a =>
      change parseIpv6 a.text = some n ↔ ¬ a.tail ≠ none ∧ Address.v6 a.value = .v6 n
      by_cases plain : a.tail = none
      · rw [parseIpv6_text plain, Option.some.injEq, Address.v6.injEq]
        exact ⟨fun is => ⟨not_not.mpr plain, is⟩, And.right⟩
      · exact iff_of_false (noDot (dot_mem_text.mpr plain)) fun is => is.1 plain

theorem colon_not_mem_quad (q : Quad) : ':' ∉ q.text := fun colon => by
  obtain digit | dot := Quad.mem_text colon
  · exact absurd digit (by decide)
  · exact absurd dot (by decide)

theorem value_of_text {a b : V6} (same : a.text = b.text) :
    a.value = b.value ∧ (a.tail ≠ none ↔ b.tail ≠ none) := by
  have dotted : a.tail ≠ none ↔ b.tail ≠ none := by rw [← dot_mem_text, ← dot_mem_text, same]
  refine ⟨?_, dotted⟩
  by_cases plain : a.tail = none
  · have plain' : b.tail = none := not_not.mp fun h => dotted.mpr h plain
    have read := parseIpv6_text plain
    rw [same, parseIpv6_text plain'] at read
    exact (Option.some.inj read).symm
  · obtain ⟨q, ha⟩ := Option.ne_none_iff_exists'.mp plain
    obtain ⟨r, hb⟩ := Option.ne_none_iff_exists'.mp (dotted.mp plain)
    obtain ⟨fronts, quads⟩ := V6.front_eq ha hb same
    have padded : (a.padded q ha).value = (b.padded r hb).value := by
      have read := @parseIpv6_text (a.padded q ha) rfl
      rw [V6.text_padded ha, fronts, ← V6.text_padded hb, parseIpv6_text rfl] at read
      exact (Option.some.inj read).symm
    have quadValues : q.value = r.value := by
      have read := parseIpv4_text q
      rw [quads, parseIpv4_text] at read
      exact (Option.some.inj read).symm
    rw [V6.value_padded ha, V6.value_padded hb, padded, quadValues]

theorem address_of_text {l m : Literal} (same : l.text = m.text) :
    l.address = m.address ∧ (l.Dotted ↔ m.Dotted) := by
  have apart (q : Quad) (a : V6) : q.text ≠ a.text := fun same =>
    colon_not_mem_quad q (same ▸ colon_mem_text a)
  cases l with
  | v4 q =>
      cases m with
      | v4 r =>
          have read := parseIpv4_text q
          rw [show q.text = r.text from same, parseIpv4_text] at read
          exact ⟨congrArg Address.v4 (Option.some.inj read).symm, Iff.rfl⟩
      | v6 b => exact absurd same (apart q b)
  | v6 a =>
      cases m with
      | v4 r => exact absurd same.symm (apart r a)
      | v6 b => exact ⟨congrArg Address.v6 (value_of_text same).1, (value_of_text same).2⟩

theorem without_of_not_mem {c : Char} {start text : List Char} (h : c ∉ text) (member : c ∈ start) :
    without start text = text := by
  unfold without
  cases is : text.dropPrefix? start with
  | none => rfl
  | some rest =>
      rw [Text.dropPrefix?_eq_some is] at h
      exact absurd (List.mem_append_left _ member) h

theorem not_mem_text {l : Literal} {c : Char} (h : ¬ (isHex c = true ∨ c = ':' ∨ c = '.')) :
    c ∉ l.text := fun member => h (Literal.mem_text member)

theorem dot_not_mem_front (a : V6) : '.' ∉ a.front := by
  have notLead (groups : List Group) : '.' ∉ lead (V6.texts groups) := fun dot => by
    obtain ⟨w, member, here⟩ := List.mem_flatMap.mp dot
    obtain here | mark := List.mem_append.mp here
    · exact absurd (mem_texts member here) (by decide)
    · exact absurd mark (by decide)
  have notColons (groups : List Group) : '.' ∉ colons (V6.texts groups) := fun dot => by
    obtain colon | ⟨w, member, here⟩ := mem_intercalate dot
    · cases colon
    · exact absurd (mem_texts member here) (by decide)
  unfold V6.front
  split
  · exact notLead _
  · rw [List.mem_append, List.mem_append, not_or, not_or]
    exact ⟨⟨notColons _, by decide⟩, notLead _⟩

/-- Nothing in an address is a dot with an IPv6 address behind it. -/
theorem not_isSuffix {l : Literal} {a : V6} : ¬ ('.' :: a.text) <:+ l.text := by
  rintro ⟨before, is⟩
  have colon := colon_mem_text a
  cases l with
  | v4 q =>
      have is : before ++ '.' :: a.text = q.text := is
      refine colon_not_mem_quad q ?_
      rw [← is]
      exact List.mem_append_right _ (List.mem_cons_of_mem _ colon)
  | v6 b =>
      have is : before ++ '.' :: a.text = b.text := is
      have dot : '.' ∈ b.text := by
        rw [← is]
        exact List.mem_append_right _ List.mem_cons_self
      obtain ⟨q, dotted⟩ := Option.ne_none_iff_exists'.mp (dot_mem_text.mp dot)
      rw [V6.text_of_tail dotted] at is
      obtain ⟨between, front, rest⟩ | ⟨between, -, rest⟩ := List.append_eq_append_iff.mp is
      · cases between with
        | nil =>
            refine colon_not_mem_quad q ?_
            rw [← show '.' :: a.text = q.text from rest]
            exact List.mem_cons_of_mem _ colon
        | cons c between =>
            obtain ⟨rfl, -⟩ := List.cons.inj rest
            exact dot_not_mem_front b (front ▸ List.mem_append_right _ List.mem_cons_self)
      · refine colon_not_mem_quad q ?_
        rw [rest]
        exact List.mem_append_right _ (List.mem_cons_of_mem _ colon)

theorem parseIpv4_groups (a : V6) : parseIpv4 a.text = none := by
  refine Option.eq_none_iff_forall_ne_some.mpr fun n read => ?_
  cases (@parseIpv4_literal (.v6 a) n).mp read

theorem base_text {a : V6} (dotted : a.tail ≠ none) :
    without ['.'] (without ['*', '.'] a.text) = a.text := by
  have noStar : '*' ∉ a.text := @not_mem_text (.v6 a) '*' (by decide)
  rw [without_of_not_mem noStar List.mem_cons_self, without]
  cases is : a.text.dropPrefix? ['.'] with
  | none => rfl
  | some rest =>
      obtain ⟨q, quad⟩ := Option.ne_none_iff_exists'.mp dotted
      obtain ⟨l, front⟩ := V6.front_last quad
      obtain ⟨c, l, filled⟩ := List.exists_cons_of_ne_nil (l := a.front) (by rw [front]; simp)
      have starts := Text.dropPrefix?_eq_some is
      rw [V6.text_of_tail quad, filled] at starts
      obtain ⟨rfl, -⟩ := List.cons.inj starts
      exact absurd (filled ▸ List.mem_cons_self) (dot_not_mem_front a)

/-- An address in an entry is compared with the host's by number, but as a text if it ends in a
quad. -/
theorem matchesHost_text {host l : Literal} :
    matchesHost host.text l.text = true ↔
      (¬ l.Dotted ∧ ¬ host.Dotted ∧ host.address = l.address) ∨ (l.Dotted ∧ host.text = l.text) := by
  cases l with
  | v4 q =>
      have undotted (is : host.address = .v4 q.value) : ¬ host.Dotted := by
        cases host with
        | v4 r => exact fun no => no
        | v6 b => cases is
      change matchesHost host.text q.text = true ↔
        (¬ False ∧ ¬ host.Dotted ∧ host.address = .v4 q.value) ∨ (False ∧ host.text = q.text)
      rw [matchesHost, parseIpv4_text]
      dsimp only
      rw [beq_iff_eq, parseIpv4_literal]
      exact ⟨fun is => .inl ⟨fun no => no, undotted is, is⟩, fun h => (h.resolve_right And.left).2.2⟩
  | v6 a =>
      change matchesHost host.text a.text = true ↔
        (¬ a.tail ≠ none ∧ ¬ host.Dotted ∧ host.address = .v6 a.value) ∨ (a.tail ≠ none ∧ host.text = a.text)
      rw [matchesHost, parseIpv4_groups]
      by_cases plain : a.tail = none
      · rw [parseIpv6_text plain]
        dsimp only
        rw [beq_iff_eq, parseIpv6_literal]
        simp only [plain, ne_eq, not_true_eq_false, not_false_eq_true, true_and, false_and, or_false]
      · have unread : parseIpv6 a.text = none := by
          refine Option.eq_none_iff_forall_ne_some.mpr fun n read => ?_
          exact ((@parseIpv6_literal (.v6 a) n).mp read).1 plain
        have noSuffix : ('.' :: a.text).isSuffixOf host.text = false := by
          rw [← Bool.not_eq_true, List.isSuffixOf_iff_suffix]
          exact not_isSuffix
        rw [unread]
        dsimp only
        rw [base_text plain, noSuffix, Bool.or_false, beq_iff_eq]
        simp only [plain, ne_eq, not_false_eq_true, not_true_eq_false, true_and, false_and, false_or]

theorem unsignedShift_eq {n s : ℕ} (hn : n < 2 ^ 32) (hs : s < 32) : unsignedShift n s = n >>> s := by
  rw [unsignedShift, Nat.mod_eq_of_lt hn, Nat.mod_eq_of_lt hs]

/-- What IPv4 addresses agree on is what is left after the shift. -/
theorem agree_v4_iff {a b bits : ℕ} (ha : a < 2 ^ 32) (hb : b < 2 ^ 32) (inside : bits ≤ 32) :
    (Address.v4 a).Agree bits (.v4 b) ↔
      (bits == 0 || unsignedShift a (32 - bits) == unsignedShift b (32 - bits)) = true := by
  change (∀ i, 32 - bits ≤ i → a.testBit i = b.testBit i) ↔ _
  rw [← shiftRight_eq_iff, Bool.or_eq_true, beq_iff_eq, beq_iff_eq]
  by_cases none : bits = 0
  · subst none
    refine iff_of_true ?_ (.inl rfl)
    rw [Nat.sub_zero, Nat.shiftRight_eq_div_pow, Nat.shiftRight_eq_div_pow, Nat.div_eq_of_lt ha,
      Nat.div_eq_of_lt hb]
  · rw [unsignedShift_eq ha (by omega), unsignedShift_eq hb (by omega)]
    exact ⟨.inr, fun h => h.resolve_left none⟩

theorem inCidrBlock_text {host base : Literal} {bits : Decimal} (inside : bits.value ≤ base.address.width) :
    inCidrBlock host.text base.text bits.text = true ↔
      ¬ base.Dotted ∧ ¬ host.Dotted ∧ host.address.Agree bits.value base.address := by
  have small : bits.value < 2 ^ 53 := by
    refine lt_of_le_of_lt inside ?_
    cases base with
    | v4 q => exact (by decide : 32 < 2 ^ 53)
    | v6 a => exact (by decide : 128 < 2 ^ 53)
  rw [inCidrBlock, isDigits_text, if_neg (by decide), number_text small]
  dsimp only
  cases base with
  | v4 q =>
      have inside : bits.value ≤ 32 := inside
      have noColon : ':' ∉ (Literal.v4 q).text := colon_not_mem_quad q
      have read : parseIpv4 (Literal.v4 q).text = some q.value := parseIpv4_text q
      rw [if_neg noColon, if_neg (by omega), read]
      cases host with
      | v4 r =>
          have readHost : parseIpv4 (Literal.v4 r).text = some r.value := parseIpv4_text r
          rw [readHost]
          dsimp only
          rw [← agree_v4_iff (Quad.value_lt r) (Quad.value_lt q) inside]
          exact ⟨fun agree => ⟨fun no => no, fun no => no, agree⟩, fun h => h.2.2⟩
      | v6 b =>
          have unread : parseIpv4 (Literal.v6 b).text = none := parseIpv4_groups b
          rw [unread]
          exact iff_of_false Bool.false_ne_true fun h => h.2.2
  | v6 a =>
      have inside : bits.value ≤ 128 := inside
      have colon : ':' ∈ (Literal.v6 a).text := colon_mem_text a
      rw [if_pos colon, if_neg (by omega)]
      split
      · rename_i hostNum baseNum readHost readBase
        rw [parseIpv6_literal] at readHost readBase
        rw [readHost.2, readBase.2, beq_iff_eq, shiftRight_eq_iff]
        exact ⟨fun agree => ⟨readBase.1, readHost.1, agree⟩, fun h => h.2.2⟩
      · rename_i unread
        refine iff_of_false Bool.false_ne_true fun ⟨plain, plainHost, agree⟩ => ?_
        cases host with
        | v4 r => exact agree
        | v6 b =>
            exact unread b.value a.value (parseIpv6_literal.mpr ⟨plainHost, rfl⟩)
              (parseIpv6_literal.mpr ⟨plain, rfl⟩)

theorem colon_not_mem_decimal (d : Decimal) : ':' ∉ d.text := fun colon =>
  absurd (List.all_eq_true.mp d.digits ':' colon) (by decide)

theorem head_ne {l : List Char} {c : Char} (h : c ∉ l) : l.head? ≠ some c := fun is =>
  h (List.mem_of_mem_head? is)

theorem entryParts_bare (l : Literal) : entryParts l.text = some (l.text, none) := by
  have bracket : '[' ∉ l.text := not_mem_text (by decide)
  have colons : l.text.count ':' ≠ 1 := by
    cases l with
    | v4 q =>
        change q.text.count ':' ≠ 1
        rw [List.count_eq_zero_of_not_mem (colon_not_mem_quad q)]
        exact Nat.zero_ne_one
    | v6 a =>
        have many : 2 ≤ (Literal.v6 a).text.count ':' := two_le_count a
        omega
  rw [entryParts, if_neg (head_ne bracket), if_neg colons]

theorem takeWhile_mark {l rest : List Char} {c : Char} (h : c ∉ l) :
    (l ++ c :: rest).takeWhile (· ≠ c) = l ∧ (l ++ c :: rest).dropWhile (· ≠ c) = c :: rest := by
  have before : ∀ d ∈ l, decide (d ≠ c) = true := fun d member => decide_eq_true fun is => h (is ▸ member)
  constructor
  · rw [List.takeWhile_append_of_pos before, List.takeWhile_cons_of_neg (by simp), List.append_nil]
  · rw [List.dropWhile_append_of_pos before, List.dropWhile_cons_of_neg (by simp)]

theorem entryParts_ported (q : Quad) (port : Decimal) :
    entryParts (q.text ++ ':' :: port.text) = some (q.text, some port.text) := by
  have bracket : '[' ∉ q.text ++ ':' :: port.text := by
    rw [List.mem_append, List.mem_cons, not_or, not_or]
    refine ⟨@not_mem_text (.v4 q) '[' (by decide), by decide, fun here => ?_⟩
    exact absurd (List.all_eq_true.mp port.digits '[' here) (by decide)
  have one : (q.text ++ ':' :: port.text).count ':' = 1 := by
    rw [List.count_append, List.count_cons_self, List.count_eq_zero_of_not_mem (colon_not_mem_quad q),
      List.count_eq_zero_of_not_mem (colon_not_mem_decimal port)]
  have parts := @takeWhile_mark q.text port.text ':' (colon_not_mem_quad q)
  rw [entryParts, if_neg (head_ne bracket), if_pos one, parts.1, parts.2]
  rfl

theorem entryParts_bracketed (l : Literal) (port : Option Decimal) :
    entryParts ('[' :: l.text ++ ']' :: (port.map (':' :: ·.text)).getD []) =
      some (l.text, port.map Decimal.text) := by
  have inside : ']' ∉ '[' :: l.text := by
    rw [List.mem_cons, not_or]
    exact ⟨by decide, not_mem_text (by decide)⟩
  have parts := @takeWhile_mark ('[' :: l.text) ((port.map (':' :: ·.text)).getD []) ']' inside
  have closed : ']' ∈ '[' :: l.text ++ ']' :: (port.map (':' :: ·.text)).getD [] :=
    List.mem_append_right _ List.mem_cons_self
  have opened : ('[' :: l.text ++ ']' :: (port.map (':' :: ·.text)).getD []).head? = some '[' := rfl
  rw [entryParts, if_pos opened, if_pos closed, parts.1, parts.2]
  cases port <;> rfl

def Entry.lower : Entry → Entry
  | .bare l => .bare l.lower
  | .ported q port => .ported q port
  | .bracketed l port => .bracketed l.lower port
  | .block l bits inside => .block l.lower bits (by rw [l.address_lower]; exact inside)

theorem Entry.text_lower (entry : Entry) : entry.lower.text = entry.text.map Char.toLower := by
  cases entry with
  | bare l => exact l.text_lower
  | ported q port =>
      simp only [lower, text, List.map_append, List.map_cons, q.map_toLower, port.map_toLower]
      rfl
  | bracketed l port =>
      simp only [lower, text, List.cons_append, List.map_append, List.map_cons, l.text_lower]
      cases port with
      | none => rfl
      | some port =>
          simp only [Option.map_some, Option.getD_some, List.map_cons, port.map_toLower]
          rfl
  | block l bits inside =>
      simp only [lower, text, List.map_append, List.map_cons, l.text_lower, bits.map_toLower]
      rfl

theorem not_mem_decimal {c : Char} (h : c.isDigit = false) (d : Decimal) : c ∉ d.text := fun member =>
  Bool.false_ne_true (h.symm.trans (List.all_eq_true.mp d.digits c member))

theorem Entry.kelvin_not_mem (entry : Entry) : '\u212a' ∉ entry.text := by
  have literal (l : Literal) : '\u212a' ∉ l.text := not_mem_text (by decide)
  have number (d : Decimal) : '\u212a' ∉ d.text := not_mem_decimal rfl d
  cases entry with
  | bare l => exact literal l
  | ported q port =>
      rw [text, List.mem_append, List.mem_cons, not_or, not_or]
      exact ⟨literal (.v4 q), by decide, number port⟩
  | bracketed l port =>
      rw [text, List.cons_append, List.mem_cons, List.mem_append, List.mem_cons, not_or, not_or, not_or]
      refine ⟨by decide, literal l, by decide, ?_⟩
      cases port with
      | none => exact List.not_mem_nil
      | some port =>
          rw [Option.map_some, Option.getD_some, List.mem_cons, not_or]
          exact ⟨by decide, number port⟩
  | block l bits inside =>
      rw [text, List.mem_append, List.mem_cons, not_or, not_or]
      exact ⟨literal l, by decide, number bits⟩

theorem Entry.lowered (entry : Entry) : entry.text.map Text.lower = entry.lower.text := by
  rw [entry.text_lower]
  refine List.map_congr_left fun c member => Text.lower_of_ne ?_
  rintro rfl
  exact entry.kelvin_not_mem member

theorem ne_star {e : List Char} {c : Char} (member : c ∈ e) (other : c ≠ '*') : e ≠ ['*'] := by
  rintro rfl
  exact other (List.mem_singleton.mp member)

theorem literal_ne_star (l : Literal) : l.text ≠ ['*'] := by
  cases l with
  | v4 q => exact ne_star (dot_mem_quad q) (by decide)
  | v6 a => exact ne_star (colon_mem_text a) (by decide)

/-- Where there is no slash, the host is compared with the entry's, and the port with its port. -/
theorem matches_of_parts {host : List Char} {port : ℕ} {entry : String} {e entryHost : List Char}
    {entryPort : Option (List Char)} (lowered : entry.toList.map Text.lower = e) (star : e ≠ ['*'])
    (slash : '/' ∉ e) (parts : entryParts e = some (entryHost, entryPort)) :
    matchesNoProxyEntry (String.ofList host) port entry = true ↔
      portMatches port entryPort = true ∧ matchesHost host entryHost = true := by
  unfold matchesNoProxyEntry
  dsimp only
  rw [Text.toLowerCase, String.toList_ofList, lowered, if_neg star, if_neg slash, parts,
    String.toList_ofList]
  dsimp only
  rw [Bool.and_eq_true]

theorem matches_single {host : Literal} {port : Port} {entry : Entry} (single : ¬ entry.IsBlock) :
    matchesNoProxyEntry (String.ofList host.text) port.val (String.ofList entry.text) = true ↔
      (∀ p ∈ entry.port, p = port.val) ∧ matchesHost host.text entry.literal.lower.text = true := by
  have lowered : (String.ofList entry.text).toList.map Text.lower = entry.lower.text := by
    rw [String.toList_ofList, entry.lowered]
  have noSlash (l : Literal) : '/' ∉ l.text := not_mem_text (by decide)
  cases entry with
  | bare l =>
      rw [matches_of_parts lowered (literal_ne_star l.lower) (noSlash l.lower) (entryParts_bare l.lower)]
      exact and_congr_left fun _ => @portMatches_text port none
  | ported q d =>
      have slash : '/' ∉ q.text ++ ':' :: d.text := by
        rw [List.mem_append, List.mem_cons, not_or, not_or]
        exact ⟨noSlash (.v4 q), by decide, not_mem_decimal rfl d⟩
      have star := ne_star (e := q.text ++ ':' :: d.text) (List.mem_append_right _ List.mem_cons_self)
        (by decide : ':' ≠ '*')
      rw [matches_of_parts lowered star slash (entryParts_ported q d)]
      exact and_congr_left fun _ => @portMatches_text port (some d)
  | bracketed l given =>
      have slash : '/' ∉ '[' :: l.lower.text ++ ']' :: (given.map (':' :: ·.text)).getD [] := by
        rw [List.cons_append, List.mem_cons, List.mem_append, List.mem_cons, not_or, not_or, not_or]
        refine ⟨by decide, noSlash l.lower, by decide, ?_⟩
        cases given with
        | none => exact List.not_mem_nil
        | some d =>
            rw [Option.map_some, Option.getD_some, List.mem_cons, not_or]
            exact ⟨by decide, not_mem_decimal rfl d⟩
      have star := ne_star (e := '[' :: l.lower.text ++ ']' :: (given.map (':' :: ·.text)).getD [])
        List.mem_cons_self (by decide : '[' ≠ '*')
      rw [matches_of_parts lowered star slash (entryParts_bracketed l.lower given)]
      exact and_congr_left fun _ => @portMatches_text port given
  | block l bits inside => exact absurd trivial single

theorem matches_block {host : Literal} {port : Port} {base : Literal} {bits : Decimal}
    (inside : bits.value ≤ base.address.width) :
    matchesNoProxyEntry (String.ofList host.text) port.val
        (String.ofList (Entry.block base bits inside).text) = true ↔
      inCidrBlock host.text base.lower.text bits.text = true := by
  have lowered := (Entry.block base bits inside).lowered
  have slash : '/' ∈ base.lower.text ++ '/' :: bits.text := List.mem_append_right _ List.mem_cons_self
  have parts := @takeWhile_mark base.lower.text bits.text '/' (not_mem_text (by decide))
  change _ = base.lower.text ++ '/' :: bits.text at lowered
  unfold matchesNoProxyEntry
  dsimp only
  rw [Text.toLowerCase, String.toList_ofList, String.toList_ofList, lowered,
    if_neg (ne_star slash (by decide)), if_pos slash, parts.1, parts.2, String.toList_ofList,
    List.tail_cons]

section

variable {host : Literal} {port : Port} {entry : Entry}

theorem numeric_of_single (single : ¬ entry.IsBlock) :
    Numeric host port entry ↔
      host.address = entry.literal.address ∧ ∀ p ∈ entry.port, p = port.val := by
  have bits : entry.bits = entry.literal.address.width := by
    cases entry with
    | block l bits inside => exact absurd trivial single
    | _ => rfl
  rw [Numeric, bits, Address.agree_width]

theorem matches_iff :
    matchesNoProxyEntry (String.ofList host.text) port.val (String.ofList entry.text) = true ↔
      (¬ entry.literal.Dotted ∧ ¬ host.Dotted ∧ Numeric host port entry) ∨
        (entry.literal.Dotted ∧ ¬ entry.IsBlock ∧ host.text = entry.literal.lower.text ∧
          ∀ p ∈ entry.port, p = port.val) := by
  by_cases single : entry.IsBlock
  · cases entry with
    | block l bits inside =>
        have inside' : bits.value ≤ l.lower.address.width := by rw [l.address_lower]; exact inside
        have numeric : Numeric host port (.block l bits inside) ↔
            host.address.Agree bits.value l.address :=
          and_iff_left fun _ none => by cases none
        rw [matches_block, inCidrBlock_text inside', l.dotted_lower, l.address_lower, ← numeric]
        exact ⟨.inl, fun h => h.resolve_right fun other => other.2.1 single⟩
    | _ => exact single.elim
  · rw [matches_single single, matchesHost_text, entry.literal.dotted_lower, entry.literal.address_lower,
      numeric_of_single single]
    constructor
    · rintro ⟨portIs, ⟨plain, plainHost, same⟩ | ⟨dotted, same⟩⟩
      · exact .inl ⟨plain, plainHost, same, portIs⟩
      · exact .inr ⟨dotted, single, same, portIs⟩
    · rintro (⟨plain, plainHost, same, portIs⟩ | ⟨dotted, -, same, portIs⟩)
      · exact ⟨portIs, .inl ⟨plain, plainHost, same⟩⟩
      · exact ⟨portIs, .inr ⟨dotted, same⟩⟩

/-- The same text is the same address, so such a match is numeric. -/
theorem numeric_of_text (single : ¬ entry.IsBlock) (same : host.text = entry.literal.lower.text)
    (portIs : ∀ p ∈ entry.port, p = port.val) : Numeric host port entry := by
  rw [numeric_of_single single]
  exact ⟨by rw [(address_of_text same).1, entry.literal.address_lower], portIs⟩

end

/-- An entry matches by number if and only if no address that ends in a quad gets in the way. -/
theorem matchesNoProxyEntry_numeric_iff (host : Literal) (port : Port) (entry : Entry) :
    (matchesNoProxyEntry (String.ofList host.text) port.val (String.ofList entry.text) = true ↔
      Numeric host port entry) ↔ Comparable host port entry := by
  rw [matches_iff, Comparable, ← entry.literal.text_lower]
  constructor
  · intro exact_ dotted
    by_cases numeric : Numeric host port entry
    · obtain ⟨plain, plainHost, -⟩ | ⟨-, single, same, -⟩ := exact_.mpr numeric
      · exact absurd dotted (not_or.mpr ⟨plainHost, plain⟩)
      · exact .inr ⟨single, same⟩
    · exact .inl numeric
  · intro comparable
    by_cases dotted : host.Dotted ∨ entry.literal.Dotted
    · obtain differ | ⟨single, same⟩ := comparable dotted
      · refine iff_of_false ?_ differ
        rintro (⟨-, -, numeric⟩ | ⟨-, single, same, portIs⟩)
        · exact differ numeric
        · exact differ (numeric_of_text single same portIs)
      · have both : host.Dotted ↔ entry.literal.Dotted := by
          rw [(address_of_text same).2, entry.literal.dotted_lower]
        have dottedEntry : entry.literal.Dotted := dotted.elim both.mp id
        constructor
        · rintro (⟨plain, -, -⟩ | ⟨-, -, -, portIs⟩)
          · exact absurd dottedEntry plain
          · exact numeric_of_text single same portIs
        · intro numeric
          exact .inr ⟨dottedEntry, single, same, ((numeric_of_single single).mp numeric).2⟩
    · rw [not_or] at dotted
      exact ⟨fun h => h.elim (fun plain => plain.2.2) fun no => absurd no.1 dotted.2,
        fun numeric => .inl ⟨dotted.2, dotted.1, numeric⟩⟩

def mappedGroup : Group := ⟨"ffff".toList, by decide, by decide, by decide⟩

/-- `::ffff:102:304`. -/
def mappedHost : Literal :=
  .v6 { left := []
        right := some [mappedGroup, ⟨"102".toList, by decide, by decide, by decide⟩,
          ⟨"304".toList, by decide, by decide, by decide⟩]
        tail := none
        size := by decide }

def sampleOctet (d : ℕ) (small : d < 10) : Octet where
  text := [Nat.digitChar d]
  nonempty := List.cons_ne_nil _ _
  digits := by revert d; decide
  small := by revert d; decide

/-- `::ffff:1.2.3.4`. -/
def mappedEntry : Entry :=
  .bare (.v6 { left := []
               right := some [mappedGroup]
               tail := some ⟨sampleOctet 1 (by decide), sampleOctet 2 (by decide),
                 sampleOctet 3 (by decide), sampleOctet 4 (by decide)⟩
               size := by decide })

theorem matchesNoProxyEntry_numeric_fails :
    ¬ ∀ (host : Literal) (port : Port) (entry : Entry),
      (matchesNoProxyEntry (String.ofList host.text) port.val (String.ofList entry.text) = true ↔
        Numeric host port entry) := by
  intro claim
  have texts : String.ofList mappedHost.text = "::ffff:102:304" ∧
      String.ofList mappedEntry.text = "::ffff:1.2.3.4" := by decide +kernel
  have missed : matchesNoProxyEntry "::ffff:102:304" 443 "::ffff:1.2.3.4" = false := by decide +kernel
  have numeric : Numeric mappedHost ⟨443, by decide⟩ mappedEntry :=
    (@numeric_of_single mappedHost _ mappedEntry fun no => no).mpr
      ⟨by decide +kernel, fun p none => by cases none⟩
  have found := (claim mappedHost ⟨443, by decide⟩ mappedEntry).mpr numeric
  rw [texts.1, texts.2, missed] at found
  cases found

end Quickchr.Net
