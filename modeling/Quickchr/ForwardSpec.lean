import Quickchr.PortBlocks
import Quickchr.Lib.Number

/-!
# Specs of forwarded ports

A spec asks for one port, or for a range of host ports that is expanded to one mapping for each port.
Both parsers cut it at its last slash and its colons; the names of well-known services fill in what a
spec leaves out.
-/
namespace Quickchr.ForwardSpec

open PortBlocks

structure GuestPortDef where
  name : String
  guest : ℕ
  proto : Proto
  aliases : List String := []

def WELL_KNOWN_GUEST_PORTS : List GuestPortDef :=
  [{ name := "ftp", guest := 21, proto := .tcp },
    { name := "ssh", guest := 22, proto := .tcp },
    { name := "telnet", guest := 23, proto := .tcp },
    { name := "http", guest := 80, proto := .tcp, aliases := ["www", "webfig"] },
    { name := "https", guest := 443, proto := .tcp, aliases := ["www-ssl", "webfig-ssl"] },
    { name := "snmp", guest := 161, proto := .udp },
    { name := "bandwidth-test", guest := 2000, proto := .tcp, aliases := ["btest"] },
    { name := "dude", guest := 2210, proto := .tcp },
    { name := "dude-secure", guest := 2211, proto := .tcp },
    { name := "upnp", guest := 2828, proto := .tcp },
    { name := "winbox", guest := 8291, proto := .tcp },
    { name := "api", guest := 8728, proto := .tcp },
    { name := "api-ssl", guest := 8729, proto := .tcp },
    { name := "socks", guest := 1080, proto := .tcp },
    { name := "dns", guest := 53, proto := .udp },
    { name := "dns-tcp", guest := 53, proto := .tcp },
    { name := "ntp", guest := 123, proto := .udp },
    { name := "smb", guest := 445, proto := .tcp, aliases := ["cifs"] },
    { name := "syslog", guest := 514, proto := .udp },
    { name := "mqtt", guest := 1883, proto := .tcp },
    { name := "winrm", guest := 5985, proto := .tcp },
    { name := "winrm-https", guest := 5986, proto := .tcp },
    { name := "http-alt", guest := 8080, proto := .tcp },
    { name := "https-alt", guest := 8443, proto := .tcp },
    { name := "mqtts", guest := 8883, proto := .tcp }]

def lookupGuestPort (nameOrAlias : String) : Option GuestPortDef :=
  if nameOrAlias = "" then none
  else
    let key := Text.toLowerCase nameOrAlias
    WELL_KNOWN_GUEST_PORTS.find? fun entry =>
      entry.name = key ∨ entry.aliases.any fun a => Text.toLowerCase a = key

def fail (spec reason : String) : QuickCHRError where
  code := .INVALID_FORWARD_SPEC
  message := s!"Invalid --forward spec \"{spec}\": {reason}"

def parsePort (spec raw label : String) (allowZero : Bool) : Except QuickCHRError ℕ :=
  if ¬ (raw ≠ "" ∧ raw.toList.all Char.isDigit) then
    .error (fail spec s!"{label} port \"{raw}\" is not a number")
  else
    let n := Number.ofString raw
    let min := if allowZero then 0 else 1
    let outOfRange := fail spec s!"{label} port {n.text} out of range ({min}-65535)"
    match n.integer with
    | some port => if port < min ∨ 65535 < port then .error outOfRange else .ok port.toNat
    -- digits that are no finite number are above every port
    | none => .error outOfRange

/-- What stands before the last slash, and the protocol behind it. -/
def splitProto (spec trimmed : String) : Except QuickCHRError (String × Option Proto) :=
  match Text.lastIndexOf ['/'] trimmed.toList with
  | none => .ok (trimmed, none)
  | some slash =>
      let body := String.ofList (trimmed.toList.take slash)
      let protoStr := Text.toLowerCase (String.ofList (trimmed.toList.drop (slash + 1)))
      if protoStr = "tcp" then .ok (body, some .tcp)
      else if protoStr = "udp" then .ok (body, some .udp)
      else .error (fail spec s!"protocol must be \"tcp\" or \"udp\", got \"{protoStr}\"")

def emptySpec : QuickCHRError where
  code := .INVALID_FORWARD_SPEC
  message := "Empty --forward spec"

/-- The segments of a spec, and its protocol. -/
def segments (spec : String) : Except QuickCHRError (List String × Option Proto) :=
  let trimmed := Text.trim spec
  if trimmed = "" then .error emptySpec
  else (splitProto spec trimmed).map fun (body, proto) => (Text.split body ':', proto)

def nameOf (parts : List String) : String := Text.trim (parts.headD "")

def protoOf (given : Option Proto) (name : String) : Proto :=
  given.getD (((lookupGuestPort name).map GuestPortDef.proto).getD .tcp)

def parseForwardSpec (spec : String) : Except QuickCHRError PortMapping := do
  let (parts, given) ← segments spec
  if parts.length > 3 then
    .error (fail spec "too many \":\" segments (expected name[:host[:guest]])")
  else
    let name := nameOf parts
    if name = "" then .error (fail spec "name is required")
    else
      let host ←
        match parts[1]?.filter (· ≠ "") with
        | some raw => parsePort spec raw "host" true
        | none => .ok 0
      let guest ←
        match parts[2]?.filter (· ≠ ""), lookupGuestPort name with
        | some raw, _ => parsePort spec raw "guest" false
        | none, some known => .ok known.guest
        | none, none => .error (fail spec s!"guest port required for unknown service \"{name}\"")
      return { name, host, guest, proto := protoOf given name }

def FORWARD_RANGE_MAX : ℕ := 64

def parseRange (spec raw label : String) : Except QuickCHRError (ℕ × ℕ) :=
  let (startRaw, endRaw) :=
    match Text.indexOf ['-'] raw.toList with
    | some dash => (raw.toList.take dash, raw.toList.drop (dash + 1))
    -- `slice` with the -1 of a dash that is not there
    | none => (raw.toList.dropLast, raw.toList)
  do
    let start ← parsePort spec (String.ofList startRaw) s!"{label} range start" false
    let last ← parsePort spec (String.ofList endRaw) s!"{label} range end" false
    if last < start then .error (fail spec s!"{label} range end {last} is below start {start}")
    else return (start, last)

def isRange (segment : Option String) : Bool := segment.any fun raw => '-' ∈ raw.toList

def hasRange (parts : List String) : Bool := isRange parts[1]? || isRange parts[2]?

def mappings (name : String) (host guest count : ℕ) (proto : Proto) : List PortMapping :=
  (List.range count).map fun i => { name := s!"{name}-{host + i}", host := host + i, guest := guest + i, proto }

/-- The guest range; where it is left out it is the host's. -/
def guestRangeOf (spec : String) (segment : Option String) (hostRange : ℕ × ℕ) :
    Except QuickCHRError (ℕ × ℕ) :=
  match segment with
  | some guestSegment =>
      if guestSegment = "" then .ok hostRange
      else if '-' ∉ guestSegment.toList then
        .error (fail spec <| s!"guest segment \"{guestSegment}\" must be a range matching the " ++
          "host range (e.g. 2000-2010), not a single port")
      else parseRange spec guestSegment "guest"
  | none => .ok hostRange

def expandRange (spec : String) (parts : List String) (given : Option Proto) :
    Except QuickCHRError (List PortMapping) :=
  if parts.length > 3 then
    .error (fail spec
      "too many \":\" segments (expected name:hostStart-hostEnd[:guestStart-guestEnd])")
  else
    let name := nameOf parts
    if name = "" then .error (fail spec "name is required")
    else
      let hostSegment := parts[1]?.getD ""
      if '-' ∉ hostSegment.toList then
        .error (fail spec <| "a range --forward requires an explicit host range (e.g. 9200-9210); " ++
          "ranges are not auto-allocated")
      else do
          let hostRange ← parseRange spec hostSegment "host"
          let guestRange ← guestRangeOf spec parts[2]? hostRange
          let hostCount := hostRange.2 - hostRange.1 + 1
          let guestCount := guestRange.2 - guestRange.1 + 1
          if hostCount ≠ guestCount then
            .error (fail spec <| s!"host range ({hostCount} ports) and guest range ({guestCount} ports) " ++
              "must be the same length")
          else if hostCount > FORWARD_RANGE_MAX then
            .error (fail spec
              s!"range spans {hostCount} ports, exceeding the {FORWARD_RANGE_MAX}-port cap")
          else return mappings name hostRange.1 guestRange.1 hostCount (protoOf given name)

def expandForwardSpec (spec : String) : Except QuickCHRError (List PortMapping) := do
  let (parts, given) ← segments spec
  if hasRange parts then expandRange spec parts given
  else return [← parseForwardSpec spec]

/-- The characters are the digits of a port. -/
structure ReadsPort (l : List Char) (n : ℕ) : Prop where
  nonempty : l ≠ []
  digits : l.all Char.isDigit = true
  value : Nat.ofDigitChars 10 l 0 = n

/-- A range as it is written: two numbers with a dash between them. -/
def ReadsRange (raw : String) (range : ℕ × ℕ) : Prop :=
  ∃ first last, raw.toList = first ++ '-' :: last ∧ ReadsPort first range.1 ∧ ReadsPort last range.2

variable {spec raw label : String} {parts : List String} {given : Option Proto}

theorem parsePort_eq_ok_iff {allowZero : Bool} {n : ℕ} :
    parsePort spec raw label allowZero = .ok n ↔
      ReadsPort raw.toList n ∧ (allowZero = false → 1 ≤ n) ∧ n ≤ 65535 := by
  unfold parsePort
  by_cases numeral : raw ≠ "" ∧ raw.toList.all Char.isDigit
  · have filled : raw.toList ≠ [] := fun empty => numeral.1 (String.toList_eq_nil_iff.mp empty)
    have read := Number.ofString_digits filled numeral.2
    rw [String.ofList_toList] at read
    rw [if_neg (not_not_intro numeral), read]
    dsimp only
    generalize value : Nat.ofDigitChars 10 raw.toList 0 = v
    have least : (v : ℤ) < (if allowZero = true then 0 else 1) ↔ ¬ (allowZero = false → 1 ≤ v) := by
      cases allowZero with
      | true => exact iff_of_false (by simp) fun none => none fun no => by cases no
      | false => simp
    have same : ∀ n, ReadsPort raw.toList n ↔ v = n := fun n =>
      ⟨fun reads => value.symm.trans reads.value, fun is => ⟨filled, numeral.2, value.trans is⟩⟩
    rw [same]
    by_cases small : v < 2 ^ 53
    · rw [Number.integer_round (Nat.le_of_lt small)]
      dsimp only
      by_cases outside : (v : ℤ) < (if allowZero = true then 0 else 1) ∨ 65535 < (v : ℤ)
      · rw [if_pos outside]
        refine iff_of_false (fun eq => by cases eq) ?_
        rintro ⟨rfl, low, high⟩
        rcases outside with below | above
        · exact least.mp below low
        · omega
      · rw [if_neg outside, Int.toNat_natCast]
        rw [not_or, least, not_not] at outside
        constructor
        · intro eq
          obtain rfl := Except.ok.inj eq
          exact ⟨rfl, outside.1, by omega⟩
        · rintro ⟨rfl, -⟩
          rfl
    · have large : ∀ m, (Number.round v).integer = some m → 65535 < m := fun m is => by
        have := Number.le_integer_round (Nat.le_of_not_lt small) is
        omega
      refine iff_of_false (fun eq => ?_) fun ⟨is, _, high⟩ => by omega
      cases is : (Number.round v).integer with
      | none =>
          rw [is] at eq
          cases eq
      | some m =>
          rw [is] at eq
          dsimp only at eq
          rw [if_pos (.inr (large m is))] at eq
          cases eq
  · rw [if_pos numeral]
    refine iff_of_false (fun eq => by cases eq) fun ⟨reads, _⟩ => numeral ⟨?_, reads.digits⟩
    rintro rfl
    exact reads.nonempty rfl

theorem dash_not_mem {l : List Char} (h : l.all Char.isDigit = true) : '-' ∉ l := fun member =>
  Bool.false_ne_true (List.all_eq_true.mp h _ member)

/-- A range is read just as it is written, when it is one of ports that go up. -/
theorem parseRange_eq_ok_iff (dash : '-' ∈ raw.toList) {range : ℕ × ℕ} :
    parseRange spec raw label = .ok range ↔
      ReadsRange raw range ∧ 1 ≤ range.1 ∧ range.1 ≤ range.2 ∧ range.2 ≤ 65535 := by
  obtain ⟨front, rest, whole, first⟩ := List.eq_append_cons_of_mem dash
  have cut : ReadsRange raw range ↔ ReadsPort front range.1 ∧ ReadsPort rest range.2 := by
    constructor
    · rintro ⟨front', rest', whole', reads, reads'⟩
      rw [whole] at whole'
      have lengths : front.length = front'.length := by
        have here := Text.indexOf_append first rest
        rw [whole', Text.indexOf_append (dash_not_mem reads.digits)] at here
        exact (Option.some.inj here).symm
      obtain ⟨rfl, tails⟩ := List.append_inj whole' lengths
      rw [List.cons_inj_right] at tails
      exact ⟨reads, tails ▸ reads'⟩
    · rintro ⟨reads, reads'⟩
      exact ⟨front, rest, whole, reads, reads'⟩
  unfold parseRange
  rw [cut, whole, Text.indexOf_append first]
  dsimp only
  rw [List.take_left' rfl, List.drop_append, List.drop_of_length_le (Nat.le_succ _), Nat.add_sub_cancel_left,
    List.drop_succ_cons, List.drop_zero, List.nil_append]
  constructor
  · intro eq
    obtain ⟨start, startOk, eq⟩ := bind_eq_ok.mp eq
    obtain ⟨last, lastOk, eq⟩ := bind_eq_ok.mp eq
    obtain ⟨reads, low, -⟩ := parsePort_eq_ok_iff.mp startOk
    obtain ⟨reads', -, high⟩ := parsePort_eq_ok_iff.mp lastOk
    rw [String.toList_ofList] at reads reads'
    split at eq
    · cases eq
    · cases eq
      exact ⟨⟨reads, reads'⟩, low rfl, by omega, high⟩
  · rintro ⟨⟨reads, reads'⟩, low, up, high⟩
    have startOk := @parsePort_eq_ok_iff spec (String.ofList front) s!"{label} range start" false range.1
    have lastOk := @parsePort_eq_ok_iff spec (String.ofList rest) s!"{label} range end" false range.2
    rw [String.toList_ofList] at startOk lastOk
    rw [startOk.mpr ⟨reads, fun _ => low, by omega⟩, lastOk.mpr ⟨reads', fun _ => by omega, high⟩]
    exact if_neg (by omega)

/-- The host and the guest range that the segments give; without a guest range it is the host's. -/
structure AsksFor (parts : List String) (host guest : ℕ × ℕ) : Prop where
  hostSegment : ReadsRange (parts[1]?.getD "") host
  guestSegment : ReadsRange (parts[2]?.getD "") guest ∨ parts[2]?.getD "" = "" ∧ guest = host

structure Fits (host guest : ℕ × ℕ) : Prop where
  hostPorts : 1 ≤ host.1 ∧ host.1 ≤ host.2 ∧ host.2 ≤ 65535
  guestPorts : 1 ≤ guest.1 ∧ guest.1 ≤ guest.2 ∧ guest.2 ≤ 65535
  equal : host.2 - host.1 = guest.2 - guest.1
  few : host.2 - host.1 + 1 ≤ FORWARD_RANGE_MAX

theorem ReadsRange.dash {range : ℕ × ℕ} (h : ReadsRange raw range) : '-' ∈ raw.toList := by
  obtain ⟨first, last, whole, -⟩ := h
  rw [whole]
  exact List.mem_append_right _ List.mem_cons_self

theorem ReadsRange.unique {range range' : ℕ × ℕ} (h : ReadsRange raw range) (h' : ReadsRange raw range') :
    range = range' := by
  obtain ⟨first, last, whole, reads, reads'⟩ := h
  obtain ⟨front, rest, whole', reads₁, reads₁'⟩ := h'
  have lengths := Text.indexOf_append (dash_not_mem reads.digits) last
  rw [← whole, whole', Text.indexOf_append (dash_not_mem reads₁.digits)] at lengths
  rw [whole] at whole'
  obtain ⟨rfl, tails⟩ := List.append_inj whole' (Option.some.inj lengths).symm
  rw [List.cons_inj_right] at tails
  subst tails
  exact Prod.ext (reads.value.symm.trans reads₁.value) (reads'.value.symm.trans reads₁'.value)

theorem ReadsRange.ne_empty {range : ℕ × ℕ} (h : ReadsRange raw range) : raw ≠ "" := by
  rintro rfl
  cases h.dash

theorem AsksFor.unique {host guest host' guest' : ℕ × ℕ} (h : AsksFor parts host guest)
    (h' : AsksFor parts host' guest') : host = host' ∧ guest = guest' := by
  have hosts := h.hostSegment.unique h'.hostSegment
  refine ⟨hosts, ?_⟩
  rcases h.guestSegment with reads | ⟨empty, rfl⟩
  · rcases h'.guestSegment with reads' | ⟨empty, -⟩
    · exact reads.unique reads'
    · exact absurd empty reads.ne_empty
  · rcases h'.guestSegment with reads' | ⟨-, rfl⟩
    · exact absurd empty reads'.ne_empty
    · exact hosts

theorem guestRangeOf_eq_ok_iff {segment : Option String} {host guest : ℕ × ℕ} :
    guestRangeOf spec segment host = .ok guest ↔
      (ReadsRange (segment.getD "") guest ∧ 1 ≤ guest.1 ∧ guest.1 ≤ guest.2 ∧ guest.2 ≤ 65535) ∨
        segment.getD "" = "" ∧ guest = host := by
  have default : segment.getD "" = "" → (Except.ok host = (Except.ok guest : Except QuickCHRError _) ↔
      (ReadsRange (segment.getD "") guest ∧ 1 ≤ guest.1 ∧ guest.1 ≤ guest.2 ∧ guest.2 ≤ 65535) ∨
        segment.getD "" = "" ∧ guest = host) := by
    intro empty
    constructor
    · exact fun eq => .inr ⟨empty, (Except.ok.inj eq).symm⟩
    · rintro (⟨reads, -⟩ | ⟨-, rfl⟩)
      · exact absurd empty reads.ne_empty
      · rfl
  unfold guestRangeOf
  cases segment with
  | none => exact default rfl
  | some segment =>
      dsimp only
      by_cases empty : segment = ""
      · rw [if_pos empty]
        exact default empty
      · rw [if_neg empty, Option.getD_some, or_iff_left fun both => empty both.1]
        by_cases dash : '-' ∈ segment.toList
        · rw [if_neg (not_not_intro dash)]
          exact parseRange_eq_ok_iff dash
        · rw [if_pos dash]
          exact iff_of_false (fun eq => by cases eq) fun reads => dash reads.1.dash

/-- A spec with a range is expanded just when it asks for ranges that fit. -/
theorem expandRange_eq_ok_iff {expanded : List PortMapping} :
    expandRange spec parts given = .ok expanded ↔
      parts.length ≤ 3 ∧ nameOf parts ≠ "" ∧ ∃ host guest, AsksFor parts host guest ∧ Fits host guest ∧
        expanded = mappings (nameOf parts) host.1 guest.1 (host.2 - host.1 + 1) (protoOf given (nameOf parts)) := by
  unfold expandRange
  by_cases many : parts.length > 3
  · rw [if_pos many]
    exact iff_of_false (fun eq => by cases eq) fun ⟨few, _⟩ => by omega
  rw [if_neg many, and_iff_right (by omega)]
  dsimp only
  by_cases unnamed : nameOf parts = ""
  · rw [if_pos unnamed]
    exact iff_of_false (fun eq => by cases eq) fun ⟨named, _⟩ => named unnamed
  rw [if_neg unnamed, and_iff_right unnamed]
  by_cases dash : '-' ∈ (parts[1]?.getD "").toList
  · rw [if_neg (not_not_intro dash)]
    constructor
    · intro eq
      obtain ⟨host, hostOk, eq⟩ := bind_eq_ok.mp eq
      obtain ⟨guest, guestOk, eq⟩ := bind_eq_ok.mp eq
      obtain ⟨reads, hostPorts⟩ := (parseRange_eq_ok_iff dash).mp hostOk
      have guests := guestRangeOf_eq_ok_iff.mp guestOk
      split at eq
      · cases eq
      · split at eq
        · cases eq
        · rename_i equal few
          refine ⟨host, guest, ⟨reads, guests.imp_left And.left⟩, ⟨hostPorts, ?_, by omega, by omega⟩,
            (Except.ok.inj eq).symm⟩
          rcases guests with ⟨-, ports⟩ | ⟨-, rfl⟩
          · exact ports
          · exact hostPorts
    · rintro ⟨host, guest, asks, fits, rfl⟩
      have guests := asks.guestSegment.imp_left fun reads => And.intro reads fits.guestPorts
      have equal := fits.equal
      refine bind_eq_ok.mpr ⟨host, (parseRange_eq_ok_iff dash).mpr ⟨asks.hostSegment, fits.hostPorts⟩, ?_⟩
      refine bind_eq_ok.mpr ⟨guest, guestRangeOf_eq_ok_iff.mpr guests, ?_⟩
      rw [if_neg (not_not_intro (by rw [equal])), if_neg (Nat.not_lt.mpr fits.few)]
      rfl
  · rw [if_pos dash]
    refine iff_of_false (fun eq => by cases eq) ?_
    rintro ⟨host, guest, asks, -⟩
    exact dash asks.hostSegment.dash

def Ranged (spec : String) : Prop := ∃ parts given, segments spec = .ok (parts, given) ∧ hasRange parts = true

structure Expansion (expanded : List PortMapping) : Prop where
  nonempty : 1 ≤ expanded.length
  few : expanded.length ≤ FORWARD_RANGE_MAX
  names : (expanded.map PortMapping.name).Nodup
  consecutive : ∃ start, expanded.map PortMapping.host = List.range' start expanded.length
  ports : ∀ m ∈ expanded, (1 ≤ m.host ∧ m.host ≤ 65535) ∧ 1 ≤ m.guest ∧ m.guest ≤ 65535
  difference : ∃ d : ℤ, ∀ m ∈ expanded, (m.guest : ℤ) - m.host = d
  protocol : ∃ proto, ∀ m ∈ expanded, m.proto = proto

theorem numbered_injective {name : String} {m n : ℕ} (h : s!"{name}-{m}" = s!"{name}-{n}") : m = n := by
  have texts : ∀ k : ℕ, (s!"{name}-{k}").toList = (name ++ "-").toList ++ Nat.toDigits 10 k := fun k =>
    String.toList_append.trans (congrArg _ Nat.toList_repr)
  have same := congrArg String.toList h
  rw [texts, texts] at same
  have digits := congrArg (fun l => Nat.ofDigitChars 10 l 0) (List.append_cancel_left same)
  rwa [Nat.ofDigitChars_ten_toDigits, Nat.ofDigitChars_ten_toDigits] at digits

theorem expansion_mappings {name : String} {host guest : ℕ × ℕ} {proto : Proto} (fits : Fits host guest) :
    Expansion (mappings name host.1 guest.1 (host.2 - host.1 + 1) proto) := by
  have length : (mappings name host.1 guest.1 (host.2 - host.1 + 1) proto).length = host.2 - host.1 + 1 := by
    rw [mappings, List.length_map, List.length_range]
  have member : ∀ m ∈ mappings name host.1 guest.1 (host.2 - host.1 + 1) proto,
      ∃ i ≤ host.2 - host.1, m.host = host.1 + i ∧ m.guest = guest.1 + i ∧ m.proto = proto := by
    intro m inside
    obtain ⟨i, below, rfl⟩ := List.mem_map.mp inside
    exact ⟨i, Nat.lt_succ_iff.mp (List.mem_range.mp below), rfl, rfl, rfl⟩
  have hostPorts := fits.hostPorts
  have guestPorts := fits.guestPorts
  have equal := fits.equal
  refine ⟨?_, ?_, ?_, ⟨host.1, ?_⟩, fun m inside => ?_, ⟨guest.1 - host.1, fun m inside => ?_⟩,
    ⟨proto, fun m inside => ?_⟩⟩
  · rw [length]
    exact Nat.le_add_left 1 _
  · rw [length]
    exact fits.few
  · rw [mappings, List.map_map]
    refine List.nodup_range.map fun i j same => ?_
    exact Nat.add_left_cancel (numbered_injective same)
  · rw [length, mappings, List.map_map, List.range'_eq_map_range]
    rfl
  · obtain ⟨i, below, hosts, guests, -⟩ := member m inside
    omega
  · obtain ⟨i, below, hosts, guests, -⟩ := member m inside
    omega
  · obtain ⟨i, below, -, -, same⟩ := member m inside
    exact same

theorem expandForwardSpec_ranged (h : segments spec = .ok (parts, given)) (ranged : hasRange parts = true) :
    expandForwardSpec spec = expandRange spec parts given := by
  rw [expandForwardSpec, h]
  exact if_pos ranged

theorem expandForwardSpec_single {expanded : List PortMapping} (h : expandForwardSpec spec = .ok expanded)
    (single : ¬ Ranged spec) : ∃ m, parseForwardSpec spec = .ok m ∧ expanded = [m] := by
  obtain ⟨⟨parts, given⟩, read, h⟩ := bind_eq_ok.mp h
  dsimp only at h
  rw [if_neg fun ranged => single ⟨parts, given, read, ranged⟩] at h
  obtain ⟨m, parsed, h⟩ := bind_eq_ok.mp h
  exact ⟨m, parsed, (Except.ok.inj h).symm⟩

def protoText : Proto → String
  | .tcp => "tcp"
  | .udp => "udp"

def rangeText (start count : ℕ) : String := s!"{start}-{start + count - 1}"

def written (name : String) (host guest count : ℕ) (proto : Proto) : String :=
  Text.join ":" [name, rangeText host count, rangeText guest count] ++ "/" ++ protoText proto

structure WellFormedName (name : String) : Prop where
  nonempty : name ≠ ""
  trimmed : Text.trim name = name
  colon : ':' ∉ name.toList
  slash : '/' ∉ name.toList

theorem toList_rangeText (start count : ℕ) : (rangeText start count).toList =
    Nat.toDigits 10 start ++ '-' :: Nat.toDigits 10 (start + count - 1) := by
  rw [rangeText, show s!"{start}-{start + count - 1}" = start.repr ++ "-" ++ (start + count - 1).repr from rfl,
    String.toList_append, String.toList_append, Nat.toList_repr, Nat.toList_repr, List.append_assoc]
  rfl

theorem readsPort_toDigits (n : ℕ) : ReadsPort (Nat.toDigits 10 n) n where
  nonempty := Nat.toDigits_ne_nil
  digits := List.all_eq_true.mpr fun c member => Nat.isDigit_of_mem_toDigits (by decide) (by decide) member
  value := Nat.ofDigitChars_ten_toDigits

theorem readsRange_rangeText (start count : ℕ) : ReadsRange (rangeText start count) (start, start + count - 1) :=
  ⟨_, _, toList_rangeText start count, readsPort_toDigits start, readsPort_toDigits _⟩

theorem not_mem_rangeText {c : Char} (noDigit : c.isDigit = false) (noDash : c ≠ '-') (start count : ℕ) :
    c ∉ (rangeText start count).toList := by
  have digits : ∀ n, c ∉ Nat.toDigits 10 n := fun n member => by
    have digit := Nat.isDigit_of_mem_toDigits (by decide) (by decide) member
    rw [noDigit] at digit
    cases digit
  rw [toList_rangeText, List.mem_append, List.mem_cons]
  rintro (first | dash | last)
  · exact digits _ first
  · exact noDash dash
  · exact digits _ last

theorem segments_written {name : String} (wellFormed : WellFormedName name) (host guest count : ℕ) (proto : Proto) :
    segments (written name host guest count proto) =
      .ok ([name, rangeText host count, rangeText guest count], some proto) := by
  have body : ∀ c, c ∉ name.toList → c.isDigit = false → c ≠ '-' → c ≠ ':' →
      c ∉ (Text.join ":" [name, rangeText host count, rangeText guest count]).toList := by
    intro c named noDigit noDash noColon
    rw [Text.join, String.toList_intercalate]
    have hosts := not_mem_rangeText noDigit noDash host count
    have guests := not_mem_rangeText noDigit noDash guest count
    simp [List.intercalate, named, hosts, guests, noColon]
  have whole : (written name host guest count proto).toList =
      (Text.join ":" [name, rangeText host count, rangeText guest count]).toList ++
        '/' :: (protoText proto).toList := by
    rw [written, String.toList_append, String.toList_append, List.append_assoc]
    rfl
  have trimmed : Text.trim (written name host guest count proto) = written name host guest count proto := by
    refine Text.trim_eq_self (fun c is => ?_) fun c is => ?_
    · obtain ⟨d, rest, first⟩ := List.exists_cons_of_ne_nil
        fun none => wellFormed.nonempty (String.toList_eq_nil_iff.mp none)
      rw [whole, Text.join, String.toList_intercalate, List.map_cons, first] at is
      have same : d = c := Option.some.inj is
      refine Text.isSpace_head_trim (s := name) ?_
      rw [wellFormed.trimmed, first, ← same]
      rfl
    · rw [whole] at is
      cases proto <;> (rw [List.getLast?_append] at is; cases is; decide)
  have slash : '/' ∉ (protoText proto).toList := by cases proto <;> decide
  have filled : written name host guest count proto ≠ "" := fun none => by
    rw [none] at whole
    exact List.append_ne_nil_of_right_ne_nil _ (List.cons_ne_nil _ _) whole.symm
  unfold segments splitProto
  rw [trimmed]
  dsimp only
  rw [if_neg filled, whole, Text.lastIndexOf_append slash]
  dsimp only
  rw [List.take_left' rfl, List.drop_append, List.drop_of_length_le (Nat.le_succ _), Nat.add_sub_cancel_left,
    List.drop_succ_cons, List.drop_zero, List.nil_append, String.ofList_toList, String.ofList_toList]
  have colon : ∀ part ∈ [name, rangeText host count, rangeText guest count], ':' ∉ part.toList := by
    intro part member
    rcases List.mem_cons.mp member with rfl | member
    · exact wellFormed.colon
    rcases List.mem_cons.mp member with rfl | member
    · exact not_mem_rangeText (by decide) (by decide) _ _
    · rw [List.mem_singleton.mp member]
      exact not_mem_rangeText (by decide) (by decide) _ _
  have parts := @Text.split_join _ ":" ':' rfl colon (List.cons_ne_nil _ _)
  cases proto with
  | tcp =>
      rw [show Text.toLowerCase (protoText .tcp) = "tcp" by decide, if_pos rfl]
      exact congrArg (fun l => Except.ok (l, some Proto.tcp)) parts
  | udp =>
      rw [show Text.toLowerCase (protoText .udp) = "udp" by decide, if_neg (by decide), if_pos rfl]
      exact congrArg (fun l => Except.ok (l, some Proto.udp)) parts

theorem expandForwardSpec_written {name : String} (wellFormed : WellFormedName name) {host guest count : ℕ}
    (some : 1 ≤ count) (few : count ≤ FORWARD_RANGE_MAX) (hostPorts : 1 ≤ host ∧ host + count - 1 ≤ 65535)
    (guestPorts : 1 ≤ guest ∧ guest + count - 1 ≤ 65535) (proto : Proto) :
    expandForwardSpec (written name host guest count proto) = .ok (mappings name host guest count proto) := by
  have ranged : hasRange [name, rangeText host count, rangeText guest count] = true := by
    have dash := (readsRange_rangeText host count).dash
    refine Bool.or_eq_true_iff.mpr (.inl ?_)
    exact decide_eq_true dash
  rw [expandForwardSpec_ranged (segments_written wellFormed host guest count proto) ranged]
  refine expandRange_eq_ok_iff.mpr ⟨Nat.le_refl 3, ?_, (host, host + count - 1), (guest, guest + count - 1),
    ⟨readsRange_rangeText host count, .inl (readsRange_rangeText guest count)⟩, ?_, ?_⟩
  · rw [nameOf, List.headD_cons, wellFormed.trimmed]
    exact wellFormed.nonempty
  · exact
      { hostPorts := by dsimp only; omega
        guestPorts := by dsimp only; omega
        equal := by dsimp only; omega
        few := by dsimp only; omega }
  · rw [nameOf, List.headD_cons, wellFormed.trimmed, show host + count - 1 - host + 1 = count by omega]
    rfl

/-- What an accepted spec is expanded to, and which specs with a range are refused: ranges that are
reversed, unequal, too long or not of ports, and segments without a host range or with a guest segment
that is no range. -/
theorem expandForwardSpec_exact :
    (∀ spec expanded, expandForwardSpec spec = .ok expanded → ¬ Ranged spec →
      ∃ m, parseForwardSpec spec = .ok m ∧ expanded = [m]) ∧
    (∀ spec expanded, expandForwardSpec spec = .ok expanded → Ranged spec → Expansion expanded) ∧
    (∀ name host guest count proto, WellFormedName name → 1 ≤ count → count ≤ FORWARD_RANGE_MAX →
      1 ≤ host ∧ host + count - 1 ≤ 65535 → 1 ≤ guest ∧ guest + count - 1 ≤ 65535 →
        expandForwardSpec (written name host guest count proto) = .ok (mappings name host guest count proto)) ∧
    (∀ spec parts given host guest, segments spec = .ok (parts, given) → AsksFor parts host guest →
      host.2 < host.1 ∨ guest.2 < guest.1 ∨ host.2 - host.1 ≠ guest.2 - guest.1 ∨
        FORWARD_RANGE_MAX < host.2 - host.1 + 1 ∨ host.1 = 0 ∨ guest.1 = 0 ∨ 65535 < host.2 ∨ 65535 < guest.2 →
      ∃ e, expandForwardSpec spec = .error e) ∧
    (∀ spec parts given, segments spec = .ok (parts, given) → hasRange parts = true →
      (¬ ∃ host guest, AsksFor parts host guest) → ∃ e, expandForwardSpec spec = .error e) := by
  have refused : ∀ {spec}, (∀ expanded, expandForwardSpec spec ≠ .ok expanded) →
      ∃ e, expandForwardSpec spec = .error e := by
    intro spec never
    cases is : expandForwardSpec spec with
    | error e => exact ⟨e, rfl⟩
    | ok expanded => exact absurd is (never expanded)
  refine ⟨fun spec expanded h single => expandForwardSpec_single h single, ?_, ?_, ?_, ?_⟩
  · rintro spec expanded h ⟨parts, given, read, ranged⟩
    rw [expandForwardSpec_ranged read ranged] at h
    obtain ⟨-, -, host, guest, -, fits, rfl⟩ := expandRange_eq_ok_iff.mp h
    exact expansion_mappings fits
  · intro name host guest count proto wellFormed some few hostPorts guestPorts
    exact expandForwardSpec_written wellFormed some few hostPorts guestPorts proto
  · intro spec parts given host guest read asks bad
    have ranged : hasRange parts = true := by
      refine Bool.or_eq_true_iff.mpr (.inl ?_)
      have dash := asks.hostSegment.dash
      unfold isRange
      cases is : parts[1]? with
      | none =>
          rw [is] at dash
          cases dash
      | some raw =>
          rw [is] at dash
          exact decide_eq_true dash
    refine refused fun expanded h => ?_
    rw [expandForwardSpec_ranged read ranged] at h
    obtain ⟨-, -, host', guest', asks', fits, -⟩ := expandRange_eq_ok_iff.mp h
    obtain ⟨rfl, rfl⟩ := asks.unique asks'
    have hostPorts := fits.hostPorts
    have guestPorts := fits.guestPorts
    have equal := fits.equal
    have few := fits.few
    omega
  · intro spec parts given read ranged none
    refine refused fun expanded h => ?_
    rw [expandForwardSpec_ranged read ranged] at h
    obtain ⟨-, -, host, guest, asks, -⟩ := expandRange_eq_ok_iff.mp h
    exact none ⟨host, guest, asks⟩

/-- A name is looked up in any case, and a range is written and read. -/
theorem expandForwardSpec_exact_socks :
    (∃ m, parseForwardSpec "soc\u212as" = .ok m ∧ [⟨"soc\u212as", 0, 1080, .tcp⟩] = [m]) ∧
      expandForwardSpec (written "btest" 9200 2000 3 .udp) = .ok (mappings "btest" 9200 2000 3 .udp) ∧
      ∃ e, expandForwardSpec "btest:9202-9200" = .error e := by
  obtain ⟨single, -, ranges, refused, -⟩ := expandForwardSpec_exact
  have whole : segments "soc\u212as" = .ok (["soc\u212as"], none) := by decide +kernel
  have reversed : segments "btest:9202-9200" = .ok (["btest", "9202-9200"], none) := by decide +kernel
  refine ⟨single _ _ (by decide +kernel) ?_, ranges _ _ _ _ _ ⟨by decide, by decide, by decide, by decide⟩
    (by decide) (by decide) (by decide) (by decide), refused _ _ _ (9202, 9200) (9202, 9200) reversed ?_ (.inl (by decide))⟩
  · rintro ⟨parts, given, read, ranged⟩
    rw [whole] at read
    cases read
    cases ranged
  · exact ⟨⟨"9202".toList, "9200".toList, by decide, ⟨by decide, by decide, by decide⟩, ⟨by decide, by decide, by decide⟩⟩,
      .inr ⟨rfl, rfl⟩⟩

example : expandForwardSpec "btest:9200-9202:2000-2002/udp" =
    .ok [⟨"btest-9200", 9200, 2000, .udp⟩, ⟨"btest-9201", 9201, 2001, .udp⟩,
      ⟨"btest-9202", 9202, 2002, .udp⟩] := by decide +kernel

end Quickchr.ForwardSpec
