import Quickchr.NetworkResolution
import Quickchr.Names
import Quickchr.Lib.Number

/-!
# Network specifiers as they are typed

A specifier is a word, or a kind and its argument behind a colon; a socket has a kind of its own, and
its port goes through `Number`.
-/
namespace Quickchr.NetworkSpecifiers

def invalid (message : String) : QuickCHRError := { code := .INVALID_NETWORK, message }

def literal (trimmed : String) : Option NetworkSpecifier :=
  if trimmed = "user" then some .user
  else if trimmed = "shared" ∨ trimmed = "auto" then some .shared
  else if trimmed = "vmnet-shared" then some .vmnetShared
  else if trimmed = "wifi" then some (.bridged "wifi")
  else if trimmed = "ethernet" then some (.bridged "ethernet")
  else none

def portOf (segment : Option String) : Option ℕ :=
  match segment with
  | none => none
  | some raw =>
      if raw = "" then none
      else
        match (Number.ofString raw).integer with
        | some port => if port < 1 ∨ 65535 < port then none else some port.toNat
        | none => none

def parseSocketSpecifier (input : String) : Except QuickCHRError NetworkSpecifier :=
  match Text.after "socket::" input with
  | some name =>
      if name = "" then .error (invalid "socket:: requires a link name (e.g. socket::mylink)")
      else (assertValidResourceName name "named socket").map fun _ => .socket name
  | none =>
      let parts := Text.split input ':'
      let subtype := parts[1]?.getD "undefined"
      let noPort := invalid s!"socket:{subtype}: requires a valid port number (1–65535)"
      if subtype = "listen" then (portOf parts[2]?).elim (.error noPort) fun port => .ok (.socketListen port)
      else if subtype = "connect" then
        (portOf parts[2]?).elim (.error noPort) fun port => .ok (.socketConnect port)
      else if subtype = "mcast" then
        match parts[2]?.filter (· ≠ ""), portOf parts[3]? with
        | some group, some port => .ok (.socketMcast group port)
        | _, _ =>
            .error (invalid
              "socket:mcast requires group and port (e.g. socket:mcast:230.0.0.1:4001)")
      else .error (invalid s!"Unknown socket subtype: \"{subtype}\" in \"{input}\"")

/-- A kind whose argument is the name of an interface. -/
def named (name requires : String) (specifier : String → NetworkSpecifier) :
    Except QuickCHRError NetworkSpecifier :=
  if name = "" then .error (invalid requires) else .ok (specifier name)

/-- What is no word: a kind and its argument. -/
def parseKind (trimmed : String) : Except QuickCHRError NetworkSpecifier :=
  match Text.after "bridged:" trimmed with
  | some iface => named iface "bridged: requires an interface name (e.g. bridged:en0)" .bridged
  | none =>
      match Text.after "vmnet-bridged:" trimmed with
      | some iface =>
          named iface "vmnet-bridged: requires an interface name (e.g. vmnet-bridged:en0)" .vmnetBridged
      | none =>
          match Text.after "tap:" trimmed with
          | some ifname => named ifname "tap: requires an interface name (e.g. tap:tap-chr0)" .tap
          | none =>
              if Text.startsWith trimmed "socket:" then parseSocketSpecifier trimmed
              else .error (invalid s!"Unknown network specifier: \"{trimmed}\"")

def parseNetworkSpecifier (input : String) : Except QuickCHRError NetworkSpecifier :=
  let trimmed := Text.trim input
  if trimmed = "" then .error (invalid "Empty network specifier")
  else (literal trimmed).elim (parseKind trimmed) .ok

def Port (text : String) : Prop :=
  text ≠ "" ∧ text.toList.all Char.isDigit = true ∧
    1 ≤ Nat.ofDigitChars 10 text.toList 0 ∧ Nat.ofDigitChars 10 text.toList 0 ≤ 65535

inductive InGrammar : String → Prop
  | literal (word : String)
      (is : word ∈ ["user", "shared", "auto", "vmnet-shared", "wifi", "ethernet"]) : InGrammar word
  | bridged (iface : String) (filled : iface ≠ "") : InGrammar s!"bridged:{iface}"
  | vmnetBridged (iface : String) (filled : iface ≠ "") : InGrammar s!"vmnet-bridged:{iface}"
  | tap (ifname : String) (filled : ifname ≠ "") : InGrammar s!"tap:{ifname}"
  | socket (name : String) (valid : assertValidResourceName name "named socket" = .ok ()) :
      InGrammar s!"socket::{name}"
  | listen (port : String) (is : Port port) : InGrammar s!"socket:listen:{port}"
  | connect (port : String) (is : Port port) : InGrammar s!"socket:connect:{port}"
  | mcast (group port : String) (filled : group ≠ "") (segment : ':' ∉ group.toList) (is : Port port) :
      InGrammar s!"socket:mcast:{group}:{port}"

def write : NetworkSpecifier → String
  | .user => "user"
  | .shared => "shared"
  | .vmnetShared => "vmnet-shared"
  | .socket name => s!"socket::{name}"
  | .socketListen port => s!"socket:listen:{port}"
  | .socketConnect port => s!"socket:connect:{port}"
  | .socketMcast group port => s!"socket:mcast:{group}:{port}"
  | .bridged iface => s!"bridged:{iface}"
  | .vmnetBridged iface => s!"vmnet-bridged:{iface}"
  | .tap ifname => s!"tap:{ifname}"

def unalias (trimmed : String) : String :=
  if trimmed = "auto" then "shared"
  else if trimmed = "wifi" then "bridged:wifi"
  else if trimmed = "ethernet" then "bridged:ethernet"
  else trimmed

/-- The segment that is read as a port, and the segments that follow it. -/
def portSegment (trimmed : String) : Option (String × List String) :=
  match Text.split trimmed ':' with
  | "socket" :: "listen" :: raw :: rest => some (raw, rest)
  | "socket" :: "connect" :: raw :: rest => some (raw, rest)
  | "socket" :: "mcast" :: group :: raw :: rest => if group = "" then none else some (raw, rest)
  | _ => none

/-- A segment that `Number` takes for a port is that port in plain digits, and nothing follows it. -/
def PlainPort (trimmed : String) : Prop :=
  ∀ raw rest, portSegment trimmed = some (raw, rest) → ∀ port, portOf (some raw) = some port →
    raw = toString port ∧ rest = []

variable {input t : String} {specifier : NetworkSpecifier}

theorem portOf_range {raw : String} {port : ℕ} (h : portOf (some raw) = some port) : 1 ≤ port ∧ port ≤ 65535 := by
  unfold portOf at h
  dsimp only at h
  split at h
  · cases h
  · split at h
    · split at h
      · cases h
      · obtain rfl := Option.some.inj h
        omega
    · cases h

theorem portOf_port {text : String} (is : Port text) :
    portOf (some text) = some (Nat.ofDigitChars 10 text.toList 0) := by
  obtain ⟨filled, digits, low, high⟩ := is
  have read := Number.ofString_digits (fun none => filled (String.toList_eq_nil_iff.mp none)) digits
  rw [String.ofList_toList] at read
  unfold portOf
  dsimp only
  rw [if_neg filled, read, Number.integer_round (by omega)]
  dsimp only
  rw [if_neg (by omega), Int.toNat_natCast]

theorem port_toString {port : ℕ} (range : 1 ≤ port ∧ port ≤ 65535) : Port (toString port) := by
  have text : (toString port).toList = Nat.toDigits 10 port := Nat.toList_repr
  refine ⟨fun none => ?_, ?_, ?_⟩
  · rw [none] at text
    exact Nat.toDigits_ne_nil text.symm
  · rw [text]
    exact List.all_eq_true.mpr fun c member => Nat.isDigit_of_mem_toDigits (by decide) (by decide) member
  · rw [text, Nat.ofDigitChars_ten_toDigits]
    exact range

theorem Port.colon {text : String} (is : Port text) : ':' ∉ text.toList := fun member =>
  Bool.false_ne_true (List.all_eq_true.mp is.2.1 _ member)

theorem split_listen (port : String) :
    Text.split s!"socket:listen:{port}" ':' = "socket" :: "listen" :: Text.split port ':' := by
  have pieces : s!"socket:listen:{port}" = "socket" ++ (":" ++ ("listen" ++ (":" ++ port))) := by
    rw [← String.append_assoc, ← String.append_assoc, ← String.append_assoc]
    rfl
  rw [pieces, Text.split_append_sep rfl (by decide), Text.split_append_sep rfl (by decide)]

theorem split_connect (port : String) :
    Text.split s!"socket:connect:{port}" ':' = "socket" :: "connect" :: Text.split port ':' := by
  have pieces : s!"socket:connect:{port}" = "socket" ++ (":" ++ ("connect" ++ (":" ++ port))) := by
    rw [← String.append_assoc, ← String.append_assoc, ← String.append_assoc]
    rfl
  rw [pieces, Text.split_append_sep rfl (by decide), Text.split_append_sep rfl (by decide)]

theorem split_mcast {group : String} (segment : ':' ∉ group.toList) (port : String) :
    Text.split s!"socket:mcast:{group}:{port}" ':' =
      "socket" :: "mcast" :: group :: Text.split port ':' := by
  have pieces : s!"socket:mcast:{group}:{port}" =
      "socket" ++ (":" ++ ("mcast" ++ (":" ++ (group ++ (":" ++ port))))) := by
    rw [← String.append_assoc, ← String.append_assoc, ← String.append_assoc, ← String.append_assoc,
      ← String.append_assoc]
    rfl
  rw [pieces, Text.split_append_sep rfl (by decide), Text.split_append_sep rfl (by decide),
    Text.split_append_sep rfl segment]

theorem join_socket (kind raw : String) (rest : List String) :
    Text.join ":" ("socket" :: kind :: raw :: rest) = "socket:" ++ kind ++ ":" ++ Text.join ":" (raw :: rest) := by
  rw [Text.join, String.intercalate_cons_cons, String.intercalate_cons_cons, ← String.append_assoc]
  rfl

theorem literal_of_colon (colon : ':' ∈ t.toList) : literal t = none := by
  have other : ∀ word : String, ':' ∉ word.toList → t ≠ word := by
    rintro word clean rfl
    exact clean colon
  unfold literal
  rw [if_neg (other _ (by decide)), if_neg (not_or_intro (other _ (by decide)) (other _ (by decide))),
    if_neg (other _ (by decide)), if_neg (other _ (by decide)), if_neg (other _ (by decide))]

theorem unalias_of_colon (colon : ':' ∈ t.toList) : unalias t = t := by
  have other : ∀ word : String, ':' ∉ word.toList → t ≠ word := by
    rintro word clean rfl
    exact clean colon
  unfold unalias
  rw [if_neg (other _ (by decide)), if_neg (other _ (by decide)), if_neg (other _ (by decide))]

theorem parse_of_colon (is : Text.trim input = t) (colon : ':' ∈ t.toList) :
    parseNetworkSpecifier input = parseKind t := by
  have filled : t ≠ "" := by
    rintro rfl
    cases colon
  unfold parseNetworkSpecifier
  rw [is]
  dsimp only
  rw [if_neg filled, literal_of_colon colon]
  rfl

theorem parseKind_bridged {iface : String} (filled : iface ≠ "") :
    parseKind ("bridged:" ++ iface) = .ok (.bridged iface) := by
  unfold parseKind
  rw [Text.after_eq_some.mpr rfl]
  exact if_neg filled

theorem parseKind_vmnetBridged {iface : String} (filled : iface ≠ "") :
    parseKind ("vmnet-bridged:" ++ iface) = .ok (.vmnetBridged iface) := by
  unfold parseKind
  rw [Text.after_append_eq_none _ (by decide), Text.after_eq_some.mpr rfl]
  exact if_neg filled

theorem parseKind_tap {ifname : String} (filled : ifname ≠ "") :
    parseKind ("tap:" ++ ifname) = .ok (.tap ifname) := by
  unfold parseKind
  rw [Text.after_append_eq_none _ (by decide), Text.after_append_eq_none _ (by decide),
    Text.after_eq_some.mpr rfl]
  exact if_neg filled

theorem parseKind_socket (rest : String) :
    parseKind ("socket:" ++ rest) = parseSocketSpecifier ("socket:" ++ rest) := by
  have starts : Text.startsWith ("socket:" ++ rest) "socket:" = true := by
    rw [Text.startsWith, String.toList_append]
    exact List.isPrefixOf_iff_prefix.mpr (List.prefix_append _ _)
  unfold parseKind
  rw [Text.after_append_eq_none _ (by decide), Text.after_append_eq_none _ (by decide),
    Text.after_append_eq_none _ (by decide)]
  exact if_pos starts

theorem parseSocketSpecifier_socket {name : String} (valid : assertValidResourceName name "named socket" = .ok ()) :
    parseSocketSpecifier ("socket::" ++ name) = .ok (.socket name) := by
  have filled : name ≠ "" := by
    rintro rfl
    cases valid
  unfold parseSocketSpecifier
  rw [Text.after_eq_some.mpr rfl]
  dsimp only
  rw [if_neg filled, valid]
  rfl

theorem named_eq_ok {name requires : String} {make : String → NetworkSpecifier}
    (h : named name requires make = .ok specifier) : name ≠ "" ∧ specifier = make name := by
  unfold named at h
  split at h
  · cases h
  · rename_i filled
    exact ⟨filled, (Except.ok.inj h).symm⟩

/-- A socket that is accepted is a named one, or one whose port segment is a port for `Number`. -/
theorem parseSocketSpecifier_eq_ok {rest : String}
    (h : parseSocketSpecifier ("socket:" ++ rest) = .ok specifier) :
    (∃ name, assertValidResourceName name "named socket" = .ok () ∧ "socket:" ++ rest = "socket::" ++ name ∧
      specifier = .socket name) ∨
    ∃ raw after port, portSegment ("socket:" ++ rest) = some (raw, after) ∧ portOf (some raw) = some port := by
  obtain ⟨subtype, segments, later⟩ := List.exists_cons_of_ne_nil
    fun none => List.splitOn_ne_nil ':' rest.toList (List.map_eq_nil_iff.mp none)
  have pieces : Text.split ("socket:" ++ rest) ':' = "socket" :: subtype :: segments := by
    rw [show "socket:" = "socket" ++ ":" from rfl, String.append_assoc, Text.split_append_sep rfl (by decide)]
    exact congrArg _ later
  unfold parseSocketSpecifier at h
  cases found : Text.after "socket::" ("socket:" ++ rest) with
  | some name =>
      rw [found] at h
      dsimp only at h
      split at h
      · cases h
      · obtain ⟨_, valid, is⟩ := map_eq_ok.mp h
        exact .inl ⟨name, valid, Text.after_eq_some.mp found, is.symm⟩
  | none =>
      refine .inr ?_
      rw [found, pieces] at h
      unfold portSegment
      rw [pieces]
      have port : ∀ {segment : Option String} {error : QuickCHRError} {make : ℕ → NetworkSpecifier},
          ((portOf segment).elim (.error error) fun port => .ok (make port)) = Except.ok specifier →
            ∃ raw port, segment = some raw ∧ portOf (some raw) = some port := by
        intro segment error make h
        cases segment with
        | none => cases h
        | some raw =>
            cases is : portOf (some raw) with
            | none =>
                rw [is] at h
                cases h
            | some port => exact ⟨raw, port, rfl, is⟩
      dsimp only [List.getElem?_cons_succ, List.getElem?_cons_zero, Option.getD_some] at h
      have third : ∀ {raw : String}, segments[0]? = some raw → ∃ after, segments = raw :: after := by
        intro raw third
        cases segments with
        | nil => cases third
        | cons first after => exact ⟨after, by rw [Option.some.inj third]⟩
      split at h
      · rename_i listen
        obtain ⟨raw, n, is, reads⟩ := port h
        obtain ⟨after, rfl⟩ := third is
        subst listen
        exact ⟨raw, after, n, rfl, reads⟩
      · split at h
        · rename_i connect
          obtain ⟨raw, n, is, reads⟩ := port h
          obtain ⟨after, rfl⟩ := third is
          subst connect
          exact ⟨raw, after, n, rfl, reads⟩
        · split at h
          · rename_i mcast
            subst mcast
            split at h
            · rename_i group n filled reads
              obtain ⟨is, nonempty⟩ := Option.filter_eq_some_iff.mp filled
              obtain ⟨tail, rfl⟩ := third is
              cases tail with
              | nil => cases reads
              | cons raw after => exact ⟨raw, after, n, if_neg (of_decide_eq_true nonempty), reads⟩
            · cases h
          · cases h

theorem parseKind_eq_ok (h : parseKind t = .ok specifier) :
    (InGrammar t ∧ write specifier = t) ∨
      ∃ raw after port, portSegment t = some (raw, after) ∧ portOf (some raw) = some port := by
  unfold parseKind at h
  cases bridged : Text.after "bridged:" t with
  | some iface =>
      rw [bridged] at h
      obtain ⟨filled, rfl⟩ := named_eq_ok h
      obtain rfl := Text.after_eq_some.mp bridged
      exact .inl ⟨.bridged iface filled, rfl⟩
  | none =>
      cases vmnet : Text.after "vmnet-bridged:" t with
      | some iface =>
          rw [bridged, vmnet] at h
          obtain ⟨filled, rfl⟩ := named_eq_ok h
          obtain rfl := Text.after_eq_some.mp vmnet
          exact .inl ⟨.vmnetBridged iface filled, rfl⟩
      | none =>
          cases tap : Text.after "tap:" t with
          | some ifname =>
              rw [bridged, vmnet, tap] at h
              obtain ⟨filled, rfl⟩ := named_eq_ok h
              obtain rfl := Text.after_eq_some.mp tap
              exact .inl ⟨.tap ifname filled, rfl⟩
          | none =>
              rw [bridged, vmnet, tap] at h
              dsimp only at h
              split at h
              · rename_i starts
                obtain ⟨rest, whole⟩ := List.isPrefixOf_iff_prefix.mp starts
                obtain rfl : t = "socket:" ++ String.ofList rest := by
                  refine String.toList_inj.mp ?_
                  have back : (String.ofList rest).toList = rest := String.toList_ofList
                  rw [← whole, String.toList_append, back]
                rcases parseSocketSpecifier_eq_ok h with ⟨name, valid, same, rfl⟩ | port
                · rw [same]
                  exact .inl ⟨.socket name valid, rfl⟩
                · exact .inr port
              · cases h

/-- A segment that is read as a port decides alone what its socket becomes. -/
structure PortForm (t raw : String) (after : List String) where
  head : String
  make : ℕ → NetworkSpecifier
  whole : t = head ++ Text.join ":" (raw :: after)
  colon : ':' ∈ head.toList
  accepted : ∀ port, portOf (some raw) = some port → parseKind t = .ok (make port)
  refused : portOf (some raw) = none → ∃ e, parseKind t = .error e
  written : ∀ port, write (make port) = head ++ toString port
  grammar : ∀ port, Port port → InGrammar (head ++ port)

theorem portForm_of_portSegment {raw : String} {after : List String}
    (h : portSegment t = some (raw, after)) : Nonempty (PortForm t raw after) := by
  have whole : Text.join ":" (Text.split t ':') = t := Text.join_split rfl
  have apart : ∀ (kind rest : String), ¬ "socket::".toList <+: kind.toList ∧
      ¬ kind.toList <+: "socket::".toList → Text.after "socket::" (kind ++ rest) = none :=
    fun kind rest apart => Text.after_append_eq_none rest apart
  unfold portSegment at h
  split at h
  · rename_i raw' after' pieces
    obtain ⟨rfl, rfl⟩ := Prod.mk.inj (Option.some.inj h)
    rw [pieces, join_socket] at whole
    have kind : parseKind t = (portOf (some raw')).elim
        (.error (invalid "socket:listen: requires a valid port number (1–65535)")) fun port =>
          .ok (.socketListen port) := by
      rw [← whole, String.append_assoc, String.append_assoc, parseKind_socket, ← String.append_assoc,
        ← String.append_assoc]
      unfold parseSocketSpecifier
      rw [apart ("socket:" ++ "listen" ++ ":") _ (by decide), whole, pieces]
      rfl
    refine ⟨"socket:listen:", .socketListen, whole.symm, by decide, fun port is => ?_, fun is => ?_,
      fun port => rfl, fun port is => .listen port is⟩
    · rw [kind, is]
      rfl
    · rw [kind, is]
      exact ⟨_, rfl⟩
  · rename_i raw' after' pieces
    obtain ⟨rfl, rfl⟩ := Prod.mk.inj (Option.some.inj h)
    rw [pieces, join_socket] at whole
    have kind : parseKind t = (portOf (some raw')).elim
        (.error (invalid "socket:connect: requires a valid port number (1–65535)")) fun port =>
          .ok (.socketConnect port) := by
      rw [← whole, String.append_assoc, String.append_assoc, parseKind_socket, ← String.append_assoc,
        ← String.append_assoc]
      unfold parseSocketSpecifier
      rw [apart ("socket:" ++ "connect" ++ ":") _ (by decide), whole, pieces]
      rfl
    refine ⟨"socket:connect:", .socketConnect, whole.symm, by decide, fun port is => ?_, fun is => ?_,
      fun port => rfl, fun port is => .connect port is⟩
    · rw [kind, is]
      rfl
    · rw [kind, is]
      exact ⟨_, rfl⟩
  · rename_i group raw' after' pieces
    obtain ⟨filled, h⟩ := Option.ite_none_left_eq_some.mp h
    obtain ⟨rfl, rfl⟩ := Prod.mk.inj (Option.some.inj h)
    rw [pieces, join_socket] at whole
    have kind : parseKind t =
        match some group, portOf (some raw') with
        | some group, some port => .ok (.socketMcast group port)
        | _, _ =>
            .error (invalid "socket:mcast requires group and port (e.g. socket:mcast:230.0.0.1:4001)") := by
      rw [← whole, String.append_assoc, String.append_assoc, parseKind_socket, ← String.append_assoc,
        ← String.append_assoc]
      unfold parseSocketSpecifier
      rw [apart ("socket:" ++ "mcast" ++ ":") _ (by decide), whole, pieces]
      have kept : (some group).filter (fun group : String => decide (group ≠ "")) = some group :=
        Option.filter_eq_some_iff.mpr ⟨rfl, decide_eq_true filled⟩
      dsimp only [List.getElem?_cons_succ, List.getElem?_cons_zero, Option.getD_some]
      rw [if_neg (by decide), if_neg (by decide), if_pos rfl, kept]
    have segment : ':' ∉ group.toList := Text.not_mem_of_mem_split (s := t) (by rw [pieces]; simp)
    refine ⟨s!"socket:mcast:{group}:", .socketMcast group, ?_, ?_, fun port is => ?_, fun is => ?_,
      fun port => ?_, fun port is => ?_⟩
    · rw [← whole, Text.join, String.intercalate_cons_cons]
      show "socket:mcast:" ++ (group ++ ":" ++ _) = "socket:mcast:" ++ group ++ ":" ++ _
      rw [String.append_assoc, String.append_assoc, String.append_assoc]
      rfl
    · show ':' ∈ ("socket:mcast:" ++ group ++ ":").toList
      rw [String.toList_append]
      exact List.mem_append_right _ List.mem_cons_self
    · rw [kind, is]
    · rw [kind, is]
      exact ⟨_, rfl⟩
    · rfl
    · exact .mcast group port filled segment is
  · cases h

theorem portSegment_of_other (kind : String) (clean : ':' ∉ kind.toList) (other : kind ≠ "socket")
    (rest : String) : portSegment (kind ++ ":" ++ rest) = none := by
  unfold portSegment
  rw [String.append_assoc, Text.split_append_sep rfl clean]
  split
  · rename_i pieces
    exact absurd (List.cons_eq_cons.mp pieces).1 other
  · rename_i pieces
    exact absurd (List.cons_eq_cons.mp pieces).1 other
  · rename_i pieces
    exact absurd (List.cons_eq_cons.mp pieces).1 other
  · rfl

theorem portSegment_socket (name : String) : portSegment ("socket::" ++ name) = none := by
  have pieces : Text.split ("socket::" ++ name) ':' = "socket" :: "" :: Text.split name ':' := by
    rw [show "socket::" = "socket" ++ (":" ++ ("" ++ ":")) from rfl, String.append_assoc, String.append_assoc,
      String.append_assoc, Text.split_append_sep rfl (by decide), Text.split_append_sep rfl (by decide)]
  unfold portSegment
  rw [pieces]
  rfl

/-- What is in the grammar has no port segment and is accepted, or has a port in digits and nothing
after it. -/
theorem InGrammar.parses (is : Text.trim input = t) (h : InGrammar t) :
    (portSegment t = none ∧ ∃ specifier, parseNetworkSpecifier input = .ok specifier) ∨
      ∃ port, Port port ∧ portSegment t = some (port, []) := by
  have colon : ∀ {front : String} (rest : String), ':' ∈ front.toList → ':' ∈ (front ++ rest).toList :=
    fun rest member => by
      rw [String.toList_append]
      exact List.mem_append_left _ member
  cases h with
  | literal word member =>
      refine .inl ?_
      simp only [List.mem_cons, List.not_mem_nil, or_false] at member
      unfold parseNetworkSpecifier
      rw [is]
      rcases member with rfl | rfl | rfl | rfl | rfl | rfl <;> exact ⟨rfl, _, rfl⟩
  | bridged iface filled =>
      refine .inl ⟨portSegment_of_other "bridged" (by decide) (by decide) iface, .bridged iface, ?_⟩
      rw [parse_of_colon is (colon iface (by decide))]
      exact parseKind_bridged filled
  | vmnetBridged iface filled =>
      refine .inl ⟨portSegment_of_other "vmnet-bridged" (by decide) (by decide) iface,
        .vmnetBridged iface, ?_⟩
      rw [parse_of_colon is (colon iface (by decide))]
      exact parseKind_vmnetBridged filled
  | tap ifname filled =>
      refine .inl ⟨portSegment_of_other "tap" (by decide) (by decide) ifname, .tap ifname, ?_⟩
      rw [parse_of_colon is (colon ifname (by decide))]
      exact parseKind_tap filled
  | socket name valid =>
      refine .inl ⟨portSegment_socket name, .socket name, ?_⟩
      rw [parse_of_colon is (colon name (by decide))]
      have kind := parseKind_socket (":" ++ name)
      rw [← String.append_assoc] at kind
      exact kind.trans (parseSocketSpecifier_socket valid)
  | listen port digits =>
      refine .inr ⟨port, digits, ?_⟩
      rw [portSegment, split_listen, Text.split_eq_singleton digits.colon]
      rfl
  | connect port digits =>
      refine .inr ⟨port, digits, ?_⟩
      rw [portSegment, split_connect, Text.split_eq_singleton digits.colon]
      rfl
  | mcast group port filled segment digits =>
      refine .inr ⟨port, digits, ?_⟩
      rw [portSegment, split_mcast segment, Text.split_eq_singleton digits.colon]
      exact if_neg filled

theorem write_of_literal (h : literal t = some specifier) : write specifier = unalias t ∧ InGrammar t := by
  have word : ∀ w ∈ ["user", "shared", "auto", "vmnet-shared", "wifi", "ethernet"], InGrammar w :=
    fun w member => .literal w member
  unfold literal at h
  split at h
  · rename_i is
    rw [is, ← Option.some.inj h]
    exact ⟨rfl, word _ (by decide)⟩
  · split at h
    · rename_i is
      rw [← Option.some.inj h]
      rcases is with is | is
      · rw [is]
        exact ⟨rfl, word _ (by decide)⟩
      · rw [is]
        exact ⟨rfl, word _ (by decide)⟩
    · split at h
      · rename_i is
        rw [is, ← Option.some.inj h]
        exact ⟨rfl, word _ (by decide)⟩
      · split at h
        · rename_i is
          rw [is, ← Option.some.inj h]
          exact ⟨rfl, word _ (by decide)⟩
        · split at h
          · rename_i is
            rw [is, ← Option.some.inj h]
            exact ⟨rfl, word _ (by decide)⟩
          · cases h

theorem exact_of_no_port (is : Text.trim input = t) (noPort : portSegment t = none)
    (h : parseNetworkSpecifier input = .ok specifier) : InGrammar t ∧ write specifier = unalias t := by
  unfold parseNetworkSpecifier at h
  rw [is] at h
  dsimp only at h
  split at h
  · cases h
  · cases word : literal t with
    | some specifier' =>
        rw [word] at h
        obtain rfl := Except.ok.inj h
        exact (write_of_literal word).symm
    | none =>
        rw [word] at h
        rcases parseKind_eq_ok h with ⟨grammar, same⟩ | ⟨raw, after, port, some, -⟩
        · refine ⟨grammar, same.trans (Eq.symm ?_)⟩
          have other : ∀ w, literal w ≠ none → t ≠ w := by
            rintro w stands rfl
            exact stands word
          unfold unalias
          rw [if_neg (other _ (by decide)), if_neg (other _ (by decide)), if_neg (other _ (by decide))]
        · rw [noPort] at some
          cases some

/-- The parser accepts exactly the grammar, and gives back what was typed, just when a segment that
`Number` takes for a port is that port in plain digits with nothing after it. -/
theorem exact_iff_plainPort (input : String) :
    (((∃ specifier, parseNetworkSpecifier input = .ok specifier) ↔ InGrammar (Text.trim input)) ∧
        ∀ specifier, parseNetworkSpecifier input = .ok specifier →
          write specifier = unalias (Text.trim input)) ↔
      PlainPort (Text.trim input) := by
  generalize is : Text.trim input = t
  cases found : portSegment t with
  | none =>
      refine iff_of_true ⟨⟨?_, fun grammar => ?_⟩, fun specifier h => (exact_of_no_port is found h).2⟩ ?_
      · rintro ⟨specifier, h⟩
        exact (exact_of_no_port is found h).1
      · rcases grammar.parses is with ⟨-, accepted⟩ | ⟨port, -, segment⟩
        · exact accepted
        · rw [found] at segment
          cases segment
      · intro raw rest segment
        rw [found] at segment
        cases segment
  | some segment =>
      obtain ⟨raw, rest⟩ := segment
      obtain ⟨form⟩ := portForm_of_portSegment found
      have colon : ':' ∈ t.toList := by
        rw [form.whole, String.toList_append]
        exact List.mem_append_left _ form.colon
      rw [parse_of_colon is colon, unalias_of_colon colon]
      cases read : portOf (some raw) with
      | none =>
          obtain ⟨e, refused⟩ := form.refused read
          rw [refused]
          refine iff_of_true ⟨iff_of_false (fun ⟨_, ok⟩ => by cases ok) fun grammar => ?_,
            fun specifier ok => by cases ok⟩ ?_
          · rcases grammar.parses is with ⟨none, -⟩ | ⟨port, digits, segment⟩
            · rw [found] at none
              cases none
            · rw [found] at segment
              obtain ⟨rfl, -⟩ := Prod.mk.inj (Option.some.inj segment)
              rw [portOf_port digits] at read
              cases read
          · intro raw' rest' segment port accepted
            obtain ⟨rfl, -⟩ := Prod.mk.inj (Option.some.inj (found.symm.trans segment))
            rw [read] at accepted
            cases accepted
      | some port =>
          have digits := port_toString (portOf_range read)
          rw [form.accepted port read]
          constructor
          · rintro ⟨-, back⟩ raw' rest' segment port' accepted
            obtain ⟨rfl, rfl⟩ := Prod.mk.inj (Option.some.inj (found.symm.trans segment))
            obtain rfl := Option.some.inj (read.symm.trans accepted)
            have same := ((form.written port).symm.trans (back _ rfl)).trans form.whole
            have texts := congrArg String.toList same
            rw [String.toList_append, String.toList_append] at texts
            have tails := String.toList_inj.mp (List.append_cancel_left texts)
            cases rest with
            | nil =>
                rw [Text.join, String.intercalate_singleton] at tails
                exact ⟨tails.symm, rfl⟩
            | cons next rest =>
                refine absurd ?_ digits.colon
                rw [tails, Text.join, String.intercalate_cons_cons, String.toList_append, String.toList_append]
                exact List.mem_append_left _ (List.mem_append_right _ List.mem_cons_self)
          · intro plain
            obtain ⟨rfl, rfl⟩ := plain raw rest found port read
            have whole := form.whole
            rw [Text.join, String.intercalate_singleton] at whole
            refine ⟨iff_of_true ⟨_, rfl⟩ ?_, fun specifier ok => ?_⟩
            · rw [whole]
              exact form.grammar _ digits
            · obtain rfl := Except.ok.inj ok
              exact (form.written port).trans whole.symm

/-- A segment too many is ignored, and ports in hexadecimal digits or with zeros before them are taken. -/
theorem exact_fails :
    parseNetworkSpecifier "socket:listen:4000:junk" = .ok (.socketListen 4000) ∧
      ¬ InGrammar (Text.trim "socket:listen:4000:junk") ∧
      parseNetworkSpecifier "socket:connect:0x10" = .ok (.socketConnect 16) ∧
      parseNetworkSpecifier "socket:mcast:230.0.0.1:04001" = .ok (.socketMcast "230.0.0.1" 4001) ∧
      write (.socketMcast "230.0.0.1" 4001) = "socket:mcast:230.0.0.1:4001" := by
  refine ⟨by decide +kernel, fun grammar => ?_, by decide +kernel, by decide +kernel, by decide +kernel⟩
  have segment : portSegment (Text.trim "socket:listen:4000:junk") = some ("4000", ["junk"]) := by
    decide +kernel
  rcases @InGrammar.parses "socket:listen:4000:junk" _ rfl grammar with ⟨none, -⟩ | ⟨port, -, is⟩
  · rw [segment] at none
    cases none
  · rw [segment] at is
    cases is

end Quickchr.NetworkSpecifiers
