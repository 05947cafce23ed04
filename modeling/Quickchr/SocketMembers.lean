import Quickchr.SocketRegistry

/-!
# Members and slots agree

Every operation on a named socket keeps the two representations of its membership in step, and
takes no slot from the machine that holds it.
-/
namespace Quickchr.SocketRegistry

variable {host : Host} {name : String}

theorem mem_joined {entry : SocketEntry} {machineName : String}
    {endpoints : Option (List (Option String))} {m : String} :
    m ∈ (joined entry machineName endpoints).members ↔ m = machineName ∨ m ∈ entry.members := by
  change m ∈ (if _ then _ else _) ↔ _
  split
  · rename_i member
    exact ⟨.inr, fun either => either.elim (fun is => is ▸ member) id⟩
  · rw [List.mem_append, List.mem_singleton, or_comm]

theorem joined_nodup {entry : SocketEntry} {machineName : String}
    {endpoints : Option (List (Option String))} (h : entry.members.Nodup) :
    (joined entry machineName endpoints).members.Nodup := by
  change (if _ then _ else _ : List String).Nodup
  split
  · exact h
  · rename_i new
    refine h.append (List.nodup_singleton machineName) ?_
    rw [List.disjoint_singleton]
    exact new

theorem Sound.claims {entry claimed : SocketEntry} {machineName : String} (h : Sound name entry)
    (claims : Claims entry machineName claimed) : Sound name claimed := by
  cases claims with
  | segment none =>
      refine ⟨h.named, joined_nodup h.members, fun _ => rfl, fun pair => ?_⟩
      obtain ⟨slots, is, -⟩ := h.pair pair
      cases none.symm.trans is
  | @pair slots slots' is taken =>
      refine ⟨h.named, joined_nodup h.members, fun mcast => ?_, fun pair => ?_⟩
      · cases is.symm.trans (h.segment mcast)
      · obtain ⟨was, is', length, distinct, members⟩ := h.pair pair
        cases is.symm.trans is'
        refine ⟨slots', rfl, (Slots.claim_length taken).trans length, distinct.claim taken,
          fun m => ?_⟩
        rw [mem_joined, Slots.mem_claim taken, members]

theorem Sound.without {entry : SocketEntry} (h : Sound name entry) (machineName : String) :
    Sound name (without entry machineName) := by
  refine ⟨h.named, h.members.filter _, fun mcast => ?_, fun pair => ?_⟩
  · change entry.endpoints.map _ = none
    rw [h.segment mcast, Option.map_none]
  · obtain ⟨slots, is, length, distinct, members⟩ := h.pair pair
    refine ⟨Slots.release slots machineName, ?_, Slots.release_length.trans length,
      distinct.release, fun m => ?_⟩
    · change entry.endpoints.map _ = _
      rw [is, Option.map_some]
    · change m ∈ entry.members.filter _ ↔ _
      rw [List.mem_filter, decide_eq_true_eq, Slots.mem_release, members]

theorem Move.sound {file file' : File} {r : Request} (move : Move name file r file')
    (stored : file = none ∨ ∃ entry, file = saveEntry entry ∧ Sound name entry) :
    file' = none ∨ ∃ entry, file' = saveEntry entry ∧ Sound name entry := by
  cases move with
  | same => exact stored
  | create _ sound => exact .inr ⟨_, rfl, sound⟩
  | joinNew _ _ sound claims | claim _ sound claims => exact .inr ⟨_, rfl, sound.claims claims⟩
  | drop | remove => exact .inl rfl
  | leave sound => exact .inr ⟨_, rfl, sound.without _⟩

/-- An operation on a name that makes no path leaves no file behind. -/
theorem run_refused (safe : isPathSafeName host name = false) (file : File) (r : Request) :
    (r.run host name file).2 = file := by
  have refused : ∀ {α : Type} (fn : Except QuickCHRError α × File),
      (withEntryLock host name file fn).2 = file := by
    intro α fn
    rcases withEntryLock_cases host name file fn with ⟨is, -⟩ | ⟨-, error, is⟩
    · rw [safe] at is; cases is
    · rw [is]
  cases r with
  | createNamedSocket opts used now =>
      change (createNamedSocket host name opts used now file).2 = file
      exact refused _
  | joinNamedSocket machineName autoCreated used now =>
      change (joinNamedSocket host name machineName autoCreated used now file).2 = file
      exact refused _
  | addSocketMember | removeSocketMember => exact refused _
  | removeNamedSocket wasCached =>
      change (removeNamedSocket host name wasCached file).2 = file
      exact refused _

theorem Stored.run {file : File} (h : Stored host name file) (r : Request) :
    Stored host name (r.run host name file).2 := by
  cases safe : isPathSafeName host name with
  | false => rw [run_refused safe]; exact h
  | true => exact ((move_of_run h r).sound (h.imp_right And.right)).imp_right fun sound => ⟨safe, sound⟩

theorem Stored.of_reachable {file : File} (h : (system host name).Reachable file) :
    Stored host name file := by
  refine h.invariant (fun file start => .inl start) fun file r file' _ stored _ step => ?_
  cases step
  exact stored.run r

def slotOf (file : File) (m : String) : Option ℕ := (reloadEntry file).bind (getSocketSlot · m)

theorem Sound.slot {entry : SocketEntry} (h : Sound name entry) {m : String} {i : ℕ} :
    slotOf (saveEntry entry) m = some i ↔
      ∃ slots, entry.endpoints = some slots ∧ slots[i]? = some (some m) := by
  rw [slotOf, h.reload, Option.bind_some, getSocketSlot, Option.bind_eq_some_iff]
  refine exists_congr fun slots => and_congr_right fun is => ?_
  by_cases mcast : entry.mode = .mcast
  · cases is.symm.trans (h.segment mcast)
  · obtain ⟨slots', is', -, distinct, -⟩ := h.pair mcast
    cases is.symm.trans is'
    exact distinct.idxOf?_eq_some

theorem Sound.member_of_slot {entry : SocketEntry} (h : Sound name entry) {m : String} {i : ℕ}
    (held : slotOf (saveEntry entry) m = some i) : m ∈ entry.members := by
  obtain ⟨slots, is, at_⟩ := h.slot.mp held
  by_cases mcast : entry.mode = .mcast
  · cases is.symm.trans (h.segment mcast)
  · obtain ⟨slots', is', -, -, members⟩ := h.pair mcast
    cases is.symm.trans is'
    exact (members m).mpr (List.mem_of_getElem? at_)

/-- No operation but its own removal takes a slot from a machine. -/
theorem Move.keeps_slot {file file' : File} {r : Request} (move : Move name file r file')
    {m : String} {i : ℕ} (held : slotOf file m = some i) (other : r ≠ .removeSocketMember m) :
    slotOf file' m = some i := by
  cases move with
  | same => exact held
  | create | joinNew => cases held
  | claim _ sound claims =>
      obtain ⟨slots, is, at_⟩ := sound.slot.mp held
      rw [(sound.claims claims).slot]
      cases claims with
      | segment none => cases none.symm.trans is
      | pair is' taken =>
          cases is.symm.trans is'
          exact ⟨_, rfl, Slots.claim_keeps taken at_⟩
  | @drop entry m' sound empty =>
      have member : m ∈ (without entry m').members :=
        List.mem_filter.mpr ⟨sound.member_of_slot held, decide_eq_true fun is => other (is ▸ rfl)⟩
      rw [empty] at member
      cases member
  | @leave entry m' sound =>
      obtain ⟨slots, is, at_⟩ := sound.slot.mp held
      rw [(sound.without m').slot]
      refine ⟨Slots.release slots m', ?_, Slots.release_getElem.mpr ⟨at_, fun is => other (is ▸ rfl)⟩⟩
      change entry.endpoints.map _ = _
      rw [is, Option.map_some]
  | remove sound empty =>
      have member := sound.member_of_slot held
      rw [empty] at member
      cases member

theorem Sound.full {entry : SocketEntry} (h : Sound name entry) (pair : entry.mode ≠ .mcast)
    (two : entry.members.length = 2) {m : String} (third : m ∉ entry.members) :
    ∃ slots, entry.endpoints = some slots ∧ Slots.claim slots m = none := by
  obtain ⟨slots, is, length, -, members⟩ := h.pair pair
  refine ⟨slots, is, Slots.claim_eq_none.mpr ⟨fun held => third ((members m).mpr held), fun free => ?_⟩⟩
  obtain ⟨first, second, both⟩ := List.length_eq_two.mp length
  obtain ⟨a, b, them⟩ := List.length_eq_two.mp two
  have distinct := h.members
  rw [them, List.nodup_cons, List.mem_singleton] at distinct
  have held : ∀ n ∈ [a, b], some n = first ∨ some n = second := by
    intro n member
    rw [← them, members, both, List.mem_cons, List.mem_singleton] at member
    exact member
  have ofA := held a List.mem_cons_self
  have ofB := held b (List.mem_cons_of_mem a List.mem_cons_self)
  rw [both, List.mem_cons, List.mem_singleton] at free
  rcases free with rfl | rfl
  · rcases ofA with is | is
    · cases is
    · rcases ofB with is' | is'
      · cases is'
      · exact distinct.1 (Option.some.inj (is.trans is'.symm))
  · rcases ofA with is | is
    · rcases ofB with is' | is'
      · exact distinct.1 (Option.some.inj (is.trans is'.symm))
      · cases is'
    · cases is

theorem claimEndpoint_full {entry : SocketEntry} {machineName : String}
    {slots : List (Option String)} (is : entry.endpoints = some slots)
    (full : Slots.claim slots machineName = none) (file : File) :
    claimEndpoint entry machineName file = (.error (linkFull entry slots), file) := by
  simp only [claimEndpoint, is, full]

theorem Sound.refuses {entry : SocketEntry} (h : Sound name entry)
    (safe : isPathSafeName host name = true) (pair : entry.mode ≠ .mcast)
    (two : entry.members.length = 2) {m : String} (third : m ∉ entry.members) {r : Request}
    (joins : r.joins = some m) :
    ∃ error, error.code = .NETWORK_UNAVAILABLE ∧
      r.run host name (saveEntry entry) = (.error error, saveEntry entry) := by
  obtain ⟨slots, is, full⟩ := h.full pair two third
  refine ⟨linkFull entry slots, rfl, ?_⟩
  have locked : ∀ {α : Type} (fn : Except QuickCHRError α × File),
      withEntryLock host name (saveEntry entry) fn = fn := by
    intro α fn
    rw [withEntryLock, assertPathSafeName, if_pos safe]
  cases r with
  | joinNamedSocket machineName autoCreated used now =>
      cases joins
      simp only [Request.run, joinNamedSocket, locked, h.reload, claimEndpoint_full is full]
      rfl
  | addSocketMember machineName =>
      cases joins
      simp only [Request.run, addSocketMember, locked, h.reload, claimEndpoint_full is full]
      rfl
  | _ => cases joins

theorem Sound.drops {entry : SocketEntry} (h : Sound name entry)
    (safe : isPathSafeName host name = true) (m : String) :
    (removeSocketMember host name m (saveEntry entry)).2 = none ↔
      (∀ other ∈ entry.members, other = m) ∧ entry.autoCreated = true := by
  have empty : (SocketRegistry.without entry m).members = [] ↔
      ∀ other ∈ entry.members, other = m := by
    simp only [SocketRegistry.without, List.filter_eq_nil_iff, decide_not, Bool.not_eq_true', decide_eq_false_iff_not,
      not_not]
  rw [removeSocketMember, withEntryLock, assertPathSafeName, if_pos safe, h.reload]
  change (if _ then none else _) = none ↔ _
  rw [ite_eq_left_iff, ← empty]
  constructor
  · intro dropped
    by_contra kept
    cases dropped kept
  · exact fun both kept => (kept both).elim

theorem Move.keeps_autoCreated {file file' : File} {r : Request} (move : Move name file r file')
    {entry entry' : SocketEntry} (is : reloadEntry file = some entry)
    (is' : reloadEntry file' = some entry') : entry'.autoCreated = entry.autoCreated := by
  cases move with
  | same => cases is.symm.trans is'; rfl
  | create | joinNew => cases is
  | claim _ sound claims =>
      cases is.symm.trans sound.reload
      cases is'.symm.trans (sound.claims claims).reload
      cases claims <;> rfl
  | drop | remove => cases is'
  | leave sound =>
      cases is.symm.trans sound.reload
      cases is'.symm.trans (sound.without _).reload
      rfl

theorem Move.removes {file file' : File} {wasCached : Bool}
    (move : Move name file (.removeNamedSocket wasCached) file') (gone : file' = none)
    {entry : SocketEntry} (is : reloadEntry file = some entry) : entry.members = [] := by
  cases move with
  | same => rw [gone] at is; cases is
  | create | joinNew => cases is
  | claim => cases gone
  | remove sound empty => cases is.symm.trans sound.reload; exact empty

def lan : SocketEntry :=
  { name := "lan", mode := .dgram, mcastGroup := none, port := none, createdAt := 0
    members := ["r1", "r2"], endpoints := some [some "r1", some "r2"], autoCreated := true }

end Quickchr.SocketRegistry
