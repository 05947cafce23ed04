import Quickchr.NamedLinks

/-!
# Only running machines hold ends of links

A machine that no operation is at work on and that has an end of a link exists and its record says
running, as long as nothing writes its record as stopped without giving the ends back.
-/
namespace Quickchr

open Lifecycle SocketRegistry

namespace NamedLinks

variable {host : Host}

theorem memberOf_iff {file : File} {name : String} : memberOf file name = true ↔
    ∃ entry, reloadEntry file = some entry ∧ name ∈ entry.members := by
  simp only [memberOf, Option.any_eq_true, List.contains_eq_mem, decide_eq_true_eq]

theorem memberOf_saveEntry {socket : String} {entry : SocketEntry} (sound : Sound socket entry)
    {name : String} : memberOf (saveEntry entry) name = true ↔ name ∈ entry.members := by
  simp only [memberOf, sound.reload, Option.any_some, List.contains_eq_mem, decide_eq_true_eq]

theorem memberOf_move {socket : String} {file file' : File} {r : Request}
    (move : Move socket file r file') {name : String} (member : memberOf file' name = true) :
    memberOf file name = true ∨ r.joins = some name := by
  have joined : ∀ {entry claimed : SocketEntry} {m : String}, Claims entry m claimed →
      name ∈ claimed.members → name = m ∨ name ∈ entry.members := by
    intro entry claimed m claims member
    cases claims <;> exact mem_joined.mp member
  cases move with
  | same => exact .inl member
  | create empty sound =>
      rw [memberOf_saveEntry sound, empty] at member
      cases member
  | joinNew joins empty sound claims =>
      rw [memberOf_saveEntry (sound.claims claims)] at member
      rcases joined claims member with rfl | member
      · exact .inr joins
      · rw [empty] at member; cases member
  | claim joins sound claims =>
      rw [memberOf_saveEntry (sound.claims claims)] at member
      rcases joined claims member with rfl | member
      · exact .inr joins
      · exact .inl ((memberOf_saveEntry sound).mpr member)
  | drop | remove => cases member
  | leave sound =>
      rw [memberOf_saveEntry (sound.without _)] at member
      exact .inl ((memberOf_saveEntry sound).mpr (List.mem_filter.mp member).1)

theorem memberOf_removeSocketMember {socket : String} {file : File}
    (stored : Stored host socket file) (name : String) :
    memberOf (removeSocketMember host socket name file).2 name = false := by
  rw [Bool.eq_false_iff]
  intro member
  have move : Move socket file (.removeSocketMember name)
      (removeSocketMember host socket name file).2 := removeSocketMember_move stored
  generalize (removeSocketMember host socket name file).2 = file' at member move
  cases move with
  | same absent => rw [absent name rfl] at member; cases member
  | create empty sound => rw [memberOf_saveEntry sound, empty] at member; cases member
  | joinNew joins => cases joins
  | claim joins => cases joins
  | drop => cases member
  | leave sound =>
      rw [memberOf_saveEntry (sound.without name)] at member
      have other := (List.mem_filter.mp member).2
      rw [decide_eq_true_eq] at other
      exact other rfl

def Holds (s : State) (name : String) : Prop := ∃ socket, memberOf (s.registry socket) name = true

/-- Whoever has an end of a link is recorded as running. -/
def Recorded (holds : Prop) (record : Option MachineState) : Prop :=
  holds → ∃ m, record = some m ∧ m.status = .running

/-- What holds of a machine whose operation has come to this point. -/
def Linked (holds : Prop) (record : Option MachineState) (claim : Claim) : Phase → Prop
  | .idle | .resumed .. | .waiting _ => Recorded holds record
  | .entered op _ => claim = .unclaimed →
      Recorded holds record ∧ (op.creates = true → ¬ holds)
  | .launched state .. | .ready state _ | .replacing state .. | .replaced state .. =>
      Recorded holds record ∧ state.status = .running
  | .changing state _ _ current =>
      (Recorded holds record ∧ state.status = .running) ∧ (holds → current.status = .running)
  | .thawing _ _ current => Recorded holds record ∧ (holds → current.status = .running)
  | .saving .. | .undoing _ => ¬ holds
  | .console .. | .spawned .. | .halted _ | .removing => True

structure Kept (host : Host) (s : State) : Prop where
  stored : ∀ socket, Stored host socket (s.registry socket)
  networks : ∀ name socket, memberOf (s.registry socket) name = true → socket ∈ s.networks name
  claiming : ∀ name rest, s.claims name = .claiming rest →
    (∀ socket ∈ rest, socket ∈ s.networks name) ∧ ∃ op state, (s.machines name).phase = .entered op state
  releasing : ∀ name rest socket, s.claims name = .releasing rest →
    memberOf (s.registry socket) name = true → socket ∈ rest
  linked : ∀ name,
    Linked (Holds s name) (s.machines name).record (s.claims name) (s.machines name).phase

theorem Recorded.mono {holds holds' : Prop} {record : Option MachineState}
    (h : Recorded holds record) (fewer : holds' → holds) : Recorded holds' record :=
  fun held => h (fewer held)

theorem Recorded.of_not {holds : Prop} (h : ¬ holds) (record : Option MachineState) :
    Recorded holds record := fun held => (h held).elim

theorem Recorded.load {holds : Prop} {record : Option MachineState} {m : MachineState}
    (h : Recorded holds record) (is : record = some m) (held : holds) : m.status = .running := by
  obtain ⟨m', is', running⟩ := h held
  cases is.symm.trans is'
  exact running

theorem Linked.mono {holds holds' : Prop} {record : Option MachineState} {claim : Claim}
    {phase : Phase} (h : Linked holds record claim phase) (fewer : holds' → holds) :
    Linked holds' record claim phase := by
  cases phase with
  | idle | resumed | waiting => exact Recorded.mono h fewer
  | entered =>
      exact fun at_ => ⟨(h at_).1.mono fewer, fun creates held => (h at_).2 creates (fewer held)⟩
  | launched | ready | replacing | replaced => exact ⟨h.1.mono fewer, h.2⟩
  | changing => exact ⟨⟨h.1.1.mono fewer, h.1.2⟩, fun held => h.2 (fewer held)⟩
  | thawing => exact ⟨h.1.mono fewer, fun held => h.2 (fewer held)⟩
  | saving | undoing => exact fun held => h (fewer held)
  | console | spawned | halted | removing => trivial

theorem Linked.of_not {holds : Prop} {record record' : Option MachineState} {claim : Claim}
    {phase : Phase} (h : Linked holds record claim phase) (not : ¬ holds) :
    Linked holds record' claim phase := by
  cases phase with
  | idle | resumed | waiting => exact Recorded.of_not not _
  | entered => exact fun _ => ⟨.of_not not _, fun _ => not⟩
  | launched | ready | replacing | replaced => exact ⟨.of_not not _, h.2⟩
  | changing => exact ⟨⟨.of_not not _, h.1.2⟩, h.2⟩
  | thawing => exact ⟨.of_not not _, h.2⟩
  | saving | undoing => exact not
  | console | spawned | halted | removing => trivial

/-- Another stage of the claim, once the machine has asked for ends. -/
theorem Linked.claim {holds : Prop} {record : Option MachineState} {claim claim' : Claim}
    {phase : Phase} (h : Linked holds record claim phase) (asked : claim' ≠ .unclaimed) :
    Linked holds record claim' phase := by
  cases phase with
  | entered => exact fun is => (asked is).elim
  | _ => exact h

theorem spawn_of_next {m t : Lifecycle.State} {pid : Pid}
    (step : Lifecycle.next m (.spawn pid) = some t) :
    ∃ phase, Spawn m pid m.phase phase ∧ t = (m.goto phase).spawnQemu pid := by
  simp only [Lifecycle.next] at step
  unfold advance at step
  split at step
  case h_7 at_ is =>
      cases is
      obtain ⟨-, ⟨⟩⟩ := Option.ite_none_left_eq_some.mp step
      refine ⟨_, ?_, rfl⟩
      rw [at_]
      split
      · rename_i is; subst is; exact .createForeground
      · rename_i other; exact .create other
  case h_8 at_ is =>
      cases is
      obtain ⟨new, ⟨⟩⟩ := Option.ite_none_left_eq_some.mp step
      have stopped := Bool.eq_false_iff.mpr (not_or.mp new).2
      refine ⟨_, ?_, rfl⟩
      rw [at_]
      split
      · rename_i is; subst is; exact .foreground stopped
      · rename_i other; exact .start other stopped
  case h_22 at_ is =>
      cases is
      obtain ⟨-, ⟨⟩⟩ := Option.ite_none_left_eq_some.mp step
      exact ⟨_, by rw [at_]; exact .replace, rfl⟩
  case h_47 => cases step
  all_goals
    rename_i is
    cases is

/-- What the gate has let through at this point. -/
def Passed (holds : Prop) (claim : Claim) (e : Lifecycle.Event) : Phase → Prop
  | .entered .. => claim = .unclaimed ∨ ¬ holds
  | .spawned .. => e = .fail → ¬ holds
  | .console .. | .halted _ | .removing => ¬ holds
  | _ => True

theorem passed_of_allows {holds : Prop} {claim : Claim} {orphan : Bool} {phase : Phase}
    {e : Lifecycle.Event} (allowed : allows claim orphan phase e = true)
    (released : claim = .releasing [] → ¬ holds) (alive : ∀ pid, e ≠ .exit pid)
    (stays : ∀ pid, e ≠ .spawn pid) : Passed holds claim e phase := by
  cases phase with
  | entered =>
      cases e with
      | exit pid => exact (alive pid rfl).elim
      | spawn pid => exact (stays pid rfl).elim
      | _ => exact (of_decide_eq_true allowed).imp_right released
  | spawned =>
      intro fails
      subst fails
      exact released (of_decide_eq_true allowed)
  | console | halted | removing =>
      cases e with
      | exit pid => exact (alive pid rfl).elim
      | _ => exact released (of_decide_eq_true allowed)
  | _ => trivial

section

variable {holds : Prop} {claim : Claim} {m : Lifecycle.State}

theorem Linked.after {record : Option MachineState} (h : ¬ holds) (target : Target) :
    Linked holds record claim target.after := by
  cases target with
  | stop cleanup =>
      cases cleanup with
      | none => exact Recorded.of_not h record
      | some cleanup => exact h
  | clean now => exact Recorded.of_not h record

theorem Linked.quiet {e : Lifecycle.Event} {from_ phase : Phase} (quiet : Quiet m e from_ phase)
    (passed : Passed holds claim e from_) (h : Linked holds m.record claim from_) :
    Linked holds m.record claim phase := by
  have recorded : ∀ {op state}, Linked holds m.record claim (.entered op state) →
      claim = .unclaimed ∨ ¬ holds → Recorded holds m.record := by
    intro op state h passed
    rcases passed with at_ | not
    · exact (h at_).1
    · exact .of_not not _
  cases quiet with
  | give | resume => exact recorded h passed
  | quit | unreset => exact Recorded.of_not passed _
  | lost | diedAgain => exact h.1
  | died is => exact Recorded.of_not (passed is) _
  | mirror => exact ⟨h.1, (Change.mirror_pid _ _).2.trans h.2⟩
  | stopped | discard => trivial
  | refused | resumed | wait | answered => exact h
  | gone => exact .after passed _
  | left => exact Recorded.of_not h _

theorem Linked.load {e : Lifecycle.Event} {current : MachineState} {from_ phase : Phase}
    (load : Load e current from_ phase) (is : m.record = some current)
    (stays : ∀ op, e ≠ .lock op) (passed : Passed holds claim e from_)
    (h : Linked holds m.record claim from_) : Linked holds m.record claim phase := by
  cases load with
  | lock at_ => exact (stays _ at_).elim
  | change => exact ⟨h, h.1.load is⟩
  | thaw => exact ⟨h, Recorded.load h is⟩
  | stop => exact passed

theorem Linked.save {saved : MachineState} {e : Lifecycle.Event} {from_ phase : Phase}
    (save : Save m from_ phase saved) (passed : Passed holds claim e from_) (h : Linked holds m.record claim from_) :
    Linked holds (some saved) claim phase := by
  have running : ∀ {state : MachineState}, state.status = .running → Recorded holds (some state) :=
    fun is _ => ⟨_, rfl, is⟩
  cases save with
  | add =>
      rcases passed with at_ | not
      · exact Recorded.of_not ((h at_).2 rfl) _
      · exact Recorded.of_not not _
  | foreground => exact Recorded.of_not passed _
  | launch => exact ⟨running rfl, rfl⟩
  | boot | respawned => exact ⟨running h.2, h.2⟩
  | cycled => exact ⟨running rfl, rfl⟩
  | @change state cleanup change current =>
      refine ⟨fun held => ⟨_, rfl, ?_⟩, (change.mirror_pid state).2.trans h.1.2⟩
      exact (change.apply_pid current).2.trans (h.2 held)
  | thaw | thawWait => exact fun held => ⟨_, rfl, h.2 held⟩
  | stop => exact .after h _

theorem Linked.kill {e : Lifecycle.Event} {from_ phase : Phase} {pid : Option Pid}
    (kill : Kill m e from_ phase pid)
    (h : Linked holds m.record claim from_) : Linked holds m.record claim phase := by
  cases kill with
  | respawn | replace => exact h
  | _ => trivial

theorem Linked.spawn {pid : Pid} {from_ phase : Phase} (spawn : Spawn m pid from_ phase)
    (h : Linked holds m.record claim from_) : Linked holds m.record claim phase := by
  cases spawn with
  | replace => exact h
  | _ => trivial

theorem Linked.finish {from_ : Phase} {pid : Option Pid} (finish : Finish from_ pid)
    (h : Linked holds m.record claim from_) : Linked holds m.record claim .idle := by
  cases finish <;> exact h.1

variable {t : Lifecycle.State}

theorem Linked.next {e : Lifecycle.Event} {orphan : Bool} (step : Lifecycle.next m e = some t)
    (stays : ∀ op, e ≠ .lock op) (allowed : allows claim orphan m.phase e = true)
    (released : claim = .releasing [] → ¬ holds) (h : Linked holds m.record claim m.phase) :
    Linked holds t.record claim t.phase := by
  by_cases spawns : ∃ pid, e = .spawn pid
  · obtain ⟨pid, rfl⟩ := spawns
    obtain ⟨phase, spawn, rfl⟩ := spawn_of_next step
    exact (Linked.spawn spawn h : Linked holds m.record claim phase)
  by_cases exits : ∃ pid, e = .exit pid
  · obtain ⟨pid, rfl⟩ := exits
    cases step
    exact h
  have passed : Passed holds claim e m.phase :=
    passed_of_allows allowed released (not_exists.mp exits) (not_exists.mp spawns)
  cases move_of_next step with
  | new => exact (stays _ rfl).elim
  | @quiet e phase quiet => exact (Linked.quiet quiet passed h : Linked holds m.record claim phase)
  | @load e current phase is load =>
      exact (Linked.load load is stays passed h : Linked holds m.record claim phase)
  | save save => exact .save save passed h
  | booted save => exact .save save passed h
  | undo at_ => rw [at_] at h; exact Recorded.of_not h _
  | remove at_ => rw [at_] at passed; exact Recorded.of_not passed _
  | @kill e phase pid kill => exact (Linked.kill kill h : Linked holds m.record claim phase)
  | spawn => exact (spawns ⟨_, rfl⟩).elim
  | finish finish => exact (Linked.finish finish h : Linked holds m.record claim .idle)
  | exit => exact (exits ⟨_, rfl⟩).elim

theorem Linked.lock {op : Operation} (step : Lifecycle.next m (.lock op) = some t)
    (h : Linked holds m.record claim m.phase) :
    Linked holds t.record .unclaimed t.phase ∧ (op.creates = true → ¬ holds) ∧
      ∃ state, t.phase = .entered op state := by
  obtain ⟨idle, creates, record, state, entered⟩ : m.phase = .idle ∧
      (op.creates = true → m.record = none) ∧ t.record = m.record ∧
      ∃ state, t.phase = .entered op state := by
    simp only [Lifecycle.next] at step
    unfold advance at step
    split at step
    case h_1 at_ is =>
        cases is
        obtain ⟨new, ⟨⟩⟩ := Option.ite_none_right_eq_some.mp step
        exact ⟨at_, fun _ => Option.isNone_iff_eq_none.mp new, rfl, _, rfl⟩
    case h_2 at_ is =>
        cases is
        obtain ⟨new, ⟨⟩⟩ := Option.ite_none_right_eq_some.mp step
        exact ⟨at_, fun _ => Option.isNone_iff_eq_none.mp new, rfl, _, rfl⟩
    case h_3 add create at_ is =>
        cases is
        obtain ⟨state, -, rfl⟩ := Option.map_eq_some_iff.mp step
        refine ⟨at_, fun creates => ?_, rfl, _, rfl⟩
        cases op with
        | add name request now => exact (add name request now rfl).elim
        | create name request now mode => exact (create name request now mode rfl).elim
        | _ => cases creates
    case h_47 => cases step
    all_goals
      rename_i is
      cases is
  rw [idle] at h
  have new : op.creates = true → ¬ holds := by
    intro is held
    obtain ⟨m', is', -⟩ := h held
    cases (creates is).symm.trans is'
  rw [record, entered]
  exact ⟨fun _ => ⟨h, new⟩, new, state, rfl⟩

end

variable {s : State} {name : String}

theorem Kept.not_holds (h : Kept host s) (free : free s name = true) : ¬ Holds s name := by
  rintro ⟨socket, member⟩
  have none := List.all_eq_true.mp free socket (h.networks name socket member)
  rw [member] at none
  cases none

theorem Kept.released (h : Kept host s) (is : s.claims name = .releasing []) : ¬ Holds s name := by
  rintro ⟨socket, member⟩
  cases h.releasing name [] socket is member

theorem Kept.advance (h : Kept host s) {t : Lifecycle.State}
    (claiming : ∀ rest, s.claims name = .claiming rest → ∃ op state, t.phase = .entered op state)
    (linked : Linked (Holds s name) t.record (s.claims name) t.phase) :
    Kept host (s.advance name t) := by
  refine ⟨h.stored, h.networks, fun other rest is => ?_, h.releasing, fun other => ?_⟩
  · refine ⟨(h.claiming other rest is).1, ?_⟩
    change ∃ op state, (Function.update s.machines name t other).phase = _
    by_cases same : other = name
    · subst same; rw [Function.update_self]; exact claiming rest is
    · rw [Function.update_of_ne same]; exact (h.claiming other rest is).2
  · change Linked (Holds s other) (Function.update s.machines name t other).record _
      (Function.update s.machines name t other).phase
    by_cases same : other = name
    · subst same; rw [Function.update_self]; exact linked
    · rw [Function.update_of_ne same]; exact h.linked other

/-- The operation on the machine comes to another stage with its ends. -/
theorem Kept.claim (h : Kept host s) {claim : Claim}
    (claiming : ∀ rest, claim = .claiming rest → (∀ socket ∈ rest, socket ∈ s.networks name) ∧
      ∃ op state, (s.machines name).phase = .entered op state)
    (releasing : ∀ rest socket, claim = .releasing rest →
      memberOf (s.registry socket) name = true → socket ∈ rest)
    (linked : Linked (Holds s name) (s.machines name).record claim (s.machines name).phase) :
    Kept host (s.claim name claim) := by
  refine ⟨h.stored, h.networks, fun other rest is => ?_, fun other rest socket is member => ?_,
    fun other => ?_⟩
  · change Function.update s.claims name claim other = _ at is
    by_cases same : other = name
    · subst same; rw [Function.update_self] at is; exact claiming rest is
    · rw [Function.update_of_ne same] at is; exact h.claiming other rest is
  · change Function.update s.claims name claim other = _ at is
    by_cases same : other = name
    · subst same; rw [Function.update_self] at is; exact releasing rest socket is member
    · rw [Function.update_of_ne same] at is; exact h.releasing other rest socket is member
  · change Linked (Holds s other) _ (Function.update s.claims name claim other) _
    by_cases same : other = name
    · subst same; rw [Function.update_self]; exact linked
    · rw [Function.update_of_ne same]; exact h.linked other

/-- Once it has begun to release them, all of its ends are still to be released. -/
theorem Kept.release (h : Kept host s) : Kept host (s.claim name (.releasing (s.networks name))) :=
  h.claim (fun _ is => by cases is)
    (fun rest socket is member => by cases is; exact h.networks name socket member)
    ((h.linked name).claim fun is => by cases is)

theorem memberOf_file {socket other : String} {file : File} {name : String}
    (member : memberOf ((s.file socket file).registry other) name = true) :
    other = socket ∧ memberOf file name = true ∨ memberOf (s.registry other) name = true := by
  change memberOf (Function.update s.registry socket file other) name = true at member
  by_cases same : other = socket
  · subst same; rw [Function.update_self] at member; exact .inl ⟨rfl, member⟩
  · rw [Function.update_of_ne same] at member; exact .inr member

theorem Kept.file (h : Kept host s) {socket : String} {file : File}
    (stored : Stored host socket file)
    (members : ∀ name, memberOf file name = true → memberOf (s.registry socket) name = true) :
    Kept host (s.file socket file) := by
  have was : ∀ {other name}, memberOf ((s.file socket file).registry other) name = true →
      memberOf (s.registry other) name = true := by
    intro other name member
    rcases memberOf_file member with ⟨rfl, inside⟩ | before
    · exact members name inside
    · exact before
  refine ⟨fun other => ?_, fun name other member => h.networks name other (was member), h.claiming,
    fun name rest other is member => h.releasing name rest other is (was member),
    fun name => (h.linked name).mono fun ⟨other, member⟩ => ⟨other, was member⟩⟩
  change Stored host other (Function.update s.registry socket file other)
  by_cases same : other = socket
  · subst same; rw [Function.update_self]; exact stored
  · rw [Function.update_of_ne same]; exact h.stored other

theorem Kept.join (h : Kept host s) {socket : String} {rest : List String}
    (asking : s.claims name = .claiming (socket :: rest)) {file : File} {r : Request}
    (stored : Stored host socket file) (move : Move socket (s.registry socket) r file)
    (joins : r.joins = some name) {claim : Claim}
    (stage : claim = .claiming rest ∨ claim = .releasing (s.networks name)) :
    Kept host ((s.file socket file).claim name claim) := by
  obtain ⟨asked, op, state, at_⟩ := h.claiming name _ asking
  have was : ∀ {other x}, memberOf ((s.file socket file).registry other) x = true →
      memberOf (s.registry other) x = true ∨ x = name ∧ other = socket := by
    intro other x member
    rcases memberOf_file member with ⟨rfl, inside⟩ | before
    · refine (memberOf_move move inside).imp_right fun is => ⟨?_, rfl⟩
      rw [joins] at is
      exact (Option.some.inj is).symm
    · exact .inl before
  have networks : ∀ x other, memberOf ((s.file socket file).registry other) x = true →
      other ∈ s.networks x := by
    intro x other member
    rcases was member with member | ⟨rfl, rfl⟩
    · exact h.networks x other member
    · exact asked _ List.mem_cons_self
  refine ⟨fun other => ?_, networks, fun x rest' is => ?_, fun x rest' other is member => ?_,
    fun x => ?_⟩
  · change Stored host other (Function.update s.registry socket file other)
    by_cases same : other = socket
    · subst same; rw [Function.update_self]; exact stored
    · rw [Function.update_of_ne same]; exact h.stored other
  · change Function.update s.claims name claim x = _ at is
    by_cases same : x = name
    · subst same
      rw [Function.update_self] at is
      refine ⟨fun other member => ?_, op, state, at_⟩
      rcases stage with rfl | rfl
      · cases is; exact asked other (List.mem_cons_of_mem socket member)
      · cases is
    · rw [Function.update_of_ne same] at is; exact h.claiming x rest' is
  · change Function.update s.claims name claim x = _ at is
    by_cases same : x = name
    · subst same
      rw [Function.update_self] at is
      rcases stage with rfl | rfl
      · cases is
      · cases is; exact networks x other member
    · rw [Function.update_of_ne same] at is
      rcases was member with member | ⟨is', -⟩
      · exact h.releasing x rest' other is member
      · exact (same is').elim
  · change Linked _ (s.machines x).record (Function.update s.claims name claim x) (s.machines x).phase
    by_cases same : x = name
    · subst same
      rw [Function.update_self, at_]
      intro is
      rcases stage with rfl | rfl <;> cases is
    · rw [Function.update_of_ne same]
      refine (h.linked x).mono fun ⟨other, member⟩ => ?_
      rcases was member with member | ⟨is', -⟩
      · exact ⟨other, member⟩
      · exact (same is').elim

/-- A new machine has no end of a link, so its networks are its own to choose. -/
theorem Kept.choose (h : Kept host s) (networks : List String) (not : ¬ Holds s name)
    (unclaimed : s.claims name = .unclaimed) :
    Kept host { s with networks := Function.update s.networks name networks } := by
  refine ⟨h.stored, fun other socket member => ?_, fun other rest is => ?_, h.releasing, h.linked⟩
  · change socket ∈ Function.update s.networks name networks other
    by_cases same : other = name
    · subst same; exact (not ⟨socket, member⟩).elim
    · rw [Function.update_of_ne same]; exact h.networks other socket member
  · have other_ : other ≠ name := by
      rintro rfl
      cases unclaimed.symm.trans is
    change (∀ socket ∈ rest, socket ∈ Function.update s.networks name networks other) ∧ _
    rw [Function.update_of_ne other_]
    exact h.claiming other rest is

theorem Kept.lock (h : Kept host s) {op : Operation} {t : Lifecycle.State}
    (locks : Lifecycle.next (s.machines name) (.lock op) = some t) (networks : List String) :
    Kept host { (s.advance name t).claim name .unclaimed with
      networks := if op.creates then Function.update s.networks name networks else s.networks } := by
  obtain ⟨linked, new, state, at_⟩ := Linked.lock locks (h.linked name)
  have advanced : Kept host (s.advance name t) := by
    refine h.advance (fun _ _ => ⟨op, state, at_⟩) ?_
    rw [at_] at linked ⊢
    exact fun _ => linked rfl
  have entered : Kept host ((s.advance name t).claim name .unclaimed) := by
    refine advanced.claim (fun _ is => by cases is) (fun _ _ is => by cases is) ?_
    change Linked (Holds s name) (Function.update s.machines name t name).record _
      (Function.update s.machines name t name).phase
    rw [Function.update_self]
    exact linked
  by_cases creates : op.creates = true
  · rw [if_pos creates]
    exact entered.choose networks (new creates) (Function.update_self name _ _)
  · rw [if_neg creates]
    exact entered

theorem Kept.step (h : Kept host s) {e : Lifecycle.Event} {networks : List String} {s' : State}
    (step : next host s (.step name e networks) = some s') : Kept host s' := by
  obtain ⟨allowed, step⟩ := Option.ite_none_right_eq_some.mp step
  obtain ⟨t, moves, rfl⟩ := Option.map_eq_some_iff.mp step
  by_cases locks : ∃ op, e = .lock op
  · obtain ⟨op, rfl⟩ := locks
    exact h.lock moves networks
  · have advanced : Kept host (s.advance name t) := by
      refine h.advance (fun rest is => ?_)
        (.next moves (not_exists.mp locks) allowed h.released (h.linked name))
      obtain ⟨-, op, state, at_⟩ := h.claiming name rest is
      rw [at_, is] at allowed
      cases e with
      | exit pid => cases moves; exact ⟨op, state, at_⟩
      | _ => cases allowed
    cases e with
    | lock op => exact (locks ⟨op, rfl⟩).elim
    | _ => exact advanced

theorem registers_entered {m : Lifecycle.State} {phase : Phase} (h : registers m phase = true) :
    ∃ op state, phase = .entered op state := by
  unfold registers at h
  split at h
  · exact ⟨_, _, rfl⟩
  · exact ⟨_, _, rfl⟩
  · cases h

theorem Kept.link (h : Kept host s) {ok : Bool} {used : List ℕ} {now : Timestamp} {s' : State}
    (still : undisturbed s (.link name ok used now) = true)
    (step : next host s (.link name ok used now) = some s') : Kept host s' := by
  simp only [next] at step
  split at step
  · rename_i socket rest asking
    obtain ⟨asked, entered⟩ := h.claiming name _ asking
    split at step
    · cases step
      have stored := (h.stored socket).run (.joinNamedSocket name (some true) used now)
      have move := move_of_run (h.stored socket) (.joinNamedSocket name (some true) used now)
      refine h.join asking stored move rfl ?_
      split
      · exact .inr rfl
      · exact .inl rfl
    · cases step
      refine h.claim (fun rest' is => ?_) (fun _ _ is => by cases is)
        ((h.linked name).claim fun is => by cases is)
      cases is
      exact ⟨fun other member => asked other (List.mem_cons_of_mem socket member), entered⟩
  · cases step
    split
    · exact h.claim (fun _ is => by cases is) (fun _ _ is => by cases is)
        ((h.linked name).claim fun is => by cases is)
    · exact h.release
  · rename_i socket rest releasing
    cases step
    simp only [undisturbed, releasing] at still
    subst still
    have stored := (h.stored socket).run (.removeSocketMember name)
    have gone : memberOf (removeSocketMember host socket name (s.registry socket)).2 name = false :=
      memberOf_removeSocketMember (h.stored socket) name
    have kept : Kept host (s.file socket (removeSocketMember host socket name (s.registry socket)).2) := by
      refine h.file stored fun other member => ?_
      rcases memberOf_move (removeSocketMember_move (h.stored socket)) member with before | joins
      · exact before
      · cases joins
    rw [if_pos rfl]
    refine kept.claim (fun _ is => by cases is) (fun rest' other is member => ?_)
      ((kept.linked name).claim fun is => by cases is)
    cases is
    rcases memberOf_file member with ⟨rfl, inside⟩ | before
    · rw [gone] at inside; cases inside
    · have pending := h.releasing name _ other releasing before
      rcases List.mem_cons.mp pending with rfl | later
      · change memberOf (Function.update s.registry other _ other) name = true at member
        rw [Function.update_self, gone] at member
        cases member
      · exact later
  · cases step

theorem Kept.abort (h : Kept host s) {torn : Bool}
    (still : undisturbed s (.abort name torn) = true)
    (aborting : aborts (s.machines name).phase = true) :
    Kept host (s.advance name { (s.machines name).goto .idle with
      record := if torn then none else (s.machines name).record }) := by
  have linked := h.linked name
  refine h.advance (fun rest is => ?_) ?_
  · obtain ⟨-, op, state, at_⟩ := h.claiming name rest is
    rw [at_] at aborting
    cases aborting
  · change Recorded (Holds s name) (if torn then none else (s.machines name).record)
    cases torn with
    | true => exact .of_not (h.not_holds still) _
    | false =>
        unfold aborts at aborting
        split at aborting
        · rename_i at_; rw [at_] at linked; exact linked.1
        · rename_i at_; rw [at_] at linked; exact linked.1
        · rename_i at_; rw [at_] at linked; exact linked.1
        · cases aborting

theorem Kept.next (h : Kept host s) {e : Event} {s' : State} (still : undisturbed s e = true)
    (step : next host s e = some s') : Kept host s' := by
  cases e with
  | step name e networks => exact h.step step
  | register name =>
      obtain ⟨⟨-, registers⟩, ⟨⟩⟩ := Option.ite_none_right_eq_some.mp step
      refine h.claim (fun rest is => ?_) (fun _ _ is => by cases is)
        ((h.linked name).claim fun is => by cases is)
      cases is
      exact ⟨fun _ => id, registers_entered registers⟩
  | link name ok used now => exact h.link still step
  | release name =>
      obtain ⟨-, ⟨⟩⟩ := Option.ite_none_right_eq_some.mp step
      exact h.release
  | abort name torn =>
      obtain ⟨aborting, ⟨⟩⟩ := Option.ite_none_right_eq_some.mp step
      have kept := h.abort still aborting
      exact ⟨kept.stored, kept.networks, kept.claiming, kept.releasing, kept.linked⟩
  | removeOrphan name =>
      obtain ⟨-, ⟨⟩⟩ := Option.ite_none_right_eq_some.mp step
      exact ⟨h.stored, h.networks, h.claiming, h.releasing, h.linked⟩
  | createNamedSocket socket opts used now =>
      cases step
      refine h.file ((h.stored socket).run (.createNamedSocket opts used now)) fun name member => ?_
      exact (memberOf_move createNamedSocket_move member).resolve_right fun is => by cases is
  | removeNamedSocket socket wasCached =>
      cases step
      refine h.file ((h.stored socket).run (.removeNamedSocket wasCached)) fun name member => ?_
      exact (memberOf_move (removeNamedSocket_move (h.stored socket)) member).resolve_right
        fun is => by cases is
  | load reader name =>
      simp only [NamedLinks.next] at step
      split at step
      · cases step
        exact ⟨h.stored, h.networks, h.claiming, h.releasing, h.linked⟩
      · cases step
  | test reader =>
      simp only [NamedLinks.next] at step
      split at step
      · cases step
        exact ⟨h.stored, h.networks, h.claiming, h.releasing, h.linked⟩
      · cases step
  | save reader =>
      simp only [NamedLinks.next] at step
      split at step
      · rename_i name m at_
        cases step
        rw [undisturbed, at_] at still
        have kept := h.advance (t := { s.machines name with
            record := some m.stopped, signalled := none, undone := none })
          (fun rest is => (h.claiming name rest is).2) ((h.linked name).of_not (h.not_holds still))
        exact ⟨kept.stored, kept.networks, kept.claiming, kept.releasing, kept.linked⟩
      · cases step

theorem Kept.of_reachable
    (h : (system host).ReachableUnder (fun s e => undisturbed s e = true) s) : Kept host s := by
  refine h.invariant (fun s start => ?_) fun s e s' _ kept still step => kept.next still step
  subst start
  have none : ∀ name, ¬ Holds .init name := fun name ⟨socket, member⟩ => by cases member
  exact ⟨fun _ => .inl rfl, fun _ _ member => (by cases member), fun _ _ is => (by cases is),
    fun _ _ _ is => (by cases is), fun name => Recorded.of_not (none name) _⟩

/-- As long as no refresh marks a machine with an end of a link as stopped, no save of its record
is cut short and every removal of a member goes through: a member of a named socket, or the holder
of one of its ends, that no operation is at work on exists, and its record says running. -/
theorem holder_runs (h : (system host).ReachableUnder (fun s e => undisturbed s e = true) s)
    {socket : String} {entry : SocketEntry} (is : reloadEntry (s.registry socket) = some entry)
    (holds : name ∈ entry.members ∨ ∃ slots, entry.endpoints = some slots ∧ some name ∈ slots)
    (idle : (s.machines name).phase = .idle) :
    ∃ m, (s.machines name).record = some m ∧ m.status = .running := by
  have kept := Kept.of_reachable h
  have member : name ∈ entry.members := by
    rcases holds with member | ⟨slots, has, held⟩
    · exact member
    · rcases kept.stored socket with none | ⟨-, entry', file, sound⟩
      · rw [none] at is; cases is
      · rw [file] at is
        cases is.symm.trans sound.reload
        by_cases mcast : entry.mode = .mcast
        · cases has.symm.trans (sound.segment mcast)
        · obtain ⟨slots', has', -, -, members⟩ := sound.pair mcast
          cases has.symm.trans has'
          exact (members name).mpr held
  have linked := kept.linked name
  rw [idle] at linked
  exact linked ⟨socket, memberOf_iff.mpr ⟨entry, is, member⟩⟩

def here : Host := ⟨false, "/data/networks"⟩

/-- A new machine on one link, up to the save of its launch. -/
def launching : List Event :=
  [.step "r1" (.lock (.create "r1" {} 0 .background)) ["lan"], .register "r1", .link "r1" true [] 0,
    .link "r1" true [] 0, .step "r1" (.spawn 100) [], .step "r1" (.save 1 "kvm") []]

def launching.done : List Event := [.step "r1" (.boot "kvm" 9000) [], .step "r1" .finish []]

theorem holder_runs_once : ∃ (s : State) (m : MachineState), memberOf (s.registry "lan") "r1" = true ∧
    (s.machines "r1").record = some m ∧ m.status = .running := by
  obtain ⟨s, reachable, member, idle⟩ := Transition.System.exists_reachable
    (S := (system here).restrict fun s e => undisturbed s e = true)
    (P := fun s => memberOf (s.registry "lan") "r1" = true ∧ (s.machines "r1").phase = .idle)
    (launching ++ launching.done) (s := .init) rfl (by decide +kernel)
  obtain ⟨entry, is, holds⟩ := memberOf_iff.mp member
  obtain ⟨m, record, running⟩ := holder_runs
    (Transition.System.ReachableUnder.of_restrict reachable) is (.inl holds) idle
  exact ⟨s, m, member, record, running⟩

/-- QEMU dies and `list` marks the machine as stopped: it is still on the link. And a machine whose
record is cut short while it is on the link is removed as an orphan. -/
theorem holder_runs_fails :
    (¬ ∀ s, (system here).Reachable s → ∀ socket entry name,
      reloadEntry (s.registry socket) = some entry →
      (name ∈ entry.members ∨ ∃ slots, entry.endpoints = some slots ∧ some name ∈ slots) →
      (s.machines name).phase = .idle →
      ∃ m, (s.machines name).record = some m ∧ m.status = .running) ∧
    ∃ s, (system here).Reachable s ∧ memberOf (s.registry "lan") "r1" = true ∧
      (s.machines "r1").phase = .idle ∧ (s.machines "r1").record = none ∧ s.orphans "r1" = false := by
  constructor
  · obtain ⟨s, reachable, member, idle, stopped⟩ := Transition.System.exists_reachable
      (S := system here)
      (P := fun s => memberOf (s.registry "lan") "r1" = true ∧ (s.machines "r1").phase = .idle ∧
        (s.machines "r1").record.any (fun m => m.status = .stopped) = true)
      (launching ++ launching.done ++
        [.step "r1" (.exit 100) [], .load 0 "r1", .test 0, .save 0]) (s := .init) rfl
      (by decide +kernel)
    intro claim
    obtain ⟨entry, is, holds⟩ := memberOf_iff.mp member
    obtain ⟨m, record, running⟩ := claim s reachable "lan" entry "r1" is (.inl holds) idle
    rw [record, Option.any_some, running] at stopped
    cases stopped
  · exact Transition.System.exists_reachable (S := system here)
      (launching ++ [.abort "r1" true, .removeOrphan "r1"]) (s := .init) rfl (by decide +kernel)

end NamedLinks
end Quickchr
