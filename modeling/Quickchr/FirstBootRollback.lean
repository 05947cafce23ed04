import Quickchr.Lifecycle
import Quickchr.Lib.Transition

/-!
# A failed first boot is undone

A launch with an open provisioning window keeps a copy of the record from before it. When the
boot times out, or a provisioning step throws, the copy is what is written back.
-/
namespace Quickchr.Lifecycle

open ProvisioningWindow Provisioning

def system : Transition.System State Event where
  Initial s := s = .init
  next := next

/-- What the rollback leaves of the record `m`. -/
def rolledBack (m : MachineState) : MachineState := { m with status := .stopped, pid := none }

/-- A launch of the machine `m` in its first boot, up to the failure. -/
def Phase.FirstBoot (m : MachineState) : Phase → Prop
  | .idle | .console .. => True
  | .entered op state => (∃ mode, op = .start mode) ∧ state = m
  | .spawned _ _ _ cleanup | .launched _ _ cleanup _ | .replacing _ cleanup _
  | .replaced _ _ cleanup _ | .ready _ cleanup | .changing _ cleanup _ _ => cleanup = .resetFirstBoot m
  | .halted target | .saving target _ => target = .stop (some (.resetFirstBoot m))
  | .undoing cleanup => cleanup = .resetFirstBoot m
  | .resumed .. | .thawing .. | .waiting _ | .removing => False

/-- From the failure on, with what is on disk. -/
def Phase.Undoes (m : MachineState) (record : Option MachineState) : Phase → Prop
  | .halted target | .saving target _ => target = .stop (some (.resetFirstBoot m))
  | .undoing cleanup => cleanup = .resetFirstBoot m
  | .idle => record = some (rolledBack m)
  | _ => False

def Event.within : Event → Bool
  | .lock _ => false
  | _ => true

theorem Phase.FirstBoot.next {s s' : State} {e : Event} {m : MachineState}
    (h : s.phase.FirstBoot m) (opened : isProvisioningWindowOpen m = true) (within : e.within = true)
    (step : next s e = some s') : s'.phase.FirstBoot m := by
  have carried : bootFailureCleanup m = .resetFirstBoot m := if_pos opened
  cases move_of_next step with
  | new => cases within
  | @quiet e phase quiet =>
      show phase.FirstBoot m
      generalize s.phase = from_ at quiet h
      cases quiet with
      | give | quit | lost | died | diedAgain | left => trivial
      | mirror => exact h
      | resume | stopped => obtain ⟨⟨mode, is⟩, _⟩ := h; cases is
      | refused | resumed | wait | answered => exact h.elim
      | unreset => cases h
      | gone => rw [show _ = Target.stop _ from h]; rfl
      | discard => cases h
  | @load e current phase is load =>
      show phase.FirstBoot m
      generalize s.phase = from_ at load h
      cases load with
      | lock is => subst is; cases within
      | change => exact h
      | thaw => exact h.elim
      | stop => exact h
  | @save now accel phase current save | @booted accel bootMs phase current save =>
      show phase.FirstBoot m
      generalize s.phase = from_ at save h
      cases save with
      | add => obtain ⟨⟨mode, is⟩, _⟩ := h; cases is
      | foreground => trivial
      | launch | boot | cycled | respawned | change => exact h
      | thaw | thawWait => exact h.elim
      | stop => rw [show _ = Target.stop _ from h]; rfl
  | undo | remove | finish => trivial
  | @kill e phase pid kill =>
      show phase.FirstBoot m
      generalize s.phase = from_ at kill h
      cases kill with
      | boot | provision | cycle | unreplaced => rw [show _ = BootFailureCleanup.resetFirstBoot m from h]; rfl
      | respawn | relaunch => cases h
      | replace => exact h
      | stop | clean | remove => obtain ⟨⟨mode, is⟩, _⟩ := h; cases is
      | wait => exact h.elim
  | @spawn phase pid _ spawn =>
      show phase.FirstBoot m
      generalize s.phase = from_ at spawn h
      cases spawn with
      | createForeground | foreground => trivial
      | create => obtain ⟨⟨mode, is⟩, _⟩ := h; cases is
      | start => rw [h.2]; exact carried
      | replace => exact h
  | exit => exact h

/-- Unless it is told to preserve the machine or the reset fails, the rollback goes through. -/
theorem Phase.Undoes.next {s s' : State} {e : Event} {m : MachineState}
    (h : s.phase.Undoes m s.record) (within : e.within = true) (goes : e ≠ .fail)
    (step : next s e = some s') : s'.phase.Undoes m s'.record := by
  cases move_of_next step with
  | new => cases within
  | @quiet e phase quiet =>
      show phase.Undoes m s.record
      generalize s.phase = from_ at quiet h
      cases quiet with
      | unreset => cases h
      | gone => rw [show _ = Target.stop _ from h]; rfl
      | left is => exact absurd is goes
      | discard => cases h
      | _ => exact h.elim
  | @load e current phase is load =>
      show phase.Undoes m s.record
      generalize s.phase = from_ at load h
      cases load with
      | lock is => subst is; cases within
      | stop => exact h
      | _ => exact h.elim
  | @save now accel phase current save | @booted accel bootMs phase current save =>
      show phase.Undoes m (some current)
      generalize s.phase = from_ at save h
      cases save with
      | stop => rw [show _ = Target.stop _ from h]; rfl
      | _ => exact h.elim
  | undo at_ =>
      rw [at_] at h
      cases h
      rfl
  | remove at_ => rw [at_] at h; exact h.elim
  | kill kill =>
      generalize s.phase = from_ at kill h
      cases kill <;> exact h.elim
  | spawn _ spawn =>
      generalize s.phase = from_ at spawn h
      cases spawn <;> exact h.elim
  | finish finish =>
      generalize s.phase = from_ at finish h
      cases finish <;> exact h.elim
  | exit => exact h

/-- A rollback that runs to its end: no flag preserves the machine, the reset succeeds. -/
structure RollsBack (u : State) (events : List Event) (t : State) : Prop where
  runs : system.replay u events = some t
  within : ∀ e ∈ events, e.within = true
  goes : .fail ∉ events
  ended : t.phase = .idle

theorem RollsBack.exists {u : State} {m : MachineState}
    (failed : u.phase = .halted (.stop (some (.resetFirstBoot m)))) :
    ∃ events t, RollsBack u events t := by
  cases is : u.record with
  | none =>
      refine ⟨[.reload, .save 0 ""], { (u.goto .idle) with
        record := some (rolledBack m), undone := some m, version := u.version + 1 },
        ⟨?_, by decide, by decide, rfl⟩⟩
      simp only [Transition.System.replay, system, next, advance, failed, is, Option.bind_some]
      rfl
  | some current =>
      refine ⟨[.reload, .save 0 "", .save 0 ""], { (u.goto .idle) with
        record := some (rolledBack m), undone := some m, version := u.version + 2 },
        ⟨?_, by decide, by decide, rfl⟩⟩
      simp only [Transition.System.replay, system, next, advance, failed, is, Option.bind_some]
      rfl

/-- However far the launch got before it failed, and whatever it had written by then: the rollback
comes to its end, the record it leaves is the one from before the launch, and the window is open
as it was. -/
theorem first_boot_undone {s u : State} {mode : LaunchMode} {m : MachineState}
    {cleanup : BootFailureCleanup} {launch : List Event}
    (began : s.phase = .entered (.start mode) m) (opened : isProvisioningWindowOpen m = true)
    (launches : system.replay s launch = some u) (within : ∀ e ∈ launch, e.within = true)
    (failed : u.phase = .halted (.stop (some cleanup))) :
    (∃ events t, RollsBack u events t) ∧ ∀ events t, RollsBack u events t →
      t.record = some (rolledBack m) ∧ isProvisioningWindowOpen (rolledBack m) = true ∧
        ∀ request,
          pendingProvisioningFor (rolledBack m) request = pendingProvisioningFor m request := by
  have fails : u.phase.FirstBoot m := by
    refine system.replay_invariant (I := fun s => s.phase.FirstBoot m) launches ?_ ?_
    · rw [began]; exact ⟨⟨mode, rfl⟩, rfl⟩
    · intro s e s' member h step
      exact h.next opened (within e member) step
  rw [failed] at fails
  cases fails
  refine ⟨RollsBack.exists failed, fun events t rolls => ?_⟩
  have undoes : t.phase.Undoes m t.record := by
    refine system.replay_invariant (I := fun s => s.phase.Undoes m s.record) rolls.runs ?_ ?_
    · rw [failed]; exact rfl
    · intro s e s' member h step
      exact h.next (rolls.within e member) (fun is => rolls.goes (is ▸ member)) step
  rw [rolls.ended] at undoes
  exact ⟨undoes, opened, fun _ => rfl⟩

/-- A launch whose packages are in, and which fails at the license. -/
def halfProvisioned : List Event :=
  [.lock (.start .background), .spawn 100, .save 1 "kvm", .boot "kvm" 9000,
    .change (.packages ["zerotier"]), .save 2 "", .kill]

theorem first_boot_undone_half : ∃ (m : MachineState) (u : State) (events : List Event) (t : State),
    system.replay .init ([.lock (.add "chr" {} 0), .save 0 ""] ++ halfProvisioned) = some u ∧
      (∀ current, u.record = some current → current ≠ rolledBack m) ∧
      RollsBack u events t ∧ t.record = some (rolledBack m) := by
  let m := created "chr" {} 0 .stopped
  obtain ⟨s, entered, began⟩ : ∃ s, system.replay .init
      [.lock (.add "chr" {} 0), .save 0 "", .lock (.start .background)] = some s ∧
      s.phase = .entered (.start .background) m := ⟨_, rfl, rfl⟩
  obtain ⟨u, launches, failed, current, is, half⟩ : ∃ u,
      system.replay s halfProvisioned.tail = some u ∧
      u.phase = .halted (.stop (some (.resetFirstBoot m))) ∧
      ∃ current, u.record = some current ∧ current ≠ rolledBack m := by
    cases entered
    exact ⟨_, rfl, rfl, _, rfl, by decide +kernel⟩
  obtain ⟨⟨events, t, rolls⟩, undone⟩ :=
    first_boot_undone began (by decide) launches (by decide) failed
  refine ⟨m, u, events, t, ?_, ?_, rolls, (undone events t rolls).1⟩
  · change system.replay .init ([.lock (.add "chr" {} 0), .save 0 "", .lock (.start .background)] ++
      halfProvisioned.tail) = some u
    rw [Transition.System.replay_append, entered, Option.bind_some, launches]
  · intro current' is'
    cases is.symm.trans is'
    exact half

end Quickchr.Lifecycle
