import Quickchr.SocketMembers
import Quickchr.RecordRefresh

/-!
# Machines on named links

Any number of machines, each with its lifecycle under its lock, and the registry of named
sockets. A launch joins the named sockets of the machine, one after the other, before it spawns;
what stops or removes a machine leaves them again. An operation on a socket can fail: a join that
is not refused for want of an end, and any removal of a member, is then only warned about.
-/
namespace Quickchr.NamedLinks

open Lifecycle SocketRegistry

/-- How far the operation on a machine is with the ends of its links. -/
inductive Claim
  | unclaimed
  | claiming (rest : List String)
  | claimed
  | releasing (rest : List String)
  deriving DecidableEq

/-- Where a `list()` or `get()` is. -/
inductive Reader
  | idle
  | loaded (name : String) (m : MachineState)
  | dead (name : String) (m : MachineState)

structure State where
  machines : String → Lifecycle.State
  /-- The named sockets among the networks of a machine. -/
  networks : String → List String
  claims : String → Claim
  registry : String → File
  /-- The directory is there, its `machine.json` cannot be read. -/
  orphans : String → Bool
  readers : ℕ → Reader

inductive Event
  /-- A step of an operation on the machine; one that creates it chooses the networks. -/
  | step (name : String) (e : Lifecycle.Event) (networks : List String)
  | register (name : String)
  /-- The next join or leave, or the resolution of the networks; `ok` unless it throws. -/
  | link (name : String) (ok : Bool) (used : List ℕ) (now : Timestamp)
  | release (name : String)
  /-- The save that is due throws, the file cut short or not. -/
  | abort (name : String) (torn : Bool)
  | removeOrphan (name : String)
  | createNamedSocket (socket : String) (opts : SocketOptions) (used : List ℕ) (now : Timestamp)
  | removeNamedSocket (socket : String) (wasCached : Bool)
  | load (reader : ℕ) (name : String)
  | test (reader : ℕ)
  | save (reader : ℕ)

def State.claim (s : State) (name : String) (claim : Claim) : State :=
  { s with claims := Function.update s.claims name claim }

def State.advance (s : State) (name : String) (t : Lifecycle.State) : State :=
  { s with machines := Function.update s.machines name t }

def State.file (s : State) (socket : String) (file : File) : State :=
  { s with registry := Function.update s.registry socket file }

/-- What the ends of the links have to be at for a step of the lifecycle. -/
def allows (claim : Claim) (orphan : Bool) : Phase → Lifecycle.Event → Bool
  | _, .exit _ => true
  | .idle, _ => !orphan
  | .entered .., .spawn _ => claim = .claimed
  | .entered .., _ => claim = .unclaimed ∨ claim = .releasing []
  | .spawned .., .fail | .console .., _ | .halted _, _ | .removing, _ => claim = .releasing []
  | .spawned .., _ => claim = .claimed
  | _, _ => true

/-- `registerAndResolveNetworks` is next. -/
def registers (m : Lifecycle.State) : Phase → Bool
  | .entered (.create ..) state | .entered (.start _) state => !m.isMachineRunning state
  | _ => false

/-- `unregisterSocketMembers` is next. -/
def releases (m : Lifecycle.State) (claim : Claim) : Phase → Bool
  | .entered .. => claim = .claimed
  | .spawned _ pid _ _ => claim = .claimed ∧ !m.alive pid
  | .console _ pid => !m.alive pid
  | .halted _ | .removing => true
  | _ => false

/-- A save is next, and when it throws nothing is undone. -/
def aborts : Phase → Bool
  | .launched _ .background .. | .replaced _ _ _ false | .thawing .. => true
  | _ => false

/-- A full link is a refusal, not a warning. -/
def refused (result : Except QuickCHRError SocketEntry) : Bool :=
  match result with
  | .error e => e.code = .NETWORK_UNAVAILABLE
  | .ok _ => false

def next (host : Host) (s : State) : Event → Option State
  | .step name e networks =>
      let m := s.machines name
      if allows (s.claims name) (s.orphans name) m.phase e then
        (Lifecycle.next m e).map fun t =>
          match e with
          | .lock op =>
              { (s.advance name t).claim name .unclaimed with
                networks := if op.creates then Function.update s.networks name networks
                  else s.networks }
          | _ => s.advance name t
      else none
  | .register name =>
      if s.claims name = .unclaimed ∧ registers (s.machines name) (s.machines name).phase then
        some (s.claim name (.claiming (s.networks name)))
      else none
  | .link name ok used now =>
      match s.claims name with
      | .claiming (socket :: rest) =>
          if ok then
            let (result, file) :=
              joinNamedSocket host socket name (some true) used now (s.registry socket)
            some ((s.file socket file).claim name
              (if refused result then .releasing (s.networks name) else .claiming rest))
          else some (s.claim name (.claiming rest))
      | .claiming [] => some (s.claim name (if ok then .claimed else .releasing (s.networks name)))
      | .releasing (socket :: rest) =>
          let file := if ok then (removeSocketMember host socket name (s.registry socket)).2
            else s.registry socket
          some ((s.file socket file).claim name (.releasing rest))
      | _ => none
  | .release name =>
      if releases (s.machines name) (s.claims name) (s.machines name).phase then
        some (s.claim name (.releasing (s.networks name)))
      else none
  | .abort name torn =>
      let m := s.machines name
      if aborts m.phase then
        some { s.advance name { m.goto .idle with record := if torn then none else m.record } with
          orphans := Function.update s.orphans name torn }
      else none
  | .removeOrphan name =>
      if s.orphans name ∧ (s.machines name).phase = .idle then
        some { s with orphans := Function.update s.orphans name false }
      else none
  | .createNamedSocket socket opts used now =>
      some (s.file socket (SocketRegistry.createNamedSocket host socket opts used now
        (s.registry socket)).2)
  | .removeNamedSocket socket wasCached =>
      some (s.file socket (SocketRegistry.removeNamedSocket host socket wasCached
        (s.registry socket)).2)
  | .load reader name =>
      match s.readers reader, (s.machines name).record with
      | .idle, some m => some { s with readers := Function.update s.readers reader (.loaded name m) }
      | _, _ => none
  | .test reader =>
      match s.readers reader with
      | .loaded name m =>
          let dead := m.status = .running ∧ !(s.machines name).isMachineRunning m
          some { s with
            readers := Function.update s.readers reader (if dead then .dead name m else .idle) }
      | _ => none
  | .save reader =>
      match s.readers reader with
      | .dead name m =>
          some { s.advance name { s.machines name with
              record := some m.stopped, signalled := none, undone := none } with
            orphans := Function.update s.orphans name false
            readers := Function.update s.readers reader .idle }
      | _ => none

def State.init : State where
  machines _ := .init
  networks _ := []
  claims _ := .unclaimed
  registry _ := none
  orphans _ := false
  readers _ := .idle

def system (host : Host) : Transition.System State Event where
  Initial s := s = .init
  next := next host

def memberOf (file : File) (name : String) : Bool :=
  (reloadEntry file).any fun entry => entry.members.contains name

def free (s : State) (name : String) : Bool :=
  (s.networks name).all fun socket => !memberOf (s.registry socket) name

/-- A refresh saves, or a save is cut short, only for a machine without an end of a link; a
member's removal goes through. -/
def undisturbed (s : State) : Event → Bool
  | .save reader =>
      match s.readers reader with
      | .dead name _ => free s name
      | _ => true
  | .abort name torn => !torn || free s name
  | .link name ok _ _ =>
      match s.claims name with
      | .releasing (_ :: _) => ok
      | _ => true
  | _ => true

end Quickchr.NamedLinks
