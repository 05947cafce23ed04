import Quickchr.Lib.Transition
import Quickchr.Lock.Records
import Mathlib.Data.Finset.Sort
import Mathlib.Logic.Function.Basic

/-!
# The lock protocol, one file-system call at a time

Any number of processes run `acquireLockNow` (one attempt of `acquireLock`) and
`release()` on one lock directory. Each constructor of `Local` is the point just before
one file-system call of lock.ts, so every interleaving of the calls is a run. A process
may crash anywhere; a holder may rename the machine directory away, with the lock in it.
`attempt`'s legacy refusal is a claim followed at once by `release()`.
-/
namespace Quickchr.Lock

/-- The arguments of `acquireLockNow` that end up in the record. -/
structure Request where
  op : LockOperation
  reserve : Option ResourceReservation
  deriving DecidableEq, Repr

/-- The arguments of one `claim()` call, with the record it made. `judgedRaw` is the
content of record `gen - 1` that was judged free, `none` for an empty incarnation. -/
structure Claim where
  request : Request
  id : Uuid
  gen : ℕ
  judgedRaw : Option LockRecord
  record : LockRecord
  deriving DecidableEq

/-- What `heldLock` closes over. -/
structure HeldLock where
  id : Uuid
  gen : ℕ
  record : LockRecord
  deriving DecidableEq

def Claim.heldLock (c : Claim) : HeldLock := ⟨c.id, c.gen, c.record⟩

/-- What one `linkNew` call publishes, and for whom. -/
inductive Publication
  | id (q : Request) (content : Uuid)
  | claim (c : Claim)
  | marker (h : HeldLock) (record : LockRecord)
  deriving DecidableEq

/-- `failed` stands for ENOSPC, EACCES and the like, which `linkNew` throws. -/
inductive LinkResult
  | linked | exists | missing | failed
  deriving DecidableEq

/-- Who called `collect`: a claim that stands, or `release()`. -/
inductive Collector
  | claim | release
  deriving DecidableEq

inductive Local
  | idle
  | ensureLockDir (q : Request)
  | readId (q : Request)
  | readIdBack (q : Request)
  | writeTemp (n : Publication)
  | link (n : Publication) (temp : Uuid)
  | unlinkTemp (n : Publication) (temp : Uuid) (result : LinkResult)
  | generations (q : Request) (id : Uuid)
  | inspect (q : Request) (id : Uuid) (gen : ℕ)
  | isAlive (q : Request) (id : Uuid) (gen : ℕ) (raw : LockRecord)
  | checkTop (c : Claim)
  | checkJudged (c : Claim) (isTop : Bool)
  | checkIncarnation (c : Claim)
  | unlinkClaim (c : Claim)
  | collectList (h : HeldLock) (k : Collector)
  | collectNext (h : HeldLock) (k : Collector) (gens : List ℕ)
  | held (h : HeldLock)
  | readOwn (h : HeldLock)
  deriving DecidableEq

/-- `parent` is the machine directory the lock directory lies in. `uuids` counts the
`randomUUID()` values drawn so far, so every draw is new. -/
structure State where
  parent : Bool
  dir : Option LockDir
  alive : Pid → Bool
  procs : Pid → Local
  uuids : ℕ

namespace State

def goto (s : State) (p : Pid) (l : Local) : State :=
  { s with procs := Function.update s.procs p l }

def setDir (s : State) (d : LockDir) : State := { s with dir := some d }

/-- One `randomUUID()` call returns `s.uuids`. -/
def draw (s : State) : State := { s with uuids := s.uuids + 1 }

def currentId (s : State) : Option Uuid := s.dir.bind (·.id)

variable (s : State) (p q : Pid) (l : Local) (d : LockDir)

@[simp] theorem goto_dir : (s.goto p l).dir = s.dir := rfl
@[simp] theorem goto_alive : (s.goto p l).alive = s.alive := rfl
@[simp] theorem goto_parent : (s.goto p l).parent = s.parent := rfl
@[simp] theorem goto_uuids : (s.goto p l).uuids = s.uuids := rfl
@[simp] theorem goto_procs_self : (s.goto p l).procs p = l := Function.update_self ..
@[simp] theorem setDir_dir : (s.setDir d).dir = some d := rfl
@[simp] theorem setDir_alive : (s.setDir d).alive = s.alive := rfl
@[simp] theorem setDir_parent : (s.setDir d).parent = s.parent := rfl
@[simp] theorem setDir_procs : (s.setDir d).procs = s.procs := rfl
@[simp] theorem setDir_uuids : (s.setDir d).uuids = s.uuids := rfl
@[simp] theorem draw_dir : s.draw.dir = s.dir := rfl
@[simp] theorem draw_alive : s.draw.alive = s.alive := rfl
@[simp] theorem draw_parent : s.draw.parent = s.parent := rfl
@[simp] theorem draw_procs : s.draw.procs = s.procs := rfl
@[simp] theorem draw_uuids : s.draw.uuids = s.uuids + 1 := rfl

end State

/-- Where a process stands when `linkNew` has thrown: `release()` is still the holder,
everyone else has left `acquireLockNow`. -/
def Publication.thrown : Publication → Local
  | .marker h _ => .held h
  | _ => .idle

/-- Where a process goes on after `linkNew`'s `finally`. A missing directory ends
`acquireLockNow` with MACHINE_NOT_FOUND and lets `release()` return. -/
def Publication.resume : Publication → LinkResult → Local
  | n, .failed => n.thrown
  | .id _ _, .missing => .idle
  | .id q _, _ => .readIdBack q
  | .claim c, .linked => .checkTop c
  | .claim c, .exists => .readId c.request
  | .claim _, .missing => .idle
  | .marker _ _, _ => .idle

/-- The effect of `linkSync(tmp, path)` in a directory that holds `tmp`. -/
def Publication.linkIn (d : LockDir) : Publication → LockDir × LinkResult
  | .id _ content => match d.id with
      | some _ => (d, .exists)
      | none => ({ d with id := some content }, .linked)
  | .claim c => match d.read c.id c.gen with
      | some _ => (d, .exists)
      | none => (d.put c.id c.gen c.record, .linked)
  | .marker h m => match d.read h.id (h.gen + 1) with
      | some _ => (d, .exists)
      | none => (d.put h.id (h.gen + 1) m, .linked)

/-- `linkNew`, third call on: `linkSync` fails with ENOENT when the directory that holds
the temp file is no longer the one at this path. -/
def link (s : State) (p : Pid) (n : Publication) (temp : Uuid) : State :=
  match s.dir with
  | none => s.goto p (.unlinkTemp n temp .missing)
  | some d =>
      if (p, temp) ∈ d.temps then
        (s.setDir (n.linkIn d).1).goto p (.unlinkTemp n temp (n.linkIn d).2)
      else s.goto p (.unlinkTemp n temp .missing)

/-- `claim`, up to its `linkNew`: draw the token and make the record. -/
def beginClaim (s : State) (p : Pid) (now : Timestamp) (q : Request) (id : Uuid) (gen : ℕ)
    (judgedRaw : Option LockRecord) : State :=
  s.draw.goto p (.writeTemp (.claim
    { request := q, id, gen, judgedRaw
      record := { pid := p, op := q.op, time := now, token := s.uuids, reserve := q.reserve,
                  released := false } }))

/-- `claim`'s first check. With nothing judged, `followsJudged` is decided by the listing
alone; otherwise record `gen - 1` is read next, whether or not this is the top. -/
def checkTop (s : State) (p : Pid) (c : Claim) : State :=
  match s.dir with
  | none => s.goto p .idle
  | some d =>
      let gens := d.generations c.id
      let isTop := decide (∀ g ∈ gens, g ≤ c.gen)
      match c.judgedRaw with
      | some _ => s.goto p (.checkJudged c isTop)
      | none =>
          if isTop ∧ c.gen = 1 ∧ gens.card = 1 then s.goto p (.checkIncarnation c)
          else s.goto p (.unlinkClaim c)

/-- What a read of record `gen` of incarnation `id` returns. -/
def State.read (s : State) (id : Uuid) (gen : ℕ) : Option LockRecord :=
  s.dir.bind fun d => d.read id gen

/-- Where `collect` goes on: `claim()` returns the lock, `release()` writes its marker. -/
def Collector.done (k : Collector) (h : HeldLock) (now : Timestamp) : Local :=
  match k with
  | .claim => .held h
  | .release => .writeTemp (.marker h (h.record.marker now))

/-- What one call is told: the time, and the files of a directory in any order. -/
structure Answer where
  now : Timestamp
  readdir : Finset ℕ → List ℕ
  lists : ∀ gens, (readdir gens).Nodup ∧ (readdir gens).toFinset = gens

/-- The next file-system call of process `p`. -/
def advance (s : State) (p : Pid) (ans : Answer) : State :=
  match s.procs p with
  | .idle | .held _ => s
  | .ensureLockDir q =>
      if s.parent then
        match s.dir with
        | some _ => s.goto p (.readId q)
        | none => (s.setDir .empty).goto p (.readId q)
      else s.goto p .idle
  | .readId q =>
      match s.currentId with
      | some id => s.goto p (.generations q id)
      | none => s.draw.goto p (.writeTemp (.id q s.uuids))
  | .readIdBack q =>
      match s.currentId with
      | some id => s.goto p (.generations q id)
      | none => s.goto p .idle
  | .writeTemp n =>
      match s.dir with
      | none => s.goto p (n.resume .missing)
      | some d =>
          (s.draw.setDir { d with temps := insert (p, s.uuids) d.temps }).goto p (.link n s.uuids)
  | .link n temp => link s p n temp
  | .unlinkTemp n temp result =>
      match s.dir with
      | none => s.goto p (n.resume result)
      | some d => (s.setDir { d with temps := d.temps.erase (p, temp) }).goto p (n.resume result)
  | .generations q id =>
      match s.dir with
      | none => s.goto p .idle
      | some d =>
          if d.generations id = ∅ then beginClaim s p ans.now q id 1 none
          else s.goto p (.inspect q id (d.top id))
  | .inspect q id gen =>
      match s.read id gen with
      | none => s.goto p (.readId q)
      | some raw =>
          if raw.released then beginClaim s p ans.now q id (gen + 1) (some raw)
          else s.goto p (.isAlive q id gen raw)
  | .isAlive q id gen raw =>
      if s.alive raw.pid then s.goto p .idle
      else beginClaim s p ans.now q id (gen + 1) (some raw)
  | .checkTop c => checkTop s p c
  | .checkJudged c isTop =>
      if isTop ∧ s.read c.id (c.gen - 1) = c.judgedRaw then s.goto p (.checkIncarnation c)
      else s.goto p (.unlinkClaim c)
  | .checkIncarnation c =>
      if s.currentId = some c.id then s.goto p (.collectList c.heldLock .claim)
      else s.goto p (.unlinkClaim c)
  | .unlinkClaim c =>
      match s.dir with
      | none => s.goto p (.readId c.request)
      | some d => (s.setDir (d.unlink c.id c.gen)).goto p (.readId c.request)
  | .collectList h k =>
      match s.dir with
      | none => s.goto p (k.done h ans.now)
      | some d =>
          s.goto p (.collectNext h k ((ans.readdir (d.generations h.id)).filter (· < h.gen)))
  | .collectNext h k gens =>
      match gens with
      | [] => s.goto p (k.done h ans.now)
      | gen :: rest =>
          match s.dir with
          | none => s.goto p (.collectNext h k rest)
          | some d => (s.setDir (d.unlink h.id gen)).goto p (.collectNext h k rest)
  | .readOwn h =>
      if s.read h.id h.gen = some h.record then s.goto p (.collectList h .release)
      else s.goto p .idle

/-- A write or `link()` that fails for want of space or permission. -/
def fault (s : State) (p : Pid) : Option State :=
  match s.procs p with
  | .writeTemp n => some (s.goto p n.thrown)
  | .link n temp => some (s.goto p (.unlinkTemp n temp .failed))
  | _ => none

inductive Event
  | acquire (p : Pid) (q : Request)
  | advance (p : Pid) (ans : Answer)
  | fault (p : Pid)
  | release (p : Pid)
  | remove (p : Pid)
  | ensureDir
  | crash (p : Pid)

/-- Only a live process takes a step. `remove` is the one `rename` of `removeMachine`,
by a holder of the current lock; `ensureDir` is a creation's `mkdir -p` of the machine
directory. -/
def next (s : State) : Event → Option State
  | .acquire p q =>
      match s.procs p with
      | .idle => if s.alive p then some (s.goto p (.ensureLockDir q)) else none
      | _ => none
  | .advance p ans => if s.alive p then some (advance s p ans) else none
  | .fault p => if s.alive p then fault s p else none
  | .release p =>
      match s.procs p with
      | .held h => if s.alive p then some (s.goto p (.readOwn h)) else none
      | _ => none
  | .remove p =>
      match s.procs p with
      | .held h =>
          if s.alive p ∧ s.currentId = some h.id then some { s with parent := false, dir := none }
          else none
      | _ => none
  | .ensureDir => some { s with parent := true }
  | .crash p => some { s with alive := Function.update s.alive p false }

/-- No process has started; the machine directory may or may not be there yet. -/
def start (parent : Bool) : State := ⟨parent, none, fun _ => true, fun _ => .idle, 0⟩

def system : Transition.System State Event where
  Initial s := ∃ parent, s = start parent
  next := next

end Quickchr.Lock
