import Quickchr.Lib.TopLog

/-!
# Lock records and the lock directory

A lock is a directory of numbered records `<id>.<gen>`, all published whole by `link()`,
and the id file of its incarnation. A record file is identified with the record its JSON
text encodes: nothing here writes a partial one, so `inspect`'s unparseable case does not
arise. Pids, `randomUUID()` values and times are numbers.
-/
namespace Quickchr.Lock

abbrev Pid := ℕ
abbrev Uuid := ℕ
abbrev Timestamp := ℕ

inductive LockOperation
  | add | start | foreground | stop | shutdown | resume | clean | remove
  | deviceMode | installPackage | removeOrphan | allocate | storage
  deriving DecidableEq, Repr

/-- The port block and MACs a creation has claimed but not yet persisted. -/
structure ResourceReservation where
  portBase : ℕ
  macs : List String
  deriving DecidableEq, Repr

structure LockRecord where
  pid : Pid
  op : LockOperation
  time : Timestamp
  token : Uuid
  reserve : Option ResourceReservation
  released : Bool
  deriving DecidableEq, Repr

/-- The released marker `release()` publishes after the holder's record. -/
def LockRecord.marker (r : LockRecord) (now : Timestamp) : LockRecord :=
  { r with released := true, time := now, reserve := none }

/-- `temps` are the `<path>.<pid>.<uuid>.tmp` files that wait for their `link()`. -/
structure LockDir where
  id : Option Uuid
  records : TopLog.Log Uuid LockRecord
  temps : Finset (Pid × Uuid)

def LockDir.empty : LockDir := ⟨none, ∅, ∅⟩

/-- `generations`: the record numbers of one incarnation. -/
def LockDir.generations (d : LockDir) (id : Uuid) : Finset ℕ := TopLog.gens d.records id

/-- `Math.max(...gens)`, and `0` when the incarnation has no record. -/
def LockDir.top (d : LockDir) (id : Uuid) : ℕ := TopLog.top d.records id

/-- `readRaw(recordPath(lockDir, id, gen))`. -/
def LockDir.read (d : LockDir) (id : Uuid) (gen : ℕ) : Option LockRecord :=
  d.records.lookup (id, gen)

def LockDir.put (d : LockDir) (id : Uuid) (gen : ℕ) (r : LockRecord) : LockDir :=
  { d with records := d.records.insert (id, gen) r }

def LockDir.unlink (d : LockDir) (id : Uuid) (gen : ℕ) : LockDir :=
  { d with records := d.records.erase (id, gen) }

namespace LockDir

variable {d : LockDir} {id j : Uuid} {gen g : ℕ} {r a : LockRecord}

@[simp] theorem put_id : (d.put id gen r).id = d.id := rfl
@[simp] theorem put_temps : (d.put id gen r).temps = d.temps := rfl
@[simp] theorem unlink_id : (d.unlink id gen).id = d.id := rfl
@[simp] theorem unlink_temps : (d.unlink id gen).temps = d.temps := rfl

@[simp] theorem mem_generations : g ∈ d.generations id ↔ (id, g) ∈ d.records :=
  TopLog.mem_gens

theorem le_top (h : d.read id g = some a) : g ≤ d.top id := TopLog.le_top_of_lookup h

theorem read_top (h : 0 < d.top id) : ∃ a, d.read id (d.top id) = some a :=
  TopLog.lookup_top h

theorem read_eq_none : d.read id g = none ↔ (id, g) ∉ d.records := Finmap.lookup_eq_none

theorem mem_of_read (h : d.read id g = some a) : (id, g) ∈ d.records :=
  Finmap.mem_of_lookup_eq_some h

@[simp] theorem put_read_self : (d.put id gen r).read id gen = some r :=
  Finmap.lookup_insert d.records

theorem put_read_ne (h : (j, g) ≠ (id, gen)) : (d.put id gen r).read j g = d.read j g :=
  Finmap.lookup_insert_of_ne d.records h

@[simp] theorem put_top_self : (d.put id gen r).top id = max gen (d.top id) :=
  TopLog.top_insert_self d.records id gen r

theorem put_top_ne (h : id ≠ j) : (d.put id gen r).top j = d.top j :=
  TopLog.top_insert_ne h gen r

theorem unlink_read_ne (h : (j, g) ≠ (id, gen)) : (d.unlink id gen).read j g = d.read j g :=
  Finmap.lookup_erase_ne h

theorem unlink_top_of_lt (h : gen < d.top id) : (d.unlink id gen).top id = d.top id :=
  TopLog.top_erase_of_lt h

theorem unlink_top_ne (h : id ≠ j) : (d.unlink id gen).top j = d.top j :=
  TopLog.top_erase_ne h gen

end LockDir

/-- `Current dir id d`: the directory exists, is `d`, and its published incarnation is
`id`. What a stale process knows of any other incarnation binds nobody. -/
def Current (dir : Option LockDir) (id : Uuid) (d : LockDir) : Prop :=
  dir = some d ∧ d.id = some id

end Quickchr.Lock
