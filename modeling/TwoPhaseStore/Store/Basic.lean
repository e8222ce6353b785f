import TwoPhaseStore.Cell
import TwoPhaseStore.Event

/-!
The store with a lock per key.  Two levels of locks guard it: the structure lock around the key set,
and the lock of each cell around its payload.  Every operation answers at once: where it would wait
for a lock in vain it refuses, and a refusal leaves the store as it was.

Operations take the structure lock only while they run, so the state of the store shows it free
between them, unless some other party holds it.
-/

namespace TwoPhaseStore

/-- What an operation answers: a reply, what it reports, and the state it leaves. -/
structure Answer (S α : Type) where
  reply : α
  events : List Event
  state : S

/-- A map from keys to cells under a structure lock.  `id` tells apart the stores of a session. -/
structure Store (V : Type) where
  id : Nat
  timeout : Duration
  structureLock : Lock
  cells : Table (Cell V)

namespace Store

variable {V α : Type}

/-- A store with these committed rows; of rows with one key the last counts. -/
def ofRows (id : Nat) (timeout : Duration) (rows : List (Key × V)) : Store V :=
  ⟨id, timeout, .free, (Table.ofList rows).map fun _ v => .committed v⟩

/-- The committed payload of a key: what the store is about.  Placeholders do not count. -/
def contents (s : Store V) (k : Key) : Option V :=
  match s.cells.get? k with
  | some c => if c.temporary then none else c.payload
  | none => none

/-! ## Answers -/

def accept (s : Store V) (a : α) : Answer (Store V) (Except Fault α) := ⟨.ok a, [], s⟩

/-- The structure lock was not to be had. -/
def refuse (s : Store V) (mode : LockMode) : Answer (Store V) (Except Fault α) :=
  ⟨.error .globallyLocked, [.structureTimedOut mode s.timeout], s⟩

/-- The lock of a key was not to be had. -/
def refuseKey (s : Store V) (attempt : KeyAttempt) (k : Key) : Answer (Store V) (Except Fault α) :=
  ⟨.error (.keyLocked k), [.keyTimedOut attempt k], s⟩

/-! ## Single keys -/

/-- Reads a key.  An absent key and a placeholder read as nothing. -/
def get (k : Key) (s : Store V) : Answer (Store V) (Except Fault (Option V)) :=
  if s.structureLock.admitsReader then
    match s.cells.get? k with
    | none => s.accept none
    | some c => if c.lock.admitsReader then s.accept c.payload else s.refuseKey .read k
  else s.refuse .shared

/-- Writes a key.  A committed cell must satisfy the expectation; an absent key and a placeholder
have nothing to compare, so there the write always succeeds. -/
def write [BEq V] (k : Key) (v : V) (expected : Option V) (s : Store V) :
    Answer (Store V) (Except Fault Unit) :=
  if s.structureLock.isFree then
    match s.cells.get? k with
    | none => { s with cells := s.cells.insert k (.committed v) }.accept ()
    | some c =>
      if c.lock.isFree then
        if c.temporary || c.satisfies expected then
          { s with cells := s.cells.insert k (c.store v) }.accept ()
        else ⟨.error (.conditionFailed k), [.conditionNotSatisfied k], s⟩
      else s.refuseKey .write k
  else s.refuse .exclusive

def set [BEq V] (k : Key) (v : V) (s : Store V) : Answer (Store V) (Except Fault Unit) :=
  s.write k v none

def setCond [BEq V] (k : Key) (v expected : V) (s : Store V) :
    Answer (Store V) (Except Fault Unit) :=
  s.write k v (some expected)

/-- A write that pauses while it holds the lock of the key; alone it does what `set` does. -/
def setWithDelay [BEq V] (k : Key) (v : V) (_delay : Duration) (s : Store V) :
    Answer (Store V) (Except Fault Unit) :=
  s.set k v

/-- Removes a key.  An absent key is removed already; a key whose lock is held is not removed. -/
def del (k : Key) (s : Store V) : Answer (Store V) (Except Fault Unit) :=
  if s.structureLock.isFree then
    match s.cells.get? k with
    | none => s.accept ()
    | some c =>
      if c.lock.isFree then { s with cells := s.cells.erase k }.accept () else s.refuseKey .delete k
  else s.refuse .exclusive

/-! ## The whole store -/

/-- The rows whose cells are committed. -/
def committed (s : Store V) : List (Key × Cell V) := s.cells.rows.filter fun r => !r.2.temporary

def len (s : Store V) : Answer (Store V) (Except Fault Nat) :=
  if s.structureLock.admitsReader then s.accept s.committed.length else s.refuse .shared

def isEmpty (s : Store V) : Answer (Store V) (Except Fault Bool) :=
  if s.structureLock.admitsReader then s.accept s.committed.isEmpty else s.refuse .shared

def contains (k : Key) (s : Store V) : Answer (Store V) (Except Fault Bool) :=
  if s.structureLock.admitsReader then
    s.accept (match s.cells.get? k with
      | some c => !c.temporary
      | none => false)
  else s.refuse .shared

/-- The committed keys that cannot be read. -/
def unreadable (s : Store V) : List Key :=
  (s.committed.filter fun r => !r.2.lock.admitsReader).map (·.1)

/-- The rows of a copy, in the order of their keys. -/
def copied (s : Store V) : List (Key × V) :=
  s.committed.filterMap fun r => r.2.payload.map (r.1, ·)

/-- Copies the committed rows.  The first committed key on the walk that cannot be read fails the
whole copy. -/
def snapshot (walk : List Key) (s : Store V) :
    Answer (Store V) (Except Fault (List (Key × V))) :=
  if s.structureLock.admitsReader then
    match s.unreadable with
    | k :: ks => s.refuseKey .snapshot (firstVisited walk k ks)
    | [] => s.accept s.copied
  else s.refuse .shared

def text (s : Store V) : String :=
  "ConcurrentMap \x7b id: " ++ toString s.id ++ ", lock_timeout: " ++ s.timeout.text ++ " \x7d"

end Store

end TwoPhaseStore
