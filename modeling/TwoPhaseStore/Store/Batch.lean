import TwoPhaseStore.Store.Basic

/-!
Batches in two phases.  `acquire` takes the locks of all keys of a batch or of none; keys that do
not exist are reserved by placeholders.  The lock set it gives is resolved once: `commit` applies
the writes and removals of a batch, `abort` unlinks the placeholders, and both let go of the locks.
A lock set that is dropped lets go of its locks and leaves its placeholders, which read as absent.

A batch that does not name exactly the keys of the lock set, a read at commit, and a lock set of
another store are violations: what was done before stays done, and the rest of the set is dropped.
-/

namespace TwoPhaseStore

/-- The keys held between the acquire phase and its resolution, for whom, and in which store. -/
structure LockSet where
  issuer : Nat
  holder : Holder
  keys : Table Unit
deriving DecidableEq

namespace LockSet

/-- What is reported when keys that are still held are let go unresolved. -/
def dropEvents (held : Table Unit) : List Event :=
  if held.isEmpty then [] else [.lockSetDropped held.size]

end LockSet

namespace Store

variable {V : Type}

/-! ## Acquire -/

/-- Why an acquire phase failed, and how many locks it had by then. -/
structure Setback where
  fault : Fault
  released : Nat
deriving DecidableEq

/-- Locks the keys of the commands in order, `held` being the number locked before.  Absent keys
get placeholders.  A key named twice meets its own lock. -/
def lockAll [BEq V] (who : Holder) :
    List (Command V) → Nat → Table (Cell V) → Except Setback (Table (Cell V))
  | [], _, cells => .ok cells
  | c :: batch, held, cells =>
    let cell := (cells.get? c.key).getD .placeholder
    match cell.claim? who with
    | none => .error ⟨.keyLocked c.key, held⟩
    | some locked =>
      if cell.satisfies c.expected? then lockAll who batch (held + 1) (cells.insert c.key locked)
      else .error ⟨.conditionFailed c.key, held + 1⟩

/-- The acquire phase: every key of the batch is locked for `who`, or nothing happens. -/
def acquire [BEq V] (who : Holder) (batch : List (Command V)) (s : Store V) :
    Answer (Store V) (Except Fault LockSet) :=
  if batch.isEmpty then ⟨.error .emptyBatch, [], s⟩
  else if s.structureLock.isFree then
    match lockAll who batch 0 s.cells with
    | .error e => ⟨.error e.fault, [.acquireReverted e.fault e.released], s⟩
    | .ok cells =>
      ⟨.ok ⟨s.id, who, .ofList (batch.map fun c => (c.key, ()))⟩,
        [.batchLocked batch.length (batch.countP (·.isConditional))], { s with cells := cells }⟩
  else s.refuse .exclusive

/-! ## Resolution -/

/-- How far the resolution of a batch has come: the cells, the keys still held, and the violation
that stopped it, if one did. -/
structure Progress (V : Type) where
  cells : Table (Cell V)
  held : Table Unit
  violation : Option Violation

/-- Commits one command: its key is let go, and the write or removal takes effect. -/
def commitOne (who : Holder) (c : Command V) (cells : Table (Cell V)) (held : Table Unit) :
    Progress V :=
  match c with
  | .get k => ⟨cells, held, some (.readCommitted k)⟩
  | .set k v _ =>
    if held.contains k then
      match cells.get? k with
      | some cell => ⟨cells.insert k ((cell.store v).release who), held.erase k, none⟩
      | none => ⟨cells, held.erase k, some (.vanished .set k)⟩
    else ⟨cells, held, some (.notHeld .set k)⟩
  | .del k =>
    if held.contains k then ⟨cells.erase k, held.erase k, none⟩
    else ⟨cells, held, some (.notHeld .del k)⟩

/-- Aborts one command: its key is let go, and unlinked if it was only reserved. -/
def abortOne (who : Holder) (c : Command V) (cells : Table (Cell V)) (held : Table Unit) :
    Progress V :=
  if held.contains c.key then
    ⟨match cells.get? c.key with
      | some cell =>
        if cell.temporary then cells.erase c.key else cells.insert c.key (cell.release who)
      | none => cells,
      held.erase c.key, none⟩
  else ⟨cells, held, some (.notHeld c.method c.key)⟩

/-- Resolves the commands in order up to the first violation.  Keys that no command named are one
too. -/
def settle (one : Command V → Table (Cell V) → Table Unit → Progress V) :
    List (Command V) → Table (Cell V) → Table Unit → Progress V
  | [], cells, held => ⟨cells, held, Violation.ofLeftOver held.keys⟩
  | c :: batch, cells, held =>
    let p := one c cells held
    match p.violation with
    | some _ => p
    | none => settle one batch p.cells p.held

/-- Lets go of these keys for `who`. -/
def unlock (who : Holder) (held : Table Unit) (cells : Table (Cell V)) : Table (Cell V) :=
  cells.map fun k c => if held.contains k then c.release who else c

def resolve (one : Holder → Command V → Table (Cell V) → Table Unit → Progress V) (closing : Event)
    (batch : List (Command V)) (locks : LockSet) (s : Store V) :
    Answer (Store V) (Except Violation Unit) :=
  if locks.issuer = s.id then
    let p := settle (one locks.holder) batch s.cells locks.keys
    match p.violation with
    | none => ⟨.ok (), [closing], { s with cells := p.cells }⟩
    | some v => ⟨.error v, .protocolViolated v :: LockSet.dropEvents p.held,
        { s with cells := unlock locks.holder p.held p.cells }⟩
  else
    ⟨.error (.wrongStore locks.issuer s.id),
      .protocolViolated (.wrongStore locks.issuer s.id) :: LockSet.dropEvents locks.keys, s⟩

/-- The commit phase.  It waits for the structure lock as long as needed. -/
def commit (batch : List (Command V)) (locks : LockSet) (s : Store V) :
    Answer (Store V) (Except Violation Unit) :=
  s.resolve commitOne (.batchCommitted batch.length) batch locks

/-- The abort phase.  It waits for the structure lock as long as needed. -/
def abort (batch : List (Command V)) (locks : LockSet) (s : Store V) :
    Answer (Store V) (Except Violation Unit) :=
  s.resolve abortOne (.batchAborted batch.length) batch locks

/-- Lets go of the locks of a set, if this store issued it. -/
def forget (locks : LockSet) (s : Store V) : Store V :=
  if locks.issuer = s.id then { s with cells := unlock locks.holder locks.keys s.cells } else s

end Store

end TwoPhaseStore
