import TwoPhaseStore.Duration
import TwoPhaseStore.Fault

/-!
Events: what the stores report to the log.  Each has a level, a message and named fields.
-/

namespace TwoPhaseStore

inductive LockMode where
  | shared
  | exclusive
deriving DecidableEq, Repr

def LockMode.text : LockMode → String
  | .shared => "shared"
  | .exclusive => "exclusive"

/-- The attempts at the lock of a single key that are reported when they fail. -/
inductive KeyAttempt where
  | read
  | write
  | delete
  | snapshot
deriving DecidableEq, Repr

inductive Event where
  | structureTimedOut (mode : LockMode) (timeout : Duration)
  | baselineTimedOut (mode : LockMode) (timeout : Duration)
  | keyTimedOut (attempt : KeyAttempt) (key : Key)
  | conditionNotSatisfied (key : Key)
  /-- A batch of `size` commands is locked, `conditional` of them conditional. -/
  | batchLocked (size conditional : Nat)
  /-- The acquire phase failed and let go of the `released` locks it had. -/
  | acquireReverted (fault : Fault) (released : Nat)
  | batchCommitted (size : Nat)
  | batchAborted (size : Nat)
  | protocolViolated (violation : Violation)
  /-- A lock set ended unresolved with `keys` keys held. -/
  | lockSetDropped (keys : Nat)
deriving DecidableEq, Repr

inductive Level where
  | trace
  | debug
  | warn
  | error
deriving DecidableEq, Repr

def Level.text : Level → String
  | .trace => "TRACE"
  | .debug => "DEBUG"
  | .warn => "WARN"
  | .error => "ERROR"

/-- A field of an event is a count or a text. -/
inductive FieldValue where
  | count (n : Nat)
  | text (s : String)
deriving DecidableEq, Repr

namespace Event

def level : Event → Level
  | structureTimedOut _ _ => .debug
  | baselineTimedOut _ _ => .debug
  | keyTimedOut _ _ => .debug
  | conditionNotSatisfied _ => .debug
  | batchLocked _ _ => .trace
  | acquireReverted _ _ => .warn
  | batchCommitted _ => .trace
  | batchAborted _ => .trace
  | protocolViolated _ => .error
  | lockSetDropped _ => .warn

def message : Event → String
  | structureTimedOut mode _ => "structure lock (" ++ mode.text ++ ") timed out"
  | baselineTimedOut mode _ => "baseline lock (" ++ mode.text ++ ") timed out"
  | keyTimedOut .read _ => "read lock timed out"
  | keyTimedOut .write _ => "write lock timed out"
  | keyTimedOut .delete _ => "delete lock timed out"
  | keyTimedOut .snapshot _ => "snapshot read lock timed out"
  | conditionNotSatisfied _ => "condition not satisfied"
  | batchLocked _ _ => "batch locked"
  | acquireReverted _ _ => "acquire phase reverted"
  | batchCommitted _ => "batch committed"
  | batchAborted _ => "batch aborted"
  | protocolViolated (.leftOver _ _) => "lock set holds a key missing from the batch"
  | protocolViolated (.wrongStore _ _) => "lock set resolved against the wrong map"
  | protocolViolated _ => "fatal transaction protocol error"
  | lockSetDropped _ => "lock set dropped without commit or abort"

/-- The fields.  Of the keys that are left over the first on the walk is named. -/
def fields (walk : List Key := []) : Event → List (String × FieldValue)
  | structureTimedOut _ timeout => [("timeout", .text timeout.text)]
  | baselineTimedOut _ timeout => [("timeout", .text timeout.text)]
  | keyTimedOut _ k => [("key", .text k)]
  | conditionNotSatisfied k => [("key", .text k)]
  | batchLocked size conditional =>
    [("batch_len", .count size), ("conditional", .count conditional)]
  | acquireReverted fault released =>
    [("error", .text fault.message), ("released", .count released)]
  | batchCommitted size => [("batch_len", .count size)]
  | batchAborted size => [("batch_len", .count size)]
  | protocolViolated (.leftOver k ks) => [("key", .text (firstVisited walk k ks))]
  | protocolViolated (.wrongStore a b) => [("lock_set_map", .count a), ("map", .count b)]
  | protocolViolated v => [("error", .text (v.message walk))]
  | lockSetDropped keys => [("keys", .count keys)]

end Event

end TwoPhaseStore
