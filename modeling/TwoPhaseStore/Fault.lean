import TwoPhaseStore.Command

/-!
Why an operation is refused (`Fault`), and how a batch can fail to match its lock set
(`Violation`).  A fault is an answer; a violation is a mistake of the caller, after which the lock
set is lost.
-/

namespace TwoPhaseStore

inductive Fault where
  /-- The structure lock was not to be had. -/
  | globallyLocked
  /-- The lock of this key was not to be had. -/
  | keyLocked (key : Key)
  /-- A conditional write found something else than it expected. -/
  | conditionFailed (key : Key)
  | emptyBatch
  | protocol (method : Method) (key : Key) (reason : String)
  | invalidConfig (text : String)
deriving DecidableEq, Repr

namespace Fault

def message : Fault → String
  | globallyLocked => "map is locked globally"
  | keyLocked k => "map is locked on key=" ++ k
  | conditionFailed k => "condition not satisfied on key=" ++ k
  | emptyBatch => "no key given"
  | protocol m k reason => "protocol violation: " ++ m.text ++ " on key=" ++ k ++ ": " ++ reason
  | invalidConfig text => "invalid config: " ++ text

def isLockContention : Fault → Bool
  | globallyLocked => true
  | keyLocked _ => true
  | _ => false

def isConditionFailed : Fault → Bool
  | conditionFailed _ => true
  | _ => false

/-- Whether the same operation may succeed when it is submitted again. -/
def isRetryable : Fault → Bool
  | globallyLocked => true
  | keyLocked _ => true
  | conditionFailed _ => true
  | _ => false

def key? : Fault → Option Key
  | keyLocked k => some k
  | conditionFailed k => some k
  | protocol _ k _ => some k
  | _ => none

end Fault

/-- How the end of a batch can go wrong. -/
inductive Violation where
  /-- The lock set does not hold the key of this command. -/
  | notHeld (method : Method) (key : Key)
  /-- A read cannot be committed. -/
  | readCommitted (key : Key)
  /-- A held key is no longer in the store. -/
  | vanished (method : Method) (key : Key)
  /-- The lock set holds these keys, which the batch does not name. -/
  | leftOver (key : Key) (others : List Key)
  /-- The lock set was issued by the first store and given to the second. -/
  | wrongStore (issuer resolver : Nat)
deriving DecidableEq, Repr

namespace Violation

/-- Keys that are left over are a violation. -/
def ofLeftOver : List Key → Option Violation
  | [] => none
  | k :: ks => some (.leftOver k ks)

theorem ofLeftOver_eq_none {keys : List Key} : ofLeftOver keys = none ↔ keys = [] := by
  cases keys <;> simp [ofLeftOver]

/-- Of the keys that are left over it names one, the first on the walk. -/
def message (walk : List Key) : Violation → String
  | notHeld m k => (Fault.protocol m k "key is not held by the lock set").message
  | readCommitted k => (Fault.protocol .get k "only SET and DEL can be committed").message
  | vanished m k => (Fault.protocol m k "locked key vanished from the map").message
  | leftOver k ks =>
    "protocol violation: lock set holds key=" ++ firstVisited walk k ks ++ " missing from the batch"
  | wrongStore a b =>
    "protocol violation: lock set from map " ++ toString a ++ " resolved on map " ++ toString b

end Violation

end TwoPhaseStore
