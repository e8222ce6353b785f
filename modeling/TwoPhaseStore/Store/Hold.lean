import TwoPhaseStore.Store.Basic

/-!
Locks of a store held by another party while other operations run: the structure lock, or the lock
of one key with the structure free.  Taking a hold reports nothing, and letting go of it leaves the
store as it was before.
-/

namespace TwoPhaseStore

/-- Which lock a party holds. -/
inductive HoldMode where
  | exclusive
  /-- The walk is the order in which the keys are visited. -/
  | shared (walk : List Key := [])
  | readKey (key : Key)
  | writeKey (key : Key)
deriving DecidableEq, Repr

namespace Store

variable {V : Type}

/-- Takes the hold, as the operation of that kind would: a writer takes the structure exclusively,
a snapshot shares it, a reader shares a cell and a conditional write claims one.  Without anything
to copy, read or compare there is nothing to hold. -/
def hold? (who : Holder) (mode : HoldMode) (s : Store V) : Except Fault (Option (Store V)) :=
  match mode with
  | .exclusive =>
    match s.structureLock.claim? who with
    | some l => .ok (some { s with structureLock := l })
    | none => .error .globallyLocked
  | .shared walk =>
    match (s.snapshot walk).reply with
    | .error e => .error e
    | .ok [] => .ok none
    | .ok _ => .ok ((s.structureLock.share? who).map fun l => { s with structureLock := l })
  | .readKey k =>
    match (s.get k).reply with
    | .error e => .error e
    | .ok none => .ok none
    | .ok (some _) => .ok (s.cells.get? k >>= fun c => (c.share? who).map fun c =>
        { s with cells := s.cells.insert k c })
  | .writeKey k =>
    match (s.contains k).reply with
    | .error e => .error e
    | .ok false => .ok none
    | .ok true =>
      if s.structureLock.isFree then
        match s.cells.get? k >>= fun c => c.claim? who with
        | some c => .ok (some { s with cells := s.cells.insert k c })
        | none => .error (.keyLocked k)
      else .error .globallyLocked

/-- Lets go of the hold. -/
def letGo (who : Holder) (mode : HoldMode) (s : Store V) : Store V :=
  match mode with
  | .exclusive => { s with structureLock := s.structureLock.release who }
  | .shared _ => { s with structureLock := s.structureLock.release who }
  | .readKey k => { s with cells := s.cells.modify k (·.release who) }
  | .writeKey k => { s with cells := s.cells.modify k (·.release who) }

end Store

end TwoPhaseStore
