import TwoPhaseStore.Table

/-!
Commands, the elements of a batch: read, write or remove one key.  A write may carry the payload
it expects to find.
-/

namespace TwoPhaseStore

inductive Method where
  | get
  | set
  | del
deriving DecidableEq, Repr

def Method.text : Method → String
  | .get => "GET"
  | .set => "SET"
  | .del => "DEL"

/-- One operation on one key.  `set` with an expected payload is a conditional write. -/
inductive Command (V : Type) where
  | get (key : Key)
  | set (key : Key) (value : V) (expected : Option V)
  | del (key : Key)
deriving DecidableEq, Repr

namespace Command

variable {V : Type}

def key : Command V → Key
  | .get k => k
  | .set k _ _ => k
  | .del k => k

def method : Command V → Method
  | .get _ => .get
  | .set _ _ _ => .set
  | .del _ => .del

def value? : Command V → Option V
  | .set _ v _ => some v
  | _ => none

def expected? : Command V → Option V
  | .set _ _ e => e
  | _ => none

def isConditional (c : Command V) : Bool := c.expected?.isSome

/-- Equality of commands by the equality of their payloads, which need not be reflexive. -/
def beq [BEq V] : Command V → Command V → Bool
  | .get k, .get k' => k == k'
  | .set k v e, .set k' v' e' => k == k' && v == v' && e == e'
  | .del k, .del k' => k == k'
  | _, _ => false

instance [BEq V] : BEq (Command V) := ⟨beq⟩

end Command

end TwoPhaseStore
