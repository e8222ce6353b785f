import TwoPhaseStore.Baseline
import TwoPhaseStore.Store.Batch

/-!
The operations of a store as values, so that one statement can speak of all of them: `Store.call`
runs one, and `Baseline.call?` runs those that the baseline has.
-/

namespace TwoPhaseStore

/-- An operation on a store that is over when it has answered. -/
inductive Call (V : Type) where
  | get (key : Key)
  | set (key : Key) (value : V)
  | setCond (key : Key) (value expected : V)
  | setWithDelay (key : Key) (value : V) (delay : Duration)
  | del (key : Key)
  | len
  | isEmpty
  | contains (key : Key)
  /-- The walk is the order in which the keys are visited.  Without one it is that of the keys. -/
  | snapshot (walk : List Key := [])
  | text
  | timeout

/-- What an operation gives when it is not refused. -/
inductive Reply (V : Type) where
  | done
  | payload (p : Option V)
  | count (n : Nat)
  | flag (b : Bool)
  | rows (rows : List (Key × V))
  | text (s : String)
  | duration (d : Duration)
  | locks (locks : LockSet)

/-- The key an operation names, if it names one. -/
def Call.key? {V : Type} : Call V → Option Key
  | .get k => some k
  | .set k _ => some k
  | .setCond k _ _ => some k
  | .setWithDelay k _ _ => some k
  | .del k => some k
  | .contains k => some k
  | _ => none

/-- Changes what an answer replies. -/
def Answer.map {S α β : Type} (f : α → β) (a : Answer S (Except Fault α)) :
    Answer S (Except Fault β) :=
  ⟨a.reply.map f, a.events, a.state⟩

variable {V : Type} [BEq V]

def Store.call (c : Call V) (s : Store V) : Answer (Store V) (Except Fault (Reply V)) :=
  match c with
  | .get k => (s.get k).map .payload
  | .set k v => (s.set k v).map fun _ => .done
  | .setCond k v e => (s.setCond k v e).map fun _ => .done
  | .setWithDelay k v d => (s.setWithDelay k v d).map fun _ => .done
  | .del k => (s.del k).map fun _ => .done
  | .len => s.len.map .count
  | .isEmpty => s.isEmpty.map .flag
  | .contains k => (s.contains k).map .flag
  | .snapshot walk => (s.snapshot walk).map .rows
  | .text => s.accept (.text s.text)
  | .timeout => s.accept (.duration s.timeout)

/-- The baseline has every operation but `contains`. -/
def Baseline.call? (c : Call V) (b : Baseline V) :
    Option (Answer (Baseline V) (Except Fault (Reply V))) :=
  match c with
  | .get k => some ((b.get k).map .payload)
  | .set k v => some ((b.set k v).map fun _ => .done)
  | .setCond k v e => some ((b.setCond k v e).map fun _ => .done)
  | .setWithDelay k v d => some ((b.setWithDelay k v d).map fun _ => .done)
  | .del k => some ((b.del k).map fun _ => .done)
  | .len => some (b.len.map .count)
  | .isEmpty => some (b.isEmpty.map .flag)
  | .contains _ => none
  | .snapshot _ => some (b.snapshot.map .rows)
  | .text => some (b.accept (.text b.text))
  | .timeout => some (b.accept (.duration b.timeout))

end TwoPhaseStore
