import TwoPhaseStore.Cell

/-!
A cell tried out by itself: guards are taken under names, looked through, stored through and
released, and they stay usable when the cell is dropped.
-/

namespace TwoPhaseStore

namespace Cell

variable {V : Type}

/-- What is done with the cell or with one of its guards. -/
inductive Step (V : Type) where
  /-- Tries to share the cell under a name. -/
  | read (guard : String)
  /-- Tries to claim the cell under a name. -/
  | write (guard : String)
  | peek (guard : String)
  | put (guard : String) (payload : Option V)
  | release (guard : String)
  | isTemporary
  | text
  | drop

inductive Reply (V : Type) where
  | done
  | flag (b : Bool)
  | payload (p : Option V)
  | text (s : String)
  /-- The guard that is asked for, or the cell itself, is gone. -/
  | gone

/-- A cell, with whether it is still there beside its guards. -/
structure Trial (V : Type) where
  cell : Cell V
  present : Bool

namespace Trial

/-- A new cell, committed if it has a payload and a placeholder if it has none. -/
def new : Option V → Trial V
  | some v => ⟨.committed v, true⟩
  | none => ⟨.placeholder, true⟩

/-- Keeps what an attempt at the lock got.  A name that has a guard already gives that one back for
the new one. -/
def keep (who : Holder) (got : Option (Cell V)) (t : Trial V) : Reply V × Trial V :=
  match got with
  | some c => (.flag true, { t with cell := if who ∈ t.cell.lock.holders then t.cell else c })
  | none => (.flag false, t)

def step (s : Step V) (t : Trial V) : Reply V × Trial V :=
  match s with
  | .read g => if t.present then t.keep (.named g) (t.cell.share? (.named g)) else (.gone, t)
  | .write g => if t.present then t.keep (.named g) (t.cell.claim? (.named g)) else (.gone, t)
  | .peek g => (((t.cell.peek? (.named g)).map .payload).getD .gone, t)
  | .put g p =>
    if t.cell.lock = .exclusive (.named g) then
      (.done, { t with cell := t.cell.put (.named g) p })
    else (.gone, t)
  | .release g =>
    if .named g ∈ t.cell.lock.holders then
      (.done, { t with cell := t.cell.release (.named g) })
    else (.gone, t)
  | .isTemporary => (if t.present then .flag t.cell.temporary else .gone, t)
  | .text => (if t.present then .text t.cell.text else .gone, t)
  | .drop => (.done, { t with present := false })

/-- Whether the cell is locked; nobody can tell once it is dropped. -/
def locked? (t : Trial V) : Option Bool := if t.present then some (!t.cell.lock.isFree) else none

/-- What each step replies, and whether the cell is locked after it. -/
def run : List (Step V) → Trial V → List (Reply V × Option Bool)
  | [], _ => []
  | s :: steps, t =>
    let (reply, t') := t.step s
    (reply, t'.locked?) :: run steps t'

end Trial

end Cell

end TwoPhaseStore
