import TwoPhaseStore.Lock

/-!
Cells: the slots of a store.  A cell has a payload, a mark that tells a placeholder from a
committed value, and a lock of its own.  The payload is looked at and changed only through the lock;
the mark belongs to whoever holds the key set.
-/

namespace TwoPhaseStore

/-- One slot.  `temporary` marks a placeholder for a key that does not exist yet. -/
structure Cell (V : Type) where
  payload : Option V
  temporary : Bool
  lock : Lock
deriving DecidableEq, Repr

namespace Cell

variable {V : Type}

def committed (v : V) : Cell V := ⟨some v, false, .free⟩

def placeholder : Cell V := ⟨none, true, .free⟩

/-- Whether the payload is the expected one, by the equality of payloads.  Expecting nothing always
holds, and no expectation holds of a cell without payload. -/
def satisfies [BEq V] (c : Cell V) : Option V → Bool
  | none => true
  | some e => match c.payload with
    | some v => v == e
    | none => false

/-- Stores a payload and makes the cell a committed one. -/
def store (v : V) (c : Cell V) : Cell V := { c with payload := some v, temporary := false }

def release (who : Holder) (c : Cell V) : Cell V := { c with lock := c.lock.release who }

def share? (who : Holder) (c : Cell V) : Option (Cell V) :=
  (c.lock.share? who).map fun l => { c with lock := l }

def claim? (who : Holder) (c : Cell V) : Option (Cell V) :=
  (c.lock.claim? who).map fun l => { c with lock := l }

theorem claim?_eq_some {who : Holder} {c d : Cell V} :
    c.claim? who = some d ↔ c.lock = .free ∧ d = { c with lock := .exclusive who } := by
  rw [claim?, Option.map_eq_some_iff]
  constructor
  · rintro ⟨l, hl, rfl⟩
    obtain ⟨hf, rfl⟩ := Lock.claim?_eq_some.1 hl
    exact ⟨hf, rfl⟩
  · rintro ⟨hf, rfl⟩
    exact ⟨_, Lock.claim?_eq_some.2 ⟨hf, rfl⟩, rfl⟩

theorem release_of_claim? {who : Holder} {c d : Cell V} (h : c.claim? who = some d) :
    d.release who = c := by
  obtain ⟨hl, rfl⟩ := claim?_eq_some.1 h
  cases c; simp_all [release]

/-! ## A cell on its own -/

/-- What a holder sees through its guard. -/
def peek? (who : Holder) (c : Cell V) : Option (Option V) :=
  if who ∈ c.lock.holders then some c.payload else none

/-- Stores through an exclusive guard; the mark stays. -/
def put (who : Holder) (payload : Option V) (c : Cell V) : Cell V :=
  if c.lock = .exclusive who then { c with payload := payload } else c

def text (c : Cell V) : String :=
  "Value \x7b temporary: " ++ toString c.temporary ++
    ", locked: " ++ toString (!c.lock.isFree) ++ " \x7d"

end Cell

end TwoPhaseStore
