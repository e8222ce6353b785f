import TwoPhaseStore.Config
import TwoPhaseStore.Session.Basic

/-!
Setting a session up: its stores with their settings and their first rows.  Stores with a lock per
key are numbered from one in the order in which they are listed; baselines have no number.
-/

namespace TwoPhaseStore

/-- A store to be set up. -/
structure Backend.Plan (V : Type) where
  /-- One lock for everything instead of a lock per key. -/
  baseline : Bool
  source : Config.Source
  /-- Timeouts that are set one after another, once the source is read. -/
  timeouts : List Duration
  rows : List (Key × V)

namespace Session

variable {V : Type}

/-- The stores of some plans; the first settings that cannot be read fail them all. -/
def backendsOf : Nat → List (Backend.Plan V) → Except ConfigError (List (Backend V))
  | _, [] => .ok []
  | id, p :: plans => do
    let c ← Config.load p.source p.timeouts
    if p.baseline then
      return .baseline (.ofRows c.lockTimeout p.rows) :: (← backendsOf id plans)
    else
      return .store (.ofRows id c.lockTimeout p.rows) :: (← backendsOf (id + 1) plans)

/-- A session in which nothing has been done yet; the keys of the first rows count as named. -/
def start (plans : List (Backend.Plan V)) : Except ConfigError (Session V) := do
  let backends ← backendsOf 1 plans
  return note (plans.flatMap fun p => p.rows.map (·.1)) ⟨backends, [], .empty⟩

end Session

end TwoPhaseStore
