import TwoPhaseStore.Store.Hold

/-!
The baseline: the same single-key meaning as the store, behind one lock for everything.  It has no
placeholders and no batches, and serves as what the store is compared with.
-/

namespace TwoPhaseStore

structure Baseline (V : Type) where
  timeout : Duration
  lock : Lock
  entries : Table V

namespace Baseline

variable {V α : Type}

def ofRows (timeout : Duration) (rows : List (Key × V)) : Baseline V :=
  ⟨timeout, .free, .ofList rows⟩

def accept (b : Baseline V) (a : α) : Answer (Baseline V) (Except Fault α) := ⟨.ok a, [], b⟩

def refuse (b : Baseline V) (mode : LockMode) : Answer (Baseline V) (Except Fault α) :=
  ⟨.error .globallyLocked, [.baselineTimedOut mode b.timeout], b⟩

def get (k : Key) (b : Baseline V) : Answer (Baseline V) (Except Fault (Option V)) :=
  if b.lock.admitsReader then b.accept (b.entries.get? k) else b.refuse .shared

def set (k : Key) (v : V) (b : Baseline V) : Answer (Baseline V) (Except Fault Unit) :=
  if b.lock.isFree then { b with entries := b.entries.insert k v }.accept ()
  else b.refuse .exclusive

/-- A write that pauses while it holds the lock; alone it does what `set` does. -/
def setWithDelay (k : Key) (v : V) (_delay : Duration) (b : Baseline V) :
    Answer (Baseline V) (Except Fault Unit) :=
  b.set k v

/-- Writes a key whose payload is the expected one, and an absent key in any case. -/
def setCond [BEq V] (k : Key) (v expected : V) (b : Baseline V) :
    Answer (Baseline V) (Except Fault Unit) :=
  if b.lock.isFree then
    match b.entries.get? k with
    | none => { b with entries := b.entries.insert k v }.accept ()
    | some current =>
      if current == expected then { b with entries := b.entries.insert k v }.accept ()
      else ⟨.error (.conditionFailed k), [], b⟩
  else b.refuse .exclusive

def del (k : Key) (b : Baseline V) : Answer (Baseline V) (Except Fault Unit) :=
  if b.lock.isFree then { b with entries := b.entries.erase k }.accept () else b.refuse .exclusive

def len (b : Baseline V) : Answer (Baseline V) (Except Fault Nat) :=
  if b.lock.admitsReader then b.accept b.entries.size else b.refuse .shared

def isEmpty (b : Baseline V) : Answer (Baseline V) (Except Fault Bool) :=
  if b.lock.admitsReader then b.accept b.entries.isEmpty else b.refuse .shared

def snapshot (b : Baseline V) : Answer (Baseline V) (Except Fault (List (Key × V))) :=
  if b.lock.admitsReader then b.accept b.entries.rows else b.refuse .shared

def text (b : Baseline V) : String := "NaiveMap \x7b lock_timeout: " ++ b.timeout.text ++ " \x7d"

/-- Takes the one lock; there are no locks of single keys to hold. -/
def hold? (who : Holder) (mode : HoldMode) (b : Baseline V) : Except Fault (Option (Baseline V)) :=
  match mode with
  | .exclusive =>
    match b.lock.claim? who with
    | some l => .ok (some { b with lock := l })
    | none => .error .globallyLocked
  | .shared _ =>
    match b.snapshot.reply with
    | .error e => .error e
    | .ok [] => .ok none
    | .ok _ => .ok ((b.lock.share? who).map fun l => { b with lock := l })
  | .readKey _ => .ok none
  | .writeKey _ => .ok none

def letGo (who : Holder) (mode : HoldMode) (b : Baseline V) : Baseline V :=
  match mode with
  | .exclusive => { b with lock := b.lock.release who }
  | .shared _ => { b with lock := b.lock.release who }
  | .readKey _ => b
  | .writeKey _ => b

end Baseline

end TwoPhaseStore
