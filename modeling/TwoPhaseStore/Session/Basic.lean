import TwoPhaseStore.Mismatch
import TwoPhaseStore.Store.Call

/-!
Sessions: stores and baselines side by side, and the lock sets that were acquired and not yet
resolved.  A lock set is known by its holder, and at most one of a holder is live.

A lock set can be given to any store.  On a store that did not issue it the resolution is a
violation, and the issuing store gets its locks back.
-/

namespace TwoPhaseStore

/-- A store of either kind. -/
inductive Backend (V : Type) where
  | store (s : Store V)
  | baseline (b : Baseline V)

structure Session (V : Type) where
  backends : List (Backend V)
  /-- The live lock sets. -/
  locks : List LockSet
  /-- The keys that were named so far. -/
  named : Table Unit

/-- The commands of a batch, or why they could not be read. -/
abbrev Batch (V : Type) := Except DecodeError (List (Command V))

/-- How one step ends. -/
inductive Outcome (V : Type) where
  | done (reply : Reply V)
  | refused (fault : Fault)
  | violated (violation : Violation)
  /-- The decision on a batch did not come. -/
  | undecided
  | undecodable (error : DecodeError)
  | nameInUse
  | noSuchLocks
  /-- There is no such operation, or no such store. -/
  | unsupported

/-- A step that nothing else is nested in. -/
inductive Action (V : Type) where
  | call (call : Call V)
  | acquire (name : String) (batch : Batch V)
  | locks (name : String)
  | commit (name : String) (batch : Batch V)
  | abort (name : String) (batch : Batch V)
  | drop (name : String)
  /-- Someone else drops the lock set, so that the drop is not reported here. -/
  | dropLater (name : String) (delay : Duration)

namespace Backend

variable {V : Type}

def call? [BEq V] (c : Call V) : Backend V → Option (Answer (Backend V) (Except Fault (Reply V)))
  | .store s => let a := s.call c; some ⟨a.reply, a.events, .store a.state⟩
  | .baseline b => (b.call? c).map fun a => ⟨a.reply, a.events, .baseline a.state⟩

def len : Backend V → Except Fault Nat
  | .store s => s.len.reply
  | .baseline b => b.len.reply

def forget (locks : LockSet) : Backend V → Backend V
  | .store s => .store (s.forget locks)
  | .baseline b => .baseline b

def hold? (who : Holder) (mode : HoldMode) : Backend V → Except Fault (Option (Backend V))
  | .store s => (s.hold? who mode).map (·.map .store)
  | .baseline b => (b.hold? who mode).map (·.map .baseline)

def letGo (who : Holder) (mode : HoldMode) : Backend V → Backend V
  | .store s => .store (s.letGo who mode)
  | .baseline b => .baseline (b.letGo who mode)

end Backend

/-- The message of an outcome that ends the lock set of a batch and the step with it.  Of keys that are
left over it names the first on the walk. -/
def Outcome.fatal? {V : Type} (walk : List Key := []) : Outcome V → Option String
  | .violated v => some (v.message walk)
  | .undecided => some "durable failed"
  | _ => none

def Outcome.ofReply {V : Type} : Except Fault (Reply V) → Outcome V
  | .ok r => .done r
  | .error f => .refused f

/-- How it ends that a lock set is resolved; `reply` is the answer if nothing is violated. -/
def Outcome.ofResolution {V : Type} (reply : Reply V) : Except Violation Unit → Outcome V
  | .ok () => .done reply
  | .error v => .violated v

namespace Session

variable {V : Type}

/-! ## Parts of a session -/

def setBackend (i : Nat) (b : Backend V) (s : Session V) : Session V :=
  { s with backends := s.backends.set i b }

/-- The live lock set of a holder. -/
def lockSet? (who : Holder) (s : Session V) : Option LockSet := s.locks.find? (·.holder = who)

def note (keys : List Key) (s : Session V) : Session V :=
  { s with named := keys.foldl (fun t k => t.insert k ()) s.named }

def noteBatch (batch : List (Command V)) (s : Session V) : Session V := s.note (batch.map (·.key))

/-- A lock set is no longer live. -/
def retire (locks : LockSet) (s : Session V) : Session V :=
  { s with locks := s.locks.filter (·.holder ≠ locks.holder) }

/-- Lets go of a lock set: the store that issued it gets its locks back. -/
def forget (locks : LockSet) (s : Session V) : Session V :=
  { s.retire locks with backends := s.backends.map (·.forget locks) }

def reply (o : Outcome V) (s : Session V) : Answer (Session V) (Outcome V) := ⟨o, [], s⟩

/-! ## Batches -/

/-- The acquire phase on one store; its lock set is live from then on. -/
def acquire [BEq V] (who : Holder) (i : Nat) (batch : List (Command V)) (s : Session V) :
    Option (Answer (Session V) (Except Fault LockSet)) :=
  match s.backends[i]? with
  | some (.store st) =>
    let a := st.acquire who batch
    let s := s.setBackend i (.store a.state)
    match a.reply with
    | .ok locks => some ⟨.ok locks, a.events, { s with locks := locks :: s.locks }⟩
    | .error f => some ⟨.error f, a.events, s⟩
  | _ => none

/-- The two ways to end a lock set that look at a batch. -/
inductive Resolution where
  | commit
  | abort
deriving DecidableEq, Repr

def Resolution.run (r : Resolution) (batch : List (Command V)) (locks : LockSet) (s : Store V) :
    Answer (Store V) (Except Violation Unit) :=
  match r with
  | .commit => s.commit batch locks
  | .abort => s.abort batch locks

/-- Ends a lock set on a store, which may be another one than it was issued by. -/
def resolve (r : Resolution) (i : Nat) (batch : List (Command V)) (locks : LockSet)
    (s : Session V) : Option (Answer (Session V) (Except Violation Unit)) :=
  match s.backends[i]? with
  | some (.store st) =>
    let a := r.run batch locks st
    let s := (s.retire locks).setBackend i (.store a.state)
    some ⟨a.reply, a.events, if locks.issuer = st.id then s else s.forget locks⟩
  | _ => none

/-- Drops a lock set unresolved. -/
def drop (locks : LockSet) (s : Session V) : Answer (Session V) Unit :=
  ⟨(), LockSet.dropEvents locks.keys, s.forget locks⟩

/-! ## Actions -/

/-- Runs an operation on one store. -/
def call [BEq V] (i : Nat) (c : Call V) (s : Session V) : Answer (Session V) (Outcome V) :=
  let s := s.note c.key?.toList
  match s.backends[i]? >>= (·.call? c) with
  | some a => ⟨.ofReply a.reply, a.events, s.setBackend i a.state⟩
  | none => s.reply .unsupported

/-- Acquires a batch for a holder that has no live lock set. -/
def acquireAs [BEq V] (who : Holder) (i : Nat) (batch : Batch V) (s : Session V) :
    Answer (Session V) (Outcome V) :=
  if (s.lockSet? who).isSome then s.reply .nameInUse
  else
    match batch with
    | .error e => s.reply (.undecodable e)
    | .ok batch =>
      match (s.noteBatch batch).acquire who i batch with
      | some a => ⟨.ofReply (a.reply.map .locks), a.events, a.state⟩
      | none => s.reply .unsupported

/-- Does something with the live lock set of a holder. -/
def withLocks (who : Holder) (f : LockSet → Answer (Session V) (Outcome V)) (s : Session V) :
    Answer (Session V) (Outcome V) :=
  match s.lockSet? who with
  | some locks => f locks
  | none => s.reply .noSuchLocks

/-- Ends the lock set of a holder with a batch. -/
def endAs (r : Resolution) (who : Holder) (i : Nat) (batch : List (Command V)) (s : Session V) :
    Answer (Session V) (Outcome V) :=
  s.withLocks who fun locks =>
    match s.resolve r i batch locks with
    | some a => ⟨.ofResolution .done a.reply, a.events, a.state⟩
    | none => s.reply .unsupported

/-- The same with a batch that is still to be read, which comes first. -/
def resolveAs (r : Resolution) (who : Holder) (i : Nat) (batch : Batch V) (s : Session V) :
    Answer (Session V) (Outcome V) :=
  match batch with
  | .error e => s.reply (.undecodable e)
  | .ok batch => (s.noteBatch batch).endAs r who i batch

/-- Drops the lock set of a holder. -/
def dropAs (who : Holder) (s : Session V) : Answer (Session V) (Outcome V) :=
  s.withLocks who fun locks =>
    let a := s.drop locks
    ⟨.done .done, a.events, a.state⟩

def act [BEq V] (i : Nat) (a : Action V) (s : Session V) : Answer (Session V) (Outcome V) :=
  match a with
  | .call c => s.call i c
  | .acquire name batch => s.acquireAs (.named name) i batch
  | .locks name => s.withLocks (.named name) fun locks => s.reply (.done (.locks locks))
  | .commit name batch => s.resolveAs .commit (.named name) i batch
  | .abort name batch => s.resolveAs .abort (.named name) i batch
  | .drop name => s.dropAs (.named name)
  | .dropLater name _ =>
    s.withLocks (.named name) fun locks => (s.drop locks).state.reply (.done .done)

end Session

end TwoPhaseStore
