import TwoPhaseStore.Session.Basic

/-!
Scripts: steps of a session, some with steps nested in them that run while a batch is locked or
while another party holds a lock; and what is seen of the stores at the end.
-/

namespace TwoPhaseStore

inductive Step (V : Type) where
  | act (store : Nat) (action : Action V)
  /-- Locks the batch, runs the nested steps, and then commits it or aborts it; without a decision
  the lock set is dropped. -/
  | apply (store : Nat) (batch : Batch V) (durable : Option Bool) (during : List (Step V))
  /-- Another party holds a lock of the store while the nested steps run. -/
  | hold (store : Nat) (mode : HoldMode) (steps : List (Step V))

/-- What is known of a step after it: how it ended, the reports of its nested steps if they ran, how
many rows its store has then, and the events of the step without those of the nested ones. -/
structure Report (V : Type) where
  outcome : Outcome V
  nested : Option (List (Report V))
  len : Option (Except Fault Nat)
  events : List Event

/-- The key whose lock is held. -/
def HoldMode.key? : HoldMode → Option Key
  | .readKey k => some k
  | .writeKey k => some k
  | _ => none

namespace Session

variable {V : Type}

/-- The number of rows of a store as it is now. -/
def len (i : Nat) (s : Session V) : Option (Except Fault Nat) := s.backends[i]?.map (·.len)

def report (i : Nat) (o : Outcome V) (nested : Option (List (Report V))) (events : List Event)
    (s : Session V) : Report V × Session V :=
  (⟨o, nested, s.len i, events⟩, s)

/-- Ends the lock set of a batch as was decided. -/
def decide (i : Nat) (batch : List (Command V)) (locks : LockSet) (durable : Option Bool)
    (s : Session V) : Answer (Session V) (Outcome V) :=
  match durable with
  | none =>
    let a := s.drop locks
    ⟨.undecided, a.events, a.state⟩
  | some b =>
    match s.resolve (if b then .commit else .abort) i batch locks with
    | some a => ⟨.ofResolution (.flag b) a.reply, a.events, a.state⟩
    | none => s.reply .unsupported

/-- Has another party take a lock of a store, if there is something to hold. -/
def hold? (who : Holder) (i : Nat) (mode : HoldMode) (s : Session V) :
    Option (Except Fault (Option (Session V))) :=
  s.backends[i]?.map fun b => (b.hold? who mode).map (·.map fun b => s.setBackend i b)

/-- Has the party let go of the lock. -/
def letGo (who : Holder) (i : Nat) (mode : HoldMode) (s : Session V) : Session V :=
  { s with backends := s.backends.modify i (·.letGo who mode) }

mutual

/-- Runs a step, itself nested in `depth` others. -/
def runStep [BEq V] (depth : Nat) : Step V → Session V → Report V × Session V
  | .act i action, s =>
    let a := s.act i action
    a.state.report i a.reply none a.events
  | .apply i batch durable during, s =>
    match batch with
    | .error e => s.report i (.undecodable e) none []
    | .ok batch =>
      match (s.noteBatch batch).acquire (.nested depth) i batch with
      | none => s.report i .unsupported none []
      | some a =>
        match a.reply with
        | .error f => a.state.report i (.refused f) none a.events
        | .ok locks =>
          let (reports, s) := runSteps (depth + 1) during a.state
          let d := s.decide i batch locks durable
          d.state.report i d.reply (some reports) (a.events ++ d.events)
  | .hold i mode steps, s =>
    let s := s.note mode.key?.toList
    match s.hold? (.nested depth) i mode with
    | none => s.report i .unsupported none []
    | some (.error f) => s.report i (.refused f) none []
    | some (.ok none) => s.report i (.done .done) none []
    | some (.ok (some held)) =>
      let (reports, s) := runSteps (depth + 1) steps held
      (s.letGo (.nested depth) i mode).report i (.done .done) (some reports) []

def runSteps [BEq V] (depth : Nat) : List (Step V) → Session V → List (Report V) × Session V
  | [], s => ([], s)
  | step :: steps, s =>
    let (r, s) := runStep depth step s
    let (rs, s) := runSteps depth steps s
    (r :: rs, s)

end

/-! ## The end of a session -/

/-- What a store answers about a key; only stores with a lock per key tell whether they contain
it. -/
structure KeySurvey (V : Type) where
  key : Key
  payload : Except Fault (Option V)
  contained : Option (Except Fault Bool)

structure Survey (V : Type) where
  len : Except Fault Nat
  keys : List (KeySurvey V)

def surveyKey (k : Key) : Backend V → KeySurvey V
  | .store s => ⟨k, (s.get k).reply, some (s.contains k).reply⟩
  | .baseline b => ⟨k, (b.get k).reply, none⟩

/-- What every store says about every key that was named. -/
def survey (s : Session V) : List (Survey V) :=
  s.backends.map fun b => ⟨b.len, s.named.keys.map fun k => surveyKey k b⟩

/-- Drops all live lock sets. -/
def dropAll (s : Session V) : Session V := s.locks.foldl (fun s locks => s.forget locks) s

/-- All that is seen of a session. -/
structure Transcript (V : Type) where
  reports : List (Report V)
  final : List (Survey V)
  /-- The same after all live lock sets are dropped, if there are any. -/
  released : Option (List (Survey V))

def play [BEq V] (steps : List (Step V)) (s : Session V) : Transcript V :=
  let (reports, s) := runSteps 0 steps s
  ⟨reports, s.survey, if s.locks.isEmpty then none else some s.dropAll.survey⟩

end Session

end TwoPhaseStore
