import TwoPhaseStore.Proofs.World
import TwoPhaseStore.Store.InFlight

/-!
Operations in flight beside whole ones.  A read or a write of a committed key lets go of the
structure as soon as it has the lock of the cell, and from there on it knows the cell by its guard
and not by the key.  So cells have an identity here: all cells that were ever linked under a key
stand in a list, the one that is linked now at its end,

    t.cells i k = t.gone i k ++ (t.world.slot i k).toList

and a guard is a place in this list.  The list only grows, so a place stays with its cell.  A second
half goes to the place of its guard, whatever the key leads to by then; on the linked cell it does
what the whole operation would do without the lock that is held for it (`Task.call_letGo`).
-/

namespace TwoPhaseStore

variable {V : Type}

/-! ## The halves of an operation -/

theorem Cell.satisfies_iff [BEq V] {c : Cell V} {expected : Option V} :
    c.satisfies expected = true ↔
      ∀ e, expected = some e → ∃ p, c.payload = some p ∧ (p == e) = true := by
  unfold satisfies
  cases expected <;> cases c.payload <;> simp

/-- An operation on one key that can be in flight. -/
inductive Task (V : Type) where
  | get
  | set (value : V)
  | setCond (value expected : V)
  | setWithDelay (value : V) (delay : Duration)

namespace Task

/-- The whole operation. -/
def call (k : Key) : Task V → Call V
  | get => .get k
  | set v => .set k v
  | setCond v e => .setCond k v e
  | setWithDelay v d => .setWithDelay k v d

/-- The payload that a write is to store. -/
def value? : Task V → Option V
  | get => none
  | set v => some v
  | setCond v _ => some v
  | setWithDelay v _ => some v

def expected? : Task V → Option V
  | setCond _ e => some e
  | _ => none

/-- The lock that is held between the halves. -/
def mode (k : Key) (task : Task V) : HoldMode :=
  match task.value? with
  | none => .readKey k
  | some _ => .writeKey k

/-- The first half: takes the lock of a committed cell under the structure lock. -/
def start? (who : Holder) (k : Key) (task : Task V) (s : Store V) : Option (Store V) :=
  match task.value? with
  | none => s.beginRead who k
  | some _ => s.beginWrite who k

/-- The second half, on the cell of the guard: compares, copies or stores, and lets go.  The mark is
not behind the guard. -/
def finish [BEq V] (who : Holder) (k : Key) (task : Task V) (c : Cell V) :
    Answer (Cell V) (Except Fault (Reply V)) :=
  match task.value? with
  | none => ⟨.ok (.payload c.payload), [], c.release who⟩
  | some v =>
    if c.satisfies task.expected? then ⟨.ok .done, [], (c.put who (some v)).release who⟩
    else ⟨.error (.conditionFailed k), [.conditionNotSatisfied k], c.release who⟩

@[simp] theorem key?_mode (k : Key) (task : Task V) : (task.mode k).key? = some k := by
  unfold mode
  split <;> rfl

/-- Every write is the same but for its value and what it expects. -/
theorem call_eq [BEq V] (k : Key) (task : Task V) (s : Store V) :
    s.call (task.call k) = match task.value? with
      | none => (s.get k).map .payload
      | some v => (s.write k v task.expected?).map fun _ => .done := by
  cases task <;> rfl

theorem start?_eq_some {who : Holder} {k : Key} {task : Task V} {s t : Store V}
    (h : task.start? who k s = some t) : ∃ c l, s.cells.get? k = some c ∧ c.temporary = false ∧
      t = s.relock (some k) fun _ => l := by
  unfold start? at h
  split at h
  · obtain ⟨c, d, hc, -, ht, hd, rfl⟩ := Store.beginRead_eq_some h
    obtain ⟨l, -, rfl⟩ := Option.map_eq_some_iff.1 hd
    exact ⟨c, l, hc, ht, Store.insert_eq_relock hc l⟩
  · obtain ⟨c, hc, -, ht, -, rfl⟩ := Store.beginWrite_eq_some h
    exact ⟨c, .exclusive who, hc, ht, Store.insert_eq_relock hc _⟩

/-- The first half takes the lock as a hold of the cell does. -/
theorem hold?_of_start? {who : Holder} {k : Key} {task : Task V} {s t : Store V} (hs : s.Sound)
    (h : task.start? who k s = some t) : s.hold? who (task.mode k) = .ok (some t) := by
  unfold start? at h
  unfold mode
  split at h
  · obtain ⟨c, d, hc, ha, ht, hd, rfl⟩ := Store.beginRead_eq_some h
    obtain ⟨l, hl, -⟩ := Option.map_eq_some_iff.1 hd
    have hr : c.lock.admitsReader = true := by rw [← Lock.share?_isSome who, hl]; rfl
    have hm : c.temporary = c.payload.isNone := hs k c hc
    obtain ⟨v, hv⟩ : ∃ v, c.payload = some v := by
      rw [ht] at hm
      exact Option.isSome_iff_exists.1 (by simpa using hm.symm)
    have hg : (s.get k).reply = .ok (some v) := by
      rw [← hv]
      simp only [Store.get, ha, hc, hr, if_true]
      rfl
    simp [Store.hold?, hg, hc, hd]
  · obtain ⟨c, hc, ha, ht, hl, rfl⟩ := Store.beginWrite_eq_some h
    have hg : (s.contains k).reply = .ok true := by
      have ha' : s.structureLock.admitsReader = true := by rw [Lock.isFree_iff.1 ha]; rfl
      simp only [Store.contains, ha', hc, ht, if_true]
      rfl
    have hd : c.claim? who = some { c with lock := .exclusive who } :=
      Cell.claim?_eq_some.2 ⟨hl, rfl⟩
    simp [Store.hold?, hg, ha, hc, hd]

/-! ## The second half and the whole operation -/

section
variable {who : Holder} {k : Key} {task : Task V} {s : Store V} {c : Cell V}
  (hs : s.structureLock = .free) (hc : s.cells.get? k = some c)

include hs hc

/-- A read that has the cell copies what a read of its own would find now. -/
theorem finishRead_eq (hl : c.lock.Grants .shared who) :
    s.finishRead who k = (s.letGo who (.readKey k)).get k := by
  have hr : (c.release who).lock.admitsReader = true := Lock.admitsReader_release who hl.1
  have hf : s.structureLock.admitsReader = true := by rw [hs]; rfl
  rw [Store.letGo_of_cell rfl hc]
  simp only [Store.finishRead, Store.get, hc, hf, hr, Table.get?_insert, if_true]
  rfl

variable [BEq V]

/-- A write that has the cell does what one would do now that gets it. -/
theorem finishWrite_eq (ht : c.temporary = false) (hl : c.lock = .exclusive who) (v : V)
    (expected : Option V) :
    s.finishWrite who k v expected = (s.letGo who (.writeKey k)).write k v expected := by
  have hf : s.structureLock.isFree = true := Lock.isFree_iff.2 hs
  have hr : (c.release who).claim? who = some c := by
    rw [Cell.claim?_eq_some, Cell.release, hl, Lock.release_exclusive_self]
    exact ⟨rfl, by rw [← hl]⟩
  have ht' : (c.release who).temporary = false := ht
  -- the write that is in flight now could as well begin now
  refine Store.finishWrite_of_beginWrite ?_ v expected
  rw [Store.letGo_of_cell rfl hc]
  simp only [Store.beginWrite, hf, hr, ht', Table.get?_insert, if_true, Bool.not_false,
    Bool.and_true, Option.map_some, Table.insert_insert, Table.insert_of_get? hc]

/-- On the linked cell the second half does what the whole operation would do without the lock that
is held for it. -/
theorem call_letGo (ht : c.temporary = false) (hl : c.lock.Grants (task.mode k).mode who) :
    (s.letGo who (task.mode k)).call (task.call k) =
      ⟨(task.finish who k c).reply, (task.finish who k c).events,
        { s with cells := s.cells.insert k (task.finish who k c).state }⟩ := by
  rw [call_eq]
  unfold mode finish at *
  cases hv : task.value? with
  | none =>
    simp only [hv] at hl ⊢
    rw [← finishRead_eq hs hc hl, Store.finishRead, hc]
    rfl
  | some v =>
    simp only [hv] at hl ⊢
    rw [← finishWrite_eq hs hc ht hl, Store.finishWrite, hc]
    have hp : (c.put who (some v)).release who = (c.store v).release who := by
      have hl' : c.lock = .exclusive who := hl
      rw [Cell.put, if_pos hl', Cell.store, ← ht]
    by_cases he : c.satisfies task.expected?
    · simp only [if_pos he, hp]
      rfl
    · simp only [if_neg he]
      rfl

end

theorem finish_stores [BEq V] {who : Holder} {k : Key} {task : Task V} {c : Cell V} {v : V}
    (hv : task.value? = some v) (hl : c.lock.Grants (task.mode k).mode who)
    (hr : (task.finish who k c).reply = .ok .done) :
    (task.finish who k c).state = { c with payload := some v, lock := .free } := by
  unfold mode at hl
  unfold finish at *
  simp only [hv] at hl hr ⊢
  have hl' : c.lock = .exclusive who := hl
  split at hr
  · next he =>
    rw [if_pos he, Cell.put, if_pos hl', Cell.release, hl', Lock.release_exclusive_self]
  · cases hr

end Task

/-! ## Traffic -/

/-- An operation between its halves. -/
structure Flight (V : Type) where
  who : Holder
  store : Nat
  key : Key
  /-- The place of its cell among the cells of the key. -/
  place : Nat
  task : Task V

/-- What is held for the operation. -/
def Flight.hold (f : Flight V) : Hold := ⟨f.who, f.store, f.task.mode f.key⟩

/-- The whole operation, in the store as it would be if nothing were held for it. -/
def Flight.atOnce [BEq V] (f : Flight V) (s : Store V) :
    Answer (Store V) (Except Fault (Reply V)) :=
  (s.letGo f.who (f.task.mode f.key)).call (f.task.call f.key)

/-- A session with operations in flight. -/
structure Traffic (V : Type) where
  session : Session V
  /-- The cells of a key that are no longer linked, the oldest first, each as it was then. -/
  gone : Nat → Key → List (Cell V)
  flights : List (Flight V)

/-- The moves that are over when they have answered. -/
def Move.isWhole : Move V → Bool
  | .hold _ _ _ => false
  | .letGo _ => false
  | _ => true

/-- What a client does next: something as a whole, or one half of an operation. -/
inductive Turn (V : Type) where
  | whole (move : Move V) (h : move.isWhole = true)
  | start (who : Holder) (store : Nat) (key : Key) (task : Task V)
  | finish (who : Holder)

/-- Puts a cell under a key of a store. -/
def Session.putCell (i : Nat) (k : Key) (c : Cell V) (s : Session V) : Session V :=
  match s.store? i with
  | some st => s.setBackend i (.store { st with cells := st.cells.insert k c })
  | none => s

/-- The cell that a move unlinked from a key, if it did.  No move unlinks a cell and links another
under its key, so a key that has a cell before and after has kept it. -/
def Slot.unlinked (before after : Slot V) : List (Cell V) :=
  if after.isNone then before.toList else []

namespace Traffic

/-- The operations in flight are parties that hold the locks of their cells. -/
def world (t : Traffic V) : World V := ⟨t.session, t.flights.map (·.hold)⟩

/-- All cells that were ever linked under a key; the last is linked now if the key has one. -/
def cells (i : Nat) (k : Key) (t : Traffic V) : List (Cell V) :=
  t.gone i k ++ (t.world.slot i k).toList

/-- Puts a cell in its place, under the key or among those that are gone. -/
def put (i : Nat) (k : Key) (place : Nat) (c : Cell V) (t : Traffic V) : Traffic V :=
  if place < (t.gone i k).length then
    { t with gone := fun j l => if j = i ∧ l = k then (t.gone i k).set place c else t.gone j l }
  else { t with session := t.session.putCell i k c }

variable [BEq V]

/-- Something as a whole; what it unlinks is gone. -/
def whole (m : Move V) (t : Traffic V) : Answer (Traffic V) (Option (Outcome V)) :=
  let a := t.world.step m
  ⟨some a.reply, a.events,
    { t with
      session := a.state.session
      gone := fun i k => t.gone i k ++ Slot.unlinked (t.world.slot i k) (a.state.slot i k) }⟩

/-- The first half of an operation, which does not answer yet.  An operation that finds no committed
cell, or does not get its lock, is over at once. -/
def start (who : Holder) (i : Nat) (k : Key) (task : Task V) (t : Traffic V) :
    Answer (Traffic V) (Option (Outcome V)) :=
  if who ∈ t.world.parties then ⟨some .nameInUse, [], t⟩
  else
    match (t.session.store? i).bind (task.start? who k) with
    | some st =>
      ⟨none, [], { t with
        session := t.session.setBackend i (.store st)
        flights := ⟨who, i, k, (t.gone i k).length, task⟩ :: t.flights }⟩
    | none => t.whole (.call i (task.call k))

/-- The second half, on the cell in the place of the guard. -/
def finish (who : Holder) (t : Traffic V) : Answer (Traffic V) (Option (Outcome V)) :=
  match t.flights.find? (·.who = who) with
  | none => ⟨some .noSuchLocks, [], t⟩
  | some f =>
    match (t.cells f.store f.key)[f.place]? with
    | none => ⟨some .noSuchLocks, [], t⟩
    | some c =>
      let a := f.task.finish who f.key c
      ⟨some (.ofReply a.reply), a.events,
        { t.put f.store f.key f.place a.state with
          flights := t.flights.filter (·.who ≠ who) }⟩

def step (u : Turn V) (t : Traffic V) : Answer (Traffic V) (Option (Outcome V)) :=
  match u with
  | .whole m _ => t.whole m
  | .start who i k task => t.start who i k task
  | .finish who => t.finish who

def after : List (Turn V) → Traffic V → Traffic V
  | [], t => t
  | u :: us, t => (t.step u).state.after us

/-- Some stores have been set up, and then clients have taken turns. -/
inductive Reachable : Traffic V → Prop where
  | start {plans : List (Backend.Plan V)} {s : Session V} (h : Session.start plans = .ok s) :
    Reachable ⟨s, fun _ _ => [], []⟩
  | step {t : Traffic V} (u : Turn V) (h : Reachable t) : Reachable (t.step u).state

end Traffic

end TwoPhaseStore
