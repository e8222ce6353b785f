import TwoPhaseStore.Store.Basic

/-!
Operations in flight.  A read and a write of a committed key hold the structure only until they have
the lock of the cell; the rest of them happens while others run.  Here such an operation is cut in
two at this point.  The lock of the cell names the party that is in flight, so the second half finds
its cell by the key.  With nothing in between the halves do what the whole operation does:

    s.beginRead who k = some t → t.finishRead who k = s.get k            (finishRead_of_beginRead)
    s.beginWrite who k = some t →
      t.finishWrite who k v e = s.write k v e                            (finishWrite_of_beginWrite)
-/

namespace TwoPhaseStore.Store

variable {V : Type}

/-- The first half of a read: shares the committed cell of the key. -/
def beginRead (who : Holder) (k : Key) (s : Store V) : Option (Store V) :=
  match s.cells.get? k with
  | some c =>
    if s.structureLock.admitsReader && !c.temporary then
      (c.share? who).map fun d => { s with cells := s.cells.insert k d }
    else none
  | none => none

/-- The second half of a read: copies the payload and lets go of the cell. -/
def finishRead (who : Holder) (k : Key) (s : Store V) :
    Answer (Store V) (Except Fault (Option V)) :=
  match s.cells.get? k with
  | some c => { s with cells := s.cells.insert k (c.release who) }.accept c.payload
  | none => s.accept none

/-- The first half of a write: claims the committed cell of the key. -/
def beginWrite (who : Holder) (k : Key) (s : Store V) : Option (Store V) :=
  match s.cells.get? k with
  | some c =>
    if s.structureLock.isFree && !c.temporary then
      (c.claim? who).map fun d => { s with cells := s.cells.insert k d }
    else none
  | none => none

/-- The second half of a write: compares, stores, and lets go of the cell. -/
def finishWrite [BEq V] (who : Holder) (k : Key) (v : V) (expected : Option V) (s : Store V) :
    Answer (Store V) (Except Fault Unit) :=
  match s.cells.get? k with
  | some c =>
    if c.satisfies expected then
      { s with cells := s.cells.insert k ((c.store v).release who) }.accept ()
    else
      ⟨.error (.conditionFailed k), [.conditionNotSatisfied k],
        { s with cells := s.cells.insert k (c.release who) }⟩
  | none => s.accept ()

/-! ## Lemmas -/

theorem beginRead_eq_some {who : Holder} {k : Key} {s t : Store V}
    (h : s.beginRead who k = some t) :
    ∃ c d, s.cells.get? k = some c ∧ s.structureLock.admitsReader = true ∧ c.temporary = false ∧
      c.share? who = some d ∧ t = { s with cells := s.cells.insert k d } := by
  unfold beginRead at h
  split at h
  · next c hc =>
    split at h
    · next hs =>
      rw [Bool.and_eq_true, Bool.not_eq_true'] at hs
      obtain ⟨d, hd, rfl⟩ := Option.map_eq_some_iff.1 h
      exact ⟨c, d, hc, hs.1, hs.2, hd, rfl⟩
    · cases h
  · cases h

theorem beginWrite_eq_some {who : Holder} {k : Key} {s t : Store V}
    (h : s.beginWrite who k = some t) :
    ∃ c, s.cells.get? k = some c ∧ s.structureLock.isFree = true ∧ c.temporary = false ∧
      c.lock = .free ∧
      t = { s with cells := s.cells.insert k { c with lock := .exclusive who } } := by
  unfold beginWrite at h
  split at h
  · next c hc =>
    split at h
    · next hs =>
      rw [Bool.and_eq_true, Bool.not_eq_true'] at hs
      obtain ⟨d, hd, rfl⟩ := Option.map_eq_some_iff.1 h
      obtain ⟨hl, rfl⟩ := Cell.claim?_eq_some.1 hd
      exact ⟨c, hc, hs.1, hs.2, hl, rfl⟩
    · cases h
  · cases h

theorem finishRead_of_beginRead {who : Holder} {k : Key} {s t : Store V}
    (h : s.beginRead who k = some t) : t.finishRead who k = s.get k := by
  obtain ⟨c, d, hc, hs, _, hd, rfl⟩ := beginRead_eq_some h
  obtain ⟨l, hl, rfl⟩ := Option.map_eq_some_iff.1 hd
  have ha : c.lock.admitsReader = true := by rw [← Lock.share?_isSome who, hl]; rfl
  have hr : ({ c with lock := l } : Cell V).release who = c := by
    rw [Cell.release, Lock.release_of_share? hl]
  unfold finishRead get
  simp only [Table.get?_insert, if_true, hs, hc, ha, hr, Table.insert_insert,
    Table.insert_of_get? hc]

theorem finishWrite_of_beginWrite [BEq V] {who : Holder} {k : Key} {s t : Store V}
    (h : s.beginWrite who k = some t) (v : V) (expected : Option V) :
    t.finishWrite who k v expected = s.write k v expected := by
  obtain ⟨c, hc, hs, ht, hl, rfl⟩ := beginWrite_eq_some h
  have hf : c.lock.isFree = true := Lock.isFree_iff.2 hl
  have hr : ({ c with lock := .exclusive who } : Cell V).release who = c := by
    rw [Cell.release, Lock.release_exclusive_self, ← hl]
  have hv : (({ c with lock := .exclusive who } : Cell V).store v).release who = c.store v := by
    rw [Cell.release, Cell.store, Lock.release_exclusive_self, ← hl]; rfl
  have he : ({ c with lock := .exclusive who } : Cell V).satisfies expected =
      c.satisfies expected := by cases expected <;> rfl
  have hb : (c.temporary || c.satisfies expected) = c.satisfies expected := by
    rw [ht, Bool.false_or]
  unfold finishWrite write
  simp only [Table.get?_insert, if_true, hs, hc, hf, hb, hr, hv, he, Table.insert_insert,
    Table.insert_of_get? hc]

end TwoPhaseStore.Store
