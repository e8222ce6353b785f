import TwoPhaseStore.Proofs.Results
import TwoPhaseStore.Proofs.Table
import TwoPhaseStore.Store.Call

/-!
What an operation does to a store, key by key.  Under a key there is a cell or nothing (`Slot`).  A
refused operation changes nothing, and an accepted one changes every slot by itself:

    (s.call c).reply = .error f → (s.call c).state = s                              (call_error)
    (s.call c).reply = .ok r → (s.call c).state.cells.get? k = c.effect k (s.cells.get? k)
                                                                                         (call_ok)

Only a slot that nobody has locked is ever changed (`call_slot_of_locked`).
-/

namespace TwoPhaseStore

variable {V : Type}

/-! ## Slots -/

/-- What is linked under a key: a cell or nothing. -/
abbrev Slot (V : Type) := Option (Cell V)

namespace Slot

/-- Nobody holds what is not there. -/
def lock : Slot V → Lock
  | some c => c.lock
  | none => .free

/-- The payload that counts. -/
def shown : Slot V → Option V
  | some c => if c.temporary then none else c.payload
  | none => none

/-- The cell that a writer finds, a new placeholder if there is none. -/
def cell (slot : Slot V) : Cell V := slot.getD .placeholder

/-- The mark tells whether there is a payload. -/
def Sound (slot : Slot V) : Prop := ∀ c, slot = some c → c.temporary = c.payload.isNone

@[simp] theorem lock_none : lock (none : Slot V) = .free := rfl

@[simp] theorem lock_some (c : Cell V) : lock (some c) = c.lock := rfl

@[simp] theorem shown_none : shown (none : Slot V) = none := rfl

theorem lock_cell (slot : Slot V) : (cell slot).lock = lock slot := by cases slot <;> rfl

theorem sound_none : Sound (none : Slot V) := fun _ h => nomatch h

theorem sound_some {c : Cell V} : Sound (some c) ↔ c.temporary = c.payload.isNone := by
  simp [Sound]

theorem sound_some_cell {slot : Slot V} (h : Sound slot) : Sound (some (cell slot)) := by
  cases slot with
  | none => exact sound_some.2 rfl
  | some c => exact h

theorem sound_store (v : V) (c : Cell V) : Sound (some (c.store v)) := sound_some.2 rfl

/-- With a sound mark, reading the payload is reading what counts. -/
theorem Sound.shown_some {c : Cell V} (h : Sound (some c)) : shown (some c) = c.payload := by
  have hc := sound_some.1 h
  cases hp : c.payload <;> simp_all [shown]

theorem Sound.temporary_iff {c : Cell V} (h : Sound (some c)) :
    c.temporary = (shown (some c)).isNone := by
  rw [h.shown_some]
  exact sound_some.1 h

end Slot

/-! ## Accepted operations, slot by slot -/

namespace Call

/-- The key that an operation writes or removes. -/
def written? : Call V → Option Key
  | .set k _ => some k
  | .setCond k _ _ => some k
  | .setWithDelay k _ _ => some k
  | .del k => some k
  | _ => none

/-- The key whose lock an operation takes; to look whether a key is there takes none. -/
def locks? : Call V → Option Key
  | .contains _ => none
  | c => c.key?

/-- What an accepted operation leaves in the slot of its key. -/
def leaves : Call V → Slot V → Slot V
  | .set _ v, slot => some ((Slot.cell slot).store v)
  | .setCond _ v _, slot => some ((Slot.cell slot).store v)
  | .setWithDelay _ v _, slot => some ((Slot.cell slot).store v)
  | .del _, _ => none
  | _, slot => slot

/-- What an accepted operation leaves in the slot of any key. -/
def effect (c : Call V) (k : Key) (slot : Slot V) : Slot V :=
  if c.written? = some k then c.leaves slot else slot

theorem sound_effect (c : Call V) (k : Key) {slot : Slot V} (h : Slot.Sound slot) :
    Slot.Sound (c.effect k slot) := by
  unfold effect
  split
  · cases c <;> first | exact Slot.sound_store _ _ | exact Slot.sound_none | exact h
  · exact h

theorem lock_effect (c : Call V) (k : Key) {slot : Slot V}
    (h : c.written? = some k → Slot.lock slot = .free) :
    Slot.lock (c.effect k slot) = Slot.lock slot := by
  unfold effect
  split
  · next hk =>
    have hs : (Slot.cell slot).lock = .free := (Slot.lock_cell slot).trans (h hk)
    rw [h hk]
    cases c <;> first | exact hs | rfl | exact h hk
  · rfl

end Call

namespace Store

variable {α : Type}

/-- The lock of a key. -/
def lockAt (s : Store V) (k : Key) : Lock := Slot.lock (s.cells.get? k)

/-- The lock of a key, or without a key that of the structure. -/
def lockOn (s : Store V) : Option Key → Lock
  | some k => s.lockAt k
  | none => s.structureLock

/-- Every mark tells whether there is a payload. -/
def Sound (s : Store V) : Prop := ∀ k, Slot.Sound (s.cells.get? k)

theorem contents_eq (s : Store V) (k : Key) : s.contents k = Slot.shown (s.cells.get? k) := by
  unfold contents
  cases s.cells.get? k <;> rfl

theorem Sound.contents_eq {s : Store V} (hs : s.Sound) {k : Key} {c : Cell V}
    (hc : s.cells.get? k = some c) : s.contents k = c.payload := by
  rw [Store.contents_eq, hc]
  exact Slot.Sound.shown_some (hc ▸ hs k)

theorem Sound.temporary_eq {s : Store V} (hs : s.Sound) {k : Key} {c : Cell V}
    (hc : s.cells.get? k = some c) : c.temporary = (s.contents k).isNone := by
  rw [Store.contents_eq, hc]
  exact Slot.Sound.temporary_iff (hc ▸ hs k)

theorem erase_of_absent {s : Store V} {k : Key} (h : s.cells.get? k = none) :
    s.cells.erase k = s.cells := by
  apply Table.ext_get?
  intro j
  rw [Table.get?_erase]
  split
  · next hj => rw [hj, h]
  · rfl

theorem del_eq (k : Key) (s : Store V) : s.del k =
    if s.structureLock.isFree then
      if (s.lockAt k).isFree then { s with cells := s.cells.erase k }.accept ()
      else s.refuseKey .delete k
    else s.refuse .exclusive := by
  unfold del lockAt
  cases hc : s.cells.get? k with
  | some c => rfl
  | none => rw [erase_of_absent hc]; rfl

theorem del_ok {k : Key} {s : Store V} {r : Unit} (h : (s.del k).reply = .ok r) :
    s.structureLock = .free ∧ s.lockAt k = .free ∧
      (s.del k).state = { s with cells := s.cells.erase k } := by
  rw [del_eq] at h ⊢
  split at h
  · next hs =>
    split at h
    · next hl =>
      rw [if_pos hs, if_pos hl]
      exact ⟨Lock.isFree_iff.1 hs, Lock.isFree_iff.1 hl, rfl⟩
    · cases h
  · cases h

theorem del_effect {s : Store V} {k : Key} {u : Unit} (h : (s.del k).reply = .ok u) :
    s.structureLock = .free ∧ s.lockAt k = .free ∧
      ∃ cells, (s.del k).state = { s with cells := cells } ∧
        ∀ j, cells.get? j = (Call.del k).effect j (s.cells.get? j) := by
  obtain ⟨hs, hl, ht⟩ := del_ok h
  refine ⟨hs, hl, _, ht, fun j => ?_⟩
  rw [Table.get?_erase, Call.effect, Call.written?, Call.leaves]
  by_cases hj : j = k
  · rw [if_pos hj, if_pos (congrArg some hj.symm)]
  · rw [if_neg hj, if_neg fun he => hj (Option.some.inj he).symm]

theorem del_error {k : Key} {s : Store V} {f : Fault} (h : (s.del k).reply = .error f) :
    (s.del k).state = s := by
  rw [del_eq] at h ⊢
  grind [accept, refuse, refuseKey]

theorem get_state (k : Key) (s : Store V) : (s.get k).state = s := by
  unfold get
  grind [accept, refuse, refuseKey]

theorem len_state (s : Store V) : s.len.state = s := by
  unfold len
  grind [accept, refuse]

theorem isEmpty_state (s : Store V) : s.isEmpty.state = s := by
  unfold isEmpty
  grind [accept, refuse]

theorem contains_state (k : Key) (s : Store V) : (s.contains k).state = s := by
  unfold contains
  grind [accept, refuse]

theorem snapshot_state (walk : List Key) (s : Store V) : (s.snapshot walk).state = s := by
  unfold snapshot
  grind [accept, refuse, refuseKey]

variable [BEq V]

/-- Whether a write may go ahead: it has nothing to compare, or what it compares is as expected. -/
def meets (s : Store V) (k : Key) (expected : Option V) : Bool :=
  match s.cells.get? k with
  | some c => c.temporary || c.satisfies expected
  | none => true

theorem meets_none (s : Store V) (k : Key) : s.meets k none = true := by
  unfold meets
  cases s.cells.get? k <;> simp [Cell.satisfies]

/-- Where the key is there, the expectation is on its payload. -/
theorem Sound.meets_some {s : Store V} (hs : s.Sound) (k : Key) (e : V) :
    s.meets k (some e) = true ↔ ∀ v, s.contents k = some v → (v == e) = true := by
  unfold meets
  cases hc : s.cells.get? k with
  | none => simp [Store.contents_eq, hc]
  | some c =>
    simp only [hs.temporary_eq hc, hs.contents_eq hc, Cell.satisfies]
    cases c.payload <;> simp

theorem write_eq (k : Key) (v : V) (e : Option V) (s : Store V) : s.write k v e =
    if s.structureLock.isFree then
      if (s.lockAt k).isFree then
        if s.meets k e then
          { s with cells := s.cells.insert k ((Slot.cell (s.cells.get? k)).store v) }.accept ()
        else ⟨.error (.conditionFailed k), [.conditionNotSatisfied k], s⟩
      else s.refuseKey .write k
    else s.refuse .exclusive := by
  unfold write lockAt meets
  cases s.cells.get? k <;> rfl

theorem write_ok {k : Key} {v : V} {e : Option V} {s : Store V} {r : Unit}
    (h : (s.write k v e).reply = .ok r) :
    s.structureLock = .free ∧ s.lockAt k = .free ∧ s.meets k e = true ∧ (s.write k v e).state =
      { s with cells := s.cells.insert k ((Slot.cell (s.cells.get? k)).store v) } := by
  rw [write_eq] at h ⊢
  split at h
  · next hs =>
    split at h
    · next hl =>
      split at h
      · next hm =>
        rw [if_pos hs, if_pos hl, if_pos hm]
        exact ⟨Lock.isFree_iff.1 hs, Lock.isFree_iff.1 hl, hm, rfl⟩
      · cases h
    · cases h
  · cases h

theorem write_error {k : Key} {v : V} {e : Option V} {s : Store V} {f : Fault}
    (h : (s.write k v e).reply = .error f) : (s.write k v e).state = s := by
  rw [write_eq] at h ⊢
  grind [accept, refuse, refuseKey]

/-! ## Any operation -/

/-- A refused operation changes nothing. -/
theorem call_error {c : Call V} {s : Store V} {f : Fault} (h : (s.call c).reply = .error f) :
    (s.call c).state = s := by
  cases c with
  | get k => exact get_state k s
  | set k v => exact write_error (map_eq_error h)
  | setCond k v e => exact write_error (map_eq_error h)
  | setWithDelay k v d => exact write_error (map_eq_error h)
  | del k => exact del_error (map_eq_error h)
  | len => exact len_state s
  | isEmpty => exact isEmpty_state s
  | contains k => exact contains_state k s
  | snapshot walk => exact snapshot_state walk s
  | text => rfl
  | timeout => rfl

/-- An operation that writes nothing changes nothing. -/
theorem call_of_reads {c : Call V} {s : Store V} (h : c.written? = none) :
    (s.call c).state = s := by
  cases c with
  | get k => exact get_state k s
  | len => exact len_state s
  | isEmpty => exact isEmpty_state s
  | contains k => exact contains_state k s
  | snapshot walk => exact snapshot_state walk s
  | text => rfl
  | timeout => rfl
  | _ => cases h

theorem write_effect {c : Call V} {s : Store V} {k : Key} {v : V} {e : Option V} {u : Unit}
    (hk : c.written? = some k) (hv : ∀ slot, c.leaves slot = some ((Slot.cell slot).store v))
    (h : (s.write k v e).reply = .ok u) :
    s.structureLock = .free ∧ s.lockAt k = .free ∧
      ∃ cells, (s.write k v e).state = { s with cells := cells } ∧
        ∀ j, cells.get? j = c.effect j (s.cells.get? j) := by
  obtain ⟨hs, hl, -, ht⟩ := write_ok h
  refine ⟨hs, hl, _, ht, fun j => ?_⟩
  rw [Table.get?_insert, Call.effect, hk, hv]
  by_cases hj : j = k
  · rw [if_pos hj, if_pos (congrArg some hj.symm), hj]
  · rw [if_neg hj, if_neg fun he => hj (Option.some.inj he).symm]

/-- An accepted operation finds the structure and its key free, and changes its slot only. -/
theorem call_ok {c : Call V} {s : Store V} {k : Key} {r : Reply V} (hk : c.written? = some k)
    (h : (s.call c).reply = .ok r) :
    s.structureLock = .free ∧ s.lockAt k = .free ∧
      ∃ cells, (s.call c).state = { s with cells := cells } ∧
        ∀ j, cells.get? j = c.effect j (s.cells.get? j) := by
  cases c with
  | set k' v =>
    cases hk
    obtain ⟨u, hu, -⟩ := map_eq_ok h
    exact write_effect rfl (fun _ => rfl) hu
  | setCond k' v e =>
    cases hk
    obtain ⟨u, hu, -⟩ := map_eq_ok h
    exact write_effect rfl (fun _ => rfl) hu
  | setWithDelay k' v d =>
    cases hk
    obtain ⟨u, hu, -⟩ := map_eq_ok h
    exact write_effect rfl (fun _ => rfl) hu
  | del k' =>
    cases hk
    obtain ⟨u, hu, -⟩ := map_eq_ok h
    exact del_effect hu
  | _ => cases hk

/-- What an operation does, accepted or not. -/
theorem call_cases (c : Call V) (s : Store V) :
    (s.call c).state = s ∨
    ∃ k cells, c.written? = some k ∧ s.structureLock = .free ∧ s.lockAt k = .free ∧
      (s.call c).state = { s with cells := cells } ∧
      ∀ j, cells.get? j = c.effect j (s.cells.get? j) := by
  cases hk : c.written? with
  | none => exact .inl (call_of_reads hk)
  | some k =>
    cases hr : (s.call c).reply with
    | error f => exact .inl (call_error hr)
    | ok r =>
      obtain ⟨hs, hl, cells, ht, hg⟩ := call_ok hk hr
      exact .inr ⟨k, cells, rfl, hs, hl, ht, hg⟩

theorem call_id (c : Call V) (s : Store V) : (s.call c).state.id = s.id := by
  rcases call_cases c s with h | ⟨k, cells, -, -, -, h, -⟩ <;> rw [h]

/-- No operation leaves a lock behind or lets one go. -/
theorem call_lockOn (c : Call V) (s : Store V) (target : Option Key) :
    (s.call c).state.lockOn target = s.lockOn target := by
  rcases call_cases c s with h | ⟨k, cells, hk, -, hl, h, hg⟩
  · rw [h]
  · rw [h]
    cases target with
    | none => rfl
    | some j =>
      show Slot.lock (cells.get? j) = Slot.lock (s.cells.get? j)
      rw [hg, Call.lock_effect c j fun hj => ?_]
      obtain rfl := Option.some.inj (hk.symm.trans hj)
      exact hl

theorem call_sound (c : Call V) {s : Store V} (hs : s.Sound) : (s.call c).state.Sound := by
  rcases call_cases c s with h | ⟨k, cells, -, -, -, h, hg⟩
  · rwa [h]
  · intro j
    rw [h, hg]
    exact Call.sound_effect c j (hs j)

/-- A key that is locked keeps its slot. -/
theorem call_slot_of_locked (c : Call V) {s : Store V} {j : Key} (hj : s.lockAt j ≠ .free) :
    (s.call c).state.cells.get? j = s.cells.get? j := by
  rcases call_cases c s with h | ⟨k, cells, hk, -, hl, h, hg⟩
  · rw [h]
  · have hne : c.written? ≠ some j := by
      rintro he
      obtain rfl := Option.some.inj (hk.symm.trans he)
      exact hj hl
    rw [h, hg, Call.effect, if_neg hne]

end Store

end TwoPhaseStore
