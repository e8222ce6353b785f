import TwoPhaseStore.Proofs.Store.Acquire
import TwoPhaseStore.Proofs.Store.Answer
import TwoPhaseStore.Proofs.Store.Resolve

/-!
What operations look at.  Beside the structure lock it is the cells of their own keys, as a writer
would find them (`cellAt`): so an absent key is to every operation what an unlocked placeholder is.

    t.cellAt k = s.cellAt k → (t.call c).reply = (s.call c).reply           (call_reply_congr)
    (∀ c ∈ batch, t.cellAt c.key = s.cellAt c.key) →
      the acquire phases of t and s answer alike                           (acquire_reply_congr)

What becomes of a slot depends on that slot and on the reply (`get?_call`, `get?_acquire`,
`run_congr`), and all but the cells stays as it is (`bare`).
-/

namespace TwoPhaseStore

open Session (Resolution)

variable {V : Type}

namespace Slot

/-- Only what nobody has locked can be absent in one place and a placeholder in another. -/
theorem eq_of_cell_eq {a b : Slot V} (h : cell a = cell b) (hl : lock a ≠ .free) : a = b := by
  cases a with
  | none => exact absurd rfl hl
  | some c =>
    cases b with
    | none =>
      have hc : c = .placeholder := h
      exact absurd (congrArg Cell.lock hc) hl
    | some d => exact congrArg some h

/-- What has a payload is not absent. -/
theorem eq_some_of_payload {slot : Slot V} (h : (cell slot).payload ≠ none) :
    slot = some (cell slot) := by
  cases slot with
  | none => exact absurd rfl h
  | some c => rfl

/-- Nor is what is committed. -/
theorem eq_some_of_committed {slot : Slot V} (h : (cell slot).temporary = false) :
    slot = some (cell slot) := by
  cases slot with
  | none => cases h
  | some c => rfl

theorem cell_claimed {who : Holder} {a b : Slot V} (h : cell a = cell b) :
    claimed who a = claimed who b := by
  rw [claimed, claimed, h]

/-- Nobody is to be let go of what is absent, nor of an unlocked placeholder. -/
theorem cell_release (who : Holder) (slot : Slot V) :
    cell (slot.map (·.release who)) = (cell slot).release who := by cases slot <;> rfl

end Slot

theorem Call.cell_effect (c : Call V) (j : Key) {a b : Slot V} (h : Slot.cell a = Slot.cell b) :
    Slot.cell (c.effect j a) = Slot.cell (c.effect j b) := by
  unfold Call.effect
  split
  · cases c with
    | set k v => exact congrArg (Cell.store v) h
    | setCond k v e => exact congrArg (Cell.store v) h
    | setWithDelay k v d => exact congrArg (Cell.store v) h
    | del k => rfl
    | _ => exact h
  · exact h

namespace Store

/-- The cell that a writer finds under a key, a new placeholder if there is none. -/
def cellAt (s : Store V) (k : Key) : Cell V := Slot.cell (s.cells.get? k)

/-- A store without its cells. -/
def bare (s : Store V) : Store V := { s with cells := .empty }

theorem lockAt_eq (s : Store V) (k : Key) : s.lockAt k = (s.cellAt k).lock :=
  (Slot.lock_cell _).symm

theorem ext_cells {s t : Store V} (hb : t.bare = s.bare)
    (hc : ∀ k, t.cells.get? k = s.cells.get? k) : t = s := by
  obtain ⟨id, timeout, lock, cells⟩ := s
  obtain ⟨id', timeout', lock', cells'⟩ := t
  obtain rfl : cells' = cells := Table.ext_get? hc
  cases hb
  rfl

theorem id_of_bare {s t : Store V} (h : t.bare = s.bare) : t.id = s.id := by
  have hid : t.bare.id = s.bare.id := by rw [h]
  exact hid

theorem structureLock_of_bare {s t : Store V} (h : t.bare = s.bare) :
    t.structureLock = s.structureLock := by
  have hl : t.bare.structureLock = s.bare.structureLock := by rw [h]
  exact hl

/-! ## Operations on one key -/

theorem get_reply (k : Key) (s : Store V) : (s.get k).reply =
    if s.structureLock.admitsReader then
      if (s.cellAt k).lock.admitsReader then .ok (s.cellAt k).payload else .error (.keyLocked k)
    else .error .globallyLocked := by
  unfold get cellAt
  split
  · cases s.cells.get? k with
    | none => rfl
    | some c =>
      show (if c.lock.admitsReader then _ else _ : Answer _ _).reply =
        if c.lock.admitsReader then _ else _
      split <;> rfl
  · rfl

theorem contains_reply (k : Key) (s : Store V) : (s.contains k).reply =
    if s.structureLock.admitsReader then .ok (!(s.cellAt k).temporary)
    else .error .globallyLocked := by
  unfold contains cellAt
  split
  · cases s.cells.get? k <;> rfl
  · rfl

theorem del_reply (k : Key) (s : Store V) : (s.del k).reply =
    if s.structureLock.isFree then
      if (s.cellAt k).lock.isFree then .ok () else .error (.keyLocked k)
    else .error .globallyLocked := by
  rw [del_eq, lockAt_eq]
  split
  · split <;> rfl
  · rfl

variable [BEq V]

theorem meets_eq (s : Store V) (k : Key) (e : Option V) :
    s.meets k e = ((s.cellAt k).temporary || (s.cellAt k).satisfies e) := by
  unfold meets cellAt
  cases s.cells.get? k <;> rfl

theorem write_reply (k : Key) (v : V) (e : Option V) (s : Store V) : (s.write k v e).reply =
    if s.structureLock.isFree then
      if (s.cellAt k).lock.isFree then
        if (s.cellAt k).temporary || (s.cellAt k).satisfies e then .ok ()
        else .error (.conditionFailed k)
      else .error (.keyLocked k)
    else .error .globallyLocked := by
  rw [write_eq, lockAt_eq, meets_eq]
  split
  · split
    · split <;> rfl
    · rfl
  · rfl

/-- An operation on one key looks at the structure lock and at that key. -/
theorem call_reply_congr {c : Call V} {k : Key} (hk : c.key? = some k) {s t : Store V}
    (hs : t.structureLock = s.structureLock) (hc : t.cellAt k = s.cellAt k) :
    (t.call c).reply = (s.call c).reply := by
  have hw : ∀ v e, (t.write k v e).reply = (s.write k v e).reply := by
    intro v e
    rw [write_reply, write_reply, hs, hc]
  cases c with
  | get k =>
    cases hk
    exact congrArg (Except.map _) (by rw [get_reply, get_reply, hs, hc])
  | set k v => cases hk; exact congrArg (Except.map _) (hw v none)
  | setCond k v e => cases hk; exact congrArg (Except.map _) (hw v (some e))
  | setWithDelay k v d => cases hk; exact congrArg (Except.map _) (hw v none)
  | del k =>
    cases hk
    exact congrArg (Except.map _) (by rw [del_reply, del_reply, hs, hc])
  | contains k =>
    cases hk
    exact congrArg (Except.map _) (by rw [contains_reply, contains_reply, hs, hc])
  | _ => cases hk

/-- A slot after an operation. -/
theorem get?_call (c : Call V) (s : Store V) (j : Key) : (s.call c).state.cells.get? j =
    if (s.call c).reply.isOk then c.effect j (s.cells.get? j) else s.cells.get? j := by
  cases hr : (s.call c).reply with
  | error f => rw [call_error hr]; rfl
  | ok r =>
    show _ = c.effect j (s.cells.get? j)
    cases hk : c.written? with
    | none => rw [call_of_reads hk, Call.effect, hk, if_neg (Option.some_ne_none j).symm]
    | some k =>
      obtain ⟨-, -, cells, hst, hg⟩ := call_ok hk hr
      rw [hst, hg]

@[simp] theorem call_bare (c : Call V) (s : Store V) : (s.call c).state.bare = s.bare := by
  rcases call_cases c s with h | ⟨k, cells, -, -, -, h, -⟩ <;> rw [h]
  rfl

/-! ## The acquire phase -/

theorem lockAll_congr (who : Holder) {batch : List (Command V)} (n : Nat)
    {cells cells' : Table (Cell V)} (h : ∀ c ∈ batch,
      Slot.cell (cells'.get? c.key) = Slot.cell (cells.get? c.key)) :
    (lockAll who batch n cells').map (fun _ => ()) =
      (lockAll who batch n cells).map fun _ => () := by
  induction batch generalizing n cells cells' with
  | nil => rfl
  | cons c batch ih =>
    have hc : Slot.cell (cells'.get? c.key) = Slot.cell (cells.get? c.key) :=
      h c List.mem_cons_self
    rw [lockAll_cons, lockAll_cons, ← Slot.lock_cell, ← Slot.lock_cell, hc]
    split
    · split
      · refine ih (n + 1) fun d hd => ?_
        rw [Table.get?_insert, Table.get?_insert]
        split
        · rfl
        · exact h d (List.mem_cons_of_mem _ hd)
      · rfl
    · rfl

/-- An acquire phase looks at the structure lock and at the keys of its batch. -/
theorem acquire_reply_congr {who : Holder} {batch : List (Command V)} {s t : Store V}
    (hs : t.structureLock = s.structureLock)
    (hc : ∀ c ∈ batch, t.cellAt c.key = s.cellAt c.key) : (t.acquire who batch).reply =
      (s.acquire who batch).reply.map fun locks => { locks with issuer := t.id } := by
  have hl := lockAll_congr who 0 hc
  unfold acquire
  rw [hs]
  split
  · rfl
  · split
    · cases hr : lockAll who batch 0 t.cells with
      | error e =>
        cases hr' : lockAll who batch 0 s.cells with
        | error e' =>
          rw [hr, hr'] at hl
          obtain rfl := Except.error.inj hl
          rfl
        | ok cells => rw [hr, hr'] at hl; cases hl
      | ok cells =>
        cases hr' : lockAll who batch 0 s.cells with
        | error e => rw [hr, hr'] at hl; cases hl
        | ok cells' => rfl
    · rfl

theorem acquire_reply_of_id {who : Holder} {batch : List (Command V)} {s t : Store V}
    (hid : t.id = s.id) (hs : t.structureLock = s.structureLock)
    (hc : ∀ c ∈ batch, t.cellAt c.key = s.cellAt c.key) :
    (t.acquire who batch).reply = (s.acquire who batch).reply := by
  rw [acquire_reply_congr hs hc, hid]
  cases hr : (s.acquire who batch).reply with
  | error f => rfl
  | ok locks =>
    obtain ⟨-, -, -, ⟨hu, -⟩, -⟩ := acquire_ok hr
    rw [← hu]
    rfl

/-- A slot after an acquire phase. -/
theorem get?_acquire (who : Holder) (batch : List (Command V)) (s : Store V) (j : Key) :
    (s.acquire who batch).state.cells.get? j =
      if (s.acquire who batch).reply.isOk ∧ j ∈ batch.map Command.key then
        Slot.claimed who (s.cells.get? j)
      else s.cells.get? j := by
  cases hr : (s.acquire who batch).reply with
  | error f =>
    rw [(acquire_error hr).1, if_neg]
    rintro ⟨h, -⟩
    cases h
  | ok locks =>
    obtain ⟨-, -, -, -, cells, hst, hg⟩ := acquire_ok hr
    rw [hst, hg]
    simp only [Except.isOk, Except.toBool, true_and]

@[simp] theorem acquire_bare (who : Holder) (batch : List (Command V)) (s : Store V) :
    (s.acquire who batch).state.bare = s.bare := by
  cases hr : (s.acquire who batch).reply with
  | error f => rw [(acquire_error hr).1]
  | ok locks =>
    obtain ⟨-, -, -, -, cells, hst, -⟩ := acquire_ok hr
    rw [hst]
    rfl

/-! ## The end of a lock set -/

omit [BEq V] in
/-- The end of a lock set does the same on all stores that have its keys. -/
theorem run_congr (how : Resolution) (batch : List (Command V)) (who : Holder) (keys : Table Unit)
    {s t : Store V} (hs : ∀ k, keys.contains k = true → s.cells.get? k ≠ none)
    (ht : ∀ k, keys.contains k = true → t.cells.get? k ≠ none) :
    (how.run batch ⟨t.id, who, keys⟩ t).reply = (how.run batch ⟨s.id, who, keys⟩ s).reply ∧
      (∀ a b, (how.run batch ⟨s.id, who, keys⟩ s).reply ≠ .error (.wrongStore a b)) ∧
      ∀ j, t.cells.get? j = s.cells.get? j →
        (how.run batch ⟨t.id, who, keys⟩ t).state.cells.get? j =
          (how.run batch ⟨s.id, who, keys⟩ s).state.cells.get? j := by
  obtain ⟨done, rest, r, hr, h⟩ := run_determined how batch who keys
  obtain ⟨hrs, hs⟩ := h s hs
  obtain ⟨hrt, ht⟩ := h t ht
  refine ⟨ht.trans hs.symm, fun a b => by rw [hs]; exact hr a b, fun j hj => ?_⟩
  obtain ⟨cells, hst, hg⟩ := hrs.cells
  obtain ⟨cells', hst', hg'⟩ := hrt.cells
  rw [hst, hst', hg, hg', hj]
  rfl

omit [BEq V] in
@[simp] theorem run_bare (how : Resolution) (batch : List (Command V)) (locks : LockSet)
    (s : Store V) : (how.run batch locks s).state.bare = s.bare := by
  rw [how.run_eq, resolve]
  split
  · dsimp only
    split <;> rfl
  · rfl

omit [BEq V] in
@[simp] theorem forget_bare (locks : LockSet) (s : Store V) :
    (s.forget locks).bare = s.bare := by
  unfold forget
  split <;> rfl

end Store

end TwoPhaseStore
