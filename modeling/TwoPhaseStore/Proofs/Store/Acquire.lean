import TwoPhaseStore.Proofs.Contents
import TwoPhaseStore.Proofs.Store.Call
import TwoPhaseStore.Store.Batch

/-!
The acquire phase, key by key.  It goes through exactly if the batch is `Lockable`: keys named once,
all of them unlocked, all conditions satisfied.  Then each slot of a key of the batch is claimed and
no other is touched; else nothing happens, and the first obstacle is the answer:

    (∃ t, lockAll who batch n cells = .ok t) ↔ Lockable cells batch        (lockAll_eq_ok_iff)
    lockAll who batch n cells = .ok t →
      t.get? j = if j ∈ batch.map key then Slot.claimed who (cells.get? j) else cells.get? j
                                                                           (get?_lockAll)
    lockAll who batch n cells = .error e → the first command that is `Refused` says why
                                                                           (lockAll_error)
-/

namespace TwoPhaseStore

variable {V : Type}

/-- The slot of a key that a batch has locked. -/
def Slot.claimed (who : Holder) (slot : Slot V) : Slot V :=
  some { Slot.cell slot with lock := .exclusive who }

@[simp] theorem Slot.lock_claimed (who : Holder) (slot : Slot V) :
    Slot.lock (Slot.claimed who slot) = .exclusive who := rfl

/-- Locking shows nothing. -/
@[simp] theorem Slot.shown_claimed (who : Holder) (slot : Slot V) :
    Slot.shown (Slot.claimed who slot) = Slot.shown slot := by cases slot <;> rfl

theorem Slot.sound_claimed (who : Holder) {slot : Slot V} (h : Slot.Sound slot) :
    Slot.Sound (Slot.claimed who slot) := by
  have hc : (Slot.cell slot).temporary = (Slot.cell slot).payload.isNone :=
    Slot.sound_some.1 (Slot.sound_some_cell h)
  exact Slot.sound_some.2 hc

namespace Store

theorem lock_get?_insert {cells : Table (Cell V)} {k j : Key} {d : Cell V} (h : j ≠ k) :
    Slot.lock ((cells.insert k d).get? j) = Slot.lock (cells.get? j) := by
  rw [Table.get?_insert, if_neg h]

/-- The lock set of a batch holds the keys of the batch. -/
theorem contains_ofList_keys {batch : List (Command V)} {k : Key} :
    (Table.ofList (batch.map fun c => (c.key, ()))).contains k = true ↔
      k ∈ batch.map Command.key := by
  rw [Table.contains_ofList, List.map_map]
  rfl

variable [BEq V]

/-- Whether the condition of a command holds of what is there; a placeholder satisfies none. -/
def Satisfied (cells : Table (Cell V)) (c : Command V) : Prop :=
  (Slot.cell (cells.get? c.key)).satisfies c.expected? = true

/-- What the acquire phase asks of a batch. -/
structure Lockable (cells : Table (Cell V)) (batch : List (Command V)) : Prop where
  distinct : (batch.map Command.key).Nodup
  free : ∀ c ∈ batch, Slot.lock (cells.get? c.key) = .free
  satisfied : ∀ c ∈ batch, Satisfied cells c

/-- What stands against the next command of a batch when the keys of `done` are locked by it: the
key is not to be had, or else its condition fails. -/
inductive Refused (cells : Table (Cell V)) (done : List (Command V)) (c : Command V) :
    Setback → Prop where
  | locked (h : c.key ∈ done.map Command.key ∨ Slot.lock (cells.get? c.key) ≠ .free) :
    Refused cells done c ⟨.keyLocked c.key, done.length⟩
  | unsatisfied (hd : c.key ∉ done.map Command.key) (hf : Slot.lock (cells.get? c.key) = .free)
    (hs : ¬ Satisfied cells c) : Refused cells done c ⟨.conditionFailed c.key, done.length + 1⟩

theorem lockable_nil (cells : Table (Cell V)) : Lockable cells [] :=
  ⟨List.nodup_nil, by simp, by simp⟩

/-- Where only the slot of `k` was touched, the other keys are as they were. -/
theorem satisfied_insert {cells : Table (Cell V)} {k : Key} {d : Cell V} {c : Command V}
    (h : c.key ≠ k) : Satisfied (cells.insert k d) c ↔ Satisfied cells c := by
  rw [Satisfied, Satisfied, Table.get?_insert, if_neg h]

/-- Locking the first key leaves a table on which the rest of the batch is lockable. -/
theorem lockable_cons {cells : Table (Cell V)} {c : Command V} {batch : List (Command V)}
    {d : Cell V} (hd : d.lock ≠ .free) :
    Lockable cells (c :: batch) ↔ Slot.lock (cells.get? c.key) = .free ∧ Satisfied cells c ∧
      Lockable (cells.insert c.key d) batch := by
  constructor
  · rintro ⟨hn, hf, hs⟩
    rw [List.map_cons, List.nodup_cons] at hn
    have hne : ∀ b ∈ batch, b.key ≠ c.key := fun b hb he =>
      hn.1 (he ▸ List.mem_map_of_mem hb)
    refine ⟨hf c List.mem_cons_self, hs c List.mem_cons_self, hn.2, fun b hb => ?_, fun b hb => ?_⟩
    · rw [lock_get?_insert (hne b hb)]
      exact hf b (List.mem_cons_of_mem _ hb)
    · rw [satisfied_insert (hne b hb)]
      exact hs b (List.mem_cons_of_mem _ hb)
  · rintro ⟨hf, hs, hn, hfs, hss⟩
    -- a key that came again would meet the lock it was given
    have hne : ∀ b ∈ batch, b.key ≠ c.key := fun b hb he => by
      have := hfs b hb
      rw [he, Table.get?_insert, if_pos rfl] at this
      exact hd this
    refine ⟨List.nodup_cons.2 ⟨fun hm => ?_, hn⟩, fun b hb => ?_, fun b hb => ?_⟩
    · obtain ⟨b, hb, he⟩ := List.mem_map.1 hm
      exact hne b hb he
    · rcases List.mem_cons.1 hb with rfl | hb
      · exact hf
      · rw [← lock_get?_insert (hne b hb)]
        exact hfs b hb
    · rcases List.mem_cons.1 hb with rfl | hb
      · exact hs
      · rw [← satisfied_insert (hne b hb)]
        exact hss b hb

theorem lockAll_cons (who : Holder) (c : Command V) (batch : List (Command V)) (n : Nat)
    (cells : Table (Cell V)) : lockAll who (c :: batch) n cells =
      if (Slot.lock (cells.get? c.key)).isFree then
        if (Slot.cell (cells.get? c.key)).satisfies c.expected? then
          lockAll who batch (n + 1)
            (cells.insert c.key { Slot.cell (cells.get? c.key) with lock := .exclusive who })
        else .error ⟨.conditionFailed c.key, n + 1⟩
      else .error ⟨.keyLocked c.key, n⟩ := by
  have hc : (cells.get? c.key).getD .placeholder = Slot.cell (cells.get? c.key) := rfl
  simp only [lockAll, hc]
  rw [← Slot.lock_cell]
  by_cases hf : (Slot.cell (cells.get? c.key)).lock = .free
  · rw [Cell.claim?_eq_some.2 ⟨hf, rfl⟩, if_pos (Lock.isFree_iff.2 hf)]
  · have hn : (Slot.cell (cells.get? c.key)).claim? who = none := by
      rw [Option.eq_none_iff_forall_ne_some]
      exact fun d hd => hf (Cell.claim?_eq_some.1 hd).1
    rw [hn, if_neg fun h => hf (Lock.isFree_iff.1 h)]

/-- The slots after all keys of a lockable batch are locked. -/
theorem get?_lockAll {who : Holder} {batch : List (Command V)} {n : Nat} {cells t : Table (Cell V)}
    (h : lockAll who batch n cells = .ok t) :
    Lockable cells batch ∧ ∀ j, t.get? j =
      if j ∈ batch.map Command.key then Slot.claimed who (cells.get? j) else cells.get? j := by
  induction batch generalizing n cells with
  | nil =>
    cases h
    exact ⟨lockable_nil _, fun j => (if_neg List.not_mem_nil).symm⟩
  | cons c batch ih =>
    rw [lockAll_cons] at h
    split at h
    · next hf =>
      split at h
      · next hs =>
        obtain ⟨hl, hg⟩ := ih h
        have hc : Lockable cells (c :: batch) :=
          (lockable_cons (by simp)).2 ⟨Lock.isFree_iff.1 hf, hs, hl⟩
        refine ⟨hc, fun j => ?_⟩
        rw [hg, Table.get?_insert, List.map_cons]
        by_cases hj : j = c.key
        · have hn : c.key ∉ batch.map Command.key := (List.nodup_cons.1 hc.distinct).1
          rw [hj, if_neg hn, if_pos rfl, if_pos List.mem_cons_self]
          rfl
        · simp only [List.mem_cons, hj, false_or, if_false]
      · cases h
    · cases h

theorem lockAll_eq_ok_iff (who : Holder) {batch : List (Command V)} (n : Nat)
    {cells : Table (Cell V)} :
    (∃ t, lockAll who batch n cells = .ok t) ↔ Lockable cells batch := by
  refine ⟨fun ⟨t, ht⟩ => (get?_lockAll ht).1, fun h => ?_⟩
  induction batch generalizing n cells with
  | nil => exact ⟨cells, rfl⟩
  | cons c batch ih =>
    obtain ⟨hf, hs, hl⟩ := (lockable_cons (d := { Slot.cell (cells.get? c.key) with
      lock := .exclusive who }) (by simp)).1 h
    have hs' : (Slot.cell (cells.get? c.key)).satisfies c.expected? = true := hs
    rw [lockAll_cons, if_pos (Lock.isFree_iff.2 hf), if_pos hs']
    exact ih (n + 1) hl

/-- The first obstacle is the answer. -/
theorem lockAll_error {who : Holder} {batch : List (Command V)} {n : Nat} {cells : Table (Cell V)}
    {e : Setback} (h : lockAll who batch n cells = .error e) :
    ∃ done c rest, batch = done ++ c :: rest ∧ Lockable cells done ∧
      ∃ e', Refused cells done c e' ∧ e = ⟨e'.fault, n + e'.released⟩ := by
  induction batch generalizing n cells with
  | nil => cases h
  | cons c batch ih =>
    rw [lockAll_cons] at h
    split at h
    · next hf =>
      split at h
      · next hs =>
        obtain ⟨done, d, rest, rfl, hl, e', he, rfl⟩ := ih h
        refine ⟨c :: done, d, rest, rfl,
          (lockable_cons (by simp)).2 ⟨Lock.isFree_iff.1 hf, hs, hl⟩, ?_⟩
        cases he with
        | locked hk =>
          refine ⟨_, .locked ?_, by simp; omega⟩
          by_cases hd : d.key = c.key
          · exact .inl (by simp [hd])
          · exact hk.imp (List.mem_cons_of_mem _) fun hn => by rwa [lock_get?_insert hd] at hn
        | unsatisfied hk hf' hs' =>
          have hd : d.key ≠ c.key := fun he => by
            rw [he, Table.get?_insert, if_pos rfl] at hf'
            cases hf'
          rw [lock_get?_insert hd] at hf'
          rw [satisfied_insert hd] at hs'
          exact ⟨_, .unsatisfied (by simp [hd, hk]) hf' hs', by simp; omega⟩
      · next hs =>
        cases h
        exact ⟨[], c, batch, rfl, lockable_nil _, _,
          .unsatisfied List.not_mem_nil (Lock.isFree_iff.1 hf) hs, rfl⟩
    · next hf =>
      cases h
      exact ⟨[], c, batch, rfl, lockable_nil _, _,
        .locked (.inr fun he => hf (Lock.isFree_iff.2 he)), rfl⟩

/-- Conditions are about the contents. -/
theorem Sound.satisfied_iff {s : Store V} (hs : s.Sound) (c : Command V) :
    Satisfied s.cells c ↔ c.Met s.contents := by
  have hp : s.contents c.key = (Slot.cell (s.cells.get? c.key)).payload := by
    cases hc : s.cells.get? c.key with
    | none => rw [Store.contents_eq, hc]; rfl
    | some cell => exact hs.contents_eq hc
  rw [Satisfied, Command.Met, hp]
  generalize Slot.cell (s.cells.get? c.key) = cell
  cases c.expected? with
  | none => exact iff_of_true rfl nofun
  | some e => cases hv : cell.payload <;> simp [Cell.satisfies, hv]

/-! ## The phase as a whole -/

theorem acquire_ok {who : Holder} {batch : List (Command V)} {s : Store V} {locks : LockSet}
    (h : (s.acquire who batch).reply = .ok locks) :
    batch ≠ [] ∧ s.structureLock = .free ∧ Lockable s.cells batch ∧
      (locks.issuer = s.id ∧ locks.holder = who ∧
        ∀ k, locks.keys.contains k = true ↔ k ∈ batch.map Command.key) ∧
      ∃ cells, (s.acquire who batch).state = { s with cells := cells } ∧ ∀ j, cells.get? j =
        if j ∈ batch.map Command.key then Slot.claimed who (s.cells.get? j)
        else s.cells.get? j := by
  unfold acquire at h ⊢
  by_cases hb : batch.isEmpty
  · rw [if_pos hb] at h
    cases h
  · by_cases hs : s.structureLock.isFree
    · rw [if_neg hb, if_pos hs] at h ⊢
      cases ht : lockAll who batch 0 s.cells with
      | error e => rw [ht] at h; cases h
      | ok t =>
        rw [ht] at h
        cases h
        obtain ⟨hl, hg⟩ := get?_lockAll ht
        exact ⟨fun he => hb (List.isEmpty_iff.2 he), Lock.isFree_iff.1 hs, hl,
          ⟨rfl, rfl, fun k => contains_ofList_keys⟩, t, rfl, hg⟩
    · rw [if_neg hb, if_neg hs] at h
      cases h

/-- A failed acquire phase changes nothing, and the first obstacle is its answer. -/
theorem acquire_error {who : Holder} {batch : List (Command V)} {s : Store V} {f : Fault}
    (h : (s.acquire who batch).reply = .error f) :
    (s.acquire who batch).state = s ∧
      (batch = [] ∧ f = .emptyBatch ∨ s.structureLock ≠ .free ∧ f = .globallyLocked ∨
        ∃ done c rest e, batch = done ++ c :: rest ∧ Lockable s.cells done ∧
          Refused s.cells done c e ∧ f = e.fault) := by
  unfold acquire at h ⊢
  by_cases hb : batch.isEmpty
  · rw [if_pos hb] at h ⊢
    cases h
    exact ⟨rfl, .inl ⟨List.isEmpty_iff.1 hb, rfl⟩⟩
  · by_cases hs : s.structureLock.isFree
    · rw [if_neg hb, if_pos hs] at h ⊢
      cases ht : lockAll who batch 0 s.cells with
      | error e =>
        rw [ht] at h
        cases h
        obtain ⟨done, c, rest, hd, hl, e', he, rfl⟩ := lockAll_error ht
        exact ⟨rfl, .inr (.inr ⟨done, c, rest, e', hd, hl, he, rfl⟩)⟩
      | ok t => rw [ht] at h; cases h
    · rw [if_neg hb, if_neg hs] at h ⊢
      cases h
      exact ⟨rfl, .inr (.inl ⟨fun he => hs (Lock.isFree_iff.2 he), rfl⟩)⟩

/-- A key that is locked keeps its slot. -/
theorem acquire_slot_of_locked (who : Holder) (batch : List (Command V)) {s : Store V} {j : Key}
    (hj : s.lockAt j ≠ .free) : (s.acquire who batch).state.cells.get? j = s.cells.get? j := by
  cases hr : (s.acquire who batch).reply with
  | error f => rw [(acquire_error hr).1]
  | ok locks =>
    obtain ⟨-, -, hl, -, cells, hst, hg⟩ := acquire_ok hr
    have hb : j ∉ batch.map Command.key := fun hb => by
      obtain ⟨c, hc, rfl⟩ := List.mem_map.1 hb
      exact hj (hl.free c hc)
    rw [hst, hg, if_neg hb]

/-- The acquire phase shows nothing, whether it goes through or not. -/
theorem contents_acquire (who : Holder) (batch : List (Command V)) (s : Store V) :
    (s.acquire who batch).state.contents = s.contents := by
  cases hr : (s.acquire who batch).reply with
  | error f => rw [(acquire_error hr).1]
  | ok locks =>
    obtain ⟨-, -, -, -, cells, hst, hg⟩ := acquire_ok hr
    funext j
    rw [hst, contents_eq, contents_eq, hg]
    split
    · exact Slot.shown_claimed _ _
    · rfl

theorem acquire_id (who : Holder) (batch : List (Command V)) (s : Store V) :
    (s.acquire who batch).state.id = s.id := by
  cases hr : (s.acquire who batch).reply with
  | error f => rw [(acquire_error hr).1]
  | ok locks =>
    obtain ⟨-, -, -, -, cells, hst, -⟩ := acquire_ok hr
    rw [hst]

end Store

end TwoPhaseStore
