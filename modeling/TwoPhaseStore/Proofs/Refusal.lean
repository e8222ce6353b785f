import TwoPhaseStore.Proofs.Session
import TwoPhaseStore.Proofs.Store.Guards

/-!
Refusals.  Whatever is refused leaves the session as it was, whoever holds which locks by then:
every store and baseline with all of its cells, marks, payloads and locks, and every live lock set.
Each operation has faults of its own (`Backend.Objects`, `Store.ObjectsTo`), and a batch that is
refused is refused before it is asked whether it is durable:

    (s.call i c).reply = .refused f → s.Intact (s.call i c).state ∧ ∃ b, b.Objects c f
                                                                              (call_refused_intact)
    (runStep depth (.apply i (.ok batch) durable during) s).1.outcome = .refused f →
      no nested step ran ∧ s is intact ∧ st.ObjectsTo batch f                (apply_refused_intact)
-/

namespace TwoPhaseStore

variable {V : Type}

/-! ## What an operation is refused for -/

/-- What a store can have against an operation: its structure is locked; the key whose lock the
operation takes is locked, for a copy that of a committed row; or its condition does not hold. -/
inductive Store.Objects [BEq V] (s : Store V) : Call V → Fault → Prop where
  | structure {c : Call V} (h : s.structureLock ≠ .free) : s.Objects c .globallyLocked
  | key {c : Call V} {k : Key} (hk : c.locks? = some k) (h : s.lockAt k ≠ .free) :
    s.Objects c (.keyLocked k)
  | row {walk : List Key} {k : Key} {cell : Cell V} (hk : s.cells.get? k = some cell)
    (hm : cell.temporary = false) (h : s.lockAt k ≠ .free) :
    s.Objects (.snapshot walk) (.keyLocked k)
  | condition {k : Key} {v e : V} (h : s.meets k (some e) = false) :
    s.Objects (.setCond k v e) (.conditionFailed k)

/-- What a baseline can have against an operation. -/
inductive Baseline.Objects [BEq V] (b : Baseline V) : Call V → Fault → Prop where
  | locked {c : Call V} (h : b.lock ≠ .free) : b.Objects c .globallyLocked
  | condition {k : Key} {v e p : V} (hp : b.entries.get? k = some p) (h : (p == e) = false) :
    b.Objects (.setCond k v e) (.conditionFailed k)

def Backend.Objects [BEq V] : Backend V → Call V → Fault → Prop
  | .store s => s.Objects
  | .baseline b => b.Objects

/-- What a store can have against a batch.  A key that is named twice meets its own lock. -/
inductive Store.ObjectsTo [BEq V] (s : Store V) (batch : List (Command V)) : Fault → Prop where
  | empty (h : batch = []) : s.ObjectsTo batch .emptyBatch
  | structure (h : s.structureLock ≠ .free) : s.ObjectsTo batch .globallyLocked
  | key {c : Command V} (hc : c ∈ batch)
    (h : s.lockAt c.key ≠ .free ∨ ¬ (batch.map Command.key).Nodup) :
    s.ObjectsTo batch (.keyLocked c.key)
  | condition {c : Command V} (hc : c ∈ batch) (hi : c.isConditional = true)
    (h : ¬ Satisfied s.cells c) : s.ObjectsTo batch (.conditionFailed c.key)

section
variable [BEq V] {f : Fault}

namespace Store

variable {s : Store V}

/-- A write is refused for the lock of its own key. -/
theorem write_keyLocked {j k : Key} {v : V} {e : Option V}
    (h : (s.write j v e).reply = .error (.keyLocked k)) : j = k := by
  rw [write_reply] at h
  grind

omit [BEq V] in
theorem snapshot_keyLocked {walk : List Key} {k : Key}
    (h : (s.snapshot walk).reply = .error (.keyLocked k)) :
    ∃ c, s.cells.get? k = some c ∧ c.temporary = false := by
  rcases s.snapshot_cases walk with ⟨-, he⟩ | ⟨-, k, hk, he⟩ | ⟨-, -, he⟩ <;> rw [he] at h <;>
    cases h
  obtain ⟨c, hc, ht, -⟩ := mem_unreadable.1 hk
  exact ⟨c, hc, ht⟩

/-- The key that an operation is refused for is its own, or that of a row to copy. -/
theorem call_keyLocked {c : Call V} {k : Key} (h : (s.call c).reply = .error (.keyLocked k)) :
    c.locks? = some k ∨ (∃ walk, c = .snapshot walk) ∧ ∃ cell, s.cells.get? k = some cell ∧
      cell.temporary = false := by
  cases c with
  | get j =>
    have hr := map_eq_error h
    rw [get_reply] at hr
    exact .inl (congrArg some (by grind))
  | set j v => exact .inl (congrArg some (write_keyLocked (map_eq_error h)))
  | setCond j v e => exact .inl (congrArg some (write_keyLocked (map_eq_error h)))
  | setWithDelay j v d => exact .inl (congrArg some (write_keyLocked (map_eq_error h)))
  | del j =>
    have hr := map_eq_error h
    rw [del_reply] at hr
    exact .inl (congrArg some (by grind))
  | len =>
    have hr := map_eq_error h
    unfold len at hr
    split at hr <;> cases hr
  | isEmpty =>
    have hr := map_eq_error h
    unfold isEmpty at hr
    split at hr <;> cases hr
  | contains j =>
    have hr := map_eq_error h
    rw [contains_reply] at hr
    split at hr <;> cases hr
  | snapshot walk => exact .inr ⟨⟨walk, rfl⟩, snapshot_keyLocked (map_eq_error h)⟩
  | text => cases h
  | timeout => cases h

/-- Whatever an operation is refused for is so. -/
theorem call_objects {c : Call V} (h : (s.call c).reply = .error f) : s.Objects c f := by
  obtain (⟨rfl, hs⟩ | ⟨k, rfl, hl⟩) | ⟨k, v, e, rfl, rfl, hm⟩ := call_refused h
  · exact .structure hs
  · rcases call_keyLocked h with hk | ⟨⟨walk, rfl⟩, cell, hc, ht⟩
    · exact .key hk hl
    · exact .row hc ht hl
  · exact .condition hm

/-- Only a conditional command can be unsatisfied. -/
theorem isConditional_of_not_satisfied {cells : Table (Cell V)} {c : Command V}
    (h : ¬ Satisfied cells c) : c.isConditional = true := by
  unfold Satisfied at h
  cases he : c.expected? with
  | none => rw [he] at h; exact absurd rfl h
  | some e => rw [Command.isConditional, he]; rfl

theorem acquire_objects {who : Holder} {batch : List (Command V)}
    (h : (s.acquire who batch).reply = .error f) : s.ObjectsTo batch f := by
  obtain ⟨hb, rfl⟩ | ⟨hl, rfl⟩ | ⟨done, c, rest, e, rfl, -, he, rfl⟩ := (acquire_error h).2
  · exact .empty hb
  · exact .structure hl
  · have hc : c ∈ done ++ c :: rest := List.mem_append_right _ List.mem_cons_self
    cases he with
    | locked hl =>
      refine .key hc (hl.symm.imp_right fun hd hn => ?_)
      exact Command.key_not_mem_of_nodup hn List.mem_cons_self hd
    | unsatisfied _ _ hs => exact .condition hc (isConditional_of_not_satisfied hs) hs

end Store

namespace Baseline

variable {b : Baseline V} {c : Call V}

/-- What reads needs to be let in. -/
theorem look_refused {α : Type} {a : α}
    (h : (if b.lock.admitsReader then b.accept a else b.refuse .shared).reply = .error f) :
    (if b.lock.admitsReader then b.accept a else b.refuse .shared).state = b ∧ b.Objects c f := by
  by_cases hl : b.lock.admitsReader = true
  · rw [if_pos hl] at h
    cases h
  · rw [if_neg hl] at h ⊢
    cases h
    exact ⟨rfl, .locked fun he => hl (by rw [he]; rfl)⟩

/-- What writes without a condition needs the lock for itself. -/
theorem write_refused {b' : Baseline V}
    (h : (if b.lock.isFree then b'.accept () else b.refuse .exclusive).reply = .error f) :
    (if b.lock.isFree then b'.accept () else b.refuse .exclusive).state = b ∧ b.Objects c f := by
  by_cases hl : b.lock.isFree = true
  · rw [if_pos hl] at h
    cases h
  · rw [if_neg hl] at h ⊢
    cases h
    exact ⟨rfl, .locked fun he => hl (Lock.isFree_iff.2 he)⟩

theorem setCond_refused {k : Key} {v e : V} (h : (b.setCond k v e).reply = .error f) :
    (b.setCond k v e).state = b ∧ b.Objects (.setCond k v e) f := by
  unfold setCond at h ⊢
  by_cases hl : b.lock.isFree = true
  · rw [if_pos hl] at h ⊢
    cases hp : b.entries.get? k with
    | none => rw [hp] at h; cases h
    | some p =>
      rw [hp] at h
      dsimp only at h ⊢
      by_cases hpe : (p == e) = true
      · rw [if_pos hpe] at h
        cases h
      · rw [if_neg hpe] at h ⊢
        cases h
        exact ⟨rfl, .condition hp (Bool.eq_false_iff.2 hpe)⟩
  · rw [if_neg hl] at h ⊢
    cases h
    exact ⟨rfl, .locked fun he => hl (Lock.isFree_iff.2 he)⟩

theorem call_refused {a : Answer (Baseline V) (Except Fault (Reply V))} (ha : b.call? c = some a)
    (h : a.reply = .error f) : a.state = b ∧ b.Objects c f := by
  cases c with
  | contains k => cases ha
  | setCond k v e => cases ha; exact setCond_refused (map_eq_error h)
  | get k => cases ha; exact look_refused (map_eq_error h)
  | len => cases ha; exact look_refused (map_eq_error h)
  | isEmpty => cases ha; exact look_refused (map_eq_error h)
  | snapshot walk => cases ha; exact look_refused (map_eq_error h)
  | text => cases ha; cases h
  | timeout => cases ha; cases h
  | _ => cases ha; exact write_refused (map_eq_error h)

end Baseline

theorem Backend.call_refused {b : Backend V} {c : Call V}
    {a : Answer (Backend V) (Except Fault (Reply V))} (ha : b.call? c = some a)
    (h : a.reply = .error f) : a.state = b ∧ b.Objects c f := by
  cases b with
  | store s =>
    cases ha
    exact ⟨congrArg Backend.store (Store.call_error h), Store.call_objects h⟩
  | baseline b =>
    obtain ⟨a', ha', rfl⟩ := Option.map_eq_some_iff.1 ha
    obtain ⟨hs, ho⟩ := Baseline.call_refused ha' h
    exact ⟨congrArg Backend.baseline hs, ho⟩

end

/-! ## Sessions -/

namespace Session

/-- Nothing has become of the stores, of the baselines and of the live lock sets. -/
structure Intact (s s' : Session V) : Prop where
  backends : s'.backends = s.backends
  locks : s'.locks = s.locks

variable [BEq V] {s : Session V} {i : Nat} {f : Fault}

theorem call_refused_intact {c : Call V} (h : (s.call i c).reply = .refused f) :
    s.Intact (s.call i c).state ∧ ∃ b, s.backends[i]? = some b ∧ b.Objects c f := by
  cases hb : s.backends[i]? with
  | none =>
    have hn : (s.note c.key?.toList).backends[i]? = none := hb
    simp only [call, hn] at h
    cases h
  | some b =>
    have hn : (s.note c.key?.toList).backends[i]? = some b := hb
    cases ha : b.call? c with
    | none =>
      simp only [call, hn, Option.bind_eq_bind, Option.bind_some, ha] at h
      cases h
    | some a =>
      simp only [call, hn, Option.bind_eq_bind, Option.bind_some, ha] at h ⊢
      cases hr : a.reply with
      | ok r => rw [hr] at h; cases h
      | error f' =>
        rw [hr] at h
        cases h
        obtain ⟨hs, ho⟩ := Backend.call_refused ha hr
        rw [hs]
        exact ⟨⟨setBackend_self hn, rfl⟩, b, rfl, ho⟩

theorem acquire_refused_intact {who : Holder} {batch : List (Command V)}
    {a : Answer (Session V) (Except Fault LockSet)} (ha : s.acquire who i batch = some a)
    (h : a.reply = .error f) :
    s.Intact a.state ∧ ∃ st, s.store? i = some st ∧ st.ObjectsTo batch f := by
  cases hi : s.store? i with
  | none => rw [acquire_of_no_store hi] at ha; cases ha
  | some st =>
    cases hr : (st.acquire who batch).reply with
    | ok locks => rw [acquire_ok hi hr] at ha; cases ha; cases h
    | error f' =>
      rw [acquire_error hi hr] at ha
      cases ha
      cases h
      rw [(Store.acquire_error hr).1]
      exact ⟨⟨setBackend_self (store?_eq_some.1 hi), rfl⟩, st, rfl, Store.acquire_objects hr⟩

theorem acquireAs_refused_intact {who : Holder} {batch : List (Command V)}
    (h : (s.acquireAs who i (.ok batch)).reply = .refused f) :
    s.Intact (s.acquireAs who i (.ok batch)).state ∧
      ∃ st, s.store? i = some st ∧ st.ObjectsTo batch f := by
  unfold acquireAs at h ⊢
  by_cases hn : (s.lockSet? who).isSome = true
  · rw [if_pos hn] at h
    cases h
  · rw [if_neg hn] at h ⊢
    dsimp only at h ⊢
    cases ha : (s.noteBatch batch).acquire who i batch with
    | none => rw [ha] at h; cases h
    | some a =>
      rw [ha] at h
      dsimp only at h ⊢
      cases hr : a.reply with
      | ok locks => rw [hr] at h; cases h
      | error f' =>
        rw [hr] at h
        cases h
        obtain ⟨hs, ho⟩ := acquire_refused_intact ha hr
        exact ⟨⟨hs.backends, hs.locks⟩, ho⟩

omit [BEq V] in
/-- A batch that is held is not refused any more, however it is decided. -/
theorem decide_ne_refused (batch : List (Command V)) (locks : LockSet) (durable : Option Bool) :
    (s.decide i batch locks durable).reply ≠ .refused f := by
  intro h
  cases durable with
  | none => cases h
  | some b =>
    simp only [decide] at h
    cases hr : s.resolve (if b then .commit else .abort) i batch locks with
    | none => rw [hr] at h; cases h
    | some a =>
      rw [hr] at h
      dsimp only at h
      cases ha : a.reply <;> rw [ha] at h <;> cases h

/-- A batch that is refused is refused before its nested steps run. -/
theorem apply_refused_intact {depth : Nat} {batch : List (Command V)} {durable : Option Bool}
    {during : List (Step V)}
    (h : (runStep depth (.apply i (.ok batch) durable during) s).1.outcome = .refused f) :
    (runStep depth (.apply i (.ok batch) durable during) s).1.nested = none ∧
      s.Intact (runStep depth (.apply i (.ok batch) durable during) s).2 ∧
      ∃ st, s.store? i = some st ∧ st.ObjectsTo batch f := by
  rw [runStep] at h ⊢
  cases ha : (s.noteBatch batch).acquire (.nested depth) i batch with
  | none => simp only [ha] at h; cases h
  | some a =>
    obtain ⟨r, events, t⟩ := a
    cases r with
    | ok locks =>
      simp only [ha] at h
      exact absurd h (decide_ne_refused batch locks durable)
    | error f' =>
      simp only [ha] at h ⊢
      cases h
      obtain ⟨hs, ho⟩ := acquire_refused_intact ha rfl
      exact ⟨rfl, ⟨hs.backends, hs.locks⟩, ho⟩

/-- Whatever is refused leaves every store, every baseline and every live lock set as it was, and it
is refused for something that the operation can be refused for.  A batch that is refused has not
been asked whether it is durable.  The operations that answer at once are those that take their
guards one by one and give them back on each way out. -/
theorem refused_intact (s : Session V) (i : Nat) :
    (∀ c f, (s.call i c).reply = .refused f →
      s.Intact (s.call i c).state ∧ ∃ b, s.backends[i]? = some b ∧ b.Objects c f) ∧
    (∀ who batch f, (s.acquireAs who i (.ok batch)).reply = .refused f →
      s.Intact (s.acquireAs who i (.ok batch)).state ∧
        ∃ st, s.store? i = some st ∧ st.ObjectsTo batch f) ∧
    (∀ depth batch durable during f,
      (runStep depth (.apply i (.ok batch) durable during) s).1.outcome = .refused f →
      (runStep depth (.apply i (.ok batch) durable during) s).1.nested = none ∧
        s.Intact (runStep depth (.apply i (.ok batch) durable during) s).2 ∧
        ∃ st, s.store? i = some st ∧ st.ObjectsTo batch f) ∧
    (∀ st, s.backends[i]? = some (.store st) → ∀ who,
      (∀ c, st.guardedCall who c = st.call c) ∧
        ∀ batch, st.guardedAcquire who batch = st.acquire who batch) ∧
    ∀ b, s.backends[i]? = some (.baseline b) → ∀ who c, b.guardedCall? who c = b.call? c :=
  ⟨fun _ _ => call_refused_intact, fun _ _ _ => acquireAs_refused_intact,
    fun _ _ _ _ _ => apply_refused_intact,
    fun st _ who => ⟨fun c => st.guardedCall_eq who c, fun batch => st.guardedAcquire_eq who batch⟩,
    fun b _ who c => b.guardedCall?_eq who c⟩

/-- While a lock set holds "a" and someone reads the structure, the store refuses, and its orphan
stays where it is. -/
theorem refused_intact_held :
    let st : Store Nat := ⟨1, .ofMillis 5, .shared (.named "z") [], .ofList [
      ("a", ⟨some 7, false, .exclusive (.named "x")⟩), ("o", .placeholder)]⟩
    let s : Session Nat := ⟨[.store st], [⟨1, .named "x", .ofList [("a", ())]⟩], .empty⟩
    let batch : List (Command Nat) := [.set "b" 2 none, .get "a"]
    (s.call 0 (.get "a")).reply = .refused (.keyLocked "a") ∧
      s.Intact (s.call 0 (.get "a")).state ∧
    (s.call 0 (.set "b" 2)).reply = .refused .globallyLocked ∧
      s.Intact (s.call 0 (.set "b" 2)).state ∧
    (s.acquireAs (.named "y") 0 (.ok batch)).reply = .refused .globallyLocked ∧
      s.Intact (s.acquireAs (.named "y") 0 (.ok batch)).state ∧
    (runStep 0 (.apply 0 (.ok batch) (some true) []) s).1.outcome = .refused .globallyLocked ∧
      s.Intact (runStep 0 (.apply 0 (.ok batch) (some true) []) s).2 := by
  intro st s batch
  obtain ⟨hcall, hacquire, happly, -⟩ := refused_intact s 0
  exact ⟨rfl, (hcall (.get "a") _ rfl).1, rfl, (hcall (.set "b" 2) _ rfl).1,
    rfl, (hacquire (.named "y") batch _ rfl).1, rfl, (happly 0 batch _ [] _ rfl).2.1⟩

end Session

end TwoPhaseStore
