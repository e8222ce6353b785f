import TwoPhaseStore.Session.Script

/-!
The stores of a session.  `s.store? i` is the store of number `i`, if that one has a lock per key;
baselines do not count.  The lemmas say what each part of a session does to the stores, and that
what is done on a store is what that store does.
-/

namespace TwoPhaseStore

variable {V : Type}

def Backend.store? : Backend V → Option (Store V)
  | .store s => some s
  | .baseline _ => none

namespace Session

/-- The store of a number, if that is one with a lock per key. -/
def store? (i : Nat) (s : Session V) : Option (Store V) := s.backends[i]?.bind Backend.store?

section
variable {i : Nat} {s : Session V} {st : Store V}

theorem store?_eq_some : s.store? i = some st ↔ s.backends[i]? = some (.store st) := by
  unfold store?
  rw [Option.bind_eq_some_iff]
  constructor
  · rintro ⟨b, hb, hs⟩
    cases b with
    | store s' => rw [hb, show s' = st from Option.some.inj hs]
    | baseline b' => cases hs
  · exact fun h => ⟨_, h, rfl⟩

/-- Where there is no such store there may be a baseline. -/
theorem backend_of_store?_eq_none (h : s.store? i = none) :
    s.backends[i]? = none ∨ ∃ b, s.backends[i]? = some (.baseline b) := by
  cases hb : s.backends[i]? with
  | none => exact .inl rfl
  | some b =>
    cases b with
    | store st => rw [store?_eq_some.2 hb] at h; cases h
    | baseline b => exact .inr ⟨b, rfl⟩

/-! ## Stores after a change -/

theorem store?_setBackend {b : Backend V} (h : s.backends[i]? = some b) (b' : Backend V)
    (j : Nat) : (s.setBackend i b').store? j = if j = i then b'.store? else s.store? j := by
  obtain ⟨hi, -⟩ := List.getElem?_eq_some_iff.1 h
  unfold store? setBackend
  rw [List.getElem?_set]
  by_cases hj : j = i
  · subst hj; simp [hi]
  · rw [if_neg hj, if_neg fun he => hj he.symm]

theorem setBackend_self {b : Backend V} (h : s.backends[i]? = some b) :
    (s.setBackend i b).backends = s.backends := by
  obtain ⟨hi, rfl⟩ := List.getElem?_eq_some_iff.1 h
  exact List.set_getElem_self hi

theorem store?_setStore (h : s.store? i = some st) (st' : Store V) (j : Nat) :
    (s.setBackend i (.store st')).store? j = if j = i then some st' else s.store? j :=
  store?_setBackend (store?_eq_some.1 h) _ j

/-- A baseline put where no such store is changes no store. -/
theorem store?_setBaseline (h : s.store? i = none) (b : Baseline V) (j : Nat) :
    (s.setBackend i (.baseline b)).store? j = s.store? j := by
  cases hb : s.backends[i]? with
  | none =>
    have hs : s.backends.set i (.baseline b) = s.backends :=
      List.set_eq_of_length_le (List.getElem?_eq_none_iff.1 hb)
    rw [setBackend, hs]
  | some b' =>
    rw [store?_setBackend hb]
    split
    · next hj => rw [hj, h]; rfl
    · rfl

@[simp] theorem store?_note (keys : List Key) : (s.note keys).store? i = s.store? i := rfl

@[simp] theorem store?_noteBatch (batch : List (Command V)) :
    (s.noteBatch batch).store? i = s.store? i := rfl

@[simp] theorem store?_retire (locks : LockSet) : (s.retire locks).store? i = s.store? i := rfl

@[simp] theorem store?_forget (locks : LockSet) :
    (s.forget locks).store? i = (s.store? i).map (·.forget locks) := by
  unfold store? forget
  rw [List.getElem?_map]
  cases s.backends[i]? with
  | none => rfl
  | some b => cases b <;> rfl

theorem store?_letGo (who : Holder) (mode : HoldMode) (j : Nat) : (s.letGo who i mode).store? j =
    if j = i then (s.store? j).map (·.letGo who mode) else s.store? j := by
  unfold store? letGo
  rw [List.getElem?_modify]
  by_cases hj : i = j
  · subst hj
    rw [if_pos rfl]
    cases s.backends[i]? with
    | none => simp
    | some b => cases b <;> simp [Backend.store?, Backend.letGo]
  · rw [if_neg fun he => hj he.symm]
    cases s.backends[j]? <;> simp [hj]

/-! ## Live lock sets -/

theorem mem_of_lockSet? {who : Holder} {locks : LockSet} (h : s.lockSet? who = some locks) :
    locks ∈ s.locks ∧ locks.holder = who :=
  ⟨List.mem_of_find?_eq_some h, by simpa using List.find?_some h⟩

theorem lockSet?_eq_none {who : Holder} :
    s.lockSet? who = none ↔ ∀ locks ∈ s.locks, locks.holder ≠ who := by
  simp [lockSet?, List.find?_eq_none]

/-! ## What is done on a store -/

theorem resolve_of_no_store (h : s.store? i = none) (r : Resolution) (batch : List (Command V))
    (locks : LockSet) : s.resolve r i batch locks = none := by
  rcases backend_of_store?_eq_none h with hb | ⟨b, hb⟩ <;> simp only [resolve, hb]

theorem resolve_of_store (h : s.store? i = some st) (r : Resolution) (batch : List (Command V))
    (locks : LockSet) : s.resolve r i batch locks =
      let a := r.run batch locks st
      let s := (s.retire locks).setBackend i (.store a.state)
      some ⟨a.reply, a.events, if locks.issuer = st.id then s else s.forget locks⟩ := by
  simp only [resolve, store?_eq_some.1 h]

theorem hold?_of_store (h : s.store? i = some st) (who : Holder) (mode : HoldMode) :
    s.hold? who i mode = some ((st.hold? who mode).map
      (·.map fun st => s.setBackend i (.store st))) := by
  rw [hold?, store?_eq_some.1 h, Option.map_some, Backend.hold?]
  cases st.hold? who mode with
  | error f => rfl
  | ok t => cases t <;> rfl

theorem hold?_of_no_store (h : s.store? i = none) (who : Holder) (mode : HoldMode) :
    s.hold? who i mode = none ∨ ∃ b : Baseline V, s.hold? who i mode =
      some ((b.hold? who mode).map (·.map fun b => s.setBackend i (.baseline b))) := by
  rcases backend_of_store?_eq_none h with hb | ⟨b, hb⟩
  · exact .inl (by rw [hold?, hb]; rfl)
  · refine .inr ⟨b, ?_⟩
    rw [hold?, hb, Option.map_some, Backend.hold?]
    cases b.hold? who mode with
    | error f => rfl
    | ok t => cases t <;> rfl

variable [BEq V]

theorem call_of_no_store (h : s.store? i = none) (c : Call V) :
    (s.call i c).state = s.note c.key?.toList ∨
      ∃ b, (s.call i c).state = (s.note c.key?.toList).setBackend i (.baseline b) := by
  rcases backend_of_store?_eq_none (s := s.note c.key?.toList) h with hb | ⟨b, hb⟩
  · exact .inl (by simp only [call, hb]; rfl)
  · cases ha : b.call? c with
    | none =>
      refine .inl ?_
      simp only [call, hb, Option.bind_eq_bind, Option.bind_some, Backend.call?, ha]
      rfl
    | some a =>
      refine .inr ⟨a.state, ?_⟩
      simp only [call, hb, Option.bind_eq_bind, Option.bind_some, Backend.call?, ha]
      rfl

theorem call_of_store (h : s.store? i = some st) (c : Call V) : s.call i c =
    ⟨.ofReply (st.call c).reply, (st.call c).events,
      (s.note c.key?.toList).setBackend i (.store (st.call c).state)⟩ := by
  have hb : (s.note c.key?.toList).backends[i]? = some (.store st) := store?_eq_some.1 h
  simp only [call, hb]
  rfl

theorem acquire_of_no_store (h : s.store? i = none) (who : Holder) (batch : List (Command V)) :
    s.acquire who i batch = none := by
  rcases backend_of_store?_eq_none h with hb | ⟨b, hb⟩ <;> simp only [acquire, hb]

theorem acquire_error {who : Holder} {batch : List (Command V)} {f : Fault}
    (h : s.store? i = some st) (hr : (st.acquire who batch).reply = .error f) :
    s.acquire who i batch = some ⟨.error f, (st.acquire who batch).events,
      s.setBackend i (.store (st.acquire who batch).state)⟩ := by
  simp only [acquire, store?_eq_some.1 h, hr]

theorem acquire_ok {who : Holder} {batch : List (Command V)} {locks : LockSet}
    (h : s.store? i = some st) (hr : (st.acquire who batch).reply = .ok locks) :
    s.acquire who i batch = some ⟨.ok locks, (st.acquire who batch).events,
      { s.setBackend i (.store (st.acquire who batch).state) with locks := locks :: s.locks }⟩ := by
  simp only [acquire, store?_eq_some.1 h, hr]
  rfl

end

end Session

end TwoPhaseStore
