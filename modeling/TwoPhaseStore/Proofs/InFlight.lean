import TwoPhaseStore.Proofs.Ownership
import TwoPhaseStore.Proofs.Traffic

/-!
Operations in flight take effect at one instant.  Nobody unlinks a cell that somebody else has the
lock of, or changes more of it than the lock (`World.Effect.slot_of_hold`).  So in every reachable
state the guard of each operation in flight is on the cell that is linked under its key, and that
cell is as it was in the first half:

    t.Linked f c → (∀ u ∈ us, u ≠ .finish f.who) →
      (t.after us).Linked f { c with lock := l }                       (Orderly.after_keeps)

and the second half does what the whole operation does at that moment (`second_half_atomic`).
-/

namespace TwoPhaseStore

variable {V : Type}

/-! ## Cells that somebody holds -/

namespace World

/-- The cell of a hold is changed by no move but in its lock. -/
theorem Effect.slot_of_hold [BEq V] {w w' : World V} {m : Move V} {o : Outcome V}
    (he : w.Effect m o w') (hw : w.Owned) {h : Hold} (hm : h ∈ w.holds) {k : Key}
    (hk : h.mode.key? = some k) {c : Cell V} (hc : w.slot h.store k = some c) :
    ∃ l, w'.slot h.store k = some { c with lock := l } := by
  obtain ⟨st, hi, hg⟩ := Option.bind_eq_some_iff.1 hc
  obtain ⟨st', hi', -⟩ := he.store_after hi
  rw [slot_of_store hi']
  -- the key is locked, so operations and acquire phases leave its cell; it is in no lock set, so
  -- resolutions and drops do as well; and holds are about locks only
  have hl : st.lockAt k ≠ .free := by
    intro hf
    have hx := hw.grants_hold hm hk hi
    rw [hf] at hx
    exact Lock.not_grants_free _ _ hx
  have hn : ∀ {locks : LockSet}, locks ∈ w.locks → locks.issuer = st.id →
      ¬ locks.keys.contains k = true := hw.not_contains_of_hold hm hk hi
  have hkeep : st'.cells.get? k = st.cells.get? k →
      ∃ l, st'.cells.get? k = some { c with lock := l } := fun heq => ⟨c.lock, heq.trans hg⟩
  have hrelock : ∀ target f, st' = st.relock target f →
      ∃ l, st'.cells.get? k = some { c with lock := l } := by
    rintro target f rfl
    rw [Store.get?_relock, hg]
    split
    · exact ⟨f c.lock, rfl⟩
    · exact ⟨c.lock, rfl⟩
  cases he with
  | idle _ hs =>
    rw [hs.stores, hi] at hi'
    exact hkeep (by rw [Option.some.inj hi'])
  | called s hj hc =>
    obtain rfl | ⟨rfl, rfl⟩ := hc.store_eq hj hi hi'
    · exact hkeep rfl
    · exact hkeep (Store.call_slot_of_locked _ hl)
  | acquired s locks _ hj _ hc =>
    obtain rfl | ⟨rfl, rfl⟩ := hc.store_eq hj hi hi'
    · exact hkeep rfl
    · exact hkeep (Store.acquire_slot_of_locked _ _ hl)
  | resolved s locks hm' hj hu hc =>
    obtain rfl | ⟨rfl, rfl⟩ := hc.store_eq hj hi hi'
    · exact hkeep rfl
    · obtain ⟨done, rest, hr⟩ := hw.exists_resolves hj hm' hu _ _
      exact hkeep (hr.slot_of_not_mem (hn hm' hu))
  | forgotten locks hm' hf =>
    rw [hf, hi] at hi'
    obtain rfl := Option.some.inj hi'
    exact hkeep (Store.forget_slot_of_not_mem (hn hm'))
  | held s s' _ hj hr hc =>
    obtain rfl | ⟨rfl, rfl⟩ := hc.store_eq hj hi hi'
    · exact hkeep rfl
    · obtain ⟨-, l, -, hs'⟩ := Store.hold?_ok hr
      exact hrelock _ _ hs'
  | heldBaseline _ _ hc =>
    rw [hc, hi] at hi'
    exact hkeep (by rw [Option.some.inj hi'])
  | letGo h' hm' hc =>
    rw [hc, hi] at hi'
    split at hi'
    · exact hrelock _ _ ((Option.some.inj hi').symm.trans (Store.letGo_eq _ _ _))
    · exact hkeep (by rw [Option.some.inj hi'])

end World

/-! ## Places of guards -/

namespace Traffic

/-- The cell of an operation in flight is the one that is linked under its key. -/
def Linked (t : Traffic V) (f : Flight V) (c : Cell V) : Prop :=
  f.place = (t.gone f.store f.key).length ∧ t.world.slot f.store f.key = some c

/-- Every guard is on the cell that is linked under its key, and that is a committed one. -/
structure Orderly (t : Traffic V) : Prop where
  owned : t.world.Owned
  sound : t.world.Sound
  linked : ∀ f ∈ t.flights, ∃ c, t.Linked f c ∧ c.temporary = false

/-- From one state to another the locks and marks stay in order, and the guards that stay keep their
cells, which change in nothing but the lock. -/
structure Keeps (t t' : Traffic V) : Prop where
  owned : t'.world.Owned
  sound : t'.world.Sound
  linked : ∀ f ∈ t.flights, f ∈ t'.flights → ∀ c, t.Linked f c →
    ∃ l, t'.Linked f { c with lock := l }

section
variable {t t' t'' : Traffic V} {f : Flight V} {c : Cell V}

theorem Linked.cell (h : t.Linked f c) : (t.cells f.store f.key)[f.place]? = some c := by
  rw [cells, h.1, h.2]
  simp

/-- A guard that is on the linked cell leads to its store. -/
theorem Linked.put_eq (h : t.Linked f c) {st : Store V} (hi : t.world.store? f.store = some st)
    (d : Cell V) : t.put f.store f.key f.place d = { t with
      session := t.session.setBackend f.store (.store { st with
        cells := st.cells.insert f.key d }) } := by
  have hp : ¬ f.place < (t.gone f.store f.key).length := by
    have hl := h.1
    omega
  have hi' : t.session.store? f.store = some st := hi
  rw [put, if_neg hp, Session.putCell, hi']

theorem Keeps.trans (h : t.Keeps t') (h' : t'.Keeps t'')
    (hf : ∀ f ∈ t''.flights, f ∈ t'.flights) : t.Keeps t'' := by
  refine ⟨h'.owned, h'.sound, fun f hm hm'' c hc => ?_⟩
  obtain ⟨l, hl⟩ := h.linked f hm (hf f hm'') c hc
  obtain ⟨l', hl'⟩ := h'.linked f (hf f hm'') hm'' _ hl
  exact ⟨l', hl'⟩

/-- What one move of the world does to the guards. -/
theorem keeps_of_effect [BEq V] {m : Move V} {o : Outcome V}
    (he : t.world.Effect m o t'.world) (hw : t.world.Owned) (hs : t.world.Sound)
    (hg : ∀ i k c, t'.world.slot i k = some c → t'.gone i k = t.gone i k) : t.Keeps t' := by
  refine ⟨hw.step_owned he, hw.sound_step he hs, fun f hf _ c hc => ?_⟩
  have hm : f.hold ∈ t.world.holds := List.mem_map_of_mem hf
  obtain ⟨l, hl⟩ := he.slot_of_hold hw hm (Task.key?_mode _ _) hc.2
  exact ⟨l, hc.1.trans (congrArg List.length (hg _ _ _ hl).symm), hl⟩

section
variable (h : t.Orderly)

include h

theorem Orderly.keeps_self : t.Keeps t :=
  ⟨h.owned, h.sound, fun _ _ _ c hc => ⟨c.lock, hc⟩⟩

/-- A party is in one operation at most. -/
theorem Orderly.eq_of_who {g : Flight V} (hf : f ∈ t.flights) (hg : g ∈ t.flights)
    (he : g.who = f.who) : g = f := by
  have hn : (t.world.holds.map (·.who)).Nodup := (List.nodup_append.1 h.owned.parties).2.1
  rw [world, List.map_map] at hn
  exact List.inj_on_of_nodup_map hn hg hf he

theorem Orderly.find?_eq (hf : f ∈ t.flights) :
    t.flights.find? (·.who = f.who) = some f := by
  cases hx : t.flights.find? (·.who = f.who) with
  | none => exact absurd (List.find?_eq_none.1 hx f hf) (by simp)
  | some g =>
    have hg : g.who = f.who := by simpa using List.find?_some hx
    exact congrArg some (h.eq_of_who hf (List.mem_of_find?_eq_some hx) hg)

/-- The structure is free, because all that is held is held on keys. -/
theorem Orderly.structure_free {i : Nat} {st : Store V} (hi : t.world.store? i = some st) :
    st.structureLock = .free := by
  refine (h.owned.held hi none).eq_free fun mode who hg => ?_
  rcases hg with ⟨locks, -, -, ⟨k, hk, -⟩, -⟩ | ⟨hold, hm, -, hk, -⟩
  · cases hk
  · obtain ⟨f, -, rfl⟩ := List.mem_map.1 hm
    have hk' : (f.task.mode f.key).key? = none := hk
    rw [Task.key?_mode] at hk'
    cases hk'

/-- The guard of an operation in flight is a lock of its cell. -/
theorem Orderly.grants (hf : f ∈ t.flights) (hc : t.Linked f c) :
    c.lock.Grants (f.task.mode f.key).mode f.who := by
  obtain ⟨st, hi, hg⟩ := Option.bind_eq_some_iff.1 hc.2
  have hm : f.hold ∈ t.world.holds := List.mem_map_of_mem hf
  have hl := h.owned.grants_hold hm (Task.key?_mode _ _) hi
  rwa [Store.lockAt, hg] at hl

end

end

section
variable [BEq V] {t t' : Traffic V} {f : Flight V} {c : Cell V}

/-! ### Whole moves -/

theorem whole_world (t : Traffic V) {m : Move V} (hm : m.isWhole = true) :
    (t.whole m).state.world = (t.world.step m).state := by
  have hh : (t.world.step m).state.holds = t.world.holds := by
    cases m with
    | acquire who i batch =>
      rw [World.step]
      split <;> rfl
    | hold who i mode => cases hm
    | letGo who => cases hm
    | _ => rfl
  show (⟨_, t.world.holds⟩ : World V) = _
  rw [← hh]
  rfl

theorem Orderly.keeps_whole (h : t.Orderly) {m : Move V} (hm : m.isWhole = true) :
    t.Keeps (t.whole m).state := by
  have he := t.world.step_effect m
  rw [← t.whole_world hm] at he
  refine keeps_of_effect he h.owned h.sound fun i k c hc => ?_
  rw [t.whole_world hm] at hc
  show t.gone i k ++ Slot.unlinked _ ((t.world.step m).state.slot i k) = _
  rw [hc, Slot.unlinked, Option.isNone_some, if_neg Bool.false_ne_true, List.append_nil]

/-! ### First halves -/

theorem start_cases (who : Holder) (i : Nat) (k : Key) (task : Task V) (t : Traffic V) :
    t.start who i k task = ⟨some .nameInUse, [], t⟩ ∨
    t.start who i k task = t.whole (.call i (task.call k)) ∨
    ∃ st st', who ∉ t.world.parties ∧ t.world.store? i = some st ∧
      task.start? who k st = some st' ∧
      t.start who i k task = ⟨none, [], { t with
        session := t.session.setBackend i (.store st')
        flights := ⟨who, i, k, (t.gone i k).length, task⟩ :: t.flights }⟩ := by
  unfold start
  split
  · exact .inl rfl
  · next hw =>
    refine .inr ?_
    split
    · next st' hs =>
      obtain ⟨st, hi, hs⟩ := Option.bind_eq_some_iff.1 hs
      exact .inr ⟨st, st', hw, hi, hs, rfl⟩
    · exact .inl rfl

section
variable {who : Holder} {i : Nat} {k : Key} {task : Task V} {st st' : Store V}
  (hi : t.world.store? i = some st) (hs : task.start? who k st = some st')
  (ht : t' = { t with
    session := t.session.setBackend i (.store st')
    flights := ⟨who, i, k, (t.gone i k).length, task⟩ :: t.flights })

include hi hs ht

omit [BEq V] in
/-- A first half leaves the cell that it finds, with its lock. -/
theorem linked_start : ∃ c l, t.world.slot i k = some c ∧ c.temporary = false ∧
    t'.Linked ⟨who, i, k, (t.gone i k).length, task⟩ { c with lock := l } := by
  obtain ⟨c, l, hc, htemp, rfl⟩ := Task.start?_eq_some hs
  have hi' : t'.world.store? i = some (st.relock (some k) fun _ => l) := by
    subst ht
    exact (Session.store?_setStore hi _ i).trans (if_pos rfl)
  refine ⟨c, l, (World.slot_of_store hi k).trans hc, htemp, by rw [ht], ?_⟩
  rw [World.slot_of_store hi', Store.get?_relock, if_pos rfl, hc]
  rfl

theorem Orderly.keeps_start (h : t.Orderly) (hw : who ∉ t.world.parties) : t.Keeps t' := by
  subst ht
  have hr := Task.hold?_of_start? (h.sound i st hi) hs
  refine keeps_of_effect (.held st st' hw hi hr ?_ rfl rfl) h.owned h.sound fun _ _ _ _ => rfl
  exact Session.store?_setStore hi st'

end

/-! ### Second halves -/

/-- The operation lets go of its cell, and nothing else comes of it. -/
def letGo (f : Flight V) (t : Traffic V) : Traffic V :=
  { t with
    session := t.session.letGo f.who f.store (f.task.mode f.key)
    flights := t.flights.filter (·.who ≠ f.who) }

omit [BEq V] in
theorem store?_letGo (j : Nat) : (t.letGo f).world.store? j =
    if j = f.store then (t.world.store? j).map (·.letGo f.who (f.task.mode f.key))
    else t.world.store? j := Session.store?_letGo _ _ _

theorem Orderly.keeps_letGo (h : t.Orderly) (hf : f ∈ t.flights) : t.Keeps (t.letGo f) := by
  have hh : (t.letGo f).world.holds = t.world.holds.filter (·.who ≠ f.hold.who) := by
    show (t.flights.filter (·.who ≠ f.who)).map (·.hold) = (t.flights.map (·.hold)).filter _
    rw [List.filter_map]
    rfl
  have hm : f.hold ∈ t.world.holds := List.mem_map_of_mem hf
  exact keeps_of_effect (.letGo f.hold hm store?_letGo rfl hh) h.owned h.sound fun _ _ _ _ => rfl

section
variable (h : t.Orderly) (hf : f ∈ t.flights) (hc : t.Linked f c) {st : Store V}
  (hi : t.world.store? f.store = some st)

include h hf hc hi

theorem Orderly.finish_eq : t.finish f.who =
    ⟨some (.ofReply (f.task.finish f.who f.key c).reply), (f.task.finish f.who f.key c).events,
      { t with
        session := t.session.setBackend f.store (.store { st with
          cells := st.cells.insert f.key (f.task.finish f.who f.key c).state })
        flights := t.flights.filter (·.who ≠ f.who) }⟩ := by
  unfold finish
  simp only [h.find?_eq hf, hc.cell, hc.put_eq hi]

/-- The second half does what the whole operation does at once. -/
theorem Orderly.atOnce_eq (ht : c.temporary = false) : f.atOnce st =
    ⟨(f.task.finish f.who f.key c).reply, (f.task.finish f.who f.key c).events,
      { st with cells := st.cells.insert f.key (f.task.finish f.who f.key c).state }⟩ := by
  have hg : st.cells.get? f.key = some c := (World.slot_of_store hi _).symm.trans hc.2
  exact Task.call_letGo (h.structure_free hi) hg ht (h.grants hf hc)

/-- To everybody else a second half is a lock that is let go, and then the whole operation. -/
theorem Orderly.keeps_finish (ht : c.temporary = false) : t.Keeps (t.finish f.who).state := by
  have hi' : (t.letGo f).world.store? f.store = some (st.letGo f.who (f.task.mode f.key)) := by
    rw [store?_letGo, if_pos rfl, hi]
    rfl
  have hs : (t.letGo f).world.Changes (t.finish f.who).state.world f.store
      (f.atOnce st).state := by
    intro j
    rw [h.finish_eq hf hc hi, h.atOnce_eq hf hc hi ht, store?_letGo]
    refine (Session.store?_setStore hi _ j).trans ?_
    split <;> rfl
  have hfl : (t.finish f.who).state.flights = (t.letGo f).flights := by
    rw [h.finish_eq hf hc hi]
    rfl
  have hl := h.keeps_letGo hf
  refine hl.trans (keeps_of_effect (.called _ hi' hs ?_ ?_) hl.owned hl.sound ?_) ?_
  · rw [h.finish_eq hf hc hi]
    rfl
  · exact congrArg (List.map _) hfl
  · rw [h.finish_eq hf hc hi]
    exact fun _ _ _ _ => rfl
  · rw [hfl]
    exact fun _ hm => hm

end

/-! ### Any turn -/

theorem finish_cases (who : Holder) (h : t.Orderly) : (t.finish who).state = t ∨
    ∃ f ∈ t.flights, f.who = who ∧ ∃ c st, t.Linked f c ∧ c.temporary = false ∧
      t.world.store? f.store = some st := by
  cases hx : t.flights.find? (·.who = who) with
  | none => exact .inl (by rw [finish, hx])
  | some f =>
    have hm : f ∈ t.flights := List.mem_of_find?_eq_some hx
    obtain ⟨c, hc, ht⟩ := h.linked f hm
    obtain ⟨st, hi, -⟩ := Option.bind_eq_some_iff.1 hc.2
    exact .inr ⟨f, hm, by simpa using List.find?_some hx, c, st, hc, ht, hi⟩

/-- No turn moves a cell that has a guard, or changes more of it than its lock. -/
theorem Orderly.keeps (h : t.Orderly) (u : Turn V) : t.Keeps (t.step u).state := by
  cases u with
  | whole m hm => exact h.keeps_whole hm
  | start who i k task =>
    rw [step]
    -- the name is taken, or the operation runs as a whole, or it is in flight from here on
    rcases start_cases who i k task t with hs | hs | ⟨st, st', hw, hi, hs, ht⟩
    · rw [hs]
      exact h.keeps_self
    · rw [hs]
      exact h.keeps_whole (by cases task <;> rfl)
    · rw [ht]
      exact h.keeps_start hi hs rfl hw
  | finish who =>
    rw [step]
    rcases finish_cases who h with hs | ⟨f, hf, rfl, c, st, hc, ht, hi⟩
    · rw [hs]
      exact h.keeps_self
    · exact h.keeps_finish hf hc hi ht

/-- An operation in flight stays so until its second half. -/
theorem mem_flights_step (hf : f ∈ t.flights) {u : Turn V} (hu : u ≠ .finish f.who) :
    f ∈ (t.step u).state.flights := by
  cases u with
  | whole m hm => exact hf
  | start who i k task =>
    rw [step]
    rcases start_cases who i k task t with hs | hs | ⟨st, st', -, -, -, hs⟩ <;> rw [hs]
    · exact hf
    · exact hf
    · exact List.mem_cons_of_mem _ hf
  | finish who =>
    have hne : f.who ≠ who := fun he => hu (he ▸ rfl)
    rw [step, finish]
    split
    · exact hf
    · split
      · exact hf
      · exact List.mem_filter.2 ⟨hf, decide_eq_true hne⟩

/-- Only a first half puts an operation in flight. -/
theorem mem_flights_of_step {u : Turn V} (hf : f ∈ (t.step u).state.flights) :
    f ∈ t.flights ∨ ∃ c, (t.step u).state.Linked f c ∧ c.temporary = false := by
  cases u with
  | whole m hm => exact .inl hf
  | start who i k task =>
    rw [step] at hf ⊢
    rcases start_cases who i k task t with hs | hs | ⟨st, st', -, hi, hs, ht⟩
    · rw [hs] at hf
      exact .inl hf
    · rw [hs] at hf
      exact .inl hf
    · rw [ht] at hf ⊢
      rcases List.mem_cons.1 hf with rfl | hf
      · obtain ⟨c, l, -, htemp, hl⟩ := linked_start hi hs rfl
        exact .inr ⟨_, hl, htemp⟩
      · exact .inl hf
  | finish who =>
    refine .inl ?_
    rw [step, finish] at hf
    split at hf
    · exact hf
    · split at hf
      · exact hf
      · exact (List.mem_filter.1 hf).1

theorem Orderly.step (h : t.Orderly) (u : Turn V) : (t.step u).state.Orderly := by
  have hk := h.keeps u
  refine ⟨hk.owned, hk.sound, fun f hf => ?_⟩
  rcases mem_flights_of_step hf with hf' | hnew
  · obtain ⟨c, hc, ht⟩ := h.linked f hf'
    obtain ⟨l, hl⟩ := hk.linked f hf' hf c hc
    exact ⟨_, hl, ht⟩
  · exact hnew

/-! ## Runs -/

theorem Reachable.orderly (h : t.Reachable) : t.Orderly := by
  induction h with
  | start h => exact ⟨World.owned_start h, World.sound_start h, fun f hf => nomatch hf⟩
  | step u h ih => exact ih.step u

/-- Whatever turns others take, an operation in flight finds its cell linked and as it was. -/
theorem Orderly.after_keeps (h : t.Orderly) (hf : f ∈ t.flights) (hc : t.Linked f c)
    {us : List (Turn V)} (hus : ∀ u ∈ us, u ≠ .finish f.who) :
    (t.after us).Orderly ∧ f ∈ (t.after us).flights ∧
      ∃ l, (t.after us).Linked f { c with lock := l } := by
  induction us generalizing t c with
  | nil => exact ⟨h, hf, c.lock, hc⟩
  | cons u us ih =>
    have hf' := mem_flights_step hf (hus u List.mem_cons_self)
    obtain ⟨l, hl⟩ := (h.keeps u).linked f hf hf' c hc
    obtain ⟨hx, hm, l', hl'⟩ := ih (h.step u) hf' hl fun v hv => hus v (List.mem_cons_of_mem _ hv)
    exact ⟨hx, hm, l', hl'⟩

end

/-- What an operation that is in flight finds and does in its second half.  `before` was its cell in
the first half, `c` is the cell in the place of its guard now, and `st` the store. -/
structure Resumes [BEq V] (t : Traffic V) (f : Flight V) (before c : Cell V) (st : Store V) :
    Prop where
  store : t.world.store? f.store = some st
  guarded : (t.cells f.store f.key)[f.place]? = some c
  /-- The cell of the guard is still the one that is linked under its key. -/
  linked : t.Linked f c
  committed : c.temporary = false
  payload : c.payload = before.payload
  /-- It answers as the whole operation does that is run at once, ... -/
  reply : (t.finish f.who).reply = some (.ofReply (f.atOnce st).reply)
  events : (t.finish f.who).events = (f.atOnce st).events
  /-- ... and leaves the stores as that does. -/
  leaves : t.world.Changes (t.finish f.who).state.world f.store (f.atOnce st).state
  locks : (t.finish f.who).state.world.locks = t.world.locks
  flights : (t.finish f.who).state.flights = t.flights.filter (·.who ≠ f.who)
  gone : (t.finish f.who).state.gone = t.gone
  /-- A read gives the payload of the first half. -/
  read : f.task = .get → (t.finish f.who).reply = some (.done (.payload before.payload))
  /-- A write succeeds iff what it expects, if anything, is the payload when it stores. -/
  write : ∀ v, f.task.value? = some v → ((t.finish f.who).reply = some (.done .done) ↔
    ∀ e, f.task.expected? = some e → ∃ p, c.payload = some p ∧ (p == e) = true)
  /-- What is stored is stored in the cell that is linked. -/
  stored : ∀ v, f.task.value? = some v → (t.finish f.who).reply = some (.done .done) →
    ∃ d, (t.finish f.who).state.Linked f d ∧ d.temporary = false ∧ d.payload = some v

theorem Orderly.resumes [BEq V] {t : Traffic V} {f : Flight V} {before c : Cell V} (h : t.Orderly)
    (hf : f ∈ t.flights) (hc : t.Linked f c) (ht : c.temporary = false)
    (hp : c.payload = before.payload) : ∃ st, t.Resumes f before c st := by
  obtain ⟨st, hi, hg⟩ := Option.bind_eq_some_iff.1 hc.2
  have hfin := h.finish_eq hf hc hi
  have hw := h.atOnce_eq hf hc hi ht
  refine ⟨st, hi, hc.cell, hc, ht, hp, ?_, ?_, fun j => ?_, ?_, ?_, ?_, ?_, ?_, ?_⟩
  · rw [hfin, hw]
  · rw [hfin, hw]
  · rw [hfin, hw]
    exact Session.store?_setStore hi _ j
  · rw [hfin]
    rfl
  · rw [hfin]
  · rw [hfin]
  · intro hget
    rw [hfin, hget, ← hp]
    rfl
  · intro v hv
    rw [hfin, ← Cell.satisfies_iff, Task.finish, hv]
    by_cases hs : c.satisfies f.task.expected? = true
    · simp [hs, Outcome.ofReply]
    · simp [hs, Outcome.ofReply]
  · intro v hv hr
    have hdone : (f.task.finish f.who f.key c).reply = .ok .done := by
      rw [hfin] at hr
      cases hx : (f.task.finish f.who f.key c).reply with
      | ok r => rw [hx] at hr; cases hr; rfl
      | error e => rw [hx] at hr; cases hr
    have hcell := Task.finish_stores hv (h.grants hf hc) hdone
    have hi' : (t.finish f.who).state.world.store? f.store = some { st with
        cells := st.cells.insert f.key { c with payload := some v, lock := .free } } := by
      rw [hfin, hcell]
      exact (Session.store?_setStore hi _ _).trans (if_pos rfl)
    refine ⟨{ c with payload := some v, lock := .free }, ⟨?_, ?_⟩, ht, rfl⟩
    · rw [hfin]
      exact hc.1
    · rw [World.slot_of_store hi', Table.get?_insert, if_pos rfl]

/-- An operation in flight takes effect at one instant, that of its second half: whatever turns the
clients took since its first half, it finds its cell linked, committed and with the payload that it
had then, and does what the whole operation does at that instant. -/
theorem second_half_atomic [BEq V] {t : Traffic V} (h : t.Reachable) {who : Holder} {i : Nat}
    {k : Key} {task : Task V} {us : List (Turn V)}
    (hr : (t.step (.start who i k task)).reply = none) (hus : ∀ u ∈ us, u ≠ .finish who) :
    let f : Flight V := ⟨who, i, k, (t.gone i k).length, task⟩
    ∃ before c st, t.Linked f before ∧ before.temporary = false ∧
      ((t.step (.start who i k task)).state.after us).Resumes f before c st := by
  intro f
  have ho := h.orderly.step (.start who i k task)
  rw [step] at hr ho ⊢
  rcases start_cases who i k task t with hs | hs | ⟨st₀, st₁, -, hi, hs, ht⟩
  · rw [hs] at hr
    cases hr
  · rw [hs] at hr
    cases hr
  · rw [ht] at ho ⊢
    obtain ⟨c, l, hc, htemp, hl⟩ := linked_start hi hs rfl
    obtain ⟨ho', hf, l', hl'⟩ := ho.after_keeps (f := f) List.mem_cons_self hl hus
    have hp : ({ c with lock := l' } : Cell V).payload = c.payload := rfl
    obtain ⟨st, hres⟩ := ho'.resumes hf hl' htemp hp
    exact ⟨c, _, st, ⟨rfl, hc⟩, htemp, hres⟩

/-- While `x` is about to replace the payload of one key, others try to remove that key, read
another and try to lock both. -/
theorem second_half_atomic_single : ∃ before c st,
    let t : Traffic Nat := ⟨Session.single [("a", 1), ("b", 2)], fun _ _ => [], []⟩
    let f : Flight Nat := ⟨.named "x", 0, "a", 0, .setCond 5 1⟩
    let us : List (Turn Nat) := [.whole (.call 0 (.del "a")) rfl, .start (.named "y") 0 "b" .get,
      .whole (.acquire (.named "z") 0 [.del "b", .set "a" 7 none]) rfl, .finish (.named "y")]
    let t' := (t.step (.start (.named "x") 0 "a" (.setCond 5 1))).state.after us
    t.Linked f before ∧ before.temporary = false ∧ t'.Resumes f before c st := by
  have hs : Reachable (⟨Session.single [("a", 1), ("b", 2)], fun _ _ => [], []⟩ : Traffic Nat) :=
    .start (Session.start_single [("a", 1), ("b", 2)])
  have hr : (step (.start (.named "x") 0 "a" (.setCond 5 1))
      (⟨Session.single [("a", 1), ("b", 2)], fun _ _ => [], []⟩ : Traffic Nat)).reply = none := rfl
  refine second_half_atomic hs hr ?_
  simp

end Traffic

end TwoPhaseStore
