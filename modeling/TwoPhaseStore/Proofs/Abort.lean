import TwoPhaseStore.Proofs.Isolation
import TwoPhaseStore.Proofs.Store.Undo

/-!
An aborted batch leaves no trace, whatever happened while its keys were locked.  `Undone locks w u`
says that `u` is `w` with the batch of a live lock set undone.  Then every move goes one of two
ways:

    a move that spares the keys of the lock set keeps the worlds together          (Undone.step)
    one that does not comes to nothing                                       (Holding.step_alike)

So a run with the batch locked throughout is kept together with the run of the sparing moves without
it (`Undone.after`).  It begins with the orphans of the keys unlinked (`undone_acquired`), and the
abort undoes the batch in the end (`Undone.abort`).
-/

namespace TwoPhaseStore

open Session (Resolution)

variable {V : Type}

namespace Backend

def undo (locks : LockSet) : Backend V → Backend V
  | .store s => .store (s.undo locks)
  | .baseline b => .baseline b

def unlinkOrphans (keys : List Key) : Backend V → Backend V
  | .store s => .store (s.unlinkOrphans keys)
  | .baseline b => .baseline b

theorem undo_forget (locks other : LockSet) (b : Backend V) :
    (b.undo locks).forget other = (b.forget other).undo locks := by
  cases b with
  | store s => exact congrArg Backend.store (Store.undo_forget other)
  | baseline b => rfl

theorem undo_letGo (locks : LockSet) (who : Holder) (mode : HoldMode) (b : Backend V) :
    (b.undo locks).letGo who mode = (b.letGo who mode).undo locks := by
  cases b with
  | store s => exact congrArg Backend.store (Store.undo_letGo who mode)
  | baseline b => rfl

end Backend

/-- The keys whose locks a hold of this mode depends on, with these contents: a copy needs those of
all keys that are there. -/
def HoldMode.needs (shown : Contents V) (k : Key) : HoldMode → Bool
  | .exclusive => false
  | .shared _ => (shown k).isSome
  | .readKey j => j = k
  | .writeKey j => j = k

theorem HoldMode.needs_iff {shown : Contents V} {k : Key} {mode : HoldMode} :
    mode.needs shown k = true ↔
      mode.key? = some k ∨ (∃ walk, mode = .shared walk) ∧ shown k ≠ none := by
  cases mode <;> simp [needs, key?, Option.isSome_iff_ne_none]

namespace Move

/-- The move uses a key of these in the store of number `i`: it is an operation on the key, acquires
a batch that names it, or takes a hold that needs it. -/
def uses (i : Nat) (keys : List Key) (shown : Contents V) : Move V → Bool
  | .call j c => j = i && keys.any fun k => c.key? = some k
  | .acquire _ j batch => j = i && keys.any fun k => k ∈ batch.map Command.key
  | .hold _ j mode => j = i && keys.any fun k => mode.needs shown k
  | _ => false

/-- The move uses none of these keys, and is not the attempt of `who` to hold one thing more. -/
def spares (who : Holder) (i : Nat) (keys : List Key) (shown : Contents V) (m : Move V) : Bool :=
  m.begins? ≠ some who && !m.uses i keys shown

end Move

namespace Session

/-! ## Sessions with a batch undone -/

/-- `t` is `s` with the batch of a live lock set undone; which keys were named does not count. -/
structure Undone (locks : LockSet) (s t : Session V) : Prop where
  backends : t.backends = s.backends.map (·.undo locks)
  locks : t.locks = s.locks.filter (·.holder ≠ locks.holder)

namespace Undone

variable {locks : LockSet} {s t : Session V} (h : Undone locks s t)

include h

theorem backend? (j : Nat) : t.backends[j]? = (s.backends[j]?).map (·.undo locks) := by
  rw [h.backends, List.getElem?_map]

theorem store? (j : Nat) : t.store? j = (s.store? j).map (·.undo locks) := by
  rw [Session.store?, h.backend?, Session.store?]
  cases s.backends[j]? with
  | none => rfl
  | some b => cases b <;> rfl

theorem lockSet? {who : Holder} (hw : who ≠ locks.holder) : t.lockSet? who = s.lockSet? who := by
  rw [Session.lockSet?, h.locks, List.find?_filter, Session.lockSet?]
  congr 1
  funext other
  by_cases ho : other.holder = who
  · simp [ho, hw]
  · simp [ho]

theorem note (keys keys' : List Key) : Undone locks (s.note keys) (t.note keys') :=
  ⟨h.backends, h.locks⟩

theorem setBackend (j : Nat) (b : Backend V) :
    Undone locks (s.setBackend j b) (t.setBackend j (b.undo locks)) :=
  ⟨by rw [Session.setBackend, Session.setBackend, h.backends, List.map_set], h.locks⟩

theorem retire (other : LockSet) : Undone locks (s.retire other) (t.retire other) := by
  refine ⟨h.backends, ?_⟩
  show t.locks.filter _ = (s.locks.filter _).filter _
  rw [h.locks, List.filter_filter, List.filter_filter]
  simp only [Bool.and_comm]

theorem forget (other : LockSet) : Undone locks (s.forget other) (t.forget other) := by
  refine ⟨?_, (h.retire other).locks⟩
  show t.backends.map _ = (s.backends.map _).map _
  rw [h.backends, List.map_map, List.map_map]
  exact List.map_congr_left fun b _ => b.undo_forget locks other

theorem letGo (who : Holder) (j : Nat) (mode : HoldMode) :
    Undone locks (s.letGo who j mode) (t.letGo who j mode) := by
  refine ⟨List.ext_getElem? fun n => ?_, h.locks⟩
  show (t.backends.modify j (·.letGo who mode))[n]? =
    ((s.backends.modify j (·.letGo who mode)).map (·.undo locks))[n]?
  rw [h.backends, List.getElem?_modify, List.getElem?_map, List.getElem?_map, List.getElem?_modify]
  cases s.backends[n]? with
  | none => rfl
  | some b =>
    show some _ = some _
    split
    · exact congrArg some (b.undo_letGo locks who mode)
    · rfl

theorem withLocks {who : Holder} (hw : who ≠ locks.holder)
    {f g : LockSet → Answer (Session V) (Outcome V)}
    (hf : ∀ other, s.lockSet? who = some other → Undone locks (f other).state (g other).state) :
    Undone locks (s.withLocks who f).state (t.withLocks who g).state := by
  unfold Session.withLocks
  rw [h.lockSet? hw]
  cases hl : s.lockSet? who with
  | none => exact h
  | some other => exact hf other hl

theorem hold? (who : Holder) (j : Nat) (mode : HoldMode)
    (hc : ∀ st, s.store? j = some st → st.Sound ∧ st.Clear locks mode) :
    s.hold? who j mode = none ∧ t.hold? who j mode = none ∨
    (∃ f, s.hold? who j mode = some (.error f) ∧ t.hold? who j mode = some (.error f)) ∨
    s.hold? who j mode = some (.ok none) ∧ t.hold? who j mode = some (.ok none) ∨
    ∃ s' t', s.hold? who j mode = some (.ok (some s')) ∧ t.hold? who j mode = some (.ok (some t')) ∧
      Undone locks s' t' := by
  cases hi : s.store? j with
  | some st =>
    have hi' : t.store? j = some (st.undo locks) := by rw [h.store?, hi]; rfl
    obtain ⟨hs, hcl⟩ := hc st hi
    rw [hold?_of_store hi, hold?_of_store hi', Store.undo_hold? hs who hcl]
    cases st.hold? who mode with
    | error f => exact .inr (.inl ⟨f, rfl, rfl⟩)
    | ok held =>
      cases held with
      | none => exact .inr (.inr (.inl ⟨rfl, rfl⟩))
      | some st' => exact .inr (.inr (.inr ⟨_, _, rfl, rfl, h.setBackend j (.store st')⟩))
  | none =>
    rcases backend_of_store?_eq_none hi with hb | ⟨b, hb⟩
    · have hb' : t.backends[j]? = none := by rw [h.backend?, hb]; rfl
      rw [Session.hold?, Session.hold?, hb, hb']
      exact .inl ⟨rfl, rfl⟩
    · have hb' : t.backends[j]? = some (.baseline b) := by rw [h.backend?, hb]; rfl
      rw [Session.hold?, Session.hold?, hb, hb', Option.map_some, Option.map_some, Backend.hold?]
      cases b.hold? who mode with
      | error f => exact .inr (.inl ⟨f, rfl, rfl⟩)
      | ok held =>
        cases held with
        | none => exact .inr (.inr (.inl ⟨rfl, rfl⟩))
        | some b' => exact .inr (.inr (.inr ⟨_, _, rfl, rfl, h.setBackend j (.baseline b')⟩))

/-- A lock set that ends on a store: it is not on a key of the one whose batch is undone. -/
theorem resolve (how : Resolution) {j : Nat} {st : Store V} (hi : s.store? j = some st)
    (batch : List (Command V)) {other : LockSet}
    (hl : other.issuer = st.id → ∀ k, other.keys.contains k = true →
      st.cells.get? k ≠ none ∧ ¬ st.Locked locks k) :
    ∃ a b, s.resolve how j batch other = some a ∧ t.resolve how j batch other = some b ∧
      Undone locks a.state b.state := by
  have hi' : t.store? j = some (st.undo locks) := by rw [h.store?, hi]; rfl
  refine ⟨_, _, resolve_of_store hi how batch other, resolve_of_store hi' how batch other, ?_⟩
  dsimp only
  by_cases hu : other.issuer = st.id
  · rw [if_pos hu, if_pos (hu.trans (st.undo_id locks).symm),
      (Store.undo_run how batch hu (fun k hk => (hl hu k hk).1) fun k hk => (hl hu k hk).2).2]
    exact (h.retire other).setBackend j (.store _)
  · have hu' : other.issuer ≠ (st.undo locks).id := fun he => hu (he.trans (st.undo_id locks))
    rw [if_neg hu, if_neg hu', (Store.run_foreign hu).1, (Store.run_foreign hu').1]
    exact ((h.retire other).setBackend j (.store st)).forget other

variable [BEq V]

theorem call (j : Nat) {c : Call V}
    (hc : ∀ st, s.store? j = some st → ∀ k, c.key? = some k → ¬ st.Locked locks k) :
    Undone locks (s.call j c).state (t.call j c).state := by
  cases hi : s.store? j with
  | some st =>
    have hi' : t.store? j = some (st.undo locks) := by rw [h.store?, hi]; rfl
    rw [call_of_store hi, call_of_store hi', Store.undo_call (hc st hi)]
    exact (h.note _ _).setBackend j (.store (st.call c).state)
  | none =>
    have hn := h.note c.key?.toList c.key?.toList
    rcases backend_of_store?_eq_none (s := s.note c.key?.toList) hi with hb | ⟨b, hb⟩
    · have hb' : (t.note c.key?.toList).backends[j]? = none := by rw [hn.backend?, hb]; rfl
      simp only [Session.call, hb, hb']
      exact hn
    · have hb' : (t.note c.key?.toList).backends[j]? = some (.baseline b) := by
        rw [hn.backend?, hb]
        rfl
      simp only [Session.call, hb, hb', Option.bind_eq_bind, Option.bind_some, Backend.call?]
      cases b.call? c with
      | none => exact hn
      | some a => exact hn.setBackend j (.baseline a.state)

theorem acquireAs {who : Holder} (hw : who ≠ locks.holder) (j : Nat) {batch : List (Command V)}
    (hb : ∀ st, s.store? j = some st → ∀ k ∈ batch.map Command.key, ¬ st.Locked locks k) :
    Undone locks (s.acquireAs who j (.ok batch)).state (t.acquireAs who j (.ok batch)).state := by
  unfold Session.acquireAs
  rw [h.lockSet? hw]
  by_cases hl : (s.lockSet? who).isSome = true
  · rw [if_pos hl, if_pos hl]
    exact h
  · rw [if_neg hl, if_neg hl]
    have hn : Undone locks (s.noteBatch batch) (t.noteBatch batch) := h.note _ _
    cases hi : s.store? j with
    | none =>
      have hi' : t.store? j = none := by rw [h.store?, hi]; rfl
      simp only [acquire_of_no_store (s := s.noteBatch batch) hi,
        acquire_of_no_store (s := t.noteBatch batch) hi']
      exact h
    | some st =>
      have his : (s.noteBatch batch).store? j = some st := hi
      have hit : (t.noteBatch batch).store? j = some (st.undo locks) := by
        rw [hn.store?, his]
        rfl
      obtain ⟨hr, hst⟩ := Store.undo_acquire who (hb st hi)
      have hset := hn.setBackend j (.store (st.acquire who batch).state)
      cases hrs : (st.acquire who batch).reply with
      | error f =>
        simp only [acquire_error his hrs, acquire_error hit (hr.trans hrs), hst]
        exact hset
      | ok other =>
        have hother : other.holder ≠ locks.holder := by
          rw [(Store.acquire_ok hrs).2.2.2.1.2.1]
          exact hw
        simp only [acquire_ok his hrs, acquire_ok hit (hr.trans hrs), hst]
        refine ⟨hset.backends, ?_⟩
        show other :: t.locks = (other :: s.locks).filter _
        rw [h.locks, List.filter_cons, if_pos (decide_eq_true hother)]

end Undone

end Session

namespace World

/-! ## Worlds with a batch undone -/

/-- The worlds have the same stores, live lock sets and holds. -/
structure Alike (w u : World V) : Prop where
  backends : u.session.backends = w.session.backends
  locks : u.locks = w.locks
  holds : u.holds = w.holds

/-- Unlinks the orphans among some keys in the store of number `i`. -/
def unlinkOrphans (i : Nat) (keys : List Key) (w : World V) : World V :=
  ⟨{ w.session with backends := w.session.backends.modify i (·.unlinkOrphans keys) }, w.holds⟩

/-- `u` is `w` with the batch of a live lock set undone. -/
structure Undone (locks : LockSet) (w u : World V) : Prop where
  session : Session.Undone locks w.session u.session
  holds : u.holds = w.holds

/-- A lock set is live on these keys of the store of number `i`, which have these contents. -/
structure Holding (w : World V) (locks : LockSet) (i : Nat) (keys : List Key)
    (shown : Contents V) : Prop where
  mem : locks ∈ w.locks
  store : ∃ st, w.store? i = some st ∧ locks.issuer = st.id ∧ ∀ k ∈ keys, st.contents k = shown k
  keys : ∀ k, locks.keys.contains k = true ↔ k ∈ keys

section
variable {w u : World V} {locks : LockSet} {i : Nat} {keys : List Key} {shown : Contents V}

namespace Undone

variable (h : w.Undone locks u)

include h

theorem mem_parties {who : Holder} (hw : who ≠ locks.holder) :
    who ∈ u.parties ↔ who ∈ w.parties := by
  have hl : who ∈ u.session.locks.map (·.holder) ↔ who ∈ w.session.locks.map (·.holder) := by
    simp only [h.session.locks, List.mem_map, List.mem_filter, decide_eq_true_eq]
    constructor
    · rintro ⟨other, ⟨hm, -⟩, rfl⟩; exact ⟨other, hm, rfl⟩
    · rintro ⟨other, hm, rfl⟩; exact ⟨other, ⟨hm, hw⟩, rfl⟩
  rw [parties, parties, List.mem_append, List.mem_append, hl, h.holds]

theorem of_alike {w' : World V} (ha : w.Alike w') : w'.Undone locks u :=
  ⟨⟨by rw [h.session.backends, ha.backends], h.session.locks.trans (by
    rw [show w'.session.locks = w.session.locks from ha.locks])⟩, h.holds.trans ha.holds.symm⟩

end Undone

namespace Holding

variable (hh : w.Holding locks i keys shown) (hw : w.Owned) {j : Nat} {st : Store V}
  (hj : w.store? j = some st)

include hh hw hj

/-- The lock set holds no other keys, in no other store. -/
theorem of_locked {k : Key} (hk : st.Locked locks k) :
    j = i ∧ k ∈ keys ∧ st.contents k = shown k := by
  obtain ⟨st', hi, hu, hc⟩ := hh.store
  obtain rfl : j = i := hw.distinct hj hi (hk.1.symm.trans hu)
  obtain rfl := Option.some.inj (hi.symm.trans hj)
  have hkk : k ∈ keys := (hh.keys k).1 hk.2
  exact ⟨rfl, hkk, hc k hkk⟩

theorem lockAt {k : Key} (hk : st.Locked locks k) : st.lockAt k = .exclusive locks.holder :=
  hw.lockAt_eq hj hh.mem hk.1 hk.2

omit hw in
theorem locked (hji : j = i) {k : Key} (hk : k ∈ keys) :
    st.Locked locks k ∧ st.contents k = shown k := by
  subst hji
  obtain ⟨st', hi, hu, hc⟩ := hh.store
  obtain rfl := Option.some.inj (hi.symm.trans hj)
  exact ⟨⟨hu, (hh.keys k).2 hk⟩, hc k hk⟩

/-- A hold that needs none of the keys does not meet the lock set. -/
theorem clear {mode : HoldMode} (hn : j = i → ∀ k ∈ keys, mode.needs shown k = false) :
    st.Clear locks mode := by
  intro k hl
  obtain ⟨hji, hkk, hc⟩ := hh.of_locked hw hj hl
  have hnot : ¬ (mode.key? = some k ∨ (∃ walk, mode = .shared walk) ∧ shown k ≠ none) := by
    rw [← HoldMode.needs_iff, hn hji k hkk]
    exact Bool.false_ne_true
  refine ⟨fun hk => hnot (.inl hk), fun walk hm => ?_⟩
  rw [hc]
  exact Classical.not_not.1 fun hne => hnot (.inr ⟨⟨walk, hm⟩, hne⟩)

end Holding

/-- Undoing changes nothing but the store that issued the lock set. -/
theorem Owned.map_undo (hw : w.Owned) {st : Store V} (hi : w.store? i = some st)
    (hu : locks.issuer = st.id) : w.session.backends.map (·.undo locks) =
      w.session.backends.set i (.store (st.undo locks)) := by
  have hb : w.session.backends[i]? = some (.store st) := Session.store?_eq_some.1 hi
  obtain ⟨hlt, -⟩ := List.getElem?_eq_some_iff.1 hb
  refine List.ext_getElem? fun n => ?_
  rw [List.getElem?_map, List.getElem?_set]
  by_cases hn : i = n
  · subst hn
    rw [if_pos rfl, if_pos hlt, hb]
    rfl
  · rw [if_neg hn]
    cases hbn : w.session.backends[n]? with
    | none => rfl
    | some b =>
      cases b with
      | baseline b => rfl
      | store st' =>
        have hj : w.store? n = some st' := Session.store?_eq_some.2 hbn
        have hne : locks.issuer ≠ st'.id := fun he => hn (hw.distinct hi hj (hu.symm.trans he))
        show some (Backend.store (st'.undo locks)) = _
        rw [Store.undo, if_neg hne]

/-! ## Moves that spare the keys, and moves that do not -/

section
variable [BEq V] (hh : w.Holding locks i keys shown) (hw : w.Owned) (hs : w.Sound) {m : Move V}

include hh hw hs

theorem Undone.step (h : w.Undone locks u) (he : m.ends? ≠ some locks.holder)
    (hm : m.spares locks.holder i keys shown = true) :
    (w.step m).state.Undone locks (u.step m).state := by
  have hb : m.begins? ≠ some locks.holder := by
    rw [Move.spares, Bool.and_eq_true, decide_eq_true_eq] at hm
    exact hm.1
  have hu : m.uses i keys shown = false := by
    rw [Move.spares, Bool.and_eq_true, Bool.not_eq_true'] at hm
    exact hm.2
  cases m with
  | name ks => exact ⟨h.session.note ks ks, h.holds⟩
  | call j c =>
    refine ⟨h.session.call j fun st hj k hk hl => ?_, h.holds⟩
    obtain ⟨rfl, hkk, -⟩ := hh.of_locked hw hj hl
    have hn : j = j → ∀ k ∈ keys, c.key? ≠ some k := by simpa [Move.uses] using hu
    exact hn rfl k hkk hk
  | acquire who j batch =>
    have hne : who ≠ locks.holder := fun hc => hb (congrArg some hc)
    rw [World.step, World.step]
    by_cases hp : who ∈ w.parties
    · rw [if_pos hp, if_pos ((h.mem_parties hne).2 hp)]
      exact h
    · rw [if_neg hp, if_neg fun hc => hp ((h.mem_parties hne).1 hc)]
      refine ⟨h.session.acquireAs hne j fun st hj k hk hl => ?_, h.holds⟩
      obtain ⟨rfl, hkk, -⟩ := hh.of_locked hw hj hl
      have hn : j = j → ∀ k ∈ keys, ∀ c ∈ batch, c.key ≠ k := by simpa [Move.uses] using hu
      obtain ⟨c, hc, rfl⟩ := List.mem_map.1 hk
      exact hn rfl c.key hkk c hc rfl
  | resolve how who j batch =>
    have hne : who ≠ locks.holder := fun hc => he (congrArg some hc)
    refine ⟨h.session.withLocks hne fun other ho => ?_, h.holds⟩
    obtain ⟨hm', rfl⟩ := Session.mem_of_lockSet? ho
    cases hj : w.session.store? j with
    | none =>
      have hj' : u.session.store? j = none := by rw [h.session.store?, hj]; rfl
      rw [Session.resolve_of_no_store hj, Session.resolve_of_no_store hj']
      exact h.session
    | some st =>
      obtain ⟨a, b, ha, hb', hab⟩ := h.session.resolve how hj batch fun hu' k hk =>
        ⟨hw.linked hj hm' hu' hk, fun hl => hne (Lock.exclusive.inj
          ((hw.lockAt_eq hj hm' hu' hk).symm.trans (hh.lockAt hw hj hl)))⟩
      rw [ha, hb']
      exact hab
  | drop who =>
    have hne : who ≠ locks.holder := fun hc => he (congrArg some hc)
    exact ⟨h.session.withLocks hne fun other _ => h.session.forget other, h.holds⟩
  | hold who j mode =>
    have hne : who ≠ locks.holder := fun hc => hb (congrArg some hc)
    have hn : j = i → ∀ k ∈ keys, mode.needs shown k = false := by simpa [Move.uses] using hu
    rw [World.step, World.step]
    by_cases hp : who ∈ w.parties
    · rw [if_pos hp, if_pos ((h.mem_parties hne).2 hp)]
      exact h
    · rw [if_neg hp, if_neg fun hc => hp ((h.mem_parties hne).1 hc)]
      have hc : ∀ st, w.session.store? j = some st → st.Sound ∧ st.Clear locks mode :=
        fun st hj => ⟨hs j st hj, hh.clear hw hj hn⟩
      rcases h.session.hold? who j mode hc with
        ⟨ha, hb'⟩ | ⟨f, ha, hb'⟩ | ⟨ha, hb'⟩ | ⟨s', t', ha, hb', hst⟩
      · rw [ha, hb']; exact h
      · rw [ha, hb']; exact h
      · rw [ha, hb']; exact h
      · rw [ha, hb']
        exact ⟨hst, congrArg (List.cons (⟨who, j, mode⟩ : Hold)) h.holds⟩
  | letGo who =>
    rw [World.step, World.step, h.holds]
    cases w.holds.find? (·.who = who) with
    | none => exact h
    | some hd => exact ⟨h.session.letGo who hd.store hd.mode, rfl⟩

omit hs in
/-- While the keys are locked, what uses them comes to nothing, and so does what the holder
begins. -/
theorem Holding.step_alike (hm : m.spares locks.holder i keys shown = false) :
    w.Alike (w.step m).state := by
  have hself : w.Alike w := ⟨rfl, rfl, rfl⟩
  have hin : ∀ {who}, who = locks.holder → who ∈ w.parties := fun hc =>
    hc ▸ List.mem_append_left _ (List.mem_map_of_mem hh.mem)
  have hm' : m.begins? = some locks.holder ∨ m.uses i keys shown = true := by
    simpa [Move.spares, Classical.or_iff_not_imp_left] using hm
  cases m with
  | call j c =>
    have hu : j = i ∧ ∃ k ∈ keys, c.key? = some k := by simpa [Move.begins?, Move.uses] using hm'
    obtain ⟨rfl, k, hk, hck⟩ := hu
    obtain ⟨st, hj, -⟩ := hh.store
    have hst : (st.call c).state = st := Store.call_state_of_locked (fun k hl => hh.lockAt hw hj hl)
      (hh.locked hj rfl hk).1 hck
    have hstep : (w.step (.call j c)).state = ⟨(w.session.call j c).state, w.holds⟩ := rfl
    rw [hstep, Session.call_of_store hj, hst]
    exact ⟨Session.setBackend_self (Session.store?_eq_some.1 hj), rfl, rfl⟩
  | acquire who j batch =>
    rw [World.step]
    by_cases hp : who ∈ w.parties
    · rw [if_pos hp]
      exact hself
    · rw [if_neg hp]
      have hu : j = i ∧ ∃ k ∈ keys, ∃ c ∈ batch, c.key = k := by
        simpa [Move.uses] using hm'.resolve_left fun hc => hp (hin (Option.some.inj hc))
      obtain ⟨rfl, k, hk, c, hc, rfl⟩ := hu
      obtain ⟨st, hj, -⟩ := hh.store
      have hj' : (w.session.noteBatch batch).store? j = some st := hj
      obtain ⟨f, hr⟩ := Store.acquire_refused_of_locked (fun k hl => hh.lockAt hw hj hl)
        (hh.locked hj rfl hk).1 who (List.mem_map_of_mem hc)
      have hn : w.session.lockSet? who = none := Session.lockSet?_eq_none.2 fun other ho he =>
        hp (List.mem_append_left _ (he ▸ List.mem_map_of_mem ho))
      rw [Session.acquireAs, hn, Option.isSome_none, if_neg Bool.false_ne_true]
      simp only [Session.acquire_error hj' hr, (Store.acquire_error hr).1]
      exact ⟨Session.setBackend_self (Session.store?_eq_some.1 hj'), rfl, rfl⟩
  | hold who j mode =>
    rw [World.step]
    by_cases hp : who ∈ w.parties
    · rw [if_pos hp]
      exact hself
    · rw [if_neg hp]
      have hu : j = i ∧ ∃ k ∈ keys, mode.needs shown k = true := by
        simpa [Move.uses] using hm'.resolve_left fun hc => hp (hin (Option.some.inj hc))
      obtain ⟨rfl, k, hk, hn⟩ := hu
      obtain ⟨st, hj, -⟩ := hh.store
      obtain ⟨hl, hc⟩ := hh.locked hj rfl hk
      have hneeds := HoldMode.needs_iff.1 hn
      rw [← hc] at hneeds
      have hno := Store.hold?_of_locked (fun k hl => hh.lockAt hw hj hl) hl who hneeds
      rw [Session.hold?_of_store hj]
      cases hr : st.hold? who mode with
      | error f => exact hself
      | ok t =>
        cases t with
        | none => exact hself
        | some t => exact absurd hr (hno t)
  | _ => simp [Move.begins?, Move.uses] at hm'

end

/-! ## The run around a batch -/

section
variable [BEq V]

/-- The keys of a live lock set keep their contents while others move. -/
theorem Holding.step (hh : w.Holding locks i keys shown) (hw : w.Owned) {m : Move V}
    (he : m.ends? ≠ some locks.holder) : (w.step m).state.Holding locks i keys shown := by
  obtain ⟨st, hi, hu, hc⟩ := hh.store
  have hstep := w.step_effect m
  obtain ⟨st', hi', hid⟩ := hstep.store_after hi
  obtain ⟨hm, hk⟩ := hstep.keeps hw hh.mem he hi hu hi'
  refine ⟨hm, ⟨st', hi', hu.trans hid.symm, fun k hkk => ?_⟩, hh.keys⟩
  rw [Store.contents_eq, hk k ((hh.keys k).2 hkk), ← Store.contents_eq, hc k hkk]

/-- A batch is locked during a run exactly as if the moves that spare its keys were made without
it. -/
theorem Undone.after (hr : w.Reachable) (hh : w.Holding locks i keys shown)
    (h : w.Undone locks u) {ms : List (Move V)} (hms : ∀ m ∈ ms, m.ends? ≠ some locks.holder) :
    (w.after ms).Undone locks (u.after (ms.filter (·.spares locks.holder i keys shown))) ∧
      (w.after ms).Holding locks i keys shown := by
  induction ms generalizing w u with
  | nil => exact ⟨h, hh⟩
  | cons m ms ih =>
    have he : m.ends? ≠ some locks.holder := hms m List.mem_cons_self
    have hms' : ∀ m ∈ ms, m.ends? ≠ some locks.holder :=
      fun m' hm' => hms m' (List.mem_cons_of_mem _ hm')
    have hh' := hh.step hr.owned he
    cases hm : m.spares locks.holder i keys shown with
    | true =>
      rw [List.filter_cons, if_pos hm]
      exact ih (hr.step m) hh' (h.step hh hr.owned hr.sound he hm) hms'
    | false =>
      rw [List.filter_cons, if_neg (by rw [hm]; exact Bool.false_ne_true)]
      exact ih (hr.step m) hh' (h.of_alike (hh.step_alike hr.owned hm)) hms'

/-- Right after the acquire phase, undoing the batch leads back, but for orphans of its keys. -/
theorem Reachable.undone_acquired (h : w.Reachable) {who : Holder} {batch : List (Command V)}
    {st : Store V} (hi : w.store? i = some st)
    (hr : (w.step (.acquire who i batch)).reply = .done (.locks locks)) :
    (w.step (.acquire who i batch)).state.Undone locks
        (w.unlinkOrphans i (batch.map Command.key)) ∧
      (w.step (.acquire who i batch)).state.Holding locks i (batch.map Command.key) st.contents ∧
      locks.holder = who ∧ (batch.map Command.key).Nodup := by
  have hp : who ∉ w.parties := fun hp => by
    rw [World.step, if_pos hp] at hr
    cases hr
  have h₁ : (w.step (.acquire who i batch)).state.Reachable := h.step _
  have he := w.step_effect (.acquire who i batch)
  rw [hr] at he
  obtain ⟨st₀, hi₀, hok, hi₁, hm₁, hwho, hu₁⟩ := he.acquire_done
  obtain rfl := Option.some.inj (hi₀.symm.trans hi)
  obtain ⟨-, -, hlock, ⟨-, -, hk⟩, -⟩ := Store.acquire_ok hok
  refine ⟨?_, ⟨hm₁, ⟨_, hi₁, hu₁, fun k _ => by rw [Store.contents_acquire]⟩, hk⟩, hwho,
    hlock.distinct⟩
  have hback := h₁.owned.map_undo hi₁ hu₁
  have hb : w.session.backends[i]? = some (.store st₀) := Session.store?_eq_some.1 hi
  have hi' : (w.session.noteBatch batch).store? i = some st₀ := hi
  have hn : w.session.lockSet? who = none := Session.lockSet?_eq_none.2 fun other ho he =>
    hp (List.mem_append_left _ (he ▸ List.mem_map_of_mem ho))
  have hstep : (w.step (.acquire who i batch)).state =
      ⟨{ (w.session.noteBatch batch).setBackend i (.store (st₀.acquire who batch).state) with
        locks := locks :: w.session.locks }, w.holds⟩ := by
    rw [World.step, if_neg hp, Session.acquireAs, hn, Option.isSome_none, if_neg Bool.false_ne_true]
    simp only [Session.acquire_ok hi' hok]
    rfl
  rw [hstep] at hback ⊢
  refine ⟨⟨?_, ?_⟩, rfl⟩
  · rw [hback, Store.undo_acquired hok]
    show w.session.backends.modify i _ = (w.session.backends.set i _).set i _
    rw [List.set_set, List.modify_eq_set_getElem?, hb]
    rfl
  · show w.session.locks = (locks :: w.session.locks).filter _
    have hne : ∀ other ∈ w.session.locks, other.holder ≠ locks.holder := fun other ho he =>
      hp (List.mem_append_left _ (hwho ▸ he ▸ List.mem_map_of_mem ho))
    rw [List.filter_cons, if_neg (by simp), List.filter_eq_self.2 fun other ho =>
      decide_eq_true (hne other ho)]

/-- The abort of a batch undoes it. -/
theorem Undone.abort (hw : w.Owned) {batch : List (Command V)}
    (hh : w.Holding locks i (batch.map Command.key) shown) (hn : (batch.map Command.key).Nodup)
    (h : w.Undone locks u) :
    (w.step (.resolve .abort locks.holder i batch)).reply = .done .done ∧
      u.Alike (w.step (.resolve .abort locks.holder i batch)).state := by
  obtain ⟨st, hi, hu, -⟩ := hh.store
  obtain ⟨hr, hst⟩ := Store.run_abort hu (fun _ => hw.linked hi hh.mem hu) hn hh.keys
  have hstep : w.step (.resolve .abort locks.holder i batch) =
      w.answer ⟨.done .done, (Resolution.abort.run batch locks st).events,
        (w.session.retire locks).setBackend i (.store (st.undo locks))⟩ := by
    rw [World.step, Session.endAs, Session.withLocks, hw.lockSet?_eq hh.mem]
    simp only [Session.resolve_of_store (s := w.session) hi, if_pos hu, hr, hst]
    rfl
  rw [hstep]
  exact ⟨rfl, ((hw.map_undo hi hu).symm.trans h.session.backends.symm), h.session.locks.symm,
    h.holds.symm⟩

end

end

/-- Without orphans there is nothing to unlink. -/
theorem unlinkOrphans_alike {w : World V} {i : Nat} {keys : List Key} {st : Store V}
    (hi : w.store? i = some st)
    (h : ∀ k ∈ keys, ∀ c, st.cells.get? k = some c → c.isOrphan = false) :
    (w.unlinkOrphans i keys).Alike w := by
  have hb : w.session.backends[i]? = some (.store st) := Session.store?_eq_some.1 hi
  obtain ⟨hlt, he⟩ := List.getElem?_eq_some_iff.1 hb
  refine ⟨?_, rfl, rfl⟩
  have hu : (Backend.store st).unlinkOrphans keys = .store st :=
    congrArg Backend.store (Store.unlinkOrphans_eq h)
  show w.session.backends = w.session.backends.modify i _
  rw [List.modify_eq_set_getElem?, hb]
  show _ = w.session.backends.set i ((Backend.store st).unlinkOrphans keys)
  rw [hu, ← he, List.set_getElem_self]

/-- An aborted batch leaves no trace, whatever the others did while its keys were locked: all is as
if only what spares its keys had been done, with the orphans among its keys unlinked before.  So an
abort that follows the acquire phase at once takes it back, where there are no such orphans. -/
theorem aborted_leaves_no_trace [BEq V] {w : World V} (h : w.Reachable) {who : Holder} {i : Nat}
    {st : Store V} (hi : w.store? i = some st) {batch : List (Command V)} {locks : LockSet}
    {ms : List (Move V)} (hr : (w.step (.acquire who i batch)).reply = .done (.locks locks))
    (hms : ∀ m ∈ ms, m.ends? ≠ some who) :
    let locked := (w.step (.acquire who i batch)).state
    let keys := batch.map Command.key
    ((locked.after ms).step (.resolve .abort who i batch)).reply = .done .done ∧
      ((w.unlinkOrphans i keys).after (ms.filter (·.spares who i keys st.contents))).Alike
        ((locked.after ms).step (.resolve .abort who i batch)).state ∧
      ((∀ k ∈ keys, ∀ c, st.cells.get? k = some c → c.isOrphan = false) →
        w.Alike (locked.step (.resolve .abort who i batch)).state) := by
  intro locked keys
  obtain ⟨hu, hh, rfl, hn⟩ := h.undone_acquired hi hr
  have h₁ : locked.Reachable := h.step _
  obtain ⟨hu', hh'⟩ := Undone.after h₁ hh hu hms
  obtain ⟨hdone, halike⟩ := hu'.abort (h₁.after ms).owned hh' hn
  refine ⟨hdone, halike, fun hfree => ?_⟩
  have hself := unlinkOrphans_alike hi hfree
  obtain ⟨-, hback⟩ := hu.abort h₁.owned hh hn
  exact ⟨hback.backends.trans hself.backends.symm, hback.locks.trans hself.locks.symm,
    hback.holds.trans hself.holds.symm⟩

/-- A batch that removes a key, writes over an orphan and reads a third key.  Meanwhile one of its
keys is written in vain, another key is written, and that one is acquired. -/
theorem aborted_leaves_no_trace_orphan : ∃ locks st,
    let w : World Nat := after [.acquire (.named "z") 0 [.set "b" 1 none], .drop (.named "z")]
      ⟨Session.single [("a", 1), ("c", 3)], []⟩
    let batch := [.del "a", .set "b" 2 none, .get "c"]
    let locked := (w.step (.acquire (.named "x") 0 batch)).state
    let ms := [.call 0 (.set "a" 9), .call 0 (.set "d" 5), .acquire (.named "y") 0 [.get "d"]]
    w.store? 0 = some st ∧
      (w.step (.acquire (.named "x") 0 batch)).reply = .done (.locks locks) ∧
      ((locked.after ms).step (.resolve .abort (.named "x") 0 batch)).reply = .done .done ∧
      ((w.unlinkOrphans 0 ["a", "b", "c"]).after
        [.call 0 (.set "d" 5), .acquire (.named "y") 0 [.get "d"]]).Alike
          ((locked.after ms).step (.resolve .abort (.named "x") 0 batch)).state := by
  have hs : Reachable (after [.acquire (.named "z") 0 [.set "b" 1 none], .drop (.named "z")]
      (⟨Session.single [("a", 1), ("c", 3)], []⟩ : World Nat)) :=
    (Reachable.start (Session.start_single [("a", 1), ("c", 3)])).after _
  have hms : ∀ m ∈ [.call 0 (.set "a" 9), .call 0 (.set "d" 5),
      .acquire (.named "y") 0 [.get "d"]], Move.ends? (m : Move Nat) ≠ some (.named "x") := by
    simp [Move.ends?]
  have hr : (step (.acquire (.named "x") 0 [.del "a", .set "b" 2 none, .get "c"])
      (after [.acquire (.named "z") 0 [.set "b" 1 none], .drop (.named "z")]
        (⟨Session.single [("a", 1), ("c", 3)], []⟩ : World Nat))).reply =
        .done (.locks ⟨1, .named "x", .ofList [("a", ()), ("b", ()), ("c", ())]⟩) := rfl
  obtain ⟨hdone, halike, -⟩ := aborted_leaves_no_trace hs rfl hr hms
  exact ⟨_, _, rfl, hr, hdone, halike⟩

end World

end TwoPhaseStore
