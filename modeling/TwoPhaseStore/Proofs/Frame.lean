import TwoPhaseStore.Proofs.Script
import TwoPhaseStore.Proofs.Store.Local

/-!
Stores beside each other.  A move is about one store or baseline, and leaves all the others exactly
as they are, with their keys, payloads, marks and locks:

    ¬ w.Concerns m j → (w.step m).state.backend? j = w.backend? j                     (step_frame)

The one move that is about two stores is the resolution of a lock set on a store that did not issue
it.  It is a violation for every batch, leaves that store as well, and the store that issued the
lock set only gets its locks back (`resolve_foreign`).
-/

namespace TwoPhaseStore

open Session (Resolution)

variable {V : Type}

/-! ## Backends of a session -/

namespace Session

section
variable {s : Session V} {i j : Nat}

theorem getElem?_setBackend (b : Backend V) (h : j ≠ i) :
    (s.setBackend i b).backends[j]? = s.backends[j]? :=
  List.getElem?_set_ne h.symm

/-- Only the store that issued a lock set gets something back. -/
theorem getElem?_forget {locks : LockSet} (h : ∀ st, s.store? j = some st → locks.issuer ≠ st.id) :
    (s.forget locks).backends[j]? = s.backends[j]? := by
  have hmap : (s.forget locks).backends[j]? = s.backends[j]?.map (·.forget locks) :=
    List.getElem?_map
  rw [hmap]
  cases hb : s.backends[j]? with
  | none => rfl
  | some b =>
    cases b with
    | baseline b => rfl
    | store st =>
      have hu : locks.issuer ≠ st.id := h st (store?_eq_some.2 hb)
      rw [Option.map_some, Backend.forget, Store.forget, if_neg hu]

theorem getElem?_letGo (who : Holder) (mode : HoldMode) (h : j ≠ i) :
    (s.letGo who i mode).backends[j]? = s.backends[j]? :=
  List.getElem?_modify_ne _ _ h.symm

theorem getElem?_hold? {who : Holder} {mode : HoldMode} {t : Session V}
    (ht : s.hold? who i mode = some (.ok (some t))) (h : j ≠ i) :
    t.backends[j]? = s.backends[j]? := by
  obtain ⟨b, -, hb⟩ := Option.map_eq_some_iff.1 ht
  obtain ⟨b', -, hb'⟩ := map_eq_ok hb
  obtain ⟨b'', -, rfl⟩ := Option.map_eq_some_iff.1 hb'
  exact getElem?_setBackend b'' h

theorem getElem?_resolve {how : Resolution} {batch : List (Command V)} {locks : LockSet}
    {a : Answer (Session V) (Except Violation Unit)} (ha : s.resolve how i batch locks = some a)
    (h : j ≠ i) (hu : ∀ st, s.store? j = some st → locks.issuer ≠ st.id) :
    a.state.backends[j]? = s.backends[j]? := by
  cases hi : s.store? i with
  | none =>
    rw [resolve_of_no_store hi] at ha
    cases ha
  | some st =>
    rw [resolve_of_store hi] at ha
    obtain rfl := Option.some.inj ha
    dsimp only
    split
    · exact getElem?_setBackend (s := s.retire locks) _ h
    · rw [getElem?_forget]
      · exact getElem?_setBackend (s := s.retire locks) _ h
      · intro st' hj
        rw [store?_setStore (s := s.retire locks) hi, if_neg h] at hj
        exact hu st' hj

variable [BEq V]

theorem getElem?_call (c : Call V) (h : j ≠ i) :
    (s.call i c).state.backends[j]? = s.backends[j]? := by
  unfold call
  dsimp only
  split
  · exact getElem?_setBackend (s := s.note _) _ h
  · rfl

theorem getElem?_acquire {who : Holder} {batch : List (Command V)}
    {a : Answer (Session V) (Except Fault LockSet)} (ha : s.acquire who i batch = some a)
    (h : j ≠ i) : a.state.backends[j]? = s.backends[j]? := by
  unfold acquire at ha
  split at ha
  · dsimp only at ha
    split at ha
    · obtain rfl := Option.some.inj ha
      exact getElem?_setBackend _ h
    · obtain rfl := Option.some.inj ha
      exact getElem?_setBackend _ h
  · cases ha

end

end Session

namespace World

/-- The store or the baseline of a number. -/
def backend? (j : Nat) (w : World V) : Option (Backend V) := w.session.backends[j]?

/-- The backends that a move is about: the one it is on, the one that issued the lock set which it
ends, and the one on which a party lets go of its hold. -/
inductive Concerns (w : World V) : Move V → Nat → Prop where
  | at {m : Move V} {i : Nat} (h : m.store? = some i) : Concerns w m i
  | issuer {m : Move V} {i : Nat} {st : Store V} {locks : LockSet} (hm : locks ∈ w.locks)
    (he : m.ends? = some locks.holder) (hs : ∀ n, m.store? = some n → w.store? n ≠ none)
    (hi : w.store? i = some st) (hu : locks.issuer = st.id) : Concerns w m i
  | letGo {h : Hold} (hm : h ∈ w.holds) : Concerns w (.letGo h.who) h.store

/-- The move gives a live lock set to the store of number `i`, which did not issue it. -/
structure Foreign (w : World V) (m : Move V) (locks : LockSet) (i : Nat) (st : Store V) :
    Prop where
  resolves : ∃ how batch, m = .resolve how locks.holder i batch
  live : locks ∈ w.locks
  store : w.store? i = some st
  foreign : locks.issuer ≠ st.id

/-- No move of the run is about the backend of number `j`. -/
def Spares [BEq V] (j : Nat) : List (Move V) → World V → Prop
  | [], _ => True
  | m :: ms, w => ¬ w.Concerns m j ∧ Spares j ms (w.step m).state

/-- A store has got the locks of a lock set back, and is otherwise as it was. -/
structure GotBack (locks : LockSet) (st st' : Store V) : Prop where
  bare : st' = { st with cells := st'.cells }
  unlocked : ∀ k, locks.keys.contains k = true → ∃ c, st.cells.get? k = some c ∧
    c.lock = .exclusive locks.holder ∧ st'.cells.get? k = some { c with lock := .free }
  kept : ∀ k, ¬ locks.keys.contains k = true → st'.cells.get? k = st.cells.get? k
  contents : st'.contents = st.contents

/-- From `w` to `w'` the issuer of a lock set, which is not the store of number `i`, has got its
locks back, and all other stores and baselines are as they were. -/
def Returned (w w' : World V) (locks : LockSet) (i : Nat) : Prop :=
  ∃ n st st', n ≠ i ∧ w.store? n = some st ∧ st.id = locks.issuer ∧ w'.store? n = some st' ∧
    GotBack locks st st' ∧ ∀ j, j ≠ n → w'.backend? j = w.backend? j

/-! ## One move -/

/-- The acquire phase of a batch is about its own store. -/
theorem Concerns.of_acquire {w : World V} {who : Holder} {i j : Nat} {batch : List (Command V)}
    (h : w.Concerns (.acquire who i batch) j) : j = i := by
  cases h with
  | «at» hs => exact (Option.some.inj hs).symm
  | issuer _ he => cases he

section
variable [BEq V] {w : World V} {j : Nat}

/-- A move leaves every backend that it is not about. -/
theorem step_frame {m : Move V} (h : ¬ w.Concerns m j) :
    (w.step m).state.backend? j = w.backend? j := by
  have hat : ∀ {i : Nat}, m.store? = some i → j ≠ i := fun hs hj => h (.at (hj ▸ hs))
  have hissuer : ∀ {locks : LockSet}, locks ∈ w.locks → m.ends? = some locks.holder →
      (∀ n, m.store? = some n → w.store? n ≠ none) →
      ∀ st, w.store? j = some st → locks.issuer ≠ st.id :=
    fun hm he hs st hi hu => h (.issuer hm he hs hi hu)
  cases m with
  | name keys => rfl
  | call i c => exact Session.getElem?_call c (hat rfl)
  | acquire who i batch =>
    rw [step]
    split
    · rfl
    · show (w.session.acquireAs who i (.ok batch)).state.backends[j]? = _
      unfold Session.acquireAs
      split
      · rfl
      · dsimp only
        split
        · next a ha => exact Session.getElem?_acquire (s := w.session.noteBatch batch) ha (hat rfl)
        · rfl
  | resolve how who i batch =>
    show (w.session.endAs how who i batch).state.backends[j]? = _
    rw [Session.endAs, Session.withLocks]
    split
    · next locks hl =>
      obtain ⟨hm, rfl⟩ := Session.mem_of_lockSet? hl
      split
      · next a ha =>
        refine Session.getElem?_resolve ha (hat rfl) (hissuer hm rfl fun n hn hnone => ?_)
        rw [Session.resolve_of_no_store (Option.some.inj hn ▸ hnone)] at ha
        cases ha
      · rfl
    · rfl
  | drop who =>
    show (w.session.dropAs who).state.backends[j]? = _
    rw [Session.dropAs, Session.withLocks]
    split
    · next locks hl =>
      obtain ⟨hm, rfl⟩ := Session.mem_of_lockSet? hl
      exact Session.getElem?_forget (hissuer hm rfl fun _ hs => by cases hs)
    · rfl
  | hold who i mode =>
    rw [step]
    split
    · rfl
    · split
      · rfl
      · rfl
      · rfl
      · next s hs => exact Session.getElem?_hold? hs (hat rfl)
  | letGo who =>
    rw [step]
    split
    · rfl
    · next hd hf =>
      have hm : hd ∈ w.holds := List.mem_of_find?_eq_some hf
      obtain rfl : hd.who = who := by simpa using List.find?_some hf
      exact Session.getElem?_letGo hd.who hd.mode fun hj => h (hj ▸ .letGo hm)

/-- So does a run. -/
theorem after_frame {ms : List (Move V)} (h : w.Spares j ms) :
    (w.after ms).backend? j = w.backend? j := by
  induction ms generalizing w with
  | nil => rfl
  | cons m ms ih => exact (ih h.2).trans (step_frame h.1)

omit [BEq V] in
/-- But for a lock set that is given to a foreign store, a move is about one backend at most. -/
theorem Owned.concerns_unique (hw : w.Owned) {m : Move V} {i : Nat}
    (hf : ∀ locks n st, ¬ w.Foreign m locks n st) (hi : w.Concerns m i) (hj : w.Concerns m j) :
    i = j := by
  -- the store that a lock set is resolved on is the one that issued it
  have hown : ∀ {n k : Nat} {st : Store V} {locks : LockSet}, locks ∈ w.locks →
      m.ends? = some locks.holder → (∀ n, m.store? = some n → w.store? n ≠ none) →
      w.store? k = some st → locks.issuer = st.id → m.store? = some n → n = k := by
    intro n k st locks hm he hs hk hu hn
    obtain ⟨st', hn'⟩ := Option.ne_none_iff_exists'.1 (hs n hn)
    have hm' : ∃ how batch, m = .resolve how locks.holder n batch := by
      cases m <;> cases he <;> cases hn
      exact ⟨_, _, rfl⟩
    have hid : locks.issuer = st'.id :=
      Classical.not_not.1 fun hne => hf locks n st' ⟨hm', hm, hn', hne⟩
    exact hw.distinct hn' hk (hid.symm.trans hu)
  cases hi with
  | «at» hi =>
    cases hj with
    | «at» hj => exact Option.some.inj (hi.symm.trans hj)
    | issuer hm he hs hk hu => exact hown hm he hs hk hu hi
    | letGo hm => cases hi
  | issuer hm he hs hk hu =>
    cases hj with
    | «at» hj => exact (hown hm he hs hk hu hj).symm
    | issuer hm' he' hs' hk' hu' =>
      obtain rfl := hw.eq_of_holder hm hm' (Option.some.inj (he'.symm.trans he))
      exact hw.distinct hk hk' (hu.symm.trans hu')
    | letGo hm' => cases he
  | @letGo h hm =>
    generalize hwho : h.who = who at hj
    cases hj with
    | «at» hj => cases hj
    | issuer hm' he' => cases he'
    | @letGo h' hm' =>
      have hn := (List.nodup_append.1 hw.parties).2.1
      rw [List.inj_on_of_nodup_map hn hm hm' hwho]

omit [BEq V] in
/-- The store that issued a live lock set only gets its locks back when the lock set is let go. -/
theorem Owned.gotBack (hw : w.Owned) {locks : LockSet} (hm : locks ∈ w.locks) {st : Store V}
    (hi : w.store? j = some st) (hu : locks.issuer = st.id) :
    GotBack locks st (st.forget locks) := by
  refine ⟨?_, fun k hk => ?_, fun k hk => Store.forget_slot_of_not_mem fun _ => hk,
    Store.contents_forget locks st⟩
  · rw [Store.forget, if_pos hu]
  · obtain ⟨c, hc, hl⟩ := hw.linked_cell hi hm hu hk
    refine ⟨c, hc, hl, ?_⟩
    rw [Store.get?_forget, if_pos hu, Store.forgottenSlot, if_pos hk, hc, Option.map_some,
      Cell.release, hl, Lock.release_exclusive_self]

/-- A lock set that is given to a store which did not issue it is lost.  The store that issued it
gets its locks back, and nothing else happens. -/
theorem Owned.resolve_foreign (hw : w.Owned) {m : Move V} {locks : LockSet} {i : Nat}
    {st : Store V} (h : w.Foreign m locks i st) :
    (w.step m).reply = .violated (.wrongStore locks.issuer st.id) ∧
      w.Returned (w.step m).state locks i := by
  obtain ⟨⟨how, batch, rfl⟩, hm, hi, hne⟩ := h
  obtain ⟨ho, -, -, -, hother⟩ := hw.resolve_state hm hi (w.step_effect _)
  obtain ⟨n, issuer, hn, hu⟩ := hw.issued locks hm
  have hni : n ≠ i := by
    rintro rfl
    rw [hn] at hi
    obtain rfl := Option.some.inj hi
    exact hne hu.symm
  refine ⟨?_, n, issuer, issuer.forget locks, hni, hn, hu, ?_, ?_, fun j hj => ?_⟩
  · rw [ho, (Store.run_foreign hne).2]
    rfl
  · rw [hother hne n, hn]
    rfl
  · exact hw.gotBack hm hn hu.symm
  · by_cases hji : j = i
    · -- the store that was given the lock set has nothing to let go of
      subst hji
      have hj' : (w.step (.resolve how locks.holder j batch)).state.store? j = some st := by
        rw [hother hne j, hi, Option.map_some, Store.forget, if_neg hne]
      exact (Session.store?_eq_some.1 hj').trans (Session.store?_eq_some.1 hi).symm
    · refine step_frame fun hc => ?_
      cases hc with
      | «at» hs => exact hji (Option.some.inj hs).symm
      | issuer hm' he _ hk hu' =>
        obtain rfl := hw.eq_of_holder hm' hm (Option.some.inj he)
        exact hj (hw.distinct hk hn (hu'.symm.trans hu.symm))

/-! ## A batch around nested steps -/

/-- Of another backend than its own, a batch around nested steps leaves what these left. -/
theorem apply_frame (h : w.Reachable) {depth i : Nat} (hb : w.Below depth)
    (batch : List (Command V)) (durable : Option Bool) (during : List (Step V)) (hj : j ≠ i) :
    (Session.runStep depth (.apply i (.ok batch) durable during) w.session).2.backends[j]? =
      (w.session.undecided depth i batch during).backends[j]? := by
  rcases apply_cases h hb i batch durable during rfl with ⟨-, hu, hs⟩ | ⟨locks, hr, hu, hs⟩
  · rw [hu, hs]
    exact step_frame (m := .acquire (.nested depth) i batch) fun hc => hj hc.of_acquire
  · have h₁ : (w.step (.acquire (.nested depth) i batch)).state.Reachable := h.step _
    obtain ⟨ms, hp⟩ := runSteps_plays (depth + 1) during _ h₁ (below_acquire hb i batch)
    obtain ⟨hm, hl, -, -, st, hi, hid⟩ := h.acquired_kept rfl hr hp.not_ends
    rw [hu, hs ms hp, ← hp.session]
    have hends : (decision depth i batch durable).ends? = some (.nested depth) := by
      cases durable <;> rfl
    have hat : ∀ n, (decision depth i batch durable).store? = some n → n = i := fun n hn => by
      cases durable <;> cases hn
      rfl
    generalize decision depth i batch durable = m at hends hat
    refine step_frame (m := m) fun hc => ?_
    cases hc with
    | «at» hn => exact hj (hat j hn)
    | issuer hm' he _ hk hu' =>
      have hh : locks.holder = .nested depth := (Session.mem_of_lockSet? hl).2
      have hwho : _ = locks.holder := (Option.some.inj (he.symm.trans hends)).trans hh.symm
      obtain rfl := (h₁.after ms).owned.eq_of_holder hm hm' hwho
      exact hj ((h₁.after ms).owned.distinct hk hi (hu'.symm.trans hid))
    | letGo hm' => cases hends

/-! ## No interference -/

/-- The backends of a session do not interfere. -/
structure Apart (w : World V) : Prop where
  /-- A move leaves every backend that it is not about. -/
  frame : ∀ (m : Move V) (j : Nat), ¬ w.Concerns m j →
    (w.step m).state.backend? j = w.backend? j
  /-- So does a run, as long as it lasts. -/
  run : ∀ (ms : List (Move V)) (j : Nat), w.Spares j ms → (w.after ms).backend? j = w.backend? j
  /-- A batch around nested steps is about its own backend, whatever the nested steps are about. -/
  apply : ∀ (depth i j : Nat) (batch : List (Command V)) (durable : Option Bool)
    (during : List (Step V)), w.Below depth → j ≠ i →
    (Session.runStep depth (.apply i (.ok batch) durable during) w.session).2.backends[j]? =
      (w.session.undecided depth i batch during).backends[j]?
  /-- A move is about one backend at most, unless it gives a lock set to a foreign store. -/
  single : ∀ (m : Move V) (i j : Nat), (∀ locks n st, ¬ w.Foreign m locks n st) →
    w.Concerns m i → w.Concerns m j → i = j
  /-- That is a violation, and only gives the issuer its locks back. -/
  foreign : ∀ (m : Move V) (locks : LockSet) (i : Nat) (st : Store V), w.Foreign m locks i st →
    (w.step m).reply = .violated (.wrongStore locks.issuer st.id) ∧
      w.Returned (w.step m).state locks i

/-- In every reachable world, stores and baselines do not interfere. -/
theorem no_interference (h : w.Reachable) : w.Apart :=
  ⟨fun _ _ => step_frame, fun _ _ => after_frame,
    fun _ _ _ batch durable during hb => apply_frame h hb batch durable during,
    fun _ _ _ => h.owned.concerns_unique, fun _ _ _ _ => h.owned.resolve_foreign⟩

end

/-- A batch is acquired on one store and committed on another one, which has its keys as well. -/
theorem no_interference_foreign : ∃ s : Session Nat,
    Session.start [⟨false, .standard, [], [("a", 1)]⟩, ⟨false, .standard, [], [("a", 1)]⟩] =
      .ok s ∧
    let batch : List (Command Nat) := [.set "a" 2 none, .set "b" 3 none]
    let w := after [.acquire (.named "x") 0 batch] ⟨s, []⟩
    w.Apart ∧ (w.step (.resolve .commit (.named "x") 1 batch)).reply =
      .violated (.wrongStore 1 2) := by
  have hs : Session.start [(⟨false, .standard, [], [("a", 1)]⟩ : Backend.Plan Nat),
    ⟨false, .standard, [], [("a", 1)]⟩] = .ok _ := rfl
  refine ⟨_, hs, ?_⟩
  intro batch w
  have ha : w.Apart := no_interference ((Reachable.start hs).after _)
  have hf : w.Foreign (.resolve .commit (.named "x") 1 batch)
      ⟨1, .named "x", .ofList [("a", ()), ("b", ())]⟩ 1
      (.ofRows 2 Config.default.lockTimeout [("a", 1)]) :=
    ⟨⟨.commit, batch, rfl⟩, List.mem_cons_self, rfl, by decide⟩
  exact ⟨ha, (ha.foreign _ _ _ _ hf).1⟩

end World

end TwoPhaseStore
