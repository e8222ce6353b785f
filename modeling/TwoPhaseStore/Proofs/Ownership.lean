import Mathlib.Data.List.Nodup
import TwoPhaseStore.Proofs.Setup
import TwoPhaseStore.Proofs.World

/-!
Who holds the locks.  In every reachable world each lock of each store is held by exactly the
parties whose lock set or hold is on it:

    w.Reachable → w.store? i = some st → (st.lockOn target).HeldBy (w.Guards i st.id target)

Parties come to a lock one at a time, when the lock admits them, and leave all their locks at once
(`Owned.leave`).  However a lock set ends, its holder leaves all its locks: by a commit or an abort
that returns, by one that is stopped halfway, on a foreign store, or by a drop.
-/

namespace TwoPhaseStore

open Session (Resolution)

variable {V : Type}

/-! ## Guards -/

/-- The lock set entitles `who` to the lock of `target` in the store with this `id`. -/
def LockSet.Guards (locks : LockSet) (id : Nat) (target : Option Key) (mode : LockMode)
    (who : Holder) : Prop :=
  locks.issuer = id ∧ (∃ k, target = some k ∧ locks.keys.contains k = true) ∧
    mode = .exclusive ∧ who = locks.holder

/-- The hold entitles `who` to the lock of `target` in the store of number `i`. -/
def Hold.Guards (h : Hold) (i : Nat) (target : Option Key) (mode : LockMode) (who : Holder) :
    Prop :=
  h.store = i ∧ h.mode.key? = target ∧ mode = h.mode.mode ∧ who = h.who

namespace World

/-- The parties that are entitled to the lock of `target` in the store of number `i`. -/
def Guards (w : World V) (i id : Nat) (target : Option Key) (mode : LockMode) (who : Holder) :
    Prop :=
  (∃ locks ∈ w.locks, locks.Guards id target mode who) ∨
    ∃ h ∈ w.holds, h.Guards i target mode who

/-- Every lock is held by those who are entitled to it, and every entitlement is to a lock. -/
structure Owned (w : World V) : Prop where
  distinct : ∀ {i j st st'}, w.store? i = some st → w.store? j = some st' → st.id = st'.id → i = j
  parties : w.parties.Nodup
  issued : ∀ locks ∈ w.locks, ∃ i st, w.store? i = some st ∧ st.id = locks.issuer
  held : ∀ {i st}, w.store? i = some st → ∀ target,
    (st.lockOn target).HeldBy (w.Guards i st.id target)

theorem guards_mem_parties {w : World V} {i id : Nat} {target : Option Key} {mode : LockMode}
    {who : Holder} (h : w.Guards i id target mode who) : who ∈ w.parties := by
  rcases h with ⟨locks, hm, -, -, -, rfl⟩ | ⟨h, hm, -, -, -, rfl⟩
  · exact List.mem_append_left _ (List.mem_map_of_mem hm)
  · exact List.mem_append_right _ (List.mem_map_of_mem hm)

section
variable {w w' : World V}

/-- A party with a lock set has no other lock set and no hold. -/
theorem guards_of_locks (hp : w.parties.Nodup) {locks : LockSet} (hm : locks ∈ w.locks)
    {i id : Nat} {target : Option Key} {mode : LockMode}
    (h : w.Guards i id target mode locks.holder) : locks.Guards id target mode locks.holder := by
  obtain ⟨hl, -, hd⟩ := List.nodup_append.1 hp
  rcases h with ⟨other, hm', h⟩ | ⟨h, hm', -, -, -, he⟩
  · obtain rfl : other = locks := List.inj_on_of_nodup_map hl hm' hm h.2.2.2.symm
    exact h
  · exact absurd he (hd _ (List.mem_map_of_mem hm) _ (List.mem_map_of_mem hm'))

/-- A party with a hold has no other hold and no lock set. -/
theorem guards_of_hold (hp : w.parties.Nodup) {h : Hold} (hm : h ∈ w.holds) {i id : Nat}
    {target : Option Key} {mode : LockMode} (hg : w.Guards i id target mode h.who) :
    h.Guards i target mode h.who := by
  obtain ⟨-, hl, hd⟩ := List.nodup_append.1 hp
  rcases hg with ⟨locks, hm', -, -, -, he⟩ | ⟨other, hm', hg⟩
  · exact absurd he.symm (hd _ (List.mem_map_of_mem hm') _ (List.mem_map_of_mem hm))
  · obtain rfl : other = h := List.inj_on_of_nodup_map hl hm' hm hg.2.2.2.symm
    exact hg

namespace Owned

/-- A party has one lock set at most. -/
theorem eq_of_holder (hw : w.Owned) {locks other : LockSet} (hm : locks ∈ w.locks)
    (hm' : other ∈ w.locks) (he : other.holder = locks.holder) : other = locks :=
  List.inj_on_of_nodup_map (List.nodup_append.1 hw.parties).1 hm' hm he

/-- A holder has the one lock set that is found by its name. -/
theorem lockSet?_eq (hw : w.Owned) {locks : LockSet} (hm : locks ∈ w.locks) :
    w.session.lockSet? locks.holder = some locks := by
  cases hf : w.session.lockSet? locks.holder with
  | none => exact absurd rfl (Session.lockSet?_eq_none.1 hf locks hm)
  | some other =>
    obtain ⟨hm', he⟩ := Session.mem_of_lockSet? hf
    exact congrArg some (hw.eq_of_holder hm hm' he)

/-! ## What is owned -/

section
variable (hw : w.Owned) {i : Nat} {st : Store V} (hi : w.store? i = some st)

include hw hi

theorem lockAt_eq {locks : LockSet} (hm : locks ∈ w.locks) (hu : locks.issuer = st.id) {k : Key}
    (hk : locks.keys.contains k = true) : st.lockAt k = .exclusive locks.holder :=
  (hw.held hi (some k)).eq_exclusive (.inl ⟨locks, hm, hu, ⟨k, rfl, hk⟩, rfl, rfl⟩)

/-- The keys of a lock set are linked. -/
theorem linked {locks : LockSet} (hm : locks ∈ w.locks) (hu : locks.issuer = st.id) {k : Key}
    (hk : locks.keys.contains k = true) : st.cells.get? k ≠ none := by
  intro hn
  have hl : st.lockAt k = .exclusive locks.holder := hw.lockAt_eq hi hm hu hk
  rw [Store.lockAt, hn] at hl
  cases hl

theorem linked_cell {locks : LockSet} (hm : locks ∈ w.locks) (hu : locks.issuer = st.id) {k : Key}
    (hk : locks.keys.contains k = true) :
    ∃ c, st.cells.get? k = some c ∧ c.lock = .exclusive locks.holder := by
  obtain ⟨c, hc⟩ := Option.ne_none_iff_exists'.1 (hw.linked hi hm hu hk)
  have hl : st.lockAt k = .exclusive locks.holder := hw.lockAt_eq hi hm hu hk
  rw [Store.lockAt, hc] at hl
  exact ⟨c, hc, hl⟩

theorem not_mem_holders {target : Option Key} {who : Holder}
    (h : ∀ mode, ¬ w.Guards i st.id target mode who) : who ∉ (st.lockOn target).holders :=
  (hw.held hi target).not_mem_holders h

/-- A party leaves a lock that it does not have. -/
theorem release_eq {target : Option Key} {who : Holder}
    (h : ∀ mode, ¬ w.Guards i st.id target mode who) :
    (st.lockOn target).release who = st.lockOn target :=
  Lock.release_of_not_mem (hw.not_mem_holders hi h)

/-- However it ends, a lock set is resolved up to some command. -/
theorem exists_resolves {locks : LockSet} (hm : locks ∈ w.locks) (hu : locks.issuer = st.id)
    (how : Resolution) (batch : List (Command V)) :
    ∃ done rest, Store.Resolves how batch locks st done rest :=
  Store.run_resolves hu fun _ => hw.linked hi hm hu

end

/-! ## Keys that are held -/

section
variable (hw : w.Owned) {h : Hold} (hm : h ∈ w.holds) {k : Key} (hk : h.mode.key? = some k)
  {st : Store V} (hi : w.store? h.store = some st)

include hw hm hk hi

/-- Who has a hold on a key has its lock. -/
theorem grants_hold : (st.lockAt k).Grants h.mode.mode h.who :=
  ((hw.held hi (some k)).2 _ _).2 (.inr ⟨h, hm, rfl, hk, rfl, rfl⟩)

/-- A key that somebody has a hold on is in no lock set. -/
theorem not_contains_of_hold {locks : LockSet} (hl : locks ∈ w.locks)
    (hu : locks.issuer = st.id) : ¬ locks.keys.contains k = true := by
  intro hc
  have hg := hw.grants_hold hm hk hi
  rw [hw.lockAt_eq hi hl hu hc, Lock.grants_exclusive] at hg
  have hd := (List.nodup_append.1 hw.parties).2.2
  exact hd _ (List.mem_map_of_mem hl) _ (List.mem_map_of_mem hm) hg.2.symm

end

/-! ## Locks that are let go -/

section
variable (hw : w.Owned) {i : Nat} {st : Store V} (hi : w.store? i = some st)

include hw hi

/-- A lock set is on no lock but those of its keys. -/
theorem holder_not_mem {locks : LockSet} (hm : locks ∈ w.locks) (target : Option Key)
    (h : ∀ k, target = some k → locks.keys.contains k = true → locks.issuer ≠ st.id) :
    locks.holder ∉ (st.lockOn target).holders := by
  refine hw.not_mem_holders hi fun mode hg => ?_
  obtain ⟨hu, ⟨k, hk, hc⟩, -⟩ := guards_of_locks hw.parties hm hg
  exact h k hk hc hu

theorem run_lockOn {locks : LockSet} (hm : locks ∈ w.locks) (hu : locks.issuer = st.id)
    (how : Resolution) (batch : List (Command V)) (target : Option Key) :
    (how.run batch locks st).state.lockOn target = (st.lockOn target).release locks.holder := by
  obtain ⟨done, rest, h⟩ := hw.exists_resolves hi hm hu how batch
  obtain ⟨cells, hst, hg⟩ := h.cells
  rw [hst]
  cases target with
  | none => exact (Lock.release_of_not_mem (hw.holder_not_mem hi hm none (by simp))).symm
  | some k =>
    show Slot.lock (cells.get? k) = _
    rw [hg]
    refine Store.lock_resolvedSlot h (hw.lockAt_eq hi hm hu) fun hk => ?_
    exact hw.holder_not_mem hi hm (some k) fun j hj hc => by
      obtain rfl := Option.some.inj hj
      exact absurd hc hk

theorem forget_lockOn {locks : LockSet} (hm : locks ∈ w.locks) (target : Option Key) :
    (st.forget locks).lockOn target = (st.lockOn target).release locks.holder := by
  unfold Store.forget
  split
  · next hu =>
    cases target with
    | none => exact (Lock.release_of_not_mem (hw.holder_not_mem hi hm none (by simp))).symm
    | some k =>
      show Slot.lock ((Store.unlock locks.holder locks.keys st.cells).get? k) = _
      rw [Store.get?_unlock]
      refine Store.lock_forgottenSlot fun hk => ?_
      exact hw.holder_not_mem hi hm (some k) fun j hj hc => by
        obtain rfl := Option.some.inj hj
        exact absurd hc hk
  · next hu =>
    exact (Lock.release_of_not_mem (hw.holder_not_mem hi hm target fun _ _ _ => hu)).symm

theorem letGo_lockOn {h : Hold} (hm : h ∈ w.holds) (target : Option Key) :
    (st.letGo h.who h.mode).lockOn target = (st.lockOn target).release h.who := by
  rw [Store.letGo_eq]
  by_cases ht : h.mode.key? = target
  · rw [ht]
    exact st.lockOn_relock_self target _ fun _ _ _ => Lock.release_free _
  · rw [st.lockOn_relock_of_ne _ _ ht]
    refine (hw.release_eq hi fun mode hg => ?_).symm
    exact ht (guards_of_hold hw.parties hm hg).2.1

end

/-! ## The end of a lock set -/

/-- A party resolves the lock set it has: on the store that issued it, or else it is let go. -/
theorem resolve_state [BEq V] (hw : w.Owned) {how : Resolution} {batch : List (Command V)}
    {o : Outcome V} {locks : LockSet} (hm : locks ∈ w.locks) {i : Nat} {st : Store V}
    (hi : w.store? i = some st) (h : w.Effect (.resolve how locks.holder i batch) o w') :
    o = .ofResolution .done (how.run batch locks st).reply ∧
      w'.locks = w.locks.filter (·.holder ≠ locks.holder) ∧ w'.holds = w.holds ∧
      (locks.issuer = st.id → w.Changes w' i (how.run batch locks st).state) ∧
      (locks.issuer ≠ st.id → ∀ j, w'.store? j = (w.store? j).map (·.forget locks)) := by
  generalize hwho : locks.holder = who at h
  cases h with
  | idle h =>
    cases h with
    | nameInUse hm' => cases hm'
    | noLocks hm' hn => cases hm'; exact absurd hwho (hn locks hm)
    | unsupported hm' hi' => cases hm'; rw [hi'] at hi; cases hi
  | resolved st' locks' hm' hi' hu hs hl hh ho' =>
    obtain rfl := Option.some.inj (hi.symm.trans hi')
    obtain rfl := hw.eq_of_holder hm hm' hwho.symm
    refine ⟨?_, hl, hh, fun _ => hs, fun hn => absurd hu hn⟩
    rcases ho' with ⟨hr, rfl⟩ | ⟨v, hr, rfl⟩ <;> rw [hr] <;> rfl
  | forgotten locks' hm' hs hl hh ho' =>
    rcases ho' with ⟨he, -⟩ | ⟨how', i', batch', st', he, hi', hu, rfl⟩
    · cases he
    · cases he
      obtain rfl := Option.some.inj (hi.symm.trans hi')
      obtain rfl := hw.eq_of_holder hm hm' hwho.symm
      refine ⟨?_, hl, hh, fun hn => absurd hn hu, fun _ => hs⟩
      rw [(Store.run_foreign hu).2]
      rfl

/-- A party drops the lock set it has. -/
theorem drop_state [BEq V] (hw : w.Owned) {o : Outcome V} {locks : LockSet}
    (hm : locks ∈ w.locks) (h : w.Effect (.drop locks.holder) o w') :
    o = .done .done ∧ w'.locks = w.locks.filter (·.holder ≠ locks.holder) ∧ w'.holds = w.holds ∧
      ∀ j, w'.store? j = (w.store? j).map (·.forget locks) := by
  generalize hwho : locks.holder = who at h
  cases h with
  | idle h =>
    cases h with
    | nameInUse hm' => cases hm'
    | noLocks hm' hn => cases hm'; exact absurd hwho (hn locks hm)
    | unsupported hm' hi' => cases hm'
  | forgotten locks' hm' hs hl hh ho' =>
    rcases ho' with ⟨he, rfl⟩ | ⟨how', i', batch', st', he, -⟩
    · cases he
      obtain rfl := hw.eq_of_holder hm hm' hwho.symm
      exact ⟨rfl, hl, hh, hs⟩
    · cases he

/-! ## Parties that come and leave -/

section
variable [BEq V] {m : Move V} {o : Outcome V} (hw : w.Owned) (he : w.Effect m o w')

include hw he

theorem distinct_after {i j : Nat} {st st' : Store V} (hi : w'.store? i = some st)
    (hj : w'.store? j = some st') (hid : st.id = st'.id) : i = j := by
  obtain ⟨s, hi, hs⟩ := he.store_before hi
  obtain ⟨s', hj, hs'⟩ := he.store_before hj
  exact hw.distinct hi hj (hs.symm.trans (hid.trans hs'))

theorem issued_after {locks : LockSet} (hm : locks ∈ w.locks) :
    ∃ i st, w'.store? i = some st ∧ st.id = locks.issuer := by
  obtain ⟨i, st, hi, hu⟩ := hw.issued locks hm
  obtain ⟨st', hi', hid⟩ := he.store_after hi
  exact ⟨i, st', hi', hid.trans hu⟩

/-- Nobody comes or leaves. -/
theorem stay (hl : w'.locks = w.locks) (hh : w'.holds = w.holds)
    (hs : ∀ {i st st'}, w.store? i = some st → w'.store? i = some st' →
      ∀ target, st'.lockOn target = st.lockOn target) : w'.Owned := by
  refine ⟨hw.distinct_after he, ?_, fun locks hm => hw.issued_after he (hl ▸ hm),
    fun {i st'} hi' target => ?_⟩
  · have hp : (w'.locks.map (·.holder) ++ w'.holds.map (·.who)).Nodup := by
      rw [hl, hh]
      exact hw.parties
    exact hp
  · obtain ⟨st, hi, hid⟩ := he.store_before hi'
    rw [hs hi hi', hid]
    refine (hw.held hi target).congr fun mode who => ?_
    rw [Guards, Guards, hl, hh]

/-- A party leaves all its locks. -/
theorem leave (who : Holder) (hl : w'.locks = w.locks.filter (·.holder ≠ who))
    (hh : w'.holds = w.holds.filter (·.who ≠ who))
    (hs : ∀ {i st st'}, w.store? i = some st → w'.store? i = some st' →
      ∀ target, st'.lockOn target = (st.lockOn target).release who) : w'.Owned := by
  refine ⟨hw.distinct_after he, ?_, fun locks hm => ?_, fun {i st'} hi' target => ?_⟩
  · have hp : (w'.locks.map (·.holder) ++ w'.holds.map (·.who)).Nodup := by
      rw [hl, hh]
      exact hw.parties.sublist ((List.filter_sublist.map _).append (List.filter_sublist.map _))
    exact hp
  · rw [hl] at hm
    exact hw.issued_after he (List.mem_filter.1 hm).1
  · obtain ⟨st, hi, hid⟩ := he.store_before hi'
    rw [hs hi hi', hid]
    refine ((hw.held hi target).release who).congr fun mode h => ?_
    simp only [Guards, hl, hh, List.mem_filter, decide_eq_true_eq]
    constructor
    · rintro ⟨⟨locks, hm, hg⟩ | ⟨h', hm, hg⟩, hne⟩
      · exact .inl ⟨locks, ⟨hm, hg.2.2.2 ▸ hne⟩, hg⟩
      · exact .inr ⟨h', ⟨hm, hg.2.2.2 ▸ hne⟩, hg⟩
    · rintro (⟨locks, ⟨hm, hne⟩, hg⟩ | ⟨h', ⟨hm, hne⟩, hg⟩)
      · exact ⟨.inl ⟨locks, hm, hg⟩, hg.2.2.2 ▸ hne⟩
      · exact ⟨.inr ⟨h', hm, hg⟩, hg.2.2.2 ▸ hne⟩

/-- A party comes and takes some locks, each in a mode in which it is admitted.  `N` says which:
those that it is entitled to from then on. -/
theorem enter {who : Holder} (hn : who ∉ w.parties) (hp : w'.parties.Perm (who :: w.parties))
    (hi : ∀ locks ∈ w'.locks, ∃ i st, w'.store? i = some st ∧ st.id = locks.issuer)
    (N : Nat → Nat → Option Key → LockMode → Holder → Prop)
    (hg : ∀ i id target mode h, w'.Guards i id target mode h ↔
      w.Guards i id target mode h ∨ N i id target mode h)
    (hs : ∀ {i st st'}, w.store? i = some st → w'.store? i = some st' → ∀ target,
      (∃ mode, (∀ mode' h, N i st.id target mode' h ↔ mode' = mode ∧ h = who) ∧
        (st.lockOn target).take? mode who = some (st'.lockOn target)) ∨
      (∀ mode h, ¬ N i st.id target mode h) ∧ st'.lockOn target = st.lockOn target) :
    w'.Owned := by
  refine ⟨hw.distinct_after he, hp.nodup_iff.2 (List.nodup_cons.2 ⟨hn, hw.parties⟩), hi,
    fun {i st'} hi' target => ?_⟩
  obtain ⟨st, hi, hid⟩ := he.store_before hi'
  rw [hid]
  rcases hs hi hi' target with ⟨mode, hN, ht⟩ | ⟨hN, ht⟩
  · have hh : ∀ mode, ¬ w.Guards i st.id target mode who :=
      fun mode h => hn (guards_mem_parties h)
    refine ((hw.held hi target).take ht hh).congr fun mode' h => ?_
    rw [hg, hN]
  · rw [ht]
    refine (hw.held hi target).congr fun mode h => ?_
    rw [hg]
    exact ⟨.inl, fun hc => hc.resolve_right (hN mode h)⟩

end

/-! ## Every move -/

theorem filter_locks (hp : w.parties.Nodup) {h : Hold} (hm : h ∈ w.holds) :
    w.locks.filter (·.holder ≠ h.who) = w.locks := by
  have hd := (List.nodup_append.1 hp).2.2
  refine List.filter_eq_self.2 fun locks hl => decide_eq_true ?_
  exact hd _ (List.mem_map_of_mem hl) _ (List.mem_map_of_mem hm)

theorem filter_holds (hp : w.parties.Nodup) {locks : LockSet} (hm : locks ∈ w.locks) :
    w.holds.filter (·.who ≠ locks.holder) = w.holds := by
  have hd := (List.nodup_append.1 hp).2.2
  refine List.filter_eq_self.2 fun h hh => decide_eq_true ?_
  exact (hd _ (List.mem_map_of_mem hm) _ (List.mem_map_of_mem hh)).symm

section
variable [BEq V] {m : Move V} {o : Outcome V} (hw : w.Owned) (he : w.Effect m o w') {i : Nat}

include hw he

theorem enter_lockSet {who : Holder} {batch : List (Command V)} {st : Store V} {locks : LockSet}
    (hn : who ∉ w.parties) (hi : w.store? i = some st)
    (hr : (st.acquire who batch).reply = .ok locks)
    (hs : w.Changes w' i (st.acquire who batch).state) (hl : w'.locks = locks :: w.locks)
    (hh : w'.holds = w.holds) : w'.Owned := by
  obtain ⟨-, -, hlock, ⟨hu, rfl, hk⟩, cells, hst, hg⟩ := Store.acquire_ok hr
  refine hw.enter he hn ?_ (fun other hm => ?_) (fun _ => locks.Guards)
    (fun j id target mode h => ?_) (fun {j sj sj'} hj hj' target => ?_)
  · show (w'.locks.map (·.holder) ++ w'.holds.map (·.who)).Perm _
    rw [hl, hh]
    exact List.Perm.refl _
  · rw [hl] at hm
    rcases List.mem_cons.1 hm with rfl | hm
    · exact ⟨i, _, (hs i).trans (if_pos rfl), (Store.acquire_id _ _ _).trans hu.symm⟩
    · exact hw.issued_after he hm
  · simp only [Guards, hl, hh, List.mem_cons, exists_eq_or_imp]
    rw [or_assoc, or_comm]
  · by_cases hji : j = i
    · subst hji
      obtain rfl := Option.some.inj (hi.symm.trans hj)
      obtain rfl : sj' = { st with cells := cells } := by
        rw [hs j, if_pos rfl, hst] at hj'
        exact (Option.some.inj hj').symm
      cases target with
      | none => exact .inr ⟨fun mode h hc => by simp [LockSet.Guards] at hc, rfl⟩
      | some k =>
        by_cases hb : k ∈ batch.map Command.key
        · refine .inl ⟨.exclusive, fun mode h => ?_, ?_⟩
          · have hk' : locks.keys.contains k = true := (hk k).2 hb
            simp [LockSet.Guards, hu, hk']
          · obtain ⟨c, hc, rfl⟩ := List.mem_map.1 hb
            have hf : st.lockAt c.key = .free := hlock.free c hc
            show (st.lockAt c.key).claim? locks.holder = some (Slot.lock (cells.get? c.key))
            rw [hf, hg, if_pos hb]
            rfl
        · refine .inr ⟨fun mode h hc => ?_, ?_⟩
          · obtain ⟨-, ⟨k', hkk, hc⟩, -⟩ := hc
            obtain rfl := Option.some.inj hkk
            exact hb ((hk k).1 hc)
          · show Slot.lock (cells.get? k) = _
            rw [hg, if_neg hb]
            rfl
    · refine .inr ⟨fun mode h hc => hji (hw.distinct hj hi (hc.1.symm.trans hu)), ?_⟩
      rw [hs j, if_neg hji, hj] at hj'
      rw [Option.some.inj hj']

/-- A new hold is on one lock. -/
theorem enter_hold {who : Holder} {mode : HoldMode} (hn : who ∉ w.parties)
    (hs : ∀ {j st st'}, w.store? j = some st → w'.store? j = some st' →
      st' = st ∧ j ≠ i ∨ j = i ∧ ∃ l, (∀ k, mode.key? = some k → st.cells.get? k ≠ none) ∧
        (st.lockOn mode.key?).take? mode.mode who = some l ∧
        st' = st.relock mode.key? fun _ => l)
    (hl : w'.locks = w.locks) (hh : w'.holds = ⟨who, i, mode⟩ :: w.holds) : w'.Owned := by
  refine hw.enter he hn ?_ (fun locks hm => hw.issued_after he (hl ▸ hm))
    (fun j _ => Hold.Guards ⟨who, i, mode⟩ j) (fun j id target mode' h => ?_)
    (fun {j st st'} hj hj' target => ?_)
  · show (w'.locks.map (·.holder) ++ w'.holds.map (·.who)).Perm _
    rw [hl, hh]
    exact List.perm_middle
  · simp only [Guards, hl, hh, List.mem_cons, exists_eq_or_imp]
    rw [or_left_comm, or_comm]
  · rcases hs hj hj' with ⟨rfl, hji⟩ | ⟨rfl, l, hk, ht, rfl⟩
    · exact .inr ⟨fun mode' h hc => hji hc.1.symm, rfl⟩
    · by_cases htt : mode.key? = target
      · subst htt
        refine .inl ⟨mode.mode, fun mode' h => by simp [Hold.Guards], ?_⟩
        rw [st.lockOn_relock_self _ _ fun k hk' hc => absurd hc (hk k hk'), ht]
      · exact .inr ⟨fun mode' h hc => htt hc.2.1, st.lockOn_relock_of_ne _ _ htt⟩

/-- The invariant is kept by every move. -/
theorem step_owned : w'.Owned := by
  cases he' : he with
  | idle h hs =>
    exact hw.stay he hs.locks hs.holds fun {i st st'} hi hi' target => by
      rw [hs.stores, hi] at hi'
      rw [Option.some.inj hi']
  | called st hi hs hl hh =>
    refine hw.stay he hl hh fun {j s s'} hj hj' target => ?_
    rw [hs] at hj'
    split at hj'
    · next hji =>
      obtain rfl := Option.some.inj (hi.symm.trans (hji ▸ hj))
      rw [← Option.some.inj hj', Store.call_lockOn]
    · rw [Option.some.inj (hj.symm.trans hj')]
  | acquired st locks hn hi hr hs hl hh => exact hw.enter_lockSet he hn hi hr hs hl hh
  | resolved st locks hm hi hu hs hl hh =>
    refine hw.leave he locks.holder hl (hh.trans (filter_holds hw.parties hm).symm)
      fun {j s s'} hj hj' target => ?_
    rw [hs] at hj'
    split at hj'
    · next hji =>
      obtain rfl := Option.some.inj (hi.symm.trans (hji ▸ hj))
      rw [← Option.some.inj hj', hw.run_lockOn hi hm hu]
    · next hji =>
      obtain rfl := Option.some.inj (hj.symm.trans hj')
      refine (Lock.release_of_not_mem (hw.holder_not_mem hj hm target fun _ _ _ hu' => ?_)).symm
      exact hji (hw.distinct hj hi (hu'.symm.trans hu))
  | forgotten locks hm hs hl hh =>
    refine hw.leave he locks.holder hl (hh.trans (filter_holds hw.parties hm).symm)
      fun {j s s'} hj hj' target => ?_
    rw [hs, hj] at hj'
    rw [← Option.some.inj hj', hw.forget_lockOn hj hm]
  | held st st' hn hi hr hs hl hh =>
    obtain ⟨hk, l, ht, rfl⟩ := Store.hold?_ok hr
    refine hw.enter_hold he hn (fun {j s s'} hj hj' => ?_) hl hh
    rw [hs] at hj'
    split at hj'
    · next hji =>
      obtain rfl := Option.some.inj (hi.symm.trans (hji ▸ hj))
      exact .inr ⟨hji, l, hk, ht, (Option.some.inj hj').symm⟩
    · next hji => exact .inl ⟨Option.some.inj (hj'.symm.trans hj), hji⟩
  | heldBaseline hn hi hs hl hh =>
    refine hw.enter_hold he hn (fun {j s s'} hj hj' => .inl ⟨?_, ?_⟩) hl hh
    · rw [hs, hj] at hj'
      exact (Option.some.inj hj').symm
    · rintro rfl
      rw [hi] at hj
      cases hj
  | letGo h hm hs hl hh =>
    refine hw.leave he h.who (hl.trans (filter_locks hw.parties hm).symm) hh
      fun {j s s'} hj hj' target => ?_
    rw [hs] at hj'
    split at hj'
    · next hji =>
      rw [hj] at hj'
      rw [← Option.some.inj hj', hw.letGo_lockOn hj hm]
    · next hji =>
      obtain rfl := Option.some.inj (hj.symm.trans hj')
      exact (hw.release_eq hj fun mode hg => hji (guards_of_hold hw.parties hm hg).1.symm).symm

end

end Owned

end

/-! ## Marks -/

/-- In every store the marks tell which cells have a payload. -/
def Sound (w : World V) : Prop := ∀ i st, w.store? i = some st → st.Sound

theorem Owned.sound_step [BEq V] {w w' : World V} {m : Move V} {o : Outcome V} (hw : w.Owned)
    (he : w.Effect m o w') (hs : w.Sound) : w'.Sound := by
  have hc : ∀ {i : Nat} {st : Store V}, w.Changes w' i st → st.Sound → w'.Sound := by
    intro i st hch hst j s hj
    rw [hch] at hj
    split at hj
    · rwa [← Option.some.inj hj]
    · exact hs j s hj
  cases he with
  | idle h hsame => exact fun j s hj => hs j s (hsame.stores j ▸ hj)
  | called st hi hch => exact hc hch (Store.call_sound _ (hs _ st hi))
  | acquired st locks hn hi hr hch =>
    obtain ⟨-, -, -, -, cells, hst, hg⟩ := Store.acquire_ok hr
    refine hc hch fun k => ?_
    rw [hst, hg]
    split
    · exact Slot.sound_claimed _ (hs _ st hi k)
    · exact hs _ st hi k
  | resolved st locks hm hi hu hch =>
    obtain ⟨done, rest, h⟩ := hw.exists_resolves hi hm hu _ _
    obtain ⟨cells, hst, hg⟩ := h.cells
    refine hc hch fun k => ?_
    rw [hst, hg]
    exact Store.sound_resolvedSlot h k (hs _ st hi k)
  | forgotten locks hm hch =>
    intro j s hj
    rw [hch, Option.map_eq_some_iff] at hj
    obtain ⟨st, hi, rfl⟩ := hj
    exact Store.sound_forget locks (hs _ st hi)
  | held st st' hn hi hr hch =>
    obtain ⟨-, l, -, rfl⟩ := Store.hold?_ok hr
    exact hc hch (Store.sound_relock _ _ (hs _ st hi))
  | heldBaseline hn hi hch => exact fun j s hj => hs j s (hch j ▸ hj)
  | letGo h hm hch =>
    intro j s hj
    rw [hch] at hj
    split at hj
    · obtain ⟨st, hi, rfl⟩ := Option.map_eq_some_iff.1 hj
      rw [Store.letGo_eq]
      exact Store.sound_relock _ _ (hs _ st hi)
    · exact hs j s hj

/-! ## Reachable worlds -/

theorem owned_start {plans : List (Backend.Plan V)} {s : Session V}
    (h : Session.start plans = .ok s) : Owned ⟨s, []⟩ := by
  obtain ⟨-, -, -, hl⟩ := Session.start_eq h
  have hg : ∀ {i id : Nat} {target : Option Key} {mode : LockMode} {who : Holder},
      ¬ Guards ⟨s, []⟩ i id target mode who := by
    rintro i id target mode who (⟨locks, hm, -⟩ | ⟨h, hm, -⟩)
    · have hm' : locks ∈ s.locks := hm
      rw [hl] at hm'
      cases hm'
    · cases hm
  refine ⟨Session.eq_of_start h, ?_, fun locks hm => ?_, fun {i st} hi target => ?_⟩
  · show (s.locks.map LockSet.holder ++ []).Nodup
    rw [hl]
    exact List.nodup_nil
  · have hm' : locks ∈ s.locks := hm
    rw [hl] at hm'
    cases hm'
  · obtain ⟨p, timeout, -, -, hst⟩ := Session.store_of_start h hi
    rw [hst, Store.lockOn_ofRows]
    exact Lock.HeldBy.of_free fun _ _ => hg

theorem sound_start {plans : List (Backend.Plan V)} {s : Session V}
    (h : Session.start plans = .ok s) : Sound ⟨s, []⟩ := by
  intro i st hi
  obtain ⟨p, timeout, -, -, hst⟩ := Session.store_of_start h hi
  rw [hst]
  exact Store.sound_ofRows _ _ _

section
variable [BEq V] {w : World V}

theorem Reachable.owned (h : w.Reachable) : w.Owned := by
  induction h with
  | start h => exact owned_start h
  | step m h ih => exact ih.step_owned (step_effect _ m)

theorem Reachable.sound (h : w.Reachable) : w.Sound := by
  induction h with
  | start h => exact sound_start h
  | step m h ih => exact h.owned.sound_step (step_effect _ m) ih

end

end World

end TwoPhaseStore
