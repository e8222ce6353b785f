import TwoPhaseStore.Proofs.Isolation
import TwoPhaseStore.Proofs.Refusal
import TwoPhaseStore.Proofs.Store.Report

/-!
The order of the commands of a batch.  It decides which fault is reported when the batch cannot be
locked, and nothing else:

    batch'.Perm batch → w.OrderFree who i batch batch'                        (acquire_order_free)

An acquire phase goes through if the keys are distinct and all free and all conditions are
satisfied (`Store.Lockable`), which no order changes, and then it treats each key by itself.  A
resolution that returns has processed all commands of the batch, each key once, so it comes to the
same as well.
-/

namespace TwoPhaseStore

open Session (Resolution)

variable {V : Type}

/-- Where the rows say nothing, a table is the set of its keys. -/
theorem Table.ext_contains {t u : Table Unit}
    (h : ∀ k, t.contains k = true ↔ u.contains k = true) : t = u := by
  apply ext_get?
  intro k
  have hk := h k
  unfold contains at hk
  cases ht : t.get? k <;> cases hu : u.get? k <;> simp_all

namespace Store

/-! ## Acquire -/

/-- The keys of a batch in any order make one lock set. -/
theorem ofList_keys_perm {batch batch' : List (Command V)} (hp : batch'.Perm batch) :
    Table.ofList (batch'.map fun c => (c.key, ())) =
      Table.ofList (batch.map fun c => (c.key, ())) := by
  apply Table.ext_contains
  intro k
  rw [contains_ofList_keys, contains_ofList_keys, (hp.map Command.key).mem_iff]

section
variable [BEq V] {who : Holder} {batch batch' : List (Command V)} {s : Store V}

theorem Lockable.perm {cells : Table (Cell V)} (h : Lockable cells batch)
    (hp : batch'.Perm batch) : Lockable cells batch' where
  distinct := (hp.map Command.key).nodup_iff.2 h.distinct
  free := fun c hc => h.free c (hp.mem_iff.1 hc)
  satisfied := fun c hc => h.satisfied c (hp.mem_iff.1 hc)

theorem lockAll_perm (hp : batch'.Perm batch) {n : Nat} {cells t : Table (Cell V)}
    (h : lockAll who batch n cells = .ok t) : lockAll who batch' n cells = .ok t := by
  obtain ⟨hl, hg⟩ := get?_lockAll h
  obtain ⟨t', ht'⟩ := (lockAll_eq_ok_iff who n).2 (hl.perm hp)
  obtain ⟨-, hg'⟩ := get?_lockAll ht'
  have ht : t' = t := by
    apply Table.ext_get?
    intro k
    rw [hg, hg']
    simp only [(hp.map Command.key).mem_iff]
  rw [ht', ht]

/-- A batch that is locked is locked in any order, with the same answer in all its parts. -/
theorem acquire_perm (hp : batch'.Perm batch) {locks : LockSet}
    (h : (s.acquire who batch).reply = .ok locks) : s.acquire who batch' = s.acquire who batch := by
  obtain ⟨hb, hs, -⟩ := acquire_ok h
  have hb' : batch' ≠ [] := by
    intro he
    subst he
    exact hb hp.nil_eq.symm
  unfold acquire at h ⊢
  rw [if_neg (mt List.isEmpty_iff.1 hb), if_pos (Lock.isFree_iff.2 hs)] at h ⊢
  rw [if_neg (mt List.isEmpty_iff.1 hb'), if_pos (Lock.isFree_iff.2 hs)]
  cases ht : lockAll who batch 0 s.cells with
  | error e =>
    rw [ht] at h
    cases h
  | ok t =>
    rw [lockAll_perm hp ht, ofList_keys_perm hp, hp.length_eq, hp.countP_eq]

theorem acquire_perm_error (hp : batch'.Perm batch) {f : Fault}
    (h : (s.acquire who batch).reply = .error f) :
    ∃ f', (s.acquire who batch').reply = .error f' := by
  cases hr : (s.acquire who batch').reply with
  | error f' => exact ⟨f', rfl⟩
  | ok locks =>
    rw [acquire_perm hp.symm hr, hr] at h
    cases h

end

/-! ## Resolution -/

section
variable {how : Resolution} {batch batch' : List (Command V)} {locks : LockSet} {s : Store V}

/-- A resolution that returns reports that it is done, and nothing else. -/
theorem run_events (h : (how.run batch locks s).reply = .ok ()) :
    (how.run batch locks s).events = [how.closing batch.length] := by
  rcases run_reports how batch locks s with ⟨-, he⟩ | ⟨v, hr, -⟩
  · exact he
  · rw [h] at hr
    cases hr

/-- Of distinct keys each has the slot that its command leaves, in any order. -/
theorem settledSlot_perm (hp : batch'.Perm batch) (hn : (batch.map Command.key).Nodup)
    (who : Holder) (j : Key) (slot : Slot V) :
    settledSlot how who batch' j slot = settledSlot how who batch j slot := by
  have hn' : (batch'.map Command.key).Nodup := (hp.map Command.key).nodup_iff.2 hn
  by_cases hj : j ∈ batch.map Command.key
  · obtain ⟨c, hc, rfl⟩ := List.mem_map.1 hj
    rw [settledSlot_of_mem hn hc, settledSlot_of_mem hn' (hp.mem_iff.2 hc)]
  · have hj' : j ∉ batch'.map Command.key := fun h => hj ((hp.map Command.key).mem_iff.1 h)
    rw [settledSlot_of_not_mem hj, settledSlot_of_not_mem hj']

/-- A resolution that returns does so in any order, with the same answer in all its parts. -/
theorem run_perm (hu : locks.issuer = s.id)
    (hl : ∀ k, locks.keys.contains k = true → s.cells.get? k ≠ none) (hp : batch'.Perm batch)
    (h : (how.run batch locks s).reply = .ok ()) :
    how.run batch' locks s = how.run batch locks s := by
  obtain ⟨done, rest, hr⟩ : ∃ done rest, Resolves how batch locks s done rest := run_resolves hu hl
  obtain ⟨done', rest', hr'⟩ : ∃ done rest, Resolves how batch' locks s done rest :=
    run_resolves hu hl
  have h' : (how.run batch' locks s).reply = .ok () := by
    obtain ⟨hn, hk, hg⟩ := hr.returns_iff.1 h
    refine hr'.returns_iff.2 ⟨(hp.map Command.key).nodup_iff.2 hn, fun k => ?_, fun hc c hm => ?_⟩
    · rw [hk, (hp.map Command.key).mem_iff]
    · exact hg hc c (hp.mem_iff.1 hm)
  -- both have gone through their batches to the end
  obtain rfl : batch = done := by rw [hr.split, (hr.returns.1 h).1, List.append_nil]
  obtain rfl : batch' = done' := by rw [hr'.split, (hr'.returns.1 h').1, List.append_nil]
  have hst : (how.run batch' locks s).state = (how.run batch locks s).state := by
    obtain ⟨cells, hc, hg⟩ := hr.cells
    obtain ⟨cells', hc', hg'⟩ := hr'.cells
    have he : cells' = cells := by
      apply Table.ext_get?
      intro j
      rw [hg, hg', resolvedSlot, resolvedSlot, settledSlot_perm hp hr.distinct]
      simp only [(hp.map Command.key).mem_iff]
    rw [hc, hc', he]
  have he : (how.run batch' locks s).events = (how.run batch locks s).events := by
    rw [run_events h, run_events h', hp.length_eq]
  rw [← h] at h'
  cases hb : how.run batch locks s
  cases hb' : how.run batch' locks s
  rw [hb, hb'] at h' hst he
  cases h'
  cases hst
  cases he
  rfl

end

end Store

/-! ## Sessions -/

theorem Session.noteBatch_perm {batch batch' : List (Command V)} (hp : batch'.Perm batch)
    (s : Session V) : s.noteBatch batch' = s.noteBatch batch := by
  have hn : ∀ (b : List (Command V)) (k : Key),
      ((b.map (·.key)).foldl (fun t k => t.insert k ()) s.named).contains k = true ↔
        k ∈ b.map Command.key ∨ s.named.contains k = true := by
    intro b k
    have hr := Table.contains_foldl_insert (b.map fun c => (c.key, ())) s.named k
    rw [List.foldl_map, List.map_map] at hr
    rw [List.foldl_map]
    exact hr
  unfold noteBatch note
  congr 1
  apply Table.ext_contains
  intro k
  rw [hn, hn, (hp.map Command.key).mem_iff]

namespace World

section
variable [BEq V] {w : World V} {who : Holder} {i : Nat} {batch batch' : List (Command V)}

/-- The acquire phase of a party that has nothing yet is the one of the session. -/
theorem step_acquire (hw : who ∉ w.parties) : w.step (.acquire who i batch) =
    match (w.session.noteBatch batch).acquire who i batch with
    | some a => w.answer ⟨.ofReply (a.reply.map .locks), a.events, a.state⟩
    | none => w.answer (w.session.reply .unsupported) := by
  have hn : w.session.lockSet? who = none := by
    apply Session.lockSet?_eq_none.2
    intro locks hm he
    exact hw (List.mem_append_left _ (he ▸ List.mem_map_of_mem hm))
  rw [step, if_neg hw, Session.acquireAs, hn, Option.isSome_none, if_neg Bool.false_ne_true]
  cases (w.session.noteBatch batch).acquire who i batch <;> rfl

/-- What a batch is answered depends on its order only if it cannot be locked, and what becomes of
it does not. -/
theorem step_acquire_perm (w : World V) (who : Holder) (i : Nat) (hp : batch'.Perm batch) :
    (w.step (.acquire who i batch')).state = (w.step (.acquire who i batch)).state ∧
      ∀ locks, (w.step (.acquire who i batch)).reply = .done (.locks locks) →
        w.step (.acquire who i batch') = w.step (.acquire who i batch) := by
  by_cases hw : who ∈ w.parties
  · rw [step, step, if_pos hw, if_pos hw]
    exact ⟨rfl, fun _ _ => rfl⟩
  · rw [step_acquire hw, step_acquire hw, Session.noteBatch_perm hp]
    cases hi : w.store? i with
    | none =>
      have hi' : (w.session.noteBatch batch).store? i = none := hi
      rw [Session.acquire_of_no_store hi', Session.acquire_of_no_store hi']
      exact ⟨rfl, fun _ _ => rfl⟩
    | some st =>
      have hi' : (w.session.noteBatch batch).store? i = some st := hi
      cases hr : (st.acquire who batch).reply with
      | error f =>
        obtain ⟨f', hr'⟩ := Store.acquire_perm_error hp hr
        rw [Session.acquire_error hi' hr, Session.acquire_error hi' hr', (Store.acquire_error hr).1,
          (Store.acquire_error hr').1]
        exact ⟨rfl, fun _ h => by cases h⟩
      | ok locks =>
        have he := Store.acquire_perm hp hr
        have hr' : (st.acquire who batch').reply = .ok locks := he ▸ hr
        rw [Session.acquire_ok hi' hr, Session.acquire_ok hi' hr', he]
        exact ⟨rfl, fun _ _ => rfl⟩

/-- A batch that is not locked leaves all stores, baselines, lock sets and holds as they were. -/
theorem step_acquire_failed
    (h : ∀ locks, (w.step (.acquire who i batch)).reply ≠ .done (.locks locks)) :
    w.session.Intact (w.step (.acquire who i batch)).state.session ∧
      (w.step (.acquire who i batch)).state.holds = w.holds := by
  by_cases hw : who ∈ w.parties
  · rw [step, if_pos hw]
    exact ⟨⟨rfl, rfl⟩, rfl⟩
  · rw [step_acquire hw] at h ⊢
    cases ha : (w.session.noteBatch batch).acquire who i batch with
    | none => exact ⟨⟨rfl, rfl⟩, rfl⟩
    | some a =>
      rw [ha] at h
      cases hr : a.reply with
      | ok locks =>
        refine absurd ?_ (h locks)
        show Outcome.ofReply (a.reply.map .locks) = _
        rw [hr]
        rfl
      | error f =>
        obtain ⟨hs, -⟩ := Session.acquire_refused_intact ha hr
        exact ⟨⟨hs.backends, hs.locks⟩, rfl⟩

/-- A live lock set that is resolved with a batch is so in any order, with the same answer in all
its parts, if it returns. -/
theorem Owned.step_resolve_perm (hw : w.Owned) {locks : LockSet} (hm : locks ∈ w.locks)
    {st : Store V} (hi : w.store? i = some st) (hu : locks.issuer = st.id) {how : Resolution}
    (hp : batch'.Perm batch) (h : (how.run batch locks st).reply = .ok ()) :
    w.step (.resolve how locks.holder i batch') = w.step (.resolve how locks.holder i batch) := by
  have hrun := Store.run_perm hu (fun _ => hw.linked hi hm hu) hp h
  have hs : ∀ b, w.step (.resolve how locks.holder i b) =
      w.answer (w.session.endAs how locks.holder i b) := fun _ => rfl
  rw [hs, hs, Session.endAs, Session.endAs, Session.withLocks, Session.withLocks, hw.lockSet?_eq hm]
  simp only [Session.resolve_of_store hi, hrun]

end

/-! ## Any order -/

/-- A batch in two orders: they differ in nothing but the fault that is reported. -/
structure OrderFree [BEq V] (w : World V) (who : Holder) (i : Nat)
    (batch batch' : List (Command V)) : Prop where
  /-- Either both are locked, and then with one lock set, or none is. -/
  locked_iff : ∀ locks, (w.step (.acquire who i batch')).reply = .done (.locks locks) ↔
    (w.step (.acquire who i batch)).reply = .done (.locks locks)
  /-- What comes of it is the same in any case. -/
  state : (w.step (.acquire who i batch')).state = (w.step (.acquire who i batch)).state
  /-- If they are locked, the lock set has the keys of the batch, and what is reported is the same
  as well. -/
  locked : ∀ locks, (w.step (.acquire who i batch)).reply = .done (.locks locks) →
    (∀ k, locks.keys.contains k = true ↔ k ∈ batch.map Command.key) ∧
      w.step (.acquire who i batch') = w.step (.acquire who i batch)
  /-- If they are not, nothing has happened. -/
  failed : (∀ locks, (w.step (.acquire who i batch)).reply ≠ .done (.locks locks)) →
    w.session.Intact (w.step (.acquire who i batch)).state.session ∧
      (w.step (.acquire who i batch)).state.holds = w.holds
  /-- After one was locked, and whatever others did since, it can be ended in the other order. -/
  resolved : ∀ locks (ms : List (Move V)) how,
    (w.step (.acquire who i batch)).reply = .done (.locks locks) →
    (∀ m ∈ ms, m.ends? ≠ some who) → (how = .commit → ∀ c ∈ batch, c.method ≠ .get) →
    let w' := (w.step (.acquire who i batch)).state.after ms
    (w'.step (.resolve how who i batch')).reply = .done .done ∧
      w'.step (.resolve how who i batch') = w'.step (.resolve how who i batch)

theorem acquire_order_free [BEq V] {w : World V} (h : w.Reachable) (who : Holder) (i : Nat)
    {batch batch' : List (Command V)} (hp : batch'.Perm batch) :
    w.OrderFree who i batch batch' := by
  obtain ⟨hst, hok⟩ := step_acquire_perm w who i hp
  obtain ⟨-, hok'⟩ := step_acquire_perm w who i hp.symm
  refine ⟨fun locks => ⟨fun hr => ?_, fun hr => ?_⟩, hst, fun locks hr => ⟨?_, hok locks hr⟩,
    step_acquire_failed, fun locks ms how hr hms hg => ?_⟩
  · rw [hok' locks hr, hr]
  · rw [hok locks hr, hr]
  · obtain ⟨-, -, -, hk, -⟩ := h.acquired_kept rfl hr (List.forall_mem_nil _)
    exact hk
  · obtain ⟨hm, hl, hn, hk, st, hi, hu⟩ := h.acquired_kept rfl hr hms
    have hw := ((h.step (.acquire who i batch)).after ms).owned
    obtain ⟨-, rfl⟩ := Session.mem_of_lockSet? hl
    obtain ⟨done, rest, hres⟩ := hw.exists_resolves hi hm hu how batch
    have hrun := hres.returns_iff.2 ⟨hn, hk, hg⟩
    have heq := hw.step_resolve_perm hm hi hu hp hrun
    exact ⟨heq ▸ (hw.step_resolve hm hi hu how batch).2 hrun, heq⟩

/-- An existing key and a new one, in both orders. -/
theorem acquire_order_free_single :
    let w : World Nat := ⟨Session.single [("a", 1)], []⟩
    let batch : List (Command Nat) := [.set "a" 2 (some 1), .del "b"]
    let batch' : List (Command Nat) := [.del "b", .set "a" 2 (some 1)]
    batch'.Perm batch ∧ w.OrderFree (.named "x") 0 batch batch' ∧
      (w.step (.acquire (.named "x") 0 batch)).reply =
        .done (.locks ⟨1, .named "x", .ofList [("a", ()), ("b", ())]⟩) := by
  intro w batch batch'
  have hr : w.Reachable := .start (Session.start_single [("a", 1)])
  have hp : batch'.Perm batch := List.Perm.swap _ _ _
  exact ⟨hp, acquire_order_free hr _ 0 hp, rfl⟩

end World

end TwoPhaseStore
