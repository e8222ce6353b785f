import TwoPhaseStore.Proofs.Ownership

/-!
Between the acquire phase of a batch and its resolution the keys of the batch are out of reach.
Whatever the other parties do meanwhile, the slots of these keys stay as they are (`after_keeps`),
operations on them are refused, and so is every batch that names one of them.  So the conditions
that held in the acquire phase still hold at commit.
-/

namespace TwoPhaseStore

open Session (Resolution)

variable {V : Type}

namespace World

/-! ## Slots out of reach -/

section
variable [BEq V] {w w' : World V} {m : Move V} {o : Outcome V} {locks : LockSet} {i : Nat}
  {st st' : Store V}

/-- A move of somebody else leaves a live lock set and the slots of its keys. -/
theorem Effect.keeps (he : w.Effect m o w') (hw : w.Owned) (hm : locks ∈ w.locks)
    (hne : m.ends? ≠ some locks.holder) (hi : w.store? i = some st) (hu : locks.issuer = st.id)
    (hi' : w'.store? i = some st') :
    locks ∈ w'.locks ∧ ∀ k, locks.keys.contains k = true →
      st'.cells.get? k = st.cells.get? k := by
  have hl : ∀ {k}, locks.keys.contains k = true → st.lockAt k = .exclusive locks.holder :=
    fun hk => hw.lockAt_eq hi hm hu hk
  have hch : ∀ {j : Nat} {s s' : Store V}, w.store? j = some s → w.Changes w' j s' →
      (j = i → s = st → ∀ k, locks.keys.contains k = true →
        s'.cells.get? k = st.cells.get? k) →
      ∀ k, locks.keys.contains k = true → st'.cells.get? k = st.cells.get? k := by
    intro j s s' hj hc h
    rw [hc i] at hi'
    split at hi'
    · next hij =>
      subst hij
      rw [← Option.some.inj hi']
      exact h rfl (Option.some.inj (hj.symm.trans hi))
    · rw [Option.some.inj (hi.symm.trans hi')]
      exact fun _ _ => rfl
  -- a key of the lock set is no key of another live one
  have hother : ∀ {other : LockSet}, other ∈ w.locks → other.holder ≠ locks.holder →
      other.issuer = st.id → ∀ {k}, locks.keys.contains k = true →
      ¬ other.keys.contains k = true := by
    intro other hm' hh hu' k hk hk'
    exact hh (Lock.exclusive.inj ((hw.lockAt_eq hi hm' hu' hk').symm.trans (hl hk)))
  cases he with
  | idle h hs =>
    rw [hs.stores, hi] at hi'
    rw [hs.locks, Option.some.inj hi']
    exact ⟨hm, fun _ _ => rfl⟩
  | @called j c _ s hj hc hlk =>
    refine ⟨hlk ▸ hm, hch hj hc ?_⟩
    rintro - rfl k hk
    exact Store.call_slot_of_locked c (by rw [hl hk]; exact nofun)
  | acquired s locks' hn hj hr hc hlk =>
    refine ⟨hlk ▸ List.mem_cons_of_mem _ hm, hch hj hc ?_⟩
    rintro - rfl k hk
    exact Store.acquire_slot_of_locked _ _ (by rw [hl hk]; exact nofun)
  | resolved s other hm' hj hu' hc hlk =>
    have hh : other.holder ≠ locks.holder := fun he => hne (congrArg some he)
    refine ⟨hlk ▸ List.mem_filter.2 ⟨hm, decide_eq_true hh.symm⟩, hch hj hc ?_⟩
    rintro - rfl k hk
    obtain ⟨done, rest, h⟩ := hw.exists_resolves hj hm' hu' _ _
    exact h.slot_of_not_mem (hother hm' hh hu' hk)
  | forgotten other hm' hf hlk hh ho =>
    have hh : other.holder ≠ locks.holder := fun he => by
      rcases ho with ⟨rfl, -⟩ | ⟨how, j, batch, s, rfl, -⟩ <;> exact hne (congrArg some he)
    refine ⟨hlk ▸ List.mem_filter.2 ⟨hm, decide_eq_true hh.symm⟩, fun k hk => ?_⟩
    rw [hf, hi] at hi'
    rw [← Option.some.inj hi']
    exact Store.forget_slot_of_not_mem fun hu' => hother hm' hh hu' hk
  | held s s' hn hj hr hc hlk =>
    refine ⟨hlk ▸ hm, hch hj hc ?_⟩
    rintro - rfl k hk
    exact Store.hold?_slot_of_locked hr (hl hk)
  | heldBaseline hn hj hc hlk =>
    rw [hc, hi] at hi'
    rw [Option.some.inj hi']
    exact ⟨hlk ▸ hm, fun _ _ => rfl⟩
  | letGo h hm' hc hlk =>
    refine ⟨hlk ▸ hm, fun k hk => ?_⟩
    rw [hc, hi] at hi'
    split at hi'
    · rw [← Option.some.inj hi']
      refine Store.letGo_slot_of_locked _ (hl hk) fun he => ?_
      have hd := (List.nodup_append.1 hw.parties).2.2
      exact hd _ (List.mem_map_of_mem hm) _ (List.mem_map_of_mem hm') he
    · rw [Option.some.inj hi']

/-- So do any moves of others. -/
theorem Reachable.after_keeps (h : w.Reachable) (hm : locks ∈ w.locks) {ms : List (Move V)}
    (hne : ∀ m ∈ ms, m.ends? ≠ some locks.holder) (hi : w.store? i = some st)
    (hu : locks.issuer = st.id) : locks ∈ (w.after ms).locks ∧
      ∃ st', (w.after ms).store? i = some st' ∧ st'.id = st.id ∧
        ∀ k, locks.keys.contains k = true → st'.cells.get? k = st.cells.get? k := by
  induction ms generalizing w st with
  | nil => exact ⟨hm, st, hi, rfl, fun _ _ => rfl⟩
  | cons m ms ih =>
    have he := w.step_effect m
    obtain ⟨st₁, hi₁, hid₁⟩ := he.store_after hi
    obtain ⟨hm₁, hk₁⟩ := he.keeps h.owned hm (hne m List.mem_cons_self) hi hu hi₁
    obtain ⟨hm₂, st₂, hi₂, hid₂, hk₂⟩ := ih (h.step m) hm₁
      (fun m' hm' => hne m' (List.mem_cons_of_mem _ hm')) hi₁ (hu.trans hid₁.symm)
    exact ⟨hm₂, st₂, hi₂, hid₂.trans hid₁, fun k hk => (hk₂ k hk).trans (hk₁ k hk)⟩

/-- A lock set is found by its holder as long as others move, and it has the keys of its batch. -/
theorem Reachable.acquired_kept (h : w.Reachable) {who : Holder} {batch : List (Command V)}
    {ms : List (Move V)} {w₁ : World V} (hw₁ : w₁ = (w.step (.acquire who i batch)).state)
    (hr : (w.step (.acquire who i batch)).reply = .done (.locks locks))
    (hms : ∀ m ∈ ms, m.ends? ≠ some who) :
    locks ∈ (w₁.after ms).locks ∧ (w₁.after ms).session.lockSet? who = some locks ∧
      (batch.map Command.key).Nodup ∧
      (∀ k, locks.keys.contains k = true ↔ k ∈ batch.map Command.key) ∧
      ∃ st, (w₁.after ms).store? i = some st ∧ locks.issuer = st.id := by
  have h₁ : w₁.Reachable := hw₁ ▸ h.step _
  have he := w.step_effect (.acquire who i batch)
  rw [hr, ← hw₁] at he
  obtain ⟨st₀, hi₀, hok, hi₁, hm₁, rfl, hu₁⟩ := he.acquire_done
  obtain ⟨-, -, hlock, ⟨-, -, hk⟩, -⟩ := Store.acquire_ok hok
  obtain ⟨hm, st, hi, hid, -⟩ := h₁.after_keeps hm₁ hms hi₁ hu₁
  exact ⟨hm, (h₁.after ms).owned.lockSet?_eq hm, hlock.distinct, hk, st, hi, hu₁.trans hid.symm⟩

/-! ## The commit of an isolated batch -/

/-- A lock set that is resolved on the store that issued it is resolved there. -/
theorem Owned.step_resolve (hw : w.Owned) (hm : locks ∈ w.locks) (hi : w.store? i = some st)
    (hu : locks.issuer = st.id) (how : Resolution) (batch : List (Command V)) :
    (w.step (.resolve how locks.holder i batch)).state.store? i =
        some (how.run batch locks st).state ∧
      ((how.run batch locks st).reply = .ok () →
        (w.step (.resolve how locks.holder i batch)).reply = .done .done) := by
  have he := w.step_effect (.resolve how locks.holder i batch)
  obtain ⟨ho, -, -, hown, -⟩ := hw.resolve_state hm hi he
  refine ⟨(hown hu i).trans (if_pos rfl), fun hr => ?_⟩
  rw [ho, hr]
  rfl

omit [BEq V] in
/-- A batch without reads that names the keys of its lock set is committed as a whole. -/
theorem Owned.commit_returns (hw : w.Owned) (hm : locks ∈ w.locks) (hi : w.store? i = some st)
    (hu : locks.issuer = st.id) {batch : List (Command V)} (hn : (batch.map Command.key).Nodup)
    (hk : ∀ k, locks.keys.contains k = true ↔ k ∈ batch.map Command.key)
    (hg : ∀ c ∈ batch, c.method ≠ .get) :
    (Resolution.commit.run batch locks st).reply = .ok () ∧
      (Resolution.commit.run batch locks st).state.contents =
        Contents.applyAll st.contents batch := by
  obtain ⟨done, rest, h⟩ := hw.exists_resolves hi hm hu .commit batch
  obtain rfl : rest = [] := by
    cases rest with
    | nil => rfl
    | cons c post =>
      have hc : c ∈ batch := by rw [h.split]; simp
      exact absurd ((h.stopped_at_get hn hk).2 c post rfl) (hg c hc)
  obtain rfl : batch = done := by rw [h.split, List.append_nil]
  exact ⟨h.returns.2 ⟨rfl, fun k => (hk k).1⟩, h.contents_commit fun _ => hw.linked hi hm hu⟩

/-! ## Isolation -/

end

/-- What the holder of a batch can rely on in a store `st` while it holds it, `before` being the
store right after the acquire phase. -/
structure Isolated [BEq V] (w : World V) (who : Holder) (i : Nat) (batch : List (Command V))
    (before st : Store V) : Prop where
  /-- Presence, payload and mark of every key are as they were. -/
  kept : ∀ k ∈ batch.map Command.key, st.cells.get? k = before.cells.get? k
  /-- Operations that take the lock of a key are refused. -/
  refused : st.structureLock = .free → ∀ (c : Call V) (k : Key), c.locks? = some k →
    k ∈ batch.map Command.key → (w.step (.call i c)).reply = .refused (.keyLocked k)
  /-- So is every batch that names a key, unless its holder has something already. -/
  conflicting : ∀ (other : Holder) (batch' : List (Command V)) (k : Key),
    k ∈ batch.map Command.key → k ∈ batch'.map Command.key →
    (∃ f, (w.step (.acquire other i batch')).reply = .refused f) ∨
      other ∈ w.parties ∧ (w.step (.acquire other i batch')).reply = .nameInUse
  /-- All conditions hold of the contents. -/
  conditions : ∀ c ∈ batch, c.Met st.contents
  /-- A commit of the batch goes through and changes the contents by the whole batch at once. -/
  commits : (∀ c ∈ batch, c.method ≠ .get) →
    (w.step (.resolve .commit who i batch)).reply = .done .done ∧
      ∃ st', (w.step (.resolve .commit who i batch)).state.store? i = some st' ∧
        st'.contents = Contents.applyAll st.contents batch

/-- A batch is isolated from its acquire phase on until its holder ends its lock set, whatever the
others do. -/
theorem acquired_isolated [BEq V] {w : World V} (h : w.Reachable) {who : Holder} {i : Nat}
    {batch : List (Command V)} {locks : LockSet} {ms : List (Move V)}
    (hr : (w.step (.acquire who i batch)).reply = .done (.locks locks))
    (hms : ∀ m ∈ ms, m.ends? ≠ some who) :
    ∃ before st, (w.step (.acquire who i batch)).state.store? i = some before ∧
      ((w.step (.acquire who i batch)).state.after ms).store? i = some st ∧
      ((w.step (.acquire who i batch)).state.after ms).Isolated who i batch before st := by
  have h₁ : (w.step (.acquire who i batch)).state.Reachable := h.step _
  have he := w.step_effect (.acquire who i batch)
  rw [hr] at he
  generalize (w.step (.acquire who i batch)).state = w₁ at *
  obtain ⟨st₀, hi₀, hok, hi₁, hm₁, rfl, hu₁⟩ := he.acquire_done
  obtain ⟨-, -, hlock, ⟨-, -, hk⟩, -⟩ := Store.acquire_ok hok
  obtain ⟨hm, st, hi, hid, hkept⟩ := h₁.after_keeps hm₁ hms hi₁ hu₁
  have h₂ := h₁.after ms
  generalize w₁.after ms = w₂ at *
  have hu₂ : locks.issuer = st.id := hu₁.trans hid.symm
  have hl : ∀ k ∈ batch.map Command.key, st.lockAt k = .exclusive locks.holder :=
    fun k hb => h₂.owned.lockAt_eq hi hm hu₂ ((hk k).2 hb)
  refine ⟨_, st, hi₁, hi, fun k hb => hkept k ((hk k).2 hb), fun hs c k hck hb => ?_,
    fun other batch' k hb hb' => ?_, fun c hc e he => ?_, fun hget => ?_⟩
  · rw [(w₂.step_effect (.call i c)).call_reply hi, Store.call_of_locked hs hck (hl k hb)]
    rfl
  · by_cases ho : other ∈ w₂.parties
    · exact .inr ⟨ho, by rw [step, if_pos ho]; rfl⟩
    · refine .inl ?_
      rw [(w₂.step_effect (.acquire other i batch')).acquire_reply hi ho]
      cases hr' : (st.acquire other batch').reply with
      | error f => exact ⟨f, rfl⟩
      | ok locks' =>
        obtain ⟨c, hc, rfl⟩ := List.mem_map.1 hb'
        have hf : st.lockAt c.key = .free := (Store.acquire_ok hr').2.2.1.free c hc
        rw [hl c.key hb] at hf
        cases hf
  · obtain ⟨v, hv, hve⟩ :=
      ((h.sound i st₀ hi₀).satisfied_iff c).1 (hlock.satisfied c hc) e he
    have hb : c.key ∈ batch.map Command.key := List.mem_map_of_mem hc
    refine ⟨v, ?_, hve⟩
    rw [Store.contents_eq, hkept _ ((hk _).2 hb), ← Store.contents_eq, Store.contents_acquire, hv]
  · obtain ⟨hrun, hcont⟩ := h₂.owned.commit_returns hm hi hu₂ hlock.distinct hk hget
    obtain ⟨hst', hdone⟩ := h₂.owned.step_resolve hm hi hu₂ .commit batch
    exact ⟨hdone hrun, _, hst', hcont⟩

/-- Another party tries to set one key and to acquire the other. -/
theorem acquired_isolated_single : ∃ locks before st,
    let w : World Nat := ⟨Session.single [("a", 1)], []⟩
    let a := w.step (.acquire (.named "x") 0 [.set "a" 2 (some 1), .del "b"])
    let w' := a.state.after [.call 0 (.set "a" 5), .acquire (.named "y") 0 [.del "b"]]
    a.reply = .done (.locks locks) ∧ a.state.store? 0 = some before ∧ w'.store? 0 = some st ∧
      w'.Isolated (.named "x") 0 [.set "a" 2 (some 1), .del "b"] before st := by
  have hs : Reachable (⟨Session.single [("a", 1)], []⟩ : World Nat) :=
    .start (Session.start_single [("a", 1)])
  have hms : ∀ m ∈ [.call 0 (.set "a" 5), .acquire (.named "y") 0 [.del "b"]],
      Move.ends? (m : Move Nat) ≠ some (.named "x") := by simp [Move.ends?]
  have hr : (step (.acquire (.named "x") 0 [.set "a" 2 (some 1), .del "b"])
      (⟨Session.single [("a", 1)], []⟩ : World Nat)).reply =
        .done (.locks ⟨1, .named "x", .ofList [("a", ()), ("b", ())]⟩) := rfl
  obtain ⟨before, st, h⟩ := acquired_isolated hs hr hms
  exact ⟨_, before, st, hr, h⟩

end World

end TwoPhaseStore
