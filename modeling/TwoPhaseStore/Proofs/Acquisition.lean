import TwoPhaseStore.Proofs.Frame

/-!
What the acquire phase of a batch comes to, in every reachable world, whatever is held by then and
whichever placeholders are left.  The batch is gone through in order up to the first obstacle: a
command whose key is taken, by a command before it or by somebody else, or whose condition is not
met.  That one obstacle is the answer and nothing has happened; or else there is none, and the lock
set has all keys of the batch:

    st.FirstObstacle batch n c → (w.step (.acquire who i batch)).reply =
      .refused (if c's key is taken then .keyLocked c.key else .conditionFailed c.key)
    (∀ n c, ¬ st.FirstObstacle batch n c) → st.Granted who batch locks st'
                                                                              (acquire_outcome)
-/

namespace TwoPhaseStore

variable {V : Type}

namespace Store

/-! ## Obstacles -/

/-- A command cannot have the lock of its key: a command before it has it, or somebody holds it. -/
def Taken (s : Store V) (before : List (Command V)) (c : Command V) : Prop :=
  c.key ∈ before.map Command.key ∨ s.lockAt c.key ≠ .free

/-- A conditional write does not find what it expects. -/
inductive Unmet [BEq V] (s : Store V) : Command V → Prop where
  | absent {k : Key} {v e : V} (h : s.cells.get? k = none) : s.Unmet (.set k v (some e))
  | reserved {k : Key} {v e : V} {c : Cell V} (h : s.cells.get? k = some c)
    (ht : c.temporary = true) : s.Unmet (.set k v (some e))
  | other {k : Key} {v e p : V} {c : Cell V} (h : s.cells.get? k = some c)
    (hp : c.payload = some p) (hne : (p == e) = false) : s.Unmet (.set k v (some e))

/-- The command at position `n` of the batch stands in its way. -/
structure Obstacle [BEq V] (s : Store V) (batch : List (Command V)) (n : Nat) (c : Command V) :
    Prop where
  position : batch[n]? = some c
  stands : s.Taken (batch.take n) c ∨ s.Unmet c

structure FirstObstacle [BEq V] (s : Store V) (batch : List (Command V)) (n : Nat)
    (c : Command V) : Prop extends s.Obstacle batch n c where
  first : ∀ m < n, ∀ d, ¬ s.Obstacle batch m d

/-- The batch was locked: its lock set has exactly its keys, and `s'` is `s` with these held, the
absent ones by a placeholder. -/
structure Granted (s : Store V) (who : Holder) (batch : List (Command V)) (locks : LockSet)
    (s' : Store V) : Prop where
  issuer : locks.issuer = s.id
  holder : locks.holder = who
  keys : ∀ k, locks.keys.contains k = true ↔ k ∈ batch.map Command.key
  size : locks.keys.size = batch.length
  bare : s' = { s with cells := s'.cells }
  reserved : ∀ k ∈ batch.map Command.key, s.cells.get? k = none →
    s'.cells.get? k = some ⟨none, true, .exclusive who⟩
  held : ∀ k ∈ batch.map Command.key, ∀ c, s.cells.get? k = some c →
    s'.cells.get? k = some { c with lock := .exclusive who }
  kept : ∀ k ∉ batch.map Command.key, s'.cells.get? k = s.cells.get? k

section
variable [BEq V] {s : Store V} {who : Holder} {batch : List (Command V)}

theorem Sound.unmet_iff (hs : s.Sound) (c : Command V) : s.Unmet c ↔ ¬ Satisfied s.cells c := by
  constructor
  · intro h
    unfold Satisfied
    cases h with
    | absent h =>
      simp [Command.key, Command.expected?, h, Slot.cell, Cell.placeholder, Cell.satisfies]
    | @reserved k v e c h ht =>
      have hp : c.payload = none :=
        Option.isNone_iff_eq_none.1 ((Slot.sound_some.1 (h ▸ hs k)).symm.trans ht)
      simp [Command.key, Command.expected?, h, Slot.cell, Cell.satisfies, hp]
    | other h hp hne => simp [Command.key, Command.expected?, h, Slot.cell, Cell.satisfies, hp, hne]
  · intro h
    unfold Satisfied at h
    cases c with
    | get k => exact absurd rfl h
    | del k => exact absurd rfl h
    | set k v e =>
      cases e with
      | none => exact absurd rfl h
      | some e =>
        cases hc : s.cells.get? k with
        | none => exact .absent hc
        | some c =>
          cases hp : c.payload with
          | none => exact .reserved hc (by rw [Slot.sound_some.1 (hc ▸ hs k), hp]; rfl)
          | some p =>
            refine .other hc hp ?_
            simpa [Command.key, Command.expected?, hc, Slot.cell, Cell.satisfies, hp] using h

/-- There is one first obstacle at most. -/
theorem FirstObstacle.unique {n m : Nat} {c d : Command V} (h : s.FirstObstacle batch n c)
    (h' : s.FirstObstacle batch m d) : m = n ∧ d = c := by
  have hn : m = n := by
    rcases Nat.lt_trichotomy m n with hlt | he | hlt
    · exact absurd h'.toObstacle (h.first m hlt d)
    · exact he
    · exact absurd h.toObstacle (h'.first n hlt c)
  exact ⟨hn, Option.some.inj (h'.position.symm.trans (hn ▸ h.position))⟩

/-- No obstacle is in the way of a lockable batch. -/
theorem Lockable.not_obstacle (hs : s.Sound) (h : Lockable s.cells batch) (n : Nat)
    (c : Command V) : ¬ s.Obstacle batch n c := by
  rintro ⟨hn, hc⟩
  have hm : c ∈ batch := List.mem_of_getElem? hn
  rcases hc with (hd | hl) | hu
  · have hn' : ((batch.take n ++ batch.drop n).map Command.key).Nodup := by
      rw [List.take_append_drop]
      exact h.distinct
    have hr : c ∈ batch.drop n := List.mem_of_getElem? (i := 0) (by simpa using hn)
    exact Command.key_not_mem_of_nodup hn' hr hd
  · exact hl (h.free c hm)
  · exact (hs.unmet_iff c).1 hu (h.satisfied c hm)

/-- The command that is refused after some lockable ones is the first obstacle. -/
theorem Refused.firstObstacle (hs : s.Sound) {done rest : List (Command V)} {c : Command V}
    {e : Setback} (hl : Lockable s.cells done) (h : Refused s.cells done c e) :
    s.FirstObstacle (done ++ c :: rest) done.length c := by
  refine ⟨⟨by simp, ?_⟩, fun m hm d hd => hl.not_obstacle hs m d ⟨?_, ?_⟩⟩
  · rw [List.take_left]
    cases h with
    | locked hk => exact .inl hk
    | unsatisfied _ _ hn => exact .inr ((hs.unmet_iff c).2 hn)
  · rw [← hd.position, List.getElem?_append_left hm]
  · rw [← List.take_append_of_le_length (Nat.le_of_lt hm)]
    exact hd.stands

/-! ## The answer -/

/-- A phase that fails changes nothing, and fails for one of three reasons. -/
theorem Sound.acquire_error (hs : s.Sound) {f : Fault}
    (h : (s.acquire who batch).reply = .error f) :
    batch = [] ∧ f = .emptyBatch ∨
      batch ≠ [] ∧ s.structureLock ≠ .free ∧ f = .globallyLocked ∨
      batch ≠ [] ∧ s.structureLock = .free ∧ ∃ n c, s.FirstObstacle batch n c ∧
        (s.Taken (batch.take n) c ∧ f = .keyLocked c.key ∨
          ¬ s.Taken (batch.take n) c ∧ f = .conditionFailed c.key) := by
  by_cases hb : batch = []
  · subst hb
    cases h
    exact .inl ⟨rfl, rfl⟩
  by_cases hf : s.structureLock = .free
  · refine .inr (.inr ⟨hb, hf, ?_⟩)
    rcases (Store.acquire_error h).2 with ⟨hb', -⟩ | ⟨hf', -⟩ | ⟨done, c, rest, e, rfl, hl, hr, rfl⟩
    · exact absurd hb' hb
    · exact absurd hf hf'
    · refine ⟨done.length, c, hr.firstObstacle hs hl, ?_⟩
      rw [List.take_left]
      cases hr with
      | locked hk => exact .inl ⟨hk, rfl⟩
      | unsatisfied hd hl' _ => exact .inr ⟨fun ht => ht.elim hd fun hn => hn hl', rfl⟩
  · refine .inr (.inl ⟨hb, hf, ?_⟩)
    rw [acquire, if_neg fun he => hb (List.isEmpty_iff.1 he),
      if_neg fun he => hf (Lock.isFree_iff.1 he)] at h
    exact (Except.error.inj h).symm

/-- A phase that goes through met no obstacle, and has all keys of the batch. -/
theorem Sound.acquire_ok (hs : s.Sound) {locks : LockSet}
    (h : (s.acquire who batch).reply = .ok locks) :
    batch ≠ [] ∧ s.structureLock = .free ∧ (∀ n c, ¬ s.Obstacle batch n c) ∧
      s.Granted who batch locks (s.acquire who batch).state := by
  obtain ⟨hb, hf, hl, ⟨hu, hw, hk⟩, cells, hst, hg⟩ := Store.acquire_ok h
  refine ⟨hb, hf, hl.not_obstacle hs, hu, hw, hk, ?_, ?_, fun k hm hn => ?_, fun k hm c hc => ?_,
    fun k hm => ?_⟩
  · rw [Table.size_eq_length hl.distinct hk, List.length_map]
  · rw [hst]
  · rw [hst, hg, if_pos hm, hn]
    rfl
  · rw [hst, hg, if_pos hm, hc]
    rfl
  · rw [hst, hg, if_neg hm]

theorem Sound.acquire_emptyBatch_iff (hs : s.Sound) :
    (s.acquire who batch).reply = .error .emptyBatch ↔ batch = [] := by
  refine ⟨fun h => ?_, fun hb => hb ▸ rfl⟩
  rcases hs.acquire_error h with ⟨hb, -⟩ | ⟨-, -, hf⟩ | ⟨-, -, _, _, -, ⟨-, hf⟩ | ⟨-, hf⟩⟩
  · exact hb
  all_goals cases hf

theorem Sound.acquire_globallyLocked_iff (hs : s.Sound) (hb : batch ≠ []) :
    (s.acquire who batch).reply = .error .globallyLocked ↔ s.structureLock ≠ .free := by
  constructor
  · intro h
    rcases hs.acquire_error h with ⟨hb', -⟩ | ⟨-, hl, -⟩ | ⟨-, -, _, _, -, ⟨-, hf⟩ | ⟨-, hf⟩⟩
    · exact absurd hb' hb
    · exact hl
    all_goals cases hf
  · intro hl
    rw [acquire, if_neg fun he => hb (List.isEmpty_iff.1 he),
      if_neg fun he => hl (Lock.isFree_iff.1 he)]
    rfl

/-- The first obstacle is the answer; that its key is taken counts before its condition. -/
theorem Sound.acquire_of_obstacle (hs : s.Sound) (hb : batch ≠ []) (hf : s.structureLock = .free)
    {n : Nat} {c : Command V} (hc : s.FirstObstacle batch n c) :
    (s.Taken (batch.take n) c → (s.acquire who batch).reply = .error (.keyLocked c.key)) ∧
      (¬ s.Taken (batch.take n) c →
        (s.acquire who batch).reply = .error (.conditionFailed c.key)) := by
  cases hr : (s.acquire who batch).reply with
  | ok locks => exact absurd hc.toObstacle ((hs.acquire_ok hr).2.2.1 n c)
  | error f =>
    rcases hs.acquire_error hr with ⟨hb', -⟩ | ⟨-, hl, -⟩ | ⟨-, -, m, d, hd, ha⟩
    · exact absurd hb' hb
    · exact absurd hf hl
    · obtain ⟨rfl, rfl⟩ := hc.unique hd
      rcases ha with ⟨ht, rfl⟩ | ⟨ht, rfl⟩
      · exact ⟨fun _ => rfl, fun hn => absurd ht hn⟩
      · exact ⟨fun hn => absurd hn ht, fun _ => rfl⟩

/-- Without an obstacle the phase goes through. -/
theorem Sound.acquire_of_clear (hs : s.Sound) (who : Holder) (hb : batch ≠ [])
    (hf : s.structureLock = .free) (hn : ∀ n c, ¬ s.FirstObstacle batch n c) :
    ∃ locks, (s.acquire who batch).reply = .ok locks ∧
      s.Granted who batch locks (s.acquire who batch).state := by
  cases hr : (s.acquire who batch).reply with
  | ok locks => exact ⟨locks, rfl, (hs.acquire_ok hr).2.2.2⟩
  | error f =>
    rcases hs.acquire_error hr with ⟨hb', -⟩ | ⟨-, hl, -⟩ | ⟨-, -, m, d, hd, -⟩
    · exact absurd hb' hb
    · exact absurd hf hl
    · exact absurd hd (hn m d)

end

end Store

namespace World

/-- What the acquire phase of a batch comes to on the store `st` of number `i`. -/
structure Acquires [BEq V] (w : World V) (who : Holder) (i : Nat) (st : Store V)
    (batch : List (Command V)) : Prop where
  empty : (w.step (.acquire who i batch)).reply = .refused .emptyBatch ↔ batch = []
  locked : batch ≠ [] →
    ((w.step (.acquire who i batch)).reply = .refused .globallyLocked ↔ st.structureLock ≠ .free)
  /-- That its key is taken counts before its condition. -/
  obstacle : batch ≠ [] → st.structureLock = .free → ∀ n c, st.FirstObstacle batch n c →
    (st.Taken (batch.take n) c →
      (w.step (.acquire who i batch)).reply = .refused (.keyLocked c.key)) ∧
    (¬ st.Taken (batch.take n) c →
      (w.step (.acquire who i batch)).reply = .refused (.conditionFailed c.key))
  /-- Whatever it is refused for, nothing happens to any store or baseline. -/
  refused : ∀ f, (w.step (.acquire who i batch)).reply = .refused f →
    (∀ j, (w.step (.acquire who i batch)).state.backend? j = w.backend? j) ∧
      (w.step (.acquire who i batch)).state.locks = w.locks ∧
      (w.step (.acquire who i batch)).state.holds = w.holds
  /-- Without an obstacle it goes through, and only this store changes. -/
  granted : batch ≠ [] → st.structureLock = .free → (∀ n c, ¬ st.FirstObstacle batch n c) →
    ∃ locks st', (w.step (.acquire who i batch)).reply = .done (.locks locks) ∧
      (w.step (.acquire who i batch)).state.store? i = some st' ∧
      st.Granted who batch locks st' ∧
      (∀ j, j ≠ i → (w.step (.acquire who i batch)).state.backend? j = w.backend? j) ∧
      (w.step (.acquire who i batch)).state.locks = locks :: w.locks ∧
      (w.step (.acquire who i batch)).state.holds = w.holds

section
variable [BEq V] {w : World V} {who : Holder} {i : Nat} {st : Store V}
  {batch : List (Command V)}

/-- A batch that is refused leaves the world as it was. -/
theorem acquire_refused_same (hi : w.store? i = some st) {f : Fault}
    (h : (w.step (.acquire who i batch)).reply = .refused f) :
    (∀ j, (w.step (.acquire who i batch)).state.backend? j = w.backend? j) ∧
      (w.step (.acquire who i batch)).state.locks = w.locks ∧
      (w.step (.acquire who i batch)).state.holds = w.holds := by
  have he := w.step_effect (.acquire who i batch)
  rw [h] at he
  have hw : w.Same (w.step (.acquire who i batch)).state := by
    cases he with
    | idle h hw => exact hw
    | forgotten _ _ _ _ _ ho => rcases ho with ⟨hm, -⟩ | ⟨_, _, _, _, hm, -⟩ <;> cases hm
  refine ⟨fun j => ?_, hw.locks, hw.holds⟩
  by_cases hj : j = i
  · subst hj
    have hi' : (w.step (.acquire who j batch)).state.store? j = some st := (hw.stores j).trans hi
    exact (Session.store?_eq_some.1 hi').trans (Session.store?_eq_some.1 hi).symm
  · exact step_frame fun hc => hj hc.of_acquire

/-- The outcome of the acquire phase, for every batch and whatever is held. -/
theorem acquire_outcome (h : w.Reachable) (hi : w.store? i = some st) (hw : who ∉ w.parties) :
    w.Acquires who i st batch := by
  have he := w.step_effect (.acquire who i batch)
  have ho := he.acquire_reply hi hw
  have hs : st.Sound := h.sound i st hi
  have hr : ∀ f, (w.step (.acquire who i batch)).reply = .refused f ↔
      (st.acquire who batch).reply = .error f := fun f => by
    rw [ho]
    cases (st.acquire who batch).reply <;> simp [Outcome.ofReply, Except.map]
  refine ⟨(hr _).trans hs.acquire_emptyBatch_iff,
    fun hb => (hr _).trans (hs.acquire_globallyLocked_iff hb), fun hb hf n c hc => ?_,
    fun f => acquire_refused_same hi, fun hb hf hn => ?_⟩
  · rw [hr, hr]
    exact hs.acquire_of_obstacle hb hf hc
  · obtain ⟨locks, hok, hg⟩ := hs.acquire_of_clear who hb hf hn
    rw [hok] at ho
    refine ⟨locks, _, ho, ((he.acquire_state hi hw).1 i).trans (if_pos rfl), hg,
      fun j hj => step_frame fun hc => hj hc.of_acquire, ?_⟩
    rw [ho] at he
    cases he with
    | idle h => cases h
    | acquired _ _ _ _ _ _ hl hh => exact ⟨hl, hh⟩
    | forgotten _ _ _ _ _ ho => rcases ho with ⟨hm, -⟩ | ⟨_, _, _, _, hm, -⟩ <;> cases hm

end

/-- The key `"b"` is reserved by another batch.  Of a batch that would write it on a condition, its
lock is the first obstacle, though the condition is not met either. -/
theorem acquire_outcome_taken :
    let w : World Nat := after [.acquire (.named "x") 0 [.set "b" 3 none]]
      ⟨.single [("a", 1)], []⟩
    let batch : List (Command Nat) := [.set "a" 2 (some 1), .set "b" 5 (some 4), .del "a"]
    (∃ st, w.store? 0 = some st ∧ w.Acquires (.named "y") 0 st batch) ∧
      (w.step (.acquire (.named "y") 0 batch)).reply = .refused (.keyLocked "b") := by
  intro w batch
  have hr : w.Reachable := (Reachable.start (Session.start_single [("a", 1)])).after _
  have hi : w.store? 0 = some ⟨1, Config.default.lockTimeout, .free,
    .ofList [("a", .committed 1), ("b", ⟨none, true, .exclusive (.named "x")⟩)]⟩ := rfl
  have ha : w.Acquires (.named "y") 0 _ batch := acquire_outcome hr hi (by decide)
  refine ⟨⟨_, hi, ha⟩, (ha.obstacle (by decide) rfl 1 _ ⟨⟨rfl, .inl ?_⟩, fun m hm d hd => ?_⟩).1 ?_⟩
  · exact .inr (by decide)
  · obtain rfl : m = 0 := Nat.lt_one_iff.1 hm
    obtain rfl : .set "a" 2 (some 1) = d := Option.some.inj hd.position
    rcases hd.stands with (hk | hl) | hu
    · cases hk
    · exact hl (by decide)
    · exact ((hr.sound 0 _ hi).unmet_iff _).1 hu rfl
  · exact .inr (by decide)

end World

end TwoPhaseStore
