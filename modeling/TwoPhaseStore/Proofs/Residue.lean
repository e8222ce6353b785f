import TwoPhaseStore.Proofs.Frame

/-!
What the end of a lock set comes to, for a batch of any kind, be it the one that was locked or
another.  On the store that issued the lock set the commands are processed in order up to the first
that stops it.  These take effect, every other key of the lock set is let go as it is, and nothing
else changes:

    w.Reachable → locks ∈ w.locks → w.store? i = some st → w.Resolved how locks i st batch
                                                                              (resolve_outcome)

It returns exactly if the batch names the keys of the lock set, each once, and a commit has no read.
A key of the lock set is always linked, so it is never found to be gone.
-/

namespace TwoPhaseStore

open Session (Resolution)

variable {V : Type}

namespace Store

/-- A command stops a resolution that has processed `before`: it is a read at commit, or the lock
set does not hold its key, or no longer. -/
def Stops (how : Resolution) (locks : LockSet) (before : List (Command V)) (c : Command V) :
    Prop :=
  how = .commit ∧ c.method = .get ∨ locks.keys.contains c.key = false ∨
    c.key ∈ before.map Command.key

/-- The batch is processed up to the first command that stops it: `done` is processed, `rest` is
not. -/
structure Processes (how : Resolution) (locks : LockSet) (batch done rest : List (Command V)) :
    Prop where
  split : batch = done ++ rest
  passed : ∀ pre c post, done = pre ++ c :: post → ¬ Stops how locks pre c
  stopped : ∀ c post, rest = c :: post → Stops how locks done c

/-- What a resolution that has processed `done` leaves of the store `s`. -/
structure Residue (how : Resolution) (locks : LockSet) (done : List (Command V))
    (s s' : Store V) : Prop where
  bare : s' = { s with cells := s'.cells }
  written : how = .commit → ∀ k v e, .set k v e ∈ done →
    s'.cells.get? k = some ⟨some v, false, .free⟩
  removed : how = .commit → ∀ k, .del k ∈ done → s'.cells.get? k = none
  /-- An abort unlinks the placeholders, and lets go of the other cells as they are. -/
  restored : how = .abort → ∀ c ∈ done, ∃ cell, s.cells.get? c.key = some cell ∧
    s'.cells.get? c.key = if cell.temporary then none else some { cell with lock := .free }
  /-- The other keys of the lock set keep their cells, placeholders too, and are let go. -/
  letGo : ∀ k, locks.keys.contains k = true → k ∉ done.map Command.key →
    ∃ cell, s.cells.get? k = some cell ∧ s'.cells.get? k = some { cell with lock := .free }
  kept : ∀ k, locks.keys.contains k = false → s'.cells.get? k = s.cells.get? k
  /-- So no lock of the lock set is held any more. -/
  free : ∀ k, locks.keys.contains k = true → s'.lockAt k = .free

section
variable {how : Resolution} {locks : LockSet} {batch done rest : List (Command V)} {s : Store V}

theorem Resolves.processes (h : Resolves how batch locks s done rest) :
    Processes how locks batch done rest := by
  refine ⟨h.split, fun pre c post hd hs => ?_, h.stuck⟩
  obtain ⟨hget, hk⟩ := h.resolvable c (hd ▸ by simp)
  rcases hs with ⟨hc, hg⟩ | hn | hm
  · exact hget hc hg
  · rw [hk] at hn
    cases hn
  · exact Command.key_not_mem_of_nodup (hd ▸ h.distinct) List.mem_cons_self hm

/-- The slot of a processed key, which was held and linked. -/
theorem Resolves.slot_of_mem (h : Resolves how batch locks s done rest) {c : Command V}
    (hc : c ∈ done) : (how.run batch locks s).state.cells.get? c.key =
      how.leaves locks.holder c (s.cells.get? c.key) := by
  obtain ⟨cells, hst, hg⟩ := h.cells
  rw [hst, hg, resolvedSlot, if_pos (List.mem_map_of_mem hc), settledSlot_of_mem h.distinct hc]

theorem Resolves.residue (h : Resolves how batch locks s done rest)
    (hl : ∀ k, locks.keys.contains k = true →
      ∃ cell, s.cells.get? k = some cell ∧ cell.lock = .exclusive locks.holder) :
    Residue how locks done s (how.run batch locks s).state := by
  obtain ⟨cells, hst, hg⟩ := h.cells
  have hrel : ∀ {cell : Cell V}, cell.lock = .exclusive locks.holder →
      cell.release locks.holder = { cell with lock := .free } := fun hc => by
    rw [Cell.release, hc, Lock.release_exclusive_self]
  refine ⟨by rw [hst], ?_, ?_, ?_, fun k hk hd => ?_, fun k hk => ?_, fun k hk => ?_⟩
  · rintro rfl k v e hm
    obtain ⟨cell, hc, hlock⟩ := hl _ (h.resolvable _ hm).2
    refine (h.slot_of_mem hm).trans ?_
    rw [hc]
    exact congrArg some (hrel (show (cell.store v).lock = _ from hlock))
  · rintro rfl k hm
    exact h.slot_of_mem hm
  · rintro rfl c hm
    obtain ⟨cell, hc, hlock⟩ := hl c.key (h.resolvable _ hm).2
    refine ⟨cell, hc, ?_⟩
    rw [h.slot_of_mem hm, hc, ← hrel hlock]
    rfl
  · obtain ⟨cell, hc, hlock⟩ := hl k hk
    refine ⟨cell, hc, ?_⟩
    rw [hst, hg, resolvedSlot, if_neg hd, forgottenSlot, if_pos hk, hc, Option.map_some,
      hrel hlock]
  · exact h.slot_of_not_mem (by simp [hk])
  · obtain ⟨cell, hc, hlock⟩ := hl k hk
    have he : Slot.lock (s.cells.get? k) = .exclusive locks.holder := by rwa [hc]
    rw [lockAt, hst, hg, lock_resolvedSlot h (fun _ => he) fun hn => absurd hk hn, he,
      Lock.release_exclusive_self]

end

end Store

namespace World

/-- What a resolution of a live lock set on the store `st` of number `i` comes to. -/
structure Resolved [BEq V] (w : World V) (how : Resolution) (locks : LockSet) (i : Nat)
    (st : Store V) (batch : List (Command V)) : Prop where
  returns : (w.step (.resolve how locks.holder i batch)).reply = .done .done ↔
    locks.issuer = st.id ∧ (batch.map Command.key).Nodup ∧
      (∀ k, locks.keys.contains k = true ↔ k ∈ batch.map Command.key) ∧
      (how = .commit → ∀ c ∈ batch, c.method ≠ .get)
  /-- On a store that did not issue it, it only loses its locks, and no contents change. -/
  foreign : locks.issuer ≠ st.id →
    (w.step (.resolve how locks.holder i batch)).reply =
      .violated (.wrongStore locks.issuer st.id) ∧
    w.Returned (w.step (.resolve how locks.holder i batch)).state locks i
  /-- On its own store, the batch takes effect up to the first command that stops it. -/
  own : locks.issuer = st.id → ∃ done rest st', Store.Processes how locks batch done rest ∧
    (w.step (.resolve how locks.holder i batch)).state.store? i = some st' ∧
    Store.Residue how locks done st st' ∧
    (∀ j, j ≠ i →
      (w.step (.resolve how locks.holder i batch)).state.backend? j = w.backend? j) ∧
    (∀ c post, rest = c :: post →
      (w.step (.resolve how locks.holder i batch)).reply = .violated (how.objection c)) ∧
    (rest = [] → (w.step (.resolve how locks.holder i batch)).reply = .done .done ∨
      ∃ k ks, (∀ j, j ∈ k :: ks ↔ locks.keys.contains j = true ∧ j ∉ batch.map Command.key) ∧
        (w.step (.resolve how locks.holder i batch)).reply = .violated (.leftOver k ks))
  /-- However it goes, the lock set is no longer live, and nothing else has ended or begun. -/
  ended : (w.step (.resolve how locks.holder i batch)).state.locks =
      w.locks.filter (·.holder ≠ locks.holder) ∧
    (w.step (.resolve how locks.holder i batch)).state.holds = w.holds
  /-- No key of a live lock set is gone. -/
  vanished : ∀ m k,
    (w.step (.resolve how locks.holder i batch)).reply ≠ .violated (.vanished m k)

section
variable [BEq V] {w : World V} {how : Resolution} {locks : LockSet} {i : Nat} {st : Store V}
  {batch : List (Command V)}

omit [BEq V] in
/-- On the store that issued it, the end of a lock set is about no other store. -/
theorem Owned.concerns_own (hw : w.Owned) (hm : locks ∈ w.locks) (hi : w.store? i = some st)
    (hu : locks.issuer = st.id) {j : Nat}
    (hj : w.Concerns (.resolve how locks.holder i batch) j) : j = i := by
  refine (hw.concerns_unique (fun other n st' hf => ?_) (.at rfl) hj).symm
  obtain ⟨how', batch', he⟩ := hf.resolves
  obtain ⟨-, hh, rfl, -⟩ := Move.resolve.inj he
  obtain rfl := hw.eq_of_holder hf.live hm hh
  obtain rfl := Option.some.inj (hi.symm.trans hf.store)
  exact hf.foreign hu

/-- On the store that issued the lock set, what is answered says how far the batch got. -/
theorem Owned.resolved_own (hw : w.Owned) (hm : locks ∈ w.locks) (hi : w.store? i = some st)
    (hu : locks.issuer = st.id) : w.Resolved how locks i st batch := by
  obtain ⟨ho, hlocks, hholds, hown, -⟩ :=
    hw.resolve_state hm hi (w.step_effect (.resolve how locks.holder i batch))
  obtain ⟨done, rest, hr, hstop, hend⟩ :=
    Store.run_answers how batch hu fun _ => hw.linked hi hm hu
  have hrep : ∀ r, (how.run batch locks st).reply = r →
      (w.step (.resolve how locks.holder i batch)).reply = .ofResolution .done r :=
    fun r he => he ▸ ho
  have hret : (w.step (.resolve how locks.holder i batch)).reply = .done .done ↔
      (how.run batch locks st).reply = .ok () := by
    rw [ho]
    cases (how.run batch locks st).reply <;> simp [Outcome.ofResolution]
  refine ⟨?_, fun hn => absurd hu hn, fun _ => ⟨done, rest, _, hr.processes,
    (hown hu i).trans (if_pos rfl), hr.residue fun _ => hw.linked_cell hi hm hu,
    fun j hj => step_frame fun hc => hj (hw.concerns_own hm hi hu hc),
    fun c post he => hrep _ (hstop c post he), fun he => ?_⟩, ⟨hlocks, hholds⟩, fun m k he => ?_⟩
  · rw [hret, hr.returns_iff]
    exact ⟨fun he => ⟨hu, he⟩, fun he => he.2⟩
  · have hb : batch = done := by rw [hr.split, he, List.append_nil]
    refine (hend he).imp hret.2 ?_
    rintro ⟨k, ks, hk, hv⟩
    exact ⟨k, ks, hb ▸ hk, hrep _ hv⟩
  · cases rest with
    | cons c post =>
      rw [hrep _ (hstop c post rfl)] at he
      cases how <;> cases c <;> cases he
    | nil =>
      rcases hend rfl with hv | ⟨k', ks, -, hv⟩
      · rw [hrep _ hv] at he
        cases he
      · rw [hrep _ hv] at he
        cases he

/-- On another store the lock set is lost, and its issuer gets the locks back. -/
theorem Owned.resolved_foreign (hw : w.Owned) (hm : locks ∈ w.locks) (hi : w.store? i = some st)
    (hu : locks.issuer ≠ st.id) : w.Resolved how locks i st batch := by
  obtain ⟨-, hlocks, hholds, -⟩ :=
    hw.resolve_state hm hi (w.step_effect (.resolve how locks.holder i batch))
  have hf : w.Foreign (.resolve how locks.holder i batch) locks i st :=
    ⟨⟨how, batch, rfl⟩, hm, hi, hu⟩
  obtain ⟨hr, hback⟩ := hw.resolve_foreign hf
  refine ⟨?_, fun _ => ⟨hr, hback⟩, fun he => absurd he hu, ⟨hlocks, hholds⟩, fun m k he => ?_⟩
  · rw [hr]
    exact iff_of_false (fun he => by cases he) fun he => hu he.1
  · rw [hr] at he
    cases he

/-- The outcome of a commit or an abort, for every live lock set, store and batch. -/
theorem resolve_outcome (h : w.Reachable) (hm : locks ∈ w.locks) (hi : w.store? i = some st) :
    w.Resolved how locks i st batch := by
  by_cases hu : locks.issuer = st.id
  · exact h.owned.resolved_own hm hi hu
  · exact h.owned.resolved_foreign hm hi hu

end

/-- A batch is committed under the lock set of another one that has its keys.  It is stopped by its
read: the write before it stands, and two placeholders stay. -/
theorem resolve_outcome_stopped :
    let w : World Nat := after [.acquire (.named "x") 0 [.set "a" 2 none, .del "b", .get "c"]]
      ⟨.single [("a", 1)], []⟩
    let m : Move Nat := .resolve .commit (.named "x") 0 [.set "a" 7 (some 5), .get "b", .del "c"]
    (∃ locks st, locks ∈ w.locks ∧ w.store? 0 = some st ∧
      w.Resolved .commit locks 0 st [.set "a" 7 (some 5), .get "b", .del "c"]) ∧
      (w.step m).reply = .violated (.readCommitted "b") ∧
      (w.step m).state.store? 0 = some ⟨1, Config.default.lockTimeout, .free,
        .ofList [("a", .committed 7), ("b", .placeholder), ("c", .placeholder)]⟩ := by
  intro w m
  have hr : w.Reachable := (Reachable.start (Session.start_single [("a", 1)])).after _
  have hm : ⟨1, .named "x", .ofList [("a", ()), ("b", ()), ("c", ())]⟩ ∈ w.locks :=
    List.mem_cons_self
  have hi : w.store? 0 = some _ := rfl
  exact ⟨⟨_, _, hm, hi, resolve_outcome hr hm hi⟩, rfl, rfl⟩

end World

end TwoPhaseStore
