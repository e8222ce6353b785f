import TwoPhaseStore.Proofs.Store.Hold
import TwoPhaseStore.Proofs.Store.Quiet

/-!
Stores that nobody can tell apart.  Two stores are twins if a writer finds the same structure lock
and the same cell under every key: where one has an unlocked placeholder, the other may have nothing.
Their ids and their timeouts may differ.  Twins answer alike and stay twins, whatever is done to both:

    h : Twin s t → (t.call c).reply = (s.call c).reply, if `c` is not about the store itself
                                                                              (Twin.call_reply)
    h : Twin s t → Twin (s.call c).state (t.call c).state                            (Twin.call)

and likewise for the phases of a batch and for holds.  Two stores without locks that have the same
contents are twins (`Quiet.twin`).
-/

namespace TwoPhaseStore

open Session (Resolution)

variable {V : Type}

/-- An operation that asks for the id or the timeout of a store. -/
def Call.AboutStore : Call V → Prop
  | .text => True
  | .timeout => True
  | _ => False

namespace Store

structure Twin (s t : Store V) : Prop where
  structureLock : t.structureLock = s.structureLock
  cells : ∀ k, t.cellAt k = s.cellAt k

namespace Twin

theorem refl (s : Store V) : Twin s s := ⟨rfl, fun _ => rfl⟩

variable {s t : Store V} (h : Twin s t)

include h

theorem symm : Twin t s := ⟨h.structureLock.symm, fun k => (h.cells k).symm⟩

theorem lockOn (target : Option Key) : t.lockOn target = s.lockOn target := by
  cases target with
  | none => exact h.structureLock
  | some k =>
    show t.lockAt k = s.lockAt k
    rw [lockAt_eq, lockAt_eq, h.cells]

/-- What changes cells only leaves the structure locks alike. -/
theorem structureLock_of_bare {s' t' : Store V} (hs : s'.bare = s.bare) (ht : t'.bare = t.bare) :
    t'.structureLock = s'.structureLock := by
  rw [Store.structureLock_of_bare ht, Store.structureLock_of_bare hs, h.structureLock]

/-- What is locked or committed is the same cell on both sides. -/
theorem slot_of_locked {k : Key} (hl : s.lockAt k ≠ .free) : t.cells.get? k = s.cells.get? k :=
  (Slot.eq_of_cell_eq (h.cells k).symm hl).symm

theorem slot_of_committed {k : Key} (hk : (s.cellAt k).temporary = false) :
    t.cells.get? k = s.cells.get? k := by
  have ht : (t.cellAt k).temporary = false := by rw [h.cells, hk]
  rw [Slot.eq_some_of_committed ht, Slot.eq_some_of_committed hk]
  exact congrArg some (h.cells k)

theorem slot_of_payload {k : Key} (hk : (s.cellAt k).payload ≠ none) :
    t.cells.get? k = s.cells.get? k := by
  have ht : (t.cellAt k).payload ≠ none := by rwa [h.cells]
  rw [Slot.eq_some_of_payload ht, Slot.eq_some_of_payload hk]
  exact congrArg some (h.cells k)

theorem mem_committed_of {k : Key} {c : Cell V} (hm : (k, c) ∈ s.committed) :
    (k, c) ∈ t.committed := by
  obtain ⟨hc, ht⟩ := mem_committed.1 hm
  have hcell : s.cellAt k = c := by rw [cellAt, hc]; rfl
  exact mem_committed.2 ⟨(h.slot_of_committed (hcell ▸ ht)).trans hc, ht⟩

/-- Placeholders do not count. -/
theorem committed : t.committed = s.committed :=
  Rows.eq_of_mem_iff (t.cells.sorted.filter _) (s.cells.sorted.filter _) fun _ _ =>
    ⟨h.symm.mem_committed_of, h.mem_committed_of⟩

/-! ## Operations -/

theorem len_reply : t.len.reply = s.len.reply := by
  unfold len
  rw [h.structureLock, h.committed]
  split <;> rfl

theorem isEmpty_reply : t.isEmpty.reply = s.isEmpty.reply := by
  unfold isEmpty
  rw [h.structureLock, h.committed]
  split <;> rfl

theorem unreadable : t.unreadable = s.unreadable := by
  unfold Store.unreadable
  rw [h.committed]

theorem snapshot_reply (walk : List Key) :
    (t.snapshot walk).reply = (s.snapshot walk).reply := by
  unfold snapshot copied
  rw [h.structureLock, h.unreadable, h.committed]
  split
  · split <;> rfl
  · rfl

section
variable [BEq V]

theorem call_reply {c : Call V} (hc : ¬ c.AboutStore) : (t.call c).reply = (s.call c).reply := by
  cases hk : c.key? with
  | some k => exact call_reply_congr hk h.structureLock (h.cells k)
  | none =>
    cases c with
    | len => exact congrArg (Except.map _) h.len_reply
    | isEmpty => exact congrArg (Except.map _) h.isEmpty_reply
    | snapshot walk => exact congrArg (Except.map _) (h.snapshot_reply walk)
    | text => exact absurd trivial hc
    | timeout => exact absurd trivial hc
    | _ => cases hk

theorem call (c : Call V) : Twin (s.call c).state (t.call c).state := by
  cases hk : c.written? with
  | none =>
    rw [call_of_reads hk, call_of_reads hk]
    exact h
  | some k =>
    have hr : (t.call c).reply = (s.call c).reply :=
      h.call_reply fun ha => by cases c <;> first | exact ha | cases hk
    refine ⟨h.structureLock_of_bare (call_bare c s) (call_bare c t), fun j => ?_⟩
    rw [cellAt, cellAt, get?_call, get?_call, hr]
    split
    · exact Call.cell_effect c j (h.cells j)
    · exact h.cells j

/-! ## Batches -/

theorem acquire_reply (who : Holder) (batch : List (Command V)) : (t.acquire who batch).reply =
    (s.acquire who batch).reply.map fun locks => { locks with issuer := t.id } :=
  acquire_reply_congr h.structureLock fun c _ => h.cells c.key

theorem acquire (who : Holder) (batch : List (Command V)) :
    Twin (s.acquire who batch).state (t.acquire who batch).state := by
  have hr : (t.acquire who batch).reply.isOk = (s.acquire who batch).reply.isOk := by
    rw [h.acquire_reply]
    cases (s.acquire who batch).reply <;> rfl
  refine ⟨h.structureLock_of_bare (acquire_bare who batch s) (acquire_bare who batch t),
    fun j => ?_⟩
  rw [cellAt, cellAt, get?_acquire, get?_acquire, hr]
  split
  · rw [Slot.cell_claimed (h.cells j)]
  · exact h.cells j

end

/-- The end of a lock set whose keys are locked. -/
theorem run (how : Resolution) (batch : List (Command V)) (who : Holder) {keys : Table Unit}
    (hl : ∀ k, keys.contains k = true → s.lockAt k ≠ .free) :
    (how.run batch ⟨t.id, who, keys⟩ t).reply = (how.run batch ⟨s.id, who, keys⟩ s).reply ∧
      (∀ a b, (how.run batch ⟨s.id, who, keys⟩ s).reply ≠ .error (.wrongStore a b)) ∧
      Twin (how.run batch ⟨s.id, who, keys⟩ s).state (how.run batch ⟨t.id, who, keys⟩ t).state := by
  have hs : ∀ k, keys.contains k = true → s.cells.get? k ≠ none := fun k hk hn =>
    hl k hk (by rw [lockAt, hn]; rfl)
  have ht : ∀ k, keys.contains k = true → t.cells.get? k ≠ none := fun k hk => by
    rw [h.slot_of_locked (hl k hk)]
    exact hs k hk
  obtain ⟨hr, hw, hslot⟩ := run_congr how batch who keys hs ht
  obtain ⟨_, _, hress⟩ : ∃ done rest, Resolves how batch ⟨s.id, who, keys⟩ s done rest :=
    run_resolves rfl hs
  obtain ⟨_, _, hrest⟩ : ∃ done rest, Resolves how batch ⟨t.id, who, keys⟩ t done rest :=
    run_resolves rfl ht
  refine ⟨hr, hw, h.structureLock_of_bare (run_bare how batch _ s) (run_bare how batch _ t),
    fun j => ?_⟩
  by_cases hj : keys.contains j = true
  · rw [cellAt, cellAt, hslot j (h.slot_of_locked (hl j hj))]
  · rw [cellAt, cellAt, hress.slot_of_not_mem hj, hrest.slot_of_not_mem hj]
    exact h.cells j

theorem forget {locks locks' : LockSet} (hi : locks'.issuer = t.id ↔ locks.issuer = s.id)
    (hh : locks'.holder = locks.holder) (hk : locks'.keys = locks.keys) :
    Twin (s.forget locks) (t.forget locks') := by
  refine ⟨h.structureLock_of_bare (forget_bare _ s) (forget_bare _ t), fun j => ?_⟩
  rw [cellAt, cellAt, get?_forget, get?_forget]
  by_cases hu : locks.issuer = s.id
  · rw [if_pos hu, if_pos (hi.2 hu), forgottenSlot, forgottenSlot, hh, hk]
    split
    · rw [Slot.cell_release, Slot.cell_release]
      exact congrArg _ (h.cells j)
    · exact h.cells j
  · rw [if_neg hu, if_neg fun hn => hu (hi.1 hn)]
    exact h.cells j

/-! ## Holds -/

omit h in
/-- Where there is no cell there is no lock to change. -/
theorem cellAt_relock {u : Store V} {target : Option Key} {f : Lock → Lock}
    (hf : ∀ k, target = some k → u.cells.get? k = none → f .free = .free) (j : Key) :
    (u.relock target f).cellAt j =
      if target = some j then { u.cellAt j with lock := f (u.cellAt j).lock } else u.cellAt j := by
  rw [cellAt, get?_relock]
  split
  · next ht =>
    rw [cellAt]
    cases hc : u.cells.get? j with
    | none =>
      have hff : f .free = .free := hf j ht hc
      show (Cell.placeholder : Cell V) = { Cell.placeholder with lock := f .free }
      rw [hff]
      rfl
    | some c => rfl
  · rfl

theorem relock {target : Option Key} {f : Lock → Lock}
    (hs : ∀ k, target = some k → s.cells.get? k = none → f .free = .free)
    (ht : ∀ k, target = some k → t.cells.get? k = none → f .free = .free) :
    Twin (s.relock target f) (t.relock target f) := by
  refine ⟨?_, fun j => by rw [cellAt_relock hs, cellAt_relock ht, h.cells]⟩
  cases target with
  | none => exact congrArg f h.structureLock
  | some k => exact h.structureLock

theorem letGo (who : Holder) (mode : HoldMode) : Twin (s.letGo who mode) (t.letGo who mode) := by
  rw [letGo_eq, letGo_eq]
  exact h.relock (fun _ _ _ => Lock.release_free who) fun _ _ _ => Lock.release_free who

/-- A hold is had or refused on both sides. -/
theorem hold?_reply (who : Holder) (mode : HoldMode) :
    (t.hold? who mode).map Option.isSome = (s.hold? who mode).map Option.isSome := by
  cases mode with
  | exclusive =>
    simp only [hold?, h.structureLock]
    cases s.structureLock.claim? who <;> rfl
  | shared walk =>
    simp only [hold?, h.snapshot_reply]
    cases (s.snapshot walk).reply with
    | error f => rfl
    | ok rows =>
      cases rows with
      | nil => rfl
      | cons r rows =>
        simp only [h.structureLock]
        cases s.structureLock.share? who <;> rfl
  | readKey k =>
    have hr : (t.get k).reply = (s.get k).reply := by
      rw [get_reply, get_reply, h.structureLock, h.cells]
    simp only [hold?, hr]
    cases hg : (s.get k).reply with
    | error f => rfl
    | ok p =>
      cases p with
      | none => rfl
      | some v =>
        -- what has a payload is linked on both sides
        have hp : (s.cellAt k).payload ≠ none := by
          rw [get_reply] at hg
          split at hg
          · split at hg
            · rw [Except.ok.inj hg]
              exact Option.some_ne_none v
            · cases hg
          · cases hg
        simp only [h.slot_of_payload hp]
        cases s.cells.get? k with
        | none => rfl
        | some c =>
          show Except.ok ((Option.map _ (c.share? who)).isSome) =
            Except.ok ((Option.map _ (c.share? who)).isSome)
          rw [Option.isSome_map, Option.isSome_map]
  | writeKey k =>
    have hr : (t.contains k).reply = (s.contains k).reply := by
      rw [contains_reply, contains_reply, h.structureLock, h.cells]
    simp only [hold?, hr]
    cases hg : (s.contains k).reply with
    | error f => rfl
    | ok b =>
      cases b with
      | false => rfl
      | true =>
        have ht : (s.cellAt k).temporary = false := by
          rw [contains_reply] at hg
          split at hg
          · simpa using Except.ok.inj hg
          · cases hg
        simp only [h.slot_of_committed ht, h.structureLock]
        split
        · cases s.cells.get? k >>= fun c => c.claim? who <;> rfl
        · rfl

/-- And if it is had, by the same lock. -/
theorem hold?_cases (who : Holder) (mode : HoldMode) :
    (∃ f, s.hold? who mode = .error f ∧ t.hold? who mode = .error f) ∨
    s.hold? who mode = .ok none ∧ t.hold? who mode = .ok none ∨
    ∃ l, s.hold? who mode = .ok (some (s.relock mode.key? fun _ => l)) ∧
      t.hold? who mode = .ok (some (t.relock mode.key? fun _ => l)) ∧
      Twin (s.relock mode.key? fun _ => l) (t.relock mode.key? fun _ => l) := by
  have hr := h.hold?_reply who mode
  cases hs : s.hold? who mode with
  | error f =>
    rw [hs] at hr
    exact .inl ⟨f, rfl, map_eq_error hr⟩
  | ok held =>
    rw [hs] at hr
    obtain ⟨held', ht, he⟩ := map_eq_ok hr
    rw [ht]
    cases held with
    | none =>
      obtain rfl := Option.isSome_eq_false_iff.1 he |> Option.isNone_iff_eq_none.1
      exact .inr (.inl ⟨rfl, rfl⟩)
    | some s' =>
      obtain ⟨t', rfl⟩ := Option.isSome_iff_exists.1 he
      obtain ⟨hns, l, hl, rfl⟩ := hold?_ok hs
      obtain ⟨hnt, l', hl', rfl⟩ := hold?_ok ht
      rw [h.lockOn, hl] at hl'
      obtain rfl := Option.some.inj hl'
      exact .inr (.inr ⟨l, rfl, rfl, h.relock (fun k hk hn => absurd hn (hns k hk))
        fun k hk hn => absurd hn (hnt k hk)⟩)

end Twin

end Store

end TwoPhaseStore
