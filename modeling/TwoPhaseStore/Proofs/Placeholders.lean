import Mathlib.Data.List.Induction
import TwoPhaseStore.Proofs.Ownership
import TwoPhaseStore.Proofs.Store.Local

/-!
Placeholders, from where they come to where they go.  A cell has two signs of being one, its mark
and that it has no payload, and they always agree (`World.Reachable.sound`).  What one move does to
the slot of one key is one of four things:

    w.Effect m o w' → m.Leads o i k (w.slot i k) (w'.slot i k)                    (Owned.leads)

it keeps the mark, unlinks the cell, links a placeholder where nothing was, or stores a payload.
Along a run, then, a placeholder was linked by an acquire phase that found its key absent and has
been one ever since; it is committed only by storing a payload; and a committed cell stays committed
for as long as it is linked (`placeholders_agree`).
-/

namespace TwoPhaseStore

open Session (Resolution)

variable {V : Type}

/-- The mark of the cell that is linked: whether it is a placeholder. -/
def Slot.mark (slot : Slot V) : Option Bool := slot.map Cell.temporary

namespace Move

/-- The move stores the payload `v` under the key `k` of the store of number `i`: an operation that
writes it, or a commit with a SET of it, be it that the commit is stopped later on. -/
inductive Stores (i : Nat) (k : Key) (v : V) : Move V → Outcome V → Prop where
  | set : Stores i k v (.call i (.set k v)) (.done .done)
  | setCond (expected : V) : Stores i k v (.call i (.setCond k v expected)) (.done .done)
  | setWithDelay (delay : Duration) :
    Stores i k v (.call i (.setWithDelay k v delay)) (.done .done)
  | commit {who : Holder} {batch : List (Command V)} {o : Outcome V} (expected : Option V)
    (h : .set k v expected ∈ batch) : Stores i k v (.resolve .commit who i batch) o

/-- What a move makes of the slot of the key `k` in the store of number `i`. -/
inductive Leads (m : Move V) (o : Outcome V) (i : Nat) (k : Key) : Slot V → Slot V → Prop where
  | keeps {a b : Slot V} (h : b.mark = a.mark) : Leads m o i k a b
  | unlinks (a : Slot V) : Leads m o i k a none
  | links {c : Cell V} (who : Holder) (batch : List (Command V)) (locks : LockSet)
    (hm : m = .acquire who i batch) (ho : o = .done (.locks locks))
    (hk : k ∈ batch.map Command.key) (hc : c.temporary = true) : Leads m o i k none (some c)
  | stores {v : V} {c : Cell V} (h : m.Stores i k v o) (hc : c.temporary = false)
    (hp : c.payload = some v) (a : Slot V) : Leads m o i k a (some c)

end Move

/-! ## Marks that stay -/

namespace Slot

theorem mark_release (who : Holder) (slot : Slot V) :
    mark (slot.map (·.release who)) = mark slot := by cases slot <;> rfl

theorem mark_forgottenSlot (locks : LockSet) (k : Key) (slot : Slot V) :
    mark (Store.forgottenSlot locks k slot) = mark slot := by
  unfold Store.forgottenSlot
  split
  · exact mark_release _ _
  · rfl

end Slot

theorem Store.mark_forget (locks : LockSet) (s : Store V) (k : Key) :
    Slot.mark ((s.forget locks).cells.get? k) = Slot.mark (s.cells.get? k) := by
  rw [get?_forget]
  split
  · exact Slot.mark_forgottenSlot _ _ _
  · rfl

theorem Store.mark_relock (target : Option Key) (f : Lock → Lock) (s : Store V) (k : Key) :
    Slot.mark ((s.relock target f).cells.get? k) = Slot.mark (s.cells.get? k) := by
  rw [get?_relock]
  split
  · cases s.cells.get? k <;> rfl
  · rfl

/-! ## One move -/

section
variable [BEq V] {i : Nat} {k : Key}

theorem Store.call_leads (c : Call V) (s : Store V) :
    (Move.call i c).Leads (.ofReply (s.call c).reply) i k (s.cells.get? k)
      ((s.call c).state.cells.get? k) := by
  cases hr : (s.call c).reply with
  | error f =>
    rw [call_error hr]
    exact .keeps rfl
  | ok r =>
    rw [get?_call, hr, show (Except.ok r : Except Fault (Reply V)).isOk = true from rfl, if_pos rfl,
      Call.effect]
    split
    · next hk =>
      cases c with
      | set k' v =>
        cases hk
        obtain ⟨-, -, rfl⟩ := map_eq_ok hr
        exact .stores .set rfl rfl _
      | setCond k' v e =>
        cases hk
        obtain ⟨-, -, rfl⟩ := map_eq_ok hr
        exact .stores (.setCond e) rfl rfl _
      | setWithDelay k' v d =>
        cases hk
        obtain ⟨-, -, rfl⟩ := map_eq_ok hr
        exact .stores (.setWithDelay d) rfl rfl _
      | del k' => exact .unlinks _
      | _ => cases hk
    · exact .keeps rfl

theorem Store.acquire_leads {who : Holder} {batch : List (Command V)} {s : Store V}
    {locks : LockSet} (hr : (s.acquire who batch).reply = .ok locks) :
    (Move.acquire who i batch).Leads (.done (.locks locks)) i k (s.cells.get? k)
      ((s.acquire who batch).state.cells.get? k) := by
  obtain ⟨-, -, -, -, cells, hst, hg⟩ := acquire_ok hr
  rw [hst, hg]
  split
  · next hk =>
    cases s.cells.get? k with
    | none => exact .links who batch locks rfl rfl hk rfl
    | some c => exact .keeps rfl
  · exact .keeps rfl

omit [BEq V] in
/-- A processed command unlinks the cell of its key, lets it go or stores its payload. -/
theorem Session.Resolution.leads {how : Resolution} {who : Holder} {batch : List (Command V)}
    {c : Command V} (hc : c ∈ batch) (o : Outcome V) (holder : Holder) (slot : Slot V) :
    (Move.resolve how who i batch).Leads o i c.key slot (how.leaves holder c slot) := by
  cases how with
  | commit =>
    cases c with
    | get k' => exact .keeps (Slot.mark_release _ _)
    | set k' v e =>
      cases slot with
      | none => exact .unlinks _
      | some cell => exact .stores (.commit e hc) rfl rfl _
    | del k' => exact .unlinks _
  | abort =>
    cases slot with
    | none => exact .unlinks _
    | some cell =>
      cases ht : cell.temporary with
      | true =>
        rw [Session.Resolution.leaves, Option.bind_some, if_pos ht]
        exact .unlinks _
      | false =>
        rw [Session.Resolution.leaves, Option.bind_some, if_neg (by rw [ht]; exact Bool.false_ne_true)]
        exact .keeps rfl

omit [BEq V] in
theorem Store.Resolves.leads {how : Resolution} {locks : LockSet} {s : Store V}
    {batch done rest : List (Command V)} (h : Resolves how batch locks s done rest) (o : Outcome V)
    (who : Holder) :
    (Move.resolve how who i batch).Leads o i k (s.cells.get? k)
      ((how.run batch locks s).state.cells.get? k) := by
  obtain ⟨cells, hst, hg⟩ := h.cells
  rw [hst, hg]
  rcases resolvedSlot_cases h k with ⟨c, hc, rfl, -, he⟩ | ⟨-, he⟩
  · rw [he]
    exact how.leads (h.split ▸ List.mem_append_left _ hc) o _ _
  · rw [he]
    exact .keeps (Slot.mark_forgottenSlot _ _ _)

namespace World

variable {w w' : World V} {m : Move V} {o : Outcome V}

/-- What a move makes of the slot of a key. -/
theorem Owned.leads (hw : w.Owned) (he : w.Effect m o w') :
    m.Leads o i k (w.slot i k) (w'.slot i k) := by
  cases hi : w.store? i with
  | none =>
    have hi' : w'.store? i = none := by
      have hid := he.ids i
      rw [hi, Option.map_none, Option.map_eq_none_iff] at hid
      exact hid
    rw [slot, slot, hi, hi']
    exact .keeps rfl
  | some st =>
    obtain ⟨st', hi', -⟩ := he.store_after hi
    rw [slot_of_store hi, slot_of_store hi']
    have hsame : st' = st → m.Leads o i k (st.cells.get? k) (st'.cells.get? k) := by
      rintro rfl
      exact .keeps rfl
    -- where the move is on one store, it is this one or this one is as it was
    have hone : ∀ {j : Nat} {s s' : Store V}, w.store? j = some s → w.Changes w' j s' →
        (i = j → m.Leads o i k (s.cells.get? k) (s'.cells.get? k)) →
        m.Leads o i k (st.cells.get? k) (st'.cells.get? k) := by
      intro j s s' hj hs hl
      rw [hs i] at hi'
      split at hi'
      · next hij =>
        subst hij
        rw [← Option.some.inj hi', ← Option.some.inj (hj.symm.trans hi)]
        exact hl rfl
      · exact hsame (Option.some.inj (hi.symm.trans hi')).symm
    cases he with
    | idle h hs =>
      rw [hs.stores, hi] at hi'
      exact hsame (Option.some.inj hi').symm
    | called s hj hs =>
      refine hone hj hs ?_
      rintro rfl
      exact Store.call_leads _ s
    | acquired s locks hn hj hr hs =>
      refine hone hj hs ?_
      rintro rfl
      exact Store.acquire_leads hr
    | resolved s locks hm hj hu hs =>
      refine hone hj hs ?_
      rintro rfl
      obtain ⟨done, rest, h⟩ := hw.exists_resolves hj hm hu _ _
      exact h.leads _ _
    | forgotten locks hm hs =>
      rw [hs, hi, Option.map_some] at hi'
      rw [← Option.some.inj hi']
      exact .keeps (Store.mark_forget _ _ _)
    | held s s' hn hj hr hs =>
      obtain ⟨-, l, -, rfl⟩ := Store.hold?_ok hr
      exact hone hj hs fun _ => .keeps (Store.mark_relock _ _ _ _)
    | heldBaseline hn hj hs =>
      rw [hs, hi] at hi'
      exact hsame (Option.some.inj hi').symm
    | letGo h hm hs =>
      rw [hs, hi] at hi'
      split at hi'
      · rw [Option.map_some, Store.letGo_eq] at hi'
        rw [← Option.some.inj hi']
        exact .keeps (Store.mark_relock _ _ _ _)
      · exact hsame (Option.some.inj hi').symm

/-! ## Runs -/

/-- A slot is sound if the mark of its cell tells whether it has a payload. -/
theorem Reachable.mark_iff (hw : w.Reachable) {c : Cell V} (hc : w.slot i k = some c) :
    c.temporary = true ↔ c.payload = none := by
  obtain ⟨st, hi, hg⟩ := Option.bind_eq_some_iff.1 hc
  rw [hw.sound i st hi k c hg, Option.isNone_iff_eq_none]

/-- A placeholder is new only by an acquire phase that found its key absent. -/
theorem Reachable.links (hw : w.Reachable) {m : Move V}
    (ht : ((w.step m).state.slot i k).mark = some true) :
    (w.slot i k).mark = some true ∨ w.slot i k = none ∧ ∃ who batch locks,
      m = .acquire who i batch ∧ (w.step m).reply = .done (.locks locks) ∧
        k ∈ batch.map Command.key := by
  have hl := hw.owned.leads (i := i) (k := k) (step_effect w m)
  generalize (w.step m).state.slot i k = b at hl ht
  generalize w.slot i k = a at hl ⊢
  cases hl with
  | keeps h => exact .inl (h.symm.trans ht)
  | unlinks a => cases ht
  | links who batch locks hm ho hk hc => exact .inr ⟨rfl, who, batch, locks, hm, ho, hk⟩
  | stores h hc => exact absurd ((congrArg some hc).symm.trans ht) nofun

/-- A placeholder is committed only by storing a payload in it. -/
theorem Reachable.commits (hw : w.Reachable) {m : Move V} (ht : (w.slot i k).mark = some true)
    (hc : ((w.step m).state.slot i k).mark = some false) :
    ∃ v c, m.Stores i k v (w.step m).reply ∧ (w.step m).state.slot i k = some c ∧
      c.payload = some v := by
  have hl := hw.owned.leads (i := i) (k := k) (step_effect w m)
  generalize (w.step m).state.slot i k = b at hl hc ⊢
  generalize w.slot i k = a at hl ht
  cases hl with
  | keeps h => rw [h, ht] at hc; cases hc
  | unlinks a => cases hc
  | links => cases ht
  | @stores v c h _ hp => exact ⟨v, c, h, rfl, hp⟩

/-- A committed cell that is still linked is committed. -/
theorem Reachable.stays (hw : w.Reachable) {m : Move V} (hc : (w.slot i k).mark = some false)
    (hn : (w.step m).state.slot i k ≠ none) :
    ((w.step m).state.slot i k).mark = some false := by
  have hl := hw.owned.leads (i := i) (k := k) (step_effect w m)
  generalize (w.step m).state.slot i k = b at hl hn ⊢
  generalize w.slot i k = a at hl hc
  cases hl with
  | keeps h => exact h.trans hc
  | unlinks a => exact absurd rfl hn
  | links => cases hc
  | stores h hc' => exact congrArg some hc'

omit [BEq V] in
/-- The first rows are committed. -/
theorem mark_start {plans : List (Backend.Plan V)} {s : Session V}
    (h : Session.start plans = .ok s) : (slot ⟨s, []⟩ i k).mark ≠ some true := by
  cases hi : store? i ⟨s, []⟩ with
  | none =>
    rw [slot, hi]
    intro h
    cases h
  | some st =>
    obtain ⟨p, timeout, -, -, hst⟩ := Session.store_of_start h hi
    rw [slot_of_store hi, hst, Store.get?_ofRows]
    intro hm
    cases hv : (Table.ofList p.rows).get? k with
    | none =>
      rw [hv] at hm
      cases hm
    | some v =>
      rw [hv] at hm
      cases hm

theorem after_concat (ms : List (Move V)) (m : Move V) (w : World V) :
    w.after (ms ++ [m]) = ((w.after ms).step m).state := after_append ms [m] w

/-- A placeholder was linked by an acquire phase, and has been one ever since. -/
theorem Reachable.since (hw : w.Reachable) (hn : (w.slot i k).mark ≠ some true)
    {ms : List (Move V)} (ht : ((w.after ms).slot i k).mark = some true) :
    ∃ pre who batch locks post, ms = pre ++ .acquire who i batch :: post ∧
      (w.after pre).slot i k = none ∧
      ((w.after pre).step (.acquire who i batch)).reply = .done (.locks locks) ∧
      k ∈ batch.map Command.key ∧ ∀ mid, mid <+: post →
        ((w.after (pre ++ .acquire who i batch :: mid)).slot i k).mark = some true := by
  induction ms using List.reverseRecOn with
  | nil => exact absurd ht hn
  | append_singleton ms m ih =>
    have ht' := ht
    rw [after_concat] at ht'
    rcases (hw.after ms).links ht' with hb | ⟨hs, who, batch, locks, rfl, ho, hk⟩
    · obtain ⟨pre, who, batch, locks, post, rfl, hs, ho, hk, hmid⟩ := ih hb
      refine ⟨pre, who, batch, locks, post ++ [m], List.append_assoc .., hs, ho, hk, ?_⟩
      intro mid hm
      rcases List.prefix_concat_iff.1 hm with rfl | hm
      · rwa [List.append_assoc] at ht
      · exact hmid mid hm
    · refine ⟨ms, who, batch, locks, [], rfl, hs, ho, hk, fun mid hm => ?_⟩
      rw [List.prefix_nil.1 hm]
      exact ht

/-- As long as it is linked, a committed cell stays a committed one. -/
theorem Reachable.stays_after (hw : w.Reachable) (hc : (w.slot i k).mark = some false)
    {ms : List (Move V)} (hl : ∀ mid, mid <+: ms → (w.after mid).slot i k ≠ none) :
    ((w.after ms).slot i k).mark = some false := by
  induction ms using List.reverseRecOn with
  | nil => exact hc
  | append_singleton ms m ih =>
    have hb := ih fun mid hm => hl mid (hm.trans (List.prefix_append _ _))
    have hn := hl _ (List.prefix_refl _)
    rw [after_concat] at hn ⊢
    exact (hw.after ms).stays hb hn

/-- What the placeholders are after the moves `ms`, where they come from and where they go. -/
structure PlaceholdersAgree (w : World V) (ms : List (Move V)) : Prop where
  /-- The linked cells without payload are the temporary ones. -/
  marks : ∀ i k c, (w.after ms).slot i k = some c → (c.temporary = true ↔ c.payload = none)
  /-- A temporary cell is linked only where nothing was, by an acquire phase that goes through. -/
  links : ∀ m i k, ((w.after (ms ++ [m])).slot i k).mark = some true →
    ((w.after ms).slot i k).mark = some true ∨ (w.after ms).slot i k = none ∧
      ∃ who batch locks, m = .acquire who i batch ∧
        ((w.after ms).step m).reply = .done (.locks locks) ∧ k ∈ batch.map Command.key
  /-- So all of them were, and they have been temporary ever since. -/
  since : ∀ i k, ((w.after ms).slot i k).mark = some true →
    ∃ pre who batch locks post, ms = pre ++ .acquire who i batch :: post ∧
      (w.after pre).slot i k = none ∧
      ((w.after pre).step (.acquire who i batch)).reply = .done (.locks locks) ∧
      k ∈ batch.map Command.key ∧ ∀ mid, mid <+: post →
        ((w.after (pre ++ .acquire who i batch :: mid)).slot i k).mark = some true
  /-- A temporary cell is committed only by storing a payload under its key. -/
  commits : ∀ m i k, ((w.after ms).slot i k).mark = some true →
    ((w.after (ms ++ [m])).slot i k).mark = some false →
    ∃ v c, m.Stores i k v ((w.after ms).step m).reply ∧
      (w.after (ms ++ [m])).slot i k = some c ∧ c.payload = some v
  /-- A committed cell is never temporary again. -/
  stays : ∀ more i k, ((w.after ms).slot i k).mark = some false →
    (∀ mid, mid <+: more → (w.after (ms ++ mid)).slot i k ≠ none) →
    ((w.after (ms ++ more)).slot i k).mark = some false

/-- After any moves on stores that have been set up, the mark of each linked cell tells whether it
has a payload.  A placeholder comes from an acquire phase that found its key absent, only storing a
payload makes it a committed cell, and no committed cell becomes a placeholder. -/
theorem placeholders_agree {plans : List (Backend.Plan V)} {s : Session V}
    (h : Session.start plans = .ok s) (ms : List (Move V)) : PlaceholdersAgree ⟨s, []⟩ ms := by
  have hs : Reachable ⟨s, []⟩ := .start h
  have hw : (after ms ⟨s, []⟩).Reachable := hs.after ms
  refine ⟨fun i k c hc => hw.mark_iff hc, fun m i k ht => ?_,
    fun i k ht => hs.since (mark_start h) ht, fun m i k ht hc => ?_, fun more i k hc hl => ?_⟩
  · rw [after_concat] at ht
    exact hw.links ht
  · rw [after_concat] at hc ⊢
    exact hw.commits ht hc
  · rw [after_append]
    refine hw.stays_after hc fun mid hm => ?_
    rw [← after_append]
    exact hl mid hm

/-- A placeholder outlives the lock set that it was linked for; a stored null is a payload. -/
theorem placeholders_agree_dropped :
    let w : World (Option Nat) := ⟨Session.single [("a", none)], []⟩
    let ms : List (Move (Option Nat)) :=
      [.acquire (.named "x") 0 [.set "c" none none], .drop (.named "x")]
    w.PlaceholdersAgree ms ∧ ((w.after ms).slot 0 "a").mark = some false ∧
      ((w.after ms).slot 0 "c").mark = some true ∧
      ((w.after (ms ++ [.call 0 (.set "c" none)])).slot 0 "c").mark = some false :=
  ⟨placeholders_agree (Session.start_single [("a", none)]) _, rfl, rfl, rfl⟩

end World

end

end TwoPhaseStore
