import TwoPhaseStore.Proofs.Ownership
import TwoPhaseStore.Proofs.Store.Quiet

/-!
Lock ownership is exact.  In a reachable world the cells that are held are the keys of the live lock
sets, each in the store that its lock set names and each held by one lock set, and those that a
party holds outside of any batch.  A lock set that ends, in whatever way, holds nothing any more.

So when all lock sets have ended and nobody holds anything, no operation is refused for a lock, but
for the acquire phase of a batch that names a key twice: it meets its own lock.
-/

namespace TwoPhaseStore

open Session (Resolution)

variable {V : Type}

namespace World

/-- The cells that are held, and by whom. -/
structure Exact (w : World V) : Prop where
  exclusive : ∀ i st, w.store? i = some st → ∀ k who, st.lockAt k = .exclusive who ↔
    (∃ locks ∈ w.locks, locks.issuer = st.id ∧ locks.keys.contains k = true ∧
      locks.holder = who) ∨
    ∃ h ∈ w.holds, h.store = i ∧ h.mode = .writeKey k ∧ h.who = who
  /-- A lock set is on linked cells of the one store that it names. -/
  linked : ∀ locks ∈ w.locks, ∃ i st, w.store? i = some st ∧ st.id = locks.issuer ∧
    (∀ j st', w.store? j = some st' → st'.id = locks.issuer → j = i) ∧
    ∀ k, locks.keys.contains k = true →
      ∃ c, st.cells.get? k = some c ∧ c.lock = .exclusive locks.holder
  disjoint : ∀ locks ∈ w.locks, ∀ other ∈ w.locks, locks.issuer = other.issuer →
    ∀ k, locks.keys.contains k = true → other.keys.contains k = true → locks = other
  /-- A lock that is not free is one of those, or somebody reads under it. -/
  nothingElse : ∀ i st, w.store? i = some st → ∀ target, st.lockOn target ≠ .free →
    (∃ locks ∈ w.locks, locks.issuer = st.id ∧
      ∃ k, target = some k ∧ locks.keys.contains k = true) ∨
    ∃ h ∈ w.holds, h.store = i ∧ h.mode.key? = target

/-- However a party ends its lock set on a store, it has none any more. -/
def Ends [BEq V] (w : World V) : Prop :=
  ∀ (m : Move V) (who : Holder), m.ends? = some who →
    (∀ i, m.store? = some i → w.store? i ≠ none) →
    ∀ locks ∈ (w.step m).state.locks, locks.holder ≠ who

/-- No lock is in the way of anybody. -/
structure Unblocked [BEq V] (w : World V) : Prop where
  free : ∀ i st, w.store? i = some st → ∀ target, st.lockOn target = .free
  /-- Only an acquire phase is refused for a lock, and at the first key that comes again. -/
  refused : ∀ (m : Move V) (f : Fault), (∀ i, m.store? = some i → w.store? i ≠ none) →
    (w.step m).reply = .refused f → (f = .globallyLocked ∨ ∃ k, f = .keyLocked k) →
    ∃ who i done c rest, m = .acquire who i (done ++ c :: rest) ∧
      (done.map Command.key).Nodup ∧ c.key ∈ done.map Command.key ∧ f = .keyLocked c.key
  /-- A batch that repeats a key is refused there, if no condition failed before. -/
  repeated : ∀ (who : Holder) (i : Nat) (st : Store V) (batch : List (Command V)),
    w.store? i = some st → ¬ (batch.map Command.key).Nodup →
    ∃ done c rest, batch = done ++ c :: rest ∧ (done.map Command.key).Nodup ∧
      (c.key ∈ done.map Command.key ∧
          (w.step (.acquire who i batch)).reply = .refused (.keyLocked c.key) ∨
        c.key ∉ done.map Command.key ∧ ¬ Store.Satisfied st.cells c ∧
          (w.step (.acquire who i batch)).reply = .refused (.conditionFailed c.key))

/-! ## Who holds what -/

theorem Owned.exact {w : World V} (hw : w.Owned) : w.Exact := by
  refine ⟨fun i st hi k who => ?_, fun locks hm => ?_, fun locks hm other hm' hu k hk hk' => ?_,
    fun i st hi target hn => ?_⟩
  · refine ((hw.held hi (some k)).2 .exclusive who).trans (or_congr ⟨?_, ?_⟩ ⟨?_, ?_⟩)
    · rintro ⟨locks, hm, hu, ⟨j, hj, hk⟩, -, rfl⟩
      obtain rfl := Option.some.inj hj
      exact ⟨locks, hm, hu, hk, rfl⟩
    · rintro ⟨locks, hm, hu, hk, rfl⟩
      exact ⟨locks, hm, hu, ⟨k, rfl, hk⟩, rfl, rfl⟩
    · rintro ⟨⟨who', i', mode⟩, hm, rfl, ht, hmode, rfl⟩
      refine ⟨_, hm, rfl, ?_, rfl⟩
      cases mode <;> cases hmode <;> cases ht
      rfl
    · rintro ⟨⟨who', i', mode⟩, hm, rfl, hmode, rfl⟩
      cases hmode
      exact ⟨_, hm, rfl, rfl, rfl, rfl⟩
  · obtain ⟨i, st, hi, hu⟩ := hw.issued locks hm
    refine ⟨i, st, hi, hu, fun j st' hj hu' => hw.distinct hj hi (hu'.trans hu.symm),
      fun k hk => hw.linked_cell hi hm hu.symm hk⟩
  · obtain ⟨i, st, hi, hst⟩ := hw.issued locks hm
    have hl : st.lockAt k = .exclusive locks.holder := hw.lockAt_eq hi hm hst.symm hk
    have hl' : st.lockAt k = .exclusive other.holder :=
      hw.lockAt_eq hi hm' (hst.trans hu).symm hk'
    have he : locks.holder = other.holder := Lock.exclusive.inj (hl.symm.trans hl')
    exact hw.eq_of_holder hm' hm he
  · have hg : ¬ ∀ mode who, ¬ w.Guards i st.id target mode who :=
      fun h => hn ((hw.held hi target).eq_free h)
    simp only [Classical.not_forall, Classical.not_not] at hg
    obtain ⟨mode, who, ⟨locks, hm, hu, hk, -⟩ | ⟨h, hm, hs, ht, -⟩⟩ := hg
    · exact .inl ⟨locks, hm, hu, hk⟩
    · exact .inr ⟨h, hm, hs, ht⟩

/-- Nobody has anything in the store `st` of number `i`. -/
structure AtRest (w : World V) (i : Nat) (st : Store V) : Prop where
  locks : ∀ locks ∈ w.locks, locks.issuer ≠ st.id
  holds : ∀ h ∈ w.holds, h.store ≠ i

/-- A store in which nobody has anything has no lock held. -/
theorem Owned.lockOn_of_atRest {w : World V} (hw : w.Owned) {i : Nat} {st : Store V}
    (hi : w.store? i = some st) (hr : w.AtRest i st) (target : Option Key) :
    st.lockOn target = .free := by
  refine (hw.held hi target).eq_free fun mode who => ?_
  rintro (⟨locks, hm, hu, -⟩ | ⟨h, hm, hs, -⟩)
  · exact hr.locks locks hm hu
  · exact hr.holds h hm hs

theorem Reachable.quiet [BEq V] {w : World V} (h : w.Reachable) {i : Nat} {st : Store V}
    (hi : w.store? i = some st) (hr : w.AtRest i st) : st.Quiet :=
  ⟨h.sound i st hi, h.owned.lockOn_of_atRest hi hr⟩

theorem Owned.lockOn_eq_free {w : World V} (hw : w.Owned) (hl : w.locks = []) (hh : w.holds = [])
    {i : Nat} {st : Store V} (hi : w.store? i = some st) (target : Option Key) :
    st.lockOn target = .free :=
  hw.lockOn_of_atRest hi ⟨by simp [hl], by simp [hh]⟩ target

/-- A store with no lock held is in nobody's way. -/
theorem not_blocked {st : Store V} (hf : ∀ target, st.lockOn target = .free) (f : Fault) :
    ¬ st.Blocked f := by
  rintro (⟨-, hs⟩ | ⟨k, -, hk⟩)
  · exact hs (hf none)
  · exact hk (hf (some k))

/-! ## Lock sets that end -/

section
variable [BEq V] {w w' : World V} {m : Move V} {o : Outcome V}

theorem Effect.ends (he : w.Effect m o w') {who : Holder} (hm : m.ends? = some who)
    (hi : ∀ i, m.store? = some i → w.store? i ≠ none) : ∀ locks ∈ w'.locks, locks.holder ≠ who := by
  intro locks hl
  cases he with
  | idle h hw =>
    rw [hw.locks] at hl
    cases h with
    | noLocks hm' hn =>
      obtain rfl := Option.some.inj (hm'.symm.trans hm)
      exact hn locks hl
    | nameInUse hm' =>
      rw [Move.ends?_of_begins? hm'] at hm
      cases hm
    | unsupported hm' hi' => exact absurd hi' (hi _ hm')
    | _ => cases hm
  | resolved st locks' hm' hi hu hs hl' =>
    cases hm
    rw [hl'] at hl
    simpa using (List.mem_filter.1 hl).2
  | forgotten locks' hm' hs hl' hh ho =>
    rw [hl'] at hl
    have hne : locks.holder ≠ locks'.holder := by simpa using (List.mem_filter.1 hl).2
    rcases ho with ⟨rfl, -⟩ | ⟨how, i, batch, st, rfl, -⟩
    · cases hm
      exact hne
    · cases hm
      exact hne
  | _ => cases hm

/-! ## Where nothing is held -/

/-- Where nothing is held, the acquire phase fails at the first key that comes again or at the first
condition that does not hold, whichever comes first. -/
theorem acquire_error_of_free {st : Store V} (hf : ∀ target, st.lockOn target = .free)
    {who : Holder} {batch : List (Command V)} {f : Fault}
    (h : (st.acquire who batch).reply = .error f) :
    f = .emptyBatch ∧ batch = [] ∨
      ∃ done c rest, batch = done ++ c :: rest ∧ (done.map Command.key).Nodup ∧
        (c.key ∈ done.map Command.key ∧ f = .keyLocked c.key ∨
          c.key ∉ done.map Command.key ∧ ¬ Store.Satisfied st.cells c ∧
            f = .conditionFailed c.key) := by
  rcases (Store.acquire_error h).2 with ⟨hb, he⟩ | ⟨hs, -⟩ | ⟨done, c, rest, e, hb, hl, hr, rfl⟩
  · exact .inl ⟨he, hb⟩
  · exact absurd (hf none) hs
  · refine .inr ⟨done, c, rest, hb, hl.distinct, ?_⟩
    cases hr with
    | locked hk => exact .inl ⟨hk.resolve_right fun hn => hn (hf (some c.key)), rfl⟩
    | unsatisfied hd hf' hs => exact .inr ⟨hd, hs, rfl⟩

theorem Effect.refused_of_free (he : w.Effect m o w')
    (hf : ∀ i st, w.store? i = some st → ∀ target, st.lockOn target = .free)
    (hi : ∀ i, m.store? = some i → w.store? i ≠ none) {f : Fault} (ho : o = .refused f)
    (hb : f = .globallyLocked ∨ ∃ k, f = .keyLocked k) :
    ∃ who i done c rest, m = .acquire who i (done ++ c :: rest) ∧
      (done.map Command.key).Nodup ∧ c.key ∈ done.map Command.key ∧ f = .keyLocked c.key := by
  cases he with
  | idle h =>
    cases h with
    | call c hi' => exact absurd hi' (hi _ rfl)
    | baseline mode hi' => exact absurd hi' (hi _ rfl)
    | hold hi' hr => cases ho; exact absurd (Store.hold?_refused hr) (not_blocked (hf _ _ hi') f)
    | acquire hi' hr =>
      cases ho
      rcases acquire_error_of_free (hf _ _ hi') hr with ⟨rfl, -⟩ |
        ⟨done, c, rest, rfl, hn, ⟨hk, rfl⟩ | ⟨-, -, rfl⟩⟩
      · simp at hb
      · exact ⟨_, _, done, c, rest, rfl, hn, hk, rfl⟩
      · simp at hb
    | _ => cases ho
  | @called i c _ st hi' =>
    have hr : (st.call c).reply = .error f := by
      unfold Outcome.ofReply at ho
      split at ho
      · cases ho
      · next hr => cases ho; exact hr
    rcases Store.call_refused hr with hbl | ⟨k, v, e, -, rfl, -⟩
    · exact absurd hbl (not_blocked (hf _ _ hi') f)
    · simp at hb
  | resolved st locks hm hi' hu hs hl hh ho' =>
    rcases ho' with ⟨-, rfl⟩ | ⟨v, -, rfl⟩ <;> cases ho
  | forgotten locks hm hs hl hh ho' =>
    rcases ho' with ⟨-, rfl⟩ | ⟨_, _, _, _, -, -, -, rfl⟩ <;> cases ho
  | _ => cases ho

theorem Owned.unblocked (hw : w.Owned) (hl : w.locks = []) (hh : w.holds = []) : w.Unblocked := by
  have hf : ∀ i st, w.store? i = some st → ∀ target, st.lockOn target = .free :=
    fun i st hi => hw.lockOn_eq_free hl hh hi
  refine ⟨hf, fun m f hi ho hb => (w.step_effect m).refused_of_free hf hi ho hb,
    fun who i st batch hi hn => ?_⟩
  have hp : who ∉ w.parties := by
    show who ∉ w.locks.map (·.holder) ++ w.holds.map (·.who)
    rw [hl, hh]
    exact List.not_mem_nil
  rw [(w.step_effect (.acquire who i batch)).acquire_reply hi hp]
  cases hr : (st.acquire who batch).reply with
  | ok locks => exact absurd (Store.acquire_ok hr).2.2.1.distinct hn
  | error f =>
    rcases acquire_error_of_free (hf i st hi) hr with ⟨-, rfl⟩ |
      ⟨done, c, rest, hb, hd, ⟨hk, rfl⟩ | ⟨hk, hs, rfl⟩⟩
    · exact absurd List.nodup_nil hn
    · exact ⟨done, c, rest, hb, hd, .inl ⟨hk, rfl⟩⟩
    · exact ⟨done, c, rest, hb, hd, .inr ⟨hk, hs, rfl⟩⟩

/-- In every reachable world the locks are exactly those of the live lock sets and of the holds, a
lock set that ends leaves none, and without any the locks are in nobody's way. -/
theorem ownership_exact {w : World V} (h : w.Reachable) :
    w.Exact ∧ w.Ends ∧ (w.locks = [] → w.holds = [] → w.Unblocked) :=
  ⟨h.owned.exact, fun m _ hm hi => (w.step_effect m).ends hm hi, h.owned.unblocked⟩

end

/-- A lock set that was dropped with a placeholder leaves nothing locked. -/
theorem ownership_exact_single :
    let w : World Nat := after [.acquire (.named "x") 0 [.del "a", .set "c" 1 none],
      .drop (.named "x")] ⟨Session.single [("a", 1)], []⟩
    w.locks = [] ∧ w.holds = [] ∧ w.Exact ∧ w.Ends ∧ w.Unblocked := by
  have hs : Reachable ⟨Session.single [("a", 1)], []⟩ := .start (Session.start_single [("a", 1)])
  obtain ⟨he, hd, hu⟩ := ownership_exact
    (hs.after [.acquire (.named "x") 0 [.del "a", .set "c" 1 none], .drop (.named "x")])
  exact ⟨rfl, rfl, he, hd, hu rfl rfl⟩

end World

end TwoPhaseStore
