import TwoPhaseStore.Proofs.Agreement
import TwoPhaseStore.Proofs.Disjoint
import TwoPhaseStore.Proofs.Refusal
import TwoPhaseStore.Proofs.Store.Undo

/-!
Resubmission.  What was refused in a reachable world is submitted again after other parties have
moved on.  They can always clear the way: they end all lock sets and holds (`releases`), and write
what the conditions expect (`Move.meet`).

So every refused operation can still succeed, and its fault is a retryable one.  A batch can still
succeed exactly if its fault is retryable and it names no key twice (`retryable_iff_resubmits`).  A
batch that repeats a key meets its own lock whenever it is submitted; its fault is that of a lock
that another party holds, so that it is retryable too (`repeated_key_never_locks`).
-/

namespace TwoPhaseStore

variable {V : Type}

/-- The writes after which the conditions of a batch hold. -/
def Move.meet (i : Nat) (batch : List (Command V)) : List (Move V) :=
  batch.filterMap fun c => c.expected?.map fun e => .call i (.set c.key e)

namespace Store

section
variable [BEq V] {s : Store V}

/-- Where no lock is held only a condition is in the way. -/
theorem Quiet.call_ok (h : s.Quiet) {c : Call V}
    (hc : ∀ k v e, c = .setCond k v e → s.meets k (some e) = true) :
    ∃ r, (s.call c).reply = .ok r := by
  cases hr : (s.call c).reply with
  | ok r => exact ⟨r, rfl⟩
  | error f =>
    rcases call_refused hr with (⟨-, hs⟩ | ⟨k, -, hl⟩) | ⟨k, v, e, rfl, -, hm⟩
    · exact absurd (h.free none) hs
    · exact absurd (h.free (some k)) hl
    · rw [hc k v e rfl] at hm
      cases hm

theorem Quiet.contents_set (h : s.Quiet) (k : Key) (v : V) :
    (s.call (.set k v)).state.contents = Contents.put s.contents k (some v) := by
  have hr : (s.call (.set k v)).reply = .ok .done := by
    show (s.write k v none).reply.map _ = _
    rw [h.write_reply, meets_none]
    rfl
  rw [contents_call_ok rfl hr]
  rfl

/-- An operation is only refused for what may pass. -/
theorem call_retryable {c : Call V} {f : Fault} (h : (s.call c).reply = .error f) :
    f.isRetryable = true := by
  rcases call_refused h with (⟨rfl, -⟩ | ⟨k, rfl, -⟩) | ⟨k, v, e, -, rfl, -⟩ <;> rfl

/-- A batch is only refused for what may pass, unless it is empty. -/
theorem acquire_retryable {who : Holder} {batch : List (Command V)} {f : Fault}
    (h : (s.acquire who batch).reply = .error f) : f.isRetryable = true ↔ batch ≠ [] := by
  by_cases hb : batch = []
  · subst hb
    obtain rfl : Fault.emptyBatch = f := Except.error.inj h
    exact iff_of_false Bool.false_ne_true fun hn => hn rfl
  · refine iff_of_true ?_ hb
    rcases (acquire_error h).2 with ⟨hn, -⟩ | ⟨-, rfl⟩ | ⟨done, c, rest, e, -, -, he, rfl⟩
    · exact absurd hn hb
    · rfl
    · cases he <;> rfl

/-- A batch that has just been acquired can be aborted. -/
theorem abort_acquired {who : Holder} {batch : List (Command V)} {locks : LockSet}
    (h : (s.acquire who batch).reply = .ok locks) :
    ((s.acquire who batch).state.abort batch locks).reply = .ok () := by
  obtain ⟨-, -, hl, ⟨hu, -, hk⟩, cells, hst, hg⟩ := acquire_ok h
  refine (run_abort (hu.trans (acquire_id who batch s).symm) (fun k hkey => ?_) hl.distinct hk).1
  rw [hst]
  show cells.get? k ≠ none
  rw [hg, if_pos ((hk k).1 hkey)]
  exact Option.some_ne_none _

end

end Store

namespace Session

variable [BEq V] {s : Session V} {i depth : Nat} {st : Store V} {batch : List (Command V)}

/-- A batch is refused for what its acquire phase is refused for. -/
theorem apply_refused (hi : s.store? i = some st) {durable : Option Bool} {during : List (Step V)}
    {f : Fault}
    (h : (runStep depth (.apply i (.ok batch) durable during) s).1.outcome = .refused f) :
    (st.acquire (.nested depth) batch).reply = .error f := by
  have hi' : (s.noteBatch batch).store? i = some st := hi
  rw [runStep] at h
  cases hr : (st.acquire (.nested depth) batch).reply with
  | ok locks =>
    simp only [acquire_ok hi' hr] at h
    exact absurd h (decide_ne_refused batch locks durable)
  | error f' =>
    simp only [acquire_error hi' hr] at h
    cases h
    rfl

/-- A batch that is found not to be durable is aborted, if it is acquired. -/
theorem apply_denied (hi : s.store? i = some st) :
    (runStep depth (.apply i (.ok batch) (some false) []) s).1.outcome = .done (.flag false) ↔
      ∃ locks, (st.acquire (.nested depth) batch).reply = .ok locks := by
  have hi' : (s.noteBatch batch).store? i = some st := hi
  rw [runStep]
  cases hr : (st.acquire (.nested depth) batch).reply with
  | error f =>
    simp only [acquire_error hi' hr]
    refine iff_of_false (fun h => by cases h) fun h => ?_
    obtain ⟨_, h⟩ := h
    cases h
  | ok locks =>
    refine iff_of_true ?_ ⟨locks, rfl⟩
    have hst : ∀ j, ({ (s.noteBatch batch).setBackend i (.store (st.acquire (.nested depth)
        batch).state) with locks := locks :: (s.noteBatch batch).locks } : Session V).store? j =
        if j = i then some (st.acquire (.nested depth) batch).state else s.store? j :=
      fun j => store?_setStore hi' _ j
    simp only [acquire_ok hi' hr, runSteps, decide, Bool.false_eq_true, if_false,
      resolve_of_store ((hst i).trans (if_pos rfl))]
    show Outcome.ofResolution (.flag false)
      ((st.acquire (.nested depth) batch).state.abort batch locks).reply = _
    rw [Store.abort_acquired hr]
    rfl

end Session

namespace World

/-- The moves that end whatever somebody holds. -/
def releases (w : World V) : List (Move V) :=
  w.locks.map (fun locks => .drop locks.holder) ++ w.holds.map (fun h => .letGo h.who)

section
variable [BEq V]

/-! ## Clearing the way -/

theorem drop_leaves (who : Holder) (w : World V) :
    (w.step (.drop who)).state.locks = w.locks.filter (·.holder ≠ who) ∧
      (w.step (.drop who)).state.holds = w.holds := by
  refine ⟨?_, rfl⟩
  show (w.session.dropAs who).state.locks = w.session.locks.filter (·.holder ≠ who)
  unfold Session.dropAs Session.withLocks
  cases hl : w.session.lockSet? who with
  | none =>
    refine (List.filter_eq_self.2 fun locks hm => ?_).symm
    exact decide_eq_true (Session.lockSet?_eq_none.1 hl locks hm)
  | some locks =>
    rw [← (Session.mem_of_lockSet? hl).2]
    rfl

theorem letGo_leaves (who : Holder) (w : World V) :
    (w.step (.letGo who)).state.locks = w.locks ∧
      (w.step (.letGo who)).state.holds = w.holds.filter (·.who ≠ who) := by
  rw [step]
  cases hf : w.holds.find? (·.who = who) with
  | none =>
    refine ⟨rfl, (List.filter_eq_self.2 fun h hm => ?_).symm⟩
    simpa using List.find?_eq_none.1 hf h hm
  | some h => exact ⟨rfl, rfl⟩

theorem after_drops (whos : List Holder) (w : World V) :
    (w.after (whos.map .drop)).locks = w.locks.filter (·.holder ∉ whos) ∧
      (w.after (whos.map .drop)).holds = w.holds := by
  induction whos generalizing w with
  | nil => exact ⟨(List.filter_eq_self.2 (by simp)).symm, rfl⟩
  | cons who whos ih =>
    obtain ⟨hl, hh⟩ := ih (w.step (.drop who)).state
    refine ⟨hl.trans ?_, hh.trans (w.drop_leaves who).2⟩
    rw [(w.drop_leaves who).1, List.filter_filter]
    exact List.filter_congr fun locks _ => by simp [Bool.and_comm]

theorem after_letGos (whos : List Holder) (w : World V) :
    (w.after (whos.map .letGo)).locks = w.locks ∧
      (w.after (whos.map .letGo)).holds = w.holds.filter (·.who ∉ whos) := by
  induction whos generalizing w with
  | nil => exact ⟨rfl, (List.filter_eq_self.2 (by simp)).symm⟩
  | cons who whos ih =>
    obtain ⟨hl, hh⟩ := ih (w.step (.letGo who)).state
    refine ⟨hl.trans (w.letGo_leaves who).1, hh.trans ?_⟩
    rw [(w.letGo_leaves who).2, List.filter_filter]
    exact List.filter_congr fun h _ => by simp [Bool.and_comm]

/-- Nobody holds anything. -/
structure Cleared (w : World V) : Prop where
  locks : w.locks = []
  holds : w.holds = []

omit [BEq V] in
theorem Cleared.atRest {w : World V} (h : w.Cleared) (i : Nat) (st : Store V) : w.AtRest i st :=
  ⟨by simp [h.locks], by simp [h.holds]⟩

omit [BEq V] in
theorem Cleared.not_mem {w : World V} (h : w.Cleared) (who : Holder) : who ∉ w.parties := by
  show who ∉ w.locks.map (·.holder) ++ w.holds.map (·.who)
  rw [h.locks, h.holds]
  exact List.not_mem_nil

theorem after_releases (w : World V) : (w.after w.releases).Cleared := by
  have hd := w.after_drops (w.locks.map (·.holder))
  have hg := (w.after ((w.locks.map (·.holder)).map .drop)).after_letGos (w.holds.map (·.who))
  rw [List.map_map] at hd hg
  rw [List.map_map] at hg
  unfold releases
  rw [after_append]
  refine ⟨hg.1.trans (hd.1.trans ?_), hg.2.trans ?_⟩
  · exact List.filter_eq_nil_iff.2 fun locks hm => by simp; exact ⟨locks, hm, rfl⟩
  · rw [hd.2]
    exact List.filter_eq_nil_iff.2 fun h hm => by simp; exact ⟨h, hm, rfl⟩

omit [BEq V] in
/-- They are moves of those who hold something. -/
theorem party_of_mem_releases {w : World V} {m : Move V} (hm : m ∈ w.releases) :
    ∃ who ∈ w.parties, m.party? = some who := by
  rcases List.mem_append.1 hm with hm | hm
  · obtain ⟨locks, hl, rfl⟩ := List.mem_map.1 hm
    exact ⟨_, List.mem_append_left _ (List.mem_map_of_mem hl), rfl⟩
  · obtain ⟨h, hh, rfl⟩ := List.mem_map.1 hm
    exact ⟨_, List.mem_append_right _ (List.mem_map_of_mem hh), rfl⟩

omit [BEq V] in
theorem party_of_mem_meet {i : Nat} {batch : List (Command V)} {m : Move V}
    (hm : m ∈ Move.meet i batch) : m.party? = none := by
  obtain ⟨c, -, hc⟩ := List.mem_filterMap.1 hm
  obtain ⟨e, -, rfl⟩ := Option.map_eq_some_iff.1 hc
  rfl

section
variable {w : World V} {i : Nat} {st : Store V}

theorem store?_after (hi : w.store? i = some st) (ms : List (Move V)) :
    ∃ st', (w.after ms).store? i = some st' := by
  induction ms generalizing w st with
  | nil => exact ⟨st, hi⟩
  | cons m ms ih =>
    obtain ⟨st', hi', -⟩ := (w.step_effect m).store_after hi
    exact ih hi'

/-- Each condition of the batch holds, and the keys of no command are as they were. -/
structure Meets (batch : List (Command V)) (m m' : Contents V) : Prop where
  met : ∀ c ∈ batch, ∀ e, c.expected? = some e → m' c.key = some e
  kept : ∀ k, k ∉ batch.map Command.key → m' k = m k

theorem after_meet (h : w.Reachable) (hc : w.Cleared) (hi : w.store? i = some st)
    {batch : List (Command V)} (hn : (batch.map Command.key).Nodup) :
    (w.after (Move.meet i batch)).Cleared ∧
      ∃ st', (w.after (Move.meet i batch)).store? i = some st' ∧
        Meets batch st.contents st'.contents := by
  induction batch generalizing w st with
  | nil => exact ⟨hc, st, hi, by simp, fun _ _ => rfl⟩
  | cons c batch ih =>
    obtain ⟨hk, hn⟩ := List.nodup_cons.1 hn
    cases he : c.expected? with
    | none =>
      have hm : Move.meet i (c :: batch) = Move.meet i batch :=
        List.filterMap_cons_none (by rw [he]; rfl)
      obtain ⟨hc', st', hi', hmet, hkept⟩ := ih h hc hi hn
      rw [hm]
      refine ⟨hc', st', hi', fun d hd e hde => ?_, fun k hk => hkept k fun hm => hk ?_⟩
      · rcases List.mem_cons.1 hd with rfl | hd
        · rw [he] at hde
          cases hde
        · exact hmet d hd e hde
      · exact List.mem_cons_of_mem _ hm
    | some e =>
      have hm : Move.meet i (c :: batch) = .call i (.set c.key e) :: Move.meet i batch :=
        List.filterMap_cons_some (by rw [he]; rfl)
      obtain ⟨hs, hl, hh⟩ := (w.step_effect (.call i (.set c.key e))).call_state hi
      have hput := (h.quiet hi (hc.atRest i st)).contents_set c.key e
      obtain ⟨hc', st', hi', hmet, hkept⟩ := ih (h.step (.call i (.set c.key e)))
        ⟨hl.trans hc.locks, hh.trans hc.holds⟩ ((hs i).trans (if_pos rfl)) hn
      rw [hput] at hkept
      rw [hm]
      refine ⟨hc', st', hi', fun d hd e' hde => ?_, fun k hk' => ?_⟩
      · rcases List.mem_cons.1 hd with rfl | hd
        · obtain rfl : e = e' := Option.some.inj (he.symm.trans hde)
          exact (hkept d.key hk).trans (Contents.put_self _ _ _)
        · exact hmet d hd e' hde
      · rw [List.map_cons, List.mem_cons, not_or] at hk'
        exact (hkept k hk'.2).trans (Contents.put_of_ne _ _ hk'.1)

/-- Whatever the world is like, others can make way for a batch that names no key twice. -/
theorem Reachable.exists_way [ReflBEq V] (h : w.Reachable) (hi : w.store? i = some st)
    {batch : List (Command V)} (hn : (batch.map Command.key).Nodup) :
    ∃ ms st', (∀ who, who ∉ w.parties → ∀ m ∈ ms, m.party? ≠ some who) ∧
      (w.after ms).Cleared ∧ (w.after ms).store? i = some st' ∧ st'.Quiet ∧
      ∀ c ∈ batch, c.Met st'.contents := by
  obtain ⟨st₁, hi₁⟩ := store?_after hi w.releases
  obtain ⟨hc, st', hi', hmet, -⟩ := after_meet (h.after _) w.after_releases hi₁ hn
  rw [← after_append] at hc hi'
  refine ⟨_, st', fun who hw m hm he => ?_, hc, hi', (h.after _).quiet hi' (hc.atRest i st'),
    fun c hcm e he => ⟨e, hmet c hcm e he, BEq.rfl⟩⟩
  rcases List.mem_append.1 hm with hm | hm
  · obtain ⟨who', hw', he'⟩ := party_of_mem_releases hm
    exact hw (Option.some.inj (he.symm.trans he') ▸ hw')
  · rw [party_of_mem_meet hm] at he
    cases he

/-! ## Operations -/

theorem Reachable.call_resubmits [ReflBEq V] (h : w.Reachable) (hi : w.store? i = some st)
    (c : Call V) : ∃ ms r, ((w.after ms).step (.call i c)).reply = .done r := by
  have hcall : ∀ (ms : List (Move V)) (st' : Store V), (w.after ms).store? i = some st' →
      st'.Quiet → (∀ k v e, c = .setCond k v e → st'.meets k (some e) = true) →
      ∃ ms r, ((w.after ms).step (.call i c)).reply = .done r := by
    intro ms st' hi' hq hc
    obtain ⟨r, hr⟩ := hq.call_ok hc
    refine ⟨ms, r, ?_⟩
    rw [((w.after ms).step_effect (.call i c)).call_reply hi', hr]
    rfl
  cases c with
  | setCond k v e =>
    -- the condition is that of a batch of one command
    have hn : ([Command.set k v (some e)].map Command.key).Nodup := List.nodup_singleton k
    obtain ⟨ms, st', -, -, hi', hq, hmet⟩ := h.exists_way hi hn
    refine hcall ms st' hi' hq fun k' v' e' he => ?_
    cases he
    obtain ⟨p, hp, hpe⟩ := hmet _ List.mem_cons_self e rfl
    refine (hq.sound.meets_some k e).2 fun p' hp' => ?_
    obtain rfl : p = p' := Option.some.inj (hp.symm.trans hp')
    exact hpe
  | _ =>
    have hn : (([] : List (Command V)).map Command.key).Nodup := List.nodup_nil
    obtain ⟨ms, st', -, -, hi', hq, -⟩ := h.exists_way hi hn
    exact hcall ms st' hi' hq fun _ _ _ he => by cases he

/-! ## Batches -/

/-- What has been acquired is not empty and names no key twice. -/
theorem acquire_distinct {who : Holder} {batch : List (Command V)} {locks : LockSet}
    (h : (w.step (.acquire who i batch)).reply = .done (.locks locks)) :
    batch ≠ [] ∧ (batch.map Command.key).Nodup := by
  have he := w.step_effect (.acquire who i batch)
  rw [h] at he
  obtain ⟨st, -, hr, -⟩ := he.acquire_done
  obtain ⟨hb, -, hl, -⟩ := Store.acquire_ok hr
  exact ⟨hb, hl.distinct⟩

/-- Where all conditions of a batch hold it is acquired. -/
theorem Reachable.acquire_met (h : w.Reachable) (hi : w.store? i = some st) (hc : w.Cleared)
    (who : Holder) {batch : List (Command V)} (hb : batch ≠ [])
    (hn : (batch.map Command.key).Nodup) (hm : ∀ c ∈ batch, c.Met st.contents) :
    ∃ locks, (st.acquire who batch).reply = .ok locks := by
  have hw := hc.not_mem who
  cases hr : (st.acquire who batch).reply with
  | ok locks => exact ⟨locks, rfl⟩
  | error f =>
    have hf : (w.step (.acquire who i batch)).reply = .refused f := by
      rw [(w.step_effect (.acquire who i batch)).acquire_reply hi hw, hr]
      rfl
    obtain ⟨c, hcm, hn⟩ :=
      (h.acquire_refused_iff hi (hc.atRest i st) hw hb hn).1 ⟨f, hf⟩
    exact absurd (hm c hcm) hn

/-- A batch can still be acquired if it names something, and no key twice. -/
theorem Reachable.exists_acquired [ReflBEq V] (h : w.Reachable) (hi : w.store? i = some st)
    (who : Holder) {batch : List (Command V)} (hb : batch ≠ [])
    (hn : (batch.map Command.key).Nodup) :
    ∃ ms st' locks, (∀ who, who ∉ w.parties → ∀ m ∈ ms, m.party? ≠ some who) ∧
      (w.after ms).Cleared ∧ (w.after ms).store? i = some st' ∧
      (st'.acquire who batch).reply = .ok locks := by
  obtain ⟨ms, st', hms, hc, hi', -, hmet⟩ := h.exists_way hi hn
  obtain ⟨locks, hr⟩ := (h.after ms).acquire_met hi' hc who hb hn hmet
  exact ⟨ms, st', locks, hms, hc, hi', hr⟩

/-- A refused acquire phase has been refused by the store. -/
theorem acquire_refused (hi : w.store? i = some st) {who : Holder} {batch : List (Command V)}
    {f : Fault} (h : (w.step (.acquire who i batch)).reply = .refused f) :
    who ∉ w.parties ∧ (st.acquire who batch).reply = .error f := by
  have hw : who ∉ w.parties := fun hw => by
    rw [step, if_pos hw] at h
    cases h
  rw [(w.step_effect (.acquire who i batch)).acquire_reply hi hw] at h
  cases hr : (st.acquire who batch).reply with
  | ok locks => rw [hr] at h; cases h
  | error f' => rw [hr] at h; cases h; exact ⟨hw, rfl⟩

/-- Whatever was refused in a reachable world is submitted again when others have moved on.  A
refused operation is retryable exactly if it can then succeed.  A refused batch can then be
acquired, and be aborted by a decision against it, exactly if it is retryable and names no key
twice; a batch that names one twice is retryable as well. -/
theorem retryable_iff_resubmits [ReflBEq V] (h : w.Reachable) (hi : w.store? i = some st) :
    (∀ c f, (w.step (.call i c)).reply = .refused f →
      (f.isRetryable = true ↔ ∃ ms r, ((w.after ms).step (.call i c)).reply = .done r)) ∧
    (∀ who batch f, (w.step (.acquire who i batch)).reply = .refused f →
      (f.isRetryable = true ∧ (batch.map Command.key).Nodup ↔
        ∃ ms locks, (∀ m ∈ ms, m.party? ≠ some who) ∧
          ((w.after ms).step (.acquire who i batch)).reply = .done (.locks locks)) ∧
      (¬ (batch.map Command.key).Nodup → f.isRetryable = true)) ∧
    ∀ depth batch durable during f, .nested depth ∉ w.parties →
      (Session.runStep depth (.apply i (.ok batch) durable during) w.session).1.outcome =
        .refused f →
      (f.isRetryable = true ∧ (batch.map Command.key).Nodup ↔
        ∃ ms, (∀ m ∈ ms, m.party? ≠ some (.nested depth)) ∧
          (Session.runStep depth (.apply i (.ok batch) (some false) [])
            (w.after ms).session).1.outcome = .done (.flag false)) ∧
      (¬ (batch.map Command.key).Nodup → f.isRetryable = true) := by
  have hrep : ∀ {batch : List (Command V)}, ¬ (batch.map Command.key).Nodup → batch ≠ [] :=
    fun hn hb => hn (hb ▸ List.nodup_nil)
  refine ⟨fun c f hf => ?_, fun who batch f hf => ?_, fun depth batch durable during f hw hf => ?_⟩
  · rw [(w.step_effect (.call i c)).call_reply hi] at hf
    have hr : (st.call c).reply = .error f := by
      cases hr : (st.call c).reply with
      | ok r => rw [hr] at hf; cases hf
      | error f' => rw [hr] at hf; cases hf; rfl
    exact iff_of_true (Store.call_retryable hr) (h.call_resubmits hi c)
  · obtain ⟨hw, hr⟩ := acquire_refused hi hf
    rw [Store.acquire_retryable hr]
    refine ⟨⟨fun ⟨hb, hn⟩ => ?_, fun ⟨_, _, _, ha⟩ => acquire_distinct ha⟩, hrep⟩
    obtain ⟨ms, st', locks, hms, hc, hi', hok⟩ := h.exists_acquired hi who hb hn
    refine ⟨ms, locks, hms who hw, ?_⟩
    rw [((w.after ms).step_effect _).acquire_reply hi' (hc.not_mem who), hok]
    rfl
  · have hr := Session.apply_refused hi hf
    rw [Store.acquire_retryable hr]
    refine ⟨⟨fun ⟨hb, hn⟩ => ?_, fun ⟨ms, _, ha⟩ => ?_⟩, hrep⟩
    · obtain ⟨ms, st', locks, hms, -, hi', hok⟩ := h.exists_acquired hi (.nested depth) hb hn
      exact ⟨ms, hms _ hw, (Session.apply_denied hi').2 ⟨locks, hok⟩⟩
    · obtain ⟨st', hi'⟩ := store?_after hi ms
      obtain ⟨locks, hok⟩ := (Session.apply_denied hi').1 ha
      obtain ⟨hb, -, hl, -⟩ := Store.acquire_ok hok
      exact ⟨hb, hl.distinct⟩

end

end

/-- While `x` holds a key, what `y` wants of it is refused, and may succeed later; an empty batch
and one that repeats the key never do. -/
theorem retryable_iff_resubmits_locked :
    let w : World Nat := after [.acquire (.named "x") 0 [.set "a" 1 none]]
      ⟨Session.single [("a", 7)], []⟩
    let swap : List (Command Nat) := [.set "a" 2 (some 3), .get "b"]
    (w.step (.call 0 (.setCond "a" 2 3))).reply = .refused (.keyLocked "a") ∧
      (∃ ms r, ((w.after ms).step (.call 0 (.setCond "a" 2 3))).reply = .done r) ∧
    (w.step (.acquire (.named "y") 0 swap)).reply = .refused (.keyLocked "a") ∧
      (∃ ms locks, (∀ m ∈ ms, m.party? ≠ some (.named "y")) ∧
        ((w.after ms).step (.acquire (.named "y") 0 swap)).reply = .done (.locks locks)) ∧
    (w.step (.acquire (.named "y") 0 [])).reply = .refused .emptyBatch ∧
      ¬ (∃ ms locks, (∀ m ∈ ms, m.party? ≠ some (.named "y")) ∧
        ((w.after ms).step (.acquire (.named "y") 0 [])).reply = .done (.locks locks)) ∧
    (Session.runStep 0 (.apply 0 (.ok swap) (some true) []) w.session).1.outcome =
        .refused (.keyLocked "a") ∧
      ∃ ms, (∀ m ∈ ms, m.party? ≠ some (.nested 0)) ∧
        (Session.runStep 0 (.apply 0 (.ok swap) (some false) []) (w.after ms).session).1.outcome =
          .done (.flag false) := by
  have hs : Reachable (⟨Session.single [("a", 7)], []⟩ : World Nat) :=
    .start (Session.start_single [("a", 7)])
  obtain ⟨st, hi⟩ : ∃ st, store? 0 (after [.acquire (.named "x") 0 [.set "a" 1 none]]
      (⟨Session.single [("a", 7)], []⟩ : World Nat)) = some st := ⟨_, rfl⟩
  obtain ⟨hcall, hacquire, happly⟩ := retryable_iff_resubmits (hs.after _) hi
  have hn : ([Command.set "a" 2 (some 3), .get "b"].map (Command.key (V := Nat))).Nodup := by decide
  refine ⟨rfl, (hcall _ _ rfl).1 rfl, rfl, (hacquire (.named "y") _ _ rfl).1.1 ⟨rfl, hn⟩, rfl,
    fun hc => ?_, rfl, (happly 0 _ (some true) [] _ (by decide) rfl).1.1 ⟨rfl, hn⟩⟩
  cases ((hacquire (.named "y") [] _ rfl).1.2 hc).1

/-- A batch that repeats a key is refused as if the key were locked by another party, so that its
fault is retryable; but it never succeeds, though nobody else is there. -/
theorem repeated_key_never_locks :
    let w : World Nat := ⟨Session.single [], []⟩
    let batch : List (Command Nat) := [.set "a" 1 none, .set "a" 2 none]
    w.Reachable ∧ w.Cleared ∧
      (w.step (.acquire (.named "x") 0 batch)).reply = .refused (.keyLocked "a") ∧
      (Fault.keyLocked "a").isRetryable = true ∧
      ¬ ∃ ms locks, ((w.after ms).step (.acquire (.named "x") 0 batch)).reply =
        .done (.locks locks) := by
  refine ⟨.start (Session.start_single []), ⟨rfl, rfl⟩, rfl, rfl, fun ⟨ms, locks, hr⟩ => ?_⟩
  have hn : ¬ ([Command.set "a" 1 none, .set "a" 2 none].map (Command.key (V := Nat))).Nodup := by
    decide
  exact hn (acquire_distinct hr).2

end World

end TwoPhaseStore
