import TwoPhaseStore.Proofs.Residue

/-!
A store is an atomic map.  Its contents change only by the moves that are meant to change them, all
at once, and what it answers is about its contents.  Whatever was done before a move, it is permitted
between the contents that the store has before it and those that it has after it:

    w.store? i = some st → w.Effect m o w' → ∃ st', w'.store? i = some st' ∧
      m.Permitted i (w.Issued st.id) st.contents o st'.contents             (Effect.permitted)
    w.Reachable → w.store? i = some st → w.Refines i m                     (Reachable.refines)

Locks, placeholders and reserved keys are not to be seen in it.  Of the lock sets only their keys are,
where one ends halfway: what a batch had processed by then has taken effect.
-/

namespace TwoPhaseStore

open Session (Resolution)

variable {V : Type}

/-! ## An atomic map -/

/-- What an atomic map with contents `m` may answer to an operation, and its contents then. -/
inductive Call.Permitted [BEq V] (m : Contents V) :
    Call V → Except Fault (Reply V) → Contents V → Prop where
  /-- A refused operation changes nothing.  It met a lock, or its condition does not hold. -/
  | refused {c : Call V} {f : Fault} (h : f = .globallyLocked ∨ (∃ k, f = .keyLocked k) ∨
      ∃ k v e p, c = .setCond k v e ∧ f = .conditionFailed k ∧ m k = some p ∧ (p == e) = false) :
    Permitted m c (.error f) m
  | get (k : Key) : Permitted m (.get k) (.ok (.payload (m k))) m
  | set (k : Key) (v : V) : Permitted m (.set k v) (.ok .done) (m.put k (some v))
  | setCond {k : Key} (v : V) {e : V} (h : ∀ p, m k = some p → (p == e) = true) :
    Permitted m (.setCond k v e) (.ok .done) (m.put k (some v))
  | setWithDelay (k : Key) (v : V) (d : Duration) :
    Permitted m (.setWithDelay k v d) (.ok .done) (m.put k (some v))
  | del (k : Key) : Permitted m (.del k) (.ok .done) (m.put k none)
  | len (keys : List Key) (hn : keys.Nodup) (hm : ∀ k, k ∈ keys ↔ m k ≠ none) :
    Permitted m .len (.ok (.count keys.length)) m
  | isEmpty {b : Bool} (h : b = true ↔ ∀ k, m k = none) : Permitted m .isEmpty (.ok (.flag b)) m
  | contains (k : Key) : Permitted m (.contains k) (.ok (.flag (m k).isSome)) m
  | snapshot (walk : List Key) {rows : List (Key × V)} (hs : Rows.Sorted rows)
    (hm : ∀ k v, (k, v) ∈ rows ↔ m k = some v) : Permitted m (.snapshot walk) (.ok (.rows rows)) m
  | text (s : String) : Permitted m .text (.ok (.text s)) m
  | timeout (d : Duration) : Permitted m .timeout (.ok (.duration d)) m

/-- What a move may do to the atomic map of number `i` while these lock sets of it are live. -/
inductive Move.Permitted [BEq V] (i : Nat) (live : LockSet → Prop) (m : Contents V) :
    Move V → Outcome V → Contents V → Prop where
  | call {c : Call V} {r : Except Fault (Reply V)} {m' : Contents V} (h : c.Permitted m r m') :
    Permitted i live m (.call i c) (.ofReply r) m'
  /-- A commit that returns changes all keys of its lock set in one step. -/
  | commit {locks : LockSet} {batch : List (Command V)} (hl : live locks)
    (hn : (batch.map Command.key).Nodup)
    (hk : ∀ k, locks.keys.contains k = true ↔ k ∈ batch.map Command.key)
    (hg : ∀ c ∈ batch, c.method ≠ .get) :
    Permitted i live m (.resolve .commit locks.holder i batch) (.done .done) (m.applyAll batch)
  /-- A commit that is stopped has processed the commands before the one that stops it.  If none
  does, keys of its lock set are left over. -/
  | stopped {locks : LockSet} {batch done rest : List (Command V)} {v : Violation}
    (hl : live locks) (hp : Store.Processes .commit locks batch done rest)
    (hs : ∀ c post, rest = c :: post → v = Resolution.commit.objection c)
    (he : rest = [] → ∃ k ks, v = .leftOver k ks ∧
      ∀ j, j ∈ k :: ks ↔ locks.keys.contains j = true ∧ j ∉ batch.map Command.key) :
    Permitted i live m (.resolve .commit locks.holder i batch) (.violated v) (m.applyAll done)
  /-- A batch is acquired only if all its conditions hold, and that changes nothing. -/
  | acquired {who : Holder} {batch : List (Command V)} {locks : LockSet}
    (hn : (batch.map Command.key).Nodup) (hc : ∀ c ∈ batch, c.Met m) :
    Permitted i live m (.acquire who i batch) (.done (.locks locks)) m
  /-- It is refused for a condition only if this does not hold. -/
  | failed {who : Holder} {batch : List (Command V)} {c : Command V} (hc : c ∈ batch)
    (hm : ¬ c.Met m) :
    Permitted i live m (.acquire who i batch) (.refused (.conditionFailed c.key)) m
  /-- All other moves change nothing: those on other maps, aborts and drops, commits without a live
  lock set of this map, holds, and what is not done at all. -/
  | still {move : Move V} {o : Outcome V} (hc : ∀ c, move ≠ .call i c)
    (hr : ∀ who batch, move = .resolve .commit who i batch →
      o ≠ .done .done ∧ ∀ locks, live locks → locks.holder ≠ who)
    (ha : ∀ who batch, move = .acquire who i batch →
      (∀ locks, o ≠ .done (.locks locks)) ∧ ∀ k, o ≠ .refused (.conditionFailed k)) :
    Permitted i live m move o m

/-- Only operations and commits change an atomic map. -/
theorem Move.Permitted.eq_of_still [BEq V] {i : Nat} {live : LockSet → Prop} {m m' : Contents V}
    {move : Move V} {o : Outcome V} (h : move.Permitted i live m o m')
    (hc : ∀ c, move ≠ .call i c) (hr : ∀ who batch, move ≠ .resolve .commit who i batch) :
    m' = m := by
  cases h with
  | call h => exact absurd rfl (hc _)
  | commit hl hn hk hg => exact absurd rfl (hr _ _)
  | stopped hl hp hs he => exact absurd rfl (hr _ _)
  | acquired _ _ => rfl
  | failed _ _ => rfl
  | still _ _ _ => rfl

/-! ## Operations -/

namespace Store

variable [BEq V]

/-- An operation changes the contents at its own key. -/
theorem contents_call_ok {c : Call V} {s : Store V} {k : Key} {r : Reply V}
    (hk : c.written? = some k) (h : (s.call c).reply = .ok r) : (s.call c).state.contents =
      Contents.put s.contents k (Slot.shown (c.leaves (s.cells.get? k))) := by
  obtain ⟨-, -, cells, hst, hg⟩ := call_ok hk h
  funext j
  rw [hst, contents_eq, hg, Call.effect, hk, Contents.put]
  by_cases hj : j = k
  · rw [if_pos hj, if_pos (congrArg some hj.symm), hj]
  · rw [if_neg hj, if_neg fun he => hj (Option.some.inj he).symm, contents_eq]

theorem call_permitted (c : Call V) {s : Store V} (hs : s.Sound) :
    c.Permitted s.contents (s.call c).reply (s.call c).state.contents := by
  cases hr : (s.call c).reply with
  | error f =>
    rw [call_error hr]
    refine .refused ?_
    rcases call_refused hr with (⟨rfl, -⟩ | ⟨k, rfl, -⟩) | ⟨k, v, e, rfl, rfl, hm⟩
    · exact .inl rfl
    · exact .inr (.inl ⟨k, rfl⟩)
    · have hn : ¬ ∀ p, s.contents k = some p → (p == e) = true := by
        rw [← hs.meets_some, hm]
        exact Bool.false_ne_true
      simp only [Classical.not_forall, Bool.not_eq_true] at hn
      obtain ⟨p, hp, he⟩ := hn
      exact .inr (.inr ⟨k, v, e, p, rfl, rfl, hp, he⟩)
  | ok r =>
    cases c with
    | get k =>
      obtain ⟨p, hp, rfl⟩ := map_eq_ok hr
      rw [call_of_reads rfl, hs.get_ok hp]
      exact .get k
    | set k v =>
      obtain ⟨u, hu, rfl⟩ := map_eq_ok hr
      rw [contents_call_ok rfl hr]
      exact .set k v
    | setCond k v e =>
      obtain ⟨u, hu, rfl⟩ := map_eq_ok hr
      rw [contents_call_ok rfl hr]
      exact .setCond v ((hs.meets_some k e).1 (write_ok hu).2.2.1)
    | setWithDelay k v d =>
      obtain ⟨u, hu, rfl⟩ := map_eq_ok hr
      rw [contents_call_ok rfl hr]
      exact .setWithDelay k v d
    | del k =>
      obtain ⟨u, hu, rfl⟩ := map_eq_ok hr
      rw [contents_call_ok rfl hr]
      exact .del k
    | len =>
      obtain ⟨n, hn, rfl⟩ := map_eq_ok hr
      obtain ⟨keys, hk, hm, rfl⟩ := hs.len_ok hn
      rw [call_of_reads rfl]
      exact .len keys hk hm
    | isEmpty =>
      obtain ⟨b, hb, rfl⟩ := map_eq_ok hr
      rw [call_of_reads rfl]
      exact .isEmpty (hs.isEmpty_ok hb)
    | contains k =>
      obtain ⟨b, hb, rfl⟩ := map_eq_ok hr
      rw [call_of_reads rfl, hs.contains_ok hb]
      exact .contains k
    | snapshot walk =>
      obtain ⟨rows, hrows, rfl⟩ := map_eq_ok hr
      obtain ⟨hsort, hm⟩ := snapshot_ok hrows
      rw [call_of_reads rfl]
      exact .snapshot walk hsort hm
    | text => cases hr; exact .text _
    | timeout => cases hr; exact .timeout _

end Store

/-! ## Moves -/

namespace World

/-- The live lock sets that the store with this id issued. -/
def Issued (w : World V) (id : Nat) (locks : LockSet) : Prop :=
  locks ∈ w.locks ∧ locks.issuer = id

/-- The move does to the store of number `i` what it may do to an atomic map: it is permitted between
the contents that the store has before the move and those that it has after it. -/
def Refines [BEq V] (w : World V) (i : Nat) (m : Move V) : Prop :=
  ∃ st st', w.store? i = some st ∧ (w.step m).state.store? i = some st' ∧
    m.Permitted i (w.Issued st.id) st.contents (w.step m).reply st'.contents

section
variable [BEq V] {w w' : World V} {m : Move V} {o : Outcome V} {i : Nat} {st : Store V}

/-- A commit goes through its batch, or up to the command that stops it. -/
theorem commit_permitted (hw : w.Owned) {locks : LockSet} (hm : locks ∈ w.locks)
    (hi : w.store? i = some st) (hu : locks.issuer = st.id) (batch : List (Command V))
    (ho : (st.commit batch locks).reply = .ok () ∧ o = .done .done ∨
      ∃ v, (st.commit batch locks).reply = .error v ∧ o = .violated v) :
    Move.Permitted i (w.Issued st.id) st.contents (.resolve .commit locks.holder i batch) o
      (st.commit batch locks).state.contents := by
  have hlinked : ∀ k, locks.keys.contains k = true → st.cells.get? k ≠ none :=
    fun _ => hw.linked hi hm hu
  obtain ⟨done, rest, h, hstop, hend⟩ := Store.run_answers .commit batch hu hlinked
  have hcont : (st.commit batch locks).state.contents = Contents.applyAll st.contents done :=
    h.contents_commit hlinked
  rw [hcont]
  rcases ho with ⟨hr, rfl⟩ | ⟨v, hr, rfl⟩
  · obtain ⟨hn, hk, hg⟩ := h.returns_iff.1 hr
    obtain rfl : batch = done := by rw [h.split, (h.returns.1 hr).1, List.append_nil]
    exact .commit ⟨hm, hu⟩ hn hk (hg rfl)
  · refine .stopped ⟨hm, hu⟩ h.processes (fun c post he => ?_) fun he => ?_
    · exact Except.error.inj (hr.symm.trans (hstop c post he))
    · have hb : batch = done := by rw [h.split, he, List.append_nil]
      rcases hend he with hok | ⟨k, ks, hks, hv⟩
      · exact absurd (hr.symm.trans hok) (by rintro ⟨⟩)
      · exact ⟨k, ks, Except.error.inj (hr.symm.trans hv), hb ▸ hks⟩

/-- An abort changes nothing, however far it gets. -/
theorem abort_permitted (hw : w.Owned) {locks : LockSet} (hm : locks ∈ w.locks)
    (hi : w.store? i = some st) (hu : locks.issuer = st.id) (batch : List (Command V)) :
    Move.Permitted i (w.Issued st.id) st.contents (.resolve .abort locks.holder i batch) o
      (st.abort batch locks).state.contents := by
  obtain ⟨done, rest, h⟩ := hw.exists_resolves hi hm hu .abort batch
  have hcont : (st.abort batch locks).state.contents = st.contents := h.contents_abort
  rw [hcont]
  exact .still nofun nofun nofun

/-- What an acquire phase is refused for. -/
theorem refused_permitted (hs : st.Sound) {live : LockSet → Prop} {who : Holder}
    {batch : List (Command V)} {f : Fault} (hr : (st.acquire who batch).reply = .error f) :
    Move.Permitted i live st.contents (.acquire who i batch) (.refused f) st.contents := by
  rcases (Store.acquire_error hr).2 with ⟨-, rfl⟩ | ⟨-, rfl⟩ | ⟨done, c, rest, e, rfl, -, he, rfl⟩
  · exact .still nofun nofun fun _ _ _ => ⟨nofun, nofun⟩
  · exact .still nofun nofun fun _ _ _ => ⟨nofun, nofun⟩
  · cases he with
    | locked hk => exact .still nofun nofun fun _ _ _ => ⟨nofun, nofun⟩
    | unsatisfied hd hf hn =>
      exact .failed (by simp) fun hm => hn ((hs.satisfied_iff c).2 hm)

theorem Idle.permitted (h : w.Idle m o) (hs : w.Sound) (hi : w.store? i = some st) :
    m.Permitted i (w.Issued st.id) st.contents o st.contents := by
  cases h with
  | name keys => exact .still nofun nofun nofun
  | call c hi' =>
    refine .still (fun c' hc => ?_) nofun nofun
    cases hc
    rw [hi'] at hi
    cases hi
  | @acquire who j s batch f hj hr =>
    by_cases hij : i = j
    · subst hij
      obtain rfl := Option.some.inj (hi.symm.trans hj)
      exact refused_permitted (hs i st hi) hr
    · refine .still nofun nofun fun who batch hm => ?_
      cases hm
      exact absurd rfl hij
  | hold _ _ => exact .still nofun nofun nofun
  | nothingToHold _ _ => exact .still nofun nofun nofun
  | baseline _ _ => exact .still nofun nofun nofun
  | nameInUse hm =>
    refine .still (fun c hc => ?_) (fun who batch hr => ?_) fun _ _ _ => ⟨nofun, nofun⟩
    · cases hc
      cases hm
    · cases hr
      cases hm
  | noLocks hm hn =>
    refine .still (fun c hc => ?_) (fun who batch hr => ⟨nofun, fun locks hl => ?_⟩)
      fun _ _ _ => ⟨nofun, nofun⟩
    · cases hc
      cases hm
    · cases hr
      cases hm
      exact hn locks hl.1
  | noHold _ => exact .still nofun nofun nofun
  | unsupported hm hi' =>
    -- it is on a store that is not there, so not on this one
    have hne : m.store? ≠ some i := fun he => by
      obtain rfl := Option.some.inj (hm.symm.trans he)
      rw [hi'] at hi
      cases hi
    refine .still (fun c hc => ?_) (fun who batch hr => ?_) fun _ _ _ => ⟨nofun, nofun⟩
    · cases hc
      exact absurd rfl hne
    · cases hr
      exact absurd rfl hne

/-- A lock set that is let go leaves the contents.  No commit of the store's own has it end so. -/
theorem forgotten_permitted (hw : w.Owned) (hi : w.store? i = some st) {locks : LockSet}
    (hm : locks ∈ w.locks) (ho : m = .drop locks.holder ∧ o = .done .done ∨
      ∃ how j batch s, m = .resolve how locks.holder j batch ∧ w.store? j = some s ∧
        locks.issuer ≠ s.id ∧ o = .violated (.wrongStore locks.issuer s.id)) :
    m.Permitted i (w.Issued st.id) st.contents o st.contents := by
  rcases ho with ⟨rfl, rfl⟩ | ⟨how, j, batch, s, rfl, hj, hu, rfl⟩
  · exact .still nofun nofun nofun
  · refine .still nofun (fun who batch' hr => ⟨nofun, fun other hl hh => ?_⟩) nofun
    cases hr
    obtain rfl := Option.some.inj (hi.symm.trans hj)
    obtain rfl := hw.eq_of_holder hm hl.1 hh
    exact hu hl.2

/-- What a move does to a store an atomic map may do. -/
theorem Effect.permitted (he : w.Effect m o w') (hw : w.Owned) (hs : w.Sound)
    (hi : w.store? i = some st) : ∃ st', w'.store? i = some st' ∧
      m.Permitted i (w.Issued st.id) st.contents o st'.contents := by
  -- on another store than the one that changes there is nothing to be seen
  have hother : ∀ {j : Nat} {s' : Store V}, w.Changes w' j s' → i ≠ j →
      w'.store? i = some st := fun hch hij => (hch i).trans ((if_neg hij).trans hi)
  cases he with
  | idle h hsm => exact ⟨st, (hsm.stores i).trans hi, h.permitted hs hi⟩
  | @called j c _ s hj hch =>
    by_cases hij : i = j
    · subst hij
      obtain rfl := Option.some.inj (hi.symm.trans hj)
      exact ⟨_, (hch i).trans (if_pos rfl), .call (Store.call_permitted c (hs i st hi))⟩
    · refine ⟨st, hother hch hij, .still (fun c' hc => ?_) nofun nofun⟩
      cases hc
      exact hij rfl
  | @acquired who j batch _ s locks hn hj hr hch =>
    by_cases hij : i = j
    · subst hij
      obtain rfl := Option.some.inj (hi.symm.trans hj)
      have hlock := (Store.acquire_ok hr).2.2.1
      refine ⟨_, (hch i).trans (if_pos rfl), ?_⟩
      rw [Store.contents_acquire]
      exact .acquired hlock.distinct fun c hc =>
        ((hs i st hi).satisfied_iff c).1 (hlock.satisfied c hc)
    · refine ⟨st, hother hch hij, .still nofun nofun fun who batch hm => ?_⟩
      cases hm
      exact absurd rfl hij
  | @resolved how j batch _ _ s locks hm hj hu hch hl hh ho =>
    by_cases hij : i = j
    · subst hij
      obtain rfl := Option.some.inj (hi.symm.trans hj)
      refine ⟨_, (hch i).trans (if_pos rfl), ?_⟩
      cases how with
      | commit => exact commit_permitted hw hm hi hu batch ho
      | abort => exact abort_permitted hw hm hi hu batch
    · refine ⟨st, hother hch hij, .still nofun (fun who batch' hr => ?_) nofun⟩
      cases hr
      exact absurd rfl hij
  | forgotten locks hm hf hl hh ho =>
    refine ⟨st.forget locks, by rw [hf, hi]; rfl, ?_⟩
    rw [Store.contents_forget]
    exact forgotten_permitted hw hi hm ho
  | @held _ j _ _ s s' hn hj hr hch =>
    obtain ⟨-, l, -, rfl⟩ := Store.hold?_ok hr
    by_cases hij : i = j
    · subst hij
      obtain rfl := Option.some.inj (hi.symm.trans hj)
      refine ⟨_, (hch i).trans (if_pos rfl), ?_⟩
      rw [Store.contents_relock]
      exact .still nofun nofun nofun
    · exact ⟨st, hother hch hij, .still nofun nofun nofun⟩
  | heldBaseline hn hj hch => exact ⟨st, (hch i).trans hi, .still nofun nofun nofun⟩
  | letGo h hm hch =>
    have hst := hch i
    rw [hi] at hst
    split at hst
    · refine ⟨st.letGo h.who h.mode, hst, ?_⟩
      rw [Store.letGo_eq, Store.contents_relock]
      exact .still nofun nofun nofun
    · exact ⟨st, hst, .still nofun nofun nofun⟩

/-- Whatever is reached, the next move is one of an atomic map. -/
theorem Reachable.refines (h : w.Reachable) (hi : w.store? i = some st) (m : Move V) :
    w.Refines i m := by
  obtain ⟨st', hi', hp⟩ := (w.step_effect m).permitted h.owned h.sound hi
  exact ⟨st, st', hi, hi', hp⟩

/-- A store is there all along a run. -/
theorem Reachable.store_after (h : w.Reachable) (hi : w.store? i = some st) (ms : List (Move V)) :
    ∃ st', (w.after ms).store? i = some st' := by
  induction ms generalizing w st with
  | nil => exact ⟨st, hi⟩
  | cons m ms ih =>
    obtain ⟨-, st', -, hi', -⟩ := h.refines hi m
    exact ih (h.step m) hi'

/-- A store is an atomic map: it has the rows that it was set up with, and in a run from there every
single move, whatever came before it, is one of an atomic map with the contents of the store. -/
theorem run_refines {plans : List (Backend.Plan V)} {s : Session V}
    (h : Session.start plans = .ok s) (hi : s.store? i = some st) :
    (∃ p, plans[i]? = some p ∧ st.contents = Contents.ofRows p.rows) ∧
      ∀ (before : List (Move V)) (m : Move V), (after before ⟨s, []⟩).Refines i m := by
  obtain ⟨p, timeout, hp, -, hst⟩ := Session.store_of_start h hi
  refine ⟨⟨p, hp, by rw [hst, Store.contents_ofRows]⟩, fun before m => ?_⟩
  obtain ⟨st', hi'⟩ := (Reachable.start h).store_after hi before
  exact ((Reachable.start h).after before).refines hi' m

end

/-- A batch that moves a payload to another key is stopped by a read: of its three commands one was
processed, and the contents have changed by that one. -/
theorem run_refines_single :
    let w : World Nat := ⟨Session.single [("a", 1)], []⟩
    let batch : List (Command Nat) := [.set "c" 1 none, .get "b", .del "a"]
    let before : List (Move Nat) := [.call 0 (.set "b" 2), .acquire (.named "x") 0 batch]
    (w.after before).Refines 0 (.resolve .commit (.named "x") 0 batch) ∧
      ((w.after before).step (.resolve .commit (.named "x") 0 batch)).reply =
        .violated (.readCommitted "b") ∧
      ∃ st, ((w.after before).step
          (.resolve .commit (.named "x") 0 batch)).state.store? 0 = some st ∧
        ["a", "b", "c"].map st.contents = [some 1, some 2, some 1] := by
  intro w batch before
  exact ⟨(run_refines (Session.start_single [("a", 1)]) rfl).2 before _, rfl, _, rfl, rfl⟩

end World

end TwoPhaseStore
