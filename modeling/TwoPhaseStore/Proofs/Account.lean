import TwoPhaseStore.Proofs.Order
import TwoPhaseStore.Proofs.Residue
import TwoPhaseStore.Proofs.Store.Report

/-!
The events of a run account for its failures and its lock sets.  What each move reports is said by
`World.Reported`, in every reachable world (`Reachable.reported`).  Four kinds of events are about
a lock set, that it begins or how it ends.  One move keeps the balance of them,

    live lock sets before + begun = live lock sets after + ended + spent          (Owned.balanced)

where a resolution is spent if it is stopped when no key is held any more, so that nothing is left
to be dropped.  So from the start on, at any point of any run, each lock set that was ever reported
to be locked is live, reported to be ended in one of three ways, or spent (`events_account`).
-/

namespace TwoPhaseStore

open Session (Resolution)

variable {V : Type}

/-! ## Events about lock sets -/

/-- What becomes of a lock set. -/
inductive Phase where
  | locked
  | committed
  | aborted
  | dropped
deriving DecidableEq

namespace Event

/-- What an event says of a lock set, if it is about one. -/
def phase? : Event → Option Phase
  | batchLocked _ _ => some .locked
  | batchCommitted _ => some .committed
  | batchAborted _ => some .aborted
  | lockSetDropped _ => some .dropped
  | _ => none

/-- How many of the events say this of a lock set. -/
def tally (p : Phase) (es : List Event) : Nat := es.countP fun e => e.phase? = some p

theorem tally_append (p : Phase) (es es' : List Event) :
    tally p (es ++ es') = tally p es + tally p es' := List.countP_append

/-- Events about something else do not count. -/
theorem tally_aside {es : List Event} (h : ∀ e ∈ es, e.phase? = none) (p : Phase) :
    tally p es = 0 := by
  refine List.countP_eq_zero.2 fun e he => ?_
  rw [h e he]
  simp

/-- With `n` lock sets before and `n'` after them, the events tell of every lock set that came or
went, but for `spent` of them. -/
structure Balanced (n n' spent : Nat) (es : List Event) : Prop where
  eq : n + tally .locked es =
    n' + tally .committed es + tally .aborted es + tally .dropped es + spent

theorem balanced_aside {es : List Event} (h : ∀ e ∈ es, e.phase? = none) (n : Nat) :
    Balanced n n 0 es := by
  refine ⟨?_⟩
  simp only [tally_aside h]

theorem balanced_nil (n : Nat) : Balanced n n 0 [] := ⟨rfl⟩

theorem Balanced.append {n₁ n₂ n₃ a b : Nat} {es es' : List Event} (h : Balanced n₁ n₂ a es)
    (h' : Balanced n₂ n₃ b es') : Balanced n₁ n₃ (a + b) (es ++ es') := by
  have := h.eq
  have := h'.eq
  refine ⟨?_⟩
  simp only [tally_append]
  omega

end Event

/-- A lock set with keys is reported when it is dropped. -/
theorem LockSet.dropEvents_of_keys {held : Table Unit} (h : held.isEmpty = false) :
    LockSet.dropEvents held = [.lockSetDropped held.size] := by
  rw [LockSet.dropEvents, h, if_neg Bool.false_ne_true]

theorem Session.Resolution.closing_level (how : Resolution) (n : Nat) :
    (how.closing n).level = .trace := by cases how <;> rfl

namespace Outcome

theorem ofReply_eq_refused {r : Except Fault (Reply V)} {f : Fault} :
    ofReply r = .refused f ↔ r = .error f := by cases r <;> simp [ofReply]

theorem ofReply_eq_done {r : Except Fault (Reply V)} {p : Reply V} :
    ofReply r = .done p ↔ r = .ok p := by cases r <;> simp [ofReply]

end Outcome

/-! ## Operations and acquire phases -/

/-- Nothing is said of lock sets. -/
def Answer.Aside {S α : Type} (a : Answer S α) : Prop := ∀ e ∈ a.events, e.phase? = none

theorem Answer.aside_singleton {S α : Type} {r : α} {e : Event} {s : S} (h : e.phase? = none) :
    (⟨r, [e], s⟩ : Answer S α).Aside := by
  intro e' he
  rw [List.mem_singleton.1 he, h]

theorem Answer.Aside.map {S α β : Type} {a : Answer S (Except Fault α)} (h : a.Aside)
    (f : α → β) : (a.map f).Aside := h

theorem Call.Tells.phase? {c : Call V} {timeout : Duration} {f : Fault} {e : Event}
    (h : c.Tells timeout f e) : e.phase? = none := by cases h <;> rfl

theorem Store.call_aside [BEq V] (c : Call V) (s : Store V) : (s.call c).Aside := by
  have h := call_reports c s
  cases hr : (s.call c).reply with
  | ok r =>
    intro e he
    rw [h.silent r hr] at he
    cases he
  | error f =>
    obtain ⟨e, he, ht⟩ := h.told f hr
    intro e' he'
    rw [he, List.mem_singleton] at he'
    rw [he']
    exact ht.phase?

namespace Baseline

variable (b : Baseline V)

theorem accept_aside {α : Type} (a : α) : (b.accept a).Aside := nofun

theorem aside_of_lock {mode : LockMode} {taken : Bool} {α : Type}
    {a : Answer (Baseline V) (Except Fault α)} (h : a.Aside) :
    (if taken then a else b.refuse mode).Aside := by
  split
  · exact h
  · exact Answer.aside_singleton rfl

theorem call_aside [BEq V] {c : Call V} {b : Baseline V}
    {a : Answer (Baseline V) (Except Fault (Reply V))} (h : b.call? c = some a) : a.Aside := by
  cases c with
  | get k => cases h; exact (b.aside_of_lock (accept_aside _ _)).map _
  | set k v => cases h; exact (b.aside_of_lock (accept_aside _ _)).map _
  | setCond k v e =>
    cases h
    refine Answer.Aside.map (b.aside_of_lock ?_) _
    split
    · exact accept_aside _ _
    · split
      · exact accept_aside _ _
      · exact nofun
  | setWithDelay k v d => cases h; exact (b.aside_of_lock (accept_aside _ _)).map _
  | del k => cases h; exact (b.aside_of_lock (accept_aside _ _)).map _
  | len => cases h; exact (b.aside_of_lock (accept_aside _ _)).map _
  | isEmpty => cases h; exact (b.aside_of_lock (accept_aside _ _)).map _
  | contains k => cases h
  | snapshot walk => cases h; exact (b.aside_of_lock (accept_aside _ _)).map _
  | text => cases h; exact accept_aside _ _
  | timeout => cases h; exact accept_aside _ _

end Baseline

/-- Operations do not touch lock sets and do not speak of them. -/
theorem Session.call_aside [BEq V] (i : Nat) (c : Call V) (s : Session V) :
    (s.call i c).state.locks = s.locks ∧ (s.call i c).Aside := by
  unfold call
  dsimp only
  split
  · next a ha =>
    refine ⟨rfl, ?_⟩
    obtain ⟨b, -, hb⟩ := Option.bind_eq_some_iff.1 ha
    cases b with
    | store st =>
      cases hb
      exact Store.call_aside c st
    | baseline b =>
      obtain ⟨a', ha', rfl⟩ := Option.map_eq_some_iff.1 hb
      exact Baseline.call_aside ha'
  · exact ⟨rfl, nofun⟩

namespace Store

section
variable [BEq V] {s : Store V} {batch : List (Command V)} {f : Fault} {es : List Event}

theorem Reverts.aside (h : s.Reverts batch f es) : ∀ e ∈ es, e.phase? = none := by
  cases h with
  | noBatch => exact nofun
  | _ => intro e he; rw [List.mem_singleton.1 he]; rfl

/-- Only a phase that got the structure lock is worth a warning. -/
theorem Reverts.levels (h : s.Reverts batch f es) : es.map Event.level =
    if f = .emptyBatch then [] else if f = .globallyLocked then [.debug] else [.warn] := by
  cases h with
  | noBatch => rfl
  | globally => rfl
  | reverted _ _ _ he => cases he <;> rfl

end

end Store

/-! ## Batches as a whole -/

/-- What is reported of a batch that is acquired, decided and ended in one go: that it was reverted,
or that it was locked and then how its lock set ended. -/
structure Report.Accounts [BEq V] (r : Report V) (st : Store V) (batch : List (Command V)) :
    Prop where
  refused : ∀ f, r.outcome = .refused f → st.Reverts batch f r.events
  ended : ∀ b, r.outcome = .done (.flag b) →
    r.events = [.batchLocked batch.length (batch.countP (·.isConditional)),
      Resolution.closing (if b then .commit else .abort) batch.length]
  violated : ∀ v, r.outcome = .violated v → ∃ (how : Resolution) (locks : LockSet) (st' : Store V),
    (∀ k, locks.keys.contains k = true ↔ k ∈ batch.map Command.key) ∧
    r.events = .batchLocked batch.length (batch.countP (·.isConditional)) ::
      .protocolViolated v :: LockSet.dropEvents (st'.left how batch locks)
  undecided : r.outcome = .undecided →
    r.events = [.batchLocked batch.length (batch.countP (·.isConditional)),
      .lockSetDropped batch.length]

namespace Session

theorem decide_reports (i : Nat) (batch : List (Command V)) (locks : LockSet)
    (durable : Option Bool) (s : Session V) :
    ((s.decide i batch locks durable).reply = .undecided ∧
      (s.decide i batch locks durable).events = LockSet.dropEvents locks.keys) ∨
    (∃ b, (s.decide i batch locks durable).reply = .done (.flag b) ∧
      (s.decide i batch locks durable).events =
        [Resolution.closing (if b then .commit else .abort) batch.length]) ∨
    (∃ v how st, (s.decide i batch locks durable).reply = .violated v ∧
      (s.decide i batch locks durable).events =
        .protocolViolated v :: LockSet.dropEvents (Store.left how batch locks st)) ∨
    (s.decide i batch locks durable).reply = .unsupported := by
  cases durable with
  | none => exact .inl ⟨rfl, rfl⟩
  | some b =>
    refine .inr ?_
    cases hi : s.store? i with
    | none =>
      refine .inr (.inr ?_)
      simp only [decide, resolve_of_no_store hi]
      rfl
    | some st =>
      simp only [decide, resolve_of_store hi]
      rcases Store.run_reports (if b then .commit else .abort) batch locks st with
        ⟨hr, he⟩ | ⟨v, hr, he⟩
      · exact .inl ⟨b, by rw [hr]; rfl, he⟩
      · exact .inr (.inl ⟨v, _, st, by rw [hr]; rfl, he⟩)

theorem apply_accounts [BEq V] {s : Session V} {i : Nat} {st : Store V} (hi : s.store? i = some st)
    (depth : Nat) (batch : List (Command V)) (durable : Option Bool) (during : List (Step V)) :
    (runStep depth (.apply i (.ok batch) durable during) s).1.Accounts st batch := by
  have hi' : (s.noteBatch batch).store? i = some st := hi
  rw [runStep]
  cases hr : (st.acquire (.nested depth) batch).reply with
  | error f =>
    simp only [acquire_error hi' hr, report]
    refine ⟨fun g hg => ?_, nofun, nofun, nofun⟩
    cases hg
    exact Store.acquire_reverts hr
  | ok locks =>
    obtain ⟨hsize, hkeys⟩ := Store.size_of_acquire hr
    obtain ⟨-, -, -, ⟨-, -, hk⟩, -⟩ := Store.acquire_ok hr
    simp only [acquire_ok hi' hr, report, Store.acquire_locked hr]
    generalize (runSteps (depth + 1) during _).2 = s'
    rcases s'.decide_reports i batch locks durable with
      ⟨ho, he⟩ | ⟨b, ho, he⟩ | ⟨v, how, st', ho, he⟩ | ho
    · rw [ho, he, LockSet.dropEvents_of_keys hkeys, hsize]
      exact ⟨nofun, nofun, nofun, fun _ => rfl⟩
    · rw [ho, he]
      refine ⟨nofun, fun b' hb => ?_, nofun, nofun⟩
      cases hb
      rfl
    · rw [ho, he]
      refine ⟨nofun, nofun, fun v' hv => ?_, nofun⟩
      cases hv
      exact ⟨how, locks, st', hk, rfl⟩
    · rw [ho]
      exact ⟨nofun, nofun, nofun, nofun⟩

end Session

namespace World

/-! ## What moves report -/

section
variable [BEq V] {w : World V} {i : Nat} {st : Store V} (hi : w.store? i = some st)

include hi

theorem step_call (c : Call V) : (w.step (.call i c)).reply = .ofReply (st.call c).reply ∧
    (w.step (.call i c)).events = (st.call c).events := by
  rw [step, Session.call_of_store hi c]
  exact ⟨rfl, rfl⟩

theorem step_acquire_events {who : Holder} (hw : who ∉ w.parties) (batch : List (Command V)) :
    (w.step (.acquire who i batch)).reply =
        .ofReply ((st.acquire who batch).reply.map .locks) ∧
      (w.step (.acquire who i batch)).events = (st.acquire who batch).events := by
  have hi' : (w.session.noteBatch batch).store? i = some st := hi
  rw [step_acquire hw]
  cases hr : (st.acquire who batch).reply with
  | error f =>
    rw [Session.acquire_error hi' hr]
    exact ⟨rfl, rfl⟩
  | ok locks =>
    rw [Session.acquire_ok hi' hr]
    exact ⟨rfl, rfl⟩

theorem Owned.step_resolve_events (hw : w.Owned) {locks : LockSet} (hm : locks ∈ w.locks)
    (how : Resolution) (batch : List (Command V)) :
    (w.step (.resolve how locks.holder i batch)).reply =
        .ofResolution .done (how.run batch locks st).reply ∧
      (w.step (.resolve how locks.holder i batch)).events = (how.run batch locks st).events := by
  rw [step, Session.endAs, Session.withLocks, hw.lockSet?_eq hm]
  simp only [Session.resolve_of_store (s := w.session) hi]
  exact ⟨rfl, rfl⟩

omit hi in
theorem Owned.step_drop_events (hw : w.Owned) {locks : LockSet} (hm : locks ∈ w.locks) :
    (w.step (.drop locks.holder)).reply = .done .done ∧
      (w.step (.drop locks.holder)).events = LockSet.dropEvents locks.keys := by
  rw [step, Session.dropAs, Session.withLocks, hw.lockSet?_eq hm]
  exact ⟨rfl, rfl⟩

end

/-! ## The balance of one move -/

/-- How many lock sets a move leaves behind without a report of their end: a resolution that is
stopped when no key is held any more leaves one. -/
def spent [BEq V] (m : Move V) (w : World V) : Nat :=
  match m with
  | .resolve how who i batch =>
    match w.session.lockSet? who, w.store? i with
    | some locks, some st =>
      if (how.run batch locks st).reply ≠ .ok () ∧ (st.left how batch locks).isEmpty = true then 1
      else 0
    | _, _ => 0
  | _ => 0

/-- Every live lock set has a key. -/
def Keyed (w : World V) : Prop := ∀ locks ∈ w.locks, locks.keys.isEmpty = false

theorem Effect.keyed [BEq V] {w w' : World V} {m : Move V} {o : Outcome V} (he : w.Effect m o w')
    (hk : w.Keyed) : w'.Keyed := by
  have hfilter : ∀ {locks : LockSet}, w'.locks = w.locks.filter (·.holder ≠ locks.holder) →
      w'.Keyed := fun hl other hm => hk other (List.mem_of_mem_filter (hl ▸ hm))
  cases he with
  | idle h hs => exact fun locks hm => hk locks (hs.locks ▸ hm)
  | called st hi hs hl => exact fun locks hm => hk locks (hl ▸ hm)
  | acquired st locks hw hi hr hs hl =>
    intro other hm
    rw [hl] at hm
    rcases List.mem_cons.1 hm with rfl | hm
    · exact (Store.size_of_acquire hr).2
    · exact hk other hm
  | resolved st locks hm hi hu hs hl => exact hfilter hl
  | forgotten locks hm hs hl => exact hfilter hl
  | held st st' hw hi hr hs hl => exact fun locks hm => hk locks (hl ▸ hm)
  | heldBaseline hw hi hs hl => exact fun locks hm => hk locks (hl ▸ hm)
  | letGo h hm hs hl => exact fun locks hm' => hk locks (hl ▸ hm')

/-- Only acquire phases and the ends of lock sets change which ones are live. -/
theorem Effect.locks_eq [BEq V] {w w' : World V} {m : Move V} {o : Outcome V}
    (he : w.Effect m o w') (ha : ∀ who i batch, m ≠ .acquire who i batch) (hm : m.ends? = none) :
    w'.locks = w.locks := by
  cases he with
  | idle h hs => exact hs.locks
  | called st hi hs hl => exact hl
  | acquired => exact absurd rfl (ha _ _ _)
  | resolved => cases hm
  | forgotten locks _ _ _ _ ho => rcases ho with ⟨rfl, -⟩ | ⟨_, _, _, _, rfl, -⟩ <;> cases hm
  | held st st' hw hi hr hs hl => exact hl
  | heldBaseline hw hi hs hl => exact hl
  | letGo h _ hs hl => exact hl

section
variable {w : World V} (hw : w.Owned)

include hw

/-- A party has one lock set at most, so when it ends there is one less. -/
theorem Owned.length_filter {locks : LockSet} (hm : locks ∈ w.locks) :
    (w.locks.filter (·.holder ≠ locks.holder)).length + 1 = w.locks.length := by
  have hn : (w.locks.map LockSet.holder).Nodup := (List.nodup_append.1 hw.parties).1
  have hone : w.locks.countP (fun l => l.holder = locks.holder) = 1 := by
    have hc := List.count_eq_one_of_mem hn (List.mem_map_of_mem hm)
    rw [List.count, List.countP_map] at hc
    rw [← hc]
    exact List.countP_congr fun l _ => by simp
  have hsplit := w.locks.length_eq_countP_add_countP fun l => l.holder = locks.holder
  rw [hone] at hsplit
  rw [← List.countP_eq_length_filter, hsplit, Nat.add_comm]
  simp

variable [BEq V]

omit hw in
theorem balanced_acquire (who : Holder) (i : Nat) (batch : List (Command V)) :
    Event.Balanced w.locks.length (w.step (.acquire who i batch)).state.locks.length 0
      (w.step (.acquire who i batch)).events := by
  by_cases hp : who ∈ w.parties
  · rw [step, if_pos hp]
    exact Event.balanced_nil _
  · rw [step_acquire hp]
    cases hi : w.store? i with
    | none =>
      have hi' : (w.session.noteBatch batch).store? i = none := hi
      rw [Session.acquire_of_no_store hi']
      exact Event.balanced_nil _
    | some st =>
      have hi' : (w.session.noteBatch batch).store? i = some st := hi
      cases hr : (st.acquire who batch).reply with
      | error f =>
        rw [Session.acquire_error hi' hr]
        exact Event.balanced_aside (Store.acquire_reverts hr).aside _
      | ok locks =>
        rw [Session.acquire_ok hi' hr]
        show Event.Balanced _ (locks :: w.locks).length 0 (st.acquire who batch).events
        rw [Store.acquire_locked hr]
        exact ⟨rfl⟩

theorem Owned.balanced_resolve (how : Resolution) (who : Holder) (i : Nat)
    (batch : List (Command V)) :
    Event.Balanced w.locks.length (w.step (.resolve how who i batch)).state.locks.length
      (w.spent (.resolve how who i batch)) (w.step (.resolve how who i batch)).events := by
  cases hl : w.session.lockSet? who with
  | none =>
    rw [step, Session.endAs, Session.withLocks, spent, hl]
    exact Event.balanced_nil _
  | some locks =>
    obtain ⟨hm, rfl⟩ := Session.mem_of_lockSet? hl
    cases hi : w.store? i with
    | none =>
      rw [step, Session.endAs, Session.withLocks, spent, hl, hi]
      simp only [Session.resolve_of_no_store (s := w.session) hi]
      exact Event.balanced_nil _
    | some st =>
      obtain ⟨-, hlocks, -⟩ := hw.resolve_state hm hi (w.step_effect (.resolve how _ i batch))
      have hlen := hw.length_filter hm
      rw [← hlocks] at hlen
      have hs : w.spent (.resolve how locks.holder i batch) =
          if (how.run batch locks st).reply ≠ .ok () ∧
            (st.left how batch locks).isEmpty = true then 1 else 0 := by
        rw [spent, hl, hi]
      rw [(hw.step_resolve_events hi hm how batch).2, hs]
      rcases Store.run_reports how batch locks st with ⟨hr, he⟩ | ⟨v, hr, he⟩
      · rw [he, hr, if_neg fun h => h.1 rfl]
        refine ⟨?_⟩
        rw [← hlen]
        cases how <;> rfl
      · rw [he, hr]
        cases hleft : (st.left how batch locks).isEmpty with
        | true =>
          rw [if_pos ⟨(fun h => by cases h), rfl⟩, LockSet.dropEvents, hleft, if_pos rfl]
          exact ⟨hlen.symm⟩
        | false =>
          rw [if_neg fun h => Bool.false_ne_true h.2, LockSet.dropEvents_of_keys hleft]
          exact ⟨hlen.symm⟩

theorem Owned.balanced_drop (hk : w.Keyed) (who : Holder) :
    Event.Balanced w.locks.length (w.step (.drop who)).state.locks.length 0
      (w.step (.drop who)).events := by
  cases hl : w.session.lockSet? who with
  | none =>
    rw [step, Session.dropAs, Session.withLocks, hl]
    exact Event.balanced_nil _
  | some locks =>
    obtain ⟨hm, rfl⟩ := Session.mem_of_lockSet? hl
    obtain ⟨-, hlocks, -⟩ := hw.drop_state hm (w.step_effect (.drop locks.holder))
    have hlen := hw.length_filter hm
    rw [← hlocks] at hlen
    rw [(hw.step_drop_events hm).2, LockSet.dropEvents_of_keys (hk locks hm)]
    exact ⟨hlen.symm⟩

/-- One move keeps the balance of lock sets. -/
theorem Owned.balanced (hk : w.Keyed) (m : Move V) :
    Event.Balanced w.locks.length (w.step m).state.locks.length (w.spent m) (w.step m).events := by
  cases m with
  | name keys => exact Event.balanced_nil _
  | call i c =>
    obtain ⟨hl, hs⟩ := w.session.call_aside i c
    show Event.Balanced _ (w.session.call i c).state.locks.length 0 (w.session.call i c).events
    rw [hl]
    exact Event.balanced_aside hs _
  | acquire who i batch => exact w.balanced_acquire who i batch
  | resolve how who i batch => exact hw.balanced_resolve how who i batch
  | drop who => exact hw.balanced_drop hk who
  | hold who i mode =>
    have hs : (w.step (.hold who i mode)).events = [] := by
      rw [step]
      split
      · rfl
      · split <;> rfl
    rw [hs, (w.hold_effect who i mode).locks_eq (fun _ _ _ h => by cases h) rfl]
    exact Event.balanced_nil _
  | letGo who =>
    have hs : (w.step (.letGo who)).events = [] := by
      rw [step]
      split <;> rfl
    rw [hs, (w.letGo_effect who).locks_eq (fun _ _ _ h => by cases h) rfl]
    exact Event.balanced_nil _

end

/-! ## Runs -/

section
variable [BEq V]

/-- The events of some moves. -/
def eventLog : List (Move V) → World V → List Event
  | [], _ => []
  | m :: ms, w => (w.step m).events ++ (w.step m).state.eventLog ms

/-- How many lock sets some moves leave behind without a report of their end. -/
def spentBy : List (Move V) → World V → Nat
  | [], _ => 0
  | m :: ms, w => w.spent m + (w.step m).state.spentBy ms

/-- Any moves keep the balance of lock sets. -/
theorem Reachable.balanced {w : World V} (hw : w.Reachable) (hk : w.Keyed) (ms : List (Move V)) :
    Event.Balanced w.locks.length (w.after ms).locks.length (w.spentBy ms) (w.eventLog ms) := by
  induction ms generalizing w with
  | nil => exact Event.balanced_nil _
  | cons m ms ih =>
    exact (hw.owned.balanced hk m).append (ih (hw.step m) ((w.step_effect m).keyed hk))

/-- What a move reports, be it an operation or one of the phases of a batch. -/
structure Reported (w : World V) : Prop where
  /-- An operation that is refused says why, and one that is not says nothing. -/
  call : ∀ i st c, w.store? i = some st →
    (∀ f, (w.step (.call i c)).reply = .refused f → ∃ e, (w.step (.call i c)).events = [e] ∧
      e.level = .debug ∧ c.Tells st.timeout f e) ∧
    ∀ r, (w.step (.call i c)).reply = .done r → (w.step (.call i c)).events = []
  /-- A warning says that an acquire phase was reverted, and with how many cells locked. -/
  acquire : ∀ who i st batch, who ∉ w.parties → w.store? i = some st →
    (∀ f, (w.step (.acquire who i batch)).reply = .refused f →
      st.Reverts batch f (w.step (.acquire who i batch)).events ∧
      (w.step (.acquire who i batch)).events.map Event.level =
        if f = .emptyBatch then [] else if f = .globallyLocked then [.debug] else [.warn]) ∧
    ∀ locks, (w.step (.acquire who i batch)).reply = .done (.locks locks) →
      (w.step (.acquire who i batch)).events =
        [.batchLocked batch.length (batch.countP (·.isConditional))]
  /-- A resolution says that it is done, or what is violated and how many keys are dropped. -/
  resolve : ∀ how locks i st batch, locks ∈ w.locks → w.store? i = some st →
    (w.step (.resolve how locks.holder i batch)).reply = .done .done ∧
        (w.step (.resolve how locks.holder i batch)).events = [how.closing batch.length] ∧
        (how.closing batch.length).level = .trace ∨
      ∃ v, (w.step (.resolve how locks.holder i batch)).reply = .violated v ∧
        (w.step (.resolve how locks.holder i batch)).events =
          .protocolViolated v :: LockSet.dropEvents (st.left how batch locks)
  /-- The keys that are dropped are those that were not processed, on another store all of them. -/
  left : ∀ how locks i st batch, locks ∈ w.locks → w.store? i = some st →
    (locks.issuer ≠ st.id → st.left how batch locks = locks.keys) ∧
    (locks.issuer = st.id → ∃ done rest, Store.Processes how locks batch done rest ∧
      ∀ k, (st.left how batch locks).contains k = true ↔
        locks.keys.contains k = true ∧ k ∉ done.map Command.key)
  drop : ∀ locks ∈ w.locks, (w.step (.drop locks.holder)).reply = .done .done ∧
    (w.step (.drop locks.holder)).events = [.lockSetDropped locks.keys.size]

theorem Reachable.reported {w : World V} (hw : w.Reachable) (hk : w.Keyed) : w.Reported := by
  have hown := hw.owned
  refine ⟨fun i st c hi => ?_, fun who i st batch hp hi => ?_, fun how locks i st batch hm hi => ?_,
    fun how locks i st batch hm hi => ⟨Store.left_foreign, fun hu => ?_⟩, fun locks hm => ?_⟩
  · obtain ⟨ho, he⟩ := step_call hi c
    have h := Store.call_reports c st
    rw [ho, he]
    refine ⟨fun f hf => ?_, fun r hr => ?_⟩
    · obtain ⟨e, hee, ht⟩ := h.told f (Outcome.ofReply_eq_refused.1 hf)
      exact ⟨e, hee, ht.level, ht⟩
    · exact h.silent r (Outcome.ofReply_eq_done.1 hr)
  · obtain ⟨ho, he⟩ := step_acquire_events hi hp batch
    rw [ho, he]
    refine ⟨fun f hf => ?_, fun locks hl => ?_⟩
    · have h := Store.acquire_reverts (map_eq_error (Outcome.ofReply_eq_refused.1 hf))
      exact ⟨h, h.levels⟩
    · obtain ⟨locks', hr, -⟩ := map_eq_ok (Outcome.ofReply_eq_done.1 hl)
      exact Store.acquire_locked hr
  · obtain ⟨ho, he⟩ := hown.step_resolve_events hi hm how batch
    rw [ho, he]
    rcases Store.run_reports how batch locks st with ⟨hr, he⟩ | ⟨v, hr, he⟩
    · exact .inl ⟨by rw [hr]; rfl, he, how.closing_level _⟩
    · exact .inr ⟨v, by rw [hr]; rfl, he⟩
  · obtain ⟨done, rest, h, hl⟩ := Store.contains_left how batch hu fun _ =>
      hown.linked hi hm hu
    exact ⟨done, rest, h.processes, hl⟩
  · obtain ⟨ho, he⟩ := hown.step_drop_events hm
    exact ⟨ho, he.trans (LockSet.dropEvents_of_keys (hk locks hm))⟩

omit [BEq V] in
theorem keyed_start {plans : List (Backend.Plan V)} {s : Session V}
    (h : Session.start plans = .ok s) : Keyed ⟨s, []⟩ := by
  obtain ⟨-, -, -, hl⟩ := Session.start_eq h
  intro locks hm
  have hm' : locks ∈ s.locks := hm
  rw [hl] at hm'
  cases hm'

theorem Keyed.after {w : World V} (hk : w.Keyed) (ms : List (Move V)) :
    (w.after ms).Keyed := by
  induction ms generalizing w with
  | nil => exact hk
  | cons m ms ih => exact ih ((w.step_effect m).keyed hk)

/-- The events account for what happens: for each failure, and for each lock set. -/
structure Accounted (w : World V) (ms : List (Move V)) : Prop where
  reported : (w.after ms).Reported
  batches : ∀ depth i st batch durable during, (w.after ms).store? i = some st →
    (Session.runStep depth (.apply i (.ok batch) durable during)
      (w.after ms).session).1.Accounts st batch
  /-- The lock sets that were locked are live, or ended in one of the ways there are. -/
  lockSets : Event.tally .locked (w.eventLog ms) = (w.after ms).locks.length +
    Event.tally .committed (w.eventLog ms) + Event.tally .aborted (w.eventLog ms) +
    Event.tally .dropped (w.eventLog ms) + w.spentBy ms

/-- Whatever is done on stores that have been set up, every refusal and every end of a lock set is
reported once, and at any point the lock sets that were reported to be locked are the live ones and
those that were reported to be committed, aborted or dropped, but for those that were violated when
none of their keys was held any more. -/
theorem events_account {plans : List (Backend.Plan V)} {s : Session V}
    (h : Session.start plans = .ok s) (ms : List (Move V)) : Accounted ⟨s, []⟩ ms := by
  have hs : Reachable ⟨s, []⟩ := .start h
  have hk := keyed_start h
  refine ⟨(hs.after ms).reported (hk.after ms),
    fun depth i st batch durable during hi =>
      Session.apply_accounts hi depth batch durable during, ?_⟩
  obtain ⟨-, -, -, hl⟩ := Session.start_eq h
  have hn : locks ⟨s, []⟩ = [] := hl
  have hb := (hs.balanced hk ms).eq
  rwa [hn, List.length_nil, Nat.zero_add] at hb

/-- A commit that names its key twice is stopped when it holds nothing any more. -/
theorem events_account_spent :
    let w : World Nat := ⟨Session.single [("a", 1)], []⟩
    let ms : List (Move Nat) := [.acquire (.named "x") 0 [.set "a" 2 none],
      .resolve .commit (.named "x") 0 [.set "a" 2 none, .set "a" 3 none]]
    w.Accounted ms ∧ w.spentBy ms = 1 ∧
      w.eventLog ms = [.batchLocked 1 0, .protocolViolated (.notHeld .set "a")] :=
  ⟨events_account (Session.start_single [("a", 1)]) _, rfl, rfl⟩

end

end World

end TwoPhaseStore
