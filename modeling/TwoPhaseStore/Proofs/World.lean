import TwoPhaseStore.Proofs.Session
import TwoPhaseStore.Proofs.Store.Acquire
import TwoPhaseStore.Proofs.Store.Hold
import TwoPhaseStore.Session.Setup

/-!
The parties around some stores, one move after another.  A move is an operation, one of the two
phases of a batch, or a hold; between the two phases of one batch anybody may move.  Every move is
answered at once, so a run is a list of moves:

    w.after (m :: ms) = (w.step m).state.after ms

`step_effect` says all that a move does to the stores, the live lock sets and the holds, and what is
answered.  What is proved about runs is proved from it, case by case.
-/

namespace TwoPhaseStore

open Session (Resolution)

variable {V : Type}

/-! ## Moves -/

/-- A lock of a store that a party holds outside of any batch. -/
structure Hold where
  who : Holder
  store : Nat
  mode : HoldMode

/-- A session, and what its parties hold beside their lock sets. -/
structure World (V : Type) where
  session : Session V
  holds : List Hold

inductive Move (V : Type) where
  /-- Keys are named, and nothing is done. -/
  | name (keys : List Key)
  | call (store : Nat) (call : Call V)
  | acquire (who : Holder) (store : Nat) (batch : List (Command V))
  | resolve (how : Resolution) (who : Holder) (store : Nat) (batch : List (Command V))
  | drop (who : Holder)
  | hold (who : Holder) (store : Nat) (mode : HoldMode)
  | letGo (who : Holder)

namespace Move

/-- The store that a move is on, if it is on one. -/
def store? : Move V → Option Nat
  | .call i _ => some i
  | .acquire _ i _ => some i
  | .resolve _ _ i _ => some i
  | .hold _ i _ => some i
  | _ => none

/-- The party that is to hold something by the move. -/
def begins? : Move V → Option Holder
  | .acquire who _ _ => some who
  | .hold who _ _ => some who
  | _ => none

/-- The party whose lock set is to end by the move. -/
def ends? : Move V → Option Holder
  | .resolve _ who _ _ => some who
  | .drop who => some who
  | _ => none

theorem ends?_of_begins? {m : Move V} {who : Holder} (h : m.begins? = some who) :
    m.ends? = none := by cases m <;> first | rfl | cases h

end Move

namespace World

/-- All that hold something; each holds one lock set or has one hold. -/
def parties (w : World V) : List Holder := w.session.locks.map (·.holder) ++ w.holds.map (·.who)

def reply (o : Outcome V) (w : World V) : Answer (World V) (Outcome V) := ⟨o, [], w⟩

/-- An answer of the session is one of the world around it. -/
def answer (w : World V) (a : Answer (Session V) (Outcome V)) : Answer (World V) (Outcome V) :=
  ⟨a.reply, a.events, { w with session := a.state }⟩

def step [BEq V] (m : Move V) (w : World V) : Answer (World V) (Outcome V) :=
  match m with
  | .name keys => w.answer ((w.session.note keys).reply (.done .done))
  | .call i c => w.answer (w.session.call i c)
  | .acquire who i batch =>
    if who ∈ w.parties then w.reply .nameInUse
    else w.answer (w.session.acquireAs who i (.ok batch))
  | .resolve how who i batch => w.answer (w.session.endAs how who i batch)
  | .drop who => w.answer (w.session.dropAs who)
  | .hold who i mode =>
    if who ∈ w.parties then w.reply .nameInUse
    else
      match w.session.hold? who i mode with
      | none => w.reply .unsupported
      | some (.error f) => w.reply (.refused f)
      | some (.ok none) => w.reply (.done .done)
      | some (.ok (some s)) => reply (.done .done) ⟨s, ⟨who, i, mode⟩ :: w.holds⟩
  | .letGo who =>
    match w.holds.find? (·.who = who) with
    | none => w.reply .noSuchLocks
    | some h =>
      reply (.done .done) ⟨w.session.letGo who h.store h.mode, w.holds.filter (·.who ≠ who)⟩

/-- The world after some moves. -/
def after [BEq V] : List (Move V) → World V → World V
  | [], w => w
  | m :: ms, w => (w.step m).state.after ms

/-- Each move of a run with its outcome. -/
def trace [BEq V] : List (Move V) → World V → List (Move V × Outcome V)
  | [], _ => []
  | m :: ms, w => (m, (w.step m).reply) :: (w.step m).state.trace ms

/-- Some stores have been set up, and then the parties have moved. -/
inductive Reachable [BEq V] : World V → Prop where
  | start {plans : List (Backend.Plan V)} {s : Session V} (h : Session.start plans = .ok s) :
    Reachable ⟨s, []⟩
  | step {w : World V} (m : Move V) (h : Reachable w) : Reachable (w.step m).state

theorem after_append [BEq V] (ms ms' : List (Move V)) (w : World V) :
    w.after (ms ++ ms') = (w.after ms).after ms' := by
  induction ms generalizing w with
  | nil => rfl
  | cons m ms ih => exact ih _

theorem trace_append [BEq V] (ms ms' : List (Move V)) (w : World V) :
    w.trace (ms ++ ms') = w.trace ms ++ (w.after ms).trace ms' := by
  induction ms generalizing w with
  | nil => rfl
  | cons m ms ih => exact congrArg (_ :: ·) (ih _)

theorem Reachable.after [BEq V] {w : World V} (h : w.Reachable) (ms : List (Move V)) :
    (w.after ms).Reachable := by
  induction ms generalizing w with
  | nil => exact h
  | cons m ms ih => exact ih (h.step m)

/-! ## What a move does -/

def store? (i : Nat) (w : World V) : Option (Store V) := w.session.store? i

/-- What is linked under a key of the store of number `j`. -/
def slot (w : World V) (j : Nat) (k : Key) : Slot V :=
  (w.store? j).bind fun st => st.cells.get? k

def locks (w : World V) : List LockSet := w.session.locks

/-- Only the store of number `i` is another one. -/
def Changes (w w' : World V) (i : Nat) (st : Store V) : Prop :=
  ∀ j, w'.store? j = if j = i then some st else w.store? j

/-- Everybody has what they had. -/
structure Same (w w' : World V) : Prop where
  stores : ∀ i, w'.store? i = w.store? i
  locks : w'.locks = w.locks
  holds : w'.holds = w.holds

/-- The moves that come to nothing, or not on a store with a lock per key. -/
inductive Idle [BEq V] (w : World V) : Move V → Outcome V → Prop where
  | name (keys : List Key) : Idle w (.name keys) (.done .done)
  | call {i : Nat} {o : Outcome V} (c : Call V) (hi : w.store? i = none) : Idle w (.call i c) o
  | acquire {who : Holder} {i : Nat} {st : Store V} {batch : List (Command V)} {f : Fault}
    (hi : w.store? i = some st) (hr : (st.acquire who batch).reply = .error f) :
    Idle w (.acquire who i batch) (.refused f)
  | hold {who : Holder} {i : Nat} {st : Store V} {mode : HoldMode} {f : Fault}
    (hi : w.store? i = some st) (hr : st.hold? who mode = .error f) :
    Idle w (.hold who i mode) (.refused f)
  | nothingToHold {who : Holder} {i : Nat} {st : Store V} {mode : HoldMode}
    (hi : w.store? i = some st) (hr : st.hold? who mode = .ok none) :
    Idle w (.hold who i mode) (.done .done)
  | baseline {who : Holder} {i : Nat} {o : Outcome V} (mode : HoldMode) (hi : w.store? i = none) :
    Idle w (.hold who i mode) o
  | nameInUse {m : Move V} {who : Holder} (hm : m.begins? = some who) (hw : who ∈ w.parties) :
    Idle w m .nameInUse
  | noLocks {m : Move V} {who : Holder} (hm : m.ends? = some who)
    (hw : ∀ locks ∈ w.locks, locks.holder ≠ who) : Idle w m .noSuchLocks
  | noHold {who : Holder} (hw : ∀ h ∈ w.holds, h.who ≠ who) : Idle w (.letGo who) .noSuchLocks
  | unsupported {m : Move V} {i : Nat} (hm : m.store? = some i) (hi : w.store? i = none) :
    Idle w m .unsupported

/-- What a move does, with its outcome. -/
inductive Effect [BEq V] (w : World V) : Move V → Outcome V → World V → Prop where
  | idle {m : Move V} {o : Outcome V} {w' : World V} (h : w.Idle m o) (hw : w.Same w') :
    Effect w m o w'
  | called {i : Nat} {c : Call V} {w' : World V} (st : Store V) (hi : w.store? i = some st)
    (hs : w.Changes w' i (st.call c).state) (hl : w'.locks = w.locks) (hh : w'.holds = w.holds) :
    Effect w (.call i c) (.ofReply (st.call c).reply) w'
  | acquired {who : Holder} {i : Nat} {batch : List (Command V)} {w' : World V} (st : Store V)
    (locks : LockSet) (hw : who ∉ w.parties) (hi : w.store? i = some st)
    (hr : (st.acquire who batch).reply = .ok locks)
    (hs : w.Changes w' i (st.acquire who batch).state) (hl : w'.locks = locks :: w.locks)
    (hh : w'.holds = w.holds) : Effect w (.acquire who i batch) (.done (.locks locks)) w'
  | resolved {how : Resolution} {i : Nat} {batch : List (Command V)} {w' : World V} {o : Outcome V}
    (st : Store V) (locks : LockSet) (hm : locks ∈ w.locks) (hi : w.store? i = some st)
    (hu : locks.issuer = st.id) (hs : w.Changes w' i (how.run batch locks st).state)
    (hl : w'.locks = w.locks.filter (·.holder ≠ locks.holder)) (hh : w'.holds = w.holds)
    (ho : (how.run batch locks st).reply = .ok () ∧ o = .done .done ∨
      ∃ v, (how.run batch locks st).reply = .error v ∧ o = .violated v) :
    Effect w (.resolve how locks.holder i batch) o w'
  | forgotten {m : Move V} {o : Outcome V} {w' : World V} (locks : LockSet) (hm : locks ∈ w.locks)
    (hs : ∀ j, w'.store? j = (w.store? j).map (·.forget locks))
    (hl : w'.locks = w.locks.filter (·.holder ≠ locks.holder)) (hh : w'.holds = w.holds)
    (ho : m = .drop locks.holder ∧ o = .done .done ∨
      ∃ how i batch st, m = .resolve how locks.holder i batch ∧ w.store? i = some st ∧
        locks.issuer ≠ st.id ∧ o = .violated (.wrongStore locks.issuer st.id)) : Effect w m o w'
  | held {who : Holder} {i : Nat} {mode : HoldMode} {w' : World V} (st st' : Store V)
    (hw : who ∉ w.parties) (hi : w.store? i = some st)
    (hr : st.hold? who mode = .ok (some st')) (hs : w.Changes w' i st') (hl : w'.locks = w.locks)
    (hh : w'.holds = ⟨who, i, mode⟩ :: w.holds) : Effect w (.hold who i mode) (.done .done) w'
  | heldBaseline {who : Holder} {i : Nat} {mode : HoldMode} {w' : World V} (hw : who ∉ w.parties)
    (hi : w.store? i = none) (hs : ∀ j, w'.store? j = w.store? j) (hl : w'.locks = w.locks)
    (hh : w'.holds = ⟨who, i, mode⟩ :: w.holds) : Effect w (.hold who i mode) (.done .done) w'
  | letGo {w' : World V} (h : Hold) (hm : h ∈ w.holds)
    (hs : ∀ j, w'.store? j =
      if j = h.store then (w.store? j).map (·.letGo h.who h.mode) else w.store? j)
    (hl : w'.locks = w.locks) (hh : w'.holds = w.holds.filter (·.who ≠ h.who)) :
    Effect w (.letGo h.who) (.done .done) w'

theorem slot_of_store {w : World V} {i : Nat} {st : Store V} (hi : w.store? i = some st)
    (k : Key) : w.slot i k = st.cells.get? k := by rw [slot, hi, Option.bind_some]

theorem same_self (w : World V) : w.Same w := ⟨fun _ => rfl, rfl, rfl⟩

theorem changes_self {w : World V} {i : Nat} {st : Store V} (h : w.store? i = some st) :
    w.Changes w i st := by
  intro j
  split
  · next hj => rw [hj, h]
  · rfl

/-- What is found afterwards is what was there, or what was put there. -/
theorem Changes.store_eq {w w' : World V} {i j : Nat} {st st' s s' : Store V}
    (hc : w.Changes w' j s') (hj : w.store? j = some s) (hi : w.store? i = some st)
    (hi' : w'.store? i = some st') : st' = st ∨ s = st ∧ st' = s' := by
  rw [hc i] at hi'
  split at hi'
  · next hij =>
    subst hij
    exact .inr ⟨Option.some.inj (hj.symm.trans hi), (Option.some.inj hi').symm⟩
  · exact .inl (Option.some.inj (hi'.symm.trans hi))

section
variable [BEq V] (w : World V)

theorem call_effect (i : Nat) (c : Call V) :
    w.Effect (.call i c) (w.step (.call i c)).reply (w.step (.call i c)).state := by
  cases hi : w.store? i with
  | some st =>
    rw [step, Session.call_of_store hi c]
    exact .called st hi (Session.store?_setStore (s := w.session.note _) hi _) rfl rfl
  | none =>
    refine .idle (.call c hi) ?_
    show w.Same ⟨(w.session.call i c).state, w.holds⟩
    rcases Session.call_of_no_store hi c with hc | ⟨b, hc⟩
    · rw [hc]
      exact ⟨fun _ => rfl, rfl, rfl⟩
    · rw [hc]
      exact ⟨Session.store?_setBaseline (s := w.session.note _) hi b, rfl, rfl⟩

theorem acquire_effect (who : Holder) (i : Nat) (batch : List (Command V)) :
    w.Effect (.acquire who i batch) (w.step (.acquire who i batch)).reply
      (w.step (.acquire who i batch)).state := by
  by_cases hw : who ∈ w.parties
  · rw [step, if_pos hw]
    exact .idle (.nameInUse rfl hw) w.same_self
  · have hn : w.session.lockSet? who = none := Session.lockSet?_eq_none.2 fun locks hl he =>
      hw (List.mem_append_left _ (he ▸ List.mem_map_of_mem hl))
    rw [step, if_neg hw, Session.acquireAs, hn, Option.isSome_none, if_neg Bool.false_ne_true]
    cases hi : w.store? i with
    | none =>
      simp only [Session.acquire_of_no_store (s := w.session.noteBatch batch) hi]
      exact .idle (.unsupported rfl hi) ⟨fun _ => rfl, rfl, rfl⟩
    | some st =>
      have hi' : (w.session.noteBatch batch).store? i = some st := hi
      cases hr : (st.acquire who batch).reply with
      | error f =>
        simp only [Session.acquire_error hi' hr, (Store.acquire_error hr).1]
        refine .idle (.acquire hi hr) ⟨fun j => ?_, rfl, rfl⟩
        exact (Session.store?_setStore hi' st j).trans (changes_self hi j).symm
      | ok locks =>
        simp only [Session.acquire_ok hi' hr]
        exact .acquired st locks hw hi hr (Session.store?_setStore hi' _) rfl rfl

theorem resolve_effect (how : Resolution) (who : Holder) (i : Nat) (batch : List (Command V)) :
    w.Effect (.resolve how who i batch) (w.step (.resolve how who i batch)).reply
      (w.step (.resolve how who i batch)).state := by
  rw [step, Session.endAs, Session.withLocks]
  cases hl : w.session.lockSet? who with
  | none => exact .idle (.noLocks rfl (Session.lockSet?_eq_none.1 hl)) w.same_self
  | some locks =>
    obtain ⟨hm, rfl⟩ := Session.mem_of_lockSet? hl
    cases hi : w.store? i with
    | none =>
      simp only [Session.resolve_of_no_store hi]
      exact .idle (.unsupported rfl hi) w.same_self
    | some st =>
      simp only [Session.resolve_of_store hi]
      by_cases hu : locks.issuer = st.id
      · rw [if_pos hu]
        refine .resolved st locks hm hi hu
          (Session.store?_setStore (s := w.session.retire locks) hi _) rfl rfl ?_
        show _ ∧ Outcome.ofResolution .done (how.run batch locks st).reply = _ ∨ _
        cases (how.run batch locks st).reply with
        | ok u => exact .inl ⟨rfl, rfl⟩
        | error v => exact .inr ⟨v, rfl, rfl⟩
      · rw [if_neg hu, (Store.run_foreign hu).2]
        refine .forgotten locks hm (fun j => ?_) ?_ rfl (.inr ⟨how, i, batch, st, rfl, hi, hu, rfl⟩)
        · refine (Session.store?_forget locks).trans ?_
          rw [Session.store?_setStore (s := w.session.retire locks) hi, (Store.run_foreign hu).1]
          exact congrArg _ (changes_self hi j).symm
        · show (w.session.locks.filter _).filter _ = w.session.locks.filter _
          rw [List.filter_filter]
          simp only [Bool.and_self]

theorem drop_effect (who : Holder) :
    w.Effect (.drop who) (w.step (.drop who)).reply (w.step (.drop who)).state := by
  rw [step, Session.dropAs, Session.withLocks]
  cases hl : w.session.lockSet? who with
  | none => exact .idle (.noLocks rfl (Session.lockSet?_eq_none.1 hl)) w.same_self
  | some locks =>
    obtain ⟨hm, rfl⟩ := Session.mem_of_lockSet? hl
    exact .forgotten locks hm (fun _ => Session.store?_forget locks) rfl rfl (.inl ⟨rfl, rfl⟩)

theorem hold_effect (who : Holder) (i : Nat) (mode : HoldMode) :
    w.Effect (.hold who i mode) (w.step (.hold who i mode)).reply
      (w.step (.hold who i mode)).state := by
  by_cases hw : who ∈ w.parties
  · rw [step, if_pos hw]
    exact .idle (.nameInUse rfl hw) w.same_self
  · rw [step, if_neg hw]
    cases hi : w.store? i with
    | some st =>
      rw [Session.hold?_of_store hi]
      cases hr : st.hold? who mode with
      | error f => exact .idle (.hold hi hr) w.same_self
      | ok t =>
        cases t with
        | none => exact .idle (.nothingToHold hi hr) w.same_self
        | some st' => exact .held st st' hw hi hr (Session.store?_setStore hi _) rfl rfl
    | none =>
      rcases Session.hold?_of_no_store hi who mode with hb | ⟨b, hb⟩
      · rw [hb]
        exact .idle (.unsupported rfl hi) w.same_self
      · rw [hb]
        cases b.hold? who mode with
        | error f => exact .idle (.baseline mode hi) w.same_self
        | ok t =>
          cases t with
          | none => exact .idle (.baseline mode hi) w.same_self
          | some b' => exact .heldBaseline hw hi (Session.store?_setBaseline hi b') rfl rfl

theorem letGo_effect (who : Holder) :
    w.Effect (.letGo who) (w.step (.letGo who)).reply (w.step (.letGo who)).state := by
  rw [step]
  cases hf : w.holds.find? (·.who = who) with
  | none =>
    have hn : ∀ h ∈ w.holds, h.who ≠ who := by simpa using hf
    exact .idle (.noHold hn) w.same_self
  | some h =>
    have hm : h ∈ w.holds := List.mem_of_find?_eq_some hf
    obtain rfl : h.who = who := by simpa using List.find?_some hf
    exact .letGo h hm (fun j => Session.store?_letGo h.who h.mode j) rfl rfl

/-- Every move has the effect of its kind. -/
theorem step_effect (m : Move V) : w.Effect m (w.step m).reply (w.step m).state := by
  cases m with
  | name keys => exact .idle (.name keys) ⟨fun _ => rfl, rfl, rfl⟩
  | call i c => exact w.call_effect i c
  | acquire who i batch => exact w.acquire_effect who i batch
  | resolve how who i batch => exact w.resolve_effect how who i batch
  | drop who => exact w.drop_effect who
  | hold who i mode => exact w.hold_effect who i mode
  | letGo who => exact w.letGo_effect who

section
variable {w w' : World V} {o : Outcome V} {i : Nat} {st : Store V} (hi : w.store? i = some st)

include hi

/-- What a store answers is the outcome of the move. -/
theorem Effect.call_reply {c : Call V} (h : w.Effect (.call i c) o w') :
    o = .ofReply (st.call c).reply := by
  cases h with
  | idle h =>
    cases h with
    | call c hi' => rw [hi'] at hi; cases hi
    | nameInUse hm => cases hm
    | noLocks hm => cases hm
    | unsupported hm hi' => cases hm; rw [hi'] at hi; cases hi
  | called st' hi' => rw [Option.some.inj (hi.symm.trans hi')]
  | forgotten _ _ _ _ _ ho => rcases ho with ⟨hm, -⟩ | ⟨_, _, _, _, hm, -⟩ <;> cases hm

theorem Effect.acquire_reply {who : Holder} {batch : List (Command V)} (hw : who ∉ w.parties)
    (h : w.Effect (.acquire who i batch) o w') :
    o = .ofReply ((st.acquire who batch).reply.map .locks) := by
  cases h with
  | idle h =>
    cases h with
    | acquire hi' hr => rw [Option.some.inj (hi.symm.trans hi'), hr]; rfl
    | nameInUse hm hw' => cases hm; exact absurd hw' hw
    | noLocks hm => cases hm
    | unsupported hm hi' => cases hm; rw [hi'] at hi; cases hi
  | acquired st' locks _ hi' hr => rw [Option.some.inj (hi.symm.trans hi'), hr]; rfl
  | forgotten _ _ _ _ _ ho => rcases ho with ⟨hm, -⟩ | ⟨_, _, _, _, hm, -⟩ <;> cases hm

theorem Effect.call_state {c : Call V} (h : w.Effect (.call i c) o w') :
    w.Changes w' i (st.call c).state ∧ w'.locks = w.locks ∧ w'.holds = w.holds := by
  cases h with
  | idle h =>
    cases h with
    | call c hi' => rw [hi'] at hi; cases hi
    | nameInUse hm => cases hm
    | noLocks hm => cases hm
    | unsupported hm hi' => cases hm; rw [hi'] at hi; cases hi
  | called st' hi' hs hl hh =>
    obtain rfl := Option.some.inj (hi.symm.trans hi')
    exact ⟨hs, hl, hh⟩
  | forgotten _ _ _ _ _ ho => rcases ho with ⟨hm, -⟩ | ⟨_, _, _, _, hm, -⟩ <;> cases hm

theorem Effect.acquire_state {who : Holder} {batch : List (Command V)} (hw : who ∉ w.parties)
    (h : w.Effect (.acquire who i batch) o w') :
    w.Changes w' i (st.acquire who batch).state ∧ w'.holds = w.holds ∧
      ∀ locks, locks ∈ w'.locks ↔ (st.acquire who batch).reply = .ok locks ∨ locks ∈ w.locks := by
  cases h with
  | idle h hs =>
    cases h with
    | acquire hi' hr =>
      obtain rfl := Option.some.inj (hi.symm.trans hi')
      rw [(Store.acquire_error hr).1, hr, hs.locks]
      exact ⟨fun j => (hs.stores j).trans (changes_self hi j), hs.holds, by simp⟩
    | nameInUse hm hw' => cases hm; exact absurd hw' hw
    | noLocks hm => cases hm
    | unsupported hm hi' => cases hm; rw [hi'] at hi; cases hi
  | acquired st' locks _ hi' hr hs hl hh =>
    obtain rfl := Option.some.inj (hi.symm.trans hi')
    rw [hr, hl]
    exact ⟨hs, hh, by simp [eq_comm]⟩
  | forgotten _ _ _ _ _ ho => rcases ho with ⟨hm, -⟩ | ⟨_, _, _, _, hm, -⟩ <;> cases hm

end

/-- A batch is acquired on a store, and its lock set is live from then on. -/
theorem Effect.acquire_done {w w' : World V} {who : Holder} {i : Nat} {batch : List (Command V)}
    {locks : LockSet} (h : w.Effect (.acquire who i batch) (.done (.locks locks)) w') :
    ∃ st, w.store? i = some st ∧ (st.acquire who batch).reply = .ok locks ∧
      w'.store? i = some (st.acquire who batch).state ∧
      locks ∈ w'.locks ∧ locks.holder = who ∧ locks.issuer = (st.acquire who batch).state.id := by
  cases h with
  | idle h => cases h
  | acquired st _ hw hi hr hs hl =>
    obtain ⟨-, -, -, ⟨hu, hwho, -⟩, -⟩ := Store.acquire_ok hr
    refine ⟨st, hi, hr, (hs i).trans (if_pos rfl), ?_, hwho, hu.trans (Store.acquire_id _ _ _).symm⟩
    rw [hl]
    exact List.mem_cons_self
  | forgotten _ _ _ _ _ ho => rcases ho with ⟨hm, -⟩ | ⟨_, _, _, _, hm, -⟩ <;> cases hm

/-- The stores stay, each with its id. -/
theorem Effect.ids {w w' : World V} {m : Move V} {o : Outcome V} (h : w.Effect m o w') (j : Nat) :
    (w'.store? j).map (·.id) = (w.store? j).map (·.id) := by
  have hc : ∀ {i : Nat} {st st' : Store V}, w.store? i = some st → w.Changes w' i st' →
      st'.id = st.id → (w'.store? j).map (·.id) = (w.store? j).map (·.id) := by
    intro i st st' hi hs he
    rw [hs j]
    split
    · next hj => rw [hj, hi, Option.map_some, Option.map_some, he]
    · rfl
  cases h with
  | idle h hw => rw [hw.stores]
  | called st hi hs => exact hc hi hs (Store.call_id _ _)
  | acquired st locks hw hi hr hs => exact hc hi hs (Store.acquire_id _ _ _)
  | resolved st locks hm hi hu hs => exact hc hi hs (Store.run_id _ _ _ _)
  | forgotten locks hm hs =>
    rw [hs, Option.map_map]
    exact congrArg (fun f => (w.store? j).map f) (funext fun st => Store.forget_id locks st)
  | held st st' hw hi hr hs =>
    obtain ⟨-, l, -, rfl⟩ := Store.hold?_ok hr
    exact hc hi hs (Store.relock_id _ _ _)
  | heldBaseline hw hi hs => rw [hs]
  | letGo h hm hs =>
    rw [hs]
    split
    · rw [Option.map_map]
      refine congrArg (fun f => (w.store? j).map f) (funext fun st => ?_)
      show (st.letGo h.who h.mode).id = st.id
      rw [Store.letGo_eq, Store.relock_id]
    · rfl

section
variable {w w' : World V} {m : Move V} {o : Outcome V} (h : w.Effect m o w') {i : Nat}
  {st : Store V}

include h

theorem Effect.store_before (hi : w'.store? i = some st) :
    ∃ s, w.store? i = some s ∧ st.id = s.id := by
  have hid := h.ids i
  rw [hi, Option.map_some, eq_comm, Option.map_eq_some_iff] at hid
  obtain ⟨s, hs, he⟩ := hid
  exact ⟨s, hs, he.symm⟩

theorem Effect.store_after (hi : w.store? i = some st) :
    ∃ s, w'.store? i = some s ∧ s.id = st.id := by
  have hid := h.ids i
  rw [hi, Option.map_some, Option.map_eq_some_iff] at hid
  exact hid

end

end

end World

end TwoPhaseStore
