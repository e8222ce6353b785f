import TwoPhaseStore.Proofs.Session
import TwoPhaseStore.Proofs.Store.Twin
import TwoPhaseStore.Session.Script

/-!
Sessions that nobody can tell apart but for the id and the timeout of one store.  In the place of a
store `s` the one has a twin of it with the id and the timeout of `t`; lock sets that `s` issued are
issued by `t` there.  Both answer every action alike, up to these labels, and stay alike:

    h : Twins s t σ τ → (σ.act i a).Alike s t (τ.act i a)                            (Twins.act)

The sessions are to hold their lock sets (`Holds`), which all reachable ones do.
-/

namespace TwoPhaseStore

open Session (Resolution)

variable {V : Type}

/-! ## Other numbers for stores -/

/-- The same lock set, its issuer under another number. -/
def LockSet.renumber (f : Nat → Nat) (locks : LockSet) : LockSet :=
  { locks with issuer := f locks.issuer }

def Violation.renumber (f : Nat → Nat) : Violation → Violation
  | .wrongStore a b => .wrongStore (f a) (f b)
  | v => v

def Reply.renumber (f : Nat → Nat) : Reply V → Reply V
  | .locks l => .locks (l.renumber f)
  | r => r

/-- The same outcome, with stores under other numbers wherever it names them. -/
def Outcome.renumber (f : Nat → Nat) : Outcome V → Outcome V
  | .done r => .done (r.renumber f)
  | .violated v => .violated (v.renumber f)
  | o => o

/-- What is said without numbers. -/
theorem Outcome.renumber_map {α : Type} {f : Nat → Nat} {g : α → Reply V}
    (hg : ∀ a, (g a).renumber f = g a) (r : Except Fault α) :
    (Outcome.ofReply (r.map g)).renumber f = .ofReply (r.map g) := by
  cases r with
  | error e => rfl
  | ok a => exact congrArg Outcome.done (hg a)

theorem Outcome.renumber_call [BEq V] (f : Nat → Nat) (c : Call V) (s : Store V) :
    (Outcome.ofReply (s.call c).reply).renumber f = .ofReply (s.call c).reply := by
  cases c <;> first | rfl | exact renumber_map (fun _ => rfl) _

theorem Outcome.renumber_baseline [BEq V] (f : Nat → Nat) {c : Call V} {b : Baseline V}
    {a : Answer (Baseline V) (Except Fault (Reply V))} (h : b.call? c = some a) :
    (Outcome.ofReply a.reply).renumber f = .ofReply a.reply := by
  cases c <;> cases h <;> first | rfl | exact renumber_map (fun _ => rfl) _

namespace Store

/-- What tells a store from others of the same contents. -/
def label (s : Store V) : Nat × Duration := (s.id, s.timeout)

/-- The number of `s` becomes that of `t`. -/
def renumber (s t : Store V) (n : Nat) : Nat := if n = s.id then t.id else n

theorem label_of_bare {s t : Store V} (h : t.bare = s.bare) : t.label = s.label := by
  have hl : t.bare.label = s.bare.label := by rw [h]
  exact hl

theorem relock_label (s : Store V) (target : Option Key) (f : Lock → Lock) :
    (s.relock target f).label = s.label := by cases target <;> rfl

theorem id_of_label {s t : Store V} (h : t.label = s.label) : t.id = s.id := congrArg Prod.fst h

theorem timeout_of_label {s t : Store V} (h : t.label = s.label) : t.timeout = s.timeout :=
  congrArg Prod.snd h

theorem text_of_label {s t : Store V} (h : t.label = s.label) : t.text = s.text := by
  unfold text
  rw [id_of_label h, timeout_of_label h]

/-- The stores `u` and `v` have the labels of `s` and `t`, or they have one label between them,
which is of neither. -/
def Labelled (s t u v : Store V) : Prop :=
  u.label = s.label ∧ v.label = t.label ∨ v.label = u.label ∧ u.id ≠ s.id ∧ u.id ≠ t.id

namespace Labelled

variable {s t u v : Store V} (h : Labelled s t u v)

include h

theorem congr {u' v' : Store V} (hu : u'.label = u.label) (hv : v'.label = v.label) :
    Labelled s t u' v' := by
  have hid : u'.id = u.id := id_of_label hu
  rcases h with ⟨h, h'⟩ | ⟨h, hs, ht⟩
  · exact .inl ⟨hu.trans h, hv.trans h'⟩
  · exact .inr ⟨hv.trans (h.trans hu.symm), hid ▸ hs, hid ▸ ht⟩

theorem renumber_id : s.renumber t u.id = v.id := by
  rcases h with ⟨h, h'⟩ | ⟨h, hs, -⟩
  · exact (if_pos (id_of_label h)).trans (id_of_label h').symm
  · exact (if_neg hs).trans (id_of_label h).symm

/-- Nothing that `u` issues can be taken for what `t` issues. -/
theorem issuer : u.id ≠ s.id → u.id ≠ t.id := by
  rcases h with ⟨h, -⟩ | ⟨-, -, ht⟩
  · exact fun hn => absurd (id_of_label h) hn
  · exact fun _ => ht

theorem issuer_iff {n : Nat} (hn : n ≠ s.id → n ≠ t.id) :
    s.renumber t n = v.id ↔ n = u.id := by
  rw [← h.renumber_id, renumber, renumber]
  by_cases hs : n = s.id
  · rw [if_pos hs, hs]
    by_cases hu : u.id = s.id
    · rw [if_pos hu]
      exact iff_of_true rfl hu.symm
    · rw [if_neg hu]
      exact iff_of_false (fun he => h.issuer hu he.symm) fun he => hu he.symm
  · rw [if_neg hs]
    by_cases hu : u.id = s.id
    · rw [if_pos hu]
      exact iff_of_false (hn hs) fun he => hs (he.trans hu)
    · rw [if_neg hu]

end Labelled

end Store

/-- The outcomes are the same, but that one store is known by the number of `s` in the first and of
`t` in the second, and that it says of itself what `s` says or what `t` says. -/
inductive Outcome.Alike (s t : Store V) : Outcome V → Outcome V → Prop where
  | same (o : Outcome V) : Alike s t o (o.renumber (s.renumber t))
  | text : Alike s t (.done (.text s.text)) (.done (.text t.text))
  | timeout : Alike s t (.done (.duration s.timeout)) (.done (.duration t.timeout))

namespace Store

section
variable {s t u v : Store V} (hl : Labelled s t u v)

include hl

theorem Labelled.text_alike :
    Outcome.Alike s t (.done (.text u.text)) (.done (.text v.text)) := by
  rcases hl with ⟨hu, hv⟩ | ⟨hv, -⟩
  · rw [text_of_label hu, text_of_label hv]
    exact .text
  · rw [text_of_label hv]
    exact .same (.done (.text u.text))

theorem Labelled.timeout_alike :
    Outcome.Alike s t (.done (.duration u.timeout)) (.done (.duration v.timeout)) := by
  rcases hl with ⟨hu, hv⟩ | ⟨hv, -⟩
  · rw [timeout_of_label hu, timeout_of_label hv]
    exact .timeout
  · rw [timeout_of_label hv]
    exact .same (.done (.duration u.timeout))

namespace Twin

variable (h : Twin u v)

include h

theorem call_alike [BEq V] (c : Call V) :
    (Outcome.ofReply (u.call c).reply).Alike s t (.ofReply (v.call c).reply) := by
  by_cases hc : c.AboutStore
  · cases c with
    | text => exact hl.text_alike
    | timeout => exact hl.timeout_alike
    | _ => exact hc.elim
  · rw [h.call_reply hc]
    have hs := Outcome.Alike.same (s := s) (t := t) (.ofReply (u.call c).reply)
    rwa [Outcome.renumber_call] at hs

/-- Each ends a lock set of its own. -/
theorem run_alike (how : Resolution) (batch : List (Command V)) {locks : LockSet}
    (hu : locks.issuer = u.id) (hk : ∀ k, locks.keys.contains k = true → u.lockAt k ≠ .free) :
    (how.run batch (locks.renumber (s.renumber t)) v).reply =
        (how.run batch locks u).reply.mapError (·.renumber (s.renumber t)) ∧
      Twin (how.run batch locks u).state (how.run batch (locks.renumber (s.renumber t)) v).state := by
  have hset : locks = ⟨u.id, locks.holder, locks.keys⟩ := hu ▸ rfl
  have hset' : locks.renumber (s.renumber t) = ⟨v.id, locks.holder, locks.keys⟩ := by
    rw [LockSet.renumber, hu, hl.renumber_id]
  obtain ⟨hr, hw, htwin⟩ := h.run how batch locks.holder hk
  rw [← hset, ← hset'] at hr
  rw [← hset] at hw
  rw [← hset, ← hset'] at htwin
  refine ⟨?_, htwin⟩
  rw [hr]
  cases hru : (how.run batch locks u).reply with
  | ok r => rfl
  | error e =>
    cases e with
    | wrongStore a b => exact absurd hru (hw a b)
    | _ => rfl

end Twin

end

end Store

/-! ## Backends -/

/-- The same backend, or twins under their labels. -/
inductive Backend.Twin (s t : Store V) : Backend V → Backend V → Prop where
  | store {u v : Store V} (h : Store.Twin u v) (hl : Store.Labelled s t u v) :
    Twin s t (.store u) (.store v)
  | baseline (b : Baseline V) : Twin s t (.baseline b) (.baseline b)

namespace Backend.Twin

variable {s t : Store V} {b b' : Backend V} (h : Backend.Twin s t b b')

include h

theorem call? [BEq V] (c : Call V) :
    b.call? c = none ∧ b'.call? c = none ∨
    ∃ a a', b.call? c = some a ∧ b'.call? c = some a' ∧
      (Outcome.ofReply a.reply).Alike s t (.ofReply a'.reply) ∧
      Backend.Twin s t a.state a'.state := by
  cases h with
  | @store u v h hl =>
    exact .inr ⟨_, _, rfl, rfl, h.call_alike hl c, .store (h.call c) (hl.congr
      (Store.label_of_bare (Store.call_bare c u)) (Store.label_of_bare (Store.call_bare c v)))⟩
  | baseline b =>
    cases ha : b.call? c with
    | none => exact .inl ⟨by rw [Backend.call?, ha]; rfl, by rw [Backend.call?, ha]; rfl⟩
    | some a =>
      refine .inr ⟨⟨a.reply, a.events, .baseline a.state⟩, ⟨a.reply, a.events, .baseline a.state⟩,
        by rw [Backend.call?, ha]; rfl, by rw [Backend.call?, ha]; rfl, ?_, .baseline _⟩
      have hs := Outcome.Alike.same (s := s) (t := t) (.ofReply a.reply)
      rwa [Outcome.renumber_baseline _ ha] at hs

theorem len : b'.len = b.len := by
  cases h with
  | store h hl => exact h.len_reply
  | baseline b => rfl

theorem forget {locks : LockSet} (hi : locks.issuer ≠ s.id → locks.issuer ≠ t.id) :
    Backend.Twin s t (b.forget locks) (b'.forget (locks.renumber (s.renumber t))) := by
  cases h with
  | @store u v h hl =>
    exact .store (h.forget (hl.issuer_iff hi) rfl rfl) (hl.congr
      (Store.label_of_bare (Store.forget_bare _ u)) (Store.label_of_bare (Store.forget_bare _ v)))
  | baseline b => exact .baseline b

theorem letGo (who : Holder) (mode : HoldMode) :
    Backend.Twin s t (b.letGo who mode) (b'.letGo who mode) := by
  cases h with
  | @store u v h hl =>
    refine .store (h.letGo who mode) (hl.congr ?_ ?_)
    · rw [Store.letGo_eq, Store.relock_label]
    · rw [Store.letGo_eq, Store.relock_label]
  | baseline b => exact .baseline _

theorem hold?_cases (who : Holder) (mode : HoldMode) :
    (∃ f, b.hold? who mode = .error f ∧ b'.hold? who mode = .error f) ∨
    b.hold? who mode = .ok none ∧ b'.hold? who mode = .ok none ∨
    ∃ c c', b.hold? who mode = .ok (some c) ∧ b'.hold? who mode = .ok (some c') ∧
      Backend.Twin s t c c' := by
  cases h with
  | @store u v h hl =>
    simp only [Backend.hold?]
    rcases h.hold?_cases who mode with ⟨f, hu, hv⟩ | ⟨hu, hv⟩ | ⟨l, hu, hv, htwin⟩
    · rw [hu, hv]
      exact .inl ⟨f, rfl, rfl⟩
    · rw [hu, hv]
      exact .inr (.inl ⟨rfl, rfl⟩)
    · rw [hu, hv]
      exact .inr (.inr ⟨_, _, rfl, rfl, .store htwin
        (hl.congr (Store.relock_label _ _ _) (Store.relock_label _ _ _))⟩)
  | baseline b =>
    simp only [Backend.hold?]
    cases b.hold? who mode with
    | error f => exact .inl ⟨f, rfl, rfl⟩
    | ok held =>
      cases held with
      | none => exact .inr (.inl ⟨rfl, rfl⟩)
      | some c => exact .inr (.inr ⟨_, _, rfl, rfl, .baseline c⟩)

end Backend.Twin

/-! ## Sessions -/

namespace Session

/-- The keys of a lock set are locked in the store that issued it. -/
def Holds (σ : Session V) (locks : LockSet) : Prop :=
  ∀ j st, σ.store? j = some st → locks.issuer = st.id →
    ∀ k, locks.keys.contains k = true → st.lockAt k ≠ .free

structure Twins (s t : Store V) (σ τ : Session V) : Prop where
  backends : ∀ j : Nat, Option.Rel (Backend.Twin s t) σ.backends[j]? τ.backends[j]?
  locks : τ.locks = σ.locks.map (·.renumber (s.renumber t))
  /-- No lock set can be taken for one that `t` issued. -/
  issuers : ∀ locks ∈ σ.locks, locks.issuer ≠ s.id → locks.issuer ≠ t.id

/-- Answers of twins: the outcomes are alike, and there are twins after them. -/
structure AnswersAlike (s t : Store V) (a a' : Answer (Session V) (Outcome V)) : Prop where
  reply : a.reply.Alike s t a'.reply
  state : Twins s t a.state a'.state

namespace Twins

variable {s t : Store V} {σ τ : Session V} (h : Twins s t σ τ)

include h

theorem backend (j : Nat) : σ.backends[j]? = none ∧ τ.backends[j]? = none ∨
    ∃ b b', σ.backends[j]? = some b ∧ τ.backends[j]? = some b' ∧ Backend.Twin s t b b' := by
  have hj := h.backends j
  generalize σ.backends[j]? = o, τ.backends[j]? = o' at hj
  cases hj with
  | none => exact .inl ⟨rfl, rfl⟩
  | some hb => exact .inr ⟨_, _, rfl, rfl, hb⟩

theorem setBackend {b b' : Backend V} (j : Nat) (hb : Backend.Twin s t b b') :
    Twins s t (σ.setBackend j b) (τ.setBackend j b') := by
  refine ⟨fun k => ?_, h.locks, h.issuers⟩
  have hlen : j < σ.backends.length ↔ j < τ.backends.length := by
    rcases h.backend j with ⟨hσ, hτ⟩ | ⟨_, _, hσ, hτ, -⟩
    · rw [List.getElem?_eq_none_iff] at hσ hτ
      exact iff_of_false (Nat.not_lt.2 hσ) (Nat.not_lt.2 hτ)
    · exact iff_of_true (List.getElem?_eq_some_iff.1 hσ).1 (List.getElem?_eq_some_iff.1 hτ).1
  show Option.Rel _ (σ.backends.set j b)[k]? (τ.backends.set j b')[k]?
  rw [List.getElem?_set, List.getElem?_set]
  simp only [hlen]
  split
  · split
    · exact .some hb
    · exact .none
  · exact h.backends k

theorem note (keys : List Key) : Twins s t (σ.note keys) (τ.note keys) :=
  ⟨h.backends, h.locks, h.issuers⟩

theorem noteBatch (batch : List (Command V)) : Twins s t (σ.noteBatch batch) (τ.noteBatch batch) :=
  h.note _

/-- A lock set becomes live. -/
theorem cons {locks : LockSet} (hi : locks.issuer ≠ s.id → locks.issuer ≠ t.id) :
    Twins s t { σ with locks := locks :: σ.locks }
      { τ with locks := locks.renumber (s.renumber t) :: τ.locks } := by
  refine ⟨h.backends, congrArg (_ :: ·) h.locks, fun other hm => ?_⟩
  rcases List.mem_cons.1 hm with rfl | hm
  · exact hi
  · exact h.issuers other hm

theorem retire (locks : LockSet) :
    Twins s t (σ.retire locks) (τ.retire (locks.renumber (s.renumber t))) := by
  refine ⟨h.backends, ?_, fun other hm => h.issuers other (List.mem_filter.1 hm).1⟩
  show τ.locks.filter _ = (σ.locks.filter _).map _
  rw [h.locks, List.filter_map]
  rfl

theorem forget {locks : LockSet} (hi : locks.issuer ≠ s.id → locks.issuer ≠ t.id) :
    Twins s t (σ.forget locks) (τ.forget (locks.renumber (s.renumber t))) := by
  refine ⟨fun j => ?_, (h.retire locks).locks, (h.retire locks).issuers⟩
  show Option.Rel _ (σ.backends.map _)[j]? (τ.backends.map _)[j]?
  rw [List.getElem?_map, List.getElem?_map]
  rcases h.backend j with ⟨hσ, hτ⟩ | ⟨b, b', hσ, hτ, hb⟩
  · rw [hσ, hτ]
    exact .none
  · rw [hσ, hτ]
    exact .some (hb.forget hi)

theorem lockSet? (who : Holder) :
    τ.lockSet? who = (σ.lockSet? who).map (·.renumber (s.renumber t)) := by
  rw [Session.lockSet?, h.locks, List.find?_map]
  rfl

theorem len (j : Nat) : τ.len j = σ.len j := by
  rw [Session.len, Session.len]
  rcases h.backend j with ⟨hσ, hτ⟩ | ⟨b, b', hσ, hτ, hb⟩
  · rw [hσ, hτ]
  · rw [hσ, hτ, Option.map_some, Option.map_some, hb.len]

/-- Nothing is done on either side. -/
theorem answersAlike (o : Outcome V) (ho : o.renumber (s.renumber t) = o) :
    AnswersAlike s t (σ.reply o) (τ.reply o) := by
  have hs := Outcome.Alike.same (s := s) (t := t) o
  rw [ho] at hs
  exact ⟨hs, h⟩

/-- A hold is had on both sides, or on neither and for the same reason. -/
theorem hold?_cases (who : Holder) (j : Nat) (mode : HoldMode) :
    σ.hold? who j mode = none ∧ τ.hold? who j mode = none ∨
    (∃ f, σ.hold? who j mode = some (.error f) ∧ τ.hold? who j mode = some (.error f)) ∨
    σ.hold? who j mode = some (.ok none) ∧ τ.hold? who j mode = some (.ok none) ∨
    ∃ σ' τ', σ.hold? who j mode = some (.ok (some σ')) ∧
      τ.hold? who j mode = some (.ok (some τ')) ∧ Twins s t σ' τ' := by
  simp only [Session.hold?]
  rcases h.backend j with ⟨hσ, hτ⟩ | ⟨b, b', hσ, hτ, hb⟩
  · rw [hσ, hτ]
    exact .inl ⟨rfl, rfl⟩
  · rw [hσ, hτ, Option.map_some, Option.map_some]
    rcases hb.hold?_cases who mode with ⟨f, hb, hb'⟩ | ⟨hb, hb'⟩ | ⟨c, c', hb, hb', htwin⟩
    · rw [hb, hb']
      exact .inr (.inl ⟨f, rfl, rfl⟩)
    · rw [hb, hb']
      exact .inr (.inr (.inl ⟨rfl, rfl⟩))
    · rw [hb, hb']
      exact .inr (.inr (.inr ⟨_, _, rfl, rfl, h.setBackend j htwin⟩))

/-! ## Lock sets -/

/-- A lock set that is ended, on whichever store. -/
theorem resolve (how : Resolution) (j : Nat) (batch : List (Command V)) {locks : LockSet}
    (hm : locks ∈ σ.locks) (hl : σ.Holds locks) :
    σ.resolve how j batch locks = none ∧
      τ.resolve how j batch (locks.renumber (s.renumber t)) = none ∨
    ∃ a a', σ.resolve how j batch locks = some a ∧
      τ.resolve how j batch (locks.renumber (s.renumber t)) = some a' ∧
      a'.reply = a.reply.mapError (·.renumber (s.renumber t)) ∧ Twins s t a.state a'.state := by
  have hi := h.issuers locks hm
  rcases h.backend j with ⟨hσ, hτ⟩ | ⟨b, b', hσ, hτ, hb⟩
  · exact .inl ⟨by simp only [Session.resolve, hσ], by simp only [Session.resolve, hτ]⟩
  · cases hb with
    | baseline b => exact .inl ⟨by simp only [Session.resolve, hσ], by simp only [Session.resolve, hτ]⟩
    | @store u v huv hlab =>
      have hσ' : σ.store? j = some u := store?_eq_some.2 hσ
      have hτ' : τ.store? j = some v := store?_eq_some.2 hτ
      have hnum : s.renumber t u.id = v.id := hlab.renumber_id
      refine .inr ⟨_, _, resolve_of_store hσ' how batch locks,
        resolve_of_store hτ' how batch (locks.renumber (s.renumber t)), ?_⟩
      by_cases hu : locks.issuer = u.id
      · have hv : (locks.renumber (s.renumber t)).issuer = v.id := (hlab.issuer_iff hi).2 hu
        obtain ⟨hr, htwin⟩ := huv.run_alike hlab how batch hu (hl j u hσ' hu)
        simp only [if_pos hu, if_pos hv]
        exact ⟨hr, (h.retire locks).setBackend j (.store htwin (hlab.congr
          (Store.label_of_bare (Store.run_bare _ _ _ _))
          (Store.label_of_bare (Store.run_bare _ _ _ _))))⟩
      · -- neither store has issued it: it is a violation on both sides, and is let go everywhere
        have hv : (locks.renumber (s.renumber t)).issuer ≠ v.id :=
          fun hn => hu ((hlab.issuer_iff hi).1 hn)
        simp only [if_neg hu, if_neg hv]
        have hfu : (how.run batch locks u).state = u ∧ _ := Store.run_foreign hu
        have hfv : (how.run batch (locks.renumber (s.renumber t)) v).state = v ∧ _ :=
          Store.run_foreign hv
        rw [hfu.1, hfu.2, hfv.1, hfv.2]
        refine ⟨?_, ((h.retire locks).setBackend j (.store huv hlab)).forget hi⟩
        rw [← hnum]
        rfl

theorem drop {locks : LockSet} (hm : locks ∈ σ.locks) :
    AnswersAlike s t ⟨.done .done, (σ.drop locks).events, (σ.drop locks).state⟩
      ⟨.done .done, (τ.drop (locks.renumber (s.renumber t))).events,
        (τ.drop (locks.renumber (s.renumber t))).state⟩ :=
  ⟨.same (.done .done), h.forget (h.issuers locks hm)⟩

theorem withLocks {who : Holder} {f g : LockSet → Answer (Session V) (Outcome V)}
    (hf : ∀ locks ∈ σ.locks, AnswersAlike s t (f locks) (g (locks.renumber (s.renumber t)))) :
    AnswersAlike s t (σ.withLocks who f) (τ.withLocks who g) := by
  rw [Session.withLocks, Session.withLocks, h.lockSet?]
  cases hl : σ.lockSet? who with
  | none => exact h.answersAlike .noSuchLocks rfl
  | some locks => exact hf locks (mem_of_lockSet? hl).1

/-! ## Actions -/

theorem resolveAs (hl : ∀ locks ∈ σ.locks, σ.Holds locks) (how : Resolution) (who : Holder)
    (j : Nat) (batch : Batch V) :
    AnswersAlike s t (σ.resolveAs how who j batch) (τ.resolveAs how who j batch) := by
  cases batch with
  | error e => exact h.answersAlike (.undecodable e) rfl
  | ok batch =>
    refine (h.noteBatch batch).withLocks fun locks hm => ?_
    rcases (h.noteBatch batch).resolve how j batch hm (hl locks hm) with
      ⟨hσ, hτ⟩ | ⟨a, a', hσ, hτ, hr, htwin⟩
    · rw [hσ, hτ]
      exact (h.noteBatch batch).answersAlike .unsupported rfl
    · rw [hσ, hτ]
      refine ⟨?_, htwin⟩
      show Outcome.Alike s t (.ofResolution .done a.reply) (.ofResolution .done a'.reply)
      rw [hr]
      cases a.reply with
      | ok u => exact .same (.done .done)
      | error v => exact .same (.violated v)

/-- The end of a batch as was decided. -/
theorem decide (j : Nat) (batch : List (Command V)) {locks : LockSet} (hm : locks ∈ σ.locks)
    (hl : σ.Holds locks) (durable : Option Bool) :
    AnswersAlike s t (σ.decide j batch locks durable)
      (τ.decide j batch (locks.renumber (s.renumber t)) durable) := by
  cases durable with
  | none => exact ⟨.same .undecided, h.forget (h.issuers locks hm)⟩
  | some b =>
    rcases h.resolve (if b then .commit else .abort) j batch hm hl with
      ⟨hσ, hτ⟩ | ⟨a, a', hσ, hτ, hr, htwin⟩
    · simp only [Session.decide, hσ, hτ]
      exact h.answersAlike .unsupported rfl
    · simp only [Session.decide, hσ, hτ]
      refine ⟨?_, htwin⟩
      show Outcome.Alike s t (.ofResolution (.flag b) a.reply) (.ofResolution (.flag b) a'.reply)
      rw [hr]
      cases a.reply with
      | ok u => exact .same (.done (.flag b))
      | error v => exact .same (.violated v)

theorem letGo (who : Holder) (j : Nat) (mode : HoldMode) :
    Twins s t (σ.letGo who j mode) (τ.letGo who j mode) := by
  refine ⟨fun k => ?_, h.locks, h.issuers⟩
  show Option.Rel _ (σ.backends.modify j _)[k]? (τ.backends.modify j _)[k]?
  rw [List.getElem?_modify, List.getElem?_modify]
  rcases h.backend k with ⟨hσ, hτ⟩ | ⟨b, b', hσ, hτ, hb⟩
  · rw [hσ, hτ]
    exact .none
  · rw [hσ, hτ]
    refine .some ?_
    split
    · exact hb.letGo who mode
    · exact hb

section
variable [BEq V]

theorem call (j : Nat) (c : Call V) : AnswersAlike s t (σ.call j c) (τ.call j c) := by
  have hn := h.note c.key?.toList
  simp only [Session.call]
  rcases hn.backend j with ⟨hσ, hτ⟩ | ⟨b, b', hσ, hτ, hb⟩
  · rw [hσ, hτ]
    exact hn.answersAlike .unsupported rfl
  · rw [hσ, hτ, Option.bind_eq_bind, Option.bind_some, Option.bind_some]
    rcases hb.call? c with ⟨hc, hc'⟩ | ⟨a, a', hc, hc', hr, hs⟩
    · rw [hc, hc']
      exact hn.answersAlike .unsupported rfl
    · rw [hc, hc']
      exact ⟨hr, hn.setBackend j hs⟩

/-- An acquire phase: the lock set of the one is that of the other, but for its issuer. -/
theorem acquire (who : Holder) (j : Nat) (batch : List (Command V)) :
    σ.acquire who j batch = none ∧ τ.acquire who j batch = none ∨
    ∃ a a', σ.acquire who j batch = some a ∧ τ.acquire who j batch = some a' ∧
      a'.reply = a.reply.map (·.renumber (s.renumber t)) ∧ Twins s t a.state a'.state := by
  rcases h.backend j with ⟨hσ, hτ⟩ | ⟨b, b', hσ, hτ, hb⟩
  · exact .inl ⟨by simp only [Session.acquire, hσ], by simp only [Session.acquire, hτ]⟩
  · cases hb with
    | baseline b => exact .inl ⟨by simp only [Session.acquire, hσ], by simp only [Session.acquire, hτ]⟩
    | @store u v huv hlab =>
      have hσ' : σ.store? j = some u := store?_eq_some.2 hσ
      have hτ' : τ.store? j = some v := store?_eq_some.2 hτ
      have hset := h.setBackend j (.store (huv.acquire who batch) (hlab.congr
        (Store.label_of_bare (Store.acquire_bare _ _ _))
        (Store.label_of_bare (Store.acquire_bare _ _ _))))
      have hr := huv.acquire_reply who batch
      cases hru : (u.acquire who batch).reply with
      | error f =>
        rw [hru] at hr
        exact .inr ⟨_, _, acquire_error hσ' hru, acquire_error hτ' hr, rfl, hset⟩
      | ok locks =>
        rw [hru] at hr
        obtain ⟨-, -, -, ⟨hu, -⟩, -⟩ := Store.acquire_ok hru
        have hnum : (locks.renumber (s.renumber t)) = { locks with issuer := v.id } := by
          rw [LockSet.renumber, hu, hlab.renumber_id]
        replace hr : (v.acquire who batch).reply = .ok (locks.renumber (s.renumber t)) := by
          rw [hr, hnum]
          rfl
        refine .inr ⟨_, _, acquire_ok hσ' hru, acquire_ok hτ' hr, rfl, hset.cons ?_⟩
        rw [hu]
        exact hlab.issuer

theorem acquireAs (who : Holder) (j : Nat) (batch : Batch V) :
    AnswersAlike s t (σ.acquireAs who j batch) (τ.acquireAs who j batch) := by
  unfold Session.acquireAs
  rw [h.lockSet?, Option.isSome_map]
  split
  · exact h.answersAlike .nameInUse rfl
  · cases batch with
    | error e => exact h.answersAlike (.undecodable e) rfl
    | ok batch =>
      rcases (h.noteBatch batch).acquire who j batch with ⟨hσ, hτ⟩ | ⟨a, a', hσ, hτ, hr, htwin⟩
      · simp only [hσ, hτ]
        exact h.answersAlike .unsupported rfl
      · simp only [hσ, hτ]
        refine ⟨?_, htwin⟩
        show Outcome.Alike s t (.ofReply (a.reply.map .locks)) (.ofReply (a'.reply.map .locks))
        rw [hr]
        cases a.reply with
        | error f => exact .same (.refused f)
        | ok locks => exact .same (.done (.locks locks))

/-- Every action is answered alike. -/
theorem act (hl : ∀ locks ∈ σ.locks, σ.Holds locks) (j : Nat) (a : Action V) :
    AnswersAlike s t (σ.act j a) (τ.act j a) := by
  cases a with
  | call c => exact h.call j c
  | acquire name batch => exact h.acquireAs (.named name) j batch
  | locks name => exact h.withLocks fun locks _ => ⟨.same (.done (.locks locks)), h⟩
  | commit name batch => exact h.resolveAs hl .commit (.named name) j batch
  | abort name batch => exact h.resolveAs hl .abort (.named name) j batch
  | drop name => exact h.withLocks fun locks hm => h.drop hm
  | dropLater name delay =>
    exact h.withLocks fun locks hm => ⟨.same (.done .done), h.forget (h.issuers locks hm)⟩

end

end Twins

end Session

end TwoPhaseStore
