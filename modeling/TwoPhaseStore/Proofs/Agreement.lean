import TwoPhaseStore.Proofs.Exactness
import TwoPhaseStore.Proofs.Isolation
import TwoPhaseStore.Proofs.Refinement

/-!
The store and the baseline.  A store in which nobody has anything answers every operation as a
baseline with the same contents does, whatever placeholders it has left (`agrees_with_baseline`):

    s.Quiet → b.Mirrors s → c.Common →
      ∃ a, b.call? c = some a ∧ a.reply = (s.call c).reply ∧ a.state.Mirrors (s.call c).state

A batch that is acquired and committed at once does what its commands do on the baseline one by one,
in any order; and it cannot be acquired if a condition of it would fail there, or is on an absent key
(`committed_as_sequence`).
-/

namespace TwoPhaseStore

open Session (Resolution)

variable {V : Type}

/-! ## The baseline by its contents -/

namespace Baseline

def contents (b : Baseline V) : Contents V := b.entries.get?

theorem contents_insert (b : Baseline V) (k : Key) (v : V) :
    contents { b with entries := b.entries.insert k v } = b.contents.put k (some v) :=
  funext fun j => Table.get?_insert b.entries k j v

theorem contents_erase (b : Baseline V) (k : Key) :
    contents { b with entries := b.entries.erase k } = b.contents.put k none :=
  funext fun j => Table.get?_erase b.entries k j

theorem contents_ofRows (timeout : Duration) (rows : List (Key × V)) :
    (ofRows timeout rows).contents = Contents.ofRows rows := Store.get?_foldl_insert rows .empty

/-- A baseline with the same contents as a store, and nobody at it. -/
structure Mirrors (b : Baseline V) (s : Store V) : Prop where
  lock : b.lock = .free
  contents : b.contents = s.contents

/-- With nobody at it, a baseline writes a key. -/
theorem set_of_free {b : Baseline V} (h : b.lock = .free) (k : Key) (v : V) :
    b.set k v = { b with entries := b.entries.insert k v }.accept () :=
  if_pos (Lock.isFree_iff.2 h)

theorem del_of_free {b : Baseline V} (h : b.lock = .free) (k : Key) :
    b.del k = { b with entries := b.entries.erase k }.accept () :=
  if_pos (Lock.isFree_iff.2 h)

/-- A conditional write goes through where the key is absent or has the expected payload. -/
theorem setCond_of_met [BEq V] {b : Baseline V} (h : b.lock = .free) {k : Key} (v : V) {e : V}
    (he : ∀ p, b.contents k = some p → (p == e) = true) :
    b.setCond k v e = { b with entries := b.entries.insert k v }.accept () := by
  unfold setCond
  rw [if_pos (Lock.isFree_iff.2 h)]
  cases hp : b.entries.get? k with
  | none => rfl
  | some p => exact if_pos (he p hp)

theorem setCond_of_unmet [BEq V] {b : Baseline V} (h : b.lock = .free) {k : Key} (v : V) {e p : V}
    (hp : b.contents k = some p) (he : ¬ (p == e) = true) :
    b.setCond k v e = ⟨.error (.conditionFailed k), [], b⟩ := by
  have hp' : b.entries.get? k = some p := hp
  unfold setCond
  rw [if_pos (Lock.isFree_iff.2 h), hp']
  exact if_neg he

end Baseline

/-! ## Operations of both -/

/-- The operations of a map that the baseline has too: not `contains`, and not what is asked about
the store itself. -/
def Call.Common : Call V → Prop
  | .contains _ => False
  | .text => False
  | .timeout => False
  | _ => True

namespace Baseline

variable [BEq V] {b : Baseline V} {s : Store V}

section
variable (h : b.Mirrors s) {c : Call V}

include h

/-- What is read is the same on both sides, and nothing is changed. -/
theorem Mirrors.call_of_reads {α : Type} {f : α → Reply V} {x : α}
    {a : Answer (Baseline V) (Except Fault α)} (ha : a = b.accept x)
    (hb : b.call? c = some (a.map f)) (hc : c.written? = none)
    (hs : (s.call c).reply = .ok (f x)) :
    ∃ a, b.call? c = some a ∧ a.reply = (s.call c).reply ∧ a.state.Mirrors (s.call c).state := by
  subst ha
  refine ⟨_, hb, hs.symm, ?_⟩
  rw [Store.call_of_reads hc]
  exact h

/-- What is written is the same on both sides. -/
theorem Mirrors.call_of_writes {b' : Baseline V} {k : Key}
    {a : Answer (Baseline V) (Except Fault Unit)} (ha : a = b'.accept ())
    (hb : b.call? c = some (a.map fun _ => .done)) (hl : b'.lock = b.lock)
    (hk : c.written? = some k) (hs : (s.call c).reply = .ok .done)
    (hp : b'.contents = b.contents.put k (Slot.shown (c.leaves (s.cells.get? k)))) :
    ∃ a, b.call? c = some a ∧ a.reply = (s.call c).reply ∧ a.state.Mirrors (s.call c).state := by
  subst ha
  refine ⟨_, hb, hs.symm, hl.trans h.lock, hp.trans ?_⟩
  rw [Store.contents_call_ok hk hs, h.contents]

end

/-- A step: both answer alike, and mirror each other after it. -/
theorem Mirrors.call (h : b.Mirrors s) (hs : s.Quiet) {c : Call V} (hc : c.Common) :
    ∃ a, b.call? c = some a ∧ a.reply = (s.call c).reply ∧ a.state.Mirrors (s.call c).state := by
  have hr : b.lock.admitsReader = true := by rw [h.lock]; rfl
  have hset : ∀ k v, (s.write k v none).reply = .ok () := fun k v => by
    rw [hs.write_reply, Store.meets_none]
    rfl
  cases c with
  | get k =>
    have hb : b.get k = b.accept (s.contents k) := (if_pos hr).trans (by rw [← h.contents]; rfl)
    exact h.call_of_reads hb rfl rfl (congrArg (Except.map Reply.payload) (hs.get_reply k))
  | set k v =>
    exact h.call_of_writes (set_of_free h.lock k v) rfl rfl rfl
      (congrArg (Except.map _) (hset k v)) (contents_insert b k v)
  | setWithDelay k v d =>
    exact h.call_of_writes (set_of_free h.lock k v) rfl rfl rfl
      (congrArg (Except.map _) (hset k v)) (contents_insert b k v)
  | setCond k v e =>
    by_cases hm : s.meets k (some e) = true
    · have hw : (s.write k v (some e)).reply = .ok () := by rw [hs.write_reply, if_pos hm]
      have hb := setCond_of_met h.lock v
        (h.contents ▸ (hs.sound.meets_some k e).1 hm : ∀ p, b.contents k = some p → (p == e) = true)
      exact h.call_of_writes hb rfl rfl rfl (congrArg (Except.map _) hw) (contents_insert b k v)
    · have hw : (s.write k v (some e)).reply = .error (.conditionFailed k) := by
        rw [hs.write_reply, if_neg hm]
      have herr : (s.call (.setCond k v e)).reply = .error (.conditionFailed k) :=
        congrArg (Except.map _) hw
      rw [hs.sound.meets_some] at hm
      simp only [Classical.not_forall] at hm
      obtain ⟨p, hp, he⟩ := hm
      have hb := setCond_of_unmet h.lock v (h.contents ▸ hp : b.contents k = some p) he
      exact ⟨_, rfl, by rw [hb, herr]; rfl, by rw [hb, Store.call_error herr]; exact h⟩
  | del k =>
    exact h.call_of_writes (del_of_free h.lock k) rfl rfl rfl
      (congrArg (Except.map _) (hs.del_reply k)) (contents_erase b k)
  | len =>
    have hb : b.len = b.accept b.entries.size := if_pos hr
    exact h.call_of_reads hb rfl rfl (congrArg (Except.map Reply.count) (hs.len_reply h.contents))
  | isEmpty =>
    have hb : b.isEmpty = b.accept b.entries.isEmpty := if_pos hr
    exact h.call_of_reads hb rfl rfl (congrArg (Except.map Reply.flag) (hs.isEmpty_reply h.contents))
  | snapshot walk =>
    have hb : b.snapshot = b.accept b.entries.rows := if_pos hr
    exact h.call_of_reads hb rfl rfl (congrArg (Except.map Reply.rows) (hs.snapshot_reply walk h.contents))
  | contains k => exact hc.elim
  | text => exact hc.elim
  | timeout => exact hc.elim

end Baseline

/-- Some operations are done on both, each answered alike and leaving the same contents. -/
inductive InStep [BEq V] : List (Call V) → Store V → Baseline V → Prop where
  | nil (s : Store V) (b : Baseline V) : InStep [] s b
  | cons {c : Call V} {cs : List (Call V)} {s : Store V} {b : Baseline V}
    {a : Answer (Baseline V) (Except Fault (Reply V))} (hb : b.call? c = some a)
    (hr : a.reply = (s.call c).reply) (hc : a.state.contents = (s.call c).state.contents)
    (ht : InStep cs (s.call c).state a.state) : InStep (c :: cs) s b

theorem Baseline.Mirrors.inStep [BEq V] {b : Baseline V} {s : Store V} (h : b.Mirrors s)
    (hs : s.Quiet) {cs : List (Call V)} (hc : ∀ c ∈ cs, c.Common) : InStep cs s b := by
  induction cs generalizing s b with
  | nil => exact .nil s b
  | cons c cs ih =>
    obtain ⟨a, ha, hr, hm⟩ := h.call hs (hc c List.mem_cons_self)
    exact .cons ha hr hm.contents
      (ih hm (hs.call c) fun c' hc' => hc c' (List.mem_cons_of_mem _ hc'))

namespace World

/-- A store without a live lock set and a baseline with the same contents stay in step. -/
theorem agrees_with_baseline [BEq V] {w : World V} (h : w.Reachable) {i : Nat} {st : Store V}
    (hi : w.store? i = some st) (hr : w.AtRest i st) {b : Baseline V} (hl : b.lock = .free)
    (hb : b.contents = st.contents) {cs : List (Call V)} (hc : ∀ c ∈ cs, c.Common) :
    InStep cs st b :=
  Baseline.Mirrors.inStep ⟨hl, hb⟩ (h.quiet hi hr) hc

/-- A lock set is dropped, and leaves the placeholder of a key. -/
theorem store_after_drop : ∃ st : Store Nat,
    (after [.acquire (.named "x") 0 [.del "a", .set "b" 2 none], .drop (.named "x")]
      ⟨Session.single [("a", 1)], []⟩).store? 0 = some st ∧
    st.contents = (Baseline.ofRows ⟨0⟩ [("a", 1)]).contents := by
  let st := ((Store.ofRows 1 Config.default.lockTimeout [("a", 1)]).acquire (.named "x")
    [.del "a", .set "b" 2 none]).state.forget ⟨1, .named "x", .ofList [("a", ()), ("b", ())]⟩
  refine ⟨st, rfl, ?_⟩
  rw [Store.contents_forget, Store.contents_acquire, Store.contents_ofRows, Baseline.contents_ofRows]

/-- The placeholder is not to be seen. -/
theorem agrees_with_baseline_dropped : ∃ st : Store Nat,
    (after [.acquire (.named "x") 0 [.del "a", .set "b" 2 none], .drop (.named "x")]
      ⟨Session.single [("a", 1)], []⟩).store? 0 = some st ∧
    InStep [.len, .setCond "b" 3 7, .setCond "a" 4 0, .snapshot ["b"], .del "a", .isEmpty] st
      (.ofRows ⟨0⟩ [("a", 1)]) := by
  have hs : Reachable ⟨Session.single [("a", 1)], []⟩ := .start (Session.start_single [("a", 1)])
  obtain ⟨st, hi, hst⟩ := store_after_drop
  exact ⟨st, hi, agrees_with_baseline (hs.after _) hi ⟨nofun, nofun⟩ rfl hst.symm
    (by simp [Call.Common])⟩

/-! ## A batch as a sequence -/

end World

namespace Baseline

variable [BEq V]

/-- A command of a batch as an operation of its own. -/
def execute (c : Command V) (b : Baseline V) : Answer (Baseline V) (Except Fault Unit) :=
  match c with
  | .get k => ⟨(b.get k).reply.map fun _ => (), (b.get k).events, (b.get k).state⟩
  | .set k v none => b.set k v
  | .set k v (some e) => b.setCond k v e
  | .del k => b.del k

/-- Commands one at a time, up to the first that is refused. -/
def executeAll : List (Command V) → Baseline V → Except Fault (Baseline V)
  | [], b => .ok b
  | c :: cs, b =>
    match (b.execute c).reply with
    | .ok () => executeAll cs (b.execute c).state
    | .error f => .error f

/-- A write or removal whose condition holds takes effect. -/
theorem execute_of_met {b : Baseline V} (h : b.lock = .free) {c : Command V}
    (hg : c.method ≠ .get) (hm : c.Met b.contents) :
    (b.execute c).reply = .ok () ∧ (b.execute c).state.lock = .free ∧
      (b.execute c).state.contents = b.contents.apply c := by
  cases c with
  | get k => exact absurd rfl hg
  | set k v expected =>
    cases expected with
    | none =>
      rw [execute, set_of_free h]
      exact ⟨rfl, h, contents_insert b k v⟩
    | some e =>
      obtain ⟨p, hp, he⟩ := hm e rfl
      replace hp : b.contents k = some p := hp
      rw [execute, setCond_of_met h v fun p' hp' => by
        rwa [← Option.some.inj (hp.symm.trans hp')]]
      exact ⟨rfl, h, contents_insert b k v⟩
  | del k =>
    rw [execute, del_of_free h]
    exact ⟨rfl, h, contents_erase b k⟩

/-- Commands on distinct keys are not in each other's way. -/
theorem executeAll_of_met {b : Baseline V} (h : b.lock = .free) {batch : List (Command V)}
    (hn : (batch.map Command.key).Nodup) (hg : ∀ c ∈ batch, c.method ≠ .get)
    (hm : ∀ c ∈ batch, c.Met b.contents) :
    ∃ b', b.executeAll batch = .ok b' ∧ b'.contents = b.contents.applyAll batch := by
  induction batch generalizing b with
  | nil => exact ⟨b, rfl, rfl⟩
  | cons c batch ih =>
    rw [List.map_cons, List.nodup_cons] at hn
    obtain ⟨hr, hl, hc⟩ := execute_of_met h (hg c List.mem_cons_self) (hm c List.mem_cons_self)
    obtain ⟨b', hb, hb'⟩ := ih hl hn.2 (fun d hd => hg d (List.mem_cons_of_mem _ hd))
      fun d hd e he => by
        have hne : d.key ≠ c.key := fun he => hn.1 (he ▸ List.mem_map_of_mem hd)
        obtain ⟨v, hv, hve⟩ := hm d (List.mem_cons_of_mem _ hd) e he
        exact ⟨v, by rw [hc, Contents.apply, Contents.put_of_ne _ _ hne, hv], hve⟩
    refine ⟨b', ?_, ?_⟩
    · rw [executeAll, hr]
      exact hb
    · rw [hb', hc, Contents.applyAll_cons]

/-- A conditional write is refused for its condition where the key has another payload. -/
theorem setCond_conditionFailed_iff {b : Baseline V} (h : b.lock = .free) {k : Key} {v e : V} :
    (b.setCond k v e).reply = .error (.conditionFailed k) ↔
      ∃ p, b.contents k = some p ∧ ¬ (p == e) = true := by
  constructor
  · intro hr
    refine Classical.byContradiction fun hn => ?_
    simp only [not_exists, not_and, Classical.not_not] at hn
    rw [setCond_of_met h v hn] at hr
    cases hr
  · rintro ⟨p, hp, he⟩
    rw [setCond_of_unmet h v hp he]

end Baseline

namespace World

section
variable [BEq V] {w : World V} {i : Nat} {st : Store V} {who : Holder} {batch : List (Command V)}

/-- A batch without reads is committed right after it was acquired, and changes the contents that
were there before. -/
theorem Reachable.commit_acquired (h : w.Reachable) (hi : w.store? i = some st) {locks : LockSet}
    (hr : (w.step (.acquire who i batch)).reply = .done (.locks locks))
    (hg : ∀ c ∈ batch, c.method ≠ .get) :
    Store.Lockable st.cells batch ∧
    ((w.step (.acquire who i batch)).state.step (.resolve .commit who i batch)).reply =
        .done .done ∧
      ∃ st', ((w.step (.acquire who i batch)).state.step
          (.resolve .commit who i batch)).state.store? i = some st' ∧
        st'.contents = Contents.applyAll st.contents batch := by
  have h₁ : (w.step (.acquire who i batch)).state.Reachable := h.step _
  have he := w.step_effect (.acquire who i batch)
  rw [hr] at he
  obtain ⟨s, hs, hok, hi₁, hm, rfl, hu⟩ := he.acquire_done
  obtain rfl : s = st := Option.some.inj (hs.symm.trans hi)
  obtain ⟨-, -, hlock, ⟨-, -, hk⟩, -⟩ := Store.acquire_ok hok
  obtain ⟨hrun, hcont⟩ := h₁.owned.commit_returns hm hi₁ hu hlock.distinct hk hg
  obtain ⟨hst, hdone⟩ := h₁.owned.step_resolve hm hi₁ hu .commit batch
  exact ⟨hlock, hdone hrun, _, hst, hcont.trans (by rw [Store.contents_acquire])⟩

/-- Where nobody has anything, only a condition that does not hold keeps a batch with distinct keys
from being acquired. -/
theorem Reachable.acquire_refused_iff (h : w.Reachable) (hi : w.store? i = some st)
    (hrest : w.AtRest i st) (hw : who ∉ w.parties) (hb : batch ≠ [])
    (hn : (batch.map Command.key).Nodup) :
    (∃ f, (w.step (.acquire who i batch)).reply = .refused f) ↔
      ∃ c ∈ batch, ¬ c.Met st.contents := by
  have hq := h.quiet hi hrest
  rw [(w.step_effect (.acquire who i batch)).acquire_reply hi hw]
  cases hr : (st.acquire who batch).reply with
  | error f =>
    refine iff_of_true ⟨f, rfl⟩ ?_
    rcases acquire_error_of_free hq.free hr with ⟨-, hb'⟩ |
      ⟨done, c, rest, rfl, -, ⟨hk, -⟩ | ⟨-, hs, -⟩⟩
    · exact absurd hb' hb
    · exact absurd hk (Command.key_not_mem_of_nodup hn List.mem_cons_self)
    · exact ⟨c, by simp, fun hm => hs ((hq.sound.satisfied_iff c).2 hm)⟩
  | ok locks =>
    refine iff_of_false (fun ⟨f, hf⟩ => by cases hf) ?_
    rintro ⟨c, hc, hm⟩
    exact hm ((hq.sound.satisfied_iff c).1 ((Store.acquire_ok hr).2.2.1.satisfied c hc))

/-- A batch that is acquired and committed at once does what its commands do on the baseline one by
one, in any order.  Without a live lock set it cannot be acquired exactly if one of its conditions
is on an absent key or would fail on the baseline. -/
theorem committed_as_sequence (h : w.Reachable) (hi : w.store? i = some st) {b : Baseline V}
    (hl : b.lock = .free) (hb : b.contents = st.contents) (who : Holder) (batch : List (Command V))
    (hg : ∀ c ∈ batch, c.method ≠ .get) :
    (∀ locks order, (w.step (.acquire who i batch)).reply = .done (.locks locks) →
      order.Perm batch →
      ((w.step (.acquire who i batch)).state.step (.resolve .commit who i batch)).reply =
          .done .done ∧
        ∃ st' b', ((w.step (.acquire who i batch)).state.step
            (.resolve .commit who i batch)).state.store? i = some st' ∧
          b.executeAll order = .ok b' ∧ b'.contents = st'.contents) ∧
    (w.AtRest i st → who ∉ w.parties → batch ≠ [] → (batch.map Command.key).Nodup →
      ((∃ f, (w.step (.acquire who i batch)).reply = .refused f) ↔
        ∃ k v e, .set k v (some e) ∈ batch ∧ (st.contents k = none ∨
          (b.setCond k v e).reply = .error (.conditionFailed k)))) := by
  constructor
  · intro locks order hr hp
    obtain ⟨hlock, hdone, st', hi', hst'⟩ := h.commit_acquired hi hr hg
    have hn : (order.map Command.key).Nodup := (hp.map Command.key).nodup_iff.2 hlock.distinct
    have hm : ∀ c ∈ order, c.Met b.contents := fun c hc => by
      rw [hb]
      exact ((h.sound i st hi).satisfied_iff c).1 (hlock.satisfied c (hp.mem_iff.1 hc))
    obtain ⟨b', hb', hc'⟩ := Baseline.executeAll_of_met hl hn (fun c hc => hg c (hp.mem_iff.1 hc)) hm
    refine ⟨hdone, st', b', hi', hb', ?_⟩
    rw [hc', hb, hst', Contents.applyAll_perm _ hlock.distinct hp]
  · intro hrest hw hne hn
    rw [h.acquire_refused_iff hi hrest hw hne hn]
    constructor
    · rintro ⟨c, hc, hm⟩
      simp only [Command.Met, Classical.not_forall] at hm
      obtain ⟨e, he, hm⟩ := hm
      cases c with
      | set k v expected =>
        obtain rfl : expected = some e := he
        refine ⟨k, v, e, hc, ?_⟩
        rw [Baseline.setCond_conditionFailed_iff hl, hb]
        cases hp : st.contents k with
        | none => exact .inl rfl
        | some p => exact .inr ⟨p, rfl, fun hpe => hm ⟨p, hp, hpe⟩⟩
      | _ => cases he
    · rintro ⟨k, v, e, hc, hf⟩
      refine ⟨_, hc, fun hm => ?_⟩
      obtain ⟨p, hp, he⟩ := hm e rfl
      replace hp : st.contents k = some p := hp
      rw [Baseline.setCond_conditionFailed_iff hl, hb, hp] at hf
      rcases hf with hf | ⟨p', hp', he'⟩
      · cases hf
      · exact he' (Option.some.inj hp' ▸ he)

end

/-- A batch in the other order, and a batch that expects a payload of the key of a placeholder. -/
theorem committed_as_sequence_dropped : ∃ (w : World Nat) (locks : LockSet) (st st' : Store Nat)
    (b b' : Baseline Nat) (f : Fault), w.store? 0 = some st ∧ b.contents = st.contents ∧
    (w.step (.acquire (.named "y") 0 [.set "a" 5 (some 1), .del "b"])).reply =
      .done (.locks locks) ∧
    ((w.step (.acquire (.named "y") 0 [.set "a" 5 (some 1), .del "b"])).state.step
      (.resolve .commit (.named "y") 0 [.set "a" 5 (some 1), .del "b"])).state.store? 0 =
        some st' ∧
    b.executeAll [.del "b", .set "a" 5 (some 1)] = .ok b' ∧ b'.contents = st'.contents ∧
    (w.step (.acquire (.named "y") 0 [.set "b" 6 (some 2)])).reply = .refused f := by
  have hs : Reachable ⟨Session.single [("a", 1)], []⟩ := .start (Session.start_single [("a", 1)])
  obtain ⟨st, hi, hst⟩ := store_after_drop
  have h := hs.after [.acquire (.named "x") 0 [.del "a", .set "b" 2 none], .drop (.named "x")]
  obtain ⟨-, st', b', hi', hb', hc'⟩ := (committed_as_sequence h hi rfl hst.symm (.named "y")
    [.set "a" 5 (some 1), .del "b"] (by decide)).1 _ [.del "b", .set "a" 5 (some 1)] rfl
    (List.Perm.swap _ _ _)
  obtain ⟨f, hf⟩ := ((committed_as_sequence h hi rfl hst.symm (.named "y") [.set "b" 6 (some 2)]
    (by decide)).2 ⟨nofun, nofun⟩ (by decide) (by decide) (by decide)).2
    ⟨"b", 6, 2, by simp, .inl (hst ▸ rfl)⟩
  exact ⟨_, _, st, st', _, b', f, hi, hst.symm, rfl, hi', hb', hc', hf⟩

end World

end TwoPhaseStore
