import TwoPhaseStore.Proofs.Ownership
import TwoPhaseStore.Proofs.Store.Local

/-!
Clients on disjoint keys.  A move looks at nothing but the keys that it touches and what its party
has, and changes nothing else:

    w.AgreeOn K H u → u answers a move within `K` and `H` as `w` does       (Owned.step_local)
    a move that touches no key of `K` and is of no party in `H` leaves a world that
      agrees with `w` on `K` and `H`                                          (Effect.frame)

So of two programs that touch no common key, each finds at every turn what it would find alone,
however they are interleaved, and the keys outside of both stay as they are (`disjoint_commute`).
-/

namespace TwoPhaseStore

open Session (Resolution)

variable {V : Type}

namespace Move

/-- What a client does on the keys of the store of number `i`: an operation on one key, a phase of a
batch, or the drop of a lock set. -/
def OnKeys (i : Nat) : Move V → Prop
  | .call j c => j = i ∧ c.key? ≠ none
  | .acquire _ j _ => j = i
  | .resolve _ _ j _ => j = i
  | .drop _ => True
  | _ => False

/-- Whose move it is, if that matters. -/
def party? : Move V → Option Holder
  | .acquire who _ _ => some who
  | .resolve _ who _ _ => some who
  | .drop who => some who
  | .hold who _ _ => some who
  | .letGo who => some who
  | _ => none

end Move

namespace World

/-! ## Footprints -/

/-- The party has a lock set with this key. -/
def HasKey (w : World V) (who : Holder) (k : Key) : Prop :=
  ∃ locks ∈ w.locks, locks.holder = who ∧ locks.keys.contains k = true

/-- The keys that a move touches: the key of an operation, the keys of a batch that is acquired, and
those of the lock set that is ended. -/
def Touches (w : World V) (m : Move V) (k : Key) : Prop :=
  match m with
  | .call _ c => c.key? = some k
  | .acquire _ _ batch => k ∈ batch.map Command.key
  | .resolve _ who _ _ => w.HasKey who k
  | .drop who => w.HasKey who k
  | _ => False

/-- The keys that are touched by some moves. -/
def Footprint [BEq V] : List (Move V) → World V → Key → Prop
  | [], _, _ => False
  | m :: ms, w, k => w.Touches m k ∨ Footprint ms (w.step m).state k

/-- The worlds are the same on the keys of `K` and for the parties of `H`. -/
structure AgreeOn (K : Key → Prop) (H : Holder → Prop) (w u : World V) : Prop where
  bare : ∀ j, (u.store? j).map Store.bare = (w.store? j).map Store.bare
  slots : ∀ j k, K k → u.slot j k = w.slot j k
  locks : ∀ locks, H locks.holder → (locks ∈ u.locks ↔ locks ∈ w.locks)
  holds : u.holds = w.holds

section
variable {K : Key → Prop} {H : Holder → Prop} {w u v w' u' : World V} {i : Nat}

namespace AgreeOn

theorem refl (w : World V) : w.AgreeOn K H w :=
  ⟨fun _ => rfl, fun _ _ _ => rfl, fun _ _ => Iff.rfl, rfl⟩

theorem symm (h : w.AgreeOn K H u) : u.AgreeOn K H w :=
  ⟨fun j => (h.bare j).symm, fun j k hk => (h.slots j k hk).symm,
    fun locks hl => (h.locks locks hl).symm, h.holds.symm⟩

theorem trans (h : w.AgreeOn K H u) (h' : u.AgreeOn K H v) : w.AgreeOn K H v :=
  ⟨fun j => (h'.bare j).trans (h.bare j), fun j k hk => (h'.slots j k hk).trans (h.slots j k hk),
    fun locks hl => (h'.locks locks hl).trans (h.locks locks hl), h'.holds.trans h.holds⟩

/-- A store has its counterpart, which differs in other keys only. -/
theorem store {st : Store V} (h : w.AgreeOn K H u) (hi : w.store? i = some st) :
    ∃ st', u.store? i = some st' ∧ st'.bare = st.bare ∧
      ∀ k, K k → st'.cells.get? k = st.cells.get? k := by
  have hb := h.bare i
  rw [hi, Option.map_some, Option.map_eq_some_iff] at hb
  obtain ⟨st', hi', hb⟩ := hb
  refine ⟨st', hi', hb, fun k hk => ?_⟩
  rw [← slot_of_store hi', h.slots i k hk, slot_of_store hi]

theorem hasKey (h : w.AgreeOn K H u) {who : Holder} (hw : H who) (k : Key) :
    u.HasKey who k ↔ w.HasKey who k := by
  constructor
  · rintro ⟨locks, hm, rfl, hk⟩; exact ⟨locks, (h.locks locks hw).1 hm, rfl, hk⟩
  · rintro ⟨locks, hm, rfl, hk⟩; exact ⟨locks, (h.locks locks hw).2 hm, rfl, hk⟩

theorem mem_parties (h : w.AgreeOn K H u) {who : Holder} (hw : H who) :
    who ∈ u.parties ↔ who ∈ w.parties := by
  have hl : who ∈ u.locks.map (·.holder) ↔ who ∈ w.locks.map (·.holder) := by
    simp only [List.mem_map]
    constructor
    · rintro ⟨locks, hm, rfl⟩; exact ⟨locks, (h.locks locks hw).1 hm, rfl⟩
    · rintro ⟨locks, hm, rfl⟩; exact ⟨locks, (h.locks locks hw).2 hm, rfl⟩
  show who ∈ u.locks.map (·.holder) ++ u.holds.map (·.who) ↔
    who ∈ w.locks.map (·.holder) ++ w.holds.map (·.who)
  rw [List.mem_append, List.mem_append, hl, h.holds]

/-- One store is changed in both worlds. -/
theorem changes {st st' : Store V} (h : w.AgreeOn K H u) (hw : w.Changes w' i st)
    (hu : u.Changes u' i st') (hb : st'.bare = st.bare)
    (hk : ∀ k, K k → st'.cells.get? k = st.cells.get? k)
    (hl : ∀ locks, H locks.holder → (locks ∈ u'.locks ↔ locks ∈ w'.locks))
    (hh : u'.holds = w'.holds) : w'.AgreeOn K H u' := by
  refine ⟨fun j => ?_, fun j k hkk => ?_, hl, hh⟩
  · rw [hw j, hu j]
    split
    · exact congrArg some hb
    · exact h.bare j
  · rw [slot, slot, hw j, hu j]
    split
    · exact hk k hkk
    · exact h.slots j k hkk

/-- A lock set is let go in both worlds. -/
theorem forgotten {locks : LockSet} (h : w.AgreeOn K H u)
    (hw : ∀ j, w'.store? j = (w.store? j).map (·.forget locks))
    (hu : ∀ j, u'.store? j = (u.store? j).map (·.forget locks))
    (hl : ∀ locks, H locks.holder → (locks ∈ u'.locks ↔ locks ∈ w'.locks))
    (hh : u'.holds = w'.holds) : w'.AgreeOn K H u' := by
  have hf : ∀ o : Option (Store V), (o.map (·.forget locks)).map Store.bare = o.map Store.bare := by
    intro o
    rw [Option.map_map]
    exact congrArg (fun f => o.map f) (funext fun st => Store.forget_bare locks st)
  refine ⟨fun j => by rw [hw, hu, hf, hf]; exact h.bare j, fun j k hk => ?_, hl, hh⟩
  rw [slot, slot, hw, hu]
  cases hj : w.store? j with
  | none =>
    have hb := h.bare j
    rw [hj, Option.map_none, Option.map_eq_none_iff] at hb
    rw [hb]
  | some st =>
    obtain ⟨st', hj', hb, hs⟩ := h.store hj
    have hid : st'.id = st.id := Store.id_of_bare hb
    rw [hj']
    show (st'.forget locks).cells.get? k = (st.forget locks).cells.get? k
    rw [Store.get?_forget, Store.get?_forget, hid, hs k hk]

end AgreeOn

/-- A lock set that is let go changes its own keys only. -/
theorem agreeOn_forgotten {locks : LockSet} (hk : ∀ k, locks.keys.contains k = true → ¬ K k)
    (hs : ∀ j, w'.store? j = (w.store? j).map (·.forget locks))
    (hl : ∀ locks, H locks.holder → (locks ∈ w'.locks ↔ locks ∈ w.locks))
    (hh : w'.holds = w.holds) : w.AgreeOn K H w' := by
  refine ⟨fun j => ?_, fun j k hkk => ?_, hl, hh⟩
  · rw [hs, Option.map_map]
    exact congrArg (fun f => (w.store? j).map f) (funext fun st => Store.forget_bare locks st)
  · rw [slot, slot, hs]
    cases w.store? j with
    | none => rfl
    | some st => exact Store.forget_slot_of_not_mem fun _ hc => hk k hc hkk

/-- A party of `H` has the same lock set in both worlds. -/
theorem Owned.lockSet?_local (hw : w.Owned) (hu : u.Owned) (h : w.AgreeOn K H u) {who : Holder}
    (hh : H who) : u.session.lockSet? who = w.session.lockSet? who := by
  refine Option.ext fun locks => ?_
  constructor
  · intro hl
    obtain ⟨hm, rfl⟩ := Session.mem_of_lockSet? hl
    exact hw.lockSet?_eq ((h.locks locks hh).1 hm)
  · intro hl
    obtain ⟨hm, rfl⟩ := Session.mem_of_lockSet? hl
    exact hu.lockSet?_eq ((h.locks locks hh).2 hm)

theorem mem_filter_congr {locks : LockSet} (h : w.AgreeOn K H u)
    (hw : w'.locks = w.locks.filter (·.holder ≠ locks.holder))
    (hu : u'.locks = u.locks.filter (·.holder ≠ locks.holder)) (other : LockSet)
    (ho : H other.holder) : other ∈ u'.locks ↔ other ∈ w'.locks := by
  rw [hw, hu, List.mem_filter, List.mem_filter, h.locks other ho]

end

/-! ## Moves within a footprint, and moves outside of it -/

/-- The move is one on the keys of `K` by a party of `H`. -/
structure Within (w : World V) (i : Nat) (K : Key → Prop) (H : Holder → Prop) (m : Move V) :
    Prop where
  onKeys : m.OnKeys i
  touches : ∀ k, w.Touches m k → K k
  party : ∀ who, m.party? = some who → H who

section
variable [BEq V] {K K' : Key → Prop} {H H' : Holder → Prop} {w u w' : World V} {i : Nat}
  {m : Move V} {st : Store V}

omit [BEq V] in
theorem AgreeOn.within (h : w.AgreeOn K H u) (hm : w.Within i K H m) : u.Within i K H m := by
  refine ⟨hm.onKeys, fun k hk => hm.touches k ?_, hm.party⟩
  cases m with
  | resolve how who j batch => exact (h.hasKey (hm.party who rfl) k).1 hk
  | drop who => exact (h.hasKey (hm.party who rfl) k).1 hk
  | _ => exact hk

/-- Nobody ends a lock set that he does not have. -/
theorem step_of_noLocks {who : Holder} (hm : m.ends? = some who)
    (hn : w.session.lockSet? who = none) : w.step m = w.reply .noSuchLocks := by
  cases m with
  | resolve how who' j batch =>
    cases hm
    rw [step, Session.endAs, Session.withLocks, hn]
    rfl
  | drop who' =>
    cases hm
    rw [step, Session.dropAs, Session.withLocks, hn]
    rfl
  | _ => cases hm

theorem AgreeOn.call_local (h : w.AgreeOn K H u) (hi : w.store? i = some st) {c : Call V} {k : Key}
    (hc : c.key? = some k) (hk : K k) :
    (u.step (.call i c)).reply = (w.step (.call i c)).reply ∧
      (w.step (.call i c)).state.AgreeOn K H (u.step (.call i c)).state := by
  obtain ⟨st', hi', hb, hslot⟩ := h.store hi
  have he := w.step_effect (.call i c)
  have he' := u.step_effect (.call i c)
  have hr : (st'.call c).reply = (st.call c).reply := Store.call_reply_congr hc
    (Store.structureLock_of_bare hb) (congrArg Slot.cell (hslot k hk))
  obtain ⟨hst, hl, hh⟩ := he.call_state hi
  obtain ⟨hst', hl', hh'⟩ := he'.call_state hi'
  refine ⟨by rw [he.call_reply hi, he'.call_reply hi', hr], h.changes hst hst' ?_ (fun j hj => ?_)
    (fun locks ho => ?_) (hh'.trans (h.holds.trans hh.symm))⟩
  · rw [Store.call_bare, Store.call_bare, hb]
  · rw [Store.get?_call, Store.get?_call, hr, hslot j hj]
  · rw [hl', hl]
    exact h.locks locks ho

theorem AgreeOn.acquire_local (h : w.AgreeOn K H u) (hi : w.store? i = some st) {who : Holder}
    (hw : H who) {batch : List (Command V)} (hk : ∀ k ∈ batch.map Command.key, K k) :
    (u.step (.acquire who i batch)).reply = (w.step (.acquire who i batch)).reply ∧
      (w.step (.acquire who i batch)).state.AgreeOn K H (u.step (.acquire who i batch)).state := by
  by_cases hp : who ∈ w.parties
  · rw [step, step, if_pos hp, if_pos ((h.mem_parties hw).2 hp)]
    exact ⟨rfl, h⟩
  · have hp' : who ∉ u.parties := fun hn => hp ((h.mem_parties hw).1 hn)
    obtain ⟨st', hi', hb, hslot⟩ := h.store hi
    have he := w.step_effect (.acquire who i batch)
    have he' := u.step_effect (.acquire who i batch)
    have hr : (st'.acquire who batch).reply = (st.acquire who batch).reply :=
      Store.acquire_reply_of_id (Store.id_of_bare hb) (Store.structureLock_of_bare hb) fun c hc =>
        congrArg Slot.cell (hslot c.key (hk c.key (List.mem_map_of_mem hc)))
    obtain ⟨hst, hh, hl⟩ := he.acquire_state hi hp
    obtain ⟨hst', hh', hl'⟩ := he'.acquire_state hi' hp'
    refine ⟨by rw [he.acquire_reply hi hp, he'.acquire_reply hi' hp', hr], h.changes hst hst' ?_
      (fun j hj => ?_) (fun locks ho => ?_) (hh'.trans (h.holds.trans hh.symm))⟩
    · rw [Store.acquire_bare, Store.acquire_bare, hb]
    · rw [Store.get?_acquire, Store.get?_acquire, hr, hslot j hj]
    · rw [hl', hl, hr, h.locks locks ho]

section
variable (hw : w.Owned) (hu : u.Owned) (h : w.AgreeOn K H u)

include hw hu h

theorem Owned.resolve_local (hi : w.store? i = some st) (how : Resolution)
    (batch : List (Command V)) {locks : LockSet} (hm : locks ∈ w.locks) (hm' : locks ∈ u.locks) :
    (u.step (.resolve how locks.holder i batch)).reply =
        (w.step (.resolve how locks.holder i batch)).reply ∧
      (w.step (.resolve how locks.holder i batch)).state.AgreeOn K H
        (u.step (.resolve how locks.holder i batch)).state := by
  obtain ⟨st', hi', hb, hslot⟩ := h.store hi
  have hid : st'.id = st.id := Store.id_of_bare hb
  obtain ⟨ho, hl, hh, hown, hforeign⟩ :=
    hw.resolve_state hm hi (w.step_effect (.resolve how locks.holder i batch))
  obtain ⟨ho', hl', hh', hown', hforeign'⟩ :=
    hu.resolve_state hm' hi' (u.step_effect (.resolve how locks.holder i batch))
  have hlocks := mem_filter_congr h hl hl'
  have hholds := hh'.trans (h.holds.trans hh.symm)
  rw [ho, ho']
  by_cases his : locks.issuer = st.id
  · have his' : locks.issuer = st'.id := his.trans hid.symm
    have hset : locks = ⟨st.id, locks.holder, locks.keys⟩ := his ▸ rfl
    have hset' : locks = ⟨st'.id, locks.holder, locks.keys⟩ := his' ▸ rfl
    obtain ⟨hr, -, hrun⟩ := Store.run_congr how batch locks.holder locks.keys
      (fun _ => hw.linked hi hm his) fun _ => hu.linked hi' hm' his'
    rw [← hset, ← hset'] at hr
    rw [← hset, ← hset'] at hrun
    refine ⟨by rw [hr], h.changes (hown his) (hown' his') ?_ (fun k hk => hrun k (hslot k hk))
      hlocks hholds⟩
    rw [Store.run_bare, Store.run_bare, hb]
  · have his' : locks.issuer ≠ st'.id := fun hn => his (hn.trans hid)
    refine ⟨?_, h.forgotten (hforeign his) (hforeign' his') hlocks hholds⟩
    rw [(Store.run_foreign his).2, (Store.run_foreign his').2, hid]

theorem Owned.drop_local {locks : LockSet} (hm : locks ∈ w.locks) (hm' : locks ∈ u.locks) :
    (u.step (.drop locks.holder)).reply = (w.step (.drop locks.holder)).reply ∧
      (w.step (.drop locks.holder)).state.AgreeOn K H (u.step (.drop locks.holder)).state := by
  obtain ⟨ho, hl, hh, hst⟩ := hw.drop_state hm (w.step_effect (.drop locks.holder))
  obtain ⟨ho', hl', hh', hst'⟩ := hu.drop_state hm' (u.step_effect (.drop locks.holder))
  exact ⟨by rw [ho, ho'], h.forgotten hst hst' (mem_filter_congr h hl hl')
    (hh'.trans (h.holds.trans hh.symm))⟩

/-- A party ends the same lock set in both worlds, or has none in either. -/
theorem Owned.ends_local {who : Holder} (hm : m.ends? = some who) (hh : H who)
    (hl : ∀ locks ∈ w.locks, locks ∈ u.locks → locks.holder = who →
      (u.step m).reply = (w.step m).reply ∧ (w.step m).state.AgreeOn K H (u.step m).state) :
    (u.step m).reply = (w.step m).reply ∧ (w.step m).state.AgreeOn K H (u.step m).state := by
  have hs := hw.lockSet?_local hu h hh
  cases hf : w.session.lockSet? who with
  | none =>
    rw [step_of_noLocks hm hf, step_of_noLocks hm (hs.trans hf)]
    exact ⟨rfl, h⟩
  | some locks =>
    obtain ⟨hmem, he⟩ := Session.mem_of_lockSet? hf
    exact hl locks hmem (Session.mem_of_lockSet? (hs.trans hf)).1 he

/-- Where worlds agree on what a move is about, it is answered alike, and they agree after it. -/
theorem Owned.step_local (hi : w.store? i = some st) (hm : w.Within i K H m) :
    (u.step m).reply = (w.step m).reply ∧ (w.step m).state.AgreeOn K H (u.step m).state := by
  cases m with
  | call j c =>
    obtain ⟨rfl, hc⟩ := hm.onKeys
    obtain ⟨k, hc⟩ := Option.ne_none_iff_exists'.1 hc
    exact h.call_local hi hc (hm.touches k hc)
  | acquire who j batch =>
    obtain rfl : j = i := hm.onKeys
    exact h.acquire_local hi (hm.party who rfl) hm.touches
  | resolve how who j batch =>
    obtain rfl : j = i := hm.onKeys
    refine hw.ends_local hu h rfl (hm.party who rfl) fun locks hmem hmem' he => ?_
    subst he
    exact hw.resolve_local hu h hi how batch hmem hmem'
  | drop who =>
    refine hw.ends_local hu h rfl (hm.party who rfl) fun locks hmem hmem' he => ?_
    subst he
    exact hw.drop_local hu h hmem hmem'
  | _ => exact hm.onKeys.elim

end

/-- A move within other keys and for other parties changes nothing on these. -/
theorem Effect.frame {o : Outcome V} (he : w.Effect m o w') (hw : w.Owned)
    (hm : w.Within i K' H' m) (hk : ∀ k, K' k → ¬ K k) (hh : ∀ who, H' who → ¬ H who) :
    w.AgreeOn K H w' := by
  -- a lock set that is retired belongs to a party of the move
  have hret : ∀ {locks : LockSet} {w' : World V}, H' locks.holder →
      w'.locks = w.locks.filter (·.holder ≠ locks.holder) →
      ∀ other : LockSet, H other.holder → (other ∈ w'.locks ↔ other ∈ w.locks) := by
    intro locks w' hp hl other ho
    rw [hl, List.mem_filter]
    refine and_iff_left (decide_eq_true fun he => ?_)
    exact hh _ hp (he ▸ ho)
  cases he with
  | idle h hs =>
    exact ⟨fun j => congrArg _ (hs.stores j), fun j k _ => by rw [slot, slot, hs.stores],
      fun locks _ => by rw [hs.locks], hs.holds⟩
  | @called j c _ s hj hst hl hh' =>
    refine (AgreeOn.refl w).changes (changes_self hj) hst (Store.call_bare _ _) (fun k hkk => ?_)
      (fun locks _ => by rw [hl]) hh'
    have hne : c.written? ≠ some k := fun hc => hk k (hm.touches k ?_) hkk
    · rw [Store.get?_call, Call.effect, if_neg hne, ite_self]
    · cases c <;> first | exact hc | cases hc
  | @acquired who j batch _ s locks hp hj hr hst hl hh' =>
    obtain ⟨-, -, -, ⟨-, rfl, -⟩, -⟩ := Store.acquire_ok hr
    refine (AgreeOn.refl w).changes (changes_self hj) hst (Store.acquire_bare _ _ _)
      (fun k hkk => ?_) (fun other ho => ?_) hh'
    · rw [Store.get?_acquire, if_neg fun hc => hk k (hm.touches k hc.2) hkk]
    · rw [hl, List.mem_cons]
      refine or_iff_right fun he => ?_
      exact hh _ (hm.party _ rfl) (he ▸ ho)
  | @resolved how j batch _ _ s locks hmem hj hu hst hl hh' =>
    refine (AgreeOn.refl w).changes (changes_self hj) hst (Store.run_bare _ _ _ _) (fun k hkk => ?_)
      (hret (hm.party _ rfl) hl) hh'
    obtain ⟨done, rest, hres⟩ := hw.exists_resolves hj hmem hu how batch
    exact hres.slot_of_not_mem fun hc => hk k (hm.touches k ⟨locks, hmem, rfl, hc⟩) hkk
  | forgotten locks hmem hst hl hh' ho =>
    have hin : (∀ k, locks.keys.contains k = true → K' k) ∧ H' locks.holder := by
      rcases ho with ⟨rfl, -⟩ | ⟨how, j, batch, s, rfl, -⟩
      · exact ⟨fun k hc => hm.touches k ⟨locks, hmem, rfl, hc⟩, hm.party _ rfl⟩
      · exact ⟨fun k hc => hm.touches k ⟨locks, hmem, rfl, hc⟩, hm.party _ rfl⟩
    exact agreeOn_forgotten (fun k hc => hk k (hin.1 k hc)) hst (hret hin.2 hl) hh'
  | held _ _ _ _ _ _ _ _ => exact hm.onKeys.elim
  | heldBaseline _ _ _ _ _ => exact hm.onKeys.elim
  | letGo _ _ _ _ _ => exact hm.onKeys.elim

/-! ## Interleavings -/

/-- What some moves are answered. -/
def outcomes (ms : List (Move V)) (w : World V) : List (Outcome V) := (w.trace ms).map (·.2)

/-- Two programs move in turn, in some order, and get these outcomes. -/
inductive Interleaved : List (Move V) → List (Move V) → World V →
    List (Outcome V) → List (Outcome V) → World V → Prop where
  | nil (w : World V) : Interleaved [] [] w [] [] w
  | left {p q : List (Move V)} {w w' : World V} {os ps : List (Outcome V)} (m : Move V)
    (h : Interleaved p q (w.step m).state os ps w') :
    Interleaved (m :: p) q w ((w.step m).reply :: os) ps w'
  | right {p q : List (Move V)} {w w' : World V} {os ps : List (Outcome V)} (m : Move V)
    (h : Interleaved p q (w.step m).state os ps w') :
    Interleaved p (m :: q) w os ((w.step m).reply :: ps) w'

/-- One program after the other is an interleaving too. -/
theorem interleaved_sequential (p q : List (Move V)) (w : World V) :
    Interleaved p q w (w.outcomes p) ((w.after p).outcomes q) ((w.after p).after q) := by
  induction p generalizing w with
  | nil =>
    induction q generalizing w with
    | nil => exact .nil w
    | cons m q ih => exact .right m (ih _)
  | cons m p ih => exact .left m (ih _)

theorem Interleaved.reachable {p q : List (Move V)} {os ps : List (Outcome V)}
    (h : Interleaved p q w os ps w') (hw : w.Reachable) : w'.Reachable := by
  induction h with
  | nil w => exact hw
  | left m h ih => exact ih (hw.step m)
  | right m h ih => exact ih (hw.step m)

/-- A program that runs alone stays within `K` and `H`. -/
def Stays (i : Nat) (K : Key → Prop) (H : Holder → Prop) : List (Move V) → World V → Prop
  | [], _ => True
  | m :: ms, w => w.Within i K H m ∧ Stays i K H ms (w.step m).state

theorem stays_of_footprint {p : List (Move V)} (hp : ∀ m ∈ p, m.OnKeys i)
    (hk : ∀ k, w.Footprint p k → K k) (hh : ∀ m ∈ p, ∀ who, m.party? = some who → H who) :
    w.Stays i K H p := by
  induction p generalizing w with
  | nil => trivial
  | cons m p ih =>
    refine ⟨⟨hp m List.mem_cons_self, fun k ht => hk k (.inl ht), hh m List.mem_cons_self⟩, ?_⟩
    exact ih (fun m' hm => hp m' (List.mem_cons_of_mem _ hm)) (fun k hf => hk k (.inr hf))
      fun m' hm => hh m' (List.mem_cons_of_mem _ hm)

/-- In an interleaving each program gets on as it does alone, and what is outside of both stays. -/
theorem Interleaved.alone {p q : List (Move V)} {os ps : List (Outcome V)}
    (h : Interleaved p q w os ps w') {v : World V} (hi : w.store? i = some st) (hw : w.Owned)
    (hu : u.Owned) (hv : v.Owned) (hwu : u.AgreeOn K H w) (hwv : v.AgreeOn K' H' w)
    (hp : u.Stays i K H p) (hq : v.Stays i K' H' q) (hk : ∀ k, K k → ¬ K' k)
    (hh : ∀ who, H who → ¬ H' who) :
    os = u.outcomes p ∧ ps = v.outcomes q ∧ (u.after p).AgreeOn K H w' ∧
      (v.after q).AgreeOn K' H' w' ∧
      w.AgreeOn (fun k => ¬ K k ∧ ¬ K' k) (fun who => ¬ H who ∧ ¬ H' who) w' := by
  induction h generalizing u v st with
  | nil w => exact ⟨rfl, rfl, hwu, hwv, .refl w⟩
  | @left p q w w' os ps m h ih =>
    obtain ⟨hm, hp⟩ := hp
    obtain ⟨su, hiu, -⟩ := hwu.symm.store hi
    obtain ⟨hr, hl⟩ := hu.step_local hw hwu hiu hm
    have he := w.step_effect m
    have hf := he.frame hw (hwu.within hm) hk hh
    obtain ⟨s, hi', -⟩ := he.store_after hi
    obtain ⟨hos, hps, hp', hq', hout⟩ := ih hi' (hw.step_owned he)
      (hu.step_owned (u.step_effect m)) hv hl (hwv.trans hf) hp hq
    refine ⟨by rw [hos, hr]; rfl, hps, hp', hq', .trans ?_ hout⟩
    exact he.frame hw (hwu.within hm) (fun k hkk hn => hn.1 hkk) fun who hho hn => hn.1 hho
  | @right p q w w' os ps m h ih =>
    obtain ⟨hm, hq⟩ := hq
    obtain ⟨sv, hiv, -⟩ := hwv.symm.store hi
    obtain ⟨hr, hl⟩ := hv.step_local hw hwv hiv hm
    have he := w.step_effect m
    have hf := he.frame hw (hwv.within hm) (fun k hkk' hkk => hk k hkk hkk')
      fun who hho' hho => hh who hho hho'
    obtain ⟨s, hi', -⟩ := he.store_after hi
    obtain ⟨hos, hps, hp', hq', hout⟩ := ih hi' (hw.step_owned he) hu
      (hv.step_owned (v.step_effect m)) (hwu.trans hf) hl hp hq
    refine ⟨hos, by rw [hps, hr]; rfl, hp', hq', .trans ?_ hout⟩
    exact he.frame hw (hwv.within hm) (fun k hkk hn => hn.2 hkk) fun who hho hn => hn.2 hho

end

/-! ## The final state -/

/-- The same stores with the same locks in them, the same live lock sets and the same holds. -/
structure SameState (w u : World V) : Prop where
  stores : ∀ j, u.store? j = w.store? j
  locks : u.locks.Perm w.locks
  holds : u.holds = w.holds

section
variable {K K' : Key → Prop} {H H' : Holder → Prop} {w u : World V}

/-- Worlds that agree on all parts are the same. -/
theorem AgreeOn.sameState (h : w.AgreeOn K H u) (h' : w.AgreeOn K' H' u)
    (ho : w.AgreeOn (fun k => ¬ K k ∧ ¬ K' k) (fun who => ¬ H who ∧ ¬ H' who) u) (hw : w.Owned)
    (hu : u.Owned) : w.SameState u := by
  have hslot : ∀ j k, u.slot j k = w.slot j k := by
    intro j k
    by_cases hk : K k
    · exact h.slots j k hk
    · by_cases hk' : K' k
      · exact h'.slots j k hk'
      · exact ho.slots j k ⟨hk, hk'⟩
  have hmem : ∀ locks, locks ∈ u.locks ↔ locks ∈ w.locks := by
    intro locks
    by_cases hh : H locks.holder
    · exact h.locks locks hh
    · by_cases hh' : H' locks.holder
      · exact h'.locks locks hh'
      · exact ho.locks locks ⟨hh, hh'⟩
  have hn : ∀ {w : World V}, w.Owned → w.locks.Nodup := fun hw =>
    (List.nodup_append.1 hw.parties).1.of_map _
  refine ⟨fun j => ?_, (List.perm_ext_iff_of_nodup (hn hu) (hn hw)).2 hmem, h.holds⟩
  have hb := h.bare j
  cases hj : w.store? j with
  | none => rwa [hj, Option.map_none, Option.map_eq_none_iff] at hb
  | some st =>
    rw [hj, Option.map_some, Option.map_eq_some_iff] at hb
    obtain ⟨st', hj', hb⟩ := hb
    rw [hj', Store.ext_cells hb fun k => ?_]
    rw [← slot_of_store hj, ← slot_of_store hj', hslot]

end

/-- Two programs on disjoint keys get in every interleaving what each gets alone, and leave the state
that the one leaves after the other.  A lock set is in one hand only: a party moves in one of the
programs. -/
theorem disjoint_commute [BEq V] {w w' : World V} (h : w.Reachable) {i : Nat} {st : Store V}
    (hi : w.store? i = some st) {p q : List (Move V)} (hp : ∀ m ∈ p, m.OnKeys i)
    (hq : ∀ m ∈ q, m.OnKeys i)
    (hh : ∀ m ∈ p, ∀ m' ∈ q, ∀ who, m.party? = some who → m'.party? ≠ some who)
    (hk : ∀ k, w.Footprint p k → ¬ w.Footprint q k) {os ps : List (Outcome V)}
    (hr : Interleaved p q w os ps w') :
    os = w.outcomes p ∧ ps = w.outcomes q ∧ ((w.after p).after q).SameState w' := by
  have hps : w.Stays i (w.Footprint p) (fun who => ∃ m ∈ p, m.party? = some who) p :=
    stays_of_footprint hp (fun _ hf => hf) fun m hm who he => ⟨m, hm, he⟩
  have hqs : w.Stays i (w.Footprint q) (fun who => ∃ m ∈ q, m.party? = some who) q :=
    stays_of_footprint hq (fun _ hf => hf) fun m hm who he => ⟨m, hm, he⟩
  have hh' : ∀ who, (∃ m ∈ p, m.party? = some who) → ¬ ∃ m ∈ q, m.party? = some who := by
    rintro who ⟨m, hm, he⟩ ⟨m', hm', he'⟩
    exact hh m hm m' hm' who he he'
  obtain ⟨hos, hqo, hap, haq, hout⟩ := hr.alone hi h.owned h.owned h.owned (.refl w) (.refl w)
    hps hqs hk hh'
  -- one after the other is an interleaving, and it ends where each program ends alone
  obtain ⟨-, -, hap', haq', hout'⟩ := (interleaved_sequential p q w).alone hi h.owned h.owned
    h.owned (.refl w) (.refl w) hps hqs hk hh'
  refine ⟨hos, hqo, (hap'.symm.trans hap).sameState (haq'.symm.trans haq) (hout'.symm.trans hout)
    ((h.after p).after q).owned (hr.reachable h).owned⟩

/-- A batch on one key, with a set and a dropped batch on two others in between. -/
theorem disjoint_commute_single : ∃ (os ps : List (Outcome Nat)) (w' : World Nat),
    let w : World Nat := ⟨Session.single [("a", 1)], []⟩
    let p : List (Move Nat) := [.acquire (.named "x") 0 [.set "a" 2 (some 1)],
      .resolve .commit (.named "x") 0 [.set "a" 2 (some 1)]]
    let q : List (Move Nat) := [.call 0 (.set "b" 5),
      .acquire (.named "y") 0 [.del "b", .set "c" 1 none], .drop (.named "y")]
    Interleaved p q w os ps w' ∧ os = w.outcomes p ∧ ps = w.outcomes q ∧
      ((w.after p).after q).SameState w' := by
  have hs : Reachable (⟨Session.single [("a", 1)], []⟩ : World Nat) :=
    .start (Session.start_single [("a", 1)])
  have hr := Interleaved.left (w := (⟨Session.single [("a", 1)], []⟩ : World Nat))
    (.acquire (.named "x") 0 [.set "a" 2 (some 1)]) <|
    .right (.call 0 (.set "b" 5)) <|
    .right (.acquire (.named "y") 0 [.del "b", .set "c" 1 none]) <|
    .left (.resolve .commit (.named "x") 0 [.set "a" 2 (some 1)]) <|
    .right (.drop (.named "y")) (.nil _)
  have hi : store? 0 (⟨Session.single [("a", 1)], []⟩ : World Nat) =
      some (.ofRows 1 Config.default.lockTimeout [("a", 1)]) := rfl
  refine ⟨_, _, _, hr, disjoint_commute hs hi ?_ ?_ ?_ (fun k hp hq => ?_) hr⟩
  · simp [Move.OnKeys]
  · simp [Move.OnKeys, Call.key?]
  · simp [Move.party?]
  · have hx : k = "a" := by
      rcases hp with hp | ⟨locks, hm, -, hk⟩ | hp
      · exact List.mem_singleton.1 hp
      · rw [List.mem_singleton.1 hm, Store.contains_ofList_keys] at hk
        exact List.mem_singleton.1 hk
      · exact hp.elim
    subst hx
    rcases hq with hq | hq | ⟨locks, hm, -, hk⟩ | hq
    · simp [Touches, Call.key?] at hq
    · simp [Touches, Command.key] at hq
    · rw [List.mem_singleton.1 hm, Store.contains_ofList_keys] at hk
      simp [Command.key] at hk
    · exact hq

end World

end TwoPhaseStore
