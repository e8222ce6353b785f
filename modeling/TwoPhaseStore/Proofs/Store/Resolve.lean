import TwoPhaseStore.Proofs.Contents
import TwoPhaseStore.Proofs.Lock
import TwoPhaseStore.Proofs.Store.Call
import TwoPhaseStore.Session.Basic

/-!
The end of a lock set, key by key.  Commit and abort go through the batch alike: they process its
commands in order up to the first that is not `Resolvable`, each processed command changes the slot
of its own key, and every other key of the lock set is let go as it is (`Resolves`):

    (how.run batch locks s).state.cells.get? j =
      resolvedSlot how locks done j (s.cells.get? j)       where batch = done ++ rest

Nothing but the lock set decides how far it goes: `done` is all of the batch and all of the keys
exactly if the resolution returns (`Settles`).
-/

namespace TwoPhaseStore

open Session (Resolution)

variable {V : Type}

namespace Session.Resolution

def one (how : Resolution) :
    Holder → Command V → Table (Cell V) → Table Unit → Store.Progress V :=
  match how with
  | .commit => Store.commitOne
  | .abort => Store.abortOne

def closing (how : Resolution) (n : Nat) : Event :=
  match how with
  | .commit => .batchCommitted n
  | .abort => .batchAborted n

theorem run_eq (how : Resolution) (batch : List (Command V)) (locks : LockSet) (s : Store V) :
    how.run batch locks s = s.resolve how.one (how.closing batch.length) batch locks := by
  cases how <;> rfl

/-- What a processed command leaves in the slot of its key. -/
def leaves (how : Resolution) (who : Holder) (c : Command V) (slot : Slot V) : Slot V :=
  match how, c with
  | .commit, .get _ => slot.map (·.release who)
  | .commit, .set _ v _ => slot.map fun cell => (cell.store v).release who
  | .commit, .del _ => none
  | .abort, _ => slot.bind fun cell => if cell.temporary then none else some (cell.release who)

/-- Whether a command can be processed: its key is held, and it is not a read at commit. -/
def Resolvable (how : Resolution) (held : Table Unit) (c : Command V) : Prop :=
  (how = .commit → c.method ≠ .get) ∧ held.contains c.key = true

/-- What is said of a command that cannot be processed. -/
def objection (how : Resolution) (c : Command V) : Violation :=
  match how, c with
  | .commit, .get k => .readCommitted k
  | _, c => .notHeld c.method c.key

theorem one_of_resolvable {how : Resolution} (who : Holder) {c : Command V}
    {cells : Table (Cell V)} {held : Table Unit} (h : how.Resolvable held c)
    (hl : cells.get? c.key ≠ none) :
    ∃ cells', how.one who c cells held = ⟨cells', held.erase c.key, none⟩ ∧ ∀ j, cells'.get? j =
      if j = c.key then how.leaves who c (cells.get? j) else cells.get? j := by
  obtain ⟨cell, hc⟩ := Option.ne_none_iff_exists'.1 hl
  cases how with
  | commit =>
    cases c with
    | get k => exact absurd rfl (h.1 rfl)
    | set k v e =>
      replace hc : cells.get? k = some cell := hc
      refine ⟨cells.insert k ((cell.store v).release who), ?_, fun j => ?_⟩
      · have hh : held.contains k = true := h.2
        simp only [one, Store.commitOne, if_pos hh, hc]
        rfl
      · rw [Table.get?_insert]
        by_cases hj : j = k
        · subst hj; simp [leaves, Command.key, hc]
        · simp [Command.key, hj]
    | del k =>
      refine ⟨cells.erase k, if_pos h.2, fun j => ?_⟩
      rw [Table.get?_erase]
      rfl
  | abort =>
    refine ⟨if cell.temporary then cells.erase c.key else cells.insert c.key (cell.release who),
      ?_, fun j => ?_⟩
    · simp only [one, Store.abortOne, if_pos h.2, hc]
    · by_cases hj : j = c.key
      · subst hj; cases ht : cell.temporary <;> simp [leaves, hc, ht]
      · cases ht : cell.temporary <;> simp [hj]

theorem one_of_not_resolvable {how : Resolution} {who : Holder} {c : Command V}
    {cells : Table (Cell V)} {held : Table Unit} (h : ¬ how.Resolvable held c) :
    how.one who c cells held = ⟨cells, held, some (how.objection c)⟩ := by
  cases how with
  | commit =>
    cases c with
    | get k => rfl
    | set k v e => exact if_neg fun hh => h ⟨fun _ => nofun, hh⟩
    | del k => exact if_neg fun hh => h ⟨fun _ => nofun, hh⟩
  | abort =>
    have hh : ¬ held.contains c.key = true := fun hh => h ⟨nofun, hh⟩
    show Store.abortOne who c cells held = _
    cases c <;> exact if_neg hh

end Session.Resolution

namespace Store

/-- What the processed commands leave in the slot of a key. -/
def settledSlot (how : Resolution) (who : Holder) (done : List (Command V)) (j : Key)
    (slot : Slot V) : Slot V :=
  match done.find? fun c => c.key = j with
  | some c => how.leaves who c slot
  | none => slot

/-- How far a batch got: `done` was processed, each key once, and `rest` was not. -/
structure Settles (how : Resolution) (who : Holder) (batch : List (Command V))
    (cells : Table (Cell V)) (held : Table Unit) (done rest : List (Command V))
    (p : Progress V) : Prop where
  split : batch = done ++ rest
  distinct : (done.map Command.key).Nodup
  resolvable : ∀ c ∈ done, how.Resolvable held c
  slots : ∀ j, p.cells.get? j = settledSlot how who done j (cells.get? j)
  held : ∀ k, p.held.contains k = true ↔ held.contains k = true ∧ k ∉ done.map Command.key
  /-- The batch was processed to its end, or its next command could not be. -/
  ending : rest = [] ∧ p.violation = Violation.ofLeftOver p.held.keys ∨
    ∃ c post, rest = c :: post ∧ ¬ how.Resolvable p.held c ∧ p.violation = some (how.objection c)

theorem settledSlot_of_not_mem {how : Resolution} {who : Holder} {done : List (Command V)}
    {j : Key} (h : j ∉ done.map Command.key) (slot : Slot V) :
    settledSlot how who done j slot = slot := by
  have hn : (done.find? fun c => c.key = j) = none := by
    simp only [List.find?_eq_none, decide_eq_true_eq]
    exact fun c hc he => h (he ▸ List.mem_map_of_mem hc)
  rw [settledSlot, hn]

theorem settledSlot_cons (how : Resolution) (who : Holder) (c : Command V)
    (done : List (Command V)) (j : Key) (slot : Slot V) :
    settledSlot how who (c :: done) j slot =
      if c.key = j then how.leaves who c slot else settledSlot how who done j slot := by
  unfold settledSlot
  by_cases h : c.key = j <;> simp [h]

theorem settle_cons_resolvable {how : Resolution} {who : Holder} {c : Command V}
    {batch : List (Command V)} {cells cells' : Table (Cell V)} {held held' : Table Unit}
    (h : how.one who c cells held = ⟨cells', held', none⟩) :
    settle (how.one who) (c :: batch) cells held = settle (how.one who) batch cells' held' := by
  rw [settle, h]

/-- A batch gets as far, and meets the same violation, in all tables that have the keys held. -/
theorem settle_settles (how : Resolution) (who : Holder) (batch : List (Command V))
    (held : Table Unit) :
    ∃ done rest v, (∀ a b, v ≠ some (.wrongStore a b)) ∧ ∀ cells : Table (Cell V),
      (∀ k, held.contains k = true → cells.get? k ≠ none) →
      Settles how who batch cells held done rest (settle (how.one who) batch cells held) ∧
        (settle (how.one who) batch cells held).violation = v := by
  induction batch generalizing held with
  | nil =>
    refine ⟨[], [], Violation.ofLeftOver held.keys, fun a b he => ?_, fun cells hl => ⟨?_, rfl⟩⟩
    · cases hh : held.keys <;> rw [hh] at he <;> cases he
    · exact ⟨rfl, List.nodup_nil, by simp, fun _ => rfl, by simp [settle], .inl ⟨rfl, rfl⟩⟩
  | cons c batch ih =>
    by_cases hr : how.Resolvable held c
    · obtain ⟨done, rest, v, hv, ih⟩ := ih (held.erase c.key)
      refine ⟨c :: done, rest, v, hv, fun cells hl => ?_⟩
      obtain ⟨cells', h1, hc⟩ := Session.Resolution.one_of_resolvable who hr (hl _ hr.2)
      have hl' : ∀ k, (held.erase c.key).contains k = true → cells'.get? k ≠ none := by
        intro k hk
        rw [Table.contains_erase] at hk
        rw [hc, if_neg hk.1]
        exact hl k hk.2
      obtain ⟨hs, hvio⟩ := ih cells' hl'
      have hd : c.key ∉ done.map Command.key := by
        intro hm
        obtain ⟨d, hd, he⟩ := List.mem_map.1 hm
        exact (Table.contains_erase.1 (hs.resolvable d hd).2).1 he
      rw [settle_cons_resolvable h1]
      refine ⟨⟨congrArg (c :: ·) hs.split, List.nodup_cons.2 ⟨hd, hs.distinct⟩,
        ?_, fun j => ?_, fun k => ?_, hs.ending⟩, hvio⟩
      · intro d hm
        rcases List.mem_cons.1 hm with rfl | hm
        · exact hr
        · exact ⟨(hs.resolvable d hm).1, (Table.contains_erase.1 (hs.resolvable d hm).2).2⟩
      · rw [hs.slots, hc, settledSlot_cons]
        by_cases hj : j = c.key
        · subst hj
          rw [if_pos rfl, if_pos rfl, settledSlot_of_not_mem hd]
        · rw [if_neg hj, if_neg fun he => hj he.symm]
      · rw [hs.held, Table.contains_erase, List.map_cons, List.mem_cons, not_or]
        constructor
        · rintro ⟨⟨hne, hk⟩, hn⟩; exact ⟨hk, hne, hn⟩
        · rintro ⟨hk, hne, hn⟩; exact ⟨⟨hne, hk⟩, hn⟩
    · have hp : ∀ cells : Table (Cell V), settle (how.one who) (c :: batch) cells held =
          ⟨cells, held, some (how.objection c)⟩ := by
        intro cells
        rw [settle, Session.Resolution.one_of_not_resolvable hr]
      refine ⟨[], c :: batch, some (how.objection c), fun a b he => ?_, fun cells hl => ?_⟩
      · cases how <;> cases c <;> cases he
      · rw [hp]
        exact ⟨⟨rfl, List.nodup_nil, by simp, fun _ => rfl, by simp,
          .inr ⟨c, batch, rfl, hr, rfl⟩⟩, rfl⟩

theorem get?_unlock (who : Holder) (held : Table Unit) (cells : Table (Cell V)) (j : Key) :
    (unlock who held cells).get? j =
      if held.contains j then (cells.get? j).map (·.release who) else cells.get? j := by
  rw [unlock, Table.get?_map]
  by_cases h : held.contains j = true
  · simp [h]
  · cases cells.get? j <;> simp [h]

/-! ## The end of a lock set -/

/-- What dropping a lock set leaves in the slot of a key. -/
def forgottenSlot (locks : LockSet) (j : Key) (slot : Slot V) : Slot V :=
  if locks.keys.contains j then slot.map (·.release locks.holder) else slot

/-- What the end of a lock set leaves in the slot of a key, when it processed `done`. -/
def resolvedSlot (how : Resolution) (locks : LockSet) (done : List (Command V)) (j : Key)
    (slot : Slot V) : Slot V :=
  if j ∈ done.map Command.key then settledSlot how locks.holder done j slot
  else forgottenSlot locks j slot

/-- How the end of a lock set went on the store that issued it: `done` was processed and `rest`
was not, and what was still held then was let go. -/
structure Resolves (how : Resolution) (batch : List (Command V)) (locks : LockSet) (s : Store V)
    (done rest : List (Command V)) : Prop where
  split : batch = done ++ rest
  distinct : (done.map Command.key).Nodup
  resolvable : ∀ c ∈ done, how.Resolvable locks.keys c
  cells : ∃ cells, (how.run batch locks s).state = { s with cells := cells } ∧
    ∀ j, cells.get? j = resolvedSlot how locks done j (s.cells.get? j)
  /-- The first command left over could not be processed: it is a read at commit, or its key is
  not held, or no longer. -/
  stuck : ∀ c post, rest = c :: post →
    how = .commit ∧ c.method = .get ∨ locks.keys.contains c.key = false ∨
      c.key ∈ done.map Command.key
  returns : (how.run batch locks s).reply = .ok () ↔
    rest = [] ∧ ∀ k, locks.keys.contains k = true → k ∈ done.map Command.key

/-- The end of a lock set comes to what its batch is settled to; what is still held after a
violation is let go. -/
theorem run_settle (how : Resolution) (batch : List (Command V)) (who : Holder)
    (keys : Table Unit) (s : Store V) {p : Progress V}
    (hp : settle (how.one who) batch s.cells keys = p) :
    (how.run batch ⟨s.id, who, keys⟩ s).reply = p.violation.elim (.ok ()) .error ∧
      (how.run batch ⟨s.id, who, keys⟩ s).state =
        { s with cells := p.violation.elim p.cells fun _ => unlock who p.held p.cells } := by
  rw [how.run_eq, resolve, if_pos rfl, hp]
  cases hv : p.violation with
  | none => simp [hv]
  | some v => simp [hv]

section
variable {how : Resolution} {batch done rest : List (Command V)} {who : Holder}
  {keys : Table Unit} {s : Store V} {p : Progress V}

theorem Settles.violation_eq_none {cells : Table (Cell V)}
    (h : Settles how who batch cells keys done rest p) : p.violation = none ↔
      rest = [] ∧ ∀ k, keys.contains k = true → k ∈ done.map Command.key := by
  rcases h.ending with ⟨hr, hv⟩ | ⟨c, post, hr, -, hv⟩
  · rw [hv, Violation.ofLeftOver_eq_none, Table.keys_eq_nil_iff]
    simp only [hr, true_and, ← Bool.not_eq_true, h.held, not_and, Classical.not_not]
  · simp [hv, hr]

theorem Settles.resolves (h : Settles how who batch s.cells keys done rest p)
    (hp : settle (how.one who) batch s.cells keys = p) :
    Resolves how batch ⟨s.id, who, keys⟩ s done rest := by
  obtain ⟨hreply, hstate⟩ := run_settle how batch who keys s hp
  refine ⟨h.split, h.distinct, h.resolvable, ⟨_, hstate, fun j => ?_⟩, fun c post hr => ?_, ?_⟩
  · cases hv : p.violation with
    | none =>
      have hall := (h.violation_eq_none.1 hv).2
      rw [Option.elim_none, h.slots, resolvedSlot]
      by_cases hd : j ∈ done.map Command.key
      · rw [if_pos hd]
      · rw [if_neg hd, forgottenSlot, if_neg fun hk => hd (hall j hk), settledSlot_of_not_mem hd]
    | some v =>
      rw [Option.elim_some, get?_unlock, h.slots, resolvedSlot]
      by_cases hd : j ∈ done.map Command.key
      · rw [if_pos hd, if_neg fun hk => ((h.held j).1 hk).2 hd]
      · rw [if_neg hd, forgottenSlot, settledSlot_of_not_mem hd]
        simp only [h.held, hd, not_false_eq_true, and_true]
  · rcases h.ending with ⟨hn, -⟩ | ⟨d, post', hd, hnr, -⟩
    · rw [hn] at hr; cases hr
    · rw [hd] at hr
      obtain ⟨rfl, rfl⟩ := List.cons.inj hr
      by_cases hm : how = .commit ∧ d.method = .get
      · exact .inl hm
      · have hn : ¬ p.held.contains d.key = true := fun hh =>
          hnr ⟨fun hc hg => hm ⟨hc, hg⟩, hh⟩
        rw [h.held, Classical.not_and_iff_not_or_not, Classical.not_not, Bool.not_eq_true] at hn
        exact .inr hn
  · rw [← h.violation_eq_none, hreply]
    cases p.violation <;> simp

end

/-- Nothing but the keys of a lock set decides how far its end goes and what is answered. -/
theorem run_determined (how : Resolution) (batch : List (Command V)) (who : Holder)
    (keys : Table Unit) :
    ∃ done rest r, (∀ a b, r ≠ .error (.wrongStore a b)) ∧ ∀ s : Store V,
      (∀ k, keys.contains k = true → s.cells.get? k ≠ none) →
      Resolves how batch ⟨s.id, who, keys⟩ s done rest ∧
        (how.run batch ⟨s.id, who, keys⟩ s).reply = r := by
  obtain ⟨done, rest, v, hv, hset⟩ := settle_settles how who batch keys
  refine ⟨done, rest, v.elim (.ok ()) .error, fun a b he => ?_, fun s hl => ?_⟩
  · cases v with
    | none => cases he
    | some v => exact hv a b (congrArg some (Except.error.inj he))
  · obtain ⟨h, hvio⟩ := hset s.cells hl
    exact ⟨h.resolves rfl, hvio ▸ (run_settle how batch who keys s rfl).1⟩

/-- What is answered, too, is decided by where the batch got to. -/
theorem run_answers (how : Resolution) (batch : List (Command V)) {locks : LockSet}
    {s : Store V} (hi : locks.issuer = s.id)
    (hl : ∀ k, locks.keys.contains k = true → s.cells.get? k ≠ none) :
    ∃ done rest, Resolves how batch locks s done rest ∧
      (∀ c post, rest = c :: post → (how.run batch locks s).reply = .error (how.objection c)) ∧
      (rest = [] → (how.run batch locks s).reply = .ok () ∨
        ∃ k ks, (∀ j, j ∈ k :: ks ↔ locks.keys.contains j = true ∧ j ∉ done.map Command.key) ∧
          (how.run batch locks s).reply = .error (.leftOver k ks)) := by
  obtain ⟨done, rest, _, -, hset⟩ := settle_settles how locks.holder batch locks.keys
  obtain ⟨h, -⟩ := hset s.cells hl
  have hlocks : locks = ⟨s.id, locks.holder, locks.keys⟩ := hi ▸ rfl
  rw [hlocks]
  have hreply := (run_settle how batch locks.holder locks.keys s rfl).1
  refine ⟨done, rest, h.resolves rfl, fun c post hr => ?_, fun hr => ?_⟩
  · rcases h.ending with ⟨hn, -⟩ | ⟨d, post', hd, -, hv⟩
    · rw [hn] at hr; cases hr
    · obtain ⟨rfl, -⟩ := List.cons.inj (hd.symm.trans hr)
      rw [hreply, hv]
      rfl
  · rcases h.ending with ⟨-, hv⟩ | ⟨c, post, hn, -⟩
    · rw [hreply, hv]
      cases hk : (settle (how.one locks.holder) batch s.cells locks.keys).held.keys with
      | nil => exact .inl rfl
      | cons k ks =>
        refine .inr ⟨k, ks, fun j => ?_, rfl⟩
        rw [← hk, ← Table.contains_iff_mem_keys, h.held]
    · rw [hn] at hr; cases hr

theorem run_resolves {how : Resolution} {batch : List (Command V)} {locks : LockSet}
    {s : Store V} (hi : locks.issuer = s.id)
    (hl : ∀ k, locks.keys.contains k = true → s.cells.get? k ≠ none) :
    ∃ done rest, Resolves how batch locks s done rest := by
  obtain ⟨done, rest, _, -, h⟩ := run_determined how batch locks.holder locks.keys
  have hlocks : locks = ⟨s.id, locks.holder, locks.keys⟩ := hi ▸ rfl
  rw [hlocks]
  exact ⟨done, rest, (h s hl).1⟩

theorem run_id (how : Resolution) (batch : List (Command V)) (locks : LockSet) (s : Store V) :
    (how.run batch locks s).state.id = s.id := by
  rw [how.run_eq, resolve]
  split
  · dsimp only
    split <;> rfl
  · rfl

theorem forget_id (locks : LockSet) (s : Store V) : (s.forget locks).id = s.id := by
  unfold forget
  split <;> rfl

/-- On another store than its issuer the end of a lock set is refused at once. -/
theorem run_foreign {how : Resolution} {batch : List (Command V)} {locks : LockSet}
    {s : Store V} (hi : locks.issuer ≠ s.id) :
    (how.run batch locks s).state = s ∧
      (how.run batch locks s).reply = .error (.wrongStore locks.issuer s.id) := by
  rw [how.run_eq, resolve, if_neg hi]
  exact ⟨rfl, rfl⟩

/-! ## Slots of a lock set that ended -/

theorem lock_release (who : Holder) (slot : Slot V) :
    Slot.lock (slot.map (·.release who)) = (Slot.lock slot).release who := by
  cases slot <;> rfl

theorem shown_release (who : Holder) (slot : Slot V) :
    Slot.shown (slot.map (·.release who)) = Slot.shown slot := by
  cases slot <;> rfl

theorem sound_release (who : Holder) {slot : Slot V} (h : Slot.Sound slot) :
    Slot.Sound (slot.map (·.release who)) := by
  cases slot with
  | none => exact h
  | some c =>
    have hc : c.temporary = c.payload.isNone := Slot.sound_some.1 h
    exact Slot.sound_some.2 hc

theorem lock_forgottenSlot {locks : LockSet} {j : Key} {slot : Slot V}
    (h : ¬ locks.keys.contains j = true → locks.holder ∉ (Slot.lock slot).holders) :
    Slot.lock (forgottenSlot locks j slot) = (Slot.lock slot).release locks.holder := by
  unfold forgottenSlot
  split
  · exact lock_release _ _
  · next hk => exact (Lock.release_of_not_mem (h hk)).symm

@[simp] theorem shown_forgottenSlot (locks : LockSet) (j : Key) (slot : Slot V) :
    Slot.shown (forgottenSlot locks j slot) = Slot.shown slot := by
  unfold forgottenSlot
  split
  · exact shown_release _ _
  · rfl

theorem sound_forgottenSlot (locks : LockSet) (j : Key) {slot : Slot V} (h : Slot.Sound slot) :
    Slot.Sound (forgottenSlot locks j slot) := by
  unfold forgottenSlot
  split
  · exact sound_release _ h
  · exact h

theorem get?_forget (locks : LockSet) (s : Store V) (j : Key) :
    (s.forget locks).cells.get? j =
      if locks.issuer = s.id then forgottenSlot locks j (s.cells.get? j) else s.cells.get? j := by
  unfold forget
  split
  · exact get?_unlock _ _ _ _
  · rfl

theorem forget_slot_of_not_mem {locks : LockSet} {s : Store V} {j : Key}
    (hj : locks.issuer = s.id → ¬ locks.keys.contains j = true) :
    (s.forget locks).cells.get? j = s.cells.get? j := by
  rw [get?_forget]
  split
  · next hu => rw [forgottenSlot, if_neg (hj hu)]
  · rfl

theorem sound_forget (locks : LockSet) {s : Store V} (h : s.Sound) : (s.forget locks).Sound := by
  intro j
  rw [get?_forget]
  split
  · exact sound_forgottenSlot locks j (h j)
  · exact h j

@[simp] theorem contents_forget (locks : LockSet) (s : Store V) :
    (s.forget locks).contents = s.contents := by
  funext j
  rw [contents_eq, get?_forget]
  split
  · rw [shown_forgottenSlot, contents_eq]
  · rw [contents_eq]

/-- A processed key is let go, whether its cell stays or not. -/
theorem lock_leaves {how : Resolution} {who : Holder} {c : Command V} {slot : Slot V}
    (h : Slot.lock slot = .exclusive who) : Slot.lock (how.leaves who c slot) = .free := by
  cases slot with
  | none => cases h
  | some cell =>
    have hr : cell.lock.release who = .free := by rw [show cell.lock = _ from h]; simp
    cases how with
    | commit => cases c <;> first | exact hr | rfl
    | abort => cases ht : cell.temporary <;> simp [Session.Resolution.leaves, ht, Cell.release, hr]

theorem sound_leaves {how : Resolution} {who : Holder} {c : Command V} {slot : Slot V}
    (h : Slot.Sound slot) : Slot.Sound (how.leaves who c slot) := by
  cases how with
  | commit =>
    cases c with
    | get k => exact sound_release who h
    | set k v e =>
      cases slot with
      | none => exact h
      | some cell => exact Slot.sound_some.2 rfl
    | del k => exact Slot.sound_none
  | abort =>
    cases slot with
    | none => exact h
    | some cell =>
      cases ht : cell.temporary with
      | true => simpa [Session.Resolution.leaves, ht] using Slot.sound_none
      | false =>
        simp only [Session.Resolution.leaves, Option.bind_some, ht]
        exact sound_release who h

/-- At abort, what counts stays. -/
theorem shown_leaves_abort (who : Holder) (c : Command V) (slot : Slot V) :
    Slot.shown (Resolution.abort.leaves who c slot) = Slot.shown slot := by
  cases slot with
  | none => rfl
  | some cell => cases ht : cell.temporary <;>
      simp [Session.Resolution.leaves, Slot.shown, Cell.release, ht]

/-- At commit, a linked key gets the payload of its command. -/
theorem shown_leaves_commit {who : Holder} {c : Command V} {slot : Slot V} (h : slot ≠ none) :
    Slot.shown (Resolution.commit.leaves who c slot) = c.result (Slot.shown slot) := by
  obtain ⟨cell, rfl⟩ := Option.ne_none_iff_exists'.1 h
  cases c <;> rfl

theorem settledSlot_of_mem {how : Resolution} {who : Holder} {done : List (Command V)}
    {c : Command V} (hn : (done.map Command.key).Nodup) (hc : c ∈ done) (slot : Slot V) :
    settledSlot how who done c.key slot = how.leaves who c slot := by
  induction done with
  | nil => cases hc
  | cons d done ih =>
    rw [List.map_cons, List.nodup_cons] at hn
    rw [settledSlot_cons]
    rcases List.mem_cons.1 hc with rfl | hc
    · rw [if_pos rfl]
    · have hne : d.key ≠ c.key := fun he => hn.1 (he ▸ List.mem_map_of_mem hc)
      rw [if_neg hne]
      exact ih hn.2 hc

section
variable {how : Resolution} {locks : LockSet} {batch done rest : List (Command V)} {s : Store V}
  (h : Resolves how batch locks s done rest)

include h

/-- The slot of a key is the one of a processed command, or it is let go as it is. -/
theorem resolvedSlot_cases (j : Key) :
    (∃ c ∈ done, c.key = j ∧ locks.keys.contains j = true ∧
      ∀ slot, resolvedSlot how locks done j slot = how.leaves locks.holder c slot) ∨
    j ∉ done.map Command.key ∧
      ∀ slot : Slot V, resolvedSlot how locks done j slot = forgottenSlot locks j slot := by
  by_cases hj : j ∈ done.map Command.key
  · obtain ⟨c, hc, rfl⟩ := List.mem_map.1 hj
    refine .inl ⟨c, hc, rfl, (h.resolvable c hc).2, fun slot => ?_⟩
    rw [resolvedSlot, if_pos hj]
    exact settledSlot_of_mem h.distinct hc slot
  · exact .inr ⟨hj, fun slot => if_neg hj⟩

theorem lock_resolvedSlot {j : Key} {slot : Slot V}
    (hl : locks.keys.contains j = true → Slot.lock slot = .exclusive locks.holder)
    (hn : ¬ locks.keys.contains j = true → locks.holder ∉ (Slot.lock slot).holders) :
    Slot.lock (resolvedSlot how locks done j slot) = (Slot.lock slot).release locks.holder := by
  rcases resolvedSlot_cases h j with ⟨c, -, -, hk, he⟩ | ⟨-, he⟩
  · rw [he, lock_leaves (hl hk), hl hk, Lock.release_exclusive_self]
  · rw [he]
    exact lock_forgottenSlot hn

theorem sound_resolvedSlot (j : Key) {slot : Slot V} (hs : Slot.Sound slot) :
    Slot.Sound (resolvedSlot how locks done j slot) := by
  rcases resolvedSlot_cases h j with ⟨c, -, -, -, he⟩ | ⟨-, he⟩
  · rw [he]; exact sound_leaves hs
  · rw [he]; exact sound_forgottenSlot locks j hs

end

/-- The end of a lock set leaves the slots of all other keys. -/
theorem Resolves.slot_of_not_mem {how : Resolution} {locks : LockSet}
    {batch done rest : List (Command V)} {s : Store V} (h : Resolves how batch locks s done rest)
    {j : Key} (hj : ¬ locks.keys.contains j = true) :
    (how.run batch locks s).state.cells.get? j = s.cells.get? j := by
  obtain ⟨cells, hst, hg⟩ := h.cells
  rw [hst, hg]
  rcases resolvedSlot_cases h j with ⟨c, -, -, hk, -⟩ | ⟨-, he⟩
  · exact absurd hk hj
  · rw [he, forgottenSlot, if_neg hj]

section
variable {how : Resolution} {locks : LockSet} {batch done rest : List (Command V)} {s : Store V}

/-- The keys that were locked can only be stopped by a read at commit. -/
theorem Resolves.stuck_at_get (h : Resolves how batch locks s done rest)
    (hn : (batch.map Command.key).Nodup)
    (hk : ∀ k, locks.keys.contains k = true ↔ k ∈ batch.map Command.key) {c : Command V}
    {post : List (Command V)} (hr : rest = c :: post) : how = .commit ∧ c.method = .get := by
  have hc : c ∈ rest := hr ▸ List.mem_cons_self
  rcases h.stuck c post hr with hget | hfree | hdone
  · exact hget
  · rw [(hk c.key).2 (List.mem_map_of_mem (h.split ▸ List.mem_append_right _ hc))] at hfree
    cases hfree
  · exact absurd hdone (Command.key_not_mem_of_nodup (h.split ▸ hn) hc)

/-- A commit of the keys that were locked is stopped by its first read only. -/
theorem Resolves.stopped_at_get (h : Resolves .commit batch locks s done rest)
    (hn : (batch.map Command.key).Nodup)
    (hk : ∀ k, locks.keys.contains k = true ↔ k ∈ batch.map Command.key) :
    (∀ c ∈ done, c.method ≠ .get) ∧ ∀ c post, rest = c :: post → c.method = .get :=
  ⟨fun c hc => (h.resolvable c hc).1 rfl, fun _ _ hr => (h.stuck_at_get hn hk hr).2⟩

/-- A resolution returns for the keys of its lock set, each named once, and without a read at
commit; it does not matter what else the commands say. -/
theorem Resolves.returns_iff (h : Resolves how batch locks s done rest) :
    (how.run batch locks s).reply = .ok () ↔
      (batch.map Command.key).Nodup ∧
      (∀ k, locks.keys.contains k = true ↔ k ∈ batch.map Command.key) ∧
      (how = .commit → ∀ c ∈ batch, c.method ≠ .get) := by
  have hbatch : rest = [] → batch = done := fun hr => by rw [h.split, hr, List.append_nil]
  rw [h.returns]
  constructor
  · rintro ⟨hr, hall⟩
    rw [hbatch hr]
    refine ⟨h.distinct, fun k => ⟨hall k, fun hk => ?_⟩, fun hc c hm => (h.resolvable c hm).1 hc⟩
    obtain ⟨c, hm, rfl⟩ := List.mem_map.1 hk
    exact (h.resolvable c hm).2
  · rintro ⟨hn, hk, hget⟩
    have hr : rest = [] := by
      cases hr : rest with
      | nil => rfl
      | cons c post =>
        obtain ⟨hc, hg⟩ := h.stuck_at_get hn hk hr
        exact absurd hg (hget hc c (by rw [h.split, hr]; simp))
    exact ⟨hr, fun k hm => hbatch hr ▸ (hk k).1 hm⟩

end

/-- An abort shows nothing, however it ends. -/
theorem Resolves.contents_abort {locks : LockSet} {batch done rest : List (Command V)}
    {s : Store V} (h : Resolves .abort batch locks s done rest) :
    (Resolution.abort.run batch locks s).state.contents = s.contents := by
  obtain ⟨cells, hst, hg⟩ := h.cells
  funext j
  rw [hst, contents_eq, contents_eq, hg]
  rcases resolvedSlot_cases h j with ⟨c, -, -, -, he⟩ | ⟨-, he⟩
  · rw [he, shown_leaves_abort]
  · rw [he, shown_forgottenSlot]

/-- A commit shows the commands that it processed, and nothing else. -/
theorem Resolves.contents_commit {locks : LockSet} {batch done rest : List (Command V)}
    {s : Store V} (h : Resolves .commit batch locks s done rest)
    (hl : ∀ k, locks.keys.contains k = true → s.cells.get? k ≠ none) :
    (Resolution.commit.run batch locks s).state.contents = Contents.applyAll s.contents done := by
  obtain ⟨cells, hst, hg⟩ := h.cells
  funext j
  rw [hst, contents_eq, hg]
  rcases resolvedSlot_cases h j with ⟨c, hc, rfl, hk, he⟩ | ⟨hj, he⟩
  · rw [he, shown_leaves_commit (hl _ hk), Contents.applyAll_of_mem _ h.distinct hc, contents_eq]
  · rw [he, shown_forgottenSlot, Contents.applyAll_of_not_mem _ hj, contents_eq]

end Store

end TwoPhaseStore
