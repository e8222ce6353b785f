import TwoPhaseStore.Proofs.Store.Hold
import TwoPhaseStore.Proofs.Store.Local

/-!
A batch that is undone.  An abort unlinks the placeholders of its lock set and lets go of the other
cells (`run_abort`); right after the acquire phase that takes back what the phase did, but for
orphans that it found (`undo_acquired`):

    (s.acquire who batch).reply = .ok locks →
      (s.acquire who batch).state.undo locks = s.unlinkOrphans (batch.map Command.key)

Whatever leaves the keys of the lock set alone can be done before or after the undoing, and comes to
the same (`undo_call`, `undo_acquire`, `undo_run`, `undo_forget`, `undo_hold?`, `undo_letGo`).  What
is done on these keys comes to nothing while they are locked (`call_state_of_locked` and the
others).
-/

namespace TwoPhaseStore

open Session (Resolution)

variable {V : Type}

namespace Cell

/-- What an abort leaves of a cell that `who` has locked. -/
def undone (who : Holder) (c : Cell V) : Option (Cell V) :=
  if c.temporary then none else some (c.release who)

/-- Whether a cell is a placeholder that nobody holds. -/
def isOrphan (c : Cell V) : Bool := c.temporary && c.lock.isFree

theorem undone_release (who other : Holder) (c : Cell V) :
    (c.release other).undone who = (c.undone who).map (·.release other) := by
  have hc : (c.release other).release who = (c.release who).release other :=
    congrArg (fun l => { c with lock := l }) (Lock.release_comm other who c.lock)
  have ht : (c.release other).temporary = c.temporary := rfl
  rw [undone, undone, ht, hc]
  split <;> rfl

end Cell

theorem Slot.undone_release (who other : Holder) (slot : Slot V) :
    (slot.map (·.release other)).bind (·.undone who) =
      (slot.bind (·.undone who)).map (·.release other) := by
  cases slot with
  | none => rfl
  | some c => exact c.undone_release who other

/-- A batch that found a slot unlocked leaves it as it was when it is undone, but for an orphan. -/
theorem Slot.undone_claimed (who : Holder) {slot : Slot V} (h : lock slot = .free) :
    (claimed who slot).bind (·.undone who) =
      slot.bind fun c => if c.isOrphan then none else some c := by
  cases slot with
  | none => rfl
  | some c =>
    have hl : c.lock = .free := h
    obtain ⟨payload, temporary, lock⟩ := c
    cases hl
    cases temporary <;> simp [claimed, cell, Cell.undone, Cell.isOrphan, Cell.release, Lock.isFree]

theorem Call.effect_of_ne {c : Call V} {k : Key} (h : c.key? ≠ some k) (slot : Slot V) :
    c.effect k slot = slot :=
  if_neg fun he => h (by cases c <;> first | exact he | cases he)

namespace Store

/-! ## Cells that are changed or unlinked -/

/-- Changes or unlinks the cells of some keys. -/
def prune (p : Key → Bool) (f : Cell V → Option (Cell V)) (s : Store V) : Store V :=
  { s with cells := s.cells.filterMap fun k c => if p k then f c else some c }

/-- Takes back what the acquire phase of a lock set has done, if this store issued it. -/
def undo (locks : LockSet) (s : Store V) : Store V :=
  if locks.issuer = s.id then s.prune locks.keys.contains (·.undone locks.holder) else s

def unlinkOrphans (keys : List Key) (s : Store V) : Store V :=
  s.prune (· ∈ keys) fun c => if c.isOrphan then none else some c

theorem get?_prune (p : Key → Bool) (f : Cell V → Option (Cell V)) (s : Store V) (j : Key) :
    (s.prune p f).cells.get? j = if p j then (s.cells.get? j).bind f else s.cells.get? j := by
  rw [prune, Table.get?_filterMap]
  by_cases hp : p j = true
  · simp [hp]
  · simp [hp]

/-- Without orphans there is nothing to unlink. -/
theorem unlinkOrphans_eq {keys : List Key} {s : Store V}
    (h : ∀ k ∈ keys, ∀ c, s.cells.get? k = some c → c.isOrphan = false) :
    s.unlinkOrphans keys = s := by
  refine ext_cells rfl fun j => ?_
  rw [unlinkOrphans, get?_prune]
  split
  · next hj =>
    cases hc : s.cells.get? j with
    | none => rfl
    | some c => simp [h j (of_decide_eq_true hj) c hc]
  · rfl

section
variable (locks : LockSet) (s : Store V)

@[simp] theorem undo_bare : (s.undo locks).bare = s.bare := by
  unfold undo
  split <;> rfl

@[simp] theorem undo_id : (s.undo locks).id = s.id := id_of_bare (s.undo_bare locks)

@[simp] theorem undo_structureLock : (s.undo locks).structureLock = s.structureLock :=
  structureLock_of_bare (s.undo_bare locks)

/-- The keys that a lock set holds in a store. -/
def Locked (j : Key) : Prop := locks.issuer = s.id ∧ locks.keys.contains j = true

theorem get?_undo_of_locked {locks : LockSet} {s : Store V} {j : Key} (h : s.Locked locks j) :
    (s.undo locks).cells.get? j = (s.cells.get? j).bind (·.undone locks.holder) := by
  rw [undo, if_pos h.1, get?_prune, if_pos h.2]

theorem get?_undo_of_not_locked {locks : LockSet} {s : Store V} {j : Key}
    (h : ¬ s.Locked locks j) : (s.undo locks).cells.get? j = s.cells.get? j := by
  rw [undo]
  split
  · next hu => rw [get?_prune, if_neg fun hk => h ⟨hu, hk⟩]
  · rfl

end

section
variable {locks : LockSet} {s : Store V}

/-- What leaves the keys of a lock set alone, and does the same elsewhere before and after the
undoing, can be exchanged with it. -/
theorem undo_frame {s' t' : Store V} (hs : s'.bare = s.bare) (ht : t'.bare = s.bare)
    (hk : ∀ j, s.Locked locks j → s'.cells.get? j = s.cells.get? j ∧
      t'.cells.get? j = (s.undo locks).cells.get? j)
    (ho : ∀ j, ¬ s.Locked locks j → t'.cells.get? j = s'.cells.get? j) :
    t' = s'.undo locks := by
  have hid : s'.id = s.id := id_of_bare hs
  refine ext_cells (by rw [ht, undo_bare, hs]) fun j => ?_
  by_cases hj : s.Locked locks j
  · have hj' : s'.Locked locks j := ⟨hj.1.trans hid.symm, hj.2⟩
    obtain ⟨hs', ht'⟩ := hk j hj
    rw [ht', get?_undo_of_locked hj, get?_undo_of_locked hj', hs']
  · have hj' : ¬ s'.Locked locks j := fun h => hj ⟨h.1.trans hid, h.2⟩
    rw [ho j hj, get?_undo_of_not_locked hj']

/-- The abort of a batch whose keys are those of the lock set. -/
theorem run_abort {batch : List (Command V)} (hu : locks.issuer = s.id)
    (hl : ∀ k, locks.keys.contains k = true → s.cells.get? k ≠ none)
    (hn : (batch.map Command.key).Nodup)
    (hk : ∀ k, locks.keys.contains k = true ↔ k ∈ batch.map Command.key) :
    (Resolution.abort.run batch locks s).reply = .ok () ∧
      (Resolution.abort.run batch locks s).state = s.undo locks := by
  obtain ⟨done, rest, h⟩ : ∃ done rest, Resolves .abort batch locks s done rest :=
    run_resolves hu hl
  have hret := h.returns_iff.2 ⟨hn, hk, fun he => by cases he⟩
  obtain ⟨rfl, -⟩ := h.returns.1 hret
  obtain rfl : batch = done := by rw [h.split, List.append_nil]
  refine ⟨hret, ?_⟩
  obtain ⟨cells, hst, hg⟩ := h.cells
  rw [hst]
  refine ext_cells (undo_bare locks s).symm fun j => ?_
  show cells.get? j = _
  rw [hg]
  rcases resolvedSlot_cases h j with ⟨c, -, -, hj, he⟩ | ⟨hj, he⟩
  · rw [he, get?_undo_of_locked ⟨hu, hj⟩]
    rfl
  · have hj' : ¬ locks.keys.contains j = true := fun hc => hj ((hk j).1 hc)
    rw [he, forgottenSlot, if_neg hj', get?_undo_of_not_locked fun hc => hj' hc.2]

/-- Undone at once, a batch leaves no trace but that orphans among its keys are gone. -/
theorem undo_acquired [BEq V] {who : Holder} {batch : List (Command V)}
    (h : (s.acquire who batch).reply = .ok locks) :
    (s.acquire who batch).state.undo locks = s.unlinkOrphans (batch.map Command.key) := by
  obtain ⟨-, -, hl, ⟨hu, rfl, hk⟩, -⟩ := acquire_ok h
  refine ext_cells (by rw [undo_bare, acquire_bare]; rfl) fun j => ?_
  rw [unlinkOrphans, get?_prune]
  by_cases hj : j ∈ batch.map Command.key
  · have hj' : (s.acquire locks.holder batch).state.Locked locks j :=
      ⟨hu.trans (acquire_id _ _ _).symm, (hk j).2 hj⟩
    have hf : Slot.lock (s.cells.get? j) = .free := by
      obtain ⟨c, hc, rfl⟩ := List.mem_map.1 hj
      exact hl.free c hc
    rw [get?_undo_of_locked hj', get?_acquire, h, if_pos ⟨rfl, hj⟩, if_pos (decide_eq_true hj),
      Slot.undone_claimed _ hf]
  · have hj' : ¬ (s.acquire locks.holder batch).state.Locked locks j :=
      fun hc => hj ((hk j).1 hc.2)
    rw [get?_undo_of_not_locked hj', get?_acquire, if_neg fun hc => hj hc.2,
      if_neg fun hc => hj (of_decide_eq_true hc)]

/-! ## What leaves the keys of the lock set alone -/

theorem cellAt_undo {k : Key} (hk : ¬ s.Locked locks k) : (s.undo locks).cellAt k = s.cellAt k :=
  congrArg Slot.cell (get?_undo_of_not_locked hk)

/-- A cell is put under another key. -/
theorem undo_insert {k : Key} (hk : ¬ s.Locked locks k) (c : Cell V) :
    { s.undo locks with cells := (s.undo locks).cells.insert k c } =
      { s with cells := s.cells.insert k c }.undo locks := by
  refine undo_frame (s := s) rfl (undo_bare locks s) (fun j hj => ?_) fun j hj => ?_
  · have hne : j ≠ k := fun he => hk (he ▸ hj)
    rw [Table.get?_insert, Table.get?_insert, if_neg hne, if_neg hne]
    exact ⟨rfl, rfl⟩
  · show ((s.undo locks).cells.insert k c).get? j = (s.cells.insert k c).get? j
    rw [Table.get?_insert, Table.get?_insert, get?_undo_of_not_locked hj]

section
variable [BEq V]

theorem undo_call {c : Call V} (hc : ∀ k, c.key? = some k → ¬ s.Locked locks k) :
    ((s.undo locks).call c).state = (s.call c).state.undo locks := by
  cases hk : c.key? with
  | none =>
    have hw : c.written? = none := by cases c <;> first | rfl | cases hk
    rw [call_of_reads hw, call_of_reads hw]
  | some k =>
    have hr : ((s.undo locks).call c).reply = (s.call c).reply :=
      call_reply_congr hk (s.undo_structureLock locks) (cellAt_undo (hc k hk))
    refine undo_frame (call_bare c s) (by rw [call_bare, undo_bare]) (fun j hj => ?_)
      fun j hj => ?_
    · have hne : c.key? ≠ some j := fun he => hc j he hj
      rw [get?_call, get?_call, Call.effect_of_ne hne, Call.effect_of_ne hne]
      simp only [ite_self, and_self]
    · rw [get?_call, get?_call, hr, get?_undo_of_not_locked hj]

theorem undo_acquire (who : Holder) {batch : List (Command V)}
    (hb : ∀ k ∈ batch.map Command.key, ¬ s.Locked locks k) :
    ((s.undo locks).acquire who batch).reply = (s.acquire who batch).reply ∧
      ((s.undo locks).acquire who batch).state = (s.acquire who batch).state.undo locks := by
  have hr : ((s.undo locks).acquire who batch).reply = (s.acquire who batch).reply :=
    acquire_reply_of_id (s.undo_id locks) (s.undo_structureLock locks) fun c hc =>
      cellAt_undo (hb c.key (List.mem_map_of_mem hc))
  refine ⟨hr, undo_frame (acquire_bare who batch s) (by rw [acquire_bare, undo_bare])
    (fun j hj => ?_) fun j hj => ?_⟩
  · have hne : j ∉ batch.map Command.key := fun hm => hb j hm hj
    rw [get?_acquire, get?_acquire, if_neg fun h => hne h.2, if_neg fun h => hne h.2]
    exact ⟨rfl, rfl⟩
  · rw [get?_acquire, get?_acquire, hr, get?_undo_of_not_locked hj]

end

/-- Another lock set of the store ends. -/
theorem undo_run (how : Resolution) (batch : List (Command V)) {other : LockSet}
    (hu : other.issuer = s.id) (hl : ∀ k, other.keys.contains k = true → s.cells.get? k ≠ none)
    (hd : ∀ k, other.keys.contains k = true → ¬ s.Locked locks k) :
    (how.run batch other (s.undo locks)).reply = (how.run batch other s).reply ∧
      (how.run batch other (s.undo locks)).state = (how.run batch other s).state.undo locks := by
  have hl' : ∀ k, other.keys.contains k = true → (s.undo locks).cells.get? k ≠ none := by
    intro k hk
    rw [get?_undo_of_not_locked (hd k hk)]
    exact hl k hk
  have hother : other = ⟨s.id, other.holder, other.keys⟩ := hu ▸ rfl
  have hother' : other = ⟨(s.undo locks).id, other.holder, other.keys⟩ := by
    rw [undo_id]
    exact hother
  obtain ⟨hr, -, hslot⟩ := run_congr how batch other.holder other.keys hl hl'
  rw [← hother, ← hother'] at hr hslot
  obtain ⟨_, _, h⟩ : ∃ done rest, Resolves how batch other s done rest := run_resolves hu hl
  obtain ⟨_, _, h'⟩ : ∃ done rest, Resolves how batch other (s.undo locks) done rest :=
    run_resolves (hu.trans (s.undo_id locks).symm) hl'
  refine ⟨hr, undo_frame (run_bare how batch other s) (by rw [run_bare, undo_bare])
    (fun j hj => ?_) fun j hj => hslot j (get?_undo_of_not_locked hj)⟩
  have hj' : ¬ other.keys.contains j = true := fun hc => hd j hc hj
  exact ⟨h.slot_of_not_mem hj', h'.slot_of_not_mem hj'⟩

/-- Another lock set is let go. -/
theorem undo_forget (other : LockSet) :
    (s.undo locks).forget other = (s.forget other).undo locks := by
  have hid : (s.forget other).id = s.id := forget_id other s
  refine ext_cells (by simp) fun j => ?_
  by_cases hj : s.Locked locks j
  · have hj' : (s.forget other).Locked locks j := ⟨hj.1.trans hid.symm, hj.2⟩
    rw [get?_undo_of_locked hj', get?_forget, get?_forget, get?_undo_of_locked hj, undo_id,
      forgottenSlot, forgottenSlot]
    split
    · split
      · exact (Slot.undone_release _ _ _).symm
      · rfl
    · rfl
  · have hj' : ¬ (s.forget other).Locked locks j := fun h => hj ⟨h.1.trans hid, h.2⟩
    rw [get?_undo_of_not_locked hj', get?_forget, get?_forget, get?_undo_of_not_locked hj, undo_id]

theorem letGo_bare {t : Store V} (h : t.bare = s.bare) (who : Holder) (mode : HoldMode) :
    (t.letGo who mode).bare = (s.letGo who mode).bare := by
  obtain ⟨id, timeout, lock, cells⟩ := s
  obtain ⟨id', timeout', lock', cells'⟩ := t
  cases h
  cases mode <;> rfl

/-- A party lets go of a hold. -/
theorem undo_letGo (who : Holder) (mode : HoldMode) :
    (s.undo locks).letGo who mode = (s.letGo who mode).undo locks := by
  have hid : (s.letGo who mode).id = s.id := by rw [letGo_eq, relock_id]
  have hb : ((s.undo locks).letGo who mode).bare = ((s.letGo who mode).undo locks).bare := by
    rw [undo_bare]
    exact letGo_bare (s.undo_bare locks) who mode
  refine ext_cells hb fun j => ?_
  rw [letGo_eq, get?_relock, letGo_eq]
  by_cases hj : s.Locked locks j
  · have hj' : (s.relock mode.key? (·.release who)).Locked locks j :=
      ⟨hj.1.trans (relock_id _ _ _).symm, hj.2⟩
    rw [get?_undo_of_locked hj', get?_relock, get?_undo_of_locked hj]
    split
    · exact (Slot.undone_release _ _ _).symm
    · rfl
  · have hj' : ¬ (s.relock mode.key? (·.release who)).Locked locks j :=
      fun h => hj ⟨h.1.trans (relock_id _ _ _), h.2⟩
    rw [get?_undo_of_not_locked hj', get?_relock, get?_undo_of_not_locked hj]

/-- What a hold of this mode would take is no key of the lock set, nor a copy that has one. -/
def Clear (locks : LockSet) (s : Store V) (mode : HoldMode) : Prop :=
  ∀ k, s.Locked locks k →
    mode.key? ≠ some k ∧ ∀ walk, mode = .shared walk → s.contents k = none

/-- A copy has no placeholders of the lock set, before or after they are unlinked. -/
theorem committed_undo
    (h : ∀ k c, s.Locked locks k → s.cells.get? k = some c → c.temporary = true) :
    (s.undo locks).committed = s.committed := by
  refine Rows.eq_of_mem_iff ((s.undo locks).cells.sorted.filter _) (s.cells.sorted.filter _)
    fun k c => mem_committed.trans (Iff.trans ?_ mem_committed.symm)
  by_cases hk : s.Locked locks k
  · rw [get?_undo_of_locked hk]
    constructor
    · rintro ⟨hc, -⟩
      obtain ⟨d, hd, hdc⟩ := Option.bind_eq_some_iff.1 hc
      rw [Cell.undone, if_pos (h k d hk hd)] at hdc
      cases hdc
    · rintro ⟨hc, ht⟩
      have ht' : c.temporary = true := h k c hk hc
      rw [ht] at ht'
      cases ht'
  · rw [get?_undo_of_not_locked hk]

theorem snapshot_undo (h : ∀ k c, s.Locked locks k → s.cells.get? k = some c → c.temporary = true)
    (walk : List Key) : ((s.undo locks).snapshot walk).reply = (s.snapshot walk).reply := by
  unfold snapshot unreadable copied
  rw [undo_structureLock, committed_undo h]
  split
  · split <;> rfl
  · rfl

theorem undo_setStructureLock (l : Lock) : { s.undo locks with structureLock := l } =
    { s with structureLock := l }.undo locks := by
  unfold undo
  split <;> rfl

/-- A party takes a hold. -/
theorem undo_hold? (hs : s.Sound) (who : Holder) {mode : HoldMode} (hc : s.Clear locks mode) :
    (s.undo locks).hold? who mode = (s.hold? who mode).map (·.map (·.undo locks)) := by
  have had : ∀ {t t' : Store V}, t = t' → (.ok (some t) : Except Fault (Option (Store V))) =
      .ok (some t') := fun h => congrArg (fun t => Except.ok (some t)) h
  cases mode with
  | exclusive =>
    simp only [hold?, undo_structureLock]
    cases s.structureLock.claim? who with
    | none => rfl
    | some l => exact had (undo_setStructureLock l)
  | shared walk =>
    have ht : ∀ k c, s.Locked locks k → s.cells.get? k = some c → c.temporary = true := by
      intro k c hk hkc
      rw [hs.temporary_eq hkc, (hc k hk).2 walk rfl]
      rfl
    simp only [hold?, snapshot_undo ht, undo_structureLock]
    cases (s.snapshot walk).reply with
    | error f => rfl
    | ok rows =>
      cases rows with
      | nil => rfl
      | cons r rows =>
        cases s.structureLock.share? who with
        | none => rfl
        | some l => exact had (undo_setStructureLock l)
  | readKey k =>
    have hk : ¬ s.Locked locks k := fun hk => (hc k hk).1 rfl
    have hr : ((s.undo locks).get k).reply = (s.get k).reply := by
      rw [get_reply, get_reply, undo_structureLock, cellAt_undo hk]
    simp only [hold?, hr, get?_undo_of_not_locked hk]
    cases (s.get k).reply with
    | error f => rfl
    | ok p =>
      cases p with
      | none => rfl
      | some v =>
        cases s.cells.get? k with
        | none => rfl
        | some c =>
          simp only [Option.bind_eq_bind, Option.bind_some]
          cases c.share? who with
          | none => rfl
          | some d => exact had (undo_insert hk d)
  | writeKey k =>
    have hk : ¬ s.Locked locks k := fun hk => (hc k hk).1 rfl
    have hr : ((s.undo locks).contains k).reply = (s.contains k).reply := by
      rw [contains_reply, contains_reply, undo_structureLock, cellAt_undo hk]
    have hf : (s.undo locks).structureLock.isFree = s.structureLock.isFree := by
      rw [undo_structureLock]
    simp only [hold?, hr, hf, get?_undo_of_not_locked hk]
    cases (s.contains k).reply with
    | error f => rfl
    | ok b =>
      cases b with
      | false => rfl
      | true =>
        cases s.structureLock.isFree with
        | false => rfl
        | true =>
          cases s.cells.get? k >>= fun c => c.claim? who with
          | none => rfl
          | some c => exact had (undo_insert hk c)

/-! ## What is done on the keys of the lock set -/

section
variable (hl : ∀ k, s.Locked locks k → s.lockAt k = .exclusive locks.holder) {k : Key}
  (hk : s.Locked locks k)

include hl hk

theorem call_state_of_locked [BEq V] {c : Call V} (hc : c.key? = some k) :
    (s.call c).state = s := by
  rcases call_cases c s with h | ⟨j, cells, hj, -, hf, -⟩
  · exact h
  · have hjk : j = k := by cases c <;> cases hc <;> cases hj <;> rfl
    rw [hjk, hl k hk] at hf
    cases hf

theorem acquire_refused_of_locked [BEq V] (who : Holder) {batch : List (Command V)}
    (hb : k ∈ batch.map Command.key) : ∃ f, (s.acquire who batch).reply = .error f := by
  cases hr : (s.acquire who batch).reply with
  | error f => exact ⟨f, rfl⟩
  | ok other =>
    obtain ⟨c, hc, rfl⟩ := List.mem_map.1 hb
    have hf : s.lockAt c.key = .free := (acquire_ok hr).2.2.1.free c hc
    rw [hl c.key hk] at hf
    cases hf

/-- A hold on a key of the lock set, or on a copy that has one, is not to be had. -/
theorem hold?_of_locked (who : Holder) {mode : HoldMode}
    (hm : mode.key? = some k ∨ (∃ walk, mode = .shared walk) ∧ s.contents k ≠ none) (t : Store V) :
    s.hold? who mode ≠ .ok (some t) := by
  intro h
  rcases hm with hm | ⟨⟨walk, rfl⟩, hc⟩
  · obtain ⟨-, l, hl', -⟩ := hold?_ok h
    have hl' : (s.lockAt k).take? mode.mode who = some l := by rwa [hm] at hl'
    rw [hl k hk] at hl'
    cases hmode : mode.mode <;> rw [hmode] at hl' <;> cases hl'
  · obtain ⟨v, hv⟩ := Option.ne_none_iff_exists'.1 hc
    obtain ⟨c, hkc, ht, -⟩ := contents_eq_some.1 hv
    have hcl : c.lock = .exclusive locks.holder := by
      have hlk := hl k hk
      rwa [lockAt, hkc] at hlk
    have hu : k ∈ s.unreadable := mem_unreadable.2 ⟨c, hkc, ht, by rw [hcl]; rfl⟩
    simp only [hold?] at h
    rcases s.snapshot_cases walk with ⟨-, hr⟩ | ⟨-, j, -, hr⟩ | ⟨-, hn, -⟩
    · rw [hr] at h
      cases h
    · rw [hr] at h
      cases h
    · rw [hn] at hu
      cases hu

end

end

end Store

end TwoPhaseStore
