import TwoPhaseStore.Proofs.Lock
import TwoPhaseStore.Proofs.Store.Answer
import TwoPhaseStore.Proofs.Store.Resolve
import TwoPhaseStore.Session.Script

/-!
Holds of another party.  Each is on one lock, that of a key or of the structure, and changes nothing
but that lock: taking a hold takes it, and letting go releases it.

    s.hold? who mode = .ok (some t) → t = s.relock mode.key? fun _ => l        (hold?_ok)
    s.letGo who mode = s.relock mode.key? (·.release who)                      (letGo_eq)
-/

namespace TwoPhaseStore

variable {V : Type}

/-- The mode in which a hold has its lock. -/
def HoldMode.mode : HoldMode → LockMode
  | .exclusive => .exclusive
  | .shared _ => .shared
  | .readKey _ => .shared
  | .writeKey _ => .exclusive

namespace Store

/-- Changes the lock of a key, or without a key that of the structure. -/
def relock (target : Option Key) (f : Lock → Lock) (s : Store V) : Store V :=
  match target with
  | none => { s with structureLock := f s.structureLock }
  | some k => { s with cells := s.cells.modify k fun c => { c with lock := f c.lock } }

section
variable (target : Option Key) (f : Lock → Lock) (s : Store V)

@[simp] theorem relock_id : (s.relock target f).id = s.id := by cases target <;> rfl

theorem get?_relock (j : Key) : (s.relock target f).cells.get? j =
    if target = some j then (s.cells.get? j).map fun c => { c with lock := f c.lock }
    else s.cells.get? j := by
  cases target with
  | none => rfl
  | some k =>
    show (s.cells.modify k _).get? j = _
    rw [Table.get?_modify]
    by_cases hj : j = k
    · rw [if_pos hj, if_pos (congrArg some hj.symm)]
    · rw [if_neg hj, if_neg fun he => hj (Option.some.inj he).symm]

theorem lockOn_relock_of_ne {other : Option Key} (h : target ≠ other) :
    (s.relock target f).lockOn other = s.lockOn other := by
  cases other with
  | none =>
    cases target with
    | none => exact absurd rfl h
    | some k => rfl
  | some j =>
    show Slot.lock _ = Slot.lock _
    rw [get?_relock, if_neg h]

/-- Where there is no cell there is no lock to change. -/
theorem lockOn_relock_self (h : ∀ k, target = some k → s.cells.get? k = none → f .free = .free) :
    (s.relock target f).lockOn target = f (s.lockOn target) := by
  cases target with
  | none => rfl
  | some k =>
    show Slot.lock _ = f (Slot.lock _)
    rw [get?_relock, if_pos rfl]
    cases hc : s.cells.get? k with
    | none => exact (h k rfl hc).symm
    | some c => rfl

@[simp] theorem contents_relock : (s.relock target f).contents = s.contents := by
  funext j
  rw [contents_eq, contents_eq, get?_relock]
  split
  · cases s.cells.get? j <;> rfl
  · rfl

theorem sound_relock {s : Store V} (hs : s.Sound) : (s.relock target f).Sound := by
  intro j
  rw [get?_relock]
  split
  · cases hc : s.cells.get? j with
    | none => exact Slot.sound_none
    | some c =>
      have hm : c.temporary = c.payload.isNone := hs j c hc
      exact Slot.sound_some.2 hm
  · exact hs j

end

/-- Storing a cell back with another lock is a change of its lock. -/
theorem insert_eq_relock {s : Store V} {k : Key} {c : Cell V} (hc : s.cells.get? k = some c)
    (l : Lock) : { s with cells := s.cells.insert k { c with lock := l } } =
      s.relock (some k) fun _ => l := by
  have he : s.cells.insert k { c with lock := l } =
      s.cells.modify k fun c => { c with lock := l } := by
    apply Table.ext_get?
    intro j
    rw [Table.get?_insert, Table.get?_modify]
    by_cases hj : j = k
    · subst hj; simp [hc]
    · rw [if_neg hj, if_neg hj]
  rw [he]
  rfl

theorem exists_share?_of_snapshot (who : Holder) {s : Store V} {walk : List Key}
    {rows : List (Key × V)} (h : (s.snapshot walk).reply = .ok rows) :
    ∃ l, s.structureLock.share? who = some l := by
  rw [← Option.isSome_iff_exists, Lock.share?_isSome]
  unfold snapshot at h
  split at h
  · next hs => exact hs
  · cases h

/-- A hold that is had takes the one lock it is on, and that lock is there. -/
theorem hold?_ok {who : Holder} {mode : HoldMode} {s t : Store V}
    (h : s.hold? who mode = .ok (some t)) :
    (∀ k, mode.key? = some k → s.cells.get? k ≠ none) ∧
      ∃ l, (s.lockOn mode.key?).take? mode.mode who = some l ∧
        t = s.relock mode.key? fun _ => l := by
  cases mode with
  | exclusive =>
    refine ⟨nofun, ?_⟩
    simp only [hold?] at h
    split at h
    · next l hl => exact ⟨l, hl, by cases h; rfl⟩
    · cases h
  | shared walk =>
    refine ⟨nofun, ?_⟩
    simp only [hold?] at h
    split at h
    · cases h
    · cases h
    · next rows hr =>
      obtain ⟨l, hl⟩ := exists_share?_of_snapshot who hr
      rw [hl] at h
      exact ⟨l, hl, by cases h; rfl⟩
  | readKey k =>
    simp only [hold?] at h
    split at h
    · cases h
    · cases h
    · replace h := Except.ok.inj h
      rw [Option.bind_eq_bind, Option.bind_eq_some_iff] at h
      obtain ⟨c, hc, hd⟩ := h
      obtain ⟨d, hd', rfl⟩ := Option.map_eq_some_iff.1 hd
      obtain ⟨l, hl, rfl⟩ := Option.map_eq_some_iff.1 hd'
      have hl' : (s.lockAt k).share? who = some l := by rwa [lockAt, hc]
      exact ⟨fun j hj => by cases hj; simp [hc], l, hl', insert_eq_relock hc l⟩
  | writeKey k =>
    simp only [hold?] at h
    split at h
    · cases h
    · cases h
    · split at h
      · split at h
        · next d hd =>
          rw [Option.bind_eq_bind, Option.bind_eq_some_iff] at hd
          obtain ⟨c, hc, hd⟩ := hd
          obtain ⟨l, hl, rfl⟩ := Option.map_eq_some_iff.1 hd
          have hl' : (s.lockAt k).claim? who = some l := by rwa [lockAt, hc]
          cases h
          exact ⟨fun j hj => by cases hj; simp [hc], l, hl', insert_eq_relock hc l⟩
        · cases h
      · cases h

/-- A hold is refused only for a lock that somebody holds. -/
theorem hold?_refused {who : Holder} {mode : HoldMode} {s : Store V} {f : Fault}
    (h : s.hold? who mode = .error f) : s.Blocked f := by
  cases mode with
  | exclusive =>
    simp only [hold?] at h
    split at h
    · cases h
    · next hl =>
      cases h
      exact blocked_of_structure (by rw [← Lock.claim?_isSome who, hl]; simp)
  | shared walk =>
    simp only [hold?] at h
    split at h
    · next hr => cases h; exact snapshot_refused hr
    · cases h
    · cases h
  | readKey k =>
    simp only [hold?] at h
    split at h
    · next hr => cases h; exact get_refused hr
    · cases h
    · cases h
  | writeKey k =>
    simp only [hold?] at h
    split at h
    · next hr => cases h; exact contains_refused hr
    · cases h
    · next hr =>
      split at h
      · split at h
        · cases h
        · next hd =>
          cases h
          obtain ⟨c, hc, -⟩ := (contains_ok hr).1 rfl
          rw [hc] at hd
          refine blocked_of_key fun hf => ?_
          rw [lockAt, hc, Slot.lock_some, ← Lock.claim?_isSome who] at hf
          have hn : c.lock.claim? who = none := Option.map_eq_none_iff.1 hd
          rw [hn] at hf
          cases hf
      · next hs => cases h; exact blocked_of_structure hs

theorem letGo_eq (who : Holder) (mode : HoldMode) (s : Store V) :
    s.letGo who mode = s.relock mode.key? (·.release who) := by cases mode <;> rfl

theorem letGo_of_cell {who : Holder} {mode : HoldMode} {s : Store V} {k : Key} {c : Cell V}
    (hk : mode.key? = some k) (hc : s.cells.get? k = some c) :
    s.letGo who mode = { s with cells := s.cells.insert k (c.release who) } := by
  rw [letGo_eq, hk, relock, Table.modify, hc]
  rfl

/-- A key that somebody holds exclusively keeps its slot when another hold is taken. -/
theorem hold?_slot_of_locked {who other : Holder} {mode : HoldMode} {s t : Store V} {j : Key}
    (h : s.hold? who mode = .ok (some t)) (hj : s.lockAt j = .exclusive other) :
    t.cells.get? j = s.cells.get? j := by
  obtain ⟨-, l, hl, rfl⟩ := hold?_ok h
  rw [get?_relock, if_neg]
  intro hk
  have hl' : (s.lockAt j).take? mode.mode who = some l := by rwa [hk] at hl
  rw [hj] at hl'
  cases hm : mode.mode <;> rw [hm] at hl' <;> cases hl'

/-- It keeps it also when a party lets go that is not the one. -/
theorem letGo_slot_of_locked {who other : Holder} (mode : HoldMode) {s : Store V} {j : Key}
    (hj : s.lockAt j = .exclusive other) (hne : other ≠ who) :
    (s.letGo who mode).cells.get? j = s.cells.get? j := by
  rw [letGo_eq, get?_relock]
  split
  · cases hc : s.cells.get? j with
    | none => rfl
    | some c =>
      have hl : c.lock = .exclusive other := by rwa [lockAt, hc] at hj
      rw [Option.map_some, hl, Lock.release, if_neg hne, ← hl]
  · rfl

end Store

end TwoPhaseStore
