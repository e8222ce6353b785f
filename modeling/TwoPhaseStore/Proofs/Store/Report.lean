import TwoPhaseStore.Proofs.Store.Acquire
import TwoPhaseStore.Proofs.Store.Resolve

/-!
What the operations of a store report.  A refusal is reported once and says why; what goes through
is not reported, but for the ends of the two phases:

    c.Reports s.timeout (s.call c)                                              (call_reports)
    (s.acquire who batch).reply = .error f → s.Reverts batch f (s.acquire who batch).events
                                                                             (acquire_reverts)
    (how.run batch locks s).events is one closing event, or the violation and then the keys that
    are still held, if there are any                                             (run_reports)
-/

namespace TwoPhaseStore

open Session (Resolution)

variable {V α β : Type}

/-! ## Single operations -/

namespace Call

/-- How an operation takes the structure lock. -/
def structureMode : Call V → LockMode
  | .set _ _ => .exclusive
  | .setCond _ _ _ => .exclusive
  | .setWithDelay _ _ _ => .exclusive
  | .del _ => .exclusive
  | _ => .shared

/-- What an operation wants the lock of a key for. -/
def attempt : Call V → KeyAttempt
  | .get _ => .read
  | .del _ => .delete
  | .snapshot _ => .snapshot
  | _ => .write

/-- The event says why the operation is refused: which lock was not to be had, or of which key the
condition does not hold. -/
inductive Tells (c : Call V) (timeout : Duration) : Fault → Event → Prop where
  | globally : Tells c timeout .globallyLocked (.structureTimedOut c.structureMode timeout)
  | key (k : Key) : Tells c timeout (.keyLocked k) (.keyTimedOut c.attempt k)
  | condition (k : Key) : Tells c timeout (.conditionFailed k) (.conditionNotSatisfied k)

theorem Tells.level {c : Call V} {timeout : Duration} {f : Fault} {e : Event}
    (h : c.Tells timeout f e) : e.level = .debug := by cases h <;> rfl

/-- A refusal is reported by one event that says why, and else nothing is reported. -/
structure Reports (c : Call V) (timeout : Duration) (a : Answer (Store V) (Except Fault α)) :
    Prop where
  silent : ∀ r, a.reply = .ok r → a.events = []
  told : ∀ f, a.reply = .error f → ∃ e, a.events = [e] ∧ c.Tells timeout f e

theorem Reports.map {c : Call V} {timeout : Duration} {a : Answer (Store V) (Except Fault α)}
    (h : c.Reports timeout a) (f : α → β) : c.Reports timeout (a.map f) := by
  refine ⟨fun r hr => ?_, fun g hg => h.told g (map_eq_error hg)⟩
  obtain ⟨r', hr', -⟩ := map_eq_ok hr
  exact h.silent r' hr'

end Call

namespace Store

section
variable (c : Call V) (s : Store V)

theorem accept_reports (timeout : Duration) (a : α) : c.Reports timeout (s.accept a) :=
  ⟨fun _ _ => rfl, nofun⟩

theorem refuse_reports {mode : LockMode} (h : c.structureMode = mode) :
    c.Reports s.timeout (s.refuse mode : Answer (Store V) (Except Fault α)) := by
  subst h
  refine ⟨nofun, fun f hf => ⟨_, rfl, ?_⟩⟩
  cases hf
  exact .globally

theorem refuseKey_reports {attempt : KeyAttempt} (h : c.attempt = attempt) (k : Key) :
    c.Reports s.timeout (s.refuseKey attempt k : Answer (Store V) (Except Fault α)) := by
  subst h
  refine ⟨nofun, fun f hf => ⟨_, rfl, ?_⟩⟩
  cases hf
  exact .key k

/-- An operation that takes the structure lock reports what it does under it. -/
theorem reports_of_structure {mode : LockMode} (h : c.structureMode = mode) {taken : Bool}
    {a : Answer (Store V) (Except Fault α)} (ha : c.Reports s.timeout a) :
    c.Reports s.timeout (if taken then a else s.refuse mode) := by
  split
  · exact ha
  · exact s.refuse_reports c h

/-- And an operation that takes the lock of a key, what it does under that one. -/
theorem reports_of_key {attempt : KeyAttempt} (h : c.attempt = attempt) (k : Key) {taken : Bool}
    {a : Answer (Store V) (Except Fault α)} (ha : c.Reports s.timeout a) :
    c.Reports s.timeout (if taken then a else s.refuseKey attempt k) := by
  split
  · exact ha
  · exact s.refuseKey_reports c h k

theorem write_reports [BEq V] (hm : c.structureMode = .exclusive) (ha : c.attempt = .write)
    (k : Key) (v : V) (e : Option V) : c.Reports s.timeout (s.write k v e) := by
  refine s.reports_of_structure c hm ?_
  split
  · exact accept_reports c _ _ _
  · refine s.reports_of_key c ha k ?_
    split
    · exact accept_reports c _ _ _
    · refine ⟨nofun, fun f hf => ⟨_, rfl, ?_⟩⟩
      cases hf
      exact .condition k

end

theorem call_reports [BEq V] (c : Call V) (s : Store V) : c.Reports s.timeout (s.call c) := by
  cases c with
  | get k =>
    refine Call.Reports.map (s.reports_of_structure _ rfl ?_) _
    split
    · exact accept_reports _ _ _ _
    · exact s.reports_of_key _ rfl k (accept_reports _ _ _ _)
  | set k v => exact (s.write_reports _ rfl rfl k v none).map _
  | setCond k v e => exact (s.write_reports _ rfl rfl k v (some e)).map _
  | setWithDelay k v d => exact (s.write_reports _ rfl rfl k v none).map _
  | del k =>
    refine Call.Reports.map (s.reports_of_structure _ rfl ?_) _
    split
    · exact accept_reports _ _ _ _
    · exact s.reports_of_key _ rfl k (accept_reports _ _ _ _)
  | snapshot walk =>
    refine Call.Reports.map (s.reports_of_structure _ rfl ?_) _
    split
    · exact s.refuseKey_reports _ rfl _
    · exact accept_reports _ _ _ _
  | len => exact (s.reports_of_structure _ rfl (accept_reports _ _ _ _)).map _
  | isEmpty => exact (s.reports_of_structure _ rfl (accept_reports _ _ _ _)).map _
  | contains k => exact (s.reports_of_structure _ rfl (accept_reports _ _ _ _)).map _
  | text => exact accept_reports _ _ _ _
  | timeout => exact accept_reports _ _ _ _

/-! ## Acquire phases -/

/-- What is reported when a batch is not locked: nothing if there is no batch, that the structure
lock was not to be had, or that the phase was reverted at its first obstacle, with the number of
cells that it had locked by then. -/
inductive Reverts [BEq V] (s : Store V) (batch : List (Command V)) : Fault → List Event → Prop where
  | noBatch (h : batch = []) : Reverts s batch .emptyBatch []
  | globally (hs : s.structureLock ≠ .free) :
    Reverts s batch .globallyLocked [.structureTimedOut .exclusive s.timeout]
  | reverted {done rest : List (Command V)} {c : Command V} {e : Setback}
    (hs : s.structureLock = .free) (hb : batch = done ++ c :: rest) (hd : Lockable s.cells done)
    (he : Refused s.cells done c e) : Reverts s batch e.fault [.acquireReverted e.fault e.released]

section
variable [BEq V] {who : Holder} {batch : List (Command V)} {s : Store V}

theorem acquire_reverts {f : Fault} (h : (s.acquire who batch).reply = .error f) :
    s.Reverts batch f (s.acquire who batch).events := by
  unfold acquire at h ⊢
  split at h
  · next hb =>
    cases h
    rw [if_pos hb]
    exact .noBatch (List.isEmpty_iff.1 hb)
  · next hb =>
    rw [if_neg hb]
    split at h
    · next hs =>
      rw [if_pos hs]
      cases ht : lockAll who batch 0 s.cells with
      | error e =>
        rw [ht] at h
        cases h
        obtain ⟨done, c, rest, hsplit, hl, e', he, rfl⟩ := lockAll_error ht
        rw [Nat.zero_add]
        exact .reverted (Lock.isFree_iff.1 hs) hsplit hl he
      | ok t => rw [ht] at h; cases h
    · next hs =>
      cases h
      rw [if_neg hs]
      exact .globally fun hf => hs (Lock.isFree_iff.2 hf)

theorem acquire_locked {locks : LockSet} (h : (s.acquire who batch).reply = .ok locks) :
    (s.acquire who batch).events =
      [.batchLocked batch.length (batch.countP (·.isConditional))] := by
  unfold acquire at h ⊢
  split at h
  · cases h
  · next hb =>
    rw [if_neg hb]
    split at h
    · next hs =>
      rw [if_pos hs]
      cases ht : lockAll who batch 0 s.cells with
      | error e => rw [ht] at h; cases h
      | ok t => rfl
    · cases h

/-- A batch that is locked has as many keys as commands, and at least one. -/
theorem size_of_acquire {locks : LockSet} (h : (s.acquire who batch).reply = .ok locks) :
    locks.keys.size = batch.length ∧ locks.keys.isEmpty = false := by
  obtain ⟨hb, -, hl, ⟨-, -, hk⟩, -⟩ := acquire_ok h
  refine ⟨(Table.size_eq_length hl.distinct hk).trans (List.length_map _), ?_⟩
  refine Bool.eq_false_iff.2 fun he => ?_
  obtain ⟨c, rest, rfl⟩ := List.exists_cons_of_ne_nil hb
  obtain ⟨u, hu⟩ := Table.contains_iff.1 ((hk c.key).2 List.mem_cons_self)
  rw [Table.isEmpty_iff.1 he] at hu
  cases hu

end

/-! ## Ends of lock sets -/

/-- The keys of a lock set that are still held where its end stops. -/
def left (how : Resolution) (batch : List (Command V)) (locks : LockSet) (s : Store V) :
    Table Unit :=
  if locks.issuer = s.id then (settle (how.one locks.holder) batch s.cells locks.keys).held
  else locks.keys

section
variable {how : Resolution} {batch : List (Command V)} {locks : LockSet} {s : Store V}

/-- The keys that are left are those of the lock set that were not processed. -/
theorem contains_left (how : Resolution) (batch : List (Command V)) (hu : locks.issuer = s.id)
    (hl : ∀ k, locks.keys.contains k = true → s.cells.get? k ≠ none) :
    ∃ done rest, Resolves how batch locks s done rest ∧
      ∀ k, (left how batch locks s).contains k = true ↔
        locks.keys.contains k = true ∧ k ∉ done.map Command.key := by
  obtain ⟨done, rest, _, -, hset⟩ := settle_settles how locks.holder batch locks.keys
  obtain ⟨h, -⟩ := hset s.cells hl
  have hlocks : locks = ⟨s.id, locks.holder, locks.keys⟩ := hu ▸ rfl
  refine ⟨done, rest, hlocks ▸ h.resolves rfl, fun k => ?_⟩
  rw [left, if_pos hu, h.held]

theorem left_foreign (hu : locks.issuer ≠ s.id) : left how batch locks s = locks.keys := if_neg hu

/-- The end of a lock set is reported once: that it is done, or what is violated.  Keys that are
still held after a violation are reported with their number. -/
theorem run_reports (how : Resolution) (batch : List (Command V)) (locks : LockSet) (s : Store V) :
    (how.run batch locks s).reply = .ok () ∧
        (how.run batch locks s).events = [how.closing batch.length] ∨
      ∃ v, (how.run batch locks s).reply = .error v ∧ (how.run batch locks s).events =
        .protocolViolated v :: LockSet.dropEvents (left how batch locks s) := by
  rw [how.run_eq, resolve, left]
  by_cases hu : locks.issuer = s.id
  · rw [if_pos hu, if_pos hu]
    cases hv : (settle (how.one locks.holder) batch s.cells locks.keys).violation with
    | none => exact .inl (by simp only [hv, and_self])
    | some v => exact .inr ⟨v, by simp only [hv, and_self]⟩
  · rw [if_neg hu, if_neg hu]
    exact .inr ⟨_, rfl, rfl⟩

end

end Store

end TwoPhaseStore
