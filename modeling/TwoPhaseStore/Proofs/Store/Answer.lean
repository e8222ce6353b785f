import TwoPhaseStore.Proofs.Store.Call

/-!
What the operations of a store answer.  An operation is refused only for a lock that somebody holds,
or for a condition that does not hold (`call_refused`).  What is answered else is about the contents
alone, as far as the store is sound:

    (s.get k).reply = .ok p → p = s.contents k                                      (get_ok)
    (s.snapshot walk).reply = .ok rows → ((k, v) ∈ rows ↔ s.contents k = some v)    (snapshot_ok)

Which key a refused copy names depends on the walk, and nothing else does (`snapshot_walk`).
-/

namespace TwoPhaseStore

variable {V α : Type}

namespace Store

/-! ## Copies -/

section
variable {s : Store V}

theorem contents_eq_some {k : Key} {v : V} : s.contents k = some v ↔
    ∃ c, s.cells.get? k = some c ∧ c.temporary = false ∧ c.payload = some v := by
  unfold contents
  cases s.cells.get? k with
  | none => simp
  | some c => cases c.temporary <;> simp

theorem mem_committed {r : Key × Cell V} :
    r ∈ s.committed ↔ s.cells.get? r.1 = some r.2 ∧ r.2.temporary = false := by
  rw [committed, List.mem_filter, Table.get?_eq_some_iff, Bool.not_eq_true']

theorem mem_unreadable {k : Key} : k ∈ s.unreadable ↔
    ∃ c, s.cells.get? k = some c ∧ c.temporary = false ∧ c.lock.admitsReader = false := by
  simp only [unreadable, List.mem_map, List.mem_filter, mem_committed, Bool.not_eq_true']
  constructor
  · rintro ⟨r, ⟨⟨hc, ht⟩, hl⟩, rfl⟩
    exact ⟨r.2, hc, ht, hl⟩
  · rintro ⟨c, hc, ht, hl⟩
    exact ⟨(k, c), ⟨⟨hc, ht⟩, hl⟩, rfl⟩

/-- What is copied are the rows of the contents. -/
theorem sorted_copied (s : Store V) :
    Rows.Sorted s.copied ∧ ∀ k v, (k, v) ∈ s.copied ↔ s.contents k = some v := by
  constructor
  · refine List.pairwise_filterMap.2 ((s.cells.sorted.filter _).imp ?_)
    intro a b hab x hx y hy
    obtain ⟨v, -, rfl⟩ := Option.map_eq_some_iff.1 hx
    obtain ⟨u, -, rfl⟩ := Option.map_eq_some_iff.1 hy
    exact hab
  · intro k v
    rw [copied, List.mem_filterMap, contents_eq_some]
    constructor
    · rintro ⟨r, hr, he⟩
      obtain ⟨u, hu, heq⟩ := Option.map_eq_some_iff.1 he
      obtain ⟨rfl, rfl⟩ := Prod.mk.inj heq
      obtain ⟨hc, ht⟩ := mem_committed.1 hr
      exact ⟨r.2, hc, ht, hu⟩
    · rintro ⟨c, hc, ht, hp⟩
      exact ⟨(k, c), mem_committed.2 ⟨hc, ht⟩, by simp [hp]⟩

/-- A copy meets the structure lock, or some committed key that cannot be read, or nothing. -/
theorem snapshot_cases (walk : List Key) (s : Store V) :
    s.structureLock.admitsReader = false ∧ s.snapshot walk = s.refuse .shared ∨
    s.structureLock.admitsReader = true ∧
      (∃ k ∈ s.unreadable, s.snapshot walk = s.refuseKey .snapshot k) ∨
    s.structureLock.admitsReader = true ∧ s.unreadable = [] ∧
      s.snapshot walk = s.accept s.copied := by
  unfold snapshot
  cases hl : s.structureLock.admitsReader with
  | false => exact .inl ⟨rfl, rfl⟩
  | true =>
    cases hu : s.unreadable with
    | nil => exact .inr (.inr ⟨rfl, rfl, rfl⟩)
    | cons k ks => exact .inr (.inl ⟨rfl, _, firstVisited_mem walk k ks, rfl⟩)

/-- A copy has the rows of the contents in the order of their keys. -/
theorem snapshot_ok {walk : List Key} {rows : List (Key × V)}
    (h : (s.snapshot walk).reply = .ok rows) :
    Rows.Sorted rows ∧ ∀ k v, (k, v) ∈ rows ↔ s.contents k = some v := by
  rcases s.snapshot_cases walk with ⟨-, he⟩ | ⟨-, k, -, he⟩ | ⟨-, -, he⟩ <;> rw [he] at h <;>
    cases h
  exact s.sorted_copied

/-- On another walk the same is answered, but for the key that a refused copy names. -/
theorem snapshot_walk (walk walk' : List Key) (s : Store V) :
    (s.snapshot walk').reply = (s.snapshot walk).reply ∨
    ∃ k k', k ∈ s.unreadable ∧ k' ∈ s.unreadable ∧ (s.snapshot walk).reply = .error (.keyLocked k) ∧
      (s.snapshot walk').reply = .error (.keyLocked k') := by
  unfold snapshot
  split
  · cases hu : s.unreadable with
    | nil => exact .inl rfl
    | cons k ks =>
      exact .inr ⟨_, _, firstVisited_mem walk k ks, firstVisited_mem walk' k ks, rfl, rfl⟩
  · exact .inl rfl

/-- Each committed key that cannot be read is named on some walk. -/
theorem exists_snapshot_of_unreadable (hl : s.structureLock.admitsReader = true) {k : Key}
    (hk : k ∈ s.unreadable) :
    ∃ walk, (s.snapshot walk).reply = .error (.keyLocked k) := by
  cases hu : s.unreadable with
  | nil =>
    rw [hu] at hk
    cases hk
  | cons j js =>
    obtain ⟨walk, hw⟩ := exists_firstVisited (hu ▸ hk)
    refine ⟨walk, ?_⟩
    rw [snapshot, if_pos hl, hu, ← hw]
    rfl

end

/-! ## Why an operation is refused -/

/-- The fault is about a lock that somebody holds. -/
def Blocked (s : Store V) (f : Fault) : Prop :=
  f = .globallyLocked ∧ s.structureLock ≠ .free ∨ ∃ k, f = .keyLocked k ∧ s.lockAt k ≠ .free

section
variable {s : Store V} {f : Fault}

theorem blocked_of_structure (h : ¬ s.structureLock.isFree = true) : s.Blocked .globallyLocked :=
  .inl ⟨rfl, fun he => h (Lock.isFree_iff.2 he)⟩

/-- Only a writer keeps readers out. -/
theorem blocked_of_writer (h : ¬ s.structureLock.admitsReader = true) : s.Blocked .globallyLocked :=
  .inl ⟨rfl, fun he => h (by rw [he]; rfl)⟩

theorem blocked_of_key {k : Key} (h : ¬ (s.lockAt k).isFree = true) : s.Blocked (.keyLocked k) :=
  .inr ⟨k, rfl, fun he => h (Lock.isFree_iff.2 he)⟩

theorem blocked_of_keyWriter {k : Key} {c : Cell V} (hc : s.cells.get? k = some c)
    (h : ¬ c.lock.admitsReader = true) : s.Blocked (.keyLocked k) := by
  refine .inr ⟨k, rfl, fun he => h ?_⟩
  rw [lockAt, hc] at he
  rw [show c.lock = .free from he]
  rfl

theorem get_refused {k : Key} (h : (s.get k).reply = .error f) : s.Blocked f := by
  unfold get at h
  split at h
  · split at h
    · cases h
    · next c hc =>
      split at h
      · cases h
      · next hl => cases h; exact blocked_of_keyWriter hc hl
  · next hs => cases h; exact blocked_of_writer hs

theorem del_refused {k : Key} (h : (s.del k).reply = .error f) : s.Blocked f := by
  rw [del_eq] at h
  split at h
  · split at h
    · cases h
    · next hl => cases h; exact blocked_of_key hl
  · next hs => cases h; exact blocked_of_structure hs

theorem len_refused (h : s.len.reply = .error f) : s.Blocked f := by
  unfold len at h
  split at h
  · cases h
  · next hs => cases h; exact blocked_of_writer hs

theorem isEmpty_refused (h : s.isEmpty.reply = .error f) : s.Blocked f := by
  unfold isEmpty at h
  split at h
  · cases h
  · next hs => cases h; exact blocked_of_writer hs

theorem contains_refused {k : Key} (h : (s.contains k).reply = .error f) : s.Blocked f := by
  unfold contains at h
  split at h
  · cases h
  · next hs => cases h; exact blocked_of_writer hs

theorem snapshot_refused {walk : List Key} (h : (s.snapshot walk).reply = .error f) :
    s.Blocked f := by
  rcases s.snapshot_cases walk with ⟨hs, he⟩ | ⟨-, k, hk, he⟩ | ⟨-, -, he⟩ <;> rw [he] at h <;>
    cases h
  · exact blocked_of_writer (Bool.eq_false_iff.1 hs)
  · obtain ⟨c, hc, -, hl⟩ := mem_unreadable.1 hk
    exact blocked_of_keyWriter hc (Bool.eq_false_iff.1 hl)

theorem write_refused [BEq V] {k : Key} {v : V} {e : Option V}
    (h : (s.write k v e).reply = .error f) :
    s.Blocked f ∨ f = .conditionFailed k ∧ s.meets k e = false := by
  rw [write_eq] at h
  split at h
  · split at h
    · split at h
      · cases h
      · next hm => cases h; exact .inr ⟨rfl, Bool.eq_false_iff.2 hm⟩
    · next hl => cases h; exact .inl (blocked_of_key hl)
  · next hs => cases h; exact .inl (blocked_of_structure hs)

/-- An operation is refused for a lock that is held, or for a condition that does not hold. -/
theorem call_refused [BEq V] {c : Call V} (h : (s.call c).reply = .error f) :
    s.Blocked f ∨ ∃ k v e, c = .setCond k v e ∧ f = .conditionFailed k ∧
      s.meets k (some e) = false := by
  cases c with
  | get k => exact .inl (get_refused (map_eq_error h))
  | set k v =>
    refine .inl ((write_refused (map_eq_error h)).resolve_right fun hc => ?_)
    rw [meets_none] at hc
    cases hc.2
  | setCond k v e =>
    exact (write_refused (map_eq_error h)).imp_right fun hc => ⟨k, v, e, rfl, hc⟩
  | setWithDelay k v d =>
    refine .inl ((write_refused (map_eq_error h)).resolve_right fun hc => ?_)
    rw [meets_none] at hc
    cases hc.2
  | del k => exact .inl (del_refused (map_eq_error h))
  | len => exact .inl (len_refused (map_eq_error h))
  | isEmpty => exact .inl (isEmpty_refused (map_eq_error h))
  | contains k => exact .inl (contains_refused (map_eq_error h))
  | snapshot walk => exact .inl (snapshot_refused (map_eq_error h))
  | text => cases h
  | timeout => cases h

end

/-- With the structure free, an operation on a key that is held exclusively is refused for it. -/
theorem call_of_locked [BEq V] {c : Call V} {s : Store V} {k : Key} {who : Holder}
    (hs : s.structureLock = .free) (hk : c.locks? = some k) (hl : s.lockAt k = .exclusive who) :
    (s.call c).reply = .error (.keyLocked k) := by
  have hw : ∀ v e, (s.write k v e).reply = .error (.keyLocked k) := by
    intro v e
    rw [write_eq, hs, hl]
    rfl
  cases c with
  | get k' =>
    cases hk
    have hg : (s.get k).reply = .error (.keyLocked k) := by
      cases hc : s.cells.get? k with
      | none => rw [lockAt, hc] at hl; cases hl
      | some cell =>
        have hcl : cell.lock = .exclusive who := by rwa [lockAt, hc] at hl
        simp [get, hs, hc, hcl, Lock.admitsReader, refuseKey]
    exact congrArg (Except.map _) hg
  | set k' v => cases hk; exact congrArg (Except.map _) (hw v none)
  | setCond k' v e => cases hk; exact congrArg (Except.map _) (hw v (some e))
  | setWithDelay k' v d => cases hk; exact congrArg (Except.map _) (hw v none)
  | del k' =>
    cases hk
    have hd : (s.del k).reply = .error (.keyLocked k) := by
      rw [del_eq, hs, hl]
      rfl
    exact congrArg (Except.map _) hd
  | _ => cases hk

/-! ## What is answered about the contents -/

section
variable {s : Store V}

theorem contains_ok {k : Key} {b : Bool} (h : (s.contains k).reply = .ok b) :
    b = true ↔ ∃ c, s.cells.get? k = some c ∧ c.temporary = false := by
  unfold contains at h
  split at h
  · replace h := Except.ok.inj h
    subst h
    cases s.cells.get? k <;> simp
  · cases h

section
variable (hs : s.Sound)

include hs

theorem Sound.get_ok {k : Key} {p : Option V} (h : (s.get k).reply = .ok p) :
    p = s.contents k := by
  unfold get at h
  split at h
  · split at h
    · next hc => cases h; rw [Store.contents_eq, hc]; rfl
    · next c hc =>
      split at h
      · cases h; exact (hs.contents_eq hc).symm
      · cases h
  · cases h

theorem Sound.contains_ok {k : Key} {b : Bool} (h : (s.contains k).reply = .ok b) :
    b = (s.contents k).isSome := by
  rw [Bool.eq_iff_iff, Store.contains_ok h, Option.isSome_iff_exists]
  constructor
  · rintro ⟨c, hc, ht⟩
    rw [hs.temporary_eq hc, Option.isNone_eq_false_iff, Option.isSome_iff_exists] at ht
    exact ht
  · rintro ⟨v, hv⟩
    obtain ⟨c, hc, ht, -⟩ := contents_eq_some.1 hv
    exact ⟨c, hc, ht⟩

/-- The committed rows are the rows of the contents, each key once. -/
theorem Sound.committed_keys : (s.committed.map (·.1)).Nodup ∧
    ∀ k, k ∈ s.committed.map (·.1) ↔ s.contents k ≠ none := by
  refine ⟨s.cells.nodup_keys.sublist (List.filter_sublist.map _), fun k => ?_⟩
  rw [List.mem_map, Option.ne_none_iff_exists']
  constructor
  · rintro ⟨r, hr, rfl⟩
    obtain ⟨hc, ht⟩ := mem_committed.1 hr
    rw [hs.temporary_eq hc, Option.isNone_eq_false_iff, Option.isSome_iff_exists] at ht
    exact ht
  · rintro ⟨v, hv⟩
    obtain ⟨c, hc, ht, -⟩ := contents_eq_some.1 hv
    exact ⟨(k, c), mem_committed.2 ⟨hc, ht⟩, rfl⟩

theorem Sound.len_ok {n : Nat} (h : s.len.reply = .ok n) :
    ∃ keys : List Key, keys.Nodup ∧ (∀ k, k ∈ keys ↔ s.contents k ≠ none) ∧ n = keys.length := by
  unfold len at h
  split at h
  · exact ⟨_, hs.committed_keys.1, hs.committed_keys.2, by cases h; simp⟩
  · cases h

theorem Sound.isEmpty_ok {b : Bool} (h : s.isEmpty.reply = .ok b) :
    b = true ↔ ∀ k, s.contents k = none := by
  unfold isEmpty at h
  split at h
  · cases h
    constructor
    · intro he k
      refine Classical.byContradiction fun hk => ?_
      have hm := (hs.committed_keys.2 k).2 hk
      rw [List.isEmpty_iff.1 he] at hm
      cases hm
    · intro hn
      rw [List.isEmpty_iff, ← List.map_eq_nil_iff, List.eq_nil_iff_forall_not_mem]
      exact fun k hk => (hs.committed_keys.2 k).1 hk (hn k)
  · cases h

end

end

end Store

end TwoPhaseStore
