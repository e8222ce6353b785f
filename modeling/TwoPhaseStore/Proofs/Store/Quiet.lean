import TwoPhaseStore.Proofs.Store.Local

/-!
A store in which no lock is held.  What it answers is a matter of its contents (`Quiet.get_reply` and
the others), and every key has the cell that its contents call for, though a placeholder may stand
where a key is absent:

    s.Quiet → s.cellAt k = ((s.contents k).map .committed).getD .placeholder        (Quiet.cellAt_eq)
-/

namespace TwoPhaseStore

variable {V : Type}

namespace Store

/-- All marks are sound and no lock is held; there may be placeholders left. -/
structure Quiet (s : Store V) : Prop where
  sound : s.Sound
  free : ∀ target, s.lockOn target = .free

theorem Quiet.structure_free {s : Store V} (h : s.Quiet) : s.structureLock = .free := h.free none

theorem Quiet.cellAt_free {s : Store V} (h : s.Quiet) (k : Key) : (s.cellAt k).lock = .free :=
  (s.lockAt_eq k).symm.trans (h.free (some k))

theorem Quiet.call [BEq V] {s : Store V} (h : s.Quiet) (c : Call V) : (s.call c).state.Quiet :=
  ⟨call_sound c h.sound, fun target => (call_lockOn c s target).trans (h.free target)⟩

/-- There are as many committed rows as there are contents. -/
theorem Sound.length_committed {s : Store V} (h : s.Sound) {t : Table V}
    (ht : t.get? = s.contents) : s.committed.length = t.size := by
  have hp : (s.committed.map (·.1)).Perm t.keys := by
    refine (List.perm_ext_iff_of_nodup h.committed_keys.1 t.nodup_keys).2 fun k => ?_
    rw [h.committed_keys.2, ← Table.contains_iff_mem_keys, Table.contains_iff, ht,
      Option.ne_none_iff_exists']
  have hl := hp.length_eq
  rwa [List.length_map, Table.keys, List.length_map] at hl

/-! ## Replies -/

section
variable {s : Store V} (h : s.Quiet)

include h

theorem Quiet.get_reply (k : Key) : (s.get k).reply = .ok (s.contents k) := by
  have hr : (s.get k).reply = .ok (s.cellAt k).payload := by
    rw [Store.get_reply, h.structure_free, h.cellAt_free]
    rfl
  rw [hr, h.sound.get_ok hr]

theorem Quiet.del_reply (k : Key) : (s.del k).reply = .ok () := by
  rw [Store.del_reply, h.structure_free, h.cellAt_free]
  rfl

theorem Quiet.len_reply {t : Table V} (ht : t.get? = s.contents) :
    s.len.reply = .ok t.size := by
  rw [← h.sound.length_committed ht, len, h.structure_free]
  rfl

theorem Quiet.isEmpty_reply {t : Table V} (ht : t.get? = s.contents) :
    s.isEmpty.reply = .ok t.isEmpty := by
  have he : s.committed.isEmpty = t.isEmpty := by
    have hl : s.committed.length = t.rows.length := h.sound.length_committed ht
    rw [Table.isEmpty, Bool.eq_iff_iff, List.isEmpty_iff_length_eq_zero,
      List.isEmpty_iff_length_eq_zero, hl]
  rw [← he, isEmpty, h.structure_free]
  rfl

/-- Nobody is in the way of a copy. -/
theorem Quiet.snapshot_ok (walk : List Key) : ∃ rows, (s.snapshot walk).reply = .ok rows := by
  cases hr : (s.snapshot walk).reply with
  | error f =>
    rcases snapshot_refused hr with ⟨-, hs⟩ | ⟨k, -, hk⟩
    · exact absurd (h.free none) hs
    · exact absurd (h.free (some k)) hk
  | ok rows => exact ⟨rows, rfl⟩

theorem Quiet.snapshot_reply (walk : List Key) {t : Table V} (ht : t.get? = s.contents) :
    (s.snapshot walk).reply = .ok t.rows := by
  obtain ⟨rows, hr⟩ := h.snapshot_ok walk
  obtain ⟨hsort, hm⟩ := Store.snapshot_ok hr
  rw [hr, Rows.eq_of_mem_iff hsort t.sorted fun k v => ?_]
  rw [hm, ← ht, Table.get?_eq_some_iff]

variable [BEq V]

theorem Quiet.write_reply (k : Key) (v : V) (e : Option V) : (s.write k v e).reply =
    if s.meets k e then .ok () else .error (.conditionFailed k) := by
  rw [Store.write_reply, h.structure_free, h.cellAt_free, meets_eq]
  rfl

end

end Store

end TwoPhaseStore
