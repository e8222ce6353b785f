import TwoPhaseStore.Command

/-!
Tables by membership: which keys a table has, and which rows; and tables some of whose rows are
changed or left out.

    (ofList rows).contains k = true ↔ k ∈ rows.map (·.1)               (Table.contains_ofList)
    t.get? k = some a ↔ (k, a) ∈ t.rows                                (Table.get?_eq_some_iff)
-/

namespace TwoPhaseStore

namespace Rows

variable {α : Type}

theorem get?_eq_some_iff {k : Key} {a : α} {rows : List (Key × α)} (h : Sorted rows) :
    get? k rows = some a ↔ (k, a) ∈ rows := by
  induction rows with
  | nil => simp [get?]
  | cons r rows ih =>
    obtain ⟨j, b⟩ := r
    have hr := List.pairwise_cons.1 h
    rw [get?, List.mem_cons, ← ih hr.2]
    by_cases hk : k = j
    · subst hk
      have hn : get? k rows = none := get?_eq_none hr.1
      simp [hn, eq_comm]
    · simp [hk]

theorem sorted_filterMap {β : Type} (f : Key → α → Option β) {rows : List (Key × α)}
    (h : Sorted rows) : Sorted (rows.filterMap fun r => (f r.1 r.2).map (r.1, ·)) := by
  refine List.pairwise_filterMap.2 (h.imp ?_)
  intro a b hab x hx y hy
  obtain ⟨v, -, rfl⟩ := Option.map_eq_some_iff.1 hx
  obtain ⟨u, -, rfl⟩ := Option.map_eq_some_iff.1 hy
  exact hab

theorem get?_filterMap {β : Type} (f : Key → α → Option β) {rows : List (Key × α)}
    (h : Sorted rows) (k : Key) :
    get? k (rows.filterMap fun r => (f r.1 r.2).map (r.1, ·)) = (get? k rows).bind (f k) := by
  induction rows with
  | nil => rfl
  | cons r rows ih =>
    obtain ⟨j, a⟩ := r
    have hr := List.pairwise_cons.1 h
    have ih := ih hr.2
    by_cases hk : k = j
    · subst hk
      have hn : get? k rows = none := get?_eq_none hr.1
      rw [hn, Option.bind_none] at ih
      cases hf : f k a <;> simp [get?, hf, ih]
    · cases hf : f j a <;> simp [get?, hf, hk, ih]

/-- Sorted rows are equal if they are the same ones. -/
theorem eq_of_mem_iff {rows rows' : List (Key × α)} (h : Sorted rows) (h' : Sorted rows')
    (he : ∀ k a, (k, a) ∈ rows ↔ (k, a) ∈ rows') : rows = rows' :=
  eq_of_get?_eq h h' fun k => Option.ext fun a => by
    rw [get?_eq_some_iff h, get?_eq_some_iff h', he]

end Rows

namespace Table

variable {α : Type}

/-- Changes the rows or leaves them out, each by itself. -/
def filterMap {β : Type} (f : Key → α → Option β) (t : Table α) : Table β :=
  ⟨t.rows.filterMap fun r => (f r.1 r.2).map (r.1, ·), Rows.sorted_filterMap f t.sorted⟩

@[simp] theorem get?_filterMap {β : Type} (f : Key → α → Option β) (t : Table α) (k : Key) :
    (t.filterMap f).get? k = (t.get? k).bind (f k) := Rows.get?_filterMap f t.sorted k

theorem contains_iff {t : Table α} {k : Key} : t.contains k = true ↔ ∃ a, t.get? k = some a := by
  rw [contains, Option.isSome_iff_exists]

@[simp] theorem contains_empty (k : Key) : (empty : Table α).contains k = false := rfl

theorem contains_insert {t : Table α} {k j : Key} {a : α} :
    (t.insert k a).contains j = true ↔ j = k ∨ t.contains j = true := by
  unfold contains
  rw [get?_insert]
  by_cases h : j = k <;> simp [h]

theorem contains_erase {t : Table α} {k j : Key} :
    (t.erase k).contains j = true ↔ j ≠ k ∧ t.contains j = true := by
  unfold contains
  rw [get?_erase]
  by_cases h : j = k <;> simp [h]

theorem get?_eq_some_iff {t : Table α} {k : Key} {a : α} :
    t.get? k = some a ↔ (k, a) ∈ t.rows := Rows.get?_eq_some_iff t.sorted

theorem isEmpty_iff {t : Table α} : t.isEmpty = true ↔ ∀ k, t.get? k = none := by
  refine List.isEmpty_iff.trans ⟨fun h k => ?_, fun h => ?_⟩
  · show Rows.get? k t.rows = none
    rw [h]
    rfl
  · have he : t = empty := ext_get? h
    rw [he]
    rfl

theorem contains_iff_mem_keys {t : Table α} {k : Key} : t.contains k = true ↔ k ∈ t.keys := by
  simp only [contains_iff, get?_eq_some_iff, keys, List.mem_map, Prod.exists, exists_and_right,
    exists_eq_right]

/-- Keys strictly increase, so none comes twice. -/
theorem nodup_keys (t : Table α) : t.keys.Nodup := by
  refine List.pairwise_map.2 (t.sorted.imp ?_)
  intro a b hab he
  exact String.lt_irrefl _ (he ▸ hab)

/-- A table is as large as a list of its keys in which none comes twice. -/
theorem size_eq_length {t : Table α} {ks : List Key} (hn : ks.Nodup)
    (h : ∀ k, t.contains k = true ↔ k ∈ ks) : t.size = ks.length := by
  have hp : t.keys.Perm ks := (List.perm_ext_iff_of_nodup (nodup_keys t) hn).2 fun k => by
    rw [← contains_iff_mem_keys, h]
  rw [← hp.length_eq, keys, List.length_map, size]

theorem keys_eq_nil_iff {t : Table α} : t.keys = [] ↔ ∀ k, t.contains k = false := by
  simp only [List.eq_nil_iff_forall_not_mem, ← contains_iff_mem_keys, Bool.not_eq_true]

theorem contains_foldl_insert (rows : List (Key × α)) (t : Table α) (k : Key) :
    (rows.foldl (fun t r => t.insert r.1 r.2) t).contains k = true ↔
      k ∈ rows.map (·.1) ∨ t.contains k = true := by
  induction rows generalizing t with
  | nil => simp
  | cons r rows ih =>
    rw [List.foldl_cons, ih, contains_insert, List.map_cons, List.mem_cons]
    constructor
    · rintro (h | h | h)
      · exact .inl (.inr h)
      · exact .inl (.inl h)
      · exact .inr h
    · rintro ((h | h) | h)
      · exact .inr (.inl h)
      · exact .inl h
      · exact .inr (.inr h)

theorem contains_ofList {rows : List (Key × α)} {k : Key} :
    (ofList rows).contains k = true ↔ k ∈ rows.map (·.1) := by
  rw [ofList, contains_foldl_insert]
  simp

/-! ## Visits -/

/-- The rows in the order in which they are visited, each once: those on the walk, and then the
others. -/
def visited : List Key → Table α → List (Key × α)
  | [], t => t.rows
  | k :: walk, t =>
    match t.get? k with
    | some a => (k, a) :: visited walk (t.erase k)
    | none => visited walk t

theorem mem_visited {walk : List Key} {t : Table α} {r : Key × α} :
    r ∈ t.visited walk ↔ t.get? r.1 = some r.2 := by
  induction walk generalizing t with
  | nil => exact get?_eq_some_iff.symm
  | cons k walk ih =>
    rw [visited]
    cases hk : t.get? k with
    | none => exact ih
    | some a =>
      simp only [List.mem_cons, ih, get?_erase]
      by_cases hr : r.1 = k
      · rw [if_pos hr, hr, hk, Prod.ext_iff]
        simp [hr, eq_comm]
      · rw [if_neg hr]
        exact or_iff_right fun he => hr (congrArg Prod.fst he)

/-- What is looked for among the rows is not lost with a row that is not looked for. -/
theorem filter_rows_erase {p : Key × α → Bool} {t : Table α} {k : Key}
    (h : ∀ a, t.get? k = some a → p (k, a) = false) :
    (t.erase k).rows.filter p = t.rows.filter p := by
  show (t.rows.filter _).filter p = _
  rw [List.filter_filter]
  refine List.filter_congr fun r hr => ?_
  by_cases hk : r.1 = k
  · subst hk
    rw [h r.2 (get?_eq_some_iff.2 hr)]
    rfl
  · simp [hk]

/-- Of the rows that are looked for, the first that is visited is met. -/
theorem find?_visited {p : Key × α → Bool} (walk : List Key) {t : Table α} {k : Key}
    {ks : List Key} (h : (t.rows.filter p).map (·.1) = k :: ks) :
    ∃ a, (t.visited walk).find? p = some (firstVisited walk k ks, a) := by
  induction walk generalizing t with
  | nil =>
    obtain ⟨r, rs, hr, rfl, rfl⟩ := List.map_eq_cons_iff.1 h
    refine ⟨r.2, ?_⟩
    rw [visited, ← List.head?_filter, hr]
    rfl
  | cons j walk ih =>
    have hmem : j ∈ k :: ks ↔ ∃ a, t.get? j = some a ∧ p (j, a) = true := by
      rw [← h, List.mem_map]
      constructor
      · rintro ⟨r, hr, rfl⟩
        obtain ⟨hm, hp⟩ := List.mem_filter.1 hr
        exact ⟨r.2, get?_eq_some_iff.2 hm, hp⟩
      · rintro ⟨a, ha, hp⟩
        exact ⟨(j, a), List.mem_filter.2 ⟨get?_eq_some_iff.1 ha, hp⟩, rfl⟩
    rw [visited, firstVisited_cons]
    cases hj : t.get? j with
    | none =>
      have hn : j ∉ k :: ks := fun hm => by
        obtain ⟨a, ha, -⟩ := hmem.1 hm
        rw [hj] at ha
        cases ha
      rw [if_neg hn]
      exact ih h
    | some a =>
      cases hp : p (j, a) with
      | true =>
        rw [if_pos (hmem.2 ⟨a, hj, hp⟩)]
        exact ⟨a, List.find?_cons_of_pos hp⟩
      | false =>
        have hnone : ∀ b, t.get? j = some b → p (j, b) = false := fun b hb => by
          obtain rfl := Option.some.inj (hj.symm.trans hb)
          exact hp
        have hn : j ∉ k :: ks := fun hm => by
          obtain ⟨b, hb, hpb⟩ := hmem.1 hm
          rw [hnone b hb] at hpb
          cases hpb
        rw [if_neg hn]
        dsimp only
        rw [List.find?_cons_of_neg (by simp [hp])]
        exact ih ((filter_rows_erase hnone).symm ▸ h)

end Table

end TwoPhaseStore
