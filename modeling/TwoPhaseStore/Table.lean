/-!
Finite tables with string keys: a list of rows, keys strictly increasing (by code points, which is
also the order of the UTF-8 bytes).  One row per key, so equal look-ups mean equal tables:

    (∀ k, t.get? k = u.get? k) → t = u                                (Table.ext_get?)
    (t.insert k a).get? j = if j = k then some a else t.get? j         (Table.get?_insert)
    (t.erase k).get? j = if j = k then none else t.get? j              (Table.get?_erase)

Tables are kept sorted so that equal ones are equal lists, but what visits the keys of a hash table
meets them in an order of the table's own, which depends on how it grew.  That order is no part of a
table: where it is to be seen it is an argument, the `walk`, and all that is said of it holds for
every walk.
-/

namespace TwoPhaseStore

/-- What the rows of a table are found by. -/
abbrev Key := String

namespace Rows

variable {α β : Type}

/-- Keys strictly increase along the rows. -/
def Sorted (rows : List (Key × α)) : Prop := rows.Pairwise fun a b => a.1 < b.1

def get? (k : Key) : List (Key × α) → Option α
  | [] => none
  | (j, a) :: rows => if k = j then some a else get? k rows

/-- Puts a row in its place, over the row of the same key if there is one. -/
def insert (k : Key) (a : α) : List (Key × α) → List (Key × α)
  | [] => [(k, a)]
  | (j, b) :: rows =>
    if k < j then (k, a) :: (j, b) :: rows
    else if k = j then (k, a) :: rows
    else (j, b) :: insert k a rows

def erase (k : Key) (rows : List (Key × α)) : List (Key × α) := rows.filter fun r => r.1 ≠ k

theorem lt_of_not_lt_of_ne {a b : Key} (h : ¬ a < b) (hn : a ≠ b) : b < a := by
  exact String.not_le.1 fun hab => hn (String.le_antisymm hab (String.not_lt.1 h))

theorem get?_eq_none {k : Key} {rows : List (Key × α)} (h : ∀ r ∈ rows, k < r.1) :
    get? k rows = none := by
  induction rows with
  | nil => rfl
  | cons r rows ih =>
    have hk : k ≠ r.1 := fun he => String.lt_irrefl _ (he ▸ h r List.mem_cons_self)
    rw [get?, if_neg hk, ih fun r' hr' => h r' (List.mem_cons_of_mem _ hr')]

theorem get?_insert (k j : Key) (a : α) (rows : List (Key × α)) :
    get? j (insert k a rows) = if j = k then some a else get? j rows := by
  induction rows with
  | nil => rfl
  | cons r rows ih =>
    obtain ⟨i, b⟩ := r
    rw [insert]
    split
    · simp [get?]
    · split
      · next hk => subst hk; by_cases hj : j = k <;> simp [get?, hj]
      · next hlt hne =>
        by_cases hj : j = k
        · subst hj; simp [get?, hne, ih]
        · simp [get?, ih, hj]

theorem get?_erase (k j : Key) (rows : List (Key × α)) :
    get? j (erase k rows) = if j = k then none else get? j rows := by
  induction rows with
  | nil => simp [erase, get?]
  | cons r rows ih =>
    obtain ⟨i, b⟩ := r
    simp only [erase] at ih ⊢
    by_cases hi : i = k
    · subst hi
      by_cases hj : j = i <;> simp_all [get?]
    · by_cases hj : j = k
      · subst hj; simp_all [get?, Ne.symm hi]
      · simp_all [get?]

theorem mem_insert {k : Key} {a : α} {r : Key × α} {rows : List (Key × α)}
    (h : r ∈ insert k a rows) : r = (k, a) ∨ r ∈ rows := by
  induction rows with
  | nil => simpa [insert] using h
  | cons s rows ih =>
    obtain ⟨j, b⟩ := s
    rw [insert] at h
    split at h <;> grind

theorem sorted_insert (k : Key) (a : α) {rows : List (Key × α)} (h : Sorted rows) :
    Sorted (insert k a rows) := by
  induction rows with
  | nil => simp [insert, Sorted]
  | cons s rows ih =>
    obtain ⟨j, b⟩ := s
    have hj := List.pairwise_cons.1 h
    rw [insert]
    split
    · next hk =>
      exact List.pairwise_cons.2 ⟨fun r hr => (List.mem_cons.1 hr).elim (fun he => he ▸ hk)
        (fun hm => String.lt_trans hk (hj.1 r hm)), h⟩
    · next hk =>
      split
      · next he => subst he; exact List.pairwise_cons.2 hj
      · next hne =>
        exact List.pairwise_cons.2 ⟨fun r hr => (mem_insert hr).elim
          (fun he => he ▸ lt_of_not_lt_of_ne hk hne) (fun hm => hj.1 r hm), ih hj.2⟩

theorem sorted_erase (k : Key) {rows : List (Key × α)} (h : Sorted rows) :
    Sorted (erase k rows) :=
  List.Pairwise.filter _ h

theorem sorted_map (f : Key → α → β) {rows : List (Key × α)} (h : Sorted rows) :
    Sorted (rows.map fun r => (r.1, f r.1 r.2)) :=
  List.pairwise_map.2 (List.Pairwise.imp (fun h => h) h)

theorem eq_of_get?_eq {rows rows' : List (Key × α)} (h : Sorted rows) (h' : Sorted rows')
    (he : ∀ k, get? k rows = get? k rows') : rows = rows' := by
  induction rows generalizing rows' with
  | nil =>
    cases rows' with
    | nil => rfl
    | cons r rows' => have := he r.1; simp [get?] at this
  | cons r rows ih =>
    cases rows' with
    | nil => have := he r.1; simp [get?] at this
    | cons r' rows' =>
      obtain ⟨j, a⟩ := r
      obtain ⟨j', a'⟩ := r'
      have hr := List.pairwise_cons.1 h
      have hr' := List.pairwise_cons.1 h'
      have hjj : j = j' := by
        by_cases hlt : j < j'
        · have := he j
          have hn : get? j rows' = none := get?_eq_none fun r hr => String.lt_trans hlt (hr'.1 r hr)
          have hne : j ≠ j' := fun he => String.lt_irrefl _ (he ▸ hlt)
          simp [get?, hn, hne] at this
        · by_cases heq : j = j'
          · exact heq
          · have hlt' := lt_of_not_lt_of_ne hlt heq
            have := he j'
            have hn : get? j' rows = none :=
              get?_eq_none fun r hm => String.lt_trans hlt' (hr.1 r hm)
            simp [get?, hn, Ne.symm heq] at this
      subst hjj
      have haa : a = a' := by simpa [get?] using he j
      subst haa
      rw [ih hr.2 hr'.2 fun k => ?_]
      by_cases hk : k = j
      · subst hk
        rw [get?_eq_none hr.1, get?_eq_none hr'.1]
      · simpa [get?, hk] using he k

end Rows

/-- A finite table: rows sorted by key, one per key. -/
structure Table (α : Type) where
  rows : List (Key × α)
  sorted : Rows.Sorted rows

namespace Table

variable {α β : Type}

instance [DecidableEq α] : DecidableEq (Table α) := fun t u =>
  decidable_of_iff (t.rows = u.rows) ⟨fun h => by cases t; cases u; cases h; rfl, fun h => h ▸ rfl⟩

def empty : Table α := ⟨[], List.Pairwise.nil⟩

instance : Inhabited (Table α) := ⟨empty⟩

def get? (t : Table α) (k : Key) : Option α := Rows.get? k t.rows

def contains (t : Table α) (k : Key) : Bool := (t.get? k).isSome

def insert (t : Table α) (k : Key) (a : α) : Table α :=
  ⟨Rows.insert k a t.rows, Rows.sorted_insert k a t.sorted⟩

def erase (t : Table α) (k : Key) : Table α :=
  ⟨Rows.erase k t.rows, Rows.sorted_erase k t.sorted⟩

/-- Changes the row of `k`, if there is one. -/
def modify (t : Table α) (k : Key) (f : α → α) : Table α :=
  match t.get? k with
  | some a => t.insert k (f a)
  | none => t

def map (f : Key → α → β) (t : Table α) : Table β :=
  ⟨t.rows.map fun r => (r.1, f r.1 r.2), Rows.sorted_map f t.sorted⟩

/-- The table of some rows in any order; of rows with one key the last counts. -/
def ofList (rows : List (Key × α)) : Table α := rows.foldl (fun t r => t.insert r.1 r.2) empty

def keys (t : Table α) : List Key := t.rows.map (·.1)

def size (t : Table α) : Nat := t.rows.length

def isEmpty (t : Table α) : Bool := t.rows.isEmpty

theorem ext_get? {t u : Table α} (h : ∀ k, t.get? k = u.get? k) : t = u := by
  have := Rows.eq_of_get?_eq t.sorted u.sorted h
  cases t; cases u; cases this; rfl

@[simp] theorem get?_empty (k : Key) : (empty : Table α).get? k = none := rfl

@[simp] theorem get?_insert (t : Table α) (k j : Key) (a : α) :
    (t.insert k a).get? j = if j = k then some a else t.get? j := Rows.get?_insert k j a t.rows

@[simp] theorem get?_erase (t : Table α) (k j : Key) :
    (t.erase k).get? j = if j = k then none else t.get? j := Rows.get?_erase k j t.rows

@[simp] theorem get?_map (f : Key → α → β) (t : Table α) (k : Key) :
    (t.map f).get? k = (t.get? k).map (f k) := by
  obtain ⟨rows, h⟩ := t
  simp only [map, get?]
  clear h
  induction rows with
  | nil => rfl
  | cons r rows ih => by_cases hk : k = r.1 <;> simp [Rows.get?, hk, ih]

@[simp] theorem get?_modify (t : Table α) (k j : Key) (f : α → α) :
    (t.modify k f).get? j = if j = k then (t.get? j).map f else t.get? j := by
  unfold modify
  split
  · next a h => by_cases hj : j = k <;> simp_all
  · next h => by_cases hj : j = k <;> simp_all

theorem insert_insert (t : Table α) (k : Key) (a b : α) :
    (t.insert k a).insert k b = t.insert k b := by
  apply ext_get?
  intro j
  by_cases hj : j = k <;> simp [hj]

/-- Putting a row where it stands already changes nothing. -/
theorem insert_of_get? {t : Table α} {k : Key} {a : α} (h : t.get? k = some a) :
    t.insert k a = t := by
  apply ext_get?
  intro j
  by_cases hj : j = k
  · subst hj; simp [h]
  · simp [hj]

end Table

/-! ## Visits -/

/-- The one of some keys that is met first on a walk.  If none of them is on the walk, it is the
first that is listed. -/
def firstVisited (walk : List Key) (key : Key) (others : List Key) : Key :=
  (walk.find? fun k => k ∈ key :: others).getD key

@[simp] theorem firstVisited_nil (key : Key) (others : List Key) :
    firstVisited [] key others = key := rfl

theorem firstVisited_cons (k : Key) (walk : List Key) (key : Key) (others : List Key) :
    firstVisited (k :: walk) key others =
      if k ∈ key :: others then k else firstVisited walk key others := by
  unfold firstVisited
  by_cases h : k ∈ key :: others
  · rw [List.find?_cons_of_pos (by simpa using h), if_pos h]
    rfl
  · rw [List.find?_cons_of_neg (by simpa using h), if_neg h]

/-- Only one of the keys is met. -/
theorem firstVisited_mem (walk : List Key) (key : Key) (others : List Key) :
    firstVisited walk key others ∈ key :: others := by
  induction walk with
  | nil => exact List.mem_cons_self
  | cons k walk ih =>
    rw [firstVisited_cons]
    split
    · next h => exact h
    · exact ih

/-- Any of the keys is met first on some walk. -/
theorem exists_firstVisited {key k : Key} {others : List Key} (h : k ∈ key :: others) :
    ∃ walk, firstVisited walk key others = k :=
  ⟨[k], (firstVisited_cons k [] key others).trans (if_pos h)⟩

end TwoPhaseStore
