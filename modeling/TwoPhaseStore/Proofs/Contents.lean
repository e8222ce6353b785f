import TwoPhaseStore.Command

/-!
What a map is about: which payload each key has, if any.  Commands change contents one key each; a
batch that names no key twice changes them at once:

    c ∈ batch → m.applyAll batch c.key = c.result (m c.key)             (Contents.applyAll_of_mem)
    k ∉ batch.map (·.key) → m.applyAll batch k = m k                (Contents.applyAll_of_not_mem)
-/

namespace TwoPhaseStore

variable {V : Type}

abbrev Contents (V : Type) := Key → Option V

/-- What a command makes of the payload of its key. -/
def Command.result : Command V → Option V → Option V
  | .get _, p => p
  | .set _ v _, _ => some v
  | .del _, _ => none

/-- The condition of a command holds: there is a payload, and it equals the one expected. -/
def Command.Met [BEq V] (m : Contents V) (c : Command V) : Prop :=
  ∀ e, c.expected? = some e → ∃ v, m c.key = some v ∧ (v == e) = true

/-- Where no key comes twice, the keys of a later part are not those of an earlier one. -/
theorem Command.key_not_mem_of_nodup {done rest : List (Command V)} {c : Command V}
    (hn : ((done ++ rest).map key).Nodup) (hc : c ∈ rest) : c.key ∉ done.map key := by
  rw [List.map_append] at hn
  exact fun hm => (List.nodup_append.1 hn).2.2 _ hm _ (List.mem_map_of_mem hc) rfl

namespace Contents

def put (m : Contents V) (k : Key) (p : Option V) : Contents V := fun j => if j = k then p else m j

def apply (m : Contents V) (c : Command V) : Contents V := m.put c.key (c.result (m c.key))

/-- The rows of a list; of rows with one key the last counts. -/
def ofRows (rows : List (Key × V)) : Contents V :=
  rows.foldl (fun m r => m.put r.1 (some r.2)) fun _ => none

/-- All commands of a batch, one after another. -/
def applyAll (m : Contents V) (batch : List (Command V)) : Contents V := batch.foldl apply m

@[simp] theorem put_self (m : Contents V) (k : Key) (p : Option V) : m.put k p k = p := if_pos rfl

theorem put_of_ne (m : Contents V) {k j : Key} (p : Option V) (h : j ≠ k) : m.put k p j = m j :=
  if_neg h

theorem applyAll_cons (m : Contents V) (c : Command V) (batch : List (Command V)) :
    m.applyAll (c :: batch) = (m.apply c).applyAll batch := rfl

theorem applyAll_append (m : Contents V) (done rest : List (Command V)) :
    m.applyAll (done ++ rest) = (m.applyAll done).applyAll rest := List.foldl_append

theorem applyAll_of_not_mem (m : Contents V) {batch : List (Command V)} {k : Key}
    (h : k ∉ batch.map Command.key) : m.applyAll batch k = m k := by
  induction batch generalizing m with
  | nil => rfl
  | cons c batch ih =>
    rw [List.map_cons, List.mem_cons, not_or] at h
    rw [applyAll_cons, ih (m.apply c) h.2]
    exact put_of_ne m _ h.1

theorem applyAll_of_mem (m : Contents V) {batch : List (Command V)} {c : Command V}
    (hn : (batch.map Command.key).Nodup) (hc : c ∈ batch) :
    m.applyAll batch c.key = c.result (m c.key) := by
  induction batch generalizing m with
  | nil => cases hc
  | cons d batch ih =>
    rw [List.map_cons, List.nodup_cons] at hn
    rw [applyAll_cons]
    rcases List.mem_cons.1 hc with rfl | hc
    · rw [applyAll_of_not_mem _ hn.1]
      exact put_self m c.key _
    · have hne : c.key ≠ d.key := fun he => hn.1 (he ▸ List.mem_map_of_mem hc)
      rw [ih (m.apply d) hn.2 hc]
      exact congrArg c.result (put_of_ne m _ hne)

/-- Commands on distinct keys come to the same in any order. -/
theorem applyAll_perm (m : Contents V) {batch order : List (Command V)}
    (hn : (batch.map Command.key).Nodup) (hp : order.Perm batch) :
    m.applyAll order = m.applyAll batch := by
  have hn' : (order.map Command.key).Nodup := (hp.map Command.key).nodup_iff.2 hn
  funext k
  by_cases hk : k ∈ batch.map Command.key
  · obtain ⟨c, hc, rfl⟩ := List.mem_map.1 hk
    rw [applyAll_of_mem m hn hc, applyAll_of_mem m hn' (hp.mem_iff.2 hc)]
  · have hk' : k ∉ order.map Command.key := fun h => hk ((hp.map Command.key).mem_iff.1 h)
    rw [applyAll_of_not_mem m hk, applyAll_of_not_mem m hk']

/-- Of a batch with distinct keys the last commands can be left out if they change nothing. -/
theorem applyAll_eq_append_iff (m : Contents V) {done rest : List (Command V)}
    (hn : ((done ++ rest).map Command.key).Nodup) : m.applyAll done = m.applyAll (done ++ rest) ↔
      ∀ c ∈ rest, c.result (m c.key) = m c.key := by
  have hd : ∀ c ∈ rest, m.applyAll done c.key = m c.key := fun c hc =>
    applyAll_of_not_mem m (Command.key_not_mem_of_nodup hn hc)
  constructor
  · intro h c hc
    rw [← applyAll_of_mem m hn (List.mem_append_right _ hc), ← h, hd c hc]
  · intro h
    rw [applyAll_append]
    have hr : (rest.map Command.key).Nodup := by
      rw [List.map_append] at hn
      exact (List.nodup_append.1 hn).2.1
    funext k
    by_cases hk : k ∈ rest.map Command.key
    · obtain ⟨c, hc, rfl⟩ := List.mem_map.1 hk
      rw [applyAll_of_mem _ hr hc, hd c hc, h c hc]
    · rw [applyAll_of_not_mem _ hk]

/-- A batch with distinct keys changes nothing if none of its commands does. -/
theorem applyAll_eq_self_iff (m : Contents V) {batch : List (Command V)}
    (hn : (batch.map Command.key).Nodup) : m.applyAll batch = m ↔
      ∀ c ∈ batch, c.result (m c.key) = m c.key := by
  have h : m.applyAll [] = m.applyAll ([] ++ batch) ↔ _ := applyAll_eq_append_iff m hn
  exact eq_comm.trans h

end Contents

end TwoPhaseStore
