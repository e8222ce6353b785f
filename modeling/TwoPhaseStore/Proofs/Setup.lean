import TwoPhaseStore.Proofs.Contents
import TwoPhaseStore.Proofs.Session
import TwoPhaseStore.Proofs.Store.Call
import TwoPhaseStore.Session.Setup

/-!
Sessions in which nothing has been done yet.  Each store has its rows, all of them committed, with
no lock held (`store_of_start`), and stores are told apart by their ids (`eq_of_start`).
-/

namespace TwoPhaseStore

variable {V : Type}

namespace Store

variable (id : Nat) (timeout : Duration) (rows : List (Key × V))

theorem get?_ofRows (k : Key) :
    (ofRows id timeout rows).cells.get? k = ((Table.ofList rows).get? k).map Cell.committed :=
  Table.get?_map _ _ _

theorem lockOn_ofRows (target : Option Key) : (ofRows id timeout rows).lockOn target = .free := by
  cases target with
  | none => rfl
  | some k =>
    show Slot.lock _ = _
    rw [get?_ofRows]
    cases (Table.ofList rows).get? k <;> rfl

theorem sound_ofRows : (ofRows id timeout rows).Sound := by
  intro k
  rw [get?_ofRows]
  cases (Table.ofList rows).get? k with
  | none => exact Slot.sound_none
  | some v => exact Slot.sound_some.2 rfl

theorem get?_foldl_insert (t : Table V) :
    (rows.foldl (fun t r => t.insert r.1 r.2) t).get? =
      rows.foldl (fun m r => Contents.put m r.1 (some r.2)) t.get? := by
  induction rows generalizing t with
  | nil => rfl
  | cons r rows ih =>
    have hr : (t.insert r.1 r.2).get? = Contents.put t.get? r.1 (some r.2) :=
      funext fun k => Table.get?_insert t r.1 k r.2
    rw [List.foldl_cons, List.foldl_cons, ih, hr]

/-- A store has at first what its rows say. -/
theorem contents_ofRows : (ofRows id timeout rows).contents = Contents.ofRows rows := by
  have hr : (Table.ofList rows).get? = Contents.ofRows rows := get?_foldl_insert rows .empty
  funext k
  rw [contents_eq, get?_ofRows, ← hr]
  cases (Table.ofList rows).get? k <;> rfl

end Store

namespace Session

/-- One backend for each plan, the stores numbered from `n` on. -/
theorem backendsOf_cons {n : Nat} {p : Backend.Plan V} {plans : List (Backend.Plan V)}
    {bs : List (Backend V)} (h : backendsOf n (p :: plans) = .ok bs) :
    ∃ timeout bs', (p.baseline = true ∧ backendsOf n plans = .ok bs' ∧
        bs = .baseline (.ofRows timeout p.rows) :: bs') ∨
      p.baseline = false ∧ backendsOf (n + 1) plans = .ok bs' ∧
        bs = .store (.ofRows n timeout p.rows) :: bs' := by
  rw [backendsOf] at h
  obtain ⟨c, -, h⟩ := bind_eq_ok h
  refine ⟨c.lockTimeout, ?_⟩
  split at h
  · next hb =>
    obtain ⟨bs', hr, h⟩ := bind_eq_ok h
    exact ⟨bs', .inl ⟨hb, hr, (Except.ok.inj h).symm⟩⟩
  · next hb =>
    obtain ⟨bs', hr, h⟩ := bind_eq_ok h
    exact ⟨bs', .inr ⟨eq_false_of_ne_true hb, hr, (Except.ok.inj h).symm⟩⟩

theorem store_of_backendsOf {n : Nat} {plans : List (Backend.Plan V)} {bs : List (Backend V)}
    (h : backendsOf n plans = .ok bs) {i : Nat} {st : Store V} (hi : bs[i]? = some (.store st)) :
    n ≤ st.id ∧ ∃ p timeout, plans[i]? = some p ∧ p.baseline = false ∧
      st = .ofRows st.id timeout p.rows := by
  induction plans generalizing n bs i with
  | nil => cases h; cases hi
  | cons p plans ih =>
    obtain ⟨timeout, bs', ⟨-, hr, rfl⟩ | ⟨hb, hr, rfl⟩⟩ := backendsOf_cons h
    · cases i with
      | zero => cases hi
      | succ i => exact ih hr hi
    · cases i with
      | zero =>
        cases hi
        exact ⟨Nat.le_refl _, p, timeout, rfl, hb, rfl⟩
      | succ i =>
        obtain ⟨hle, hp⟩ := ih hr hi
        exact ⟨Nat.le_of_succ_le hle, hp⟩

theorem eq_of_backendsOf {n : Nat} {plans : List (Backend.Plan V)} {bs : List (Backend V)}
    (h : backendsOf n plans = .ok bs) {i j : Nat} {st st' : Store V}
    (hi : bs[i]? = some (.store st)) (hj : bs[j]? = some (.store st')) (he : st.id = st'.id) :
    i = j := by
  induction plans generalizing n bs i j with
  | nil => cases h; cases hi
  | cons p plans ih =>
    obtain ⟨timeout, bs', ⟨-, hr, rfl⟩ | ⟨hb, hr, rfl⟩⟩ := backendsOf_cons h
    · cases i with
      | zero => cases hi
      | succ i =>
        cases j with
        | zero => cases hj
        | succ j => exact congrArg _ (ih hr hi hj)
    · -- every later store has a larger id than the first
      cases i with
      | zero =>
        cases j with
        | zero => rfl
        | succ j =>
          cases hi
          have hle : n + 1 ≤ st'.id := (store_of_backendsOf hr hj).1
          have hn : n = st'.id := he
          omega
      | succ i =>
        cases j with
        | zero =>
          cases hj
          have hle : n + 1 ≤ st.id := (store_of_backendsOf hr hi).1
          have hn : st.id = n := he
          omega
        | succ j => exact congrArg _ (ih hr hi hj)

section
variable {plans : List (Backend.Plan V)} {s : Session V} (h : start plans = .ok s)

include h

theorem start_eq : ∃ bs, backendsOf 1 plans = .ok bs ∧ s.backends = bs ∧ s.locks = [] := by
  obtain ⟨bs, hb, h⟩ := bind_eq_ok h
  cases h
  exact ⟨bs, hb, rfl, rfl⟩

theorem store_of_start {i : Nat} {st : Store V} (hi : s.store? i = some st) :
    ∃ p timeout, plans[i]? = some p ∧ p.baseline = false ∧ st = .ofRows st.id timeout p.rows := by
  obtain ⟨bs, hb, hs, -⟩ := start_eq h
  rw [store?_eq_some, hs] at hi
  exact (store_of_backendsOf hb hi).2

theorem eq_of_start {i j : Nat} {st st' : Store V} (hi : s.store? i = some st)
    (hj : s.store? j = some st') (he : st.id = st'.id) : i = j := by
  obtain ⟨bs, hb, hs, -⟩ := start_eq h
  rw [store?_eq_some, hs] at hi hj
  exact eq_of_backendsOf hb hi hj he

end

/-- A session with one store under the standard settings. -/
def single (rows : List (Key × V)) : Session V :=
  note (rows.map (·.1)) ⟨[.store (.ofRows 1 Config.default.lockTimeout rows)], [], .empty⟩

theorem start_single (rows : List (Key × V)) :
    start [⟨false, .standard, [], rows⟩] = .ok (single rows) := by
  have hf : [(⟨false, .standard, [], rows⟩ : Backend.Plan V)].flatMap
      (fun p => p.rows.map (·.1)) = rows.map (·.1) := List.append_nil _
  unfold start
  rw [hf]
  rfl

end Session

end TwoPhaseStore
