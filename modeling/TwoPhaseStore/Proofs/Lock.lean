import TwoPhaseStore.Event
import TwoPhaseStore.Lock

/-!
Locks and the parties that are entitled to them.  `l.HeldBy P` says that the lock `l` is held by
exactly the parties of `P`, each in its mode and each once:

    l.HeldBy P → l.take? mode who = some m → m.HeldBy (P and who, in its mode)     (HeldBy.take)
    l.HeldBy P → (l.release who).HeldBy (P without who)                          (HeldBy.release)
-/

namespace TwoPhaseStore

namespace Lock

/-- Whether `who` holds the lock in this mode. -/
def Grants (l : Lock) : LockMode → Holder → Prop
  | .shared, who => l.admitsReader = true ∧ who ∈ l.holders
  | .exclusive, who => l = exclusive who

/-- Takes the lock in a mode. -/
def take? : LockMode → Holder → Lock → Option Lock
  | .shared => share?
  | .exclusive => claim?

/-- The parties of `P` and no others hold the lock, and no party holds it twice. -/
def HeldBy (l : Lock) (P : LockMode → Holder → Prop) : Prop :=
  l.holders.Nodup ∧ ∀ mode who, l.Grants mode who ↔ P mode who

variable {l m : Lock} {who : Holder} {P Q : LockMode → Holder → Prop}

theorem not_grants_free (mode : LockMode) (who : Holder) : ¬ free.Grants mode who := by
  cases mode <;> simp [Grants, holders]

theorem grants_exclusive {mode : LockMode} {h : Holder} :
    (exclusive h).Grants mode who ↔ mode = .exclusive ∧ who = h := by
  cases mode <;> simp [Grants, admitsReader, eq_comm]

theorem grants_shared {mode : LockMode} {h : Holder} {hs : List Holder} :
    (shared h hs).Grants mode who ↔ mode = .shared ∧ who ∈ h :: hs := by
  cases mode <;> simp [Grants, admitsReader, holders]

theorem grants_ofReaders {mode : LockMode} {hs : List Holder} :
    (ofReaders hs).Grants mode who ↔ mode = .shared ∧ who ∈ hs := by
  cases hs with
  | nil => simpa [ofReaders] using not_grants_free mode who
  | cons h hs => exact grants_shared

theorem exists_grants_of_mem_holders (h : who ∈ l.holders) : ∃ mode, l.Grants mode who := by
  cases l with
  | free => simp [holders] at h
  | shared h' hs => exact ⟨.shared, grants_shared.2 ⟨rfl, h⟩⟩
  | exclusive h' => exact ⟨.exclusive, grants_exclusive.2 ⟨rfl, by simpa [holders] using h⟩⟩

theorem mem_holders_iff : who ∈ l.holders ↔ ∃ mode, l.Grants mode who := by
  refine ⟨exists_grants_of_mem_holders, fun ⟨mode, h⟩ => ?_⟩
  cases mode with
  | shared => exact h.2
  | exclusive =>
    obtain rfl : l = exclusive who := h
    exact List.mem_singleton_self who

/-- Who is let in finds only parties of its own mode. -/
theorem eq_of_take? {mode mode' : LockMode} {other : Holder} (h : l.take? mode who = some m)
    (hg : l.Grants mode' other) : mode' = mode := by
  cases l with
  | free => exact absurd hg (not_grants_free _ _)
  | shared a as =>
    cases mode with
    | shared => exact (grants_shared.1 hg).1
    | exclusive => cases h
  | exclusive a => cases mode <;> cases h

/-- Readers are let in unless somebody writes. -/
theorem admitsReader_iff : l.admitsReader = true ↔ ∀ who, l ≠ .exclusive who := by
  cases l <;> simp [admitsReader]

/-- Only what a party holds can it let go. -/
theorem release_of_not_mem (h : who ∉ l.holders) : l.release who = l := by
  cases l with
  | free => rfl
  | shared h' hs =>
    have he : (h' :: hs).erase who = h' :: hs := List.erase_of_not_mem h
    rw [release, he]
    rfl
  | exclusive h' =>
    have hne : h' ≠ who := fun he => h (by simp [holders, he])
    rw [release, if_neg hne]

theorem release_ofReaders (hs : List Holder) :
    (ofReaders hs).release who = ofReaders (hs.erase who) := by
  cases hs <;> rfl

/-- Readers are let in whoever of the readers leaves. -/
theorem admitsReader_release (who : Holder) (h : l.admitsReader = true) :
    (l.release who).admitsReader = true := by
  cases l with
  | free => rfl
  | shared a as => rw [release]; cases (a :: as).erase who <;> rfl
  | exclusive a => cases h

/-- Two parties leave in any order. -/
theorem release_comm (a b : Holder) (l : Lock) :
    (l.release a).release b = (l.release b).release a := by
  cases l with
  | free => rfl
  | shared h hs =>
    show (ofReaders ((h :: hs).erase a)).release b = (ofReaders ((h :: hs).erase b)).release a
    rw [release_ofReaders, release_ofReaders, List.erase_comm]
  | exclusive h => grind [release]

namespace HeldBy

theorem congr (hl : l.HeldBy P) (h : ∀ mode who, P mode who ↔ Q mode who) : l.HeldBy Q :=
  ⟨hl.1, fun mode who => (hl.2 mode who).trans (h mode who)⟩

theorem of_free (h : ∀ mode who, ¬ P mode who) : free.HeldBy P :=
  ⟨List.nodup_nil, fun mode who => iff_of_false (not_grants_free mode who) (h mode who)⟩

theorem not_of_free (hl : free.HeldBy P) (mode : LockMode) (who : Holder) : ¬ P mode who :=
  fun h => not_grants_free mode who ((hl.2 mode who).2 h)

theorem eq_free (hl : l.HeldBy P) (h : ∀ mode who, ¬ P mode who) : l = free := by
  refine isFree_iff.1 (isFree_iff_holders.2 (List.eq_nil_iff_forall_not_mem.2 fun who hw => ?_))
  obtain ⟨mode, hg⟩ := exists_grants_of_mem_holders hw
  exact h mode who ((hl.2 mode who).1 hg)

theorem eq_exclusive (hl : l.HeldBy P) (h : P .exclusive who) : l = exclusive who :=
  (hl.2 .exclusive who).2 h

theorem not_mem_holders (hl : l.HeldBy P) (h : ∀ mode, ¬ P mode who) : who ∉ l.holders := by
  intro hw
  obtain ⟨mode, hg⟩ := exists_grants_of_mem_holders hw
  exact h mode ((hl.2 mode who).1 hg)

theorem exclusive_self : (exclusive who).HeldBy fun mode h => mode = .exclusive ∧ h = who :=
  ⟨List.nodup_cons.2 ⟨List.not_mem_nil, List.nodup_nil⟩, fun _ _ => grants_exclusive⟩

theorem share (hl : l.HeldBy P) (h : l.share? who = some m) (hw : ∀ mode, ¬ P mode who) :
    m.HeldBy fun mode h => P mode h ∨ (mode = .shared ∧ h = who) := by
  have hn : who ∉ l.holders := hl.not_mem_holders hw
  refine ⟨by rw [holders_share? h]; exact List.nodup_cons.2 ⟨hn, hl.1⟩, fun mode h' => ?_⟩
  show _ ↔ P mode h' ∨ _
  rw [← hl.2]
  cases l with
  | free =>
    obtain rfl := Option.some.inj h
    simp [grants_shared, not_grants_free]
  | shared a as =>
    obtain rfl := Option.some.inj h
    simp only [grants_shared, List.mem_cons]
    constructor
    · rintro ⟨hm, rfl | h⟩
      · exact .inr ⟨hm, rfl⟩
      · exact .inl ⟨hm, h⟩
    · rintro (⟨hm, h⟩ | ⟨hm, rfl⟩)
      · exact ⟨hm, .inr h⟩
      · exact ⟨hm, .inl rfl⟩
  | exclusive a => cases h

/-- One more party takes the lock. -/
theorem take {mode : LockMode} (hl : l.HeldBy P) (h : l.take? mode who = some m)
    (hw : ∀ mode, ¬ P mode who) : m.HeldBy fun mode' h => P mode' h ∨ (mode' = mode ∧ h = who) := by
  cases mode with
  | shared => exact hl.share h hw
  | exclusive =>
    obtain ⟨rfl, rfl⟩ := claim?_eq_some.1 h
    refine exclusive_self.congr fun mode' h' => ?_
    have hn := hl.not_of_free mode' h'
    simp [hn]

/-- A party leaves. -/
theorem release (hl : l.HeldBy P) (who : Holder) :
    (l.release who).HeldBy fun mode h => P mode h ∧ h ≠ who := by
  refine ⟨by rw [holders_release]; exact hl.1.erase who, fun mode h => ?_⟩
  show _ ↔ P mode h ∧ _
  rw [← hl.2]
  cases l with
  | free => simp [not_grants_free]
  | shared a as =>
    have hn : (a :: as).Nodup := hl.1
    rw [Lock.release, grants_ofReaders, grants_shared, hn.mem_erase_iff]
    constructor
    · rintro ⟨hm, hne, h⟩; exact ⟨⟨hm, h⟩, hne⟩
    · rintro ⟨⟨hm, h⟩, hne⟩; exact ⟨hm, hne, h⟩
  | exclusive a =>
    rw [Lock.release]
    by_cases ha : a = who
    · subst ha
      rw [if_pos rfl, grants_exclusive]
      exact iff_of_false (not_grants_free mode h) fun hc => hc.2 hc.1.2
    · rw [if_neg ha, grants_exclusive]
      constructor
      · rintro ⟨hm, rfl⟩; exact ⟨⟨hm, rfl⟩, ha⟩
      · rintro ⟨hc, -⟩; exact hc

end HeldBy

end Lock

end TwoPhaseStore
