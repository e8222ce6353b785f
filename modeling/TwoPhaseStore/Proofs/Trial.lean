import TwoPhaseStore.Cell.Trial
import TwoPhaseStore.Proofs.Lock
import TwoPhaseStore.Proofs.Table

/-!
A cell is a slot for readers or one writer.  Who has seen only what was tried and what was replied
knows which guards are live, which payload was stored last and whether the cell is still there
(`Ledger`), and that is all the cell goes by:

    t.Tallies l mark → t.Obeys l mark                                          (Tallies.obeys)
    t.Tallies l mark → (t.step s).2.Tallies (l.note s (t.step s).1) mark        (Tallies.step)

So after any steps the cell obeys the ledger of these steps (`reader_writer_slot`).  Guards do not
need the cell: what is done with them goes on alike when it is dropped.
-/

namespace TwoPhaseStore.Cell

variable {V : Type}

/-- Whether the step is about a guard, not about the cell. -/
def Step.onGuard : Step V → Bool
  | .peek _ => true
  | .put _ _ => true
  | .release _ => true
  | _ => false

/-- What is known of a cell by the steps and their replies. -/
structure Ledger (V : Type) where
  /-- The names of the live guards, each with its mode. -/
  guards : Table LockMode
  /-- The payload that was stored last, or the first one. -/
  stored : Option V
  present : Bool

/-- Takes down a step and its reply. -/
def Ledger.note (l : Ledger V) : Step V → Reply V → Ledger V
  | .read g, .flag true => { l with guards := l.guards.insert g .shared }
  | .write g, .flag true => { l with guards := l.guards.insert g .exclusive }
  | .put _ p, .done => { l with stored := p }
  | .release g, .done => { l with guards := l.guards.erase g }
  | .drop, _ => { l with present := false }
  | _, _ => l

namespace Trial

def after : List (Step V) → Trial V → Trial V
  | [], t => t
  | s :: steps, t => (t.step s).2.after steps

/-- Takes down the steps of a run and what they reply. -/
def tally (t : Trial V) (steps : List (Step V)) (l : Ledger V) : Ledger V :=
  (steps.zip (t.run steps)).foldl (fun l e => l.note e.1 e.2.1) l

/-- The ledger of the steps on a new cell. -/
def ledger (init : Option V) (steps : List (Step V)) : Ledger V :=
  (new init).tally steps ⟨.empty, init, true⟩

def replies (t : Trial V) (steps : List (Step V)) : List (Reply V) := (t.run steps).map (·.1)

/-- How a cell that is marked like this replies by its ledger. -/
structure Obeys (t : Trial V) (l : Ledger V) (mark : Bool) : Prop where
  /-- A reader is let in while nobody writes. -/
  reads : ∀ g, l.present = true → ∃ b, (t.step (.read g)).1 = .flag b ∧
    (b = true ↔ ∀ other, l.guards.get? other ≠ some .exclusive)
  /-- A writer is let in while nobody has a guard. -/
  writes : ∀ g, l.present = true → ∃ b, (t.step (.write g)).1 = .flag b ∧
    (b = true ↔ ∀ other, l.guards.get? other = none)
  /-- The live guards are shared ones, or a single one that is exclusive. -/
  modes : (∀ g mode, l.guards.get? g = some mode → mode = .shared) ∨
    ∃ g, ∀ other, l.guards.get? other = if other = g then some .exclusive else none
  locked : t.locked? = if l.present then some (!l.guards.isEmpty) else none
  peeks : ∀ g, (t.step (.peek g)).1 = if l.guards.contains g then .payload l.stored else .gone
  /-- It takes an exclusive guard to store. -/
  puts : ∀ g p, (t.step (.put g p)).1 =
    if l.guards.get? g = some .exclusive then .done else .gone
  releases : ∀ g, (t.step (.release g)).1 = if l.guards.contains g then .done else .gone
  marked : l.present = true → (t.step .isTemporary).1 = .flag mark
  /-- There is nothing to try any more when the cell is dropped. -/
  dropped : l.present = false → (t.step .isTemporary).1 = .gone ∧
    ∀ g, (t.step (.read g)).1 = .gone ∧ (t.step (.write g)).1 = .gone

/-- The holders of the lock are the live guards, and the rest is as it was taken down. -/
structure Tallies (t : Trial V) (l : Ledger V) (mark : Bool) : Prop where
  held : t.cell.lock.HeldBy fun mode who => ∃ g, who = .named g ∧ l.guards.get? g = some mode
  stored : t.cell.payload = l.stored
  present : t.present = l.present
  mark : t.cell.temporary = mark

namespace Tallies

variable {t : Trial V} {l : Ledger V} {mark : Bool} (h : t.Tallies l mark)

include h

/-! ## Guards and holders -/

theorem grants_iff (g : String) (mode : LockMode) :
    t.cell.lock.Grants mode (.named g) ↔ l.guards.get? g = some mode := by
  rw [h.held.2]
  constructor
  · rintro ⟨g', he, hm⟩
    rwa [Holder.named.inj he]
  · exact fun hm => ⟨g, rfl, hm⟩

theorem mem_holders_iff (g : String) :
    .named g ∈ t.cell.lock.holders ↔ l.guards.contains g = true := by
  rw [Lock.mem_holders_iff, Table.contains_iff]
  exact exists_congr fun mode => h.grants_iff g mode

theorem admitsReader_iff :
    t.cell.lock.admitsReader = true ↔ ∀ g, l.guards.get? g ≠ some .exclusive := by
  rw [Lock.admitsReader_iff]
  constructor
  · exact fun hn g hg => hn _ ((h.grants_iff g .exclusive).2 hg)
  · intro hn who he
    obtain ⟨g, -, hg⟩ := (h.held.2 .exclusive who).1 he
    exact hn g hg

theorem isFree_iff : t.cell.lock.isFree = true ↔ ∀ g, l.guards.get? g = none := by
  constructor
  · intro hf g
    rw [Lock.isFree_iff] at hf
    cases hg : l.guards.get? g with
    | none => rfl
    | some mode => exact absurd ((h.grants_iff g mode).2 hg) (hf ▸ Lock.not_grants_free _ _)
  · intro hn
    refine Lock.isFree_iff.2 (h.held.eq_free fun mode who => ?_)
    rintro ⟨g, -, hg⟩
    rw [hn] at hg
    cases hg

theorem modes : (∀ g mode, l.guards.get? g = some mode → mode = .shared) ∨
    ∃ g, ∀ other, l.guards.get? other = if other = g then some .exclusive else none := by
  by_cases hx : ∃ g, l.guards.get? g = some .exclusive
  · obtain ⟨g, hg⟩ := hx
    have hl : t.cell.lock = .exclusive (.named g) := (h.grants_iff g .exclusive).2 hg
    refine .inr ⟨g, fun other => ?_⟩
    split
    · next he => rw [he, hg]
    · next hne =>
      cases ho : l.guards.get? other with
      | none => rfl
      | some mode =>
        have hgr := (h.grants_iff other mode).2 ho
        rw [hl, Lock.grants_exclusive] at hgr
        exact absurd (Holder.named.inj hgr.2) hne
  · refine .inl fun g mode hg => ?_
    cases mode with
    | shared => rfl
    | exclusive => exact absurd ⟨g, hg⟩ hx

/-! ## Replies -/

/-- A cell goes by its ledger. -/
theorem obeys : t.Obeys l mark := by
  refine ⟨fun g hp => ?_, fun g hp => ?_, h.modes, ?_, fun g => ?_, fun g p => ?_, fun g => ?_,
    fun hp => ?_, fun hp => ?_⟩
  · refine ⟨(t.cell.lock.share? (.named g)).isSome, ?_, ?_⟩
    · rw [step, if_pos (h.present.trans hp), share?]
      cases t.cell.lock.share? (.named g) <;> rfl
    · rw [Lock.share?_isSome, h.admitsReader_iff]
  · refine ⟨(t.cell.lock.claim? (.named g)).isSome, ?_, ?_⟩
    · rw [step, if_pos (h.present.trans hp), claim?]
      cases t.cell.lock.claim? (.named g) <;> rfl
    · rw [Lock.claim?_isSome, h.isFree_iff]
  · have he : t.cell.lock.isFree = l.guards.isEmpty := by
      rw [Bool.eq_iff_iff, h.isFree_iff, Table.isEmpty_iff]
    rw [locked?, h.present, he]
  · have hm := h.mem_holders_iff g
    rw [step, peek?, h.stored]
    by_cases hg : l.guards.contains g = true
    · rw [if_pos hg, if_pos (hm.2 hg)]
      rfl
    · rw [if_neg hg, if_neg (mt hm.1 hg)]
      rfl
  · have hx : t.cell.lock = .exclusive (.named g) ↔ _ := h.grants_iff g .exclusive
    rw [step]
    by_cases hg : l.guards.get? g = some .exclusive
    · rw [if_pos hg, if_pos (hx.2 hg)]
    · rw [if_neg hg, if_neg (mt hx.1 hg)]
  · have hm := h.mem_holders_iff g
    rw [step]
    by_cases hg : l.guards.contains g = true
    · rw [if_pos hg, if_pos (hm.2 hg)]
    · rw [if_neg hg, if_neg (mt hm.1 hg)]
  · rw [step, if_pos (h.present.trans hp), h.mark]
  · have hn : ¬ t.present = true := by
      rw [h.present, hp]
      exact Bool.false_ne_true
    refine ⟨?_, fun g => ⟨?_, ?_⟩⟩ <;> rw [step, if_neg hn]

/-! ## Steps -/

/-- A guard is kept under its name, be it that it was live before. -/
theorem keep (mode : LockMode) (g : String) {c : Cell V}
    (hc : (t.cell.lock.take? mode (.named g)).map (fun m => { t.cell with lock := m }) = some c) :
    (t.keep (.named g) (some c)).2.Tallies { l with guards := l.guards.insert g mode } mark := by
  obtain ⟨m, hm, rfl⟩ := Option.map_eq_some_iff.1 hc
  rw [Trial.keep]
  split
  · next hg =>
    obtain ⟨mode', hgr⟩ := Lock.mem_holders_iff.1 hg
    obtain rfl := Lock.eq_of_take? hm hgr
    rw [Table.insert_of_get? ((h.grants_iff g mode').1 hgr)]
    exact h
  · next hg =>
    refine ⟨?_, h.stored, h.present, h.mark⟩
    have hn : ∀ mode, ¬ ∃ g', Holder.named g = .named g' ∧ l.guards.get? g' = some mode :=
      fun mode hx => hg (Lock.mem_holders_iff.2 ⟨mode, (h.held.2 mode _).2 hx⟩)
    refine (h.held.take hm hn).congr fun mode' who => ?_
    simp only [Table.get?_insert]
    constructor
    · rintro (⟨g', rfl, hg'⟩ | ⟨rfl, rfl⟩)
      · refine ⟨g', rfl, ?_⟩
        rw [if_neg fun he => hn mode' ⟨g', congrArg _ he.symm, hg'⟩, hg']
      · exact ⟨g, rfl, if_pos rfl⟩
    · rintro ⟨g', rfl, hg'⟩
      split at hg'
      · next he => exact .inr ⟨(Option.some.inj hg').symm, congrArg _ he⟩
      · exact .inl ⟨g', rfl, hg'⟩

theorem release (g : String) :
    Tallies { t with cell := t.cell.release (.named g) }
      { l with guards := l.guards.erase g } mark := by
  refine ⟨(h.held.release (.named g)).congr fun mode who => ?_, h.stored, h.present, h.mark⟩
  simp only [Table.get?_erase]
  constructor
  · rintro ⟨⟨g', rfl, hg'⟩, hne⟩
    exact ⟨g', rfl, by rw [if_neg fun he => hne (congrArg _ he), hg']⟩
  · rintro ⟨g', rfl, hg'⟩
    split at hg'
    · cases hg'
    · next hne => exact ⟨⟨g', rfl, hg'⟩, fun he => hne (Holder.named.inj he)⟩

/-- Whatever is done, the ledger keeps up with the cell. -/
theorem step (s : Step V) : (t.step s).2.Tallies (l.note s (t.step s).1) mark := by
  cases s with
  | read g =>
    rw [Trial.step]
    split
    · cases hc : t.cell.share? (.named g) with
      | none => exact h
      | some c => exact h.keep .shared g hc
    · exact h
  | write g =>
    rw [Trial.step]
    split
    · cases hc : t.cell.claim? (.named g) with
      | none => exact h
      | some c => exact h.keep .exclusive g hc
    · exact h
  | peek g => exact h
  | put g p =>
    rw [Trial.step]
    split
    · next hl =>
      rw [put, if_pos hl]
      exact ⟨h.held, rfl, h.present, h.mark⟩
    · exact h
  | release g =>
    rw [Trial.step]
    split
    · exact h.release g
    · exact h
  | isTemporary => exact h
  | text => exact h
  | drop => exact ⟨h.held, h.stored, rfl, h.mark⟩

/-- While somebody reads, nobody writes: until that guard is released it stays live and the payload
stays the same. -/
theorem shared_note {g : String} (hg : l.guards.get? g = some .shared) {s : Step V}
    (hs : s ≠ .release g) : (l.note s (t.step s).1).guards.get? g = some .shared ∧
      (l.note s (t.step s).1).stored = l.stored := by
  have hx : ∀ other, t.cell.lock ≠ .exclusive (.named other) := fun other hl => by
    have hgr := (h.grants_iff g .shared).2 hg
    rw [hl, Lock.grants_exclusive] at hgr
    cases hgr.1
  cases s with
  | read g' =>
    obtain ⟨b, hb⟩ | hb : (∃ b, (t.step (.read g')).1 = .flag b) ∨ (t.step (.read g')).1 = .gone := by
      rw [Trial.step]
      split
      · cases t.cell.share? (.named g') <;> exact .inl ⟨_, rfl⟩
      · exact .inr rfl
    · cases b with
      | true =>
        rw [hb]
        refine ⟨?_, rfl⟩
        show (l.guards.insert g' .shared).get? g = _
        rw [Table.get?_insert, hg, ite_self]
      | false => rw [hb]; exact ⟨hg, rfl⟩
    · rw [hb]; exact ⟨hg, rfl⟩
  | write g' =>
    have hc : t.cell.claim? (.named g') = none := by
      rw [← Option.not_isSome_iff_eq_none, claim?, Option.isSome_map, Lock.claim?_isSome,
        h.isFree_iff]
      intro hn
      rw [hn] at hg
      cases hg
    rw [Trial.step, hc]
    split <;> exact ⟨hg, rfl⟩
  | put g' p => rw [Trial.step, if_neg (hx g')]; exact ⟨hg, rfl⟩
  | release g' =>
    have hne : g ≠ g' := fun he => hs (congrArg _ he.symm)
    rw [Trial.step]
    split
    · refine ⟨?_, rfl⟩
      show (l.guards.erase g').get? g = _
      rw [Table.get?_erase, if_neg hne, hg]
    · exact ⟨hg, rfl⟩
  | peek _ => exact ⟨hg, rfl⟩
  | isTemporary => exact ⟨hg, rfl⟩
  | text => exact ⟨hg, rfl⟩
  | drop => exact ⟨hg, rfl⟩

end Tallies

/-! ## Runs -/

theorem after_append (t : Trial V) (steps more : List (Step V)) :
    t.after (steps ++ more) = (t.after steps).after more := by
  induction steps generalizing t with
  | nil => rfl
  | cons s steps ih => exact ih (t.step s).2

theorem tally_append (t : Trial V) (steps more : List (Step V)) (l : Ledger V) :
    t.tally (steps ++ more) l = (t.after steps).tally more (t.tally steps l) := by
  induction steps generalizing t l with
  | nil => rfl
  | cons s steps ih => exact ih (t.step s).2 (l.note s (t.step s).1)

theorem Tallies.after {t : Trial V} {l : Ledger V} {mark : Bool} (h : t.Tallies l mark)
    (steps : List (Step V)) : (t.after steps).Tallies (t.tally steps l) mark := by
  induction steps generalizing t l with
  | nil => exact h
  | cons s steps ih => exact ih (h.step s)

theorem Tallies.stored_tally {t : Trial V} {l : Ledger V} {mark : Bool} (h : t.Tallies l mark)
    {g : String} (hg : l.guards.get? g = some .shared) {steps : List (Step V)}
    (hs : .release g ∉ steps) : (t.tally steps l).stored = l.stored := by
  induction steps generalizing t l with
  | nil => rfl
  | cons s steps ih =>
    obtain ⟨hne, hs⟩ := not_or.1 (mt List.mem_cons.2 hs)
    obtain ⟨hg', hst⟩ := h.shared_note hg (Ne.symm hne)
    exact (ih (h.step s) hg' hs).trans hst

/-- Nobody has a guard of a new cell. -/
theorem tallies_new (init : Option V) : (new init).Tallies ⟨.empty, init, true⟩ init.isNone := by
  have hn : ∀ (mode : LockMode) (who : Holder), ¬ ∃ g, who = .named g ∧
      (Table.empty : Table LockMode).get? g = some mode := by
    rintro mode who ⟨g, -, hg⟩
    cases hg
  cases init with
  | none => exact ⟨.of_free hn, rfl, rfl, rfl⟩
  | some v => exact ⟨.of_free hn, rfl, rfl, rfl⟩

/-! ## The cell that is gone -/

/-- A guard is used in the same way when the cell is dropped. -/
theorem step_drop {s : Step V} (hs : s.onGuard = true) (t : Trial V) :
    ((t.step .drop).2.step s).1 = (t.step s).1 ∧
      ((t.step .drop).2.step s).2 = ((t.step s).2.step .drop).2 := by
  cases s with
  | peek g => exact ⟨rfl, rfl⟩
  | put g p =>
    by_cases hl : t.cell.lock = .exclusive (.named g)
    · simp only [step, hl, if_true, true_and]
    · simp only [step, hl, if_false, true_and]
  | release g =>
    by_cases hg : .named g ∈ t.cell.lock.holders
    · simp only [step, hg, if_true, true_and]
    · simp only [step, hg, if_false, true_and]
  | _ => cases hs

theorem replies_drop {steps : List (Step V)} (hs : ∀ s ∈ steps, s.onGuard = true) (t : Trial V) :
    (t.step .drop).2.replies steps = t.replies steps := by
  induction steps generalizing t with
  | nil => rfl
  | cons s steps ih =>
    obtain ⟨h, hd⟩ := step_drop (hs s List.mem_cons_self) t
    have ih := ih (fun s' hs' => hs s' (List.mem_cons_of_mem _ hs')) (t.step s).2
    show ((t.step .drop).2.step s).1 :: ((t.step .drop).2.step s).2.replies steps = _
    rw [h, hd, ih]
    rfl

/-! ## The slot -/

/-- What the steps on a new cell make of it: a slot for readers or one writer. -/
structure Slotted (init : Option V) (steps : List (Step V)) : Prop where
  obeys : ((new init).after steps).Obeys (ledger init steps) init.isNone
  /-- Nothing is stored while a shared guard is live. -/
  still : ∀ g more, (ledger init steps).guards.get? g = some .shared → .release g ∉ more →
    (ledger init (steps ++ more)).stored = (ledger init steps).stored
  /-- The guards do not need the cell. -/
  survives : ∀ more, (∀ s ∈ more, s.onGuard = true) →
    ((new init).after (steps ++ [.drop])).replies more = ((new init).after steps).replies more

/-- Whatever is done with a new cell and its guards, it is a reader/writer slot: readers are let in
iff nobody writes and a writer iff nobody has a guard, every guard shows what was stored last, and
the mark of the cell stays. -/
theorem reader_writer_slot (init : Option V) (steps : List (Step V)) : Slotted init steps := by
  have h := (tallies_new init).after steps
  refine ⟨h.obeys, fun g more hg hm => ?_, fun more hm => ?_⟩
  · rw [ledger, tally_append]
    exact h.stored_tally hg hm
  · rw [after_append]
    exact replies_drop hm _

end Trial

end TwoPhaseStore.Cell
