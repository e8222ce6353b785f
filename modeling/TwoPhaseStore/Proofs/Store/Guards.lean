import TwoPhaseStore.Proofs.Store.Acquire
import TwoPhaseStore.Proofs.Store.Hold
import TwoPhaseStore.Proofs.Store.Local

/-!
The operations with the guards that they take.  `Store.call` and `Store.acquire` say at once what an
operation answers and leaves.  Here each one takes the structure lock, then the locks of cells, and
gives all of them back on each of its ways out.  Nothing else runs in between, and the guards come
out even, so both are the same:

    s.guardedCall who c = s.call c                                        (Store.guardedCall_eq)
    s.guardedAcquire who batch = s.acquire who batch                   (Store.guardedAcquire_eq)
    b.guardedCall? who c = b.call? c                                  (Baseline.guardedCall?_eq)
-/

namespace TwoPhaseStore

variable {V : Type}

/-! ## Taking a lock and giving it back -/

theorem Lock.release_of_take? {mode : LockMode} {who : Holder} {l m : Lock}
    (h : l.take? mode who = some m) : m.release who = l := by
  cases mode with
  | shared => exact Lock.release_of_share? h
  | exclusive =>
    obtain ⟨rfl, rfl⟩ := Lock.claim?_eq_some.1 h
    exact Lock.release_exclusive_self who

/-- Whether the lock is to be had in a mode. -/
def Lock.admits (mode : LockMode) (l : Lock) : Bool :=
  match mode with
  | .shared => l.admitsReader
  | .exclusive => l.isFree

theorem Lock.take?_isSome (mode : LockMode) (who : Holder) (l : Lock) :
    (l.take? mode who).isSome = l.admits mode := by
  cases mode with
  | shared => exact Lock.share?_isSome who l
  | exclusive => exact Lock.claim?_isSome who l

namespace Store

/-- Takes the lock of a key, or without a key that of the structure. -/
def take? (mode : LockMode) (target : Option Key) (who : Holder) (s : Store V) :
    Option (Store V) :=
  ((s.lockOn target).take? mode who).map fun l => s.relock target fun _ => l

/-- Gives the lock back. -/
def give (target : Option Key) (who : Holder) (s : Store V) : Store V :=
  s.relock target (·.release who)

theorem give_of_take? {mode : LockMode} {target : Option Key} {who : Holder} {s t : Store V}
    (h : s.take? mode target who = some t) : t.give target who = s := by
  obtain ⟨l, hl, rfl⟩ := Option.map_eq_some_iff.1 h
  have hr : l.release who = s.lockOn target := Lock.release_of_take? hl
  cases target with
  | none => exact congrArg (fun l => { s with structureLock := l }) hr
  | some k =>
    refine ext_cells rfl fun j => ?_
    rw [give, get?_relock, get?_relock]
    split
    · next hj =>
      obtain rfl := Option.some.inj hj
      cases hc : s.cells.get? k with
      | none => rfl
      | some c =>
        have hk : l.release who = c.lock := by rw [hr, lockOn, lockAt, hc]; rfl
        exact congrArg (fun l => some { c with lock := l }) hk
    · rfl

/-! ## Single keys -/

section
variable (who : Holder)

def guardedGet (k : Key) (s : Store V) : Answer (Store V) (Except Fault (Option V)) :=
  match s.take? .shared none who with
  | none => s.refuse .shared
  | some s =>
    match s.cells.get? k with
    | none => (s.give none who).accept none
    | some c =>
      match s.take? .shared (some k) who with
      | none => (s.give none who).refuseKey .read k
      -- the structure is given back before the payload is copied
      | some s => ((s.give none who).give (some k) who).accept c.payload

def guardedWrite [BEq V] (k : Key) (v : V) (expected : Option V) (s : Store V) :
    Answer (Store V) (Except Fault Unit) :=
  match s.take? .exclusive none who with
  | none => s.refuse .exclusive
  | some s =>
    match s.cells.get? k with
    | none => ({ s with cells := s.cells.insert k (.committed v) }.give none who).accept ()
    | some c =>
      match s.take? .exclusive (some k) who with
      | none => (s.give none who).refuseKey .write k
      | some s =>
        let written := { s with cells := s.cells.modify k (·.store v) }
        -- a placeholder is resolved while the structure is still held
        if c.temporary then ((written.give (some k) who).give none who).accept ()
        else if c.satisfies expected then ((written.give none who).give (some k) who).accept ()
        else ⟨.error (.conditionFailed k), [.conditionNotSatisfied k],
          (s.give none who).give (some k) who⟩

def guardedDel (k : Key) (s : Store V) : Answer (Store V) (Except Fault Unit) :=
  match s.take? .exclusive none who with
  | none => s.refuse .exclusive
  | some s =>
    match s.cells.get? k with
    | none => (s.give none who).accept ()
    | some _ =>
      match s.take? .exclusive (some k) who with
      | none => (s.give none who).refuseKey .delete k
      | some s =>
        (({ s with cells := s.cells.erase k }.give none who).give (some k) who).accept ()

/-! ## The whole store -/

/-- Looks at the key set while the structure is shared. -/
def guardedLook {α : Type} (look : Store V → α) (s : Store V) :
    Answer (Store V) (Except Fault α) :=
  match s.take? .shared none who with
  | none => s.refuse .shared
  | some s => (s.give none who).accept (look s)

/-- Puts the payload of a row into a copy. -/
def copyRow (out : Table V) (r : Key × Cell V) : Table V :=
  match r.2.payload with
  | some v => out.insert r.1 v
  | none => out

/-- Copies the committed ones of some rows.  The guard of each cell is given back before the next
one is looked at. -/
def guardedCopy : List (Key × Cell V) → Table V → Store V →
    Answer (Store V) (Except Fault (List (Key × V)))
  | [], out, s => (s.give none who).accept out.rows
  | (k, c) :: rows, out, s =>
    if c.temporary then guardedCopy rows out s
    else
      match s.take? .shared (some k) who with
      | none => (s.give none who).refuseKey .snapshot k
      | some s => guardedCopy rows (copyRow out (k, c)) (s.give (some k) who)

/-- The rows are copied in the order in which they are visited. -/
def guardedSnapshot (walk : List Key) (s : Store V) :
    Answer (Store V) (Except Fault (List (Key × V))) :=
  match s.take? .shared none who with
  | none => s.refuse .shared
  | some s => guardedCopy who (s.cells.visited walk) .empty s

def guardedCall [BEq V] (c : Call V) (s : Store V) : Answer (Store V) (Except Fault (Reply V)) :=
  match c with
  | .get k => (s.guardedGet who k).map .payload
  | .set k v => (s.guardedWrite who k v none).map fun _ => .done
  | .setCond k v e => (s.guardedWrite who k v (some e)).map fun _ => .done
  | .setWithDelay k v _ => (s.guardedWrite who k v none).map fun _ => .done
  | .del k => (s.guardedDel who k).map fun _ => .done
  | .len => (s.guardedLook who fun s => s.committed.length).map .count
  | .isEmpty => (s.guardedLook who fun s => s.committed.isEmpty).map .flag
  | .contains k => (s.guardedLook who fun s => match s.cells.get? k with
      | some c => !c.temporary
      | none => false).map .flag
  | .snapshot walk => (s.guardedSnapshot who walk).map .rows
  | .text => s.accept (.text s.text)
  | .timeout => s.accept (.duration s.timeout)

/-! ## Batches -/

end

/-- What an acquire phase has by now: the store with the guards taken, their keys, and the
placeholders that are to be linked if the whole batch locks. -/
structure Gathered (V : Type) where
  store : Store V
  guards : List Key
  staged : List (Key × Cell V)

/-- Takes the guards of the commands in order, and stops at the first fault. -/
def gather [BEq V] (who : Holder) : List (Command V) → Gathered V → Gathered V × Option Fault
  | [], g => (g, none)
  | c :: batch, g =>
    if c.key ∈ g.guards then (g, some (.keyLocked c.key))
    else
      match g.store.cells.get? c.key with
      | some cell =>
        match g.store.take? .exclusive (some c.key) who with
        | none => (g, some (.keyLocked c.key))
        | some s =>
          let g := { g with store := s, guards := c.key :: g.guards }
          if cell.satisfies c.expected? then gather who batch g
          else (g, some (.conditionFailed c.key))
      | none =>
        let cell : Cell V := { Cell.placeholder with lock := .exclusive who }
        let g := { g with guards := c.key :: g.guards, staged := (c.key, cell) :: g.staged }
        if cell.satisfies c.expected? then gather who batch g
        else (g, some (.conditionFailed c.key))

/-- The store with the staged placeholders linked. -/
def Gathered.link (g : Gathered V) : Store V :=
  { g.store with cells := g.staged.foldl (fun cells r => cells.insert r.1 r.2) g.store.cells }

/-- Gives back the guards of these keys. -/
def giveAll (keys : List Key) (who : Holder) (s : Store V) : Store V :=
  keys.foldl (fun s k => s.give (some k) who) s

def guardedAcquire [BEq V] (who : Holder) (batch : List (Command V)) (s : Store V) :
    Answer (Store V) (Except Fault LockSet) :=
  if batch.isEmpty then ⟨.error .emptyBatch, [], s⟩
  else
    match s.take? .exclusive none who with
    | none => s.refuse .exclusive
    | some t =>
      match gather who batch ⟨t, [], []⟩ with
      | (g, none) =>
        ⟨.ok ⟨s.id, who, .ofList (batch.map fun c => (c.key, ()))⟩,
          [.batchLocked batch.length (batch.countP (·.isConditional))], g.link.give none who⟩
      | (g, some f) => ⟨.error f, [.acquireReverted f g.guards.length],
          (g.store.give none who).giveAll g.guards who⟩

/-! ## The guards come out even -/

theorem take?_cases (mode : LockMode) (target : Option Key) (who : Holder) (s : Store V) :
    (s.lockOn target).admits mode = false ∧ s.take? mode target who = none ∨
      (s.lockOn target).admits mode = true ∧ ∃ l, s.take? mode target who =
        some (s.relock target fun _ => l) ∧ (s.relock target fun _ => l).give target who = s := by
  have ha := Lock.take?_isSome mode who (s.lockOn target)
  cases hl : (s.lockOn target).take? mode who with
  | none =>
    rw [hl] at ha
    exact .inl ⟨ha.symm, by rw [take?, hl]; rfl⟩
  | some l =>
    rw [hl] at ha
    have ht : s.take? mode target who = some (s.relock target fun _ => l) := by rw [take?, hl]; rfl
    exact .inr ⟨ha.symm, l, ht, give_of_take? ht⟩

section
variable (who : Holder)

theorem guardedGet_eq (k : Key) (s : Store V) : s.guardedGet who k = s.get k := by
  unfold guardedGet get
  rcases s.take?_cases .shared none who with ⟨hl, ht⟩ | ⟨hl, l, ht, hg⟩ <;>
    replace hl : s.structureLock.admitsReader = _ := hl <;> rw [ht, hl]
  · rfl
  · generalize hu : s.relock none (fun _ => l) = u at hg ⊢
    have hcells : u.cells = s.cells := by rw [← hu]; rfl
    dsimp only
    rw [hcells, if_pos rfl]
    cases hc : s.cells.get? k with
    | none => exact congrArg (·.accept none) hg
    | some c =>
      have hlock : u.lockOn (some k) = c.lock := by rw [lockOn, lockAt, hcells, hc]; rfl
      dsimp only
      rcases u.take?_cases .shared (some k) who with ⟨hlk, htk⟩ | ⟨hlk, lk, htk, hgk⟩ <;>
        rw [hlock] at hlk <;> replace hlk : c.lock.admitsReader = _ := hlk <;> rw [htk, hlk]
      · exact congrArg (·.refuseKey .read k) hg
      · have hback : ((u.relock (some k) fun _ => lk).give none who).give (some k) who = s :=
          (congrArg (·.give none who) hgk).trans hg
        exact congrArg (·.accept c.payload) hback

/-- A guarded cell is written and then let go, or the other way round. -/
theorem give_written (k : Key) (v : V) (s : Store V) :
    { s with cells := s.cells.modify k (·.store v) }.give (some k) who =
      { s.give (some k) who with cells := (s.give (some k) who).cells.modify k (·.store v) } := by
  refine ext_cells rfl fun j => ?_
  rw [give, get?_relock, Table.get?_modify, Table.get?_modify, give, get?_relock]
  by_cases hj : j = k
  · subst hj
    simp only [if_true]
    cases s.cells.get? j <;> rfl
  · have hne : some k ≠ some j := fun he => hj (Option.some.inj he).symm
    rw [if_neg hne, if_neg hne, if_neg hj]

theorem guardedWrite_eq [BEq V] (k : Key) (v : V) (e : Option V) (s : Store V) :
    s.guardedWrite who k v e = s.write k v e := by
  unfold guardedWrite write
  rcases s.take?_cases .exclusive none who with ⟨hl, ht⟩ | ⟨hl, l, ht, hg⟩ <;>
    replace hl : s.structureLock.isFree = _ := hl <;> rw [ht, hl]
  · rfl
  · generalize hu : s.relock none (fun _ => l) = u at hg ⊢
    have hcells : u.cells = s.cells := by rw [← hu]; rfl
    dsimp only
    rw [hcells, if_pos rfl]
    cases hc : s.cells.get? k with
    | none =>
      exact congrArg
        (fun t : Store V => accept { t with cells := s.cells.insert k (.committed v) } ()) hg
    | some c =>
      have hlock : u.lockOn (some k) = c.lock := by rw [lockOn, lockAt, hcells, hc]; rfl
      dsimp only
      rcases u.take?_cases .exclusive (some k) who with ⟨hlk, htk⟩ | ⟨hlk, lk, htk, hgk⟩ <;>
        rw [hlock] at hlk <;> replace hlk : c.lock.isFree = _ := hlk <;> rw [htk, hlk]
      · exact congrArg (·.refuseKey .write k) hg
      · generalize (u.relock (some k) fun _ => lk) = t at hgk ⊢
        dsimp only
        rw [if_pos rfl]
        have hback : (t.give none who).give (some k) who = s :=
          (congrArg (·.give none who) hgk).trans hg
        -- what is written is the cell that was found
        have hput : s.cells.modify k (·.store v) = s.cells.insert k (c.store v) := by
          rw [Table.modify, hc]
        have hwritten : ({ t.give none who with
            cells := (t.give none who).cells.modify k (·.store v) }).give (some k) who =
              { s with cells := s.cells.insert k (c.store v) } := by
          rw [give_written, hback, hput]
        cases hct : c.temporary with
        | true =>
          rw [if_pos rfl, Bool.true_or, if_pos rfl]
          exact congrArg (·.accept ()) hwritten
        | false =>
          rw [if_neg Bool.false_ne_true, Bool.false_or]
          split
          · exact congrArg (·.accept ()) hwritten
          · exact congrArg (Answer.mk _ _) hback

theorem guardedDel_eq (k : Key) (s : Store V) : s.guardedDel who k = s.del k := by
  unfold guardedDel del
  rcases s.take?_cases .exclusive none who with ⟨hl, ht⟩ | ⟨hl, l, ht, hg⟩ <;>
    replace hl : s.structureLock.isFree = _ := hl <;> rw [ht, hl]
  · rfl
  · generalize hu : s.relock none (fun _ => l) = u at hg ⊢
    have hcells : u.cells = s.cells := by rw [← hu]; rfl
    dsimp only
    rw [hcells, if_pos rfl]
    cases hc : s.cells.get? k with
    | none => exact congrArg (·.accept ()) hg
    | some c =>
      have hlock : u.lockOn (some k) = c.lock := by rw [lockOn, lockAt, hcells, hc]; rfl
      dsimp only
      rcases u.take?_cases .exclusive (some k) who with ⟨hlk, htk⟩ | ⟨hlk, lk, htk, hgk⟩ <;>
        rw [hlock] at hlk <;> replace hlk : c.lock.isFree = _ := hlk <;> rw [htk, hlk]
      · exact congrArg (·.refuseKey .delete k) hg
      · dsimp only
        rw [if_pos rfl]
        refine congrArg (fun t : Store V => t.accept ()) ?_
        refine ext_cells ?_ fun j => ?_
        · exact (congrArg bare hg : (u.give none who).bare = s.bare)
        show (({ (u.relock (some k) fun _ => lk) with
          cells := (u.relock (some k) fun _ => lk).cells.erase k }.give none who).give
            (some k) who).cells.get? j = _
        rw [give, get?_relock]
        show (if some k = some j then (((u.relock (some k) fun _ => lk).cells.erase k).get? j).map _
          else ((u.relock (some k) fun _ => lk).cells.erase k).get? j) = _
        rw [Table.get?_erase, Table.get?_erase, get?_relock, hcells]
        by_cases hj : j = k
        · simp [hj]
        · have hne : some k ≠ some j := fun he => hj (Option.some.inj he).symm
          simp [hj, Ne.symm hj]

theorem guardedLook_eq {α : Type} {look : Store V → α} (s : Store V)
    (h : ∀ l, look { s with structureLock := l } = look s) : s.guardedLook who look =
      if s.structureLock.admitsReader then s.accept (look s) else s.refuse .shared := by
  unfold guardedLook
  rcases s.take?_cases .shared none who with ⟨hl, ht⟩ | ⟨hl, l, ht, hg⟩ <;>
    replace hl : s.structureLock.admitsReader = _ := hl <;> rw [ht, hl]
  · rfl
  · show accept _ (look { s with structureLock := l }) = _
    rw [h, hg]
    rfl

/-- A copy of some rows of the store. -/
theorem guardedCopy_eq {rows : List (Key × Cell V)} (out : Table V) {s : Store V}
    (h : ∀ r ∈ rows, s.cells.get? r.1 = some r.2) : s.guardedCopy who rows out =
      match rows.find? fun r => !r.2.temporary && !r.2.lock.admitsReader with
      | some r => (s.give none who).refuseKey .snapshot r.1
      | none => (s.give none who).accept
          ((rows.filter fun r => !r.2.temporary).foldl copyRow out).rows := by
  induction rows generalizing out with
  | nil => rfl
  | cons r rows ih =>
    obtain ⟨k, c⟩ := r
    have hc : s.cells.get? k = some c := h (k, c) List.mem_cons_self
    have ih := fun out => ih out fun r hr => h r (List.mem_cons_of_mem _ hr)
    rw [guardedCopy]
    cases hct : c.temporary with
    | true =>
      rw [if_pos rfl, ih, List.find?_cons_of_neg (by simp [hct]),
        List.filter_cons_of_neg (by simp [hct])]
    | false =>
      have hlock : s.lockOn (some k) = c.lock := by rw [lockOn, lockAt, hc]; rfl
      rcases s.take?_cases .shared (some k) who with ⟨hlk, htk⟩ | ⟨hlk, lk, htk, hgk⟩ <;>
        rw [hlock] at hlk <;> replace hlk : c.lock.admitsReader = _ := hlk <;> rw [htk]
      · rw [if_neg Bool.false_ne_true, List.find?_cons_of_pos (by simp [hct, hlk])]
      · dsimp only
        rw [if_neg Bool.false_ne_true, hgk, ih, List.find?_cons_of_neg (by simp [hlk]),
          List.filter_cons_of_pos (by simp [hct]), List.foldl_cons]

theorem get?_copyRow (out : Table V) (r : Key × Cell V) (k : Key) :
    (copyRow out r).get? k = if k = r.1 then r.2.payload.or (out.get? k) else out.get? k := by
  unfold copyRow
  cases r.2.payload with
  | none => exact (ite_self _).symm
  | some v => exact Table.get?_insert ..

/-- Every committed row that is visited is in the copy. -/
theorem get?_foldl_copyRow {rows : List (Key × Cell V)} {out : Table V} {s : Store V}
    (h : ∀ r ∈ rows, s.cells.get? r.1 = some r.2 ∧ r.2.temporary = false) (k : Key) :
    (rows.foldl copyRow out).get? k =
      if k ∈ rows.map (·.1) then (s.contents k).or (out.get? k) else out.get? k := by
  induction rows generalizing out with
  | nil => rfl
  | cons r rows ih =>
    obtain ⟨hc, ht⟩ := h r List.mem_cons_self
    rw [List.foldl_cons, ih fun r' hr' => h r' (List.mem_cons_of_mem _ hr'), get?_copyRow,
      List.map_cons]
    by_cases hk : k = r.1
    · have hr : s.contents k = r.2.payload := by rw [hk, contents, hc]; simp [ht]
      rw [hr]
      cases r.2.payload <;> simp [hk]
    · simp only [List.mem_cons, hk, false_or, if_false]

/-- However the rows are visited, the copy is the same. -/
theorem foldl_copyRow_visited (walk : List Key) (s : Store V) :
    (((s.cells.visited walk).filter fun r => !r.2.temporary).foldl copyRow .empty).rows =
      s.copied := by
  obtain ⟨hsort, hm⟩ := s.sorted_copied
  refine Rows.eq_of_mem_iff (Table.sorted _) hsort fun k v => ?_
  have hvis : ∀ r ∈ (s.cells.visited walk).filter fun r => !r.2.temporary,
      s.cells.get? r.1 = some r.2 ∧ r.2.temporary = false := fun r hr => by
    obtain ⟨hr, ht⟩ := List.mem_filter.1 hr
    exact ⟨Table.mem_visited.1 hr, by simpa using ht⟩
  rw [hm, ← Table.get?_eq_some_iff, get?_foldl_copyRow hvis, Table.get?_empty, Option.or_none]
  split
  · rfl
  · next hk =>
    refine iff_of_false (fun he => by cases he) fun hv => hk ?_
    obtain ⟨c, hc, ht, -⟩ := contents_eq_some.1 hv
    have hmem : (k, c) ∈ s.cells.visited walk := Table.mem_visited.2 hc
    exact List.mem_map.2 ⟨(k, c), List.mem_filter.2 ⟨hmem, by simp [ht]⟩, rfl⟩

theorem guardedSnapshot_eq (walk : List Key) (s : Store V) :
    s.guardedSnapshot who walk = s.snapshot walk := by
  unfold guardedSnapshot snapshot
  rcases s.take?_cases .shared none who with ⟨hl, ht⟩ | ⟨hl, l, ht, hg⟩ <;>
    replace hl : s.structureLock.admitsReader = _ := hl <;> rw [ht, hl]
  · rfl
  · have hrows : ∀ r ∈ s.cells.visited walk, (s.relock none fun _ => l).cells.get? r.1 = some r.2 :=
      fun r hr => Table.mem_visited.1 hr
    have hu : s.unreadable = (s.cells.rows.filter fun r =>
        !r.2.temporary && !r.2.lock.admitsReader).map (·.1) := by
      rw [unreadable, committed, List.filter_filter]
      simp only [Bool.and_comm]
    show guardedCopy who (s.cells.visited walk) .empty _ = _
    rw [guardedCopy_eq who .empty hrows, hg, foldl_copyRow_visited, if_pos rfl]
    cases hk : s.unreadable with
    | cons k ks =>
      obtain ⟨c, hf⟩ := Table.find?_visited walk (hu ▸ hk)
      rw [hf]
    | nil =>
      have hn : (s.cells.visited walk).find? (fun r =>
          !r.2.temporary && !r.2.lock.admitsReader) = none := by
        have hall := List.filter_eq_nil_iff.1 (List.map_eq_nil_iff.1 (hu ▸ hk))
        exact List.find?_eq_none.2 fun r hr =>
          hall r (Table.get?_eq_some_iff.1 (Table.mem_visited.1 hr))
      rw [hn]

end

theorem guardedCall_eq [BEq V] (who : Holder) (c : Call V) (s : Store V) :
    s.guardedCall who c = s.call c := by
  cases c with
  | get k => rw [guardedCall, guardedGet_eq]; rfl
  | set k v => rw [guardedCall, guardedWrite_eq]; rfl
  | setCond k v e => rw [guardedCall, guardedWrite_eq]; rfl
  | setWithDelay k v d => rw [guardedCall, guardedWrite_eq]; rfl
  | del k => rw [guardedCall, guardedDel_eq]; rfl
  | len => rw [guardedCall, guardedLook_eq who s fun _ => rfl]; rfl
  | isEmpty => rw [guardedCall, guardedLook_eq who s fun _ => rfl]; rfl
  | contains k => rw [guardedCall, guardedLook_eq who s fun _ => rfl]; rfl
  | snapshot walk => rw [guardedCall, guardedSnapshot_eq]; rfl
  | text => rfl
  | timeout => rfl

/-! ## The guards of a batch -/

/-- What has been gathered in the store `s` is what `lockAll` has made of its cells by then. -/
structure Gathers (who : Holder) (s : Store V) (g : Gathered V) (cells : Table (Cell V)) :
    Prop where
  bare : g.store.bare = s.bare
  nodup : g.guards.Nodup
  free : ∀ k ∈ g.guards, s.lockAt k = .free
  slots : ∀ j, cells.get? j =
    if j ∈ g.guards then Slot.claimed who (s.cells.get? j) else s.cells.get? j
  held : ∀ j, g.store.cells.get? j =
    if j ∈ g.guards then (s.cells.get? j).map fun c => { c with lock := .exclusive who }
    else s.cells.get? j
  staged : ∀ j c, (j, c) ∈ g.staged ↔ j ∈ g.guards ∧ s.cells.get? j = none ∧
    c = { Cell.placeholder with lock := .exclusive who }

section
variable {who : Holder} {s : Store V} {g : Gathered V} {cells : Table (Cell V)} {k : Key}

/-- One more guard is taken. -/
theorem Gathers.add (h : Gathers who s g cells) (g' : Gathered V) (hk : k ∉ g.guards)
    (hf : s.lockAt k = .free)
    (hg : g'.guards = k :: g.guards) (hb : g'.store.bare = g.store.bare)
    (hc : ∀ j, g'.store.cells.get? j =
      if some k = some j then (g.store.cells.get? j).map fun c => { c with lock := .exclusive who }
      else g.store.cells.get? j)
    (hs : ∀ j c, (j, c) ∈ g'.staged ↔ (j, c) ∈ g.staged ∨ j = k ∧ s.cells.get? k = none ∧
      c = { Cell.placeholder with lock := .exclusive who }) :
    Gathers who s g' (cells.insert k { Slot.cell (cells.get? k) with lock := .exclusive who }) := by
  have hck : cells.get? k = s.cells.get? k := by rw [h.slots, if_neg hk]
  refine ⟨hb.trans h.bare, hg ▸ List.nodup_cons.2 ⟨hk, h.nodup⟩, fun j hj => ?_, fun j => ?_,
    fun j => ?_, fun j c => ?_⟩
  · rw [hg] at hj
    rcases List.mem_cons.1 hj with rfl | hj
    · exact hf
    · exact h.free j hj
  · rw [Table.get?_insert, hg]
    by_cases hj : j = k
    · rw [if_pos hj, if_pos (hj ▸ List.mem_cons_self), hck, hj]
      rfl
    · simp only [hj, h.slots, List.mem_cons, false_or, if_false]
  · rw [hc, h.held, hg]
    by_cases hj : j = k
    · subst hj
      rw [if_pos rfl, if_neg hk, if_pos List.mem_cons_self]
    · have hne : some k ≠ some j := fun he => hj (Option.some.inj he).symm
      simp only [hne, hj, List.mem_cons, false_or, if_false]
  · rw [hs, h.staged, hg, List.mem_cons]
    constructor
    · rintro (⟨hj, hn, rfl⟩ | ⟨rfl, hn, rfl⟩)
      · exact ⟨.inr hj, hn, rfl⟩
      · exact ⟨.inl rfl, hn, rfl⟩
    · rintro ⟨rfl | hj, hn, rfl⟩
      · exact .inr ⟨rfl, hn, rfl⟩
      · exact .inl ⟨hj, hn, rfl⟩

/-- An unlocked cell is locked where it is. -/
theorem Gathers.add_found (h : Gathers who s g cells) (hk : k ∉ g.guards) {cell : Cell V}
    (hc : s.cells.get? k = some cell) (hf : cell.lock = .free) :
    Gathers who s ⟨g.store.relock (some k) fun _ => .exclusive who, k :: g.guards, g.staged⟩
      (cells.insert k { cell with lock := .exclusive who }) := by
  have hlock : s.lockAt k = .free := by rw [lockAt, hc]; exact hf
  have hadd := h.add ⟨g.store.relock (some k) fun _ => .exclusive who, k :: g.guards, g.staged⟩ hk
    hlock rfl rfl (fun j => get?_relock _ _ _ j) fun j d => by simp [hc]
  rwa [h.slots, if_neg hk, hc] at hadd

/-- For an absent key a locked placeholder is staged. -/
theorem Gathers.add_absent (h : Gathers who s g cells) (hk : k ∉ g.guards)
    (hc : s.cells.get? k = none) :
    Gathers who s
      ⟨g.store, k :: g.guards, (k, { Cell.placeholder with lock := .exclusive who }) :: g.staged⟩
      (cells.insert k { Cell.placeholder with lock := .exclusive who }) := by
  have hlock : s.lockAt k = .free := by rw [lockAt, hc]; rfl
  have hstore : ∀ j, g.store.cells.get? j =
      if some k = some j then (g.store.cells.get? j).map fun c => { c with lock := .exclusive who }
      else g.store.cells.get? j := by
    intro j
    split
    · next hj =>
      obtain rfl := Option.some.inj hj
      rw [h.held, if_neg hk, hc]
      rfl
    · rfl
  have hadd := h.add
    ⟨g.store, k :: g.guards, (k, { Cell.placeholder with lock := .exclusive who }) :: g.staged⟩ hk
    hlock rfl rfl hstore fun j d => by simp [hc, or_comm]
  rwa [h.slots, if_neg hk, hc] at hadd

/-- The guard of a cell is had exactly if the cell is unlocked. -/
theorem Gathers.take?_found (h : Gathers who s g cells) (hk : k ∉ g.guards) {cell : Cell V}
    (hc : s.cells.get? k = some cell) : g.store.take? .exclusive (some k) who =
      if cell.lock.isFree then some (g.store.relock (some k) fun _ => .exclusive who) else none := by
  have hlock : g.store.lockOn (some k) = cell.lock := by
    rw [lockOn, lockAt, h.held, if_neg hk, hc]
    rfl
  rw [take?, hlock]
  cases cell.lock <;> rfl

/-- The guards are taken as `lockAll` locks the keys, and it stops at the same fault. -/
theorem gather_spec [BEq V] (batch : List (Command V)) (h : Gathers who s g cells) :
    ∃ cells', Gathers who s (gather who batch g).1 cells' ∧
      lockAll who batch g.guards.length cells = match (gather who batch g).2 with
        | none => .ok cells'
        | some f => .error ⟨f, (gather who batch g).1.guards.length⟩ := by
  induction batch generalizing g cells with
  | nil => exact ⟨cells, h, rfl⟩
  | cons c batch ih =>
    rw [lockAll_cons, gather]
    by_cases hk : c.key ∈ g.guards
    · rw [if_pos hk, h.slots, if_pos hk]
      exact ⟨cells, h, rfl⟩
    · have hs : g.store.cells.get? c.key = s.cells.get? c.key := by rw [h.held, if_neg hk]
      have hc : cells.get? c.key = s.cells.get? c.key := by rw [h.slots, if_neg hk]
      rw [if_neg hk, hs, hc]
      cases hcell : s.cells.get? c.key with
      | some cell =>
        dsimp only
        rw [h.take?_found hk hcell, Slot.lock_some]
        by_cases hf : cell.lock.isFree = true
        · have hadd := h.add_found hk hcell (Lock.isFree_iff.1 hf)
          rw [if_pos hf, if_pos hf, show Slot.cell (some cell) = cell from rfl]
          dsimp only
          by_cases hsat : cell.satisfies c.expected? = true
          · simp only [if_pos hsat]
            exact ih hadd
          · simp only [if_neg hsat]
            exact ⟨_, hadd, rfl⟩
        · rw [if_neg hf, if_neg hf]
          exact ⟨cells, h, rfl⟩
      | none =>
        have hadd := h.add_absent hk hcell
        have hsat : ∀ e, ({ Cell.placeholder with lock := .exclusive who } : Cell V).satisfies e =
            (Cell.placeholder : Cell V).satisfies e := fun e => by cases e <;> rfl
        rw [Slot.lock_none, if_pos (show Lock.free.isFree = true from rfl),
          show Slot.cell (none : Slot V) = .placeholder from rfl]
        dsimp only
        rw [hsat]
        by_cases hsat : (Cell.placeholder : Cell V).satisfies c.expected? = true
        · simp only [if_pos hsat]
          exact ih hadd
        · simp only [if_neg hsat]
          exact ⟨_, hadd, rfl⟩

/-- Each guard is given back once. -/
theorem get?_giveAll {keys : List Key} (hn : keys.Nodup) (t : Store V) (j : Key) :
    (t.giveAll keys who).cells.get? j =
      if j ∈ keys then (t.cells.get? j).map (·.release who) else t.cells.get? j := by
  induction keys generalizing t with
  | nil => exact (if_neg List.not_mem_nil).symm
  | cons k keys ih =>
    obtain ⟨hk, hn⟩ := List.nodup_cons.1 hn
    have hg : (t.give (some k) who).cells.get? j =
        if some k = some j then (t.cells.get? j).map (·.release who) else t.cells.get? j :=
      get?_relock _ _ _ j
    show ((t.give (some k) who).giveAll keys who).cells.get? j = _
    rw [ih hn, hg]
    by_cases hj : j = k
    · rw [if_neg (hj ▸ hk), hj, if_pos rfl, if_pos List.mem_cons_self]
    · have hne : some k ≠ some j := fun he => hj (Option.some.inj he).symm
      simp only [hne, hj, List.mem_cons, false_or, if_false]

theorem giveAll_bare (keys : List Key) (t : Store V) : (t.giveAll keys who).bare = t.bare := by
  induction keys generalizing t with
  | nil => rfl
  | cons k keys ih => exact ih (t.give (some k) who)

/-- The structure is given back after the guards or before them. -/
theorem giveAll_give (keys : List Key) (t : Store V) :
    (t.give none who).giveAll keys who = (t.giveAll keys who).give none who := by
  induction keys generalizing t with
  | nil => rfl
  | cons k keys ih => exact ih (t.give (some k) who)

/-- The placeholders are linked one after another. -/
theorem get?_link {rows : List (Key × Cell V)} {d : Cell V} (h : ∀ r ∈ rows, r.2 = d)
    (cells : Table (Cell V)) (j : Key) :
    (rows.foldl (fun cells r => cells.insert r.1 r.2) cells).get? j =
      if j ∈ rows.map (·.1) then some d else cells.get? j := by
  induction rows generalizing cells with
  | nil => exact (if_neg List.not_mem_nil).symm
  | cons r rows ih =>
    rw [List.foldl_cons, ih fun r' hr' => h r' (List.mem_cons_of_mem _ hr'), Table.get?_insert,
      h r List.mem_cons_self, List.map_cons]
    by_cases hj : j = r.1
    · have hm : j ∈ r.1 :: rows.map (·.1) := hj ▸ List.mem_cons_self
      rw [if_pos hj, if_pos hm, ite_self]
    · simp only [hj, List.mem_cons, false_or, if_false]

/-- When the whole batch has locked, its placeholders are linked. -/
theorem Gathers.link_eq (h : Gathers who s g cells) : g.link = { s with cells := cells } := by
  refine ext_cells h.bare fun j => ?_
  show (g.staged.foldl (fun cells r => cells.insert r.1 r.2) g.store.cells).get? j = cells.get? j
  have hd : ∀ r ∈ g.staged, r.2 = { Cell.placeholder with lock := .exclusive who } :=
    fun r hr => ((h.staged r.1 r.2).1 hr).2.2
  rw [get?_link hd, h.held, h.slots]
  have hm : j ∈ g.staged.map (·.1) ↔ j ∈ g.guards ∧ s.cells.get? j = none := by
    rw [List.mem_map]
    constructor
    · rintro ⟨⟨k, c⟩, hr, rfl⟩
      obtain ⟨hj, hn, -⟩ := (h.staged k c).1 hr
      exact ⟨hj, hn⟩
    · rintro ⟨hj, hn⟩
      exact ⟨(j, _), (h.staged j _).2 ⟨hj, hn, rfl⟩, rfl⟩
  by_cases hj : j ∈ g.guards
  · cases hc : s.cells.get? j with
    | none => rw [if_pos (hm.2 ⟨hj, hc⟩), if_pos hj]; rfl
    | some c =>
      have hn : j ∉ g.staged.map (·.1) := fun hn => by
        rw [(hm.1 hn).2] at hc
        cases hc
      rw [if_neg hn, if_pos hj, if_pos hj]
      rfl
  · rw [if_neg fun hn => hj (hm.1 hn).1, if_neg hj, if_neg hj]

/-- When it has not, all is given back. -/
theorem Gathers.giveAll_eq (h : Gathers who s g cells) : g.store.giveAll g.guards who = s := by
  refine ext_cells ((giveAll_bare g.guards g.store).trans h.bare) fun j => ?_
  rw [get?_giveAll h.nodup, h.held]
  by_cases hj : j ∈ g.guards
  · rw [if_pos hj, if_pos hj]
    cases hcell : s.cells.get? j with
    | none => rfl
    | some c =>
      have hf : c.lock = .free := by
        have hf := h.free j hj
        rwa [lockAt, hcell] at hf
      have hr :
          ({ c with lock := .exclusive who } : Cell V).release who = { c with lock := .free } :=
        congrArg (fun l => { c with lock := l }) (Lock.release_exclusive_self who)
      show some (({ c with lock := .exclusive who } : Cell V).release who) = some c
      rw [hr, ← hf]
  · rw [if_neg hj, if_neg hj]

end

theorem guardedAcquire_eq [BEq V] (who : Holder) (batch : List (Command V)) (s : Store V) :
    s.guardedAcquire who batch = s.acquire who batch := by
  unfold guardedAcquire acquire
  by_cases hb : batch.isEmpty = true
  · rw [if_pos hb, if_pos hb]
  · rw [if_neg hb, if_neg hb]
    rcases s.take?_cases .exclusive none who with ⟨hl, ht⟩ | ⟨hl, l, ht, hg⟩ <;>
      replace hl : s.structureLock.isFree = _ := hl <;> rw [ht, hl]
    · rfl
    · generalize hu : s.relock none (fun _ => l) = u at hg ⊢
      have hcells : u.cells = s.cells := by rw [← hu]; rfl
      have hstart : Gathers who u ⟨u, [], []⟩ s.cells :=
        ⟨rfl, List.nodup_nil, by simp, by simp [hcells], by simp, by simp⟩
      obtain ⟨cells, hgs, hlock⟩ := gather_spec batch hstart
      rw [if_pos rfl]
      dsimp only
      rw [show lockAll who batch 0 s.cells = _ from hlock]
      clear hlock
      generalize gather who batch ⟨u, [], []⟩ = r at hgs ⊢
      obtain ⟨g, f⟩ := r
      cases f with
      | none =>
        have hlinked : g.link.give none who = { s with cells := cells } := by
          rw [hgs.link_eq]
          exact congrArg (fun t : Store V => { t with cells := cells }) hg
        dsimp only
        rw [hlinked]
      | some f =>
        dsimp only
        rw [giveAll_give, hgs.giveAll_eq, hg]

end Store

/-! ## The baseline -/

namespace Baseline

/-- Does something with the rows while the one lock is held, and gives it back. -/
def guarded {α : Type} (who : Holder) (mode : LockMode)
    (f : Table V → Except Fault α × Table V) (b : Baseline V) :
    Answer (Baseline V) (Except Fault α) :=
  match b.lock.take? mode who with
  | none => b.refuse mode
  | some l =>
    let (reply, entries) := f b.entries
    ⟨reply, [], { b with lock := l.release who, entries := entries }⟩

def guardedCall? [BEq V] (who : Holder) (c : Call V) (b : Baseline V) :
    Option (Answer (Baseline V) (Except Fault (Reply V))) :=
  match c with
  | .get k => some ((b.guarded who .shared fun t => (.ok (t.get? k), t)).map .payload)
  | .set k v => some ((b.guarded who .exclusive fun t => (.ok (), t.insert k v)).map fun _ => .done)
  | .setCond k v e =>
    some ((b.guarded who .exclusive fun t => match t.get? k with
      | none => (.ok (), t.insert k v)
      | some current =>
        if current == e then (.ok (), t.insert k v)
        else (.error (.conditionFailed k), t)).map fun _ => .done)
  | .setWithDelay k v _ =>
    some ((b.guarded who .exclusive fun t => (.ok (), t.insert k v)).map fun _ => .done)
  | .del k => some ((b.guarded who .exclusive fun t => (.ok (), t.erase k)).map fun _ => .done)
  | .len => some ((b.guarded who .shared fun t => (.ok t.size, t)).map .count)
  | .isEmpty => some ((b.guarded who .shared fun t => (.ok t.isEmpty, t)).map .flag)
  | .contains _ => none
  | .snapshot _ => some ((b.guarded who .shared fun t => (.ok t.rows, t)).map .rows)
  | .text => some (b.accept (.text b.text))
  | .timeout => some (b.accept (.duration b.timeout))

theorem guarded_eq {α : Type} (who : Holder) (mode : LockMode)
    (f : Table V → Except Fault α × Table V) (b : Baseline V) : b.guarded who mode f =
      if b.lock.admits mode then ⟨(f b.entries).1, [], { b with entries := (f b.entries).2 }⟩
      else b.refuse mode := by
  have ha := Lock.take?_isSome mode who b.lock
  unfold guarded
  cases hl : b.lock.take? mode who with
  | none =>
    rw [hl] at ha
    rw [← ha]
    rfl
  | some l =>
    rw [hl] at ha
    rw [← ha]
    dsimp only
    rw [Lock.release_of_take? hl]
    rfl

theorem guardedCall?_eq [BEq V] (who : Holder) (c : Call V) (b : Baseline V) :
    b.guardedCall? who c = b.call? c := by
  cases c with
  | setCond k v e =>
    rw [guardedCall?, guarded_eq, call?, setCond]
    cases hl : b.lock.isFree with
    | true =>
      rw [if_pos (show b.lock.admits .exclusive = true from hl), if_pos rfl]
      cases b.entries.get? k with
      | none => rfl
      | some current =>
        dsimp only
        split <;> rfl
    | false =>
      rw [if_neg (show ¬b.lock.admits .exclusive = true from ne_true_of_eq_false hl),
        if_neg Bool.false_ne_true]
  | contains k => rfl
  | text => rfl
  | timeout => rfl
  | _ => rw [guardedCall?, guarded_eq]; rfl

end Baseline

end TwoPhaseStore
