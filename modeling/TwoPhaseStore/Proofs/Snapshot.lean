import TwoPhaseStore.Proofs.Exactness
import TwoPhaseStore.Proofs.Refinement

/-!
Copies of a store.  With the structure open to readers, a copy is refused exactly for a committed
cell that somebody is writing; placeholders are passed over, whoever holds them.  What is copied are
all rows that `len`, `contains` and `get` tell of.  Of several such cells the one that is reported is
a matter of the walk, and may be any.

A copy that is taken in the middle of a run has the contents that the log of the store makes, up to
there: each write that went through and each committed batch as a whole.

    w.Copies i st walk                                                         (Reachable.copies)
    rows of a copy after ms = Contents.replay st.contents (log i (w.trace ms))   (snapshot_exact)
-/

namespace TwoPhaseStore

open Session (Resolution)

variable {V : Type}

namespace Store

/-! ## What is copied -/

section
variable {s : Store V} (h : s.structureLock.admitsReader = true)

include h

theorem snapshot_ok_iff (walk : List Key) : (∃ rows, (s.snapshot walk).reply = .ok rows) ↔
    ∀ k c, s.cells.get? k = some c → c.temporary = false → ∀ who, c.lock ≠ .exclusive who := by
  simp only [← Lock.admitsReader_iff]
  rcases s.snapshot_cases walk with ⟨hl, -⟩ | ⟨-, k, hk, he⟩ | ⟨-, hu, he⟩
  · rw [h] at hl
    cases hl
  · refine iff_of_false (fun ⟨rows, hr⟩ => by rw [he] at hr; cases hr) fun hn => ?_
    obtain ⟨c, hc, ht, hl⟩ := mem_unreadable.1 hk
    rw [hn k c hc ht] at hl
    cases hl
  · refine iff_of_true ⟨_, congrArg Answer.reply he⟩ fun k c hc ht => ?_
    cases hl : c.lock.admitsReader with
    | true => rfl
    | false =>
      have hk : k ∈ s.unreadable := mem_unreadable.2 ⟨c, hc, ht, hl⟩
      rw [hu] at hk
      cases hk

/-- A copy that is refused meets a committed cell that somebody writes. -/
theorem snapshot_error {walk : List Key} {f : Fault} (hr : (s.snapshot walk).reply = .error f) :
    ∃ k c who, f = .keyLocked k ∧ s.cells.get? k = some c ∧ c.temporary = false ∧
      c.lock = .exclusive who := by
  rcases s.snapshot_cases walk with ⟨hl, -⟩ | ⟨-, k, hk, he⟩ | ⟨-, -, he⟩
  · rw [h] at hl
    cases hl
  · rw [he] at hr
    cases hr
    obtain ⟨c, hc, ht, hl⟩ := mem_unreadable.1 hk
    cases hlock : c.lock with
    | exclusive who => exact ⟨k, c, who, rfl, hc, ht, hlock⟩
    | _ => rw [hlock] at hl; cases hl
  · rw [he] at hr
    cases hr

theorem len_of_admitsReader : s.len.reply = .ok s.committed.length := by
  unfold len
  rw [if_pos h]
  rfl

theorem get_of_admitsReader {k : Key} {c : Cell V} (hc : s.cells.get? k = some c)
    (hl : c.lock.admitsReader = true) : (s.get k).reply = .ok c.payload := by
  have hcell : s.cellAt k = c := by
    rw [cellAt, hc]
    rfl
  rw [get_reply, if_pos h, hcell, if_pos hl]

end

/-- The keys of a copy are those of the contents, each once. -/
theorem snapshot_keys {s : Store V} {walk : List Key} {rows : List (Key × V)}
    (h : (s.snapshot walk).reply = .ok rows) :
    (rows.map (·.1)).Nodup ∧ ∀ k, k ∈ rows.map (·.1) ↔ s.contents k ≠ none := by
  obtain ⟨hsort, hm⟩ := snapshot_ok h
  refine ⟨Table.nodup_keys ⟨rows, hsort⟩, fun k => ?_⟩
  rw [List.mem_map, Option.ne_none_iff_exists']
  constructor
  · rintro ⟨⟨k, v⟩, hr, rfl⟩
    exact ⟨v, (hm k v).1 hr⟩
  · rintro ⟨v, hv⟩
    exact ⟨(k, v), (hm k v).2 hv, rfl⟩

theorem Sound.snapshot_length {s : Store V} (hs : s.Sound) {walk : List Key}
    {rows : List (Key × V)} (h : (s.snapshot walk).reply = .ok rows) :
    rows.length = s.committed.length := by
  obtain ⟨hn, hk⟩ := snapshot_keys h
  obtain ⟨hn', hk'⟩ := hs.committed_keys
  have hp : (rows.map (·.1)).Perm (s.committed.map (·.1)) :=
    (List.perm_ext_iff_of_nodup hn hn').2 fun k => by rw [hk, hk']
  simpa using hp.length_eq

end Store

namespace World

/-- What a copy of the store `st` of number `i` comes to, however its keys are visited. -/
structure Copies [BEq V] (w : World V) (i : Nat) (st : Store V) (walk : List Key) : Prop where
  /-- It goes through if nobody writes to a committed cell; nothing else is in its way. -/
  ok_iff : (∃ rows, (w.step (.call i (.snapshot walk))).reply = .done (.rows rows)) ↔
    ∀ k c, st.cells.get? k = some c → c.temporary = false → ∀ who, c.lock ≠ .exclusive who
  /-- Then it has all rows, and the payloads are those that can be read. -/
  complete : ∀ rows, (w.step (.call i (.snapshot walk))).reply = .done (.rows rows) →
    (w.step (.call i .len)).reply = .done (.count rows.length) ∧ (rows.map (·.1)).Nodup ∧
    (∀ k, (w.step (.call i (.contains k))).reply =
      .done (.flag (decide (k ∈ rows.map (·.1))))) ∧
    ∀ k v, (k, v) ∈ rows → (w.step (.call i (.get k))).reply = .done (.payload (some v))
  /-- Else a committed key is reported that a live lock set has, or a write that is under way. -/
  refused : (∀ rows, (w.step (.call i (.snapshot walk))).reply ≠ .done (.rows rows)) →
    ∃ k, (w.step (.call i (.snapshot walk))).reply = .refused (.keyLocked k) ∧
      st.contents k ≠ none ∧
      ((∃ locks ∈ w.locks, locks.issuer = st.id ∧ locks.keys.contains k = true) ∨
        ∃ h ∈ w.holds, h.store = i ∧ h.mode = .writeKey k)

/-- The store of number `i` answers a copy. -/
theorem snapshot_reply [BEq V] {w : World V} {i : Nat} {st : Store V} (hi : w.store? i = some st)
    (walk : List Key) : (w.step (.call i (.snapshot walk))).reply =
      .ofReply ((st.snapshot walk).reply.map .rows) :=
  (w.step_effect (.call i (.snapshot walk))).call_reply hi

theorem snapshot_reply_eq_rows [BEq V] {w : World V} {i : Nat} {st : Store V}
    (hi : w.store? i = some st) {walk : List Key} {rows : List (Key × V)} :
    (w.step (.call i (.snapshot walk))).reply = .done (.rows rows) ↔
      (st.snapshot walk).reply = .ok rows := by
  rw [snapshot_reply hi]
  cases (st.snapshot walk).reply <;> simp [Outcome.ofReply, Except.map]

theorem Reachable.copies [BEq V] {w : World V} (h : w.Reachable) {i : Nat} {st : Store V}
    (hi : w.store? i = some st) (hl : st.structureLock.admitsReader = true) (walk : List Key) :
    w.Copies i st walk := by
  have hs : st.Sound := h.sound i st hi
  have hr : ∀ c, (w.step (.call i c)).reply = .ofReply (st.call c).reply :=
    fun c => (w.step_effect (.call i c)).call_reply hi
  refine ⟨?_, fun rows hrows => ?_, fun hn => ?_⟩
  · simp only [snapshot_reply_eq_rows hi]
    exact Store.snapshot_ok_iff hl walk
  · rw [snapshot_reply_eq_rows hi] at hrows
    obtain ⟨hnodup, hk⟩ := Store.snapshot_keys hrows
    obtain ⟨-, hm⟩ := Store.snapshot_ok hrows
    refine ⟨?_, hnodup, fun k => ?_, fun k v hkv => ?_⟩
    · rw [hr, hs.snapshot_length hrows]
      show Outcome.ofReply (st.len.reply.map .count) = _
      rw [Store.len_of_admitsReader hl]
      rfl
    · have hb := (st.contains_reply k).trans (if_pos hl)
      rw [hr]
      show Outcome.ofReply ((st.contains k).reply.map .flag) = _
      have hd : (!(st.cellAt k).temporary) = decide (k ∈ rows.map (·.1)) := by
        rw [hs.contains_ok hb, Bool.eq_iff_iff, decide_eq_true_eq, hk, Option.isSome_iff_ne_none]
      rw [hb, hd]
      rfl
    · obtain ⟨c, hc, ht, hp⟩ := Store.contents_eq_some.1 ((hm k v).1 hkv)
      have hlock : c.lock.admitsReader = true :=
        Lock.admitsReader_iff.2 ((Store.snapshot_ok_iff hl walk).1 ⟨rows, hrows⟩ k c hc ht)
      rw [hr]
      show Outcome.ofReply ((st.get k).reply.map .payload) = _
      rw [Store.get_of_admitsReader hl hc hlock, hp]
      rfl
  · cases hsr : (st.snapshot walk).reply with
    | ok rows => exact absurd ((snapshot_reply_eq_rows hi).2 hsr) (hn rows)
    | error f =>
      obtain ⟨k, c, who, rfl, hc, ht, hlock⟩ := Store.snapshot_error hl hsr
      refine ⟨k, ?_, ?_, ?_⟩
      · rw [snapshot_reply hi, hsr]
        rfl
      · rw [hs.temporary_eq hc] at ht
        intro hn
        rw [hn] at ht
        cases ht
      · have hat : st.lockAt k = .exclusive who := by
          rw [Store.lockAt, hc]
          exact hlock
        refine ((h.owned.exact.exclusive i st hi k who).1 hat).imp ?_ ?_
        · rintro ⟨locks, hm, hu, hk, -⟩
          exact ⟨locks, hm, hu, hk⟩
        · rintro ⟨hold, hm, hi, hmode, -⟩
          exact ⟨hold, hm, hi, hmode⟩

end World

/-! ## The log of a store -/

/-- The command that an operation comes to, if it writes. -/
def Call.command? : Call V → Option (Command V)
  | .set k v => some (.set k v none)
  | .setCond k v e => some (.set k v (some e))
  | .setWithDelay k v _ => some (.set k v none)
  | .del k => some (.del k)
  | _ => none

/-- What a move with this outcome adds to the log of the store of number `i`: a write that went
through, or a batch that was committed. -/
def Move.logged? (i : Nat) : Move V → Outcome V → Option (List (Command V))
  | .call j c, .done _ => if j = i then c.command?.map ([·]) else none
  | .resolve .commit _ j batch, .done .done => if j = i then some batch else none
  | _, _ => none

/-- The log of the store of number `i` in a run. -/
def log (i : Nat) (t : List (Move V × Outcome V)) : List (List (Command V)) :=
  t.filterMap fun r => r.1.logged? i r.2

/-- What the entries of a log make of some contents, each entry as a whole. -/
def Contents.replay (m : Contents V) (entries : List (List (Command V))) : Contents V :=
  entries.foldl applyAll m

theorem Contents.replay_append (m : Contents V) (l l' : List (List (Command V))) :
    m.replay (l ++ l') = (m.replay l).replay l' := List.foldl_append

section
variable [BEq V] {i : Nat} {m m' : Contents V}

theorem Call.Permitted.eq_applyAll {c : Call V} {r : Reply V} (h : c.Permitted m (.ok r) m') :
    m' = m.applyAll c.command?.toList := by
  cases h <;> rfl

/-- An atomic map changes by what is logged, unless a commit is stopped halfway. -/
theorem Move.Permitted.eq_replay {live : LockSet → Prop} {move : Move V} {o : Outcome V}
    (h : move.Permitted i live m o m')
    (hv : ∀ who batch v, (move, o) ≠ (.resolve .commit who i batch, .violated v)) :
    m' = m.replay (move.logged? i o).toList := by
  cases h with
  | @call c r _ h =>
    cases r with
    | error f =>
      cases h
      rfl
    | ok r =>
      have he : (Move.call i c).logged? i (.ofReply (.ok r)) = c.command?.map ([·]) := if_pos rfl
      rw [he, h.eq_applyAll]
      cases c.command? <;> rfl
  | @commit locks batch hl hn hk hg =>
    have he : (Move.resolve .commit locks.holder i batch).logged? i (.done .done) = some batch :=
      if_pos rfl
    rw [he]
    rfl
  | stopped hl hp hs he => exact absurd rfl (hv _ _ _)
  | acquired _ _ => rfl
  | failed _ _ => rfl
  | still hc hr _ =>
    have he : move.logged? i o = none := by
      unfold Move.logged?
      split
      · next j c _ _ => exact if_neg fun hj => hc c (by rw [hj])
      · next who j batch _ => exact if_neg fun hj => (hr who batch (by rw [hj])).1 rfl
      · rfl
    rw [he]
    rfl

end

namespace World

section
variable [BEq V] {w : World V} {i : Nat} {st : Store V}

/-- The log tells the contents, as long as no commit is stopped halfway. -/
theorem Reachable.contents_after (h : w.Reachable) (hi : w.store? i = some st) {ms : List (Move V)}
    (hv : ∀ who batch v, (.resolve .commit who i batch, .violated v) ∉ w.trace ms) :
    ∃ st', (w.after ms).store? i = some st' ∧
      st'.contents = Contents.replay st.contents (log i (w.trace ms)) := by
  induction ms generalizing w st with
  | nil => exact ⟨st, hi, rfl⟩
  | cons m ms ih =>
    obtain ⟨st₁, hi₁, hp⟩ := (w.step_effect m).permitted h.owned h.sound hi
    have h₁ : st₁.contents =
        Contents.replay st.contents (m.logged? i (w.step m).reply).toList :=
      hp.eq_replay fun who batch v he => hv who batch v (he ▸ List.mem_cons_self)
    obtain ⟨st₂, hi₂, h₂⟩ := ih (h.step m) hi₁ fun who batch v hm =>
      hv who batch v (List.mem_cons_of_mem _ hm)
    have hlog : log i (w.trace (m :: ms)) =
        (m.logged? i (w.step m).reply).toList ++ log i ((w.step m).state.trace ms) := by
      rw [trace, log, List.filterMap_cons]
      cases m.logged? i (w.step m).reply <;> rfl
    exact ⟨st₂, hi₂, by rw [h₂, h₁, hlog, Contents.replay_append]⟩

/-- A copy is refused for a writer of a committed cell only, and has all rows.  In a run in which no
commit is stopped halfway, it has the rows that a prefix of the log makes. -/
theorem snapshot_exact (h : w.Reachable) (hi : w.store? i = some st) :
    (st.structureLock.admitsReader = true → ∀ walk, w.Copies i st walk) ∧
    ∀ ms : List (Move V),
      (∀ who batch v, (.resolve .commit who i batch, .violated v) ∉ w.trace ms) →
      ∀ pre post walk rows, ms = pre ++ .call i (.snapshot walk) :: post →
        ((w.after pre).step (.call i (.snapshot walk))).reply = .done (.rows rows) →
        log i (w.trace pre) <+: log i (w.trace ms) ∧ Rows.Sorted rows ∧
          ∀ k v, (k, v) ∈ rows ↔
            Contents.replay st.contents (log i (w.trace pre)) k = some v := by
  refine ⟨h.copies hi, ?_⟩
  rintro ms hv pre post walk rows rfl hr
  rw [trace_append] at hv
  obtain ⟨st', hi', hst⟩ := h.contents_after hi fun who batch v hm =>
    hv who batch v (List.mem_append_left _ hm)
  obtain ⟨hsort, hm⟩ := Store.snapshot_ok ((snapshot_reply_eq_rows hi').1 hr)
  refine ⟨?_, hsort, fun k v => ?_⟩
  · rw [trace_append, log, log, List.filterMap_append]
    exact List.prefix_append _ _
  · rw [hm, hst]

end

/-- A write, and a batch that moves a payload to another key; a copy is taken before the batch is
acquired and one after it was committed. -/
theorem snapshot_exact_moved :
    let w : World Nat := ⟨Session.single [("a", 1)], []⟩
    let batch : List (Command Nat) := [.del "a", .set "b" 1 none]
    let pre : List (Move Nat) := [.call 0 (.set "c" 3), .acquire (.named "x") 0 batch,
      .resolve .commit (.named "x") 0 batch]
    let rows := [("b", 1), ("c", 3)]
    (∃ st, w.store? 0 = some st ∧ st.structureLock.admitsReader = true ∧ w.Copies 0 st []) ∧
      ((w.after pre).step (.call 0 (.snapshot ["c"]))).reply = .done (.rows rows) ∧
      log 0 (w.trace pre) = [[.set "c" 3 none], batch] ∧
      ∃ st, w.store? 0 = some st ∧ ∀ k v, (k, v) ∈ rows ↔
        Contents.replay st.contents (log 0 (w.trace pre)) k = some v := by
  intro w batch pre rows
  have hw : w.Reachable := .start (Session.start_single [("a", 1)])
  have hi : w.store? 0 = some (.ofRows 1 Config.default.lockTimeout [("a", 1)]) := rfl
  have hv : ∀ who batch' v, (.resolve .commit who 0 batch', .violated v) ∉
      w.trace (pre ++ .call 0 (.snapshot ["c"]) :: []) := by
    intro who batch' v hm
    have ht : (w.trace (pre ++ .call 0 (.snapshot ["c"]) :: [])).map (·.2) =
        [.done .done, .done (.locks ⟨1, .named "x", .ofList [("a", ()), ("b", ())]⟩), .done .done,
          .done (.rows rows)] := rfl
    have hm' := List.mem_map_of_mem (f := (·.2)) hm
    rw [ht] at hm'
    simp at hm'
  obtain ⟨hc, hrun⟩ := snapshot_exact hw hi
  exact ⟨⟨_, hi, rfl, hc rfl []⟩, rfl, rfl, _, hi, (hrun _ hv pre [] ["c"] rows rfl rfl).2.2⟩

end World

end TwoPhaseStore
