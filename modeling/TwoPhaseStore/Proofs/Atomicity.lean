import TwoPhaseStore.Proofs.Refinement
import TwoPhaseStore.Proofs.Script

/-!
A batch around nested steps, as a whole.  It leaves the contents as its nested steps left them, or
changed by the whole batch, with one exception: a commit that comes to a read has processed the
commands before it, and stops there.  So a batch is torn exactly if it has a change before its first
read and a change after it, and is to be committed (`apply_all_or_nothing`).
-/

namespace TwoPhaseStore

variable {V : Type}

/-- A command changes the payload of its key. -/
def Command.Changes (m : Contents V) (c : Command V) : Prop := c.result (m c.key) ≠ m c.key

/-- A batch has a change before its first read and another one after it. -/
def Torn (m : Contents V) (batch : List (Command V)) : Prop :=
  ∃ pre c post, batch = pre ++ c :: post ∧ (∀ d ∈ pre, d.method ≠ .get) ∧ c.method = .get ∧
    (∃ d ∈ pre, d.Changes m) ∧ ∃ d ∈ post, d.Changes m

theorem not_changes_of_get {m : Contents V} {c : Command V} (h : c.method = .get) :
    ¬ c.Changes m := by
  cases c with
  | get k => exact fun hc => hc rfl
  | set k v e => cases h
  | del k => cases h

/-- The first read of a batch is in one place only. -/
theorem split_at_get {done rest pre post : List (Command V)} {c : Command V}
    (hd : ∀ c ∈ done, c.method ≠ .get) (hr : ∀ c post, rest = c :: post → c.method = .get)
    (hp : ∀ d ∈ pre, d.method ≠ .get) (hc : c.method = .get)
    (h : done ++ rest = pre ++ c :: post) : done = pre ∧ rest = c :: post := by
  rcases List.append_eq_append_iff.1 h with ⟨as, rfl, has⟩ | ⟨bs, rfl, hbs⟩
  · cases as with
    | nil => exact ⟨(List.append_nil _).symm, has⟩
    | cons a as => exact absurd (hr a _ has) (hp a (by simp))
  · cases bs with
    | nil => exact ⟨List.append_nil _, hbs.symm⟩
    | cons b bs =>
      obtain ⟨rfl, -⟩ := List.cons.inj hbs
      exact absurd hc (hd c (by simp))

section
variable {m : Contents V} {done rest : List (Command V)} (hd : ∀ c ∈ done, c.method ≠ .get)
  (hr : ∀ c post, rest = c :: post → c.method = .get)

include hd hr

theorem torn_iff :
    Torn m (done ++ rest) ↔ (∃ d ∈ done, d.Changes m) ∧ ∃ d ∈ rest, d.Changes m := by
  constructor
  · rintro ⟨pre, c, post, he, hp, hc, hpre, d, hdm, hdc⟩
    obtain ⟨rfl, rfl⟩ := split_at_get hd hr hp hc he
    exact ⟨hpre, d, List.mem_cons_of_mem _ hdm, hdc⟩
  · rintro ⟨hdone, d, hdm, hdc⟩
    cases rest with
    | nil => cases hdm
    | cons c post =>
      have hc : c.method = .get := hr c post rfl
      refine ⟨done, c, post, rfl, hd, hc, hdone, d, ?_, hdc⟩
      rcases List.mem_cons.1 hdm with rfl | hdm
      · exact absurd hdc (not_changes_of_get hc)
      · exact hdm

/-- The commands before the first read make all or nothing of a batch that is not torn. -/
theorem all_or_nothing_iff (hn : ((done ++ rest).map Command.key).Nodup) :
    (m.applyAll done = m ∨ m.applyAll done = m.applyAll (done ++ rest)) ↔
      ¬ Torn m (done ++ rest) := by
  have hnd : (done.map Command.key).Nodup := by
    rw [List.map_append] at hn
    exact (List.nodup_append.1 hn).1
  rw [torn_iff hd hr, m.applyAll_eq_self_iff hnd, m.applyAll_eq_append_iff hn,
    Classical.not_and_iff_not_or_not]
  simp only [Command.Changes, not_exists, not_and, Classical.not_not]

end

/-! ## A batch around nested steps -/

namespace World

section
variable [BEq V] {w : World V} {depth i : Nat} {st : Store V} {locks : LockSet}

/-- A batch is acquired and decided to be committed. -/
def Commits (w : World V) (depth i : Nat) (batch : List (Command V)) (durable : Option Bool) :
    Prop :=
  durable = some true ∧
    ∃ locks, (w.step (.acquire (.nested depth) i batch)).reply = .done (.locks locks)

/-- A batch that is not to be committed changes nothing any more. -/
theorem contents_not_committed (h : w.Reachable) (hi : w.store? i = some st)
    (batch : List (Command V)) {durable : Option Bool} (hd : durable ≠ some true) :
    ∃ st₁, (w.step (decision depth i batch durable)).state.store? i = some st₁ ∧
      st₁.contents = st.contents := by
  obtain ⟨st₁, hi₁, hp⟩ := (w.step_effect (decision depth i batch durable)).permitted h.owned
    h.sound hi
  refine ⟨st₁, hi₁, hp.eq_of_still (fun c hc => ?_) fun who b hr => ?_⟩
  · cases durable <;> cases hc
  · match durable, hd with
    | some true, hd => exact hd rfl
    | some false, _ => cases hr
    | none, _ => cases hr

/-- One that is committed takes effect up to its first read. -/
theorem contents_committed (hw : w.Owned) (hm : locks ∈ w.locks)
    (hh : locks.holder = .nested depth) (hi : w.store? i = some st) (hu : locks.issuer = st.id)
    {batch : List (Command V)} (hn : (batch.map Command.key).Nodup)
    (hk : ∀ k, locks.keys.contains k = true ↔ k ∈ batch.map Command.key) :
    ∃ st₁ done rest, (w.step (decision depth i batch (some true))).state.store? i = some st₁ ∧
      batch = done ++ rest ∧ (∀ c ∈ done, c.method ≠ .get) ∧
      (∀ c post, rest = c :: post → c.method = .get) ∧
      st₁.contents = Contents.applyAll st.contents done := by
  obtain ⟨done, rest, h⟩ := hw.exists_resolves hi hm hu .commit batch
  obtain ⟨hd, hr⟩ := h.stopped_at_get hn hk
  have hst := (hw.step_resolve hm hi hu .commit batch).1
  rw [hh] at hst
  exact ⟨_, done, rest, hst, h.split, hd, hr, h.contents_commit fun _ => hw.linked hi hm hu⟩

/-- A batch around nested steps leaves what these left or the whole batch on top of it, unless it is
committed and torn.  At commit it leaves the commands before its first read, else nothing new. -/
theorem apply_all_or_nothing (h : w.Reachable) (hb : w.Below depth) (hi : w.store? i = some st)
    (batch : List (Command V)) (durable : Option Bool) (during : List (Step V)) :
    ∃ st₀ st₁, (w.session.undecided depth i batch during).store? i = some st₀ ∧
      (Session.runStep depth (.apply i (.ok batch) durable during) w.session).2.store? i =
        some st₁ ∧
      ((st₁.contents = st₀.contents ∨
          st₁.contents = Contents.applyAll st₀.contents batch) ↔
        ¬ (w.Commits depth i batch durable ∧ Torn st₀.contents batch)) ∧
      (w.Commits depth i batch durable → ∃ done rest, batch = done ++ rest ∧
        (∀ c ∈ done, c.method ≠ .get) ∧ (∀ c post, rest = c :: post → c.method = .get) ∧
        st₁.contents = Contents.applyAll st₀.contents done) ∧
      (¬ w.Commits depth i batch durable → st₁.contents = st₀.contents) := by
  have he := w.step_effect (.acquire (.nested depth) i batch)
  rcases apply_cases h hb i batch durable during rfl with ⟨hr, hu, hs⟩ | ⟨locks, hr, hu, hs⟩
  · have hi₁ : (w.step (.acquire (.nested depth) i batch)).state.store? i = some st :=
      ((he.same_of_not_acquired hr).stores i).trans hi
    have hn : ¬ w.Commits depth i batch durable := fun hcm => hcm.2.elim hr
    exact ⟨st, st, by rw [hu]; exact hi, by rw [hs]; exact hi₁,
      iff_of_true (.inl rfl) fun ht => hn ht.1, fun hcm => absurd hcm hn, fun _ => rfl⟩
  · have hw₁ : (w.step (.acquire (.nested depth) i batch)).state.Reachable := h.step _
    obtain ⟨ms, hp⟩ := runSteps_plays (depth + 1) during _ hw₁ (below_acquire hb i batch)
    obtain ⟨hm, hl, hn, hk, st₀, hi₀, hu₀⟩ := h.acquired_kept rfl hr hp.not_ends
    have hw₂ := hw₁.after ms
    have hst₀ : (w.session.undecided depth i batch during).store? i = some st₀ := by
      rw [hu, ← hp.session]
      exact hi₀
    rw [hs ms hp]
    by_cases hd : durable = some true
    · subst hd
      have hh : locks.holder = .nested depth := (Session.mem_of_lockSet? hl).2
      have hcm : w.Commits depth i batch (some true) := ⟨rfl, locks, hr⟩
      obtain ⟨st₁, done, rest, hi₁, rfl, hdone, hrest, hst₁⟩ :=
        contents_committed hw₂.owned hm hh hi₀ hu₀ hn hk
      refine ⟨st₀, st₁, hst₀, hi₁, ?_, fun _ => ⟨done, rest, rfl, hdone, hrest, hst₁⟩,
        fun hn => absurd hcm hn⟩
      rw [hst₁, all_or_nothing_iff hdone hrest hn]
      exact not_congr ⟨fun ht => ⟨hcm, ht⟩, fun ht => ht.2⟩
    · have hn : ¬ w.Commits depth i batch durable := fun hcm => hd hcm.1
      obtain ⟨st₁, hi₁, hst₁⟩ := contents_not_committed hw₂ hi₀ batch hd
      exact ⟨st₀, st₁, hst₀, hi₁, iff_of_true (.inl hst₁) fun ht => hn ht.1,
        fun hcm => absurd hcm hn, fun _ => hst₁⟩

end

theorem below_single (rows : List (Key × V)) : Below 0 ⟨Session.single rows, []⟩ :=
  ⟨nofun, nofun⟩

/-- A batch without a read is not torn. -/
theorem apply_all_or_nothing_single : ∃ st₀ st₁ : Store Nat,
    (Session.undecided 0 0 [.set "a" 1 none, .del "b"] [.act 0 (.call (.set "c" 3))]
      (.single [("b", 7)])).store? 0 = some st₀ ∧
    (Session.runStep 0 (.apply 0 (.ok [.set "a" 1 none, .del "b"]) (some true)
      [.act 0 (.call (.set "c" 3))]) (.single [("b", 7)])).2.store? 0 = some st₁ ∧
    (st₁.contents = st₀.contents ∨
      st₁.contents = Contents.applyAll st₀.contents [.set "a" 1 none, .del "b"]) := by
  have hs : Reachable (⟨Session.single [("b", 7)], []⟩ : World Nat) :=
    .start (Session.start_single [("b", 7)])
  have hi : store? 0 (⟨Session.single [("b", 7)], []⟩ : World Nat) =
      some (.ofRows 1 Config.default.lockTimeout [("b", 7)]) := rfl
  obtain ⟨st₀, st₁, h₀, h₁, hiff, -⟩ := apply_all_or_nothing hs (below_single _) hi
    [.set "a" 1 none, .del "b"] (some true) [.act 0 (.call (.set "c" 3))]
  refine ⟨st₀, st₁, h₀, h₁, hiff.2 ?_⟩
  rintro ⟨-, pre, c, post, he, -, hc, -⟩
  have hm : c ∈ [Command.set "a" 1 none, .del "b"] := by rw [he]; simp
  rcases List.mem_cons.1 hm with rfl | hm
  · cases hc
  · rw [List.mem_singleton.1 hm] at hc
    cases hc

/-- Between two sets a read tears the batch: the first set stays and the second is lost. -/
theorem apply_tears : ∃ st₀ st₁ : Store Nat,
    (Session.undecided 0 0 [.set "a" 1 none, .get "b", .set "c" 2 none] []
      (.single [])).store? 0 = some st₀ ∧
    (Session.runStep 0 (.apply 0 (.ok [.set "a" 1 none, .get "b", .set "c" 2 none]) (some true) [])
      (.single [])).2.store? 0 = some st₁ ∧
    ¬ (st₁.contents = st₀.contents ∨ st₁.contents =
      Contents.applyAll st₀.contents [.set "a" 1 none, .get "b", .set "c" 2 none]) := by
  refine ⟨_, _, rfl, rfl, ?_⟩
  rintro (h | h)
  · exact absurd (congrFun h "a") (by decide)
  · exact absurd (congrFun h "c") (by decide)

end World

end TwoPhaseStore
