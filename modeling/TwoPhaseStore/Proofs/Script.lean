import TwoPhaseStore.Proofs.Exactness
import TwoPhaseStore.Proofs.Isolation

/-!
Scripts are played by moves.  The parties of steps that run `depth` levels deep are those known by
name and those nested `depth` levels or deeper, so a script leaves what is held further out as it
is.  What a batch locks stays locked while its nested steps run:

    w.Reachable → w.Below depth →
      ∃ ms, w.Plays depth ms (Session.runSteps depth steps w.session).2          (runSteps_plays)

So what is proved of reachable worlds holds wherever a script gets to (`Reachable.script`).
-/

namespace TwoPhaseStore

open Session (Resolution)

variable {V : Type}

/-- The session of a batch when its nested steps have run, before the decision takes effect. -/
def Session.undecided [BEq V] (depth i : Nat) (batch : List (Command V)) (during : List (Step V))
    (s : Session V) : Session V :=
  match (s.noteBatch batch).acquire (.nested depth) i batch with
  | some ⟨.ok _, _, s⟩ => (s.runSteps (depth + 1) during).2
  | _ => s

namespace World

/-- Nobody nested as deep as `depth` has anything, and only nested parties have holds. -/
structure Below (depth : Nat) (w : World V) : Prop where
  locks : ∀ locks ∈ w.locks, ∀ d, locks.holder = .nested d → d < depth
  holds : ∀ h ∈ w.holds, ∃ d, h.who = .nested d ∧ d < depth

/-- The moves lead to the session `s`, and leave what is held less than `depth` levels deep. -/
structure Plays [BEq V] (depth : Nat) (w : World V) (ms : List (Move V)) (s : Session V) :
    Prop where
  session : (w.after ms).session = s
  holds : (w.after ms).holds = w.holds
  below : (w.after ms).Below depth
  ends : ∀ m ∈ ms, ∀ d, m.ends? = some (.nested d) → depth ≤ d

theorem Below.not_mem {depth : Nat} {w : World V} (hb : w.Below depth) :
    .nested depth ∉ w.parties := by
  intro hm
  rcases List.mem_append.1 hm with hm | hm
  · obtain ⟨locks, hl, he⟩ := List.mem_map.1 hm
    exact Nat.lt_irrefl _ (hb.locks locks hl depth he)
  · obtain ⟨h, hh, he⟩ := List.mem_map.1 hm
    obtain ⟨d, hd, hlt⟩ := hb.holds h hh
    obtain rfl := Holder.nested.inj (hd.symm.trans he)
    exact Nat.lt_irrefl _ hlt

theorem Below.mono {depth depth' : Nat} {w : World V} (hb : w.Below depth) (h : depth ≤ depth') :
    w.Below depth' := by
  refine ⟨fun locks hl d hd => ?_, fun h' hh => ?_⟩
  · exact Nat.lt_of_lt_of_le (hb.locks locks hl d hd) h
  · obtain ⟨d, hd, hlt⟩ := hb.holds h' hh
    exact ⟨d, hd, Nat.lt_of_lt_of_le hlt h⟩

section
variable [BEq V] {w w' : World V} {m : Move V} {o : Outcome V} {depth : Nat}

/-- A live lock set was live before, or its holder has just acquired it. -/
theorem Effect.mem_locks (he : w.Effect m o w') {locks : LockSet} (hl : locks ∈ w'.locks) :
    locks ∈ w.locks ∨ m.begins? = some locks.holder := by
  cases he with
  | idle h hs => exact .inl (hs.locks ▸ hl)
  | called st hi hs hl' => exact .inl (hl' ▸ hl)
  | acquired st locks' hw hi hr hs hl' =>
    rw [hl'] at hl
    rcases List.mem_cons.1 hl with rfl | hl
    · obtain ⟨-, -, -, ⟨-, rfl, -⟩, -⟩ := Store.acquire_ok hr
      exact .inr rfl
    · exact .inl hl
  | resolved st locks' hm hi hu hs hl' => exact .inl (List.mem_filter.1 (hl' ▸ hl)).1
  | forgotten locks' hm hs hl' => exact .inl (List.mem_filter.1 (hl' ▸ hl)).1
  | held st st' hw hi hr hs hl' => exact .inl (hl' ▸ hl)
  | heldBaseline hw hi hs hl' => exact .inl (hl' ▸ hl)
  | letGo h hm hs hl' => exact .inl (hl' ▸ hl)

theorem plays_nil (hb : w.Below depth) : w.Plays depth [] w.session :=
  ⟨rfl, rfl, hb, by simp⟩

theorem Plays.append {ms ms' : List (Move V)} {s s' : Session V} (h : w.Plays depth ms s)
    (h' : (w.after ms).Plays depth ms' s') : w.Plays depth (ms ++ ms') s' := by
  refine ⟨?_, ?_, ?_, fun m hm => ?_⟩
  · rw [after_append, h'.session]
  · rw [after_append, h'.holds, h.holds]
  · rw [after_append]
    exact h'.below
  · rcases List.mem_append.1 hm with hm | hm
    · exact h.ends m hm
    · exact h'.ends m hm

theorem Plays.exists_append {ms : List (Move V)} {s s' : Session V} (h : w.Plays depth ms s)
    (h' : ∃ ms', (w.after ms).Plays depth ms' s') : ∃ ms', w.Plays depth ms' s' :=
  h'.elim fun _ hp => ⟨_, h.append hp⟩

/-- One move that changes no hold, by a party known by name or for nobody. -/
theorem plays_step (hb : w.Below depth) (hh : (w.step m).state.holds = w.holds)
    (hn : ∀ d, m.begins? ≠ some (.nested d)) (he : ∀ d, m.ends? = some (.nested d) → depth ≤ d) :
    w.Plays depth [m] (w.step m).state.session := by
  refine ⟨rfl, hh, ⟨fun locks hl d hd => ?_, fun h hm => ?_⟩, by simpa using he⟩
  · rcases (w.step_effect m).mem_locks hl with hl | hm
    · exact hb.locks locks hl d hd
    · rw [hd] at hm
      exact absurd hm (hn d)
  · exact hb.holds h (hh ▸ hm)

/-- A nested party that begins to have something is the deepest one with a lock set. -/
theorem Effect.locks_below (he : w.Effect m o w') (hb : w.Below depth)
    (hm : m.begins? = some (.nested depth)) {locks : LockSet} (hl : locks ∈ w'.locks) {d : Nat}
    (hd : locks.holder = .nested d) : d < depth + 1 := by
  rcases he.mem_locks hl with hl | hm'
  · exact Nat.lt_succ_of_lt (hb.locks locks hl d hd)
  · have hn : Holder.nested depth = .nested d := hd ▸ Option.some.inj (hm.symm.trans hm')
    rw [Holder.nested.inj hn]
    exact Nat.lt_succ_self d

theorem Plays.not_ends {ms : List (Move V)} {s : Session V} (hp : w.Plays (depth + 1) ms s) :
    ∀ m ∈ ms, m.ends? ≠ some (.nested depth) :=
  fun m hm he => Nat.not_succ_le_self depth (hp.ends m hm depth he)

/-- A nested party begins to have something, deeper ones move, and then it has nothing again. -/
theorem Plays.around {first last : Move V} {ms : List (Move V)} {t : Session V} {w₂ : World V}
    (hp : (w.step first).state.Plays (depth + 1) ms t) (hb : w.Below depth)
    (hw₂ : (((w.step first).state.after ms).step last).state = w₂)
    (hf : first.ends? = none) (hbeg : last.begins? = none)
    (hend : ∀ d, last.ends? = some (.nested d) → d = depth)
    (hh : w₂.holds = w.holds) (hn : ∀ locks ∈ w₂.locks, locks.holder ≠ .nested depth) :
    w.Plays depth (first :: (ms ++ [last])) w₂.session := by
  have hafter : w.after (first :: (ms ++ [last])) = w₂ := by
    rw [← hw₂, World.after, after_append]
    rfl
  refine ⟨by rw [hafter], by rw [hafter, hh], ?_, fun m hm d hd => ?_⟩
  · rw [hafter]
    refine ⟨fun locks hl d hd => ?_, fun h hm => hb.holds h (hh ▸ hm)⟩
    have hm : locks ∈ ((w.step first).state.after ms).locks := by
      rw [← hw₂] at hl
      refine ((step_effect _ last).mem_locks hl).resolve_right ?_
      rw [hbeg]
      exact nofun
    have hle : d ≤ depth := Nat.le_of_lt_succ (hp.below.locks locks hm d hd)
    exact Nat.lt_of_le_of_ne hle fun he => hn locks hl (he ▸ hd)
  · rcases List.mem_cons.1 hm with rfl | hm
    · rw [hf] at hd
      cases hd
    · rcases List.mem_append.1 hm with hm | hm
      · exact Nat.le_of_succ_le (hp.ends m hm d hd)
      · rw [List.mem_singleton.1 hm] at hd
        exact Nat.le_of_eq (hend d hd).symm

/-! ## Steps without nested ones -/

/-- Holds are never under a name, so a name is in use if it has a lock set. -/
theorem acquireAs_named (hb : w.Below depth) (name : String) (i : Nat)
    (batch : List (Command V)) :
    (w.session.acquireAs (.named name) i (.ok batch)).state =
      (w.step (.acquire (.named name) i batch)).state.session := by
  rw [step]
  split
  · next hw =>
    have hn : (w.session.lockSet? (.named name)).isSome = true := by
      rcases List.mem_append.1 hw with hm | hm
      · obtain ⟨locks, hl, he⟩ := List.mem_map.1 hm
        rw [Option.isSome_iff_ne_none]
        exact fun hn => Session.lockSet?_eq_none.1 hn locks hl he
      · obtain ⟨h, hh, he⟩ := List.mem_map.1 hm
        obtain ⟨d, hd, -⟩ := hb.holds h hh
        rw [hd] at he
        cases he
    rw [Session.acquireAs, if_pos hn]
    rfl
  · rfl

theorem acquire_holds (who : Holder) (i : Nat) (batch : List (Command V)) :
    (w.step (.acquire who i batch)).state.holds = w.holds := by
  rw [step]
  split <;> rfl

theorem resolveAs_plays (hb : w.Below depth) (how : Resolution) (name : String) (i : Nat)
    (batch : Batch V) :
    ∃ ms, w.Plays depth ms (w.session.resolveAs how (.named name) i batch).state := by
  cases batch with
  | error e => exact ⟨[], plays_nil hb⟩
  | ok batch =>
    have h : w.Plays depth [.name (batch.map Command.key)] _ := plays_step hb rfl nofun nofun
    have h' : (w.after [.name (batch.map Command.key)]).Plays depth
      [.resolve how (.named name) i batch] _ := plays_step h.below rfl nofun nofun
    exact ⟨_, h.append h'⟩

theorem act_plays (hb : w.Below depth) (i : Nat) (a : Action V) :
    ∃ ms, w.Plays depth ms (w.session.act i a).state := by
  cases a with
  | call c => exact ⟨[.call i c], plays_step hb rfl nofun nofun⟩
  | acquire name batch =>
    cases batch with
    | error e =>
      have hs : (w.session.act i (.acquire name (.error e))).state = w.session := by
        show (if _ then _ else _ : Answer (Session V) (Outcome V)).state = _
        split <;> rfl
      rw [hs]
      exact ⟨[], plays_nil hb⟩
    | ok batch =>
      have hs : (w.session.act i (.acquire name (.ok batch))).state =
          (w.step (.acquire (.named name) i batch)).state.session := acquireAs_named hb name i batch
      rw [hs]
      exact ⟨_, plays_step hb (acquire_holds _ _ _) nofun nofun⟩
  | locks name =>
    have hs : (w.session.act i (.locks name)).state = w.session := by
      show (Session.withLocks _ _ _).state = _
      unfold Session.withLocks
      split <;> rfl
    rw [hs]
    exact ⟨[], plays_nil hb⟩
  | commit name batch => exact resolveAs_plays hb .commit name i batch
  | abort name batch => exact resolveAs_plays hb .abort name i batch
  | drop name => exact ⟨[.drop (.named name)], plays_step hb rfl nofun nofun⟩
  | dropLater name delay =>
    have hs : (w.session.act i (.dropLater name delay)).state =
        (w.step (.drop (.named name))).state.session := by
      show (Session.withLocks _ _ _).state = (Session.withLocks _ _ _).state
      unfold Session.withLocks
      split <;> rfl
    rw [hs]
    exact ⟨_, plays_step hb rfl nofun nofun⟩

/-! ## A batch around nested steps -/

/-- The move that ends the lock set of a batch as was decided. -/
def decision (depth i : Nat) (batch : List (Command V)) (durable : Option Bool) : Move V :=
  match durable with
  | none => .drop (.nested depth)
  | some b => .resolve (if b then .commit else .abort) (.nested depth) i batch

theorem decide_eq {i : Nat} {batch : List (Command V)} {locks : LockSet} {durable : Option Bool}
    (hl : w.session.lockSet? (.nested depth) = some locks) :
    (w.session.decide i batch locks durable).state =
      (w.step (decision depth i batch durable)).state.session := by
  cases durable with
  | none =>
    show _ = (Session.withLocks _ _ _).state
    rw [Session.withLocks, hl]
    rfl
  | some b =>
    show _ = (Session.withLocks _ _ _).state
    rw [Session.withLocks, hl]
    simp only [Session.decide]
    cases w.session.resolve (if b then .commit else .abort) i batch locks <;> rfl

/-- The acquire phase of a batch that a step is about. -/
theorem step_acquire_nested (hb : w.Below depth) (i : Nat) (batch : List (Command V)) :
    w.step (.acquire (.nested depth) i batch) =
      w.answer (match (w.session.noteBatch batch).acquire (.nested depth) i batch with
        | some a => ⟨.ofReply (a.reply.map .locks), a.events, a.state⟩
        | none => w.session.reply .unsupported) := by
  have hn : w.session.lockSet? (.nested depth) = none := Session.lockSet?_eq_none.2
    fun locks hl he => Nat.lt_irrefl _ (hb.locks locks hl depth he)
  rw [step, if_neg hb.not_mem, Session.acquireAs, hn]
  rfl

/-- A batch that cannot be acquired ends the step.  One that is acquired is still held after its
nested steps, and then it is ended as was decided. -/
theorem apply_cases (h : w.Reachable) (hb : w.Below depth) (i : Nat) (batch : List (Command V))
    (durable : Option Bool) (during : List (Step V)) {w₁ : World V}
    (hw₁ : w₁ = (w.step (.acquire (.nested depth) i batch)).state) :
    ((∀ locks, (w.step (.acquire (.nested depth) i batch)).reply ≠ .done (.locks locks)) ∧
      w.session.undecided depth i batch during = w.session ∧
      (Session.runStep depth (.apply i (.ok batch) durable during) w.session).2 = w₁.session) ∨
    ∃ locks, (w.step (.acquire (.nested depth) i batch)).reply = .done (.locks locks) ∧
      w.session.undecided depth i batch during =
        (Session.runSteps (depth + 1) during w₁.session).2 ∧
      ∀ ms, w₁.Plays (depth + 1) ms (Session.runSteps (depth + 1) during w₁.session).2 →
        (Session.runStep depth (.apply i (.ok batch) durable during) w.session).2 =
          ((w₁.after ms).step (decision depth i batch durable)).state.session := by
  have hs := step_acquire_nested hb i batch
  rw [Session.runStep, Session.undecided]
  cases ha : (w.session.noteBatch batch).acquire (.nested depth) i batch with
  | none =>
    simp only [ha] at hs
    rw [hw₁, hs]
    exact .inl ⟨fun locks he => (by cases he), rfl, rfl⟩
  | some a =>
    obtain ⟨r, events, s⟩ := a
    cases r with
    | error f =>
      simp only [ha] at hs
      rw [hw₁, hs]
      exact .inl ⟨fun locks he => (by cases he), rfl, rfl⟩
    | ok locks =>
      simp only [ha] at hs
      have hr : (w.step (.acquire (.nested depth) i batch)).reply = .done (.locks locks) := by
        rw [hs]
        rfl
      have hsess : w₁.session = s := by rw [hw₁, hs]; rfl
      refine .inr ⟨locks, hr, by rw [hsess], fun ms hp => ?_⟩
      have hl : (w₁.after ms).session.lockSet? (.nested depth) = some locks :=
        (h.acquired_kept hw₁ hr hp.not_ends).2.1
      show (Session.decide i batch locks durable
        (Session.runSteps (depth + 1) during s).2).state = _
      rw [← hsess, ← hp.session]
      exact decide_eq hl

theorem Effect.same_of_not_acquired {who : Holder} {i : Nat} {batch : List (Command V)}
    (he : w.Effect (.acquire who i batch) o w') (ho : ∀ locks, o ≠ .done (.locks locks)) :
    w.Same w' := by
  cases he with
  | idle h hs => exact hs
  | acquired st locks => exact absurd rfl (ho locks)
  | forgotten _ _ _ _ _ hd => rcases hd with ⟨hm, -⟩ | ⟨_, _, _, _, hm, -⟩ <;> cases hm

/-- Acquiring for a nested party leaves only deeper ones without anything. -/
theorem below_acquire (hb : w.Below depth) (i : Nat) (batch : List (Command V)) :
    (w.step (.acquire (.nested depth) i batch)).state.Below (depth + 1) := by
  refine ⟨fun locks hl d hd => (w.step_effect _).locks_below hb rfl hl hd, fun h hm => ?_⟩
  rw [acquire_holds] at hm
  exact (hb.mono (Nat.le_succ depth)).holds h hm

theorem apply_plays (h : w.Reachable) (hb : w.Below depth) (i : Nat) (batch : List (Command V))
    (durable : Option Bool) (during : List (Step V))
    (ih : ∀ w₁ : World V, w₁.Reachable → w₁.Below (depth + 1) →
      ∃ ms, w₁.Plays (depth + 1) ms (Session.runSteps (depth + 1) during w₁.session).2) :
    ∃ ms, w.Plays depth ms
      (Session.runStep depth (.apply i (.ok batch) durable during) w.session).2 := by
  have he := w.step_effect (.acquire (.nested depth) i batch)
  rcases apply_cases h hb i batch durable during rfl with ⟨hr, -, hs⟩ | ⟨locks, hr, -, hs⟩
  · rw [hs]
    refine ⟨[.acquire (.nested depth) i batch], rfl, acquire_holds _ _ _,
      ⟨fun locks hl => ?_, fun h' hh => ?_⟩, by simp [Move.ends?]⟩
    · exact hb.locks locks ((he.same_of_not_acquired hr).locks ▸ hl)
    · exact hb.holds h' (acquire_holds (w := w) _ i batch ▸ hh)
  · have h₁ : (w.step (.acquire (.nested depth) i batch)).state.Reachable := h.step _
    obtain ⟨ms, hp⟩ := ih _ h₁ (below_acquire hb i batch)
    obtain ⟨-, -, -, -, st, hi, -⟩ := h.acquired_kept rfl hr hp.not_ends
    have hends : (decision depth i batch durable).ends? = some (.nested depth) := by
      cases durable <;> rfl
    rw [hs ms hp]
    refine ⟨_, hp.around hb rfl rfl (by cases durable <;> rfl) (fun d hd => ?_) ?_ ?_⟩
    · exact Holder.nested.inj (Option.some.inj (hd.symm.trans hends))
    · have hholds : ∀ w : World V, (w.step (decision depth i batch durable)).state.holds =
          w.holds := by cases durable <;> exact fun _ => rfl
      rw [hholds, hp.holds, acquire_holds]
    · refine (step_effect _ (decision depth i batch durable)).ends hends fun j hj => ?_
      obtain rfl : i = j := by cases durable <;> cases hj; rfl
      rw [hi]
      exact Option.some_ne_none st

/-! ## A hold around nested steps -/

/-- The world in which a nested party has taken a hold. -/
def holding (w : World V) (depth i : Nat) (mode : HoldMode) (s : Session V) : World V :=
  ⟨s, ⟨.nested depth, i, mode⟩ :: w.holds⟩

section
variable {i : Nat} {mode : HoldMode} {s : Session V}

theorem step_hold (hb : w.Below depth)
    (hh : w.session.hold? (.nested depth) i mode = some (.ok (some s))) :
    (w.step (.hold (.nested depth) i mode)).state = w.holding depth i mode s := by
  rw [step, if_neg hb.not_mem, hh]
  rfl

theorem below_holding (hb : w.Below depth)
    (hh : w.session.hold? (.nested depth) i mode = some (.ok (some s))) :
    (w.holding depth i mode s).Below (depth + 1) := by
  refine ⟨fun locks hl d hd => ?_, fun h hm => ?_⟩
  · rw [← step_hold hb hh] at hl
    exact (w.step_effect _).locks_below hb rfl hl hd
  · rcases List.mem_cons.1 hm with rfl | hm
    · exact ⟨depth, rfl, Nat.lt_succ_self depth⟩
    · exact (hb.mono (Nat.le_succ depth)).holds h hm

/-- In the end the party has nothing to let go of but its hold. -/
theorem step_letGo (hb : w.Below depth) (hw : w'.holds = ⟨.nested depth, i, mode⟩ :: w.holds) :
    (w'.step (.letGo (.nested depth))).state =
      ⟨w'.session.letGo (.nested depth) i mode, w.holds⟩ := by
  have hf : w.holds.filter (·.who ≠ .nested depth) = w.holds := by
    refine List.filter_eq_self.2 fun h hm => decide_eq_true fun he => ?_
    obtain ⟨d, hd, hlt⟩ := hb.holds h hm
    rw [hd] at he
    exact Nat.ne_of_lt hlt (Holder.nested.inj he)
  rw [step, hw, List.find?_cons_of_pos (by simp), List.filter_cons_of_neg (by simp), hf]
  rfl

theorem held_plays (h : w.Reachable) (hb : w.Below depth)
    (hh : w.session.hold? (.nested depth) i mode = some (.ok (some s))) {ms : List (Move V)}
    {t : Session V} (hp : (w.holding depth i mode s).Plays (depth + 1) ms t) :
    w.Plays depth (.hold (.nested depth) i mode :: (ms ++ [.letGo (.nested depth)]))
      (t.letGo (.nested depth) i mode) := by
  have hr : ((w.holding depth i mode s).after ms).Reachable := by
    rw [← step_hold hb hh]
    exact (h.step _).after ms
  have hl := step_letGo hb hp.holds
  rw [hp.session] at hl
  rw [← step_hold hb hh] at hl hp hr
  refine hp.around hb hl rfl rfl nofun rfl fun locks hm he => ?_
  have hm' : locks ∈ ((w.step (.hold (.nested depth) i mode)).state.after ms).locks := by
    rw [← hl] at hm
    exact ((step_effect _ _).mem_locks hm).resolve_right nofun
  have hd := (List.nodup_append.1 hr.owned.parties).2.2
  refine hd _ (List.mem_map_of_mem hm') (.nested depth) ?_ he
  rw [hp.holds, step_hold hb hh]
  exact List.mem_cons_self

end

theorem hold_plays (h : w.Reachable) (hb : w.Below depth) (i : Nat) (mode : HoldMode)
    (steps : List (Step V))
    (ih : ∀ w₁ : World V, w₁.Reachable → w₁.Below (depth + 1) →
      ∃ ms, w₁.Plays (depth + 1) ms (Session.runSteps (depth + 1) steps w₁.session).2) :
    ∃ ms, w.Plays depth ms (Session.runStep depth (.hold i mode steps) w.session).2 := by
  have hname : w.Plays depth [.name mode.key?.toList] _ := plays_step hb rfl nofun nofun
  have hs : (w.after [.name mode.key?.toList]).session = w.session.note mode.key?.toList := rfl
  have h₀ : (w.after [.name mode.key?.toList]).Reachable := h.after _
  have hb₀ := hname.below
  rw [Session.runStep, ← hs]
  refine hname.exists_append ?_
  generalize w.after [.name mode.key?.toList] = w₀ at h₀ hb₀ ⊢
  cases hh : w₀.session.hold? (.nested depth) i mode with
  | none => exact ⟨[], plays_nil hb₀⟩
  | some r =>
    cases r with
    | error f => exact ⟨[], plays_nil hb₀⟩
    | ok held? =>
      cases held? with
      | none => exact ⟨[], plays_nil hb₀⟩
      | some held =>
        have hr : (w₀.holding depth i mode held).Reachable := step_hold hb₀ hh ▸ h₀.step _
        obtain ⟨ms, hp⟩ := ih _ hr (below_holding hb₀ hh)
        exact ⟨_, held_plays h₀ hb₀ hh hp⟩

/-! ## Scripts -/

mutual

/-- A step is played by moves of parties nested as deep, and leaves the others what they hold. -/
theorem runStep_plays (depth : Nat) : ∀ (step : Step V) (w : World V), w.Reachable →
    w.Below depth → ∃ ms, w.Plays depth ms (Session.runStep depth step w.session).2
  | .act i action, w, _, hb => by
    rw [Session.runStep]
    exact act_plays hb i action
  | .apply i (.error e) durable during, w, _, hb => by
    rw [Session.runStep]
    exact ⟨[], plays_nil hb⟩
  | .apply i (.ok batch) durable during, w, h, hb =>
    apply_plays h hb i batch durable during (runSteps_plays (depth + 1) during)
  | .hold i mode steps, w, h, hb =>
    hold_plays h hb i mode steps (runSteps_plays (depth + 1) steps)

theorem runSteps_plays (depth : Nat) : ∀ (steps : List (Step V)) (w : World V), w.Reachable →
    w.Below depth → ∃ ms, w.Plays depth ms (Session.runSteps depth steps w.session).2
  | [], w, _, hb => ⟨[], plays_nil hb⟩
  | step :: steps, w, h, hb => by
    obtain ⟨ms, hp⟩ := runStep_plays depth step w h hb
    refine hp.exists_append ?_
    show ∃ ms', (w.after ms).Plays depth ms'
      (Session.runSteps depth steps (Session.runStep depth step w.session).2).2
    rw [← hp.session]
    exact runSteps_plays depth steps (w.after ms) (h.after ms) hp.below

end

end

end World

end TwoPhaseStore
