import TwoPhaseStore.Proofs.Script
import TwoPhaseStore.Proofs.Setup
import TwoPhaseStore.Proofs.Twins

/-!
A copy of a store in which nobody has anything: a new store with the rows of its snapshot.  It has
none of the placeholders that ended lock sets may have left, and no script can tell:

    w.AtRest i st → (st.snapshot walk).reply = .ok rows →
      reports of a script on `w` and with `.ofRows id timeout rows` in the place of `st` are alike
                                                                             (snapshot_faithful)

But a table and its copy are not visited in one order, so the two scripts have walks of their own
(`Step.UpToWalks`).  A walk decides nothing but which key a refused copy names (`act_walk`,
`hold?_walk`), and on the same walks it is the same key.

A script is carried along step by step (`runSteps_twins`): as its moves keep the first world reachable,
the lock sets there hold their keys whenever one of them ends, and `Session.Twins` goes on.
-/

namespace TwoPhaseStore

open Session (Twins AnswersAlike)

variable {V : Type}

/-! ## Scripts up to walks -/

/-- The same mode, but for the walk. -/
inductive HoldMode.UpToWalk : HoldMode → HoldMode → Prop where
  | same (mode : HoldMode) : UpToWalk mode mode
  | shared (walk walk' : List Key) : UpToWalk (.shared walk) (.shared walk')

/-- The same step, but for the walks, those in nested steps included. -/
inductive Step.UpToWalks : Step V → Step V → Prop where
  | act (i : Nat) (action : Action V) : UpToWalks (.act i action) (.act i action)
  | snapshot (i : Nat) (walk walk' : List Key) :
    UpToWalks (.act i (.call (.snapshot walk))) (.act i (.call (.snapshot walk')))
  | apply (i : Nat) (batch : Batch V) (durable : Option Bool) {during during' : List (Step V)}
    (h : List.Forall₂ UpToWalks during during') :
    UpToWalks (.apply i batch durable during) (.apply i batch durable during')
  | hold (i : Nat) {mode mode' : HoldMode} (hm : mode.UpToWalk mode')
    {steps steps' : List (Step V)} (h : List.Forall₂ UpToWalks steps steps') :
    UpToWalks (.hold i mode steps) (.hold i mode' steps')

/-- The walk on which a store is copied to be held. -/
def HoldMode.walk? : HoldMode → Option (List Key)
  | .shared walk => some walk
  | _ => none

/-- The walk on which a step copies a store, if it does. -/
def Step.walk? : Step V → Option (List Key)
  | .act _ (.call (.snapshot walk)) => some walk
  | .hold _ mode _ => mode.walk?
  | _ => none

def Step.nested : Step V → List (Step V)
  | .act _ _ => []
  | .apply _ _ _ during => during
  | .hold _ _ steps => steps

/-! ## What a walk decides -/

/-- The same is answered on two walks, but that both may be refused, each for a key of its own. -/
def SameButKey {α : Type} (locked : Key → α) (walk walk' : Option (List Key)) (a a' : α) : Prop :=
  a' = a ∨ walk ≠ walk' ∧ ∃ k k', a = locked k ∧ a' = locked k'

namespace SameButKey

variable {α β : Type} {locked : Key → α} {walk walk' : Option (List Key)} {a a' : α}

theorem map {locked' : Key → β} (f : α → β) (hf : ∀ k, f (locked k) = locked' k)
    (h : SameButKey locked walk walk' a a') : SameButKey locked' walk walk' (f a) (f a') := by
  rcases h with rfl | ⟨hne, k, k', rfl, rfl⟩
  · exact .inl rfl
  · exact .inr ⟨hne, k, k', hf k, hf k'⟩

end SameButKey

theorem Store.snapshot_sameButKey (walk walk' : List Key) (s : Store V) :
    SameButKey (fun k => .error (.keyLocked k)) (some walk) (some walk') (s.snapshot walk).reply
      (s.snapshot walk').reply := by
  by_cases hw : walk = walk'
  · exact .inl (by rw [hw])
  · refine (s.snapshot_walk walk walk').imp_right ?_
    rintro ⟨k, k', -, -, hr, hr'⟩
    exact ⟨fun he => hw (Option.some.inj he), k, k', hr, hr'⟩

theorem Backend.hold?_walk (who : Holder) (walk walk' : List Key) (b : Backend V) :
    SameButKey (fun k => .error (.keyLocked k)) (some walk) (some walk')
      (b.hold? who (.shared walk)) (b.hold? who (.shared walk')) := by
  cases b with
  | baseline b => exact .inl rfl
  | store s =>
    simp only [Backend.hold?, Store.hold?]
    rcases s.snapshot_sameButKey walk walk' with hr | ⟨hne, k, k', hr, hr'⟩
    · exact .inl (by rw [hr])
    · exact .inr ⟨hne, k, k', by rw [hr]; rfl, by rw [hr']; rfl⟩

theorem Backend.letGo_walk (who : Holder) (walk walk' : List Key) (b : Backend V) :
    b.letGo who (.shared walk') = b.letGo who (.shared walk) := by cases b <;> rfl

namespace Session

/-- On another walk the same is done and answered, but for the key of a copy that is refused. -/
theorem act_walk [BEq V] (i : Nat) (walk walk' : List Key) (σ : Session V) :
    SameButKey (fun k => .refused (.keyLocked k)) (some walk) (some walk')
        (σ.act i (.call (.snapshot walk))).reply (σ.act i (.call (.snapshot walk'))).reply ∧
      (σ.act i (.call (.snapshot walk'))).state = (σ.act i (.call (.snapshot walk))).state := by
  simp only [act, call, note]
  cases σ.backends[i]? with
  | none => exact ⟨.inl rfl, rfl⟩
  | some b =>
    cases b with
    | baseline b => exact ⟨.inl rfl, rfl⟩
    | store s =>
      have hstate : (s.call (.snapshot walk')).state = (s.call (.snapshot walk)).state :=
        (Store.snapshot_state walk' s).trans (Store.snapshot_state walk s).symm
      constructor
      · exact (s.snapshot_sameButKey walk walk').map
          (fun r => Outcome.ofReply (r.map Reply.rows)) fun k => rfl
      · show setBackend i (.store (s.call (.snapshot walk')).state) _ = _
        rw [hstate]
        rfl

/-- On another walk the same hold is had, or it is refused for another key. -/
theorem hold?_walk {mode mode' : HoldMode} (h : mode.UpToWalk mode') (who : Holder) (i : Nat)
    (σ : Session V) : SameButKey (fun k => some (.error (.keyLocked k))) mode.walk? mode'.walk?
      (σ.hold? who i mode) (σ.hold? who i mode') := by
  cases h with
  | same => exact .inl rfl
  | shared walk walk' =>
    unfold hold?
    cases σ.backends[i]? with
    | none => exact .inl rfl
    | some b =>
      exact (b.hold?_walk who walk walk').map
        (fun r => some (r.map (·.map fun b => σ.setBackend i b))) fun k => rfl

theorem letGo_walk {mode mode' : HoldMode} (h : mode.UpToWalk mode') (who : Holder) (i : Nat)
    (σ : Session V) : σ.letGo who i mode' = σ.letGo who i mode := by
  cases h with
  | same => rfl
  | shared walk walk' =>
    have hb : (fun b : Backend V => b.letGo who (.shared walk')) =
        fun b => b.letGo who (.shared walk) := funext fun b => b.letGo_walk who walk walk'
    unfold letGo
    rw [hb]

theorem note_walk {mode mode' : HoldMode} (h : mode.UpToWalk mode') (σ : Session V) :
    σ.note mode'.key?.toList = σ.note mode.key?.toList := by cases h <;> rfl

end Session

/-! ## Reports that are alike -/

/-- The outcomes of two steps with these walks are the same up to labels, but that on different walks
different keys may be found locked. -/
inductive Outcome.AlikeOn (s t : Store V) (walk walk' : Option (List Key)) :
    Outcome V → Outcome V → Prop where
  | alike {o o' : Outcome V} (h : o.Alike s t o') : AlikeOn s t walk walk' o o'
  | keyLocked (hne : walk ≠ walk') (k k' : Key) :
    AlikeOn s t walk walk' (.refused (.keyLocked k)) (.refused (.keyLocked k'))

mutual

/-- The reports of two steps are alike, nested ones included.  What is traced on the way is left
out. -/
inductive Report.Alike (s t : Store V) : Step V → Step V → Report V → Report V → Prop where
  | plain {step step' : Step V} {o o' : Outcome V}
    (ho : o.AlikeOn s t step.walk? step'.walk? o') (len : Option (Except Fault Nat))
    (events events' : List Event) :
    Report.Alike s t step step' ⟨o, none, len, events⟩ ⟨o', none, len, events'⟩
  | nested {step step' : Step V} {o o' : Outcome V} {rs rs' : List (Report V)}
    (ho : o.Alike s t o') (hrs : Report.AllAlike s t step.nested step'.nested rs rs')
    (len : Option (Except Fault Nat)) (events events' : List Event) :
    Report.Alike s t step step' ⟨o, some rs, len, events⟩ ⟨o', some rs', len, events'⟩

/-- So are those of two scripts, step by step. -/
inductive Report.AllAlike (s t : Store V) :
    List (Step V) → List (Step V) → List (Report V) → List (Report V) → Prop where
  | nil : Report.AllAlike s t [] [] [] []
  | cons {step step' : Step V} {steps steps' : List (Step V)} {r r' : Report V}
    {rs rs' : List (Report V)} (h : Report.Alike s t step step' r r')
    (hs : Report.AllAlike s t steps steps' rs rs') :
    Report.AllAlike s t (step :: steps) (step' :: steps') (r :: rs) (r' :: rs')

end

theorem Outcome.Alike.eq_of_refused {s t : Store V} {o : Outcome V} {f : Fault}
    (h : o.Alike s t (.refused f)) : o = .refused f := by
  generalize ho : (Outcome.refused f : Outcome V) = o' at h
  cases h with
  | same o =>
    cases o <;> cases ho
    rfl
  | text => cases ho
  | timeout => cases ho

/-- What is alike on one walk is alike on two. -/
theorem Outcome.Alike.on {s t : Store V} {walk walk' : Option (List Key)} {o o₁ o' : Outcome V}
    (h : o.Alike s t o₁) (hk : SameButKey (fun k => .refused (.keyLocked k)) walk walk' o₁ o') :
    o.AlikeOn s t walk walk' o' := by
  rcases hk with rfl | ⟨hne, k, k', rfl, rfl⟩
  · exact .alike h
  · rw [h.eq_of_refused]
    exact .keyLocked hne k k'

namespace Session

/-- Twins after a step on each side, with reports alike. -/
structure StepsAlike (s t : Store V) (step step' : Step V) (r r' : Report V × Session V) :
    Prop where
  report : r.1.Alike s t step step' r'.1
  session : Twins s t r.2 r'.2

/-- Twins after some steps on each side, with reports alike. -/
structure RunsAlike (s t : Store V) (steps steps' : List (Step V))
    (r r' : List (Report V) × Session V) : Prop where
  reports : Report.AllAlike s t steps steps' r.1 r'.1
  session : Twins s t r.2 r'.2

namespace Twins

variable {s t : Store V} {step step' : Step V} {σ τ : Session V} {o o' : Outcome V}
  (h : Twins s t σ τ) (i : Nat)

include h

theorem report (ho : o.AlikeOn s t step.walk? step'.walk? o') (events events' : List Event) :
    StepsAlike s t step step' (σ.report i o none events) (τ.report i o' none events') := by
  rw [Session.report, Session.report, h.len]
  exact ⟨.plain ho _ _ _, h⟩

theorem report_nested (ho : o.Alike s t o') {rs rs' : List (Report V)}
    (hrs : Report.AllAlike s t step.nested step'.nested rs rs') (events events' : List Event) :
    StepsAlike s t step step' (σ.report i o (some rs) events) (τ.report i o' (some rs') events') := by
  rw [Session.report, Session.report, h.len]
  exact ⟨.nested ho hrs _ _ _, h⟩

end Twins

end Session

namespace World

/-- Lock sets hold their keys. -/
theorem Owned.holds {w : World V} (hw : w.Owned) {locks : LockSet} (hm : locks ∈ w.locks) :
    w.session.Holds locks := by
  intro j st hj hu k hk
  rw [hw.lockAt_eq hj hm hu hk]
  exact nofun

/-! ## Scripts on twins -/

section
variable [BEq V] {w : World V} {s t : Store V} {τ : Session V} {depth : Nat}

/-- Nested steps run alike on twins. -/
def RunAlike (s t : Store V) (depth : Nat) (steps steps' : List (Step V)) : Prop :=
  ∀ (w : World V) (τ : Session V), w.Reachable → w.Below depth → Twins s t w.session τ →
    Session.RunsAlike s t steps steps' (Session.runSteps depth steps w.session)
      (Session.runSteps depth steps' τ)

theorem act_twins (hw : w.Reachable) (h : Twins s t w.session τ) (i : Nat) (a : Action V) :
    Session.StepsAlike s t (.act i a) (.act i a) (Session.runStep depth (.act i a) w.session)
      (Session.runStep depth (.act i a) τ) := by
  have ha : AnswersAlike s t (w.session.act i a) (τ.act i a) :=
    h.act (fun _ hm => hw.owned.holds hm) i a
  rw [Session.runStep, Session.runStep]
  exact ha.state.report i (.alike ha.reply) _ _

theorem snapshot_twins (hw : w.Reachable) (h : Twins s t w.session τ) (i : Nat)
    (walk walk' : List Key) :
    Session.StepsAlike s t (.act i (.call (.snapshot walk))) (.act i (.call (.snapshot walk')))
      (Session.runStep depth (.act i (.call (.snapshot walk))) w.session)
      (Session.runStep depth (.act i (.call (.snapshot walk'))) τ) := by
  have ha : AnswersAlike s t (w.session.act i (.call (.snapshot walk)))
      (τ.act i (.call (.snapshot walk))) := h.act (fun _ hm => hw.owned.holds hm) i _
  obtain ⟨hr, hs⟩ := τ.act_walk i walk walk'
  have ht : Twins s t (w.session.act i (.call (.snapshot walk))).state
      (τ.act i (.call (.snapshot walk'))).state := hs ▸ ha.state
  rw [Session.runStep, Session.runStep]
  refine ht.report i ?_ _ _
  exact ha.reply.on hr

theorem apply_twins (hw : w.Reachable) (hb : w.Below depth) (h : Twins s t w.session τ) (i : Nat)
    (batch : List (Command V)) (durable : Option Bool) {during during' : List (Step V)}
    (ih : RunAlike s t (depth + 1) during during') :
    Session.StepsAlike s t (.apply i (.ok batch) durable during)
      (.apply i (.ok batch) durable during')
      (Session.runStep depth (.apply i (.ok batch) durable during) w.session)
      (Session.runStep depth (.apply i (.ok batch) durable during') τ) := by
  have hstep := step_acquire_nested hb i batch
  rw [Session.runStep, Session.runStep]
  rcases (h.noteBatch batch).acquire (.nested depth) i batch with
    ⟨hσ, hτ⟩ | ⟨⟨r, events, σ₁⟩, ⟨r', events', τ₁⟩, hσ, hτ, hr, h₁⟩
  · simp only [hσ, hτ]
    exact h.report i (.alike (.same .unsupported)) _ _
  · obtain rfl : r' = r.map _ := hr
    rw [hσ] at hstep
    simp only [hσ, hτ]
    cases r with
    | error f => exact h₁.report i (.alike (.same (.refused f))) _ _
    | ok locks =>
      have hr₁ : (w.step (.acquire (.nested depth) i batch)).reply = .done (.locks locks) := by
        rw [hstep]
        rfl
      have hs₁ : (w.step (.acquire (.nested depth) i batch)).state.session = σ₁ := by
        rw [hstep]
        rfl
      have hw₁ : (w.step (.acquire (.nested depth) i batch)).state.Reachable := hw.step _
      have hb₁ := below_acquire hb i batch
      -- the lock set is still there after the nested steps, and still holds its keys
      obtain ⟨ms, hp⟩ := runSteps_plays (depth + 1) during _ hw₁ hb₁
      have hm : locks ∈ ((w.step (.acquire (.nested depth) i batch)).state.after ms).locks :=
        (hw.acquired_kept rfl hr₁ hp.not_ends).1
      have hl := (hw₁.after ms).owned.holds hm
      have hm' : locks ∈ (((w.step _).state.after ms).session).locks := hm
      rw [hp.session] at hl hm'
      have hrun := ih _ τ₁ hw₁ hb₁ (hs₁ ▸ h₁)
      rw [hs₁] at hl hm' hrun
      have hd := hrun.session.decide i batch hm' hl durable
      refine hd.state.report_nested i hd.reply ?_ _ _
      exact hrun.reports

theorem hold_twins (hw : w.Reachable) (hb : w.Below depth) (h : Twins s t w.session τ) (i : Nat)
    {mode mode' : HoldMode} (hmode : mode.UpToWalk mode') {steps steps' : List (Step V)}
    (ih : RunAlike s t (depth + 1) steps steps') :
    Session.StepsAlike s t (.hold i mode steps) (.hold i mode' steps')
      (Session.runStep depth (.hold i mode steps) w.session)
      (Session.runStep depth (.hold i mode' steps') τ) := by
  have hname : w.Plays depth [.name mode.key?.toList] _ := plays_step hb rfl nofun nofun
  have hw₀ : (w.after [.name mode.key?.toList]).Reachable := hw.after _
  have hb₀ := hname.below
  have h₀ : Twins s t (w.after [.name mode.key?.toList]).session (τ.note mode.key?.toList) :=
    h.note mode.key?.toList
  have hs : (w.after [.name mode.key?.toList]).session = w.session.note mode.key?.toList := rfl
  rw [Session.runStep, Session.runStep, ← hs, Session.note_walk hmode]
  generalize w.after [.name mode.key?.toList] = w₀, τ.note mode.key?.toList = τ₀ at hw₀ hb₀ h₀ ⊢
  rcases h₀.hold?_cases (.nested depth) i mode with
    ⟨hσ, hτ⟩ | ⟨f, hσ, hτ⟩ | ⟨hσ, hτ⟩ | ⟨σ₁, τ₁, hσ, hτ, h₁⟩
  all_goals
    have hτ' := τ₀.hold?_walk hmode (.nested depth) i
    rw [hτ] at hτ'
    rcases hτ' with hτ' | ⟨hne, k, k', he, hτ'⟩
  · simp only [hσ, hτ']
    exact h₀.report i (.alike (.same .unsupported)) _ _
  · cases he
  · simp only [hσ, hτ']
    exact h₀.report i (.alike (.same (.refused f))) _ _
  · -- this is the only case in which the two may differ
    cases he
    simp only [hσ, hτ']
    exact h₀.report i (.keyLocked hne k k') _ _
  · simp only [hσ, hτ']
    exact h₀.report i (.alike (.same (.done .done))) _ _
  · cases he
  · have hw₁ : (w₀.holding depth i mode σ₁).Reachable := step_hold hb₀ hσ ▸ hw₀.step _
    have hrun := ih _ τ₁ hw₁ (below_holding hb₀ hσ) h₁
    simp only [hσ, hτ', Session.letGo_walk hmode]
    refine (hrun.session.letGo (.nested depth) i mode).report_nested i (.same (.done .done)) ?_ _ _
    exact hrun.reports
  · cases he

mutual

/-- A step does the same to twins. -/
theorem runStep_twins (depth : Nat) : ∀ (step step' : Step V) (w : World V) (τ : Session V),
    step.UpToWalks step' → w.Reachable → w.Below depth → Twins s t w.session τ →
    Session.StepsAlike s t step step' (Session.runStep depth step w.session)
      (Session.runStep depth step' τ)
  | .act i action, step', w, τ, hst, hw, _, h => by
    cases hst with
    | act => exact act_twins hw h i action
    | snapshot i walk walk' => exact snapshot_twins hw h i walk walk'
  | .apply i (.error e) durable during, step', w, τ, hst, _, _, h => by
    cases hst
    rw [Session.runStep, Session.runStep]
    exact h.report i (.alike (.same (.undecodable e))) _ _
  | .apply i (.ok batch) durable during, step', w, τ, hst, hw, hb, h => by
    cases hst with
    | apply _ _ _ hd =>
      exact apply_twins hw hb h i batch durable (runSteps_twins (depth + 1) during _ hd)
  | .hold i mode steps, step', w, τ, hst, hw, hb, h => by
    cases hst with
    | hold _ hm hs => exact hold_twins hw hb h i hm (runSteps_twins (depth + 1) steps _ hs)

theorem runSteps_twins (depth : Nat) : ∀ steps steps' : List (Step V),
    List.Forall₂ Step.UpToWalks steps steps' → RunAlike s t depth steps steps'
  | [], steps', hst => by
    cases hst
    exact fun w τ _ _ h => ⟨.nil, h⟩
  | step :: steps, steps', hst => by
    cases hst with
    | @cons _ step' _ steps' hone hmore =>
      intro w τ hw hb h
      obtain ⟨ms, hp⟩ := runStep_plays depth step w hw hb
      have hfirst := runStep_twins depth step step' w τ hone hw hb h
      have hrest := runSteps_twins depth steps steps' hmore (w.after ms) _ (hw.after ms) hp.below
        (hp.session ▸ hfirst.session)
      rw [hp.session] at hrest
      exact ⟨.cons hfirst.report hrest.reports, hrest.session⟩

end

end

end World

/-! ## Copies -/

namespace Store

variable (id : Nat) (timeout : Duration)

variable {s : Store V} {walk : List Key} {rows : List (Key × V)}
  (hr : (s.snapshot walk).reply = .ok rows)

include hr

end Store

namespace World

variable {w : World V} {i : Nat} {st : Store V}

variable [BEq V]

end World

end TwoPhaseStore
