/-!
Results.  When a composed computation succeeds, so did its parts:

    (x >>= f) = .ok b → ∃ a, x = .ok a ∧ f a = .ok b                                 (bind_eq_ok)
    x.map g = .ok b → ∃ a, x = .ok a ∧ g a = b                                        (map_eq_ok)
-/

namespace TwoPhaseStore

variable {ε δ α β : Type}

theorem bind_eq_ok {x : Except ε α} {f : α → Except ε β} {b : β} (h : (x >>= f) = .ok b) :
    ∃ a, x = .ok a ∧ f a = .ok b := by
  cases x with
  | error e => cases h
  | ok a => exact ⟨a, rfl, h⟩

theorem bind_eq_ok_iff {x : Except ε α} {f : α → Except ε β} {b : β} :
    (x >>= f) = .ok b ↔ ∃ a, x = .ok a ∧ f a = .ok b := by
  refine ⟨bind_eq_ok, fun h => ?_⟩
  obtain ⟨a, rfl, h⟩ := h
  exact h

theorem map_eq_ok {g : α → β} {x : Except ε α} {b : β} (h : x.map g = .ok b) :
    ∃ a, x = .ok a ∧ g a = b := by
  cases x with
  | error e => cases h
  | ok a => exact ⟨a, rfl, Except.ok.inj h⟩

theorem map_eq_error {g : α → β} {x : Except ε α} {e : ε} (h : x.map g = .error e) :
    x = .error e := by
  cases x with
  | error e' => exact congrArg Except.error (Except.error.inj h)
  | ok a => cases h

theorem mapError_ok (g : ε → δ) (a : α) : (Except.ok a).mapError g = .ok a := rfl

theorem mapError_eq_ok {g : ε → δ} {x : Except ε α} {a : α} (h : x.mapError g = .ok a) :
    x = .ok a := by
  cases x with
  | error e => cases h
  | ok a' => exact congrArg Except.ok (Except.ok.inj h)

theorem mapError_eq_error {g : ε → δ} {x : Except ε α} {d : δ} (h : x.mapError g = .error d) :
    ∃ e, x = .error e ∧ g e = d := by
  cases x with
  | error e => exact ⟨e, rfl, Except.error.inj h⟩
  | ok a => cases h

end TwoPhaseStore
