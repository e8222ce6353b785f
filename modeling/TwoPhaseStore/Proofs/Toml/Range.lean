import TwoPhaseStore.Proofs.Json.Members
import TwoPhaseStore.Proofs.Toml.Order
import TwoPhaseStore.Toml.Reader

/-!
Integers of documents.  Whatever a text is read as, an integer at its top has 64 bits and a sign:

    read text = .ok es → e ∈ es → e.2.InRange                                  (inRange_read)

The digits may spell any number; `integerOf` is the one place where it is held against the range,
and every reader up to the line passes on what it is given.
-/

namespace TwoPhaseStore.Toml

open Text

/-- An integer fits 64 bits with a sign. -/
def InRange : Toml → Prop
  | .integer n => -(Nat.pow 2 63 : Int) ≤ n ∧ n < Nat.pow 2 63
  | _ => True

/-! ## Numbers -/

theorem integerOf_inRange {n : Int} {v : Toml} (h : integerOf n = .ok v) : v.InRange := by
  unfold integerOf at h
  split at h
  · next hn =>
    cases h
    exact hn
  · cases h

theorem floatOf_inRange {negative : Bool} {d : Decimal} {v : Toml}
    (h : floatOf negative d = .ok v) : v.InRange := by
  unfold floatOf at h
  split at h
  · cases h
  · cases h
    trivial

theorem based_inRange (base : Nat) (isDigit : Char → Bool) :
    (based base isDigit).Gives InRange := by
  intro cs t h
  obtain ⟨ds, -, h⟩ := bind_eq_ok h
  obtain ⟨v, hv, h⟩ := bind_eq_ok h
  cases h
  exact integerOf_inRange hv

theorem decimal_inRange (negative : Bool) : (decimal negative).Gives InRange := by
  intro cs t h
  obtain ⟨w, -, h⟩ := bind_eq_ok h
  obtain ⟨f, -, h⟩ := bind_eq_ok h
  obtain ⟨e, -, h⟩ := bind_eq_ok h
  dsimp only at h
  split at h
  · obtain ⟨v, hv, h⟩ := bind_eq_ok h
    cases h
    exact integerOf_inRange hv
  · obtain ⟨v, hv, h⟩ := bind_eq_ok h
    cases h
    exact floatOf_inRange hv

theorem signed_inRange (negative : Bool) : (signed negative).Gives InRange := by
  intro cs t h
  unfold signed at h
  split at h
  · cases h
    trivial
  · cases h
    trivial
  · exact decimal_inRange negative _ t h

theorem number_inRange : number.Gives InRange := by
  intro cs t h
  unfold number at h
  split at h
  · obtain ⟨u, hu, rfl⟩ := map_eq_ok h
    exact based_inRange _ _ _ u hu
  · obtain ⟨u, hu, rfl⟩ := map_eq_ok h
    exact based_inRange _ _ _ u hu
  · obtain ⟨u, hu, rfl⟩ := map_eq_ok h
    exact based_inRange _ _ _ u hu
  · obtain ⟨u, hu, rfl⟩ := map_eq_ok h
    exact signed_inRange _ _ u hu
  · obtain ⟨u, hu, rfl⟩ := map_eq_ok h
    exact signed_inRange _ _ u hu
  · exact signed_inRange _ _ t h

/-! ## Values -/

theorem scalar_inRange : scalar.Gives InRange := by
  intro cs t h
  unfold scalar at h
  split at h
  · cases h
  split at h
  · obtain ⟨u, -, rfl⟩ := map_eq_ok h
    trivial
  split at h
  · obtain ⟨u, hu, rfl⟩ := map_eq_ok h
    show u.value.InRange
    rw [Json.word_value hu]
    trivial
  split at h
  · obtain ⟨u, hu, rfl⟩ := map_eq_ok h
    show u.value.InRange
    rw [Json.word_value hu]
    trivial
  · unfold Reader.orElse at h
    split at h
    · next t' ht =>
      cases h
      obtain ⟨u, -, rfl⟩ := map_eq_ok ht
      trivial
    · exact number_inRange _ t h

theorem inlineRest_inRange (inner : Reader Malformed Toml) : (inlineRest inner).Gives InRange := by
  unfold inlineRest afterBlank
  refine Reader.Gives.skipping length_skipBlank_le fun cs t h => ?_
  split at h
  · cases h
  split at h
  · cases h
    trivial
  · obtain ⟨bs, -, h⟩ := bind_eq_ok h
    split at h
    · cases h
      trivial
    · cases h

/-- Arrays and inline tables are no integers, whatever is in them. -/
theorem valueOver_inRange (inner : Option (Reader Malformed Toml)) :
    (valueOver inner).Gives InRange := by
  intro cs t h
  unfold valueOver at h
  split at h
  · cases h
  split at h
  · split at h
    · cases h
    · exact scalar_inRange _ t h
  · split at h
    · obtain ⟨u, -, rfl⟩ := map_eq_ok h
      trivial
    split at h
    · obtain ⟨u, hu, rfl⟩ := map_eq_ok h
      exact inlineRest_inRange _ _ u hu
    · exact scalar_inRange _ t h

theorem value_inRange (depth : Nat) : (value depth).Gives InRange := by
  cases depth with
  | zero => exact valueOver_inRange none
  | succ depth => exact valueOver_inRange (some (value depth))

/-! ## Lines -/

/-- A value that a line binds is in range. -/
def Line.InRange : Line → Prop
  | .bind _ v => v.InRange
  | _ => True

theorem header_inRange : header.Gives Line.InRange := by
  intro cs t h
  unfold header at h
  split at h
  · obtain ⟨k, -, h⟩ := bind_eq_ok h
    obtain ⟨u, -, h⟩ := bind_eq_ok h
    cases h
    trivial
  · obtain ⟨k, -, h⟩ := bind_eq_ok h
    obtain ⟨u, -, h⟩ := bind_eq_ok h
    cases h
    trivial

theorem statement_inRange : statement.Gives Line.InRange := by
  intro cs t h
  unfold statement at h
  split at h
  · obtain ⟨u, hu, rfl⟩ := map_eq_ok h
    exact header_inRange _ u hu
  · obtain ⟨u, hu, rfl⟩ := map_eq_ok h
    obtain ⟨k, -, hu⟩ := bind_eq_ok hu
    obtain ⟨sign, -, hu⟩ := bind_eq_ok hu
    obtain ⟨v, hv, hu⟩ := bind_eq_ok hu
    cases hu
    exact (value_inRange maxDepth).skipping length_skipBlank_le _ v hv

theorem line_inRange : line.Gives fun l => ∀ l' ∈ l, Line.InRange l' := by
  intro cs t h
  unfold line at h
  split at h
  · cases h
  split at h
  · obtain ⟨e, -, rfl⟩ := map_eq_ok h
    nofun
  split at h
  · obtain ⟨u, -, rfl⟩ := map_eq_ok h
    nofun
  · obtain ⟨u, hu, rfl⟩ := map_eq_ok h
    obtain ⟨s, hs, hu⟩ := bind_eq_ok hu
    obtain ⟨e, -, hu⟩ := bind_eq_ok hu
    cases hu
    intro l' hl
    cases hl
    exact statement_inRange _ s hs

theorem lines_inRange (cs : List Char) (ls : List Line) (h : lines cs = .ok ls) :
    ∀ l ∈ ls, l.InRange := by
  fun_induction lines cs generalizing ls with
  | case1 =>
    cases h
    nofun
  | case2 cs _ e he => cases h
  | case3 cs _ t ht ih =>
    obtain ⟨ls', hls, rfl⟩ := map_eq_ok h
    intro l hl
    rcases List.mem_append.1 hl with hl | hl
    · exact line_inRange _ t ht l (Option.mem_toList.1 hl)
    · exact ih ls' hls l hl

/-- A document is its lines. -/
theorem read_eq_ok {text : String} {es : Entries} : read text = .ok es ↔
    ∃ ls, lines (skipByteOrderMark text.toList) = .ok ls ∧ Entries.ofLines ls = some es := by
  unfold read
  rw [bind_eq_ok_iff]
  refine exists_congr fun ls => and_congr_right fun _ => ?_
  cases Entries.ofLines ls with
  | none => exact ⟨nofun, nofun⟩
  | some es' => exact ⟨fun h => congrArg some (Except.ok.inj h), fun h => congrArg _ (Option.some.inj h)⟩

/-- Integers at the top of a document are in range. -/
theorem inRange_read {text : String} {es : Entries} (h : read text = .ok es) {e : String × Toml}
    (he : e ∈ es) : e.2.InRange := by
  obtain ⟨ls, hls, hes⟩ := read_eq_ok.1 h
  obtain ⟨l, hl, hp⟩ := puts_ofLines hes he
  have hr := lines_inRange _ _ hls l hl
  revert hr hp
  generalize e.2 = v
  intro hp hr
  cases hp with
  | value key => exact hr
  | table => trivial
  | tables => trivial

end TwoPhaseStore.Toml
