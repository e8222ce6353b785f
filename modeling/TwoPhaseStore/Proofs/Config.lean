import Mathlib
import TwoPhaseStore.Config
import TwoPhaseStore.Proofs.Toml.Range

/-!
What comes of a document of settings.  An entry fits (`Fits`) or there is one reason why it does not
(`Unfit`), and the entries are judged in the order of the document, so that

    ofToml text = .ok c ↔ the text is a document without entries and `c` is the default, or it is
      one whose only entry is a timeout that fits, and `c` has that timeout
    ofToml text = .error (.unfit why) ↔ `why` is wrong with the first entry that does not fit

Which entry is first is not always what the eye sees.  A table that a longer header implies has its
place only when its own header comes (`place`), and entries in between overtake it.
-/

namespace TwoPhaseStore.Config

open Toml

/-! ## One entry -/

/-- An entry that gives a timeout. -/
def Fits (e : String × Toml) : Prop := ∃ n : Int, 0 ≤ n ∧ e = (timeoutName, .integer n)

/-- What is wrong with an entry. -/
inductive Unfit : String × Toml → Mismatch → Prop where
  | unknown {name : String} (v : Toml) (h : name ≠ timeoutName) :
    Unfit (name, v) (.unknownField name timeoutName)
  | negative {n : Int} (h : n < 0) : Unfit (timeoutName, .integer n) (.outOfRange n .unsigned)
  | wrongType {v : Toml} (h : ∀ n, v ≠ .integer n) :
    Unfit (timeoutName, v) (.wrongType v.found .unsigned)

theorem add_timeout (c : Config) (v : Toml) :
    add c (timeoutName, v) = (timeoutOf v).map fun d => { c with lockTimeout := d } := if_pos rfl

/-- An entry that fits sets the timeout, whatever it was before. -/
theorem add_fits (c : Config) {n : Int} (hn : 0 ≤ n) :
    add c (timeoutName, .integer n) = .ok ⟨.ofMillis n.toNat⟩ := by
  rw [add_timeout, timeoutOf, if_pos hn]
  rfl

/-- Any other entry stops the reading. -/
theorem add_unfit (c : Config) {e : String × Toml} {why : Mismatch} (h : Unfit e why) :
    add c e = .error why := by
  cases h with
  | unknown v h => exact if_neg h
  | negative h =>
    rw [add_timeout, timeoutOf, if_neg (Int.not_le.2 h)]
    rfl
  | @wrongType v h =>
    rw [add_timeout]
    cases v with
    | integer n => exact absurd rfl (h n)
    | _ => rfl

theorem fits_or_unfit (e : String × Toml) : Fits e ∨ ∃ why, Unfit e why := by
  obtain ⟨name, v⟩ := e
  by_cases hname : name = timeoutName
  · subst hname
    cases v with
    | integer n =>
      by_cases hn : 0 ≤ n
      · exact .inl ⟨n, hn, rfl⟩
      · exact .inr ⟨_, .negative (Int.not_le.1 hn)⟩
    | _ => exact .inr ⟨_, .wrongType nofun⟩
  · exact .inr ⟨_, .unknown v hname⟩

theorem add_eq_ok {c c' : Config} {e : String × Toml} : add c e = .ok c' ↔
    ∃ n : Int, 0 ≤ n ∧ e = (timeoutName, .integer n) ∧ c' = ⟨.ofMillis n.toNat⟩ := by
  constructor
  · intro h
    rcases fits_or_unfit e with ⟨n, hn, rfl⟩ | ⟨why, hu⟩
    · exact ⟨n, hn, rfl, Except.ok.inj (h.symm.trans (add_fits c hn))⟩
    · cases h.symm.trans (add_unfit c hu)
  · rintro ⟨n, hn, rfl, rfl⟩
    exact add_fits c hn

/-! ## All entries -/

theorem foldlM_add_fits {es : Entries} (h : ∀ e ∈ es, Fits e) (c : Config) :
    ∃ c', es.foldlM add c = .ok c' := by
  induction es generalizing c with
  | nil => exact ⟨c, rfl⟩
  | cons e es ih =>
    obtain ⟨⟨n, hn, rfl⟩, hes⟩ := List.forall_mem_cons.1 h
    rw [List.foldlM_cons, add_fits c hn]
    exact ih hes _

/-- The reading stops at the first entry that does not fit. -/
theorem foldlM_add_eq_error {es : Entries} {c : Config} {why : Mismatch} :
    es.foldlM add c = .error why ↔
      ∃ before e after, es = before ++ e :: after ∧ (∀ e' ∈ before, Fits e') ∧ Unfit e why := by
  constructor
  · intro h
    induction es generalizing c with
    | nil => cases h
    | cons e es ih =>
      rw [List.foldlM_cons] at h
      rcases fits_or_unfit e with hfits | ⟨why', hu⟩
      · obtain ⟨n, hn, rfl⟩ := hfits
        rw [add_fits c hn] at h
        obtain ⟨before, e, after, rfl, hfit, hu⟩ := ih h
        exact ⟨_ :: before, e, after, rfl, List.forall_mem_cons.2 ⟨⟨n, hn, rfl⟩, hfit⟩, hu⟩
      · rw [add_unfit c hu] at h
        cases h
        exact ⟨[], e, es, rfl, nofun, hu⟩
  · rintro ⟨before, e, after, rfl, hfit, hu⟩
    obtain ⟨c', hc⟩ := foldlM_add_fits hfit c
    rw [List.foldlM_append, hc]
    show (add c' e >>= _) = _
    rw [add_unfit c' hu]
    rfl

/-- Settings come of entries that all fit. -/
theorem fits_of_foldlM_add {es : Entries} {c c' : Config} (h : es.foldlM add c = .ok c') :
    ∀ e ∈ es, Fits e := by
  induction es generalizing c with
  | nil => nofun
  | cons e es ih =>
    rw [List.foldlM_cons] at h
    obtain ⟨c₁, h₁, h⟩ := bind_eq_ok h
    obtain ⟨n, hn, he, -⟩ := add_eq_ok.1 h₁
    exact List.forall_mem_cons.2 ⟨⟨n, hn, he⟩, ih h⟩

/-- Where no name comes twice, there is at most one entry that fits. -/
theorem ofEntries_eq_ok {es : Entries} (hes : (es.map (·.1)).Nodup) {c : Config} :
    ofEntries es = .ok c ↔ es = [] ∧ c = default ∨
      ∃ n : Int, 0 ≤ n ∧ es = [(timeoutName, .integer n)] ∧ c = ⟨.ofMillis n.toNat⟩ := by
  constructor
  · intro h
    have hfits := fits_of_foldlM_add h
    match es with
    | [] => exact .inl ⟨rfl, (Except.ok.inj h).symm⟩
    | [e] =>
      obtain ⟨c₁, h₁, h⟩ := bind_eq_ok h
      cases h
      obtain ⟨n, hn, rfl, rfl⟩ := add_eq_ok.1 h₁
      exact .inr ⟨n, hn, rfl, rfl⟩
    | e :: e' :: es =>
      obtain ⟨n, -, rfl⟩ := hfits e List.mem_cons_self
      obtain ⟨n', -, rfl⟩ := hfits e' (List.mem_cons_of_mem _ List.mem_cons_self)
      exact absurd List.mem_cons_self (List.nodup_cons.1 hes).1
  · rintro (⟨rfl, rfl⟩ | ⟨n, hn, rfl, rfl⟩)
    · rfl
    · show add default _ >>= pure = _
      rw [add_fits default hn]
      rfl

/-! ## Documents -/

section
variable {text : String} {ls : List Line} {es : Entries}
  (hls : lines (skipByteOrderMark text.toList) = .ok ls) (hes : Toml.read text = .ok es)

include hls hes

theorem ofLines_of_read : Entries.ofLines ls = some es := by
  obtain ⟨ls', hls', hes'⟩ := read_eq_ok.1 hes
  cases hls.symm.trans hls'
  exact hes'

/-- The first entry that does not fit is the one whose place comes first. -/
theorem ofEntries_eq_error {why : Mismatch} : ofEntries es = .error why ↔
    ∃ e ∈ es, Unfit e why ∧ ∀ e' ∈ es, ¬ Fits e' → place ls e.1 ≤ place ls e'.1 := by
  have hord := ordered_ofLines (ofLines_of_read hls hes)
  refine foldlM_add_eq_error.trans ⟨?_, ?_⟩
  · rintro ⟨before, e, after, rfl, hfit, hu⟩
    refine ⟨e, List.mem_append_right _ List.mem_cons_self, hu, fun e' he' hnot => ?_⟩
    have hafter := (List.pairwise_cons.1 (List.pairwise_append.1 hord).2.1).1
    rcases List.mem_append.1 he' with he' | he'
    · exact absurd (hfit e' he') hnot
    rcases List.mem_cons.1 he' with rfl | he'
    · exact Nat.le_refl _
    · exact Nat.le_of_lt (hafter e' he')
  · rintro ⟨e, he, hu, hfirst⟩
    obtain ⟨before, after, rfl⟩ := List.append_of_mem he
    refine ⟨before, e, after, rfl, fun e' he' => ?_, hu⟩
    have hlt : place ls e'.1 < place ls e.1 :=
      (List.pairwise_append.1 hord).2.2 e' he' e List.mem_cons_self
    by_contra hnot
    exact Nat.not_le.2 hlt (hfirst e' (List.mem_append_left _ he') hnot)

end

theorem ofToml_of_read {text : String} {es : Entries} (h : Toml.read text = .ok es) :
    ofToml text = (ofEntries es).mapError .unfit := by
  unfold ofToml
  rw [h]

theorem ofToml_of_malformed {text : String} (h : Toml.read text = .error .malformed) :
    ofToml text = .error .malformed := by
  unfold ofToml
  rw [h]

theorem nodup_read {text : String} {es : Entries} (h : Toml.read text = .ok es) :
    (es.map (·.1)).Nodup := by
  obtain ⟨ls, -, hes⟩ := read_eq_ok.1 h
  exact nodup_ofLines hes

theorem ofToml_eq_ok {text : String} {c : Config} : ofToml text = .ok c ↔
    ∃ es, Toml.read text = .ok es ∧ ofEntries es = .ok c := by
  cases hread : Toml.read text with
  | error e =>
    cases e
    rw [ofToml_of_malformed hread]
    exact ⟨nofun, nofun⟩
  | ok es =>
    rw [ofToml_of_read hread]
    constructor
    · intro h
      exact ⟨es, rfl, mapError_eq_ok h⟩
    · rintro ⟨es', hes, h⟩
      cases hes
      rw [h]
      rfl

theorem ofToml_eq_malformed {text : String} :
    ofToml text = .error .malformed ↔ Toml.read text = .error .malformed := by
  refine ⟨fun h => ?_, ofToml_of_malformed⟩
  cases hread : Toml.read text with
  | error e =>
    cases e
    rfl
  | ok es =>
    rw [ofToml_of_read hread] at h
    obtain ⟨why, -, hw⟩ := mapError_eq_error h
    cases hw

theorem ofToml_eq_unfit {text : String} {why : Mismatch} : ofToml text = .error (.unfit why) ↔
    ∃ es, Toml.read text = .ok es ∧ ofEntries es = .error why := by
  cases hread : Toml.read text with
  | error e =>
    cases e
    rw [ofToml_of_malformed hread]
    exact ⟨nofun, nofun⟩
  | ok es =>
    rw [ofToml_of_read hread]
    constructor
    · intro h
      obtain ⟨why', he, hw⟩ := mapError_eq_error h
      cases hw
      exact ⟨es, rfl, he⟩
    · rintro ⟨es', hes, h⟩
      cases hes
      rw [h]
      rfl

/-- What comes of a text. -/
structure Judged (text : String) : Prop where
  /-- Settings come of an empty document, or of a timeout and nothing else. -/
  ok : ∀ c, ofToml text = .ok c ↔
    Toml.read text = .ok [] ∧ c = ⟨.ofMillis 100⟩ ∨
      ∃ n : Int, 0 ≤ n ∧ n < Nat.pow 2 63 ∧
        Toml.read text = .ok [(timeoutName, .integer n)] ∧ c = ⟨.ofMillis n.toNat⟩
  malformed : ofToml text = .error .malformed ↔ Toml.read text = .error .malformed
  /-- The reason given is what is wrong with the first entry that does not fit. -/
  unfit : ∀ why, ofToml text = .error (.unfit why) ↔
    ∃ ls es, lines (skipByteOrderMark text.toList) = .ok ls ∧ Toml.read text = .ok es ∧
      ∃ e ∈ es, Unfit e why ∧ ∀ e' ∈ es, ¬ Fits e' → place ls e.1 ≤ place ls e'.1
  /-- The entries are those that lines add to, each once and in its place. -/
  entries : ∀ es, Toml.read text = .ok es →
    ∃ ls, lines (skipByteOrderMark text.toList) = .ok ls ∧
      (∀ name, name ∈ es.map (·.1) ↔ name ∈ tops [] ls) ∧
      es.Pairwise fun a b => place ls a.1 < place ls b.1

theorem ofToml_judged (text : String) : Judged text where
  ok c := by
    rw [ofToml_eq_ok]
    constructor
    · rintro ⟨es, hread, hc⟩
      rcases (ofEntries_eq_ok (nodup_read hread)).1 hc with ⟨rfl, rfl⟩ | ⟨n, hn, rfl, rfl⟩
      · exact .inl ⟨hread, rfl⟩
      · have hr : n < Nat.pow 2 63 := (inRange_read hread List.mem_cons_self).2
        exact .inr ⟨n, hn, hr, hread, rfl⟩
    · rintro (⟨hread, rfl⟩ | ⟨n, hn, -, hread, rfl⟩)
      · exact ⟨[], hread, rfl⟩
      · exact ⟨_, hread, (ofEntries_eq_ok (nodup_read hread)).2 (.inr ⟨n, hn, rfl, rfl⟩)⟩
  malformed := ofToml_eq_malformed
  unfit why := by
    rw [ofToml_eq_unfit]
    constructor
    · rintro ⟨es, hread, he⟩
      obtain ⟨ls, hls, -⟩ := read_eq_ok.1 hread
      exact ⟨ls, es, hls, hread, (ofEntries_eq_error hls hread).1 he⟩
    · rintro ⟨ls, es, hls, hread, he⟩
      exact ⟨es, hread, (ofEntries_eq_error hls hread).2 he⟩
  entries es hread := by
    obtain ⟨ls, hls, hes⟩ := read_eq_ok.1 hread
    exact ⟨ls, hls, mem_ofLines hes, ordered_ofLines hes⟩

/-- The line that first adds to an entry does not give it its place.  Here `a` is added to before
the timeout is, but has its header behind it, and it is the timeout that is found wrong. -/
theorem place_overtaken : ¬ ∀ text why, ofToml text = .error (.unfit why) →
    ∃ ls es, lines (skipByteOrderMark text.toList) = .ok ls ∧ Toml.read text = .ok es ∧
      ∃ e ∈ es, Unfit e why ∧
        ∀ e' ∈ es, ¬ Fits e' → (tops [] ls).idxOf e.1 ≤ (tops [] ls).idxOf e'.1 := by
  intro h
  let text := "[a.b]\n[lock_timeout_ms.z]\n[a]\n"
  have hls : lines (skipByteOrderMark text.toList) =
      .ok [.table ⟨["a"], "b"⟩, .table ⟨["lock_timeout_ms"], "z"⟩, .table ⟨[], "a"⟩] := by cbv
  have hread : Toml.read text = .ok
      [("lock_timeout_ms", .table .implied [("z", .table .written [])]),
        ("a", .table .written [("b", .table .written [])])] :=
    read_eq_ok.2 ⟨_, hls, rfl⟩
  have hof : ofToml text = .error (.unfit (.wrongType .map .unsigned)) := by
    rw [ofToml_of_read hread]
    rfl
  obtain ⟨ls, es, hls', hread', e, he, hu, hfirst⟩ := h text _ hof
  cases hls.symm.trans hls'
  cases hread.symm.trans hread'
  have hname : e.1 = timeoutName := by
    generalize hw : Mismatch.wrongType .map .unsigned = why at hu
    cases hu with
    | unknown => cases hw
    | _ => rfl
  have ha : "a" ≠ timeoutName := by decide
  have hle := hfirst ("a", .table .written [("b", .table .written [])])
    (List.mem_cons_of_mem _ List.mem_cons_self) fun h => by
      obtain ⟨n, -, hn⟩ := h
      exact ha (congrArg Prod.fst hn)
  rw [hname] at hle
  revert hle
  decide

end TwoPhaseStore.Config
