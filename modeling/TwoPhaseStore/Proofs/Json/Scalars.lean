import TwoPhaseStore.Json.Printer
import TwoPhaseStore.Json.Reader
import TwoPhaseStore.Proofs.Digits
import TwoPhaseStore.Proofs.Results

/-!
Scalars are read back as they are written, whatever follows them:

    scalar.run (renderString s ++ rest) = .ok (.str s, rest)                     (scalar_string)
    scalar.run (renderInt n ++ rest) = .ok (.int n, rest)                           (scalar_int)

A number has no end of its own, so what follows it must not go on with it (`Delimited`), and it must
fit 64 bits (`Whole`).
-/

namespace TwoPhaseStore

open Text

namespace Text

variable {ε α β : Type}

theorem Reader.eq_of_run {r : Reader ε α} {cs rest : List Char} {a : α}
    (h : r.run cs = .ok (a, rest)) : ∃ hl, r cs = .ok ⟨a, rest, hl⟩ := by
  obtain ⟨⟨_, _, hl⟩, ht, rfl, rfl⟩ := Reader.run_eq_ok.1 h
  exact ⟨hl, ht⟩

/-- Of two readers in a row the second reads what the first left. -/
theorem Reader.run_andThen (a : Reader ε α) (b : α → Reader ε β) (cs : List Char) :
    (a.andThen b).run cs = a.run cs >>= fun x => (b x.1).run x.2 := by
  rw [Reader.run, Reader.run, Reader.andThen]
  cases a cs with
  | error e => rfl
  | ok t =>
    simp only [bind, Except.bind, Reader.run]
    cases b t.value t.rest <;> rfl

theorem Reader.run_andThen_eq_ok {a : Reader ε α} {b : α → Reader ε β} {cs rest : List Char}
    {y : β} : (a.andThen b).run cs = .ok (y, rest) ↔
      ∃ x r, a.run cs = .ok (x, r) ∧ (b x).run r = .ok (y, rest) := by
  rw [run_andThen, bind_eq_ok_iff, Prod.exists]

/-- Pieces are read one by one up to the last. -/
theorem pieces_last {piece : Reader ε (Piece α)} {cs rest : List Char} {p : Piece α}
    (h : piece.run cs = .ok (p, rest)) (hp : p.last = true) :
    Reader.run (pieces piece) cs = .ok (p.items, rest) := by
  obtain ⟨_, ht⟩ := Reader.eq_of_run h
  rw [Reader.run, pieces, ht]
  dsimp only
  rw [if_pos hp]

theorem pieces_cons {piece : Reader ε (Piece α)} {cs r rest : List Char} {p : Piece α}
    {items : List α} (h : piece.run cs = .ok (p, r)) (hp : p.last = false)
    (hr : Reader.run (pieces piece) r = .ok (items, rest)) :
    Reader.run (pieces piece) cs = .ok (p.items ++ items, rest) := by
  obtain ⟨_, ht⟩ := Reader.eq_of_run h
  obtain ⟨_, ht'⟩ := Reader.eq_of_run hr
  rw [Reader.run, pieces, ht]
  dsimp only
  rw [if_neg (ne_true_of_eq_false hp), ht']
  rfl

/-- A word is read where it stands. -/
theorem word_self [ReadError ε] (a : α) (ws rest : List Char) :
    ∃ t, word (ε := ε) a ws (ws ++ rest) = .ok t ∧ t.value = a ∧ t.rest = rest := by
  induction ws with
  | nil => exact ⟨_, rfl, rfl, rfl⟩
  | cons w ws ih =>
    obtain ⟨t, ht, hv, hr⟩ := ih
    refine ⟨⟨t.value, t.rest, Nat.le_succ_of_le t.notLonger⟩, ?_, hv, hr⟩
    show word a (w :: ws) (w :: (ws ++ rest)) = _
    rw [word, if_pos rfl, ht]
    rfl

end Text

namespace Json

/-! ## Strings -/

theorem length_hex4 {n : Nat} (hn : n < Nat.pow 16 4) : (hex4 n).length = 4 := by
  have hl : (Nat.toDigits 16 n).length ≤ 4 :=
    (Nat.length_toDigits_le_iff (by decide) (by decide)).2 hn
  rw [hex4, List.length_append, List.length_replicate]
  omega

theorem isHexDigit_of_mem_hex4 {n : Nat} {c : Char} (h : c ∈ hex4 n) : isHexDigit c = true := by
  rcases List.mem_append.1 h with h | h
  · rw [(List.mem_replicate.1 h).2]
    rfl
  · exact isHexDigit_of_mem_toDigits h

theorem readHex4_hex4 {n : Nat} (hn : n < Nat.pow 16 4) (rest : List Char) :
    readHex4.run (hex4 n ++ rest) = .ok (n, rest) := by
  have hv : ofDigits 16 (hex4 n) = n :=
    (ofDigits_zeros 16 _ _).trans (ofDigits_toDigits (by decide) (by decide) n)
  have hx : ∀ c ∈ hex4 n, isHexDigit c = true := fun c => isHexDigit_of_mem_hex4
  have hl := length_hex4 hn
  generalize hex4 n = ds at hv hx hl
  match ds, hl with
  | [a, b, c, d], _ =>
    have hd : (isHexDigit a && isHexDigit b && isHexDigit c && isHexDigit d) = true := by
      simp [hx]
    show Reader.run readHex4 (a :: b :: c :: d :: rest) = _
    rw [Reader.run, readHex4, if_pos hd]
    dsimp only
    rw [hv]

/-- A code point below the surrogates is one escape. -/
theorem codePointEscape_hex4 {n : Nat} (hn : n < 0xD800) (rest : List Char) :
    codePointEscape.run (hex4 n ++ rest) = .ok (Char.ofNat n, rest) := by
  obtain ⟨_, ht⟩ :=
    Reader.eq_of_run (readHex4_hex4 (Nat.lt_trans hn (by decide)) rest)
  have hlo : (0xDC00 ≤ n && n ≤ 0xDFFF) = false := by
    simp only [Bool.and_eq_false_imp, decide_eq_true_eq, decide_eq_false_iff_not]
    omega
  have hhi : (n < 0xD800 || 0xDBFF < n) = true := by simp [hn]
  rw [Reader.run, codePointEscape]
  simp only [ht, hlo, hhi, bind, Except.bind, pure, Except.pure, Bool.false_eq_true, if_false,
    if_true, Taken.map]

/-- A character is written as a short escape, as a code point, or as itself. -/
theorem escapeChar_cases (c : Char) :
    (∃ d, escapeChar c = ['\\', d] ∧ ∀ rest, escape.run (d :: rest) = .ok (c, rest)) ∨
      c < ' ' ∧ escapeChar c = ['\\', 'u'] ++ hex4 c.toNat ∨
      c ≠ '"' ∧ c ≠ '\\' ∧ ¬ c < ' ' ∧ escapeChar c = [c] := by
  unfold escapeChar
  repeat' split
  all_goals first
    | exact .inr (.inl ⟨‹_›, rfl⟩)
    | exact .inr (.inr ⟨‹_›, ‹_›, ‹_›, rfl⟩)
    | subst c; exact .inl ⟨_, rfl, fun _ => rfl⟩

/-- Each character is read back from what it is written as. -/
theorem stringPiece_escapeChar (c : Char) (rest : List Char) :
    stringPiece.run (escapeChar c ++ rest) = .ok (⟨[c], false⟩, rest) := by
  have hescape : ∀ cs, escape.run cs = .ok (c, rest) →
      stringPiece.run ('\\' :: cs) = .ok (⟨[c], false⟩, rest) := by
    intro cs h
    obtain ⟨_, ht⟩ := Reader.eq_of_run h
    rw [Reader.run, stringPiece, if_neg (by decide), if_pos rfl, ht]
    rfl
  rcases escapeChar_cases c with ⟨d, he, hd⟩ | ⟨hc, he⟩ | ⟨hq, hb, hc, he⟩
  · rw [he]
    exact hescape _ (hd rest)
  · rw [he]
    have hn : c.toNat < 32 := hc
    obtain ⟨_, ht⟩ := Reader.eq_of_run
      (codePointEscape_hex4 (Nat.lt_trans hn (by decide)) rest)
    refine hescape ('u' :: (hex4 c.toNat ++ rest)) ?_
    have hu : escape ('u' :: (hex4 c.toNat ++ rest)) =
        (codePointEscape (hex4 c.toNat ++ rest)).map (·.after 'u') := rfl
    rw [Reader.run, hu, ht]
    rw [Char.ofNat_toNat]
    rfl
  · rw [he]
    show Reader.run stringPiece (c :: rest) = _
    rw [Reader.run, stringPiece, if_neg hq, if_neg hb, if_neg hc]
    rfl

/-- A string is read back up to its closing quote. -/
theorem stringRest_render (cs rest : List Char) :
    stringRest.run (cs.flatMap escapeChar ++ '"' :: rest) = .ok (cs, rest) := by
  induction cs with
  | nil => exact pieces_last (p := ⟨[], true⟩) rfl rfl
  | cons c cs ih =>
    rw [List.flatMap_cons, List.append_assoc]
    exact pieces_cons (stringPiece_escapeChar c _) rfl ih

theorem scalar_string (s : String) (rest : List Char) :
    scalar.run (renderString s ++ rest) = .ok (.str s, rest) := by
  obtain ⟨_, ht⟩ := Reader.eq_of_run (stringRest_render s.toList rest)
  have hcons : renderString s ++ rest = '"' :: (s.toList.flatMap escapeChar ++ '"' :: rest) := by
    simp [renderString]
  rw [hcons, Reader.run, scalar, if_pos rfl, ht]
  simp only [Except.map, Taken.map, Taken.after, Taken.within, String.ofList_toList]

/-! ## Numbers -/

/-- What follows does not go on with a number. -/
def Delimited (rest : List Char) : Prop :=
  ∀ c r, rest = c :: r → isDigit c = false ∧ c ≠ '.' ∧ c ≠ 'e' ∧ c ≠ 'E'

/-- A whole number that fits 64 bits, signed or unsigned. -/
def Whole (n : Int) : Prop := -(Nat.pow 2 63 : Int) ≤ n ∧ n < Nat.pow 2 64

theorem delimited_nil : Delimited [] := fun _ _ h => by cases h

theorem fractionPart_delimited {rest : List Char} (h : Delimited rest) :
    fractionPart rest = .ok (.none [] rest) := by
  cases rest with
  | nil => rfl
  | cons c r =>
    obtain ⟨-, hp, -⟩ := h c r rfl
    exact fractionPart.eq_2 _ fun r' he => hp (List.cons.inj he).1

theorem exponentPart_delimited {rest : List Char} (h : Delimited rest) :
    exponentPart rest = .ok (.none (false, []) rest) := by
  cases rest with
  | nil => rfl
  | cons c r =>
    obtain ⟨-, -, he, hE⟩ := h c r rfl
    rw [exponentPart, if_neg (by simp [he, hE])]

/-- The digits of a number are read as its whole part. -/
theorem wholePart_digits (n : Nat) {rest : List Char} (h : Delimited rest) :
    wholePart.run (Nat.toDigits 10 n ++ rest) = .ok (Nat.toDigits 10 n, rest) := by
  have hd : ∀ c ∈ Nat.toDigits 10 n, isDigit c = true := fun c => isDigit_of_mem_toDigits
  have hr : ∀ c r, rest = c :: r → isDigit c = false := fun c r he => (h c r he).1
  cases hn : Nat.toDigits 10 n with
  | nil => exact absurd hn Nat.toDigits_ne_nil
  | cons c ds =>
    rw [hn] at hd
    have hds : ∀ c ∈ ds, isDigit c = true := fun c hc => hd c (List.mem_cons_of_mem _ hc)
    obtain ⟨htake, hdrop⟩ := takeWhile_digits hds hr
    by_cases h0 : c = '0'
    · -- zero is a single digit
      obtain rfl : n = 0 := (toDigits_head (by decide) hn).1 h0
      obtain ⟨rfl, rfl⟩ := List.cons.inj (hn.symm.trans (Nat.toDigits_zero 10))
      show Reader.run wholePart ('0' :: rest) = _
      have hnot : ¬ (rest.head?.map isDigit).getD false = true := by
        cases rest with
        | nil => exact Bool.false_ne_true
        | cons c r => simp [hr c r rfl]
      rw [Reader.run, wholePart, if_pos rfl, if_neg hnot]
      rfl
    · show Reader.run wholePart (c :: (ds ++ rest)) = _
      rw [Reader.run, wholePart, if_neg h0, if_pos (hd c List.mem_cons_self)]
      simp only [htake, hdrop]

/-- The numeral of a whole number. -/
def Numeral.ofNat (negative : Bool) (n : Nat) : Numeral :=
  ⟨negative, Nat.toDigits 10 n, [], false, []⟩

theorem unsignedNumeral_digits (negative : Bool) (n : Nat) {rest : List Char}
    (h : Delimited rest) :
    (unsignedNumeral negative).run (Nat.toDigits 10 n ++ rest) = .ok (.ofNat negative n, rest) := by
  obtain ⟨_, ht⟩ := Reader.eq_of_run (wholePart_digits n h)
  rw [Reader.run, unsignedNumeral]
  simp only [ht, bind, Except.bind, pure, Except.pure, fractionPart_delimited h, Scanned.none,
    exponentPart_delimited h]
  rfl

theorem numeral_renderInt (n : Int) {rest : List Char} (h : Delimited rest) :
    numeral.run (renderInt n ++ rest) = .ok (.ofNat (decide (n < 0)) n.natAbs, rest) := by
  unfold renderInt
  by_cases hn : n < 0
  · obtain ⟨_, ht⟩ := Reader.eq_of_run (unsignedNumeral_digits true n.natAbs h)
    rw [if_pos hn, decide_eq_true hn]
    show Reader.run numeral ('-' :: (Nat.toDigits 10 n.natAbs ++ rest)) = _
    rw [Reader.run, numeral, ht]
    rfl
  · obtain ⟨_, ht⟩ := Reader.eq_of_run (unsignedNumeral_digits false n.natAbs h)
    have hm : ∀ r, Nat.toDigits 10 n.natAbs ++ rest = '-' :: r → False := by
      intro r he
      cases hds : Nat.toDigits 10 n.natAbs with
      | nil => exact Nat.toDigits_ne_nil hds
      | cons c ds =>
        have hc : isDigit c = true := isDigit_of_mem_toDigits (hds ▸ List.mem_cons_self)
        rw [hds] at he
        rw [(List.cons.inj he).1] at hc
        cases hc
    rw [if_neg hn, decide_eq_false hn, Reader.run, numeral.eq_2 _ hm, ht]

/-- A whole number has its value back. -/
theorem int?_ofNat {n : Int} (hn : Whole n) :
    (Numeral.ofNat (decide (n < 0)) n.natAbs).int? = some n := by
  have hv : ofDigits 10 (Nat.toDigits 10 n.natAbs) = n.natAbs :=
    ofDigits_toDigits (by decide) (by decide) _
  obtain ⟨hl, hu⟩ := hn
  simp only [Numeral.int?, Numeral.ofNat, hv]
  by_cases h : n < 0
  · have h0 : ¬ (n.natAbs = 0 || Nat.pow 2 63 < n.natAbs) = true := by
      simp only [Bool.or_eq_true, decide_eq_true_eq]
      omega
    have he : -(n.natAbs : Int) = n := by omega
    simp only [h, h0, he, decide_true, decide_false, ne_eq, not_true, Bool.or_self,
      Bool.false_eq_true, if_false, if_true]
  · have hu' : n.natAbs < Nat.pow 2 64 := by omega
    have he : (n.natAbs : Int) = n := by omega
    simp only [h, hu', he, decide_false, ne_eq, not_true, Bool.or_self, Bool.false_eq_true,
      if_false, if_true]

theorem number_renderInt {n : Int} (hn : Whole n) {rest : List Char} (h : Delimited rest) :
    number.run (renderInt n ++ rest) = .ok (.int n, rest) := by
  obtain ⟨_, ht⟩ := Reader.eq_of_run (numeral_renderInt n h)
  have hv : (Numeral.ofNat (decide (n < 0)) n.natAbs).value = .ok (.int n) := by
    rw [Numeral.value, int?_ofNat hn]
  rw [Reader.run, number]
  simp only [ht, bind, Except.bind, hv]
  rfl

/-- A whole number begins with a digit or a minus. -/
theorem renderInt_cons (n : Int) :
    ∃ c r, renderInt n = c :: r ∧ (c = '-' || isDigit c) = true := by
  unfold renderInt
  by_cases hn : n < 0
  · rw [if_pos hn]
    exact ⟨_, _, rfl, rfl⟩
  · rw [if_neg hn]
    cases hds : Nat.toDigits 10 n.natAbs with
    | nil => exact absurd hds Nat.toDigits_ne_nil
    | cons c ds =>
      refine ⟨c, ds, rfl, ?_⟩
      rw [isDigit_of_mem_toDigits (hds ▸ List.mem_cons_self), Bool.or_true]

theorem scalar_int {n : Int} (hn : Whole n) {rest : List Char} (h : Delimited rest) :
    scalar.run (renderInt n ++ rest) = .ok (.int n, rest) := by
  obtain ⟨c, r, hc, hd⟩ := renderInt_cons n
  have hne : ∀ d, (d = '-' || isDigit d) = false → c ≠ d := fun d hd' he => by
    rw [he, hd'] at hd
    cases hd
  have hnum := number_renderInt hn h
  rw [hc] at hnum ⊢
  show Reader.run scalar (c :: (r ++ rest)) = _
  rw [Reader.run, scalar, if_neg (hne '"' rfl), if_neg (hne 'n' rfl), if_neg (hne 't' rfl),
    if_neg (hne 'f' rfl), if_pos hd]
  exact hnum

end Json

end TwoPhaseStore
