import TwoPhaseStore.Text.Reader

/-!
Digits.  A number is the value of its digits in every base that has them:

    ofDigits b (Nat.toDigits b n) = n                                        (ofDigits_toDigits)
-/

namespace TwoPhaseStore.Text

theorem digitValue_digitChar : ∀ d < 16, digitValue (Nat.digitChar d) = d := by decide

theorem isDigit_digitChar : ∀ d < 10, isDigit (Nat.digitChar d) = true := by decide

theorem isHexDigit_digitChar : ∀ d < 16, isHexDigit (Nat.digitChar d) = true := by decide

theorem ofDigits_append_digit (b : Nat) (ds : List Char) (d : Char) :
    ofDigits b (ds ++ [d]) = b * ofDigits b ds + digitValue d := by
  rw [ofDigits, List.foldl_append]
  rfl

section
variable {b : Nat} (hb : 1 < b)

include hb

/-- The digits of a number are those of its quotient by the base, and then its remainder. -/
theorem toDigits_cases (n : Nat) :
    n < b ∧ Nat.toDigits b n = [Nat.digitChar n] ∨
      b ≤ n ∧ Nat.toDigits b n = Nat.toDigits b (n / b) ++ [Nat.digitChar (n % b)] := by
  rcases Nat.lt_or_ge n b with h | h
  · exact .inl ⟨h, Nat.toDigits_of_lt_base h⟩
  · exact .inr ⟨h, Nat.toDigits_of_base_le hb h⟩

theorem ofDigits_toDigits (hb' : b ≤ 16) (n : Nat) : ofDigits b (Nat.toDigits b n) = n := by
  induction n using Nat.strongRecOn with
  | ind n ih =>
    rcases toDigits_cases hb n with ⟨hn, hd⟩ | ⟨hn, hd⟩
    · have hv : digitValue (Nat.digitChar n) = n :=
        digitValue_digitChar n (Nat.lt_of_lt_of_le hn hb')
      rw [hd, ofDigits, List.foldl_cons, List.foldl_nil, hv, Nat.mul_zero, Nat.zero_add]
    · have hm : n % b < b := Nat.mod_lt n (Nat.zero_lt_of_lt hb)
      rw [hd, ofDigits_append_digit, ih (n / b) (Nat.div_lt_self (by omega) hb),
        digitValue_digitChar _ (Nat.lt_of_lt_of_le hm hb')]
      exact Nat.div_add_mod n b

theorem mem_toDigits {n : Nat} {c : Char} (hc : c ∈ Nat.toDigits b n) :
    ∃ d < b, c = Nat.digitChar d := by
  induction n using Nat.strongRecOn with
  | ind n ih =>
    rcases toDigits_cases hb n with ⟨hn, hd⟩ | ⟨hn, hd⟩
    · rw [hd, List.mem_singleton] at hc
      exact ⟨n, hn, hc⟩
    · rw [hd, List.mem_append, List.mem_singleton] at hc
      rcases hc with hc | hc
      · exact ih (n / b) (Nat.div_lt_self (by omega) hb) hc
      · exact ⟨n % b, Nat.mod_lt n (Nat.zero_lt_of_lt hb), hc⟩

/-- Only zero begins with a zero. -/
theorem toDigits_head {n : Nat} {c : Char} {r : List Char} (h : Nat.toDigits b n = c :: r) :
    c = '0' ↔ n = 0 := by
  induction n using Nat.strongRecOn generalizing r with
  | ind n ih =>
    rcases toDigits_cases hb n with ⟨hn, hd⟩ | ⟨hn, hd⟩
    · rw [hd] at h
      rw [← (List.cons.inj h).1, Nat.digitChar_eq_zero]
    · cases hq : Nat.toDigits b (n / b) with
      | nil => exact absurd hq Nat.toDigits_ne_nil
      | cons c' r' =>
        rw [hd, hq] at h
        obtain rfl : c' = c := (List.cons.inj h).1
        rw [ih (n / b) (Nat.div_lt_self (by omega) hb) hq, Nat.div_eq_zero_iff]
        omega

end

theorem isDigit_of_mem_toDigits {n : Nat} {c : Char} (h : c ∈ Nat.toDigits 10 n) :
    isDigit c = true := by
  obtain ⟨d, hd, rfl⟩ := mem_toDigits (by decide) h
  exact isDigit_digitChar d hd

theorem isHexDigit_of_mem_toDigits {n : Nat} {c : Char} (h : c ∈ Nat.toDigits 16 n) :
    isHexDigit c = true := by
  obtain ⟨d, hd, rfl⟩ := mem_toDigits (by decide) h
  exact isHexDigit_digitChar d hd

/-- Zeros in front count nothing. -/
theorem ofDigits_zeros (b n : Nat) (ds : List Char) :
    ofDigits b (List.replicate n '0' ++ ds) = ofDigits b ds := by
  induction n with
  | zero => rfl
  | succ n ih =>
    rw [List.replicate_succ, List.cons_append, ofDigits, List.foldl_cons]
    exact ih

/-- Where the digits of a text end. -/
theorem takeWhile_digits {ds rest : List Char} (hd : ∀ c ∈ ds, isDigit c = true)
    (hr : ∀ c r, rest = c :: r → isDigit c = false) :
    (ds ++ rest).takeWhile isDigit = ds ∧ (ds ++ rest).dropWhile isDigit = rest := by
  have ht : rest.takeWhile isDigit = [] ∧ rest.dropWhile isDigit = rest := by
    cases rest with
    | nil => exact ⟨rfl, rfl⟩
    | cons c r => simp [hr c r rfl]
  rw [List.takeWhile_append_of_pos hd, List.dropWhile_append_of_pos hd, ht.1, ht.2,
    List.append_nil]
  exact ⟨rfl, rfl⟩

end TwoPhaseStore.Text
