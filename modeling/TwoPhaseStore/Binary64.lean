/-!
Double-precision numbers by their bits.  Equality is that of the numbers and not of the bits: a
not-a-number differs from itself, and the two zeros are equal.

A magnitude is the bits without the sign, as a natural number.  Magnitudes are ordered like the
numbers they stand for, and every operation on them is exact arithmetic followed by one rounding
(`Magnitude.ofRatio`: to the nearest, a tie to the even neighbour).
-/

namespace TwoPhaseStore

structure Binary64 where
  bits : UInt64
deriving DecidableEq, Repr

/-! ## Rounding -/

/-- Which of two equally near integers a number is rounded to. -/
inductive Tie where
  | toEven
  | up
deriving DecidableEq, Repr

/-- The choice between `q` and `q + 1`. -/
def Tie.choose : Tie → Nat → Nat
  | toEven, q => q + q % 2
  | up, q => q + 1

/-! ## Magnitudes -/

/-- The bits of a number without its sign. -/
abbrev Magnitude := Nat

namespace Magnitude

/-- The bits of infinity; larger ones are not numbers. -/
def infinity : Magnitude := 0x7FF0000000000000

/-- A finite magnitude is `significand * 2 ^ exponent`. -/
def significand (m : Magnitude) : Nat :=
  if m / Nat.pow 2 52 = 0 then m else Nat.pow 2 52 + m % Nat.pow 2 52

def exponent (m : Magnitude) : Int :=
  if m / Nat.pow 2 52 = 0 then -1074 else (m / Nat.pow 2 52 : Nat) - 1075

/-- A finite magnitude as a fraction. -/
def toRatio (m : Magnitude) : Nat × Nat :=
  (significand m * Nat.pow 2 (exponent m).toNat, Nat.pow 2 (-exponent m).toNat)

/-- The quotient rounded to the nearest integer. -/
def roundDiv (tie : Tie) (num den : Nat) : Nat :=
  let q := num / den
  let r := num % den
  if 2 * r < den then q else if den < 2 * r then q + 1 else tie.choose q

/-- The largest `e` with `2 ^ e ≤ num / den`. -/
def log2Ratio (num den : Nat) : Int :=
  let e : Int := (Nat.log2 num : Int) - Nat.log2 den
  if num * Nat.pow 2 (-e).toNat < den * Nat.pow 2 e.toNat then e - 1 else e

/-- The magnitude nearest to a fraction; infinity if it is too large. -/
def ofRatio (num den : Nat) : Magnitude :=
  if num = 0 then 0
  else
    let unit : Int := max (log2Ratio num den - 52) (-1074)
    let n := roundDiv .toEven (num * Nat.pow 2 (-unit).toNat) (den * Nat.pow 2 unit.toNat)
    min ((unit + 1074).toNat * Nat.pow 2 52 + n) infinity

def ofNat (n : Nat) : Magnitude := ofRatio n 1

def mul (a b : Magnitude) : Magnitude :=
  ofRatio (a.toRatio.1 * b.toRatio.1) (a.toRatio.2 * b.toRatio.2)

def div (a b : Magnitude) : Magnitude :=
  ofRatio (a.toRatio.1 * b.toRatio.2) (a.toRatio.2 * b.toRatio.1)

end Magnitude

namespace Binary64

def isNegative (x : Binary64) : Bool := Nat.pow 2 63 ≤ x.bits.toNat

def magnitude (x : Binary64) : Magnitude := x.bits.toNat % Nat.pow 2 63

def ofMagnitude (negative : Bool) (m : Magnitude) : Binary64 :=
  ⟨UInt64.ofNat (m + if negative then Nat.pow 2 63 else 0)⟩

def isNaN (x : Binary64) : Bool := Magnitude.infinity < x.magnitude

def isInfinite (x : Binary64) : Bool := x.magnitude = Magnitude.infinity

/-- Equality of the numbers. -/
def beq (x y : Binary64) : Bool :=
  !x.isNaN && !y.isNaN && (x.bits == y.bits || x.magnitude == 0 && y.magnitude == 0)

instance : BEq Binary64 := ⟨beq⟩

end Binary64

end TwoPhaseStore
