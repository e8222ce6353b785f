import TwoPhaseStore.Binary64

/-!
The decimal text of a double: the fewest digits that read back as the same number, and of those the
nearest.  Where two are equally near, the style of the text says which one is written.

All reals between the midpoints to the two neighbours of a magnitude round to it, the midpoints
themselves iff its significand is even.  For one digit, two digits, and so on, the two points of
that decimal grid beside the exact value are tried; the first grid that has a point in the interval
gives the digits.
-/

namespace TwoPhaseStore

/-- The number `digits * 10 ^ exponent`. -/
structure Decimal where
  digits : Nat
  exponent : Int
deriving DecidableEq, Repr

namespace Decimal

/-- The reals that round to a positive finite magnitude, and its exact value, over a common
denominator. -/
structure Interval where
  low : Nat
  value : Nat
  high : Nat
  denominator : Nat
  closed : Bool

def Interval.of (m : Magnitude) : Interval :=
  let s := m.significand
  let q := m.exponent - 2
  let scale := Nat.pow 2 q.toNat
  -- below a power of two the neighbour is half as far away
  let below := if m % Nat.pow 2 52 = 0 ∧ Nat.pow 2 52 < m then 1 else 2
  ⟨(4 * s - below) * scale, 4 * s * scale, (4 * s + 2) * scale, Nat.pow 2 (-q).toNat, s % 2 = 0⟩

/-- Whether `n * 10 ^ u` lies in the interval. -/
def Interval.has (i : Interval) (n : Nat) (u : Int) : Bool :=
  let x := n * Nat.pow 10 u.toNat * i.denominator
  let scale := Nat.pow 10 (-u).toNat
  if i.closed then i.low * scale ≤ x && x ≤ i.high * scale
  else i.low * scale < x && x < i.high * scale

/-- How many digits the whole part of a fraction has; for a fraction below one, minus the number of
zeros after the point.  `bits` is the binary logarithm, from which the search starts. -/
def wholeDigits (num den : Nat) (bits : Int) : Int :=
  let reaches (p : Int) : Bool := den * Nat.pow 10 p.toNat ≤ num * Nat.pow 10 (-p).toNat
  let p := bits * 30103 / 100000
  if reaches (p + 1) then p + 2 else if reaches p then p + 1 else p

/-- The point of the grid of `u` nearest to the value, if one lies in the interval. -/
def Interval.nearest? (tie : Tie) (i : Interval) (u : Int) : Option Decimal :=
  let num := i.value * Nat.pow 10 (-u).toNat
  let den := i.denominator * Nat.pow 10 u.toNat
  let n := num / den
  match i.has n u, i.has (n + 1) u with
  | true, true => some ⟨Magnitude.roundDiv tie num den, u⟩
  | true, false => some ⟨n, u⟩
  | false, true => some ⟨n + 1, u⟩
  | false, false => none

/-- Drops trailing zeros; `places` bounds how many there can be. -/
def trim (d : Decimal) : Nat → Decimal
  | 0 => d
  | places + 1 => if d.digits % 10 = 0 then trim ⟨d.digits / 10, d.exponent + 1⟩ places else d

/-- The shortest decimal that reads back as a positive finite magnitude.  Seventeen digits are
always enough. -/
def shortest (tie : Tie) (m : Magnitude) : Decimal :=
  let i := Interval.of m
  let whole := wholeDigits i.value i.denominator (Magnitude.log2Ratio i.value i.denominator)
  let found := (List.range 17).findSome? fun n => i.nearest? tie (whole - (n + 1 : Nat))
  trim (found.getD ⟨i.value * Nat.pow 10 (17 - whole).toNat / i.denominator, whole - 17⟩) 20

/-- The magnitude nearest to a decimal.  Far from the range of the doubles only the place of the
first digit counts. -/
def toMagnitude (d : Decimal) : Magnitude :=
  let place := (Nat.toDigits 10 d.digits).length + d.exponent
  if d.digits = 0 || place < -330 then 0
  else if 330 < place then Magnitude.infinity
  else Magnitude.ofRatio (d.digits * Nat.pow 10 d.exponent.toNat) (Nat.pow 10 (-d.exponent).toNat)

/-! ## Text -/

/-- Which decimal exponents are written out in full, the others being written behind an `e`, and
which of two equally near decimals of the same length is written. -/
structure Style where
  inFull : Int → Bool
  tie : Tie

def zeros (n : Nat) : String := String.ofList (List.replicate n '0')

/-- A positive number in full, with a point and at least one digit on both sides of it. -/
def inFull (d : Decimal) : String :=
  let digits := Nat.toDigits 10 d.digits
  let point := (digits.length : Int) + d.exponent
  if 0 ≤ d.exponent then String.ofList digits ++ zeros d.exponent.toNat ++ ".0"
  else if 0 < point then
    String.ofList (digits.take point.toNat) ++ "." ++ String.ofList (digits.drop point.toNat)
  else "0." ++ zeros (-point).toNat ++ String.ofList digits

/-- A positive number with one digit before the point and the exponent of ten with its sign. -/
def scientific (d : Decimal) : String :=
  let digits := Nat.toDigits 10 d.digits
  let e := (digits.length : Int) + d.exponent - 1
  String.ofList (digits.take 1) ++
    (if digits.length = 1 then "" else "." ++ String.ofList (digits.drop 1)) ++
    (if e < 0 then "e-" else "e+") ++ toString e.natAbs

def text (style : Style) (x : Binary64) : String :=
  if x.isNaN then "NaN"
  else
    (if x.isNegative then "-" else "") ++
    (if x.isInfinite then "inf"
    else if x.magnitude = 0 then "0.0"
    else
      let d := shortest style.tie x.magnitude
      if style.inFull ((Nat.toDigits 10 d.digits).length + d.exponent - 1) then d.inFull
      else d.scientific)

end Decimal

end TwoPhaseStore
