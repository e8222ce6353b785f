import TwoPhaseStore.Json.Value
import TwoPhaseStore.Text.Reader

/-!
Numbers of JSON: how they are spelled (`Numeral`) and which value they have.

A numeral without point and exponent is a whole number as long as it fits 64 bits.  Every other one
is a double.  Its digits are read into a significand of 64 bits, the digits that do not fit only
shift the exponent, and the significand is then scaled by a power of ten in double arithmetic; so
the double is not in every case the one nearest to the numeral.
-/

namespace TwoPhaseStore.Json

open Text

/-! ## Spelling -/

/-- The parts of a number.  Without a point the fraction is empty, and without an `e` the
exponent is. -/
structure Numeral where
  negative : Bool
  whole : List Char
  fraction : List Char
  exponentNegative : Bool
  exponent : List Char
deriving DecidableEq

/-- A missing digit: the text may have ended, or something else stands there. -/
def noDigit (cs : List Char) : DecodeError := if cs.isEmpty then .endOfText else .malformed

/-- The digits before the point.  A zero in front of other digits is refused. -/
def wholePart : Reader DecodeError (List Char)
  | [] => .error .endOfText
  | c :: r =>
    if c = '0' then
      if (r.head?.map isDigit).getD false then .error .malformed
      else .ok (.one ['0'] c r)
    else if isDigit c then
      .ok ⟨c :: r.takeWhile isDigit, r.dropWhile isDigit,
        Nat.lt_succ_of_le (length_dropWhile_le ..)⟩
    else .error .malformed

/-- The digits after the point, if there is a point. -/
def fractionPart : (cs : List Char) → Except DecodeError (Scanned (List Char) cs)
  | '.' :: r =>
    if r.takeWhile isDigit = [] then .error (noDigit r)
    else
      .ok ⟨r.takeWhile isDigit, r.dropWhile isDigit, Nat.le_succ_of_le (length_dropWhile_le ..)⟩
  | cs => .ok (.none [] cs)

/-- The sign of an exponent, which is negative if it is a minus. -/
def exponentSign : (cs : List Char) → Scanned Bool cs
  | '-' :: r => (Taken.one true '-' r).scanned
  | '+' :: r => (Taken.one false '+' r).scanned
  | cs => .none false cs

/-- The sign and the digits of the exponent, if there is one. -/
def exponentPart : (cs : List Char) → Except DecodeError (Scanned (Bool × List Char) cs)
  | [] => .ok (.none (false, []) [])
  | c :: r =>
    if c = 'e' || c = 'E' then
      let sign := exponentSign r
      if sign.rest.takeWhile isDigit = [] then .error (noDigit sign.rest)
      else .ok ⟨(sign.value, sign.rest.takeWhile isDigit), sign.rest.dropWhile isDigit,
        Nat.le_succ_of_le (Nat.le_trans (length_dropWhile_le ..) sign.notLonger)⟩
    else .ok (.none (false, []) (c :: r))

/-- A number after its sign. -/
def unsignedNumeral (negative : Bool) : Reader DecodeError Numeral := fun cs => do
  let w ← wholePart cs
  let f ← fractionPart w.rest
  let e ← exponentPart f.rest
  return ⟨⟨negative, w.value, f.value, e.value.1, e.value.2⟩, e.rest,
    Nat.lt_of_le_of_lt (Nat.le_trans e.notLonger f.notLonger) w.shorter⟩

def numeral : Reader DecodeError Numeral
  | '-' :: r => (unsignedNumeral true r).map (·.after '-')
  | cs => unsignedNumeral false cs

/-! ## Value -/

/-- Reads digits on into a significand as long as it fits 64 bits; also the number of digits
left out. -/
def significand (s : Nat) : List Char → Nat × Nat
  | [] => (s, 0)
  | d :: ds =>
    if s * 10 + digitValue d < Nat.pow 2 64 then significand (s * 10 + digitValue d) ds
    else (s, ds.length + 1)

/-- The power of ten as a double. -/
def powerOfTen (e : Nat) : Magnitude := Magnitude.ofNat (Nat.pow 10 e)

/-- `f * 10 ^ e` in double arithmetic, in steps of at most 308 powers of ten; none if it is too
large. -/
def scale (f : Magnitude) (e : Int) : Option Magnitude :=
  if f = 0 then some 0
  else if e < -308 then scale (f.div (powerOfTen 308)) (e + 308)
  else if 308 < e then none
  else if 0 ≤ e then
    let x := f.mul (powerOfTen e.toNat)
    if x = Magnitude.infinity then none else some x
  else some (f.div (powerOfTen (-e).toNat))
termination_by (-e).toNat
decreasing_by omega

namespace Numeral

/-- The significand, and the power of ten to scale it by without the written exponent. -/
def significandAndShift (n : Numeral) : Nat × Int :=
  let w := significand 0 n.whole
  let f := significand w.1 n.fraction
  (f.1, (w.2 : Int) + f.2 - n.fraction.length)

/-- The magnitude of the double, if there is one that large. -/
def magnitude? (n : Numeral) : Option Magnitude :=
  let (s, shift) := n.significandAndShift
  let e := ofDigits 10 n.exponent
  if Nat.pow 2 31 ≤ e then
    if s = 0 || n.exponentNegative then some 0 else none
  else scale (Magnitude.ofNat s) (shift + if n.exponentNegative then -(e : Int) else e)

/-- A whole number that fits 64 bits; zero with a minus is none. -/
def int? (n : Numeral) : Option Int :=
  let v := ofDigits 10 n.whole
  if n.fraction ≠ [] || n.exponent ≠ [] then none
  else if n.negative then
    if v = 0 || Nat.pow 2 63 < v then none else some (-(v : Int))
  else if v < Nat.pow 2 64 then some v
  else none

def value (n : Numeral) : Except DecodeError Json :=
  match n.int? with
  | some v => .ok (.int v)
  | none =>
    match n.magnitude? with
    | some m => .ok (.float (.ofMagnitude n.negative m))
    | none => .error .malformed

end Numeral

/-- A number and its value. -/
def number : Reader DecodeError Json := fun cs => do
  let n ← numeral cs
  let v ← n.value.value
  return n.map fun _ => v

end TwoPhaseStore.Json
