import TwoPhaseStore.Toml.Text

/-!
Numbers, dates and times of TOML.  Whole numbers have 64 bits and a sign, and may be written to the
bases two, eight and sixteen; doubles are the nearest to their decimals.  A number too large for its
type is malformed, except that a double may be too large on the negative side.
-/

namespace TwoPhaseStore.Toml

open Text

/-! ## Digits -/

def isOctalDigit (c : Char) : Bool := '0' ≤ c && c ≤ '7'

def isBinaryDigit (c : Char) : Bool := c = '0' || c = '1'

/-- The digits from here on; between two of them one underscore may stand. -/
def moreDigits (isDigit : Char → Bool) :
    (cs : List Char) → Except Malformed (Scanned (List Char) cs)
  | [] => .ok (.none [] [])
  | c :: r =>
    if isDigit c then
      (moreDigits isDigit r).map fun t => ⟨c :: t.value, t.rest, Nat.le_succ_of_le t.notLonger⟩
    else if c = '_' then
      match r with
      | [] => .error .malformed
      | d :: r =>
        if isDigit d then
          (moreDigits isDigit r).map fun t =>
            ⟨d :: t.value, t.rest, Nat.le_succ_of_le (Nat.le_succ_of_le t.notLonger)⟩
        else .error .malformed
    else .ok (.none [] (c :: r))

/-- One digit or more. -/
def digits (isDigit : Char → Bool) : Reader Malformed (List Char)
  | [] => .error .malformed
  | c :: r =>
    if isDigit c then
      (moreDigits isDigit r).map fun t => ⟨c :: t.value, t.rest, Nat.lt_succ_of_le t.notLonger⟩
    else .error .malformed

/-- The digits before a point.  Behind a zero there are none. -/
def wholePart : Reader Malformed (List Char)
  | '0' :: r => .ok (.one ['0'] '0' r)
  | cs => digits isDigit cs

/-! ## Numbers -/

/-- A whole number, if it fits 64 bits with a sign. -/
def integerOf (n : Int) : Except Malformed Toml :=
  if -(Nat.pow 2 63 : Int) ≤ n ∧ n < Nat.pow 2 63 then .ok (.integer n) else .error .malformed

/-- The double nearest to a decimal, which must not be infinitely large. -/
def floatOf (negative : Bool) (d : Decimal) : Except Malformed Toml :=
  if d.toMagnitude = Magnitude.infinity && !negative then .error .malformed
  else .ok (.float (.ofMagnitude negative d.toMagnitude))

def negate (negative : Bool) (n : Nat) : Int := if negative then -n else n

/-- A whole number to another base, after its mark. -/
def based (base : Nat) (isDigit : Char → Bool) : Reader Malformed Toml := fun cs => do
  let t ← digits isDigit cs
  let n ← integerOf (ofDigits base t.value)
  return t.map fun _ => n

/-- The exponent after its `e`. -/
def exponent : Reader Malformed Int
  | '-' :: r => (digits isDigit r).map fun t =>
      (t.map fun ds => -(ofDigits 10 ds : Int)).after '-'
  | '+' :: r => (digits isDigit r).map fun t =>
      (t.map fun ds => (ofDigits 10 ds : Int)).after '+'
  | cs => (digits isDigit cs).map fun t => t.map fun ds => (ofDigits 10 ds : Int)

/-- The exponent with its `e`, if there is one. -/
def exponentPart : (cs : List Char) → Except Malformed (Scanned (Option Int) cs)
  | [] => .ok (.none none [])
  | c :: r =>
    if c = 'e' || c = 'E' then
      (exponent r).map fun t => ((t.map some).after c).scanned
    else .ok (.none none (c :: r))

/-- The digits after a point, if there is one. -/
def fractionPart : (cs : List Char) → Except Malformed (Scanned (Option (List Char)) cs)
  | '.' :: r =>
    (digits isDigit r).map fun t => ((t.map some).after '.').scanned
  | cs => .ok (.none none cs)

/-- A number in decimal, after its sign: a double if it has a point or an exponent. -/
def decimal (negative : Bool) : Reader Malformed Toml := fun cs => do
  let w ← wholePart cs
  let f ← fractionPart w.rest
  let e ← exponentPart f.rest
  let fraction := f.value.getD []
  let n := ofDigits 10 (w.value ++ fraction)
  let v ←
    if f.value.isNone && e.value.isNone then integerOf (negate negative n)
    else floatOf negative ⟨n, e.value.getD 0 - fraction.length⟩
  return ⟨v, e.rest, Nat.lt_of_le_of_lt (Nat.le_trans e.notLonger f.notLonger) w.shorter⟩

/-- A number after its sign, or one of the doubles that have a name. -/
def signed (negative : Bool) : Reader Malformed Toml
  | 'i' :: 'n' :: 'f' :: r =>
    .ok ⟨.float (.ofMagnitude negative Magnitude.infinity), r,
      Nat.lt_succ_of_le (Nat.le_add_right _ 2)⟩
  | 'n' :: 'a' :: 'n' :: r =>
    .ok ⟨.float (.ofMagnitude negative (Magnitude.infinity + Nat.pow 2 51)), r,
      Nat.lt_succ_of_le (Nat.le_add_right _ 2)⟩
  | cs => decimal negative cs

def number : Reader Malformed Toml
  | '0' :: 'x' :: r => (based 16 isHexDigit r).map (·.within (Nat.le_add_right _ 2))
  | '0' :: 'o' :: r => (based 8 isOctalDigit r).map (·.within (Nat.le_add_right _ 2))
  | '0' :: 'b' :: r => (based 2 isBinaryDigit r).map (·.within (Nat.le_add_right _ 2))
  | '+' :: r => (signed false r).map (·.after '+')
  | '-' :: r => (signed true r).map (·.after '-')
  | cs => signed false cs

/-! ## Dates and times -/

/-- Two digits, as a number from `low` to `high`. -/
def twoDigits (low high : Nat) : Reader Malformed Nat
  | a :: b :: r =>
    let n := ofDigits 10 [a, b]
    if isDigit a && isDigit b && low ≤ n && n ≤ high then
      .ok ⟨n, r, Nat.lt_succ_of_lt (Nat.lt_succ_self _)⟩
    else .error .malformed
  | _ => .error .malformed

def isLeapYear (year : Nat) : Bool := year % 4 = 0 && (year % 100 ≠ 0 || year % 400 = 0)

def daysOfMonth (year month : Nat) : Nat :=
  if month = 2 then if isLeapYear year then 29 else 28
  else if month = 4 || month = 6 || month = 9 || month = 11 then 30
  else 31

/-- A day of the calendar, `1979-05-27`. -/
def date : Reader Malformed Unit :=
  (twoDigits 0 99).andThen fun century => (twoDigits 0 99).andThen fun year =>
  (mark '-').andThen fun _ => (twoDigits 1 12).andThen fun month =>
  (mark '-').andThen fun _ => fun cs =>
    (twoDigits 1 (daysOfMonth (100 * century + year) month) cs).map fun t => t.map fun _ => ()

/-- The fraction of a second. -/
def secondFraction : Reader Malformed Unit
  | '.' :: c :: r =>
    if isDigit c then
      .ok ⟨(), r.dropWhile isDigit, Nat.lt_succ_of_le
        (Nat.le_succ_of_le (length_dropWhile_le ..))⟩
    else .error .malformed
  | _ => .error .malformed

/-- A time of day, `07:32:00`; a minute may have a leap second. -/
def time : Reader Malformed Unit :=
  ((twoDigits 0 23).andThen fun _ => (mark ':').andThen fun _ =>
   (twoDigits 0 59).andThen fun _ => (mark ':').andThen fun _ => fun cs =>
     (twoDigits 0 60 cs).map fun t => t.map fun _ => ()).maybe secondFraction

/-- The offset from universal time, `Z` or `-07:00`. -/
def offset : Reader Malformed Unit
  | [] => .error .malformed
  | c :: r =>
    if c = 'Z' || c = 'z' then .ok (.one () c r)
    else if c = '+' || c = '-' then
      (((twoDigits 0 23).andThen fun _ => (mark ':').andThen fun _ => fun cs =>
        (twoDigits 0 59 cs).map fun t => t.map fun _ => ()) r).map (·.after c)
    else .error .malformed

/-- What stands between a date and a time. -/
def timeMark : Reader Malformed Unit
  | [] => .error .malformed
  | c :: r =>
    if c = 'T' || c = 't' || c = ' ' then .ok (.one () c r) else .error .malformed

/-- A date, a time of day, or a date with a time. -/
def moment : Reader Malformed Toml := fun cs =>
  ((date.maybe (timeMark.andThen fun _ => time.maybe offset)).orElse time cs).map fun t =>
    t.map fun _ => .dateTime

end TwoPhaseStore.Toml
