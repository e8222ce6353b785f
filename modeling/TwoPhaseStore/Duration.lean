/-!
Lengths of time, counted in nanoseconds, and their text: the whole part in the largest of
`s`, `ms`, `µs`, `ns` that makes it at least one, then the fraction without trailing zeros.
-/

namespace TwoPhaseStore

structure Duration where
  nanoseconds : Nat
deriving DecidableEq, Repr

namespace Duration

def ofNanos (n : Nat) : Duration := ⟨n⟩

def ofMillis (n : Nat) : Duration := ⟨n * 1000000⟩

/-- Whole seconds. -/
def seconds (d : Duration) : Nat := d.nanoseconds / 1000000000

/-- What is left beside the whole seconds. -/
def subsecond (d : Duration) : Nat := d.nanoseconds % 1000000000

theorem seconds_add_subsecond (d : Duration) :
    1000000000 * d.seconds + d.subsecond = d.nanoseconds := Nat.div_add_mod ..

/-- `width` digits of `n`, zeros in front. -/
def padded (width n : Nat) : List Char :=
  let digits := Nat.toDigits 10 n
  List.replicate (width - digits.length) '0' ++ digits

/-- `n` units of ten to the minus `places`, without trailing zeros. -/
def decimal (places n : Nat) : String :=
  let fraction := (padded places (n % Nat.pow 10 places)).reverse.dropWhile (· = '0') |>.reverse
  toString (n / Nat.pow 10 places) ++
    (if fraction.isEmpty then "" else "." ++ String.ofList fraction)

def text (d : Duration) : String :=
  let n := d.nanoseconds
  if 1000000000 ≤ n then decimal 9 n ++ "s"
  else if 1000000 ≤ n then decimal 6 n ++ "ms"
  else if 1000 ≤ n then decimal 3 n ++ "µs"
  else toString n ++ "ns"

end Duration

end TwoPhaseStore
