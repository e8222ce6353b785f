import TwoPhaseStore.Mismatch

/-!
JSON values.  Numbers are whole numbers of 64 bits, signed or unsigned, or doubles; the members of
an object keep their order and may repeat a name.
-/

namespace TwoPhaseStore

inductive Json where
  | null
  | bool (b : Bool)
  | int (n : Int)
  | float (x : Binary64)
  | str (s : String)
  | arr (items : List Json)
  | obj (members : List (String × Json))

namespace Json

/-- How a value is named in a message. -/
def found : Json → Found
  | null => .null
  | bool b => .bool b
  | int n => .integer n
  | float x => .float x
  | str s => .text s
  | arr _ => .sequence
  | obj _ => .map

/-- Doubles between a hundred-thousandth and ten million billions are written in full; of two
equally near decimals the one whose last digit is even is taken. -/
def floatStyle : Decimal.Style := ⟨fun e => -5 ≤ e ∧ e ≤ 15, .toEven⟩

/-- White space between the parts of a document. -/
def isBlank (c : Char) : Bool := c = ' ' || c = '\n' || c = '\t' || c = '\r'

def skipBlank (cs : List Char) : List Char := cs.dropWhile isBlank

theorem length_skipBlank_le (cs : List Char) : (skipBlank cs).length ≤ cs.length :=
  (List.dropWhile_suffix _).length_le

end Json

end TwoPhaseStore
