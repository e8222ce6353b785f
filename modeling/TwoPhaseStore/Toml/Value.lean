import TwoPhaseStore.Mismatch

/-!
TOML values.  A document is a table: entries in the order in which they were first opened, one per
name.
-/

namespace TwoPhaseStore

/-- How a table came about, which decides what may still be added to it. -/
inductive Toml.Origin where
  /-- Under its own header. -/
  | written
  /-- On the way to the table of a longer header. -/
  | implied
  /-- On the way to the last name of a dotted key. -/
  | dotted
deriving DecidableEq, Repr

inductive Toml where
  | string (s : String)
  | integer (n : Int)
  | float (x : Binary64)
  | boolean (b : Bool)
  /-- A date, a time of day or both; nobody asks which. -/
  | dateTime
  | array (items : List Toml)
  /-- A table in braces, to which nothing is added later. -/
  | inline (entries : List (String × Toml))
  | table (origin : Toml.Origin) (entries : List (String × Toml))
  /-- An array of tables with headers, the last table first. -/
  | tables (last : List (String × Toml)) (earlier : List (List (String × Toml)))

namespace Toml

abbrev Entries := List (String × Toml)

/-- How a value is named in a message. -/
def found : Toml → Found
  | string s => .text s
  | integer n => .integer n
  | float x => .float x
  | boolean b => .bool b
  | dateTime => .map
  | array _ => .sequence
  | inline _ => .map
  | table _ _ => .map
  | tables _ _ => .sequence

/-- All doubles are written in full; of two equally near decimals the larger magnitude is taken. -/
def floatStyle : Decimal.Style := ⟨fun _ => true, .up⟩

/-- The text is no document. -/
inductive Malformed where
  | malformed
deriving DecidableEq, Repr

/-- How many arrays and inline tables may enclose a value, itself included, and how many names a
dotted key may have. -/
def maxDepth : Nat := 79

end Toml

end TwoPhaseStore
