import TwoPhaseStore.Command
import TwoPhaseStore.Decimal
import TwoPhaseStore.Text.Quoted

/-!
Well-formed documents of the wrong shape: what was found, what was wanted, and the sentence that
says so.
-/

namespace TwoPhaseStore

/-- A value as far as a message speaks of it. -/
inductive Found where
  | null
  | bool (b : Bool)
  | integer (n : Int)
  | float (x : Binary64)
  | text (s : String)
  | sequence
  | map
deriving DecidableEq, Repr

/-- Floats are written in the style of the document. -/
def Found.describe (style : Decimal.Style) : Found → String
  | null => "null"
  | bool b => "boolean `" ++ toString b ++ "`"
  | integer n => "integer `" ++ toString n ++ "`"
  | float x => "floating point `" ++ Decimal.text style x ++ "`"
  | text s => "string " ++ Text.quoted s
  | sequence => "sequence"
  | map => "map"

inductive Wanted where
  | methodName
  | text
  | integer
  | unsigned
  | sequence
  | command
  | nothing
deriving DecidableEq, Repr

def Wanted.describe : Wanted → String
  | methodName => "variant identifier"
  | text => "a string"
  | integer => "i64"
  | unsigned => "u64"
  | sequence => "a sequence"
  | command => "internally tagged enum Command"
  | nothing => "unit"

/-- How many fields a command of this method has. -/
def Method.arity : Method → Nat
  | .set => 3
  | _ => 1

/-- `1 element`, `3 elements`. -/
def countOfElements (n : Nat) : String := toString n ++ if n = 1 then " element" else " elements"

def Method.shape (m : Method) : String :=
  "struct variant Command::" ++
    (match m with
      | .get => "Get"
      | .set => "Set"
      | .del => "Del") ++
    " with " ++ countOfElements m.arity

inductive Mismatch where
  | wrongType (found : Found) (wanted : Wanted)
  /-- A number of the right type but not in its range. -/
  | outOfRange (n : Int) (wanted : Wanted)
  | unknownMethod (name : String)
  /-- A field that the document may not have; `allowed` is the one it may. -/
  | unknownField (name allowed : String)
  | missingField (name : String)
  | duplicateField (name : String)
  | tooFewFields (count : Nat) (method : Method)
  | tooManyFields (count : Nat) (method : Method)
deriving DecidableEq, Repr

def Mismatch.message (style : Decimal.Style) : Mismatch → String
  | wrongType found wanted =>
    "invalid type: " ++ found.describe style ++ ", expected " ++ wanted.describe
  | outOfRange n wanted =>
    "invalid value: " ++ (Found.integer n).describe style ++ ", expected " ++ wanted.describe
  | unknownMethod name => "unknown variant `" ++ name ++ "`, expected one of `GET`, `SET`, `DEL`"
  | unknownField name allowed => "unknown field `" ++ name ++ "`, expected `" ++ allowed ++ "`"
  | missingField name => "missing field `" ++ name ++ "`"
  | duplicateField name => "duplicate field `" ++ name ++ "`"
  | tooFewFields n m => "invalid length " ++ toString n ++ ", expected " ++ m.shape
  | tooManyFields n m =>
    "invalid length " ++ toString n ++ ", expected " ++ countOfElements m.arity ++ " in sequence"

/-- Why a value cannot be read from a text. -/
inductive DecodeError where
  /-- The text ends too early. -/
  | endOfText
  /-- No continuation of the text could mend it. -/
  | malformed
  /-- The document has the wrong shape. -/
  | unfit (why : Mismatch)
deriving DecidableEq, Repr

end TwoPhaseStore
