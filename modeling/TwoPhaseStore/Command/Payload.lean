import TwoPhaseStore.Json.Value

/-!
Payloads that can travel in documents: 64-bit integers, strings, optional integers and lists of
integers.  Reading gives back what was written:

    Payload.ofJson (Payload.toJson v) = .ok v                         (LawfulPayload.ofJson_toJson)
-/

namespace TwoPhaseStore

/-- How payloads are written into documents and read from them. -/
class Payload (V : Type) where
  toJson : V → Json
  ofJson : Json → Except Mismatch V
  /-- What a payload that is left out stands for, if it may be left out. -/
  ofMissing : Option V

/-- Payloads that are read back as they were written. -/
class LawfulPayload (V : Type) [Payload V] : Prop where
  ofJson_toJson (v : V) : Payload.ofJson (Payload.toJson v) = .ok v

namespace Payload

def int64ToJson (n : Int64) : Json := .int n.toInt

/-- A whole number of 64 bits with a sign. -/
def int64OfJson : Json → Except Mismatch Int64
  | .int n =>
    if -(Nat.pow 2 63 : Int) ≤ n ∧ n < Nat.pow 2 63 then .ok (.ofInt n)
    else .error (.outOfRange n .integer)
  | v => .error (.wrongType v.found .integer)

def stringOfJson : Json → Except Mismatch String
  | .str s => .ok s
  | v => .error (.wrongType v.found .text)

/-- A null, or else what `read` makes of the value. -/
def nullable {V : Type} (read : Json → Except Mismatch V) : Json → Except Mismatch (Option V)
  | .null => .ok none
  | v => (read v).map some

/-- The payloads of a list, up to the first that is none. -/
def listOfJson {V : Type} (read : Json → Except Mismatch V) : Json → Except Mismatch (List V)
  | .arr vs => vs.mapM read
  | v => .error (.wrongType v.found .sequence)

instance : Payload Int64 := ⟨int64ToJson, int64OfJson, none⟩

instance : Payload String := ⟨.str, stringOfJson, none⟩

instance : Payload (Option Int64) :=
  ⟨fun | none => .null | some n => int64ToJson n, nullable int64OfJson, some none⟩

instance : Payload (List Int64) :=
  ⟨fun ns => .arr (ns.map int64ToJson), listOfJson int64OfJson, none⟩

theorem int64OfJson_toJson (n : Int64) : int64OfJson (int64ToJson n) = .ok n := by
  have h := n.minValue_le_toInt
  have h' := n.toInt_lt
  rw [int64ToJson, int64OfJson, if_pos ⟨h, h'⟩, Int64.ofInt_toInt]

theorem mapM_int64OfJson (ns : List Int64) :
    (ns.map int64ToJson).mapM int64OfJson = .ok ns := by
  induction ns with
  | nil => rfl
  | cons n ns ih => rw [List.map_cons, List.mapM_cons, int64OfJson_toJson, ih]; rfl

instance : LawfulPayload Int64 := ⟨int64OfJson_toJson⟩

instance : LawfulPayload String := ⟨fun _ => rfl⟩

instance : LawfulPayload (Option Int64) where
  ofJson_toJson
    | none => rfl
    | some n => congrArg (Except.map some) (int64OfJson_toJson n)

instance : LawfulPayload (List Int64) := ⟨mapM_int64OfJson⟩

end Payload

end TwoPhaseStore
