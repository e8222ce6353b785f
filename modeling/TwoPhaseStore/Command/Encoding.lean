import TwoPhaseStore.Command.Payload
import TwoPhaseStore.Json.Printer

/-!
The written form of commands: an object with the members `method`, `key`, `value` and `cond`, in
this order, without those the command does not have.
-/

namespace TwoPhaseStore

namespace Method

def toJson (m : Method) : Json := .str m.text

def encode (m : Method) : String := .ofList m.toJson.render

end Method

namespace Command

variable {V : Type} [Payload V]

/-- A member for a payload, if there is one. -/
def payloadMember (name : String) : Option V → List (String × Json)
  | some v => [(name, Payload.toJson v)]
  | none => []

def toJson (c : Command V) : Json :=
  .obj ([("method", c.method.toJson), ("key", .str c.key)] ++
    payloadMember "value" c.value? ++ payloadMember "cond" c.expected?)

def encode (c : Command V) : String := .ofList c.toJson.render

end Command

end TwoPhaseStore
