import TwoPhaseStore.Command.Encoding
import TwoPhaseStore.Json.Reader

/-!
Commands read from JSON texts.  A command is an object with the members `method`, `key`, `value`
and `cond` in any order, or an array of these in this order.

The text is read from left to right.  The method is judged as soon as it is read, and so is a second
one; the other fields are judged when the command has been read, in their order, and what is
missing comes last (`ofFields`, `ofItems`).
-/

namespace TwoPhaseStore

open Text Json

/-! ## Methods -/

/-- Reads a value that must not be an array or an object; these are refused at their first
character. -/
def scalarFor (wanted : Wanted) : Reader DecodeError Json := afterBlank fun
  | [] => .error .endOfText
  | c :: r =>
    if c = '[' then .error (.unfit (.wrongType .sequence wanted))
    else if c = '\x7b' then .error (.unfit (.wrongType .map wanted))
    else scalar (c :: r)

namespace Method

def ofText? (s : String) : Option Method :=
  if s = "GET" then some .get else if s = "SET" then some .set else if s = "DEL" then some .del
  else none

/-- The method with this name. -/
def ofName (s : String) : Except Mismatch Method :=
  match ofText? s with
  | some m => .ok m
  | none => .error (.unknownMethod s)

def ofJson : Json → Except Mismatch Method
  | .str s => ofName s
  | v => .error (.wrongType v.found .methodName)

/-- Reads the name of a method. -/
def name : Reader DecodeError Method := fun cs => do
  let v ← scalarFor .methodName cs
  let m ← (ofJson v.value).mapError .unfit
  return v.map fun _ => m

/-- Reads a null. -/
def nothing : Reader DecodeError Unit := fun cs => do
  let v ← scalarFor .nothing cs
  match v.value with
  | .null => return v.map fun _ => ()
  | w => throw (.unfit (.wrongType w.found .nothing))

/-- Reads the name of a method where nothing but a string may stand. -/
def quotedName : Reader DecodeError Method := fun cs => do
  let s ← memberName cs
  let m ← (ofName s.value).mapError .unfit
  return s.map fun _ => m

/-- Reads a method: its name, or an object that has a null under its name. -/
def reader : Reader DecodeError Method := afterBlank fun
  | [] => .error .endOfText
  | c :: r =>
    if c = '\x7b' then do
      let m ← quotedName r
      let colon ← expect ':' m.rest
      let null ← nothing colon.rest
      let close ← expect '\x7d' null.rest
      return (close.map fun _ => m.value).within (by
        have := m.shorter; have := colon.shorter; have := null.shorter
        simp only [List.length_cons]; omega)
    else quotedName (c :: r)

def decode (text : String) : Except DecodeError Method := whole reader text

end Method

/-! ## Fields -/

namespace Command

variable {V : Type} [Payload V]

/-- An expected payload; a null expects nothing. -/
def conditionOfJson : Json → Except Mismatch (Option V) := Payload.nullable Payload.ofJson

/-- The fields of a command met so far. -/
structure Fields (V : Type) where
  key : Option Key
  value : Option V
  condition : Option (Option V)

/-- Takes one member up.  Only writes have a value and a condition, all else is left aside. -/
def Fields.add (m : Method) (f : Fields V) (member : String × Json) : Except Mismatch (Fields V) :=
  if member.1 = "key" then
    if f.key.isSome then .error (.duplicateField "key")
    else (Payload.stringOfJson member.2).map fun k => { f with key := some k }
  else if member.1 = "value" ∧ m = .set then
    if f.value.isSome then .error (.duplicateField "value")
    else (Payload.ofJson member.2).map fun v => { f with value := some v }
  else if member.1 = "cond" ∧ m = .set then
    if f.condition.isSome then .error (.duplicateField "cond")
    else (conditionOfJson member.2).map fun e => { f with condition := some e }
  else .ok f

/-- The command with these fields, if none is missing. -/
def Fields.command (m : Method) (f : Fields V) : Except Mismatch (Command V) :=
  match f.key, m with
  | none, _ => .error (.missingField "key")
  | some k, .get => .ok (.get k)
  | some k, .del => .ok (.del k)
  | some k, .set =>
    match f.value.or Payload.ofMissing with
    | none => .error (.missingField "value")
    | some v => .ok (.set k v (f.condition.getD none))

/-- The command of an object, from its method and its other members. -/
def ofFields (m : Method) (members : List (String × Json)) : Except Mismatch (Command V) := do
  let f ← members.foldlM (Fields.add m) ⟨none, none, none⟩
  f.command m

/-- Refuses items beyond the fields of a command. -/
def noFurther (m : Method) (rest : List Json) : Except Mismatch Unit :=
  if rest.isEmpty then .ok () else .error (.tooManyFields (m.arity + rest.length) m)

/-- The command of an array, from its method and the items after it. -/
def ofItems (m : Method) (items : List Json) : Except Mismatch (Command V) :=
  match items with
  | [] => .error (.tooFewFields 0 m)
  | key :: items => do
    let k ← Payload.stringOfJson key
    match m, items with
    | .get, rest => (noFurther m rest).map fun _ => .get k
    | .del, rest => (noFurther m rest).map fun _ => .del k
    | .set, [] => .error (.tooFewFields 1 m)
    | .set, value :: items => do
      let v ← Payload.ofJson value
      let e ← conditionOfJson (items.headD .null)
      (noFurther m (items.drop 1)).map fun _ => .set k v e

/-! ## Texts -/

/-- The method, if it has been met, and the other members, the last one first. -/
structure Members where
  method : Option Method
  others : List (String × Json)

/-- Takes up one member of a command; other members than the method have values read by `inner`. -/
def memberReader (inner : Reader DecodeError Json) : MemberReader Members := fun known name cs =>
  if name = "method" then
    match known.method with
    | some _ => .error (.unfit (.duplicateField "method"))
    | none => do
      let colon ← expect ':' cs
      let m ← Method.name colon.rest
      return colon.behind (m.map fun m => { known with method := some m })
  else
    (keepMember inner known.others name cs).map fun t =>
      t.map fun others => { known with others := others }

/-- The rest of a command that is an object, after the opening brace. -/
def objectReader (inner : Reader DecodeError Json) : Reader DecodeError (Command V) := fun cs => do
  let t ← objectRest (memberReader inner) ⟨none, []⟩ cs
  match t.value.method with
  | none => throw (.unfit (.missingField "method"))
  | some m =>
    let c ← (ofFields m t.value.others.reverse).mapError .unfit
    return t.map fun _ => c

/-- The rest of a command that is an array, after the opening bracket. -/
def arrayReader (inner : Reader DecodeError Json) : Reader DecodeError (Command V) := afterBlank fun
  | [] => .error .endOfText
  | c :: r =>
    if c = ']' then .error (.unfit (.missingField "method"))
    else do
      let m ← Method.name (c :: r)
      let t ← moreItems inner m.rest
      let command ← (ofItems m.value t.value).mapError .unfit
      return m.behind (t.map fun _ => command)

/-- Reads a command whose parts are read by `inner`. -/
def reader (inner : Reader DecodeError Json) : Reader DecodeError (Command V) := afterBlank fun
  | [] => .error .endOfText
  | c :: r =>
    if c = '\x7b' then (objectReader inner r).map (·.after c)
    else if c = '[' then (arrayReader inner r).map (·.after c)
    else do
      let v ← scalar (c :: r)
      throw (.unfit (.wrongType v.value.found .command))

def decode (text : String) : Except DecodeError (Command V) :=
  whole (reader (Json.value (maxDepth - 1))) text

/-- Whether the written form of a command reads back as an equal one. -/
def readsBack [BEq V] (c : Command V) : Bool :=
  match (decode c.encode : Except DecodeError (Command V)) with
  | .ok d => d == c
  | .error _ => false

/-- Reads an array of commands. -/
def batchReader (inner : Reader DecodeError Json) : Reader DecodeError (List (Command V)) :=
  afterBlank fun
  | [] => .error .endOfText
  | c :: r =>
    if c = '[' then (items (reader inner) r).map (·.after c)
    else do
      let v ← scalarFor .sequence (c :: r)
      throw (.unfit (.wrongType v.value.found .sequence))

def decodeBatch (text : String) : Except DecodeError (List (Command V)) :=
  whole (batchReader (Json.value (maxDepth - 2))) text

end Command

end TwoPhaseStore
