import TwoPhaseStore.Json.Number

/-!
Reading JSON.  The text is read from left to right, and the first thing wrong is what is reported:
either the text ends too early, or it is malformed.  Arrays and objects may be nested
`maxDepth` deep.
-/

namespace TwoPhaseStore.Json

open Text

/-- How many arrays and objects may enclose a value, itself included. -/
def maxDepth : Nat := 127

instance : ReadError DecodeError := ⟨.endOfText, .malformed⟩

/-! ## Strings -/

/-- The four hexadecimal digits of an escape.  A text too short for them has ended too early,
whatever it holds instead. -/
def readHex4 : Reader DecodeError Nat
  | a :: b :: c :: d :: r =>
    if isHexDigit a && isHexDigit b && isHexDigit c && isHexDigit d then
      .ok ⟨ofDigits 16 [a, b, c, d], r, by simp only [List.length_cons]; omega⟩
    else .error .malformed
  | cs => .error (if (String.ofList cs).utf8ByteSize < 4 then .endOfText else .malformed)

/-- The rest of a code point escape, after `\u`.  The first half of a surrogate pair must be
followed by the second. -/
def codePointEscape : Reader DecodeError Char := fun cs => do
  let hi ← readHex4 cs
  if 0xDC00 ≤ hi.value && hi.value ≤ 0xDFFF then throw .malformed
  if hi.value < 0xD800 || 0xDBFF < hi.value then return hi.map Char.ofNat
  match hrest : hi.rest with
  | [] => throw .endOfText
  | ['\\'] => throw .endOfText
  | '\\' :: 'u' :: r =>
    let lo ← readHex4 r
    if 0xDC00 ≤ lo.value && lo.value ≤ 0xDFFF then
      return ⟨Char.ofNat ((hi.value - 0xD800) * 0x400 + (lo.value - 0xDC00) + 0x10000), lo.rest, by
        have := hi.shorter; have := lo.shorter; simp only [hrest, List.length_cons] at *; omega⟩
    else throw .malformed
  | _ => throw .malformed

/-- The rest of an escape, after the backslash. -/
def escape : Reader DecodeError Char
  | [] => .error .endOfText
  | c :: r =>
    let one (d : Char) : Except DecodeError (Taken Char (c :: r)) := .ok (.one d c r)
    if c = '"' then one '"'
    else if c = '\\' then one '\\'
    else if c = '/' then one '/'
    else if c = 'b' then one '\x08'
    else if c = 'f' then one '\x0c'
    else if c = 'n' then one '\n'
    else if c = 'r' then one '\r'
    else if c = 't' then one '\t'
    else if c = 'u' then (codePointEscape r).map (·.after c)
    else .error .malformed

/-- One character of a string, or the closing quote. -/
def stringPiece : Reader DecodeError (Piece Char)
  | [] => .error .endOfText
  | c :: r =>
    if c = '"' then .ok (.one ⟨[], true⟩ c r)
    else if c = '\\' then (escape r).map fun t => (t.map fun d => ⟨[d], false⟩).after c
    else if c < ' ' then .error .malformed
    else .ok (.one ⟨[c], false⟩ c r)

/-- The rest of a string, after the opening quote. -/
def stringRest : Reader DecodeError (List Char) := pieces stringPiece

/-! ## Scalars -/

/-- A value that is neither an array nor an object. -/
def scalar : Reader DecodeError Json
  | [] => .error .endOfText
  | c :: r =>
    if c = '"' then
      (stringRest r).map fun t => (t.map fun s => .str (String.ofList s)).after c
    else if c = 'n' then (word Json.null ['u', 'l', 'l'] r).map (Scanned.after c)
    else if c = 't' then (word (Json.bool true) ['r', 'u', 'e'] r).map (Scanned.after c)
    else if c = 'f' then (word (Json.bool false) ['a', 'l', 's', 'e'] r).map (Scanned.after c)
    else if c = '-' || isDigit c then number (c :: r)
    else .error .malformed

/-! ## Arrays and objects -/

/-- Reads after white space. -/
def afterBlank {α : Type} (read : Reader DecodeError α) : Reader DecodeError α :=
  read.skipping length_skipBlank_le

/-- Goes over white space to a character that must stand there. -/
def expect (wanted : Char) : Reader DecodeError Unit := afterBlank (mark wanted)

/-- The items of an array from a comma or the closing bracket on. -/
def moreItems {α : Type} (item : Reader DecodeError α) (cs : List Char) :
    Except DecodeError (Taken (List α) cs) :=
  match afterBlank (goesOn ']') cs with
  | .error e => .error e
  | .ok ⟨false, r, h⟩ => .ok ⟨[], r, h⟩
  | .ok ⟨true, r, h⟩ =>
    match item r with
    | .error e => .error e
    | .ok ⟨v, r', h'⟩ =>
      match moreItems item r' with
      | .error e => .error e
      | .ok t => .ok ((t.map (v :: ·)).within (by omega))
termination_by cs.length

/-- The rest of an array, after the opening bracket. -/
def items {α : Type} (item : Reader DecodeError α) : Reader DecodeError (List α) := afterBlank fun
  | [] => .error .endOfText
  | c :: r =>
    if c = ']' then .ok (.one [] c r)
    else
      match item (c :: r) with
      | .error e => .error e
      | .ok v => (moreItems item v.rest).map fun t => v.behind (t.map (v.value :: ·))

/-- The name of a member. -/
def memberName : Reader DecodeError String := afterBlank fun
  | [] => .error .endOfText
  | c :: r =>
    if c = '"' then (stringRest r).map fun t => (t.map String.ofList).after c
    else .error .malformed

/-- What is done with a member of an object whose name was read: from what is known so far and the
text after the name, what is known then. -/
abbrev MemberReader (σ : Type) := σ → String → Reader DecodeError σ

/-- The members of an object from a name on. -/
def members {σ : Type} (member : MemberReader σ) (known : σ) (cs : List Char) :
    Except DecodeError (Taken σ cs) :=
  match memberName cs with
  | .error e => .error e
  | .ok ⟨name, r, h⟩ =>
    match member known name r with
    | .error e => .error e
    | .ok ⟨known', r', h'⟩ =>
      match afterBlank (goesOn '\x7d') r' with
      | .error e => .error e
      | .ok ⟨false, r'', h''⟩ => .ok ⟨known', r'', by omega⟩
      | .ok ⟨true, r'', h''⟩ =>
        match members member known' r'' with
        | .error e => .error e
        | .ok t => .ok (t.within (by omega))
termination_by cs.length

/-- The rest of an object, after the opening brace. -/
def objectRest {σ : Type} (member : MemberReader σ) (known : σ) : Reader DecodeError σ :=
  afterBlank fun
  | [] => .error .endOfText
  | c :: r =>
    if c = '\x7d' then .ok (.one known c r) else members member known (c :: r)

/-- Puts a member in front of those read before. -/
def keepMember (read : Reader DecodeError Json) : MemberReader (List (String × Json)) :=
  fun known name cs => do
    let colon ← expect ':' cs
    let v ← read colon.rest
    return colon.behind (v.map fun v => (name, v) :: known)

/-- A value whose arrays and objects hold values read by `inner`; without `inner` none may open. -/
def valueOver (inner : Option (Reader DecodeError Json)) : Reader DecodeError Json := afterBlank fun
  | [] => .error .endOfText
  | c :: r =>
    if c = '[' then
      match inner with
      | none => .error .malformed
      | some item => (items item r).map fun t => (t.map .arr).after c
    else if c = '\x7b' then
      match inner with
      | none => .error .malformed
      | some item => (objectRest (keepMember item) [] r).map fun t =>
          (t.map fun ms => .obj ms.reverse).after c
    else scalar (c :: r)

/-- A value with at most `depth` arrays and objects around each other. -/
def value : Nat → Reader DecodeError Json
  | 0 => valueOver none
  | depth + 1 => valueOver (some (value depth))

/-! ## Whole texts -/

/-- Reads the whole text; behind the value only white space may follow. -/
def whole {α : Type} (read : Reader DecodeError α) (text : String) : Except DecodeError α := do
  let t ← read text.toList
  if (skipBlank t.rest).isEmpty then return t.value else throw .malformed

def read (text : String) : Except DecodeError Json := whole (value maxDepth) text

end TwoPhaseStore.Json
