import TwoPhaseStore.Toml.Number

/-!
Reading TOML documents: values, lines, and the entries they add up to.
-/

namespace TwoPhaseStore.Toml

open Text

/-! ## Values -/

/-- A value that is neither an array nor an inline table. -/
def scalar : Reader Malformed Toml
  | [] => .error .malformed
  | c :: r =>
    if c = '"' || c = '\'' then (anyString (c :: r)).map fun t => t.map .string
    else if c = 't' then
      (word (Toml.boolean true) ['r', 'u', 'e'] r).map (Scanned.after c)
    else if c = 'f' then
      (word (Toml.boolean false) ['a', 'l', 's', 'e'] r).map (Scanned.after c)
    else moment.orElse number (c :: r)

/-- An item of an array with what follows it, or the end of the array.  Behind the last item a comma
may stand. -/
def arrayPiece (value : Reader Malformed Toml) : Reader Malformed (Piece Toml) := afterSpace fun
  | [] => .error .malformed
  | c :: r =>
    if c = ']' then .ok (.one ⟨[], true⟩ c r)
    else do
      let v ← value (c :: r)
      let more ← afterSpace (goesOn ']') v.rest
      return ⟨⟨[v.value], !more.value⟩, more.rest, Nat.lt_trans more.shorter v.shorter⟩

/-- A key, the equals sign and a value. -/
def binding (value : Reader Malformed Toml) : Reader Malformed (DottedKey × Toml) := fun cs => do
  let k ← key cs
  let sign ← mark '=' k.rest
  let v ← afterBlank value sign.rest
  return ⟨(k.value, v.value), v.rest,
    Nat.lt_trans v.shorter (Nat.lt_trans sign.shorter k.shorter)⟩

/-- A binding of an inline table with what follows it. -/
def inlinePiece (value : Reader Malformed Toml) : Reader Malformed (Piece (DottedKey × Toml)) :=
  fun cs => do
    let b ← binding value cs
    let more ← afterBlank (goesOn '\x7d') b.rest
    return ⟨⟨[b.value], !more.value⟩, more.rest, Nat.lt_trans more.shorter b.shorter⟩

/-- The rest of an inline table, after the opening brace. -/
def inlineRest (value : Reader Malformed Toml) : Reader Malformed Toml := afterBlank fun
  | [] => .error .malformed
  | c :: r =>
    if c = '\x7d' then .ok (.one (.inline []) c r)
    else do
      let t ← pieces (inlinePiece value) (c :: r)
      match Entries.ofBindings t.value with
      | some es => return t.map fun _ => .inline es
      | none => throw .malformed

/-- A value whose arrays and inline tables hold values read by `inner`; without `inner` none may
open. -/
def valueOver (inner : Option (Reader Malformed Toml)) : Reader Malformed Toml
  | [] => .error .malformed
  | c :: r =>
    match inner with
    | none => if c = '[' || c = '\x7b' then .error .malformed else scalar (c :: r)
    | some value =>
      if c = '[' then
        (pieces (arrayPiece value) r).map fun t => (t.map .array).after c
      else if c = '\x7b' then (inlineRest value r).map (·.after c)
      else scalar (c :: r)

/-- A value with at most `depth` arrays and inline tables around each other. -/
def value : Nat → Reader Malformed Toml
  | 0 => valueOver none
  | depth + 1 => valueOver (some (value depth))

/-! ## Lines -/

/-- The end of the line, or of the text. -/
def lineEnd : (cs : List Char) → Except Malformed (Scanned Unit cs)
  | [] => .ok (.none () [])
  | c :: r => (newline (c :: r)).map Taken.scanned

/-- Reads something that fills its line, apart from white space and a comment. -/
def filling {α : Type} (read : Reader Malformed α) : Reader Malformed α := fun cs => do
  let t ← read cs
  let e ← lineEnd (skipComment t.rest)
  return ⟨t.value, e.rest, Nat.lt_of_le_of_lt
    (Nat.le_trans e.notLonger (length_skipComment_le _)) t.shorter⟩

/-- The rest of a header, after its first bracket. -/
def header : Reader Malformed Line
  | '[' :: r => do
    let k ← key r
    let t ← (mark ']').andThen (fun _ => mark ']') k.rest
    return ⟨.row k.value, t.rest, Nat.lt_succ_of_lt (Nat.lt_trans t.shorter k.shorter)⟩
  | cs => do
    let k ← key cs
    let t ← mark ']' k.rest
    return ⟨.table k.value, t.rest, Nat.lt_trans t.shorter k.shorter⟩

/-- A line that says something. -/
def statement : Reader Malformed Line
  | '[' :: r => (header r).map (·.after '[')
  | cs => (binding (value maxDepth) cs).map fun t => t.map fun b => .bind b.1 b.2

/-- One line without the white space in front; empty lines and comments say nothing. -/
def line : Reader Malformed (Option Line)
  | [] => .error .malformed
  | c :: r =>
    if c = '#' then
      (lineEnd (r.dropWhile isText)).map fun e => ⟨none, e.rest, Nat.lt_succ_of_le
        (Nat.le_trans e.notLonger (length_dropWhile_le ..))⟩
    else if c = '\n' || c = '\r' then (newline (c :: r)).map fun t => t.map fun _ => none
    else (filling statement (c :: r)).map fun t => t.map some

def lines (cs : List Char) : Except Malformed (List Line) :=
  if _h : skipBlank cs = [] then .ok []
  else
    match line (skipBlank cs) with
    | .error e => .error e
    | .ok t => (lines t.rest).map (t.value.toList ++ ·)
termination_by cs.length
decreasing_by exact Nat.lt_of_lt_of_le t.shorter (length_skipBlank_le cs)

/-- A byte order mark in front of the text does not count. -/
def skipByteOrderMark : List Char → List Char
  | '\ufeff' :: r => r
  | cs => cs

/-- The entries of a document. -/
def read (text : String) : Except Malformed Entries := do
  let ls ← lines (skipByteOrderMark text.toList)
  match Entries.ofLines ls with
  | some es => return es
  | none => throw .malformed

end TwoPhaseStore.Toml
