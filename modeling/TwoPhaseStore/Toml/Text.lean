import TwoPhaseStore.Text.Reader
import TwoPhaseStore.Toml.Entries

/-!
White space, comments, strings and keys of TOML.
-/

namespace TwoPhaseStore.Toml

open Text

instance : ReadError Malformed := ⟨.malformed, .malformed⟩

/-! ## White space -/

def isBlank (c : Char) : Bool := c = ' ' || c = '\t'

def skipBlank (cs : List Char) : List Char := cs.dropWhile isBlank

/-- A character that may stand in comments and strings: any but the control characters. -/
def isText (c : Char) : Bool := c = '\t' || ' ' ≤ c && c ≠ '\x7f'

theorem length_skipBlank_le (cs : List Char) : (skipBlank cs).length ≤ cs.length :=
  length_dropWhile_le ..

/-- The end of a line. -/
def newline : Reader Malformed Unit
  | '\n' :: r => .ok (.one () '\n' r)
  | '\r' :: '\n' :: r => .ok ((Taken.one () '\n' r).after '\r')
  | _ => .error .malformed

/-- Goes over white space and ends of lines. -/
def skipLines : List Char → List Char
  | '\r' :: '\n' :: r => skipLines r
  | c :: r => if isBlank c || c = '\n' then skipLines r else c :: r
  | [] => []

theorem length_skipLines_le (cs : List Char) : (skipLines cs).length ≤ cs.length := by
  fun_induction skipLines cs <;> simp_all <;> omega

/-- Goes over white space, ends of lines and comments. -/
def skipSpace (cs : List Char) : List Char :=
  match _h : skipLines cs with
  | '#' :: r => skipSpace (r.dropWhile isText)
  | ds => ds
termination_by cs.length
decreasing_by
  have h1 := length_skipLines_le cs
  have h2 : (r.dropWhile isText).length ≤ r.length := length_dropWhile_le ..
  rw [_h, List.length_cons] at h1
  omega

theorem length_skipSpace_le (cs : List Char) : (skipSpace cs).length ≤ cs.length := by
  fun_induction skipSpace cs with
  | case1 cs r h ih =>
    have h1 := length_skipLines_le cs
    have h2 : (r.dropWhile isText).length ≤ r.length := length_dropWhile_le ..
    rw [h, List.length_cons] at h1
    omega
  | case2 cs => exact length_skipLines_le cs

/-- What may stand behind the last word of a line: white space and a comment. -/
def skipComment (cs : List Char) : List Char :=
  match skipBlank cs with
  | '#' :: r => r.dropWhile isText
  | ds => ds

theorem length_skipComment_le (cs : List Char) : (skipComment cs).length ≤ cs.length := by
  have h := length_skipBlank_le cs
  unfold skipComment
  split
  · next r hr =>
    have : (r.dropWhile isText).length ≤ r.length := length_dropWhile_le ..
    rw [hr, List.length_cons] at h
    omega
  · exact h

/-- Reads after white space. -/
def afterBlank {α : Type} (read : Reader Malformed α) : Reader Malformed α :=
  read.skipping length_skipBlank_le

/-- Reads after white space, ends of lines and comments. -/
def afterSpace {α : Type} (read : Reader Malformed α) : Reader Malformed α :=
  read.skipping length_skipSpace_le

/-! ## Strings -/

/-- The character with this code point, in as many hexadecimal digits as are asked for. -/
def codePoint (digits : Nat) : Reader Malformed Char := fun cs =>
  let ds := cs.take digits
  let n := ofDigits 16 ds
  if h : ds.length = digits ∧ 0 < digits ∧ ds.all isHexDigit ∧ n.isValidChar then
    .ok ⟨Char.ofNat n, cs.drop digits, by
      have := h.1; simp only [ds, List.length_take, List.length_drop] at *; omega⟩
  else .error .malformed

/-- The rest of an escape, after the backslash. -/
def escape : Reader Malformed Char
  | [] => .error .malformed
  | c :: r =>
    let one (d : Char) : Except Malformed (Taken Char (c :: r)) := .ok (.one d c r)
    if c = 'b' then one '\x08'
    else if c = 't' then one '\t'
    else if c = 'n' then one '\n'
    else if c = 'f' then one '\x0c'
    else if c = 'r' then one '\r'
    else if c = '"' then one '"'
    else if c = '\\' then one '\\'
    else if c = 'u' then (codePoint 4 r).map (·.after c)
    else if c = 'U' then (codePoint 8 r).map (·.after c)
    else .error .malformed

/-- One character of a string on one line, or its closing quote.  Only double quotes allow
escapes. -/
def linePiece (quote : Char) : Reader Malformed (Piece Char)
  | [] => .error .malformed
  | c :: r =>
    if c = quote then .ok (.one ⟨[], true⟩ c r)
    else if c = '\\' ∧ quote = '"' then
      (escape r).map fun t => (t.map fun d => ⟨[d], false⟩).after c
    else if isText c then .ok (.one ⟨[c], false⟩ c r)
    else .error .malformed

/-- A backslash at the end of a line, after which white space and empty lines do not count. -/
def lineContinuation : Reader Malformed Unit := fun cs => do
  let t ← afterBlank newline cs
  return ⟨(), skipLines t.rest, Nat.lt_of_le_of_lt (length_skipLines_le _) t.shorter⟩

/-- Some characters of a string over several lines.  It is closed by three quotes, in front of which
up to two more may belong to the string. -/
def blockPiece (quote : Char) : Reader Malformed (Piece Char)
  | [] => .error .malformed
  | c :: r =>
    if c = quote then
      let more := (r.takeWhile (· = quote)).length
      if more < 2 then
        .ok ⟨⟨List.replicate (more + 1) quote, false⟩, r.drop more, by
          simp only [List.length_drop, List.length_cons]; omega⟩
      else
        let inner := min (more - 2) 2
        .ok ⟨⟨List.replicate inner quote, true⟩, r.drop (inner + 2), by
          simp only [List.length_drop, List.length_cons]; omega⟩
    else if c = '\\' ∧ quote = '"' then
      match lineContinuation r with
      | .ok t => .ok ((t.map fun _ => ⟨[], false⟩).after c)
      | .error _ => (escape r).map fun t => (t.map fun d => ⟨[d], false⟩).after c
    else if isText c then .ok (.one ⟨[c], false⟩ c r)
    else (newline (c :: r)).map fun t => t.map fun _ => ⟨['\n'], false⟩

/-- A string over several lines, after its opening quotes.  An end of line right there does not
count. -/
def block (quote : Char) : Reader Malformed (List Char) := fun cs =>
  match newline cs with
  | .ok t => (pieces (blockPiece quote) t.rest).map t.behind
  | .error _ => pieces (blockPiece quote) cs

/-- A string on one line, with its quotes. -/
def lineString : Reader Malformed String
  | [] => .error .malformed
  | c :: r =>
    if c = '"' || c = '\'' then
      (pieces (linePiece c) r).map fun t => (t.map String.ofList).after c
    else .error .malformed

/-- A string with its quotes; three of them open one over several lines. -/
def anyString : Reader Malformed String
  | a :: b :: c :: r =>
    if a = b && b = c && (a = '"' || a = '\'') then
      (block a r).map fun t => (t.map String.ofList).within (by simp only [List.length_cons]; omega)
    else lineString (a :: b :: c :: r)
  | cs => lineString cs

/-! ## Keys -/

def isBareKey (c : Char) : Bool :=
  isDigit c || 'a' ≤ c && c ≤ 'z' || 'A' ≤ c && c ≤ 'Z' || c = '-' || c = '_'

/-- One name, bare or quoted. -/
def keyName : Reader Malformed String
  | [] => .error .malformed
  | c :: r =>
    if isBareKey c then
      .ok ⟨String.ofList (c :: r.takeWhile isBareKey), r.dropWhile isBareKey,
        Nat.lt_succ_of_le (length_dropWhile_le ..)⟩
    else lineString (c :: r)

/-- A name of a dotted key, the last one if no dot follows. -/
def keyPiece : Reader Malformed (Piece String) := fun cs => do
  let t ← afterBlank keyName cs
  have hle := length_skipBlank_le t.rest
  match h : skipBlank t.rest with
  | '.' :: r => return ⟨⟨[t.value], false⟩, r, by
      have := t.shorter; rw [h, List.length_cons] at hle; omega⟩
  | r => return ⟨⟨[t.value], true⟩, r, by have := t.shorter; rw [h] at hle; omega⟩

/-- A key, with white space around its names. -/
def key : Reader Malformed DottedKey := fun cs => do
  let t ← pieces keyPiece cs
  if maxDepth < t.value.length then throw .malformed
  match t.value.reverse with
  | [] => throw .malformed
  | name :: path => return t.map fun _ => ⟨path.reverse, name⟩

end TwoPhaseStore.Toml
