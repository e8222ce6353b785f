import TwoPhaseStore.Json.Value

/-!
The compact text of a JSON value: no white space, and in strings escapes only for the quote, the
backslash and the control characters.
-/

namespace TwoPhaseStore.Json

/-- Four hexadecimal digits. -/
def hex4 (n : Nat) : List Char :=
  let ds := Nat.toDigits 16 n
  List.replicate (4 - ds.length) '0' ++ ds

def escapeChar (c : Char) : List Char :=
  if c = '"' then ['\\', '"']
  else if c = '\\' then ['\\', '\\']
  else if c = '\x08' then ['\\', 'b']
  else if c = '\t' then ['\\', 't']
  else if c = '\n' then ['\\', 'n']
  else if c = '\x0c' then ['\\', 'f']
  else if c = '\r' then ['\\', 'r']
  else if c < ' ' then ['\\', 'u'] ++ hex4 c.toNat
  else [c]

def renderString (s : String) : List Char := '"' :: s.toList.flatMap escapeChar ++ ['"']

def renderInt (n : Int) : List Char :=
  if n < 0 then '-' :: Nat.toDigits 10 n.natAbs else Nat.toDigits 10 n.natAbs

mutual

def render : Json → List Char
  | null => "null".toList
  | bool true => "true".toList
  | bool false => "false".toList
  | int n => renderInt n
  | float x => (Decimal.text floatStyle x).toList
  | str s => renderString s
  | arr [] => ['[', ']']
  | arr (v :: vs) => '[' :: render v ++ renderItems vs ++ [']']
  | obj [] => ['\x7b', '\x7d']
  | obj (m :: ms) => '\x7b' :: renderMember m ++ renderMembers ms ++ ['\x7d']

/-- The items after the first. -/
def renderItems : List Json → List Char
  | [] => []
  | v :: vs => ',' :: render v ++ renderItems vs

def renderMember : String × Json → List Char
  | (name, v) => renderString name ++ ':' :: render v

/-- The members after the first. -/
def renderMembers : List (String × Json) → List Char
  | [] => []
  | m :: ms => ',' :: renderMember m ++ renderMembers ms

end

end TwoPhaseStore.Json
