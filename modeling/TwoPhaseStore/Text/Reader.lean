/-!
Readers of text.  A reader takes something from the front of a list of characters, or fails; what it
leaves is shorter than what it was given, so a loop of readers ends.
-/

namespace TwoPhaseStore.Text

/-- What a reader took from `cs`, and what it left. -/
structure Taken (α : Type) (cs : List Char) where
  value : α
  rest : List Char
  shorter : rest.length < cs.length

/-- What was taken from `cs`, maybe nothing, and what is left. -/
structure Scanned (α : Type) (cs : List Char) where
  value : α
  rest : List Char
  notLonger : rest.length ≤ cs.length

theorem length_dropWhile_le (p : Char → Bool) (cs : List Char) :
    (cs.dropWhile p).length ≤ cs.length := (List.dropWhile_suffix p).length_le

abbrev Reader (ε α : Type) := (cs : List Char) → Except ε (Taken α cs)

variable {ε α β : Type}

/-- Something taken after `cs` was already cut down to `ds`. -/
def Taken.within {cs ds : List Char} (t : Taken α ds) (h : ds.length ≤ cs.length) : Taken α cs :=
  ⟨t.value, t.rest, Nat.lt_of_lt_of_le t.shorter h⟩

def Taken.map {cs : List Char} (f : α → β) (t : Taken α cs) : Taken β cs :=
  ⟨f t.value, t.rest, t.shorter⟩

/-- One character was taken, and it says `a`. -/
def Taken.one (a : α) (c : Char) (r : List Char) : Taken α (c :: r) := ⟨a, r, Nat.lt_succ_self _⟩

/-- What was taken behind a character, together with it. -/
def Taken.after {r : List Char} (c : Char) (t : Taken α r) : Taken α (c :: r) :=
  t.within (Nat.le_succ _)

/-- What was taken behind something else, together with it. -/
def Taken.behind {cs : List Char} (t : Taken β cs) (u : Taken α t.rest) : Taken α cs :=
  u.within (Nat.le_of_lt t.shorter)

/-- Nothing was taken, and that says `a`. -/
def Scanned.none (a : α) (cs : List Char) : Scanned α cs := ⟨a, cs, Nat.le_refl _⟩

/-- What was taken, for those who do not ask for progress. -/
def Taken.scanned {cs : List Char} (t : Taken α cs) : Scanned α cs :=
  ⟨t.value, t.rest, Nat.le_of_lt t.shorter⟩

/-! ## Reading one thing after another -/

/-- Reads `a`, and then what it asks for. -/
def Reader.andThen (a : Reader ε α) (b : α → Reader ε β) : Reader ε β := fun cs => do
  let t ← a cs
  let u ← b t.value t.rest
  return t.behind u

/-- Reads `a`, or `b` where `a` does not stand. -/
def Reader.orElse (a b : Reader ε α) : Reader ε α := fun cs =>
  match a cs with
  | .ok t => .ok t
  | .error _ => b cs

/-- Reads `a`, and `b` behind it if it stands there. -/
def Reader.maybe (a b : Reader ε Unit) : Reader ε Unit := fun cs => do
  let t ← a cs
  match b t.rest with
  | .ok u => return t.behind u
  | .error _ => return t

/-- Some items in a row, and whether they are the last ones. -/
structure Piece (α : Type) where
  items : List α
  last : Bool

/-- Reads behind something that is skipped. -/
def Reader.skipping {skip : List Char → List Char} (hs : ∀ cs, (skip cs).length ≤ cs.length)
    (read : Reader ε α) : Reader ε α := fun cs => (read (skip cs)).map (·.within (hs cs))

/-- Reads pieces up to the last one. -/
def pieces (piece : Reader ε (Piece α)) (cs : List Char) : Except ε (Taken (List α) cs) :=
  match piece cs with
  | .error e => .error e
  | .ok ⟨p, r, h⟩ =>
    if p.last then .ok ⟨p.items, r, h⟩
    else
      match pieces piece r with
      | .error e => .error e
      | .ok t => .ok ((t.map (p.items ++ ·)).within (Nat.le_of_lt h))
termination_by cs.length

/-! ## Single characters and words -/

/-- The two ways in which a text can disappoint a reader. -/
class ReadError (ε : Type) where
  /-- The text ends where something should stand. -/
  ended : ε
  /-- Something else stands there. -/
  unexpected : ε

/-- What was scanned behind a character, together with it. -/
def Scanned.after {cs : List Char} (c : Char) (t : Scanned α cs) : Taken α (c :: cs) :=
  ⟨t.value, t.rest, Nat.lt_succ_of_le t.notLonger⟩

/-- A character that must stand here. -/
def mark [ReadError ε] (wanted : Char) : Reader ε Unit
  | [] => .error ReadError.ended
  | c :: r => if c = wanted then .ok (.one () c r) else .error ReadError.unexpected

/-- Whether a list goes on behind a comma, or is closed by `close`. -/
def goesOn [ReadError ε] (close : Char) : Reader ε Bool
  | [] => .error ReadError.ended
  | c :: r =>
    if c = ',' then .ok (.one true c r)
    else if c = close then .ok (.one false c r)
    else .error ReadError.unexpected

/-- The characters of a word that stands for `a`. -/
def word [ReadError ε] (a : α) : List Char → (cs : List Char) → Except ε (Scanned α cs)
  | [], cs => .ok (.none a cs)
  | _ :: _, [] => .error ReadError.ended
  | w :: ws, c :: cs =>
    if c = w then (word a ws cs).map fun t => ⟨t.value, t.rest, Nat.le_succ_of_le t.notLonger⟩
    else .error ReadError.unexpected

/-! ## Readers without their bounds -/

/-- A reader without the fact that it makes progress. -/
def Reader.run (r : Reader ε α) (cs : List Char) : Except ε (α × List Char) :=
  match r cs with
  | .ok t => .ok (t.value, t.rest)
  | .error e => .error e

theorem Reader.run_eq_ok {r : Reader ε α} {cs rest : List Char} {a : α} :
    r.run cs = .ok (a, rest) ↔ ∃ t, r cs = .ok t ∧ t.value = a ∧ t.rest = rest := by
  unfold Reader.run
  cases r cs <;> simp

theorem Reader.run_eq_error {r : Reader ε α} {cs : List Char} {e : ε} :
    r.run cs = .error e ↔ r cs = .error e := by
  unfold Reader.run
  cases r cs <;> simp

/-- Behind what is skipped it reads as it does by itself. -/
theorem Reader.run_skipping {skip : List Char → List Char}
    (hs : ∀ cs, (skip cs).length ≤ cs.length) (read : Reader ε α) (cs : List Char) :
    (read.skipping hs).run cs = read.run (skip cs) := by
  unfold Reader.run Reader.skipping
  cases read (skip cs) <;> rfl

/-! ## What readers give -/

/-- Whatever a reader gives has the property `P`. -/
def Reader.Gives (read : Reader ε α) (P : α → Prop) : Prop :=
  ∀ (cs : List Char) (t : Taken α cs), read cs = .ok t → P t.value

/-- So has what it gives behind something that is skipped. -/
theorem Reader.Gives.skipping {skip : List Char → List Char}
    (hs : ∀ cs, (skip cs).length ≤ cs.length) {read : Reader ε α} {P : α → Prop}
    (h : read.Gives P) : (read.skipping hs).Gives P := by
  intro cs t ht
  unfold Reader.skipping at ht
  cases hr : read (skip cs) with
  | error e =>
    rw [hr] at ht
    cases ht
  | ok u =>
    rw [hr] at ht
    cases ht
    exact h _ u hr

/-! ## Digits -/

def isDigit (c : Char) : Bool := '0' ≤ c && c ≤ '9'

/-- The value of a digit of a base up to sixteen. -/
def digitValue (c : Char) : Nat :=
  if c ≤ '9' then c.toNat - '0'.toNat
  else if c ≤ 'F' then c.toNat - 'A'.toNat + 10
  else c.toNat - 'a'.toNat + 10

def isHexDigit (c : Char) : Bool :=
  isDigit c || 'a' ≤ c && c ≤ 'f' || 'A' ≤ c && c ≤ 'F'

/-- The number that digits of a base spell. -/
def ofDigits (base : Nat) (ds : List Char) : Nat :=
  ds.foldl (fun n d => base * n + digitValue d) 0

end TwoPhaseStore.Text
