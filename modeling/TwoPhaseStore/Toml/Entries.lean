import TwoPhaseStore.Toml.Value

/-!
How the lines of a TOML document add up to its entries.  A name is bound once.  A header opens its
table once; the tables on its way may exist already, and an array of tables stands for its last
table.  A dotted key may only add to tables that are not written out, and only another dotted key
may have made the table it ends in.
-/

namespace TwoPhaseStore.Toml

/-- The names of a key: those of the tables on the way, and the last one. -/
structure DottedKey where
  path : List String
  name : String

inductive Line where
  | bind (key : DottedKey) (value : Toml)
  | table (key : DottedKey)
  /-- One more table of an array. -/
  | row (key : DottedKey)

namespace Entries

/-- Puts a value in place of the one that has its name. -/
def replace (name : String) (v : Toml) (es : Entries) : Entries :=
  es.map fun e => if e.1 = name then (name, v) else e

/-- Binds a dotted key. -/
def bind (key : String) (v : Toml) : List String → Entries → Option Entries
  | [], es =>
    match es.lookup key with
    | none => some (es ++ [(key, v)])
    | some _ => none
  | name :: path, es =>
    match es.lookup name with
    | none => (bind key v path []).map fun t => es ++ [(name, .table .dotted t)]
    | some (.table origin t) =>
      if origin = .written ∨ origin = .implied ∧ path = [] then none
      else (bind key v path t).map fun t => replace name (.table origin t) es
    | some (.tables t earlier) =>
      if path = [] then none
      else (bind key v path t).map fun t => replace name (.tables t earlier) es
    | some _ => none

/-- Changes the table at the end of a path; tables that are missing on the way are implied. -/
def within (f : Entries → Option Entries) : List String → Entries → Option Entries
  | [], es => f es
  | name :: path, es =>
    match es.lookup name with
    | none => (within f path []).map fun t => es ++ [(name, .table .implied t)]
    | some (.table origin t) => (within f path t).map fun t => replace name (.table origin t) es
    | some (.tables t earlier) => (within f path t).map fun t => replace name (.tables t earlier) es
    | some _ => none

/-- Opens a table.  One that was implied so far keeps its entries and moves to the end. -/
def openTable (name : String) (es : Entries) : Option Entries :=
  match es.lookup name with
  | none => some (es ++ [(name, .table .written [])])
  | some (.table .implied t) =>
    some (es.filter (fun e => e.1 ≠ name) ++ [(name, .table .written t)])
  | some _ => none

/-- Opens one more table of an array. -/
def openRow (name : String) (es : Entries) : Option Entries :=
  match es.lookup name with
  | none => some (es ++ [(name, .tables [] [])])
  | some (.tables last earlier) => some (replace name (.tables [] (last :: earlier)) es)
  | some _ => none

end Entries

/-- The entries so far, and the path of the table that is open. -/
structure Progress where
  entries : Entries
  here : List String

def Progress.add (p : Progress) : Line → Option Progress
  | .bind key v =>
    (p.entries.within (Entries.bind key.name v key.path) p.here).map fun es => ⟨es, p.here⟩
  | .table key =>
    (p.entries.within (Entries.openTable key.name) key.path).map fun es =>
      ⟨es, key.path ++ [key.name]⟩
  | .row key =>
    (p.entries.within (Entries.openRow key.name) key.path).map fun es =>
      ⟨es, key.path ++ [key.name]⟩

/-- The entries of a document. -/
def Entries.ofLines (lines : List Line) : Option Entries :=
  (lines.foldlM Progress.add ⟨[], []⟩).map (·.entries)

/-- The entries of an inline table. -/
def Entries.ofBindings (bindings : List (DottedKey × Toml)) : Option Entries :=
  bindings.foldlM (fun es b => Entries.bind b.1.name b.2 b.1.path es) []

end TwoPhaseStore.Toml
