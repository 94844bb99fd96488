import StackCert.Word

/-!
# Contexts

The context is the read-only input of an evaluation: columns of words, a cell
addressed by its column and its row. Bounds declare the shape of context that a
program may address.
-/

namespace StackCert

/-- The number of rows that may be addressed in each column. -/
structure Bounds where
  rows : List Nat := []
deriving DecidableEq, Repr

/-- Columns of words, given to an evaluation from outside. -/
structure Context where
  columns : List (List Word) := []
deriving DecidableEq, Repr

namespace Context

/-- The word in a cell, if the cell exists. -/
def get? (context : Context) (column row : Nat) : Option Word :=
  match context.columns[column]? with
  | none => none
  | some words => words[row]?

/-- The tightest bounds that a context satisfies. -/
def bounds (context : Context) : Bounds := ⟨context.columns.map List.length⟩

end Context

namespace Bounds

/-- Whether a cell may be addressed. -/
def contains (bounds : Bounds) (column row : Nat) : Bool :=
  match bounds.rows[column]? with
  | none => false
  | some rows => row < rows

/-- Whether a context has every cell that may be addressed. -/
def satisfiedBy (bounds : Bounds) (context : Context) : Bool :=
  bounds.rows.length ≤ context.columns.length &&
    (bounds.rows.zip context.columns).all fun (rows, column) => rows ≤ column.length

end Bounds

end StackCert
