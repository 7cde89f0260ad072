import ClauseStore.Literal
import ClauseStore.Sorting

/-!
Clauses: lists of literals, read as the disjunction of their members, with their column text and
their order by the indices of the literals.
-/

namespace ClauseStore

/-- A clause, by its literals in order. -/
abbrev Clause := List Literal

/-- Where a stored clause came from. -/
inductive Source where
  /-- read from the formula -/
  | original
  /-- part of the content of the formula, though not read from it -/
  | irredundant
  /-- learned, and entailed by the formula -/
  | redundant
  deriving DecidableEq

/-- The name of a source. -/
def Source.text : Source → String
  | .original => "original"
  | .irredundant => "irredundant"
  | .redundant => "redundant"

/-- One literal of the column text: its sign or a blank, its atom, and a blank. -/
def Literal.column (l : Literal) : String :=
  (if l.positive then " " else "-") ++ toString l.atom ++ " "

namespace Clause

/-- The columns of the literals of a clause, one after the other. -/
def columns (c : Clause) : String := String.join (c.map Literal.column)

/-- The column text of a clause: closed by a zero, or open without its last blank. -/
def dimacs (c : Clause) (closed : Bool) : String :=
  if closed then columns c ++ "0" else String.ofList (columns c).toList.dropLast

/-- The literals of a clause in the order of their indices. -/
def sortedByIndex (c : Clause) : Clause :=
  stableSort (fun a b => decide (a.index ≤ b.index)) c

/-- The literals of a clause, separated by single blanks and each after one. -/
def spaced (c : Clause) : String := String.join (c.map fun l => " " ++ l.text)

end Clause

end ClauseStore
