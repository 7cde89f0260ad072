import ClauseStore.Clause

/-!
How often each literal occurs in irredundant clauses. The counts are indexed by the dense index of
the literals.
-/

namespace ClauseStore

/-- Counts of occurrences, by the index of the literal. -/
structure Occurrences where
  counts : Array Nat := #[]
  deriving DecidableEq

/-- An array in which an index is in bounds, with `fill` at the new places. -/
def widened {α : Type} (xs : Array α) (index : Nat) (fill : α) : Array α :=
  xs ++ Array.replicate (index + 1 - xs.size) fill

namespace Occurrences

/-- The count of a literal. -/
def count (o : Occurrences) (l : Literal) : Nat := o.counts.getD l.index 0

/-- Counts one more occurrence of a literal. -/
def addOne (o : Occurrences) (l : Literal) : Occurrences :=
  ⟨(widened o.counts l.index 0).modify l.index (· + 1)⟩

/-- Counts one occurrence less of a literal, if there is one. -/
def removeOne (o : Occurrences) (l : Literal) : Occurrences :=
  ⟨o.counts.modify l.index (· - 1)⟩

/-- Counts an occurrence of each literal. -/
def add (o : Occurrences) (c : Clause) : Occurrences := c.foldl addOne o

/-- Ends an occurrence of each literal. -/
def remove (o : Occurrences) (c : Clause) : Occurrences := c.foldl removeOne o

end Occurrences

end ClauseStore
