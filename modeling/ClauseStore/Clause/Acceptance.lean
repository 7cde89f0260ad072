import ClauseStore.Clause
import ClauseStore.Error

/-!
Which lists of literals a store accepts: at least two literals, not more than a record can count,
none of atom zero, and no atom twice. Neighbours in the order of the indices decide the last rule.
-/

namespace ClauseStore.Clause

/-- The greatest size of a clause: what a word can count, less the words of a header. -/
def maxSize : Nat := 4294967287

/-- The first clash of neighbouring literals: a literal twice, or an atom with both polarities. -/
def clash? : List Literal → Option ClauseError
  | a :: b :: rest =>
    if a = b then some .duplicateLiteral
    else if a.atom = b.atom then some .tautology
    else clash? (b :: rest)
  | _ => none

/-- Why a list of literals of a fitting size is refused, if it is. -/
def literalFault? (c : Clause) : Option ClauseError :=
  if c.any fun l => l.atom == 0 then some .zeroLiteral
  else clash? c.sortedByIndex

/-- Why a list of literals is refused, if it is. -/
def fault? (c : Clause) : Option ClauseError :=
  if c.length = 0 then some .emptyClause
  else if c.length = 1 then some .unitClause
  else if maxSize < c.length then some .tooLarge
  else literalFault? c

end ClauseStore.Clause
