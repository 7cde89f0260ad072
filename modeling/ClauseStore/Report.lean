/-!
The outcome of a reduction.
-/

namespace ClauseStore

/-- What a reduction came to. -/
inductive Report where
  /-- some redundant clauses, perhaps none, were removed, and the arena was compacted -/
  | reduced (deleted : Nat)
  /-- no clause was a candidate for removal -/
  | nothingToReduce
  /-- the search found the formula unsatisfiable -/
  | unsatisfiable
  deriving DecidableEq

/-- The text of a report. -/
def Report.text : Report → String
  | .reduced deleted => "Reduced (" ++ toString deleted ++ " deleted)"
  | .nothingToReduce => "Nothing to reduce"
  | .unsatisfiable => "Unsatisfiable"

/-- The exit code of a report: twenty stands for unsatisfiable. -/
def Report.code : Report → Nat
  | .unsatisfiable => 20
  | _ => 0

end ClauseStore
