import ClauseStore.Binary64
import ClauseStore.Clause

/-!
Events: what a store tells its listeners about the birth and the death of clauses, and about the
features of the clauses it exports.
-/

namespace ClauseStore

/-- Something that listeners are told. -/
inductive Event where
  /-- a clause of the formula was stored -/
  | original (identity : UInt32) (clause : Clause)
  /-- another clause came to be, of some source -/
  | addition (identity : UInt32) (clause : Clause) (source : Source)
  /-- a clause was deleted -/
  | deletion (identity : UInt32) (clause : Clause)
  /-- the features of a redundant clause -/
  | features (identity : UInt32) (row : List Binary64)
  deriving DecidableEq

end ClauseStore
