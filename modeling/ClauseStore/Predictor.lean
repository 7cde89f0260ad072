import ClauseStore.Binary64
import ClauseStore.Error

/-!
The boundary with a predictor, which scores redundant clauses by their features. A predictor is set
up, loads a model for each scoring context, and then takes part in rounds: a batch of rows is
submitted, a prediction is made in one context, the scores are read, and the batch is released.
Greater scores stand for more useful clauses; a feature that is missing is a NaN.
-/

namespace ClauseStore

/-- The greatest count of scoring contexts. -/
def maxContexts : Nat := 3

/-- The version of the feature columns. -/
def schemaVersion : Nat := 1

/-- The names of the feature columns, in order. -/
def columnNames : List String :=
  ["prop_rank", "uip_rank", "props_rank", "uips_rank", "sum_props", "sum_uips",
    "disc_props_fast", "disc_props_slow", "disc_uips_fast", "disc_uips_slow",
    "glue", "age_since_touch"]

/-- The count of feature columns. -/
def columns : Nat := 12

/-- What a path to a model leads to. -/
inductive ModelFile where
  /-- the path cannot be read -/
  | failing (fault : StreamFault)
  | holding (bytes : ByteArray)

/-- A step of a predictor, which keeps its state also where the step fails. -/
abbrev Attempt (π α : Type) := ExceptT PredictorError (StateM π) α

/-- What a type of predictor states offers. -/
class Predictor (π : Type) where
  /-- prepares the scoring contexts -/
  setup : Attempt π Unit
  /-- loads a model for each context, in order -/
  load : List ModelFile → Attempt π Unit
  /-- hands over a matrix of some rows, row by row -/
  submit : List Binary64 → Nat → Attempt π Unit
  /-- scores a batch of some rows in a context and returns the count of scores -/
  predict : Nat → Nat → Attempt π Nat
  /-- the score of a row of the batch -/
  score? : π → Nat → Option Binary64
  /-- releases the batch -/
  finish : π → π

end ClauseStore
