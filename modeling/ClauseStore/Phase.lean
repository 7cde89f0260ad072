/-!
The phases of a context, from configuration to a known outcome.
-/

namespace ClauseStore

/-- What a context is ready for. -/
inductive Phase where
  | configuration
  | input
  /-- some reduction has taken place -/
  | solving
  /-- the formula is known to be unsatisfiable -/
  | unsatisfiable
  deriving DecidableEq

/-- The name of a phase. -/
def Phase.text : Phase → String
  | .configuration => "Configuration"
  | .input => "Input"
  | .solving => "Solving"
  | .unsatisfiable => "Unsatisfiable"

end ClauseStore
