import ClauseStore.Predictor.Model

/-!
The predictor of linear models, one for each scoring context. Models are loaded once, all or none; a
step that fails changes nothing, and a release forgets the batch and its scores.
-/

namespace ClauseStore

/-- The state of a predictor of linear models. -/
structure Linear where
  ready : Bool := false
  models : List Model := []
  batch : List Binary64 := []
  rows : Nat := 0
  scores : List Binary64 := []
  deriving DecidableEq

/-- The first `n` rows of a matrix. -/
def matrixRows : Nat → List Binary64 → List (List Binary64)
  | 0, _ => []
  | n + 1, xs => xs.take columns :: matrixRows n (xs.drop columns)

/-- The whole rows of a matrix; what is left behind the last of them is no row. -/
def wholeRows (xs : List Binary64) : List (List Binary64) := matrixRows (xs.length / columns) xs

namespace Linear

/-- A predictor whose models are loaded already. -/
def ofModels (models : List Model) : Except PredictorError Linear :=
  if models.isEmpty || maxContexts < models.length then .error (.contextIndex models.length)
  else .ok { ready := true, models }

/-- The models of some files, in order; the first failure is the answer. -/
def modelsOf : List ModelFile → Except PredictorError (List Model)
  | [] => .ok []
  | f :: fs => do
    let m ← Model.ofFile f
    let ms ← modelsOf fs
    .ok (m :: ms)

/-- The predictor after its models are loaded. -/
def load (p : Linear) (files : List ModelFile) : Except PredictorError Linear :=
  if !p.ready then .error .notSetup
  else if !p.models.isEmpty then .error .modelsAlreadyLoaded
  else if files.isEmpty || maxContexts < files.length then .error (.contextIndex files.length)
  else (modelsOf files).map fun models => { p with models }

/-- The predictor after a batch is submitted. -/
def submit (p : Linear) (matrix : List Binary64) (rows : Nat) : Except PredictorError Linear :=
  if p.models.isEmpty then .error .modelsNotLoaded
  else if matrix.length ≠ rows * columns then .error .columnMismatch
  else .ok { p with batch := matrix, rows }

/-- The predictor after a prediction in a context. -/
def predict (p : Linear) (rows context : Nat) : Except PredictorError Linear :=
  match p.models[context]? with
  | none => .error (.contextIndex context)
  | some m =>
    if rows ≠ p.rows then .error (.rowCount rows p.rows)
    else .ok { p with scores := (wholeRows p.batch).map m.score }

/-- Takes a step that either changes the state or fails and changes nothing. -/
def attempt (step : Linear → Except PredictorError Linear) : Attempt Linear Unit := fun p =>
  match step p with
  | .ok p => (.ok (), p)
  | .error e => (.error e, p)

instance : Predictor Linear where
  setup := attempt fun p => .ok { p with ready := true }
  load files := attempt fun p => p.load files
  submit matrix rows := attempt fun p => p.submit matrix rows
  predict rows context := do
    attempt fun p => p.predict rows context
    return (← get).scores.length
  score? p i := p.scores[i]?
  finish p := { p with batch := [], rows := 0, scores := [] }

end Linear

end ClauseStore
