import ClauseStore.Predictor
import ClauseStore.Binary64.Reader
import ClauseStore.Text.Blank

/-!
Linear models: a weight for each feature column, and a bias. A model is written as thirteen numbers
between blanks, the bias last, and from a number sign to the end of its line a text is a comment. A
feature that is missing adds nothing to a score.
-/

namespace ClauseStore

/-- A weight for each column, and a bias. -/
structure Model where
  weights : List Binary64
  bias : Binary64
  deriving DecidableEq

namespace Model

/-- A line without its comment. -/
def uncommented (line : List Char) : List Char := line.takeWhile (· != '#')

/-- The words of a model text, comments left out. -/
def words (text : String) : List (List Char) :=
  (Text.lines text.toList).flatMap fun line => Text.words (uncommented line)

/-- The numbers that some words write; the first word that writes none is the fault. -/
def numbers : List (List Char) → Except ModelFault (List Binary64)
  | [] => .ok []
  | w :: ws =>
    match Binary64.read? w with
    | none => .error (.notANumber (String.ofList w))
    | some x => (numbers ws).map (x :: ·)

/-- The model of some numbers. -/
def ofNumbers (xs : List Binary64) : Except ModelFault Model :=
  if xs.length = columns + 1 then .ok ⟨xs.take columns, xs.getD columns .zero⟩
  else .error (.wrongCount (columns + 1) xs.length)

/-- The model that a text writes. -/
def parse (text : String) : Except ModelFault Model := do ofNumbers (← numbers (words text))

/-- Adds one weighted feature to a sum; a missing feature adds nothing. -/
def accumulate (sum : Binary64) (term : Binary64 × Binary64) : Binary64 :=
  if term.2.isNaN then sum else sum + term.1 * term.2

/-- The score of a row: the bias and the weighted features, summed in the order of the columns. -/
def score (m : Model) (row : List Binary64) : Binary64 := (m.weights.zip row).foldl accumulate m.bias

/-- The model in a file. -/
def ofFile : ModelFile → Except PredictorError Model
  | .failing fault => .error (.stream fault)
  | .holding bytes =>
    match String.fromUTF8? bytes with
    | none => .error (.stream .invalidData)
    | some text => (parse text).mapError .model

end Model

end ClauseStore
