import ClauseStore.Text.Quoted

/-!
The ways in which an operation can fail. Each part of the library has its own causes, `Error` joins
them, and `Error.message` is the one place where their wording is kept.
-/

namespace ClauseStore

/-- Failures of the arena. -/
inductive ArenaError where
  /-- a record would end beyond the offsets that a reference can hold -/
  | exhausted
  /-- a reference is not the aligned offset of a header within the arena -/
  | invalidReference
  deriving DecidableEq

/-- Failures of storing or revising a clause. -/
inductive ClauseError where
  | emptyClause
  /-- units are kept by the search -/
  | unitClause
  /-- a literal occurs twice -/
  | duplicateLiteral
  /-- an atom occurs with both polarities -/
  | tautology
  /-- zero is no literal -/
  | zeroLiteral
  /-- the size field cannot hold the size -/
  | tooLarge
  /-- all identities or all offsets are used -/
  | storageExhausted
  | alreadyGarbage
  /-- the clause is the reason for an assignment -/
  | reasonClause
  /-- the size asked for is below three or not below the size at hand -/
  | invalidShrink
  | notRedundant
  /-- a watch or a record is not where it should be -/
  | missing
  deriving DecidableEq

/-- Why a file or a sink could not be used. -/
inductive StreamFault where
  | notFound
  | permissionDenied
  /-- the bytes are not text -/
  | invalidData
  | storageFull
  | brokenPipe
  /-- any other kind, by its name -/
  | other (name : String)
  deriving DecidableEq

/-- Why a text is no model. -/
inductive ModelFault where
  | notANumber (word : String)
  | wrongCount (expected found : Nat)
  /-- a fault in the words of another predictor -/
  | described (text : String)
  deriving DecidableEq

/-- Failures at the boundary with a predictor. -/
inductive PredictorError where
  | notSetup
  | modelsAlreadyLoaded
  | modelsNotLoaded
  /-- no scoring context has this index -/
  | contextIndex (index : Nat)
  /-- the matrix is not a whole number of rows -/
  | columnMismatch
  /-- the count of scores is not the count of rows -/
  | rowCount (expected found : Nat)
  | model (fault : ModelFault)
  | stream (fault : StreamFault)
  deriving DecidableEq

/-- Failures of the table of usage statistics. -/
inductive TableError where
  /-- a row and its clause have different identities -/
  | identityMismatch
  /-- a clause is linked to a row that is not in the table -/
  | missingRow
  deriving DecidableEq

/-- A failure of any part. -/
inductive Error where
  | arena (cause : ArenaError)
  | clause (cause : ClauseError)
  | predictor (cause : PredictorError)
  | table (cause : TableError)
  /-- the phase of the context does not allow the operation -/
  | invalidState
  deriving DecidableEq

/-- How an arena failure shows in the operations on clauses. -/
def ClauseError.ofArena : ArenaError → ClauseError
  | .exhausted => .storageExhausted
  | .invalidReference => .missing

namespace ArenaError

/-- The name of an arena failure. -/
def text : ArenaError → String
  | .exhausted => "Exhausted"
  | .invalidReference => "InvalidReference"

end ArenaError

namespace ClauseError

/-- The name of a clause failure. -/
def text : ClauseError → String
  | .emptyClause => "EmptyClause"
  | .unitClause => "UnitClause"
  | .duplicateLiteral => "DuplicateLiteral"
  | .tautology => "Tautology"
  | .zeroLiteral => "ZeroLiteral"
  | .tooLarge => "TooLarge"
  | .storageExhausted => "StorageExhausted"
  | .alreadyGarbage => "AlreadyGarbage"
  | .reasonClause => "ReasonClause"
  | .invalidShrink => "InvalidShrink"
  | .notRedundant => "NotRedundant"
  | .missing => "Missing"

end ClauseError

namespace StreamFault

/-- The name of a stream fault. -/
def text : StreamFault → String
  | .notFound => "NotFound"
  | .permissionDenied => "PermissionDenied"
  | .invalidData => "InvalidData"
  | .storageFull => "StorageFull"
  | .brokenPipe => "BrokenPipe"
  | .other name => name

end StreamFault

namespace ModelFault

/-- The wording of a model fault. -/
def text : ModelFault → String
  | .notANumber word => "Not a number: " ++ word
  | .wrongCount expected found =>
    "Expected " ++ toString expected ++ " values, found " ++ toString found
  | .described text => text

end ModelFault

namespace PredictorError

/-- The text of a predictor failure: its name, with what it carries. -/
def text : PredictorError → String
  | .notSetup => "NotSetup"
  | .modelsAlreadyLoaded => "ModelsAlreadyLoaded"
  | .modelsNotLoaded => "ModelsNotLoaded"
  | .contextIndex index => "ContextIndex(" ++ toString index ++ ")"
  | .columnMismatch => "ColumnMismatch"
  | .rowCount expected found =>
    "RowCount \x7b expected: " ++ toString expected ++ ", found: " ++ toString found ++ " \x7d"
  | .model fault => "Model(" ++ Text.quoted fault.text ++ ")"
  | .stream fault => "Io(" ++ fault.text ++ ")"

end PredictorError

namespace TableError

/-- The name of a table failure. -/
def text : TableError → String
  | .identityMismatch => "IdentityMismatch"
  | .missingRow => "MissingRow"

end TableError

/-- The message of a failure: the part that failed, and its cause. -/
def Error.message : Error → String
  | .arena cause => "arena: " ++ cause.text
  | .clause cause => "clause database: " ++ cause.text
  | .predictor cause => "predictor: " ++ cause.text
  | .table cause => "side table: " ++ cause.text
  | .invalidState => "invalid state"

end ClauseStore
