import ClauseStore.Arena
import ClauseStore.Report
import ClauseStore.Statistics.Row

/-!
Log messages, as data: what is reported, by which part, at which level. `Message.text` is the one
place where their wording is kept.
-/

namespace ClauseStore

/-- How much a message matters. -/
inductive Level where
  | error
  | warn
  | info
  | debug
  | trace
  deriving DecidableEq

/-- How far down a level is; a log at some level holds the messages at least as far up. -/
def Level.depth : Level → Nat
  | .error => 1
  | .warn => 2
  | .info => 3
  | .debug => 4
  | .trace => 5

/-- The part that a message is about. -/
inductive Topic where
  | arena
  | clauses
  | compaction
  | configuration
  | prediction
  | reduction
  | statistics
  | watches
  deriving DecidableEq

/-- Something worth a line in a log. -/
inductive Message where
  | arenaExhausted (words : Nat)
  | invalidReference (r : Reference) (words : Nat)
  | alreadyGarbage (r : Reference)
  | reasonClause (r : Reference)
  | garbage (r : Reference) (record : Record)
  | deletedBinary (identity : UInt32) (a b : Literal)
  | shrunk (identity : UInt32) (r : Reference) (before after : Nat)
  | promoted (identity : UInt32) (r : Reference)
  | storedBinary (identity : UInt32) (source : Source) (clause : Clause)
  | storedLong (identity : UInt32) (r : Reference) (source : Source) (glue : UInt32)
      (clause : Clause)
  | watching (value : Bool)
  | missingWatch (identity : UInt32) (watched : Literal)
  | droppedWatches (count : Nat)
  | connecting (count : Nat)
  | collected (start : Reference) (dropped bytes words : Nat)
  | garbageOnMissingRow (index : Nat)
  | madeRow (index : Nat) (identity : UInt32)
  | rowOfAnother (index : Nat) (row clause : UInt32)
  | unaccountedRow (row : Row)
  | clauseOfAnother (r : Reference) (clause row : UInt32)
  | compactedRows (rows dropped : Nat)
  | inactive (found limit : Nat)
  | limitHit (reduction limit conflicts : UInt64)
  | scanning (reduction : UInt64) (words : Nat) (start : Reference)
  | nothingToReduce (reduction : UInt64)
  | remaining (reduction : UInt64) (deleted redundant irredundant : Nat)
  | nextReduction (limit : UInt64)
  | failed (reduction : UInt64) (cause : Error)
  | finished (reduction : UInt64) (report : Report)
  | inconsistent
  | noCandidate
  | revisedFirst (before after : Reference)
  | nothingReducible (start : Reference)
  | removing (quota candidates : Nat)
  | exported (rows : Nat)
  | wrongScoreCount (scores rows : Nat)
  | withinRetention (rows retain : Nat)
  | deletingRow (row : Row)
  | deletingRows (deleted rows retained : Nat)
  | outOfBounds (name : String)
  deriving DecidableEq

namespace Message

/-- The level of a message. -/
def level : Message → Level
  | arenaExhausted .. | invalidReference .. | alreadyGarbage .. | reasonClause .. | missingWatch ..
  | garbageOnMissingRow .. | rowOfAnother .. | unaccountedRow .. | clauseOfAnother .. | failed ..
  | wrongScoreCount .. => .error
  | outOfBounds .. => .warn
  | limitHit .. | scanning .. | nothingToReduce .. | remaining .. | inconsistent => .info
  | droppedWatches .. | connecting .. | collected .. | compactedRows .. | inactive ..
  | nextReduction .. | finished .. | noCandidate | nothingReducible .. | removing ..
  | exported .. | withinRetention .. | deletingRows .. => .debug
  | garbage .. | deletedBinary .. | shrunk .. | promoted .. | storedBinary .. | storedLong ..
  | watching .. | madeRow .. | revisedFirst .. | deletingRow .. => .trace

/-- The part that a message is about. -/
def topic : Message → Topic
  | arenaExhausted .. | invalidReference .. => .arena
  | alreadyGarbage .. | reasonClause .. | garbage .. | deletedBinary .. | shrunk .. | promoted ..
  | storedBinary .. | storedLong .. => .clauses
  | watching .. | missingWatch .. | droppedWatches .. | connecting .. => .watches
  | collected .. => .compaction
  | garbageOnMissingRow .. | madeRow .. | rowOfAnother .. | unaccountedRow .. | clauseOfAnother ..
  | compactedRows .. => .statistics
  | inactive .. | limitHit .. | scanning .. | nothingToReduce .. | remaining .. | nextReduction ..
  | failed .. | finished .. | inconsistent | noCandidate | revisedFirst .. | nothingReducible ..
  | removing .. => .reduction
  | exported .. | wrongScoreCount .. | withinRetention .. | deletingRow .. | deletingRows .. =>
    .prediction
  | outOfBounds .. => .configuration

/-- The text of a count. -/
def count (n : Nat) : String := toString n

/-- The text of an identity. -/
def named (identity : UInt32) : String := "#" ++ toString identity.toNat

/-- The text in front of a message about a reduction. -/
def reduction (n : UInt64) : String := "[reduce " ++ toString n.toNat ++ "] "

/-- The wording of a message. -/
def text : Message → String
  | arenaExhausted words => "Arena exhausted at " ++ count words ++ " words"
  | invalidReference r words => "Invalid reference " ++ r.text ++ " with " ++ count words ++ " words"
  | alreadyGarbage r => "Garbage " ++ r.text ++ " marked as garbage"
  | reasonClause r => "Reason " ++ r.text ++ " marked as garbage"
  | garbage r record => "Garbage " ++ r.text ++ " " ++ record.text
  | deletedBinary identity a b =>
    "Deleted binary " ++ named identity ++ ": " ++ a.text ++ " " ++ b.text
  | shrunk identity r before after =>
    "Shrunk " ++ named identity ++ " " ++ r.text ++ " from " ++ count before ++ " to " ++ count after
  | promoted identity r => "Irredundant " ++ named identity ++ " " ++ r.text
  | storedBinary identity source clause =>
    named identity ++ " (" ++ source.text ++ "): " ++ clause.dimacs false
  | storedLong identity r source glue clause =>
    named identity ++ " " ++ r.text ++ " (" ++ source.text ++ ", glue " ++ count glue.toNat ++ "): " ++
      clause.dimacs false
  | watching value => "Watching: " ++ (if value then "true" else "false")
  | missingWatch identity watched =>
    "Missing binary watch " ++ named identity ++ " on " ++ watched.text
  | droppedWatches n => "Relocation dropped " ++ count n ++ " long watches"
  | connecting n => "Connecting " ++ count n ++ " pending clauses"
  | collected start dropped bytes words =>
    "Collected from " ++ start.text ++ ": " ++ count dropped ++ " dropped, " ++ count bytes ++
      " bytes reclaimed, " ++ count words ++ " words remain"
  | garbageOnMissingRow index => "Garbage marked on missing row " ++ count index
  | madeRow index identity => "Row " ++ count index ++ " made for " ++ named identity
  | rowOfAnother index row clause =>
    "Row " ++ count index ++ " has identity " ++ named row ++ " for " ++ named clause
  | unaccountedRow row => "Row neither seen nor garbage: " ++ row.text
  | clauseOfAnother r clause row =>
    "Clause " ++ r.text ++ " has identity " ++ named clause ++ " for row " ++ named row
  | compactedRows rows dropped =>
    "Compacted to " ++ count rows ++ " rows, dropping " ++ count dropped
  | inactive found limit =>
    count found ++ " inactive variables with limit " ++ count limit
  | limitHit n limit conflicts =>
    reduction n ++ "limit " ++ count limit.toNat ++ " hit after " ++ count conflicts.toNat ++
      " conflicts"
  | scanning n words start =>
    reduction n ++ "scanning " ++ count words ++ " words after " ++ start.text
  | nothingToReduce n => reduction n ++ "nothing to reduce"
  | remaining n deleted redundant irredundant =>
    reduction n ++ "reduced " ++ count deleted ++ " clauses, " ++ count redundant ++
      " redundant and " ++ count irredundant ++ " irredundant remain"
  | nextReduction limit => "Next reduction at " ++ count limit.toNat ++ " conflicts"
  | failed n cause => "Reduction " ++ count n.toNat ++ " failed: " ++ cause.message
  | finished n report => "Reduction " ++ count n.toNat ++ ": " ++ report.text
  | inconsistent => "Inconsistency found when flushing the trail"
  | noCandidate => "No reducible clause found"
  | revisedFirst before after =>
    "First reducible revised from " ++ before.text ++ " to " ++ after.text
  | nothingReducible start => "No reducible clause from " ++ start.text
  | removing quota candidates =>
    "Removing " ++ count quota ++ " of " ++ count candidates ++ " candidates"
  | exported rows => "Exported features of " ++ count rows ++ " rows"
  | wrongScoreCount scores rows => count scores ++ " scores for " ++ count rows ++ " rows"
  | withinRetention rows retain =>
    count rows ++ " rows within the retention of " ++ count retain
  | deletingRow row => "Deleting " ++ row.text
  | deletingRows deleted rows retained =>
    "Deleting " ++ count deleted ++ " of " ++ count rows ++ " rows, retaining " ++ count retained ++
      " in excess"
  | outOfBounds name => "Value for " ++ name ++ " out of bounds"

end Message

end ClauseStore
