import ClauseStore.Context
import ClauseStore.Reduction.Rows

/-!
Eviction: choosing which candidates of a scan to mark as garbage. By rank a fixed percentage of the
candidates goes, the least useful first. By score the whole table is scored in one batch, and all
rows beyond a fixed count are slots for removal, visited from the worst; the clause of a slot stays
if it is a reason or too young.
-/

namespace ClauseStore.Context

variable {π : Type}

/-- Removes a percentage of the candidates, and returns their count. -/
def evictByRank (candidates : List Candidate) : Run π Nat := do
  let quota := Candidate.quota candidates.length (← get).config.reducing.fraction.value
  log (.removing quota candidates.length)
  ((Candidate.leastUsefulFirst candidates).take quota).forM fun c =>
    onDatabase (Database.markGarbage c.reference)
  return quota

/-- Reads the score of each of some rows; the first row without one is the failure. -/
def readScores [Predictor π] (rows : Nat) : Attempt π (List Binary64) := do
  let p ← get
  (List.range rows).mapM fun i =>
    match Predictor.score? p i with
    | some x => pure x
    | none => throw (.rowCount rows i)

/-- Submits a matrix and reads a score for each of its rows. The batch is not released. -/
def predictBatch [Predictor π] (matrix : List Binary64) (rows : Nat) : Run π (List Binary64) := do
  onPredictor (Predictor.submit matrix rows)
  let context := (← get).config.predicting.context.value
  let scored ← onPredictor (Predictor.predict rows context.toNat)
  onDatabase (Database.refuseIf (scored != rows) (.wrongScoreCount scored rows)
    (.predictor (.rowCount rows scored)))
  onPredictor (readScores rows)

/-- Scores every row of the table. The batch is released whether or not the predictor fails. -/
def scoreRows [Predictor π] : Run π Unit := do
  let c ← get
  let matrix ← onDatabase (Database.featureMatrix c.counters.conflicts)
  let scores ← observing (predictBatch matrix.flatten matrix.length)
  modify fun c => { c with predictor := Predictor.finish c.predictor }
  match scores with
  | .error e => throw e
  | .ok scores => modify fun c => { c with database.table := c.database.table.score scores }

/-- The rows of a table beyond the best `retain` ones, the worst first. -/
def slots (table : Table) (retain : Nat) : List Row :=
  let order := Table.descending (table.rows.toList.map Row.latest)
  (order.reverse.take (table.size - retain)).filterMap table.row?

/-- Whether the clause of a slot goes: it is no reason and old enough. -/
def goes (leastAge conflicts : UInt64) (row : Row) : Action Bool := do
  let offset ← Database.offsetOf .arena row.clause
  let isReason := ((← get).arena.header offset).flags.reason
  let stays := isReason || decide (elapsed conflicts row.born < leastAge)
  Database.logIf (!stays) (.deletingRow row)
  return !stays

/-- Removes the clauses of the slots that go, and returns their count. -/
def emptySlots (retain : Nat) : Run π Nat := do
  let c ← get
  let table := c.database.table
  let candidates := slots table retain
  let deletions ← onDatabase
    (candidates.filterM (goes c.config.predicting.leastAge.value c.counters.conflicts))
  log (.deletingRows deletions.length table.size (candidates.length - deletions.length))
  deletions.forM fun row => onDatabase (Database.markGarbage row.clause)
  return deletions.length

/-- Scores the rows and removes clauses, if there are more rows than are retained; returns the count
of clauses removed. -/
def evictByScore [Predictor π] : Run π Nat := do
  let c ← get
  let rows := c.database.table.size
  let retain := c.config.predicting.retain.value.toNat
  if rows ≤ retain then
    log (.withinRetention rows retain)
    return 0
  else
    scoreRows
    emptySlots retain

/-- Removes clauses after a scan that found some candidates, and returns their count. -/
def evictCandidates [Predictor π] (plan : ScanPlan) (candidates : List Candidate) : Run π Nat := do
  onDatabase (Database.settleTable plan)
  let deleted ← if plan.byScore then evictByScore else evictByRank candidates
  onDatabase (Database.recount fun n => { n with reduced := n.reduced + deleted })
  return deleted

/-- Scans from a start and removes clauses; no count is returned if the scan found no candidate. -/
def evict [Predictor π] (start : Reference) : Run π (Option Nat) := do
  let c ← get
  let plan := ScanPlan.ofConfig c.config c.counters.conflicts c.counters.lastReduction
  let candidates ← onDatabase (Database.scan plan start)
  if candidates.isEmpty then
    log .noCandidate
    return none
  else return some (← evictCandidates plan candidates)

end ClauseStore.Context
