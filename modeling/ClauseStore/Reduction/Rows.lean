import ClauseStore.Reduction.Scan
import ClauseStore.Predictor

/-!
What a reduction does with the table of statistics after its scan: rows that the scan did not meet or
that are garbage are dropped and the others are linked anew, the rows are ranked, and their features
are exported if there is a listener for them.
-/

namespace ClauseStore.Database

/-- Links the clause of a row to the index of the row; the clause must be the row's own. -/
def relink (entry : Row × Nat) : Action Unit := do
  let row := entry.1
  let offset ← offsetOf .arena row.clause
  let h := (← get).arena.header offset
  refuseIf (h.identity != row.identity) (.clauseOfAnother row.clause h.identity row.identity)
    (.table .identityMismatch)
  reviseHeader offset (Header.withRow (some entry.2))

/-- Drops the rows that do not stay, and links the others to their clauses. -/
def compactTable : Action Unit := do
  let before := (← get).table
  before.unaccounted.forM fun row => log (.unaccountedRow row)
  let after := before.surviving
  modify fun db => { db with table := after }
  after.rows.toList.zipIdx.forM relink
  log (.compactedRows after.size (before.size - after.size))

/-- Ranks the rows. -/
def rankTable : Action Unit := modify fun db => { db with table := db.table.rank }

/-- The features of a row, with the glue of its clause. -/
def featuresOf (conflicts : UInt64) (row : Row) : Action (List Binary64) := do
  let offset ← offsetOf .arena row.clause
  let glue := ((← get).arena.header offset).glue
  return row.features (UInt32.ofNat glue.toNat) conflicts

/-- The features of all rows, in order. -/
def featureMatrix (conflicts : UInt64) : Action (List (List Binary64)) := do
  (← get).table.rows.toList.mapM (featuresOf conflicts)

/-- Tells the features of every row. -/
def exportFeatures (conflicts : UInt64) : Action Unit := do
  let rows := (← get).table.rows.toList
  let matrix ← featureMatrix conflicts
  (rows.zip matrix).forM fun entry => announce (.features entry.1.identity entry.2)
  log (.exported rows.length)

/-- Brings the table up to date after a scan that found a candidate. -/
def settleTable (plan : ScanPlan) : Action Unit :=
  if plan.collecting then do
    compactTable
    rankTable
    let db ← get
    if plan.generating && db.exporting then exportFeatures plan.conflicts else pure ()
  else pure ()

end ClauseStore.Database
