import ClauseStore.Database.Revision
import ClauseStore.Config
import ClauseStore.Reduction.Rank

/-!
The scan that both ways of reducing share. It walks the arena from a start, links and updates the
rows of statistics, spends the grace of live redundant clauses, clears their usage, and gathers the
candidates for removal. Clauses count from the first redundant one on that is not kept, or from the
first redundant one if features are generated; the reference to it is cached.
-/

namespace ClauseStore

/-- What a scan is made for. -/
structure ScanPlan where
  byScore : Bool
  generating : Bool
  tier2 : UInt32
  conflicts : UInt64
  lastReduction : UInt64
  deriving DecidableEq

namespace ScanPlan

/-- Whether rows of statistics are kept. -/
def collecting (p : ScanPlan) : Bool := p.byScore || p.generating

/-- The plan of a configuration. -/
def ofConfig (c : Config) (conflicts lastReduction : UInt64) : ScanPlan where
  byScore := c.predicting.byScore.value
  generating := c.predicting.generating.value
  tier2 := c.retention.tier2.value
  conflicts := conflicts
  lastReduction := lastReduction

/-- Whether a redundant clause can be the first to count. -/
def opens (p : ScanPlan) (h : Header) : Bool := p.generating || !h.flags.keep

/-- Considers a live redundant clause that is no reason: its header with grace spent, and whether it
is a candidate. By scores every such clause is one; by rank kept clauses are passed over, and a clause
of the second tier that still had grace is not a candidate unless features are generated. -/
def consider (p : ScanPlan) (h : Header) : Header × Bool :=
  if p.byScore then (h.spent, true)
  else if h.flags.keep then (h, false)
  else (h.spent, h.grace == 0 || p.generating || decide (p.tier2.toNat < h.glue.toNat))

end ScanPlan

/-- How far a scan has come. -/
structure ScanProgress where
  first : Reference := .invalid
  candidates : Array Candidate := #[]

namespace ScanProgress

/-- Notes the first clause that counts, unless there is one. -/
def opened (p : ScanProgress) (r : Reference) : ScanProgress :=
  if p.first.isValid then p else { p with first := r }

/-- Adds a candidate. -/
def push (p : ScanProgress) (c : Candidate) : ScanProgress :=
  { p with candidates := p.candidates.push c }

end ScanProgress

namespace Database

/-- The row of a clause, made and linked if it has none. -/
def rowFor (offset : Nat) (conflicts : UInt64) : Action Nat := do
  let db ← get
  let h := db.arena.header offset
  match h.row? with
  | some index => return index
  | none =>
    let index := db.table.size
    let row := Row.fresh h.identity (.ofOffset offset) conflicts
    modify fun db => { db with table := db.table.push row }
    reviseHeader offset (Header.withRow (some index))
    log (.madeRow index h.identity)
    return index

/-- Folds the use of a clause into its row, which must be there and be its own. -/
def updateRow (plan : ScanPlan) (offset : Nat) : Action Unit := do
  let index ← rowFor offset plan.conflicts
  let db ← get
  let h := db.arena.header offset
  match db.table.row? index with
  | none => throw (.table .missingRow)
  | some row =>
    refuseIf (row.identity != h.identity) (.rowOfAnother index row.identity h.identity)
      (.table .identityMismatch)
    let use : Usage := ⟨h.props, h.uips, h.touched⟩
    let update (row : Row) : Row :=
      { row with clause := Reference.ofOffset offset }.update use plan.conflicts plan.lastReduction
    modify fun db => { db with table := db.table.revise index update }

/-- Ends the row of an irredundant clause and its link to it. A clause without a row keeps its
header. -/
def unlinkRow (offset : Nat) : Action Unit := do
  let h := (← get).arena.header offset
  endRow h
  reviseHeader offset (Header.withRow none)

/-- Scans one live redundant clause, and tells whether it is a candidate. -/
def scanLive (plan : ScanPlan) (offset : Nat) : Action Bool := do
  (if plan.collecting then updateRow plan offset else pure ())
  let h := (← get).arena.header offset
  let considered := if h.flags.reason then (h, false) else plan.consider h
  reviseHeader offset fun _ => considered.1.resetUsage
  return considered.2

/-- Scans one redundant clause behind the first that counts. -/
def scanRedundant (plan : ScanPlan) (progress : ScanProgress) (offset : Nat) (h : Header) :
    Action ScanProgress :=
  if h.flags.garbage then do
    endRow h
    return progress
  else do
    let isCandidate ← scanLive plan offset
    return if isCandidate then progress.push (.ofHeader (.ofOffset offset) h) else progress

/-- Scans the record at an offset. -/
def scanRecord (plan : ScanPlan) (progress : ScanProgress) (offset : Nat) :
    Action ScanProgress := do
  let h := (← get).arena.header offset
  if h.flags.redundant then
    if progress.first.isValid || plan.opens h then
      scanRedundant plan (progress.opened (.ofOffset offset)) offset h
    else pure progress
  else do
    unlinkRow offset
    return progress

/-- Caches the first reference that counts. -/
def reviseFirst (first : Reference) : Action Unit := do
  let before := (← get).firstReducible
  logIf (first != before) (.revisedFirst before first)
  modify fun db => { db with firstReducible := first }

/-- Scans the arena from a start on, and returns the candidates. -/
def scan (plan : ScanPlan) (start : Reference) : Action (List Candidate) := do
  modify fun db => if plan.collecting then { db with table := db.table.markUnseen } else db
  let arena := (← get).arena
  let walk := arena.walkFrom start.offset
  let progress ← walk.1.foldlM (scanRecord plan) {}
  refuseIf (!walk.2) (stoppedWalk arena start.offset walk.1) (.arena .invalidReference)
  reviseFirst progress.first
  logIf (!progress.first.isValid) (.nothingReducible start)
  return progress.candidates.toList

end Database

end ClauseStore
