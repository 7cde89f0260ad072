import ClauseStore.Reduction.Eviction
import ClauseStore.Snapshot

/-!
Reductions. A reduction decides whether to compact the whole arena, picks the start of its scan,
protects the reasons of the search, evicts clauses, compacts the arena from the start, and schedules
the next reduction. The next one is scheduled, and the reasons are released, also if it fails.
-/

namespace ClauseStore.Context

variable {π : Type}

/-- Whether a reduction is due. -/
def reducing (c : Context π) : Bool :=
  c.config.reducing.enabled.value && decide (0 < c.database.counts.redundant) &&
    decide (c.counters.reduceLimit ≤ c.counters.conflicts)

/-- Whether so many variables are inactive that the whole arena is compacted. -/
def compacting (search : Snapshot) : Run π Bool := do
  let config := (← get).config.reducing
  if config.compact.value then
    let inactive := elapsed search.variableCount search.activeCount
    let limit := search.variableCount * config.compactLimit.value.toUInt64 / 100
    log (.inactive inactive.toNat limit.toNat)
    return decide (limit < inactive)
  else return false

/-- Logs a phase of a reduction, if the configuration asks for it. -/
def narrate (m : Context π → Message) : Run π Unit := do
  let c ← get
  onDatabase (Database.logIf c.config.verbose.value (m c))

/-- The sum of two counts, at most the greatest count. -/
def later (now delta : UInt64) : UInt64 :=
  if now.toNat + delta.toNat < UInt64.size then now + delta else 18446744073709551615

/-- The conflicts to the next reduction: a fixed interval by scores; by rank an interval scaled by
the root of the count of reductions. -/
def interval (c : Context π) : UInt64 :=
  if c.config.predicting.byScore.value then c.config.predicting.interval.value
  else (Binary64.ofCount c.config.reducing.interval.value *
    (Binary64.ofCount c.counters.reductions).sqrt).toCount

/-- Schedules the next reduction. -/
def schedule : Run π Unit := do
  modify fun c => { c with
    counters.reduceLimit := later c.counters.conflicts c.interval }
  log (.nextReduction (← get).counters.reduceLimit)

/-- Flags some reasons, evicts from a start, and clears the flags whether or not that fails. -/
def evictAround [Predictor π] (start : Reference) (reasons : List Reference) :
    Run π (Option Nat) := do
  reasons.forM fun r => onDatabase (Database.setReason r true)
  let outcome ← observing (evict start)
  reasons.forM fun r => onDatabase (Database.setReason r false)
  liftExcept outcome

/-- Ends a reduction that removed clauses, or found no candidate: the arena is compacted unless there
was no candidate and the whole arena is not asked for. -/
def conclude (start : Reference) (whole : Bool) (search : Snapshot) :
    Option Nat → Run π (Report × Snapshot)
  | some deleted => do
    narrate fun c => .remaining c.counters.reductions deleted c.database.counts.redundant
      c.database.counts.irredundant
    return (.reduced deleted, search.relocate (← collect start))
  | none =>
    if whole then return (.nothingToReduce, search.relocate (← collect start))
    else return (.nothingToReduce, search)

/-- Reduces from a start on; `whole` asks for a compaction even without a candidate. -/
def reduceFrom [Predictor π] (start : Reference) (whole : Bool) (search : Snapshot) :
    Run π (Report × Snapshot) := do
  if search.inconsistent then
    log .inconsistent
    modify fun c => { c with phase := .unsatisfiable }
    return (.unsatisfiable, search)
  else
    let outcome ← evictAround start (search.reasons.filter fun r => decide (start ≤ r))
    conclude start whole search outcome

/-- Where the scan of a reduction starts: at the start of the arena if the whole arena is compacted
or statistics are collected, otherwise at the first clause that could be removed. -/
def scanStart (c : Context π) (whole : Bool) : Reference :=
  if whole || c.config.collecting then .start else c.database.firstReducible

/-- Reduces from the start of the scan, if there is one. -/
def reduceOnce [Predictor π] (search : Snapshot) : Run π (Report × Snapshot) := do
  let whole ← compacting search
  let start := (← get).scanStart whole
  if start.isValid then
    narrate fun c => .scanning c.counters.reductions (c.database.arena.size - start.offset) start
    reduceFrom start whole search
  else
    narrate fun c => .nothingToReduce c.counters.reductions
    return (.nothingToReduce, search)

/-- Whether some machine counts all that a reduction adds and multiplies: the reductions, and the product
of which the limit of inactive variables is a share. -/
def counts (m : Arithmetic) (search : Snapshot) (c : Context π) : Bool :=
  let config := c.config.reducing
  (m.add? c.counters.reductions 1).isSome &&
    (!config.compact.value ||
      (m.mul? search.variableCount config.compactLimit.value.toUInt64).isSome)

/-- Reduces the database, and returns the report and the state of the search afterwards. -/
def reduce [Predictor π] (search : Snapshot) : Run π (Report × Snapshot) := do
  modify fun c => { c with
    counters.reductions := c.counters.reductions + 1
    phase := if c.phase = .unsatisfiable then c.phase else .solving }
  narrate fun c =>
    .limitHit c.counters.reductions c.counters.reduceLimit c.counters.conflicts
  let outcome ← observing (reduceOnce search)
  schedule
  modify fun c => { c with counters.lastReduction := c.counters.conflicts }
  let n := (← get).counters.reductions
  match outcome with
  | .ok result =>
    log (.finished n result.1)
    return result
  | .error e =>
    log (.failed n e)
    throw e

/-- A reduction on some machine, with the context behind it; there is neither where the machine stops. -/
def reduceOn [Predictor π] (m : Arithmetic) (search : Snapshot) (c : Context π) :
    Option (Except Error (Report × Snapshot) × Context π) :=
  if c.counts m search then some (reduce search c) else none

end ClauseStore.Context
