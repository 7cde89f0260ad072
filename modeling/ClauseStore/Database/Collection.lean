import ClauseStore.Arena.Compaction
import ClauseStore.Database

/-!
Collection: the arena is compacted from a start, and every reference held by the database follows.
The relocation is returned for the references that are held elsewhere.
-/

namespace ClauseStore.Database

/-- The last live irredundant clause before a reference. -/
def lastIrredundantBefore (limit : Reference) : Action Reference := do
  let offsets := (← offsetsUntil fun offset => decide (limit.offset ≤ offset)).1
  let arena := (← get).arena
  let live := offsets.filter fun offset =>
    let flags := (arena.header offset).flags
    !flags.garbage && !flags.redundant
  return live.getLast?.elim .invalid Reference.ofOffset

/-- Revises the cached references after a compaction. -/
def recache (start : Reference) (c : Compaction) : Action Unit := do
  modify fun db => { db with firstReducible := c.firstReducible }
  let last := (← get).lastIrredundant
  let last ←
    if c.lastIrredundant.isValid then pure c.lastIrredundant
    else if last.isValid && decide (start ≤ last) then lastIrredundantBefore start
    else pure last
  modify fun db => { db with lastIrredundant := last }

/-- Lets the table and the watch lists follow a compaction. -/
def follow (moved : Relocation) : Action Unit := do
  let before := (← get).watches.longCount
  modify fun db => { db with
    table := db.table.relocate moved
    watches := db.watches.relocate moved }
  log (.droppedWatches (before - (← get).watches.longCount))

/-- Puts what a compaction has written in the place of the arena, and lets every reference follow. -/
def install (start : Reference) (c : Compaction) : Action Relocation := do
  modify fun db => { db with arena := c.compacted }
  recount fun n => { n with
    arenaGarbage := n.arenaGarbage - c.reclaimed
    deleted := n.deleted + c.dropped }
  recache start c
  let moved := c.relocation start
  follow moved
  log (.collected start c.dropped c.reclaimed c.compacted.size)
  return moved

/-- Compacts the arena from a start on. Where the walk meets no record, what was moved stays moved
and the words behind it stay as they were. -/
def collect (start : Reference) : Action Relocation := do
  let run := (Compaction.ofStart (← get).arena start.offset).run
  if run.2 then install start run.1
  else do
    modify fun db => { db with arena := run.1.arena }
    refuse (.invalidReference (.ofOffset run.1.read) run.1.arena.size) (asClauseError .invalidReference)

end ClauseStore.Database
