import ClauseStore.Event
import ClauseStore.Message
import ClauseStore.Statistics.Table
import ClauseStore.Watches

/-!
The clause database: the arena of long clauses and the watch lists, with what is kept beside them:
the table of statistics, the occurrences of literals in irredundant clauses, counts, the next
identity, and two cached references. An `Action` works on a database and may fail; what it did before
the failure stays done. Events and log messages gather in the database until they are taken.
-/

namespace ClauseStore

/-- Counts of clauses, and of the bytes of garbage. -/
structure Counts where
  /-- every clause stored -/
  added : Nat := 0
  /-- every original clause stored -/
  original : Nat := 0
  /-- live irredundant clauses -/
  irredundant : Nat := 0
  /-- live redundant clauses -/
  redundant : Nat := 0
  /-- clauses whose storage was reclaimed -/
  deleted : Nat := 0
  /-- clauses that reductions marked as garbage -/
  reduced : Nat := 0
  /-- bytes of garbage records in the arena -/
  arenaGarbage : Nat := 0
  deriving DecidableEq

/-- Everything that is kept about clauses. -/
structure Database where
  arena : Arena := {}
  watches : Watches := {}
  table : Table := {}
  occurrences : Occurrences := {}
  counts : Counts := {}
  nextIdentity : UInt32 := 1
  /-- before this reference no clause is found that a reduction by rank could remove -/
  firstReducible : Reference := .invalid
  lastIrredundant : Reference := .invalid
  /-- whether features are exported -/
  exporting : Bool := false
  events : Array Event := #[]
  messages : Array Message := #[]
  deriving DecidableEq

/-- A step on a database, which is kept also where the step fails. -/
abbrev Action (α : Type) := ExceptT Error (StateM Database) α

namespace Database

/-- The count of live clauses. -/
def clauseCount (db : Database) : Nat := db.counts.irredundant + db.counts.redundant

/-- Adds a log message. -/
def log (m : Message) : Action Unit := modify fun db => { db with messages := db.messages.push m }

/-- Tells an event. -/
def announce (e : Event) : Action Unit := modify fun db => { db with events := db.events.push e }

/-- Fails with a message. -/
def refuse {α : Type} (m : Message) (e : Error) : Action α := do
  log m
  throw e

/-- Fails with a message under a condition. -/
def refuseIf (c : Bool) (m : Message) (e : Error) : Action Unit := if c then refuse m e else pure ()

/-- Fails without a message under a condition. -/
def failIf (c : Bool) (e : Error) : Action Unit := if c then throw e else pure ()

/-- Adds a log message under a condition. -/
def logIf (c : Bool) (m : Message) : Action Unit := if c then log m else pure ()

/-- Revises the counts. -/
def recount (f : Counts → Counts) : Action Unit :=
  modify fun db => { db with counts := f db.counts }

/-- The offset that a reference stands for. A reference that stands for none is logged, and the
failure of the arena is reported through `wrap`. -/
def offsetOf (wrap : ArenaError → Error) (r : Reference) : Action Nat := do
  let arena := (← get).arena
  match arena.resolve? r with
  | some offset => return offset
  | none => refuse (.invalidReference r arena.size) (wrap .invalidReference)

/-- How operations on clauses report a failure of the arena. -/
def asClauseError (e : ArenaError) : Error := .clause (.ofArena e)

/-- The record at an offset. -/
def recordAt (offset : Nat) : Action Record := return (← get).arena.record offset

/-- Revises the header at an offset. -/
def reviseHeader (offset : Nat) (f : Header → Header) : Action Unit :=
  modify fun db => { db with arena := db.arena.revise offset f }

/-- The record that a reference stands for. -/
def record (r : Reference) : Action Record := do recordAt (← offsetOf .arena r)

/-- The reference behind the record at a reference. -/
def next (r : Reference) : Action Reference := do
  let offset ← offsetOf .arena r
  return Reference.ofOffset (offset + (← get).arena.span offset)

/-- The message of a walk from an offset on over some records that stopped behind them. -/
def stoppedWalk (arena : Arena) (offset : Nat) (records : List Nat) : Message :=
  .invalidReference (.ofOffset (arena.walkEnd offset records)) arena.size

/-- The offsets of the records from an offset on, and whether the walk came to the end. A walk that
stopped before is logged. -/
def offsetsFrom (offset : Nat) : Action (List Nat × Bool) := do
  let arena := (← get).arena
  let walk := arena.walkFrom offset
  logIf (!walk.2) (stoppedWalk arena offset walk.1)
  return walk

/-- The offsets of the records before the first one that a condition holds of, and that one, if there
is one. A walk that stopped before it came to one is logged. -/
def offsetsUntil (found : Nat → Bool) : Action (List Nat × Option Nat) := do
  let arena := (← get).arena
  let walk := arena.walkFrom 0
  let first := walk.1.find? found
  logIf (!walk.2 && first.isNone) (stoppedWalk arena 0 walk.1)
  return (walk.1.takeWhile fun offset => !found offset, first)

/-- The references of the records from a reference on. -/
def walk (r : Reference) : Action (List Reference) :=
  return (← offsetsFrom r.offset).1.map Reference.ofOffset

/-- The first record of some identity; no record has one beyond 32 bits. -/
def find? (identity : Nat) : Action (Option Reference) := do
  let arena := (← get).arena
  let search ← offsetsUntil fun offset => (arena.header offset).identity.toNat == identity
  return search.2.map Reference.ofOffset

/-- The references of the clauses that are not garbage. -/
def liveClauses : Action (List Reference) := do
  let offsets := (← offsetsFrom 0).1
  let arena := (← get).arena
  return (offsets.filter fun o => !(arena.header o).flags.garbage).map Reference.ofOffset

end Database

end ClauseStore
