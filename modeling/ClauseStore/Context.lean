import ClauseStore.Database.Collection
import ClauseStore.Database.Revision
import ClauseStore.Database.Storing
import ClauseStore.Database.Usage
import ClauseStore.Predictor.Linear

/-!
The context: a clause database with its configuration, counters, phase and predictor. A search stores
clauses and notes conflicts and uses through it. A `Run` works on a context and may fail; what it did
before the failure stays done.
-/

namespace ClauseStore

/-- Counters of the search and of its reductions. -/
structure Counters where
  conflicts : UInt64 := 0
  reductions : UInt64 := 0
  /-- the count of conflicts at which the next reduction is due -/
  reduceLimit : UInt64 := 0
  /-- the count of conflicts at the last reduction -/
  lastReduction : UInt64 := 0
  deriving DecidableEq

/-- A database with what is around it; `π` is the type of the predictor's states. -/
structure Context (π : Type) where
  config : Config := {}
  counters : Counters := {}
  database : Database := {}
  predictor : π
  phase : Phase := .configuration

/-- A step on a context, which is kept also where the step fails. -/
abbrev Run (π α : Type) := ExceptT Error (StateM (Context π)) α

namespace Context

variable {π : Type} {α : Type}

/-- A context without clauses. -/
def ofConfig (config : Config) (predictor : π) : Context π :=
  { config, predictor, counters := { reduceLimit := config.reducing.initial.value } }

/-- A step on the database of a context. -/
def onDatabase (act : Action α) : Run π α := fun c =>
  let done := act c.database
  (done.1, { c with database := done.2 })

/-- A step of the predictor of a context. -/
def onPredictor (act : Attempt π α) : Run π α := fun c =>
  let done := act c.predictor
  (done.1.mapError .predictor, { c with predictor := done.2 })

/-- A step whose failure is not passed on but returned. -/
def observing (run : Run π α) : Run π (Except Error α) := fun c =>
  let done := run c
  (.ok done.1, done.2)

/-- A step that has come to its result, or failed, already. -/
def liftExcept (result : Except Error α) : Run π α := fun c => (result, c)

/-- Adds a log message. -/
def log (m : Message) : Run π Unit := onDatabase (Database.log m)

/-- Changes a setting, if the new value is within the bounds, and tells whether it is. -/
def configure [LE α] [DecidableLE α] (knob : Knob α) (value : α) : Run π Bool := do
  let edit := (knob.read (← get).config).set value
  onDatabase (Database.logIf (!edit.1) (.outOfBounds edit.2.name))
  modify fun c => { c with config := knob.write edit.2 c.config }
  return edit.1

/-- Stores a clause of some source. The first clause ends the phase of configuration. -/
def create (source : Source) (glue : UInt32) (clause : Clause) : Run π Placement := do
  modify fun c => { c with phase := if c.phase = .configuration then .input else c.phase }
  let c ← get
  onDatabase (Database.store c.config source glue c.counters.conflicts clause)

/-- Notes a conflict. -/
def noteConflict : Run π Unit :=
  modify fun c => { c with counters.conflicts := c.counters.conflicts + 1 }

/-- Notes that a clause propagated a literal. -/
def notePropagation (r : Reference) : Run π Unit := do
  onDatabase (Database.notePropagation (← get).counters.conflicts r)

/-- Notes that a clause was the first reason of a conflict. -/
def noteUip (r : Reference) : Run π Unit := do
  onDatabase (Database.noteUip (← get).counters.conflicts r)

/-- Notes that a clause was used in the analysis of a conflict. -/
def noteUsed (r : Reference) : Run π Unit := do
  onDatabase (Database.noteUsed (← get).config r)

/-- Sets whether long clauses are watched as soon as they are stored. -/
def setWatching (value : Bool) : Run π Unit := do
  log (.watching value)
  modify fun c => { c with database.watches.watching := value }

/-- Queues a long clause to be watched later. -/
def queuePending (r : Reference) : Run π Unit :=
  modify fun c => { c with database.watches := c.database.watches.queue r }

/-- Takes every queued clause out of the queue. -/
def takePending : Run π (List Reference) := do
  let queued := (← get).database.watches.pending
  modify fun c => { c with database.watches.pending := [] }
  return queued

/-- Compacts the arena from a start on. -/
def collect (start : Reference) : Run π Relocation := onDatabase (Database.collect start)

/-- Takes the events and messages that have gathered. -/
def drain (c : Context π) : List Event × List Message × Context π :=
  (c.database.events.toList, c.database.messages.toList,
    { c with database := { c.database with events := #[], messages := #[] } })

end Context

end ClauseStore
