import ClauseStore.Clause.Acceptance
import ClauseStore.Config
import ClauseStore.Database

/-!
Storing clauses. A binary clause goes into the watch lists only, a longer one into the arena as well;
both draw their identity from one counter. Original clauses are sorted by the indices of their
literals, others keep their order.
-/

namespace ClauseStore

/-- Where a stored clause was placed. -/
inductive Placement where
  | binary (identity : UInt32)
  | long (reference : Reference) (identity : UInt32)
  deriving DecidableEq

namespace Placement

/-- The identity of the placed clause. -/
def identity : Placement → UInt32
  | binary identity => identity
  | long _ identity => identity

/-- The reference of the placed clause, if it is long. -/
def reference? : Placement → Option Reference
  | binary _ => none
  | long r _ => some r

end Placement

/-- Counts a stored clause. -/
def Counts.stored (source : Source) (c : Counts) : Counts :=
  match source with
  | .original =>
    { c with added := c.added + 1, irredundant := c.irredundant + 1, original := c.original + 1 }
  | .irredundant => { c with added := c.added + 1, irredundant := c.irredundant + 1 }
  | .redundant => { c with added := c.added + 1, redundant := c.redundant + 1 }

namespace Database

/-- Draws an identity; the greatest one is never given. -/
def freshIdentity : Action UInt32 := do
  let identity := (← get).nextIdentity
  failIf (identity == 4294967295) (.clause .storageExhausted)
  modify fun db => { db with nextIdentity := identity + 1 }
  return identity

/-- The event of a stored clause. -/
def birth (identity : UInt32) (c : Clause) : Source → Event
  | .original => .original identity c
  | source => .addition identity c source

/-- Stores a clause of two literals. -/
def storeBinary (a b : Literal) (source : Source) : Action Placement := do
  let identity ← freshIdentity
  let redundant := source == .redundant
  modify fun db => { db with
    watches := db.watches.watchBinary a b redundant identity
    occurrences := if redundant then db.occurrences else db.occurrences.add [a, b] }
  recount (Counts.stored source)
  log (.storedBinary identity source [a, b])
  announce (birth identity [a, b] source)
  return .binary identity

/-- Makes room for a record of some literals. A clause that is stored is not so long that the count of
its words could fail to fit. -/
def allocate (size : Nat) : Action Reference := do
  let db ← get
  match db.arena.reserve (wordsOfClause (UInt64.ofNat size)) with
  | .ok (r, arena) =>
    set { db with arena }
    return r
  | .error e => refuse (.arenaExhausted db.arena.size) (asClauseError e)

/-- The header of a fresh record. -/
def freshHeader (identity : UInt32) (redundant keep : Bool) (glue : UInt32) (conflicts : UInt64) :
    Header :=
  Header.withGlue glue
    { identity, flags := { keep, redundant }, link := noLink, touched := conflicts }

/-- Watches a fresh long clause on two literals, or queues it. -/
def attach (r : Reference) (a b : Literal) (w : Watches) : Watches :=
  if w.watching then w.watchLong r a b else w.queue r

/-- Stores a clause of more than two literals, the first two given apart. -/
def storeLong (a b : Literal) (rest : Clause) (source : Source) (glue : UInt32) (keep : Bool)
    (conflicts : UInt64) : Action Placement := do
  let c := a :: b :: rest
  let identity ← freshIdentity
  let redundant := source == .redundant
  let glue := if redundant then glue else 0
  let r ← allocate c.length
  modify fun db => { db with
    arena := (db.arena.setHeader r.offset (freshHeader identity redundant keep glue conflicts)
      ).writeLiterals r.offset c
    watches := attach r a b db.watches
    firstReducible :=
      if redundant && !keep && !db.firstReducible.isValid then r else db.firstReducible
    lastIrredundant := if redundant then db.lastIrredundant else r
    occurrences := if redundant then db.occurrences else db.occurrences.add c }
  recount (Counts.stored source)
  log (.storedLong identity r source glue c)
  announce (birth identity c source)
  return .long r identity

/-- Whether a stored clause is kept: redundant ones only with low glue, and never where reductions
go by scores. -/
def keeps (config : Config) (source : Source) (glue : UInt32) : Bool :=
  match source with
  | .redundant => decide (glue ≤ config.retention.tier1.value) && !config.predicting.byScore.value
  | _ => true

/-- Stores a clause; `glue` counts for redundant clauses only. -/
def store (config : Config) (source : Source) (glue : UInt32) (conflicts : UInt64) (c : Clause) :
    Action Placement :=
  match c.fault? with
  | some fault => throw (.clause fault)
  | none =>
    match if source = .original then c.sortedByIndex else c with
    | [a, b] => storeBinary a b source
    | a :: b :: rest => storeLong a b rest source glue (keeps config source glue) conflicts
    | _ => throw (.clause .unitClause)

/-- Watches a long clause on its first two literals, unless it is garbage. -/
def connect (r : Reference) : Action Unit := do
  let record ← recordAt (← offsetOf asClauseError r)
  if record.header.flags.garbage then pure ()
  else match record.literals with
    | a :: b :: _ => modify fun db => { db with watches := db.watches.watchLong r a b }
    | _ => throw (.clause .missing)

/-- Watches every queued clause that is not garbage, and watches fresh clauses from now on. -/
def connectPending : Action Unit := do
  let queued := (← get).watches.pending
  modify fun db => { db with watches := { db.watches with pending := [] } }
  log (.connecting queued.length)
  queued.forM connect
  log (.watching true)
  modify fun db => { db with watches := { db.watches with watching := true } }

end Database

end ClauseStore
