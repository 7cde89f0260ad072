import ClauseStore.Database

/-!
Revisions of stored clauses: marking as garbage, shortening, promotion, and the deletion of binary
clauses. A garbage record stays in the arena until the next compaction; a binary clause is gone at
once.
-/

namespace ClauseStore.Database

/-- Marks a row of statistics as garbage; a row that is missing is logged. -/
def markRow (index : Nat) : Action Unit := do
  let db ← get
  logIf (decide (db.table.size ≤ index)) (.garbageOnMissingRow index)
  modify fun db => { db with table := db.table.markGarbage index }

/-- Marks the row of a clause with some header as garbage, if it has one. -/
def endRow (h : Header) : Action Unit :=
  match h.row? with
  | some index => markRow index
  | none => pure ()

/-- Counts the end of a clause among the live ones, and of its literals if it was irredundant. -/
def retire (redundant : Bool) (c : Clause) : Action Unit :=
  if redundant then recount fun n => { n with redundant := n.redundant - 1 }
  else do
    modify fun db => { db with occurrences := db.occurrences.remove c }
    recount fun n => { n with irredundant := n.irredundant - 1 }

/-- Marks a long clause as garbage, unless it is so already or is a reason. -/
def markGarbage (r : Reference) : Action Unit := do
  let offset ← offsetOf asClauseError r
  let record ← recordAt offset
  let h := record.header
  refuseIf h.flags.garbage (.alreadyGarbage r) (.clause .alreadyGarbage)
  refuseIf h.flags.reason (.reasonClause r) (.clause .reasonClause)
  reviseHeader offset (Header.withFlag .garbage true)
  log (.garbage r { record with header := h.withFlag .garbage true })
  (if h.flags.redundant then endRow h else pure ())
  retire h.flags.redundant record.literals
  recount fun n => { n with arenaGarbage := n.arenaGarbage + record.span * wordBytes }
  announce (.deletion h.identity record.literals)

/-- Deletes the binary clause of two literals. -/
def deleteBinary (a b : Literal) (redundant : Bool) (identity : UInt32) : Action Unit := do
  let unwatched := (← get).watches.unwatchBinary a b identity
  modify fun db => { db with watches := unwatched.2 }
  match unwatched.1 with
  | some watched => refuse (.missingWatch identity watched) (.clause .missing)
  | none =>
    log (.deletedBinary identity a b)
    retire redundant [a, b]
    recount fun n => { n with deleted := n.deleted + 1 }
    announce (.deletion identity [a, b])

/-- Shortens a long clause to its first literals, at least three. The shorter clause is told before
the end of the longer one. -/
def shrink (r : Reference) (size : UInt64) : Action Unit := do
  let offset ← offsetOf asClauseError r
  let record ← recordAt offset
  let h := record.header
  failIf (h.flags.garbage || size.toNat < 3 || h.size.toNat ≤ size.toNat) (.clause .invalidShrink)
  let whole := record.literals
  let kept := whole.take size.toNat
  modify fun db => { db with arena := db.arena.shrink offset size.toUInt32 }
  log (.shrunk h.identity r whole.length size.toNat)
  modify fun db => { db with
    occurrences :=
      if h.flags.redundant then db.occurrences else db.occurrences.remove (whole.drop size.toNat) }
  announce (.addition h.identity kept (if h.flags.redundant then .redundant else .irredundant))
  announce (.deletion h.identity whole)

/-- Makes a redundant long clause irredundant. Its row of statistics ends with the next scan. -/
def makeIrredundant (r : Reference) : Action Unit := do
  let offset ← offsetOf asClauseError r
  let record ← recordAt offset
  let h := record.header
  failIf (h.flags.garbage || !h.flags.redundant) (.clause .notRedundant)
  reviseHeader offset (Header.withFlag .redundant false)
  log (.promoted h.identity r)
  modify fun db => { db with
    occurrences := db.occurrences.add record.literals
    lastIrredundant :=
      if !db.lastIrredundant.isValid || db.lastIrredundant < r then r else db.lastIrredundant }
  recount fun n => { n with redundant := n.redundant - 1, irredundant := n.irredundant + 1 }

end ClauseStore.Database
