import ClauseStore.Config
import ClauseStore.Database

/-!
Notes of the use of long clauses by the search, which reductions read.
-/

namespace ClauseStore.Database

/-- Revises the header of the record that a reference stands for. -/
def note (r : Reference) (f : Header → Header) : Action Unit := do
  reviseHeader (← offsetOf .arena r) f

/-- Notes that a clause propagated a literal. -/
def notePropagation (conflicts : UInt64) (r : Reference) : Action Unit :=
  note r fun h => { h.countProp with touched := conflicts }

/-- Notes that a clause was the first reason of a conflict. -/
def noteUip (conflicts : UInt64) (r : Reference) : Action Unit :=
  note r fun h => { h.countUip with touched := conflicts }

/-- The header of a clause used in the analysis of a conflict: two reductions of grace if its glue
is within the second tier, otherwise one. -/
def graced (tier2 : UInt32) (h : Header) : Header :=
  { h with grace := if h.glue.toNat ≤ tier2.toNat then 2 else 1 }

/-- Notes that a clause was used in the analysis of a conflict. -/
def noteUsed (config : Config) (r : Reference) : Action Unit :=
  note r (graced config.retention.tier2.value)

/-- Sets or clears the reason flag of a clause. -/
def setReason (r : Reference) (value : Bool) : Action Unit := note r (Header.withFlag .reason value)

end ClauseStore.Database
