import ClauseStore.Reference

/-!
Where a compaction moved the records: references before its start stay, and of the others only those
of surviving records have a new reference.
-/

namespace ClauseStore

/-- The movement of records by a compaction, as pairs of old and new references, the old ascending. -/
structure Relocation where
  start : Reference
  moves : Array (Reference × Reference)
  deriving DecidableEq

namespace Relocation

/-- Where the move of a reference leads that may be among those from one place up to another: the stretch
is halved until the move is in the middle of it, or the stretch is empty. -/
def search (moves : Array (Reference × Reference)) (r : Reference) (low high : Nat)
    (inside : high ≤ moves.size) : Option Reference :=
  if stretch : low < high then
    let middle := low + (high - low) / 2
    have : middle < moves.size := by omega
    if moves[middle].1 < r then search moves r (middle + 1) high inside
    else if r < moves[middle].1 then search moves r low middle (by omega)
    else some moves[middle].2
  else none
termination_by high - low

/-- The new reference of the record at an old reference, if the record survived. -/
def get? (m : Relocation) (r : Reference) : Option Reference :=
  if !r.isValid then none
  else if r < m.start then some r
  else search m.moves r 0 m.moves.size (Nat.le_refl _)

end Relocation

end ClauseStore
