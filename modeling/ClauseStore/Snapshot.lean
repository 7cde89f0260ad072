import ClauseStore.Relocation

/-!
The state of a search, as a reduction sees it: how many variables there are and are active, whether
the trail is inconsistent, and which long clauses are the reasons of assignments.
-/

namespace ClauseStore

/-- What a search tells a reduction. -/
structure Snapshot where
  variableCount : UInt64 := 0
  activeCount : UInt64 := 0
  inconsistent : Bool := false
  reasons : List Reference := []
  deriving DecidableEq

/-- Follows a compaction: the reasons of dropped records are dropped. -/
def Snapshot.relocate (s : Snapshot) (m : Relocation) : Snapshot :=
  { s with reasons := s.reasons.filterMap m.get? }

end ClauseStore
