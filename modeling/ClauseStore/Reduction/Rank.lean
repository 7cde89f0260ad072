import ClauseStore.Arena.Header
import ClauseStore.Reference
import ClauseStore.Sorting

/-!
Candidates for removal, and their rank. Ranks ascend from the least useful clause: higher glue comes
first, and of equal glue the larger clause.
-/

namespace ClauseStore

/-- The rank of a clause: the complements of its glue and its size, the glue above. -/
def rank (glue : UInt32) (size : UInt64) : UInt64 :=
  ((~~~glue).toUInt64 <<< 32) ||| (~~~size.toUInt32).toUInt64

/-- A clause that a reduction may remove. -/
structure Candidate where
  reference : Reference
  glue : UInt32
  size : UInt32
  deriving DecidableEq

namespace Candidate

/-- The candidate with the header at a reference. -/
def ofHeader (r : Reference) (h : Header) : Candidate := ⟨r, UInt32.ofNat h.glue.toNat, h.size⟩

/-- The rank of a candidate. -/
def rank (c : Candidate) : UInt64 := ClauseStore.rank c.glue c.size.toUInt64

/-- Candidates from the least useful on; equal ranks keep their order. -/
def leastUsefulFirst (cs : List Candidate) : List Candidate :=
  stableSort (fun a b => decide (a.rank ≤ b.rank)) cs

/-- How many of some candidates a percentage of them is, rounded down. -/
def quota (candidates : Nat) (fraction : UInt32) : Nat := candidates * fraction.toNat / 100

end Candidate

end ClauseStore
