import ClauseStore.Arena
import ClauseStore.Relocation

/-!
Compaction of the arena within its own words. Two places go through the arena from a start on: records
are read at the one and written at the other, which is never ahead, so that no word is written over
before it is read. Garbage records are left out, and the others are moved toward the start, in order,
with their live literals only. An odd record is filled up with the word that already stands at the place
of the filling.
-/

namespace ClauseStore

namespace Arena

/-- Copies some words from a place on to another one; the two stretches may overlap. -/
def copyWithin (a : Arena) (source count target : Nat) : Arena :=
  a.write target (a.words.extract source (source + count)).toList

/-- The first words. -/
def truncate (a : Arena) (count : Nat) : Arena := ⟨a.words.extract 0 count⟩

theorem size_copyWithin (a : Arena) (source count target : Nat) :
    (a.copyWithin source count target).size = a.size := size_write ..

theorem size_revise (a : Arena) (offset : Nat) (f : Header → Header) : (a.revise offset f).size = a.size :=
  size_write ..

end Arena

/-- How far a compaction has come, the moves made, and what it met on the way. -/
structure Compaction where
  /-- behind the words that are written stand those of the arena before -/
  arena : Arena
  /-- where the next record is read -/
  read : Nat
  /-- where it is written -/
  write : Nat
  moves : Array (Reference × Reference) := #[]
  /-- garbage records left out -/
  dropped : Nat := 0
  /-- bytes of the records left out -/
  reclaimed : Nat := 0
  /-- the first survivor that is redundant and not kept -/
  firstReducible : Reference := .invalid
  /-- the last survivor that is irredundant -/
  lastIrredundant : Reference := .invalid

namespace Compaction

/-- Leaves out the record that is read. -/
def skip (c : Compaction) : Compaction :=
  let span := c.arena.span c.read
  { c with
    read := c.read + span
    dropped := c.dropped + 1
    reclaimed := c.reclaimed + span * wordBytes }

/-- The arena with the record that is read also where it is written. -/
def shifted (c : Compaction) : Arena :=
  let count := Header.wordCount + (c.arena.header c.read).size.toNat
  if c.read = c.write then c.arena else c.arena.copyWithin c.read count c.write

/-- Moves the record that is read. -/
def shift (c : Compaction) : Compaction :=
  let h := c.arena.header c.read
  let new := Reference.ofOffset c.write
  { c with
    arena := c.shifted.revise c.write (Header.withFlag .shrunken false)
    read := c.read + c.arena.span c.read
    write := c.write + aligned (Header.wordCount + h.size.toNat)
    moves := c.moves.push (Reference.ofOffset c.read, new)
    firstReducible :=
      if h.flags.redundant && !h.flags.keep && !c.firstReducible.isValid then new
      else c.firstReducible
    lastIrredundant := if h.flags.redundant then c.lastIrredundant else new }

/-- Takes in the record that is read. -/
def step (c : Compaction) : Compaction :=
  if (c.arena.header c.read).flags.garbage then c.skip else c.shift

theorem size_step (c : Compaction) : c.step.arena.size = c.arena.size := by
  rw [step]
  split
  · rfl
  · rw [shift, Arena.size_revise, shifted]
    split
    · rfl
    · exact Arena.size_copyWithin ..

theorem read_step (c : Compaction) : c.step.read = c.read + c.arena.span c.read := by
  rw [step]
  split <;> rfl

/-- Takes in the records from where they are read on, and says whether the walk came to the end of the
arena; otherwise it stopped where no header fits. -/
def run (c : Compaction) : Compaction × Bool :=
  if c.read < c.arena.size then
    if c.arena.resolves c.read then run c.step else (c, false)
  else (c, true)
termination_by c.arena.size - c.read
decreasing_by
  have := c.arena.wordCount_le_span c.read
  simp only [Header.wordCount] at this
  rw [size_step, read_step]
  omega

/-- A compaction from a start on that has not taken in any record. -/
def ofStart (a : Arena) (start : Nat) : Compaction := { arena := a, read := start, write := start }

/-- The arena of the records that were written. -/
def compacted (c : Compaction) : Arena := c.arena.truncate c.write

/-- The movement of records by a compaction from a start on. -/
def relocation (c : Compaction) (start : Reference) : Relocation := ⟨start, c.moves⟩

end Compaction

end ClauseStore
