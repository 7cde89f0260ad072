import ClauseStore.Occurrences
import ClauseStore.Relocation

/-!
Watch lists. A binary clause is held only by two watches, one on each of its literals; a long clause
is watched on its first two literals, each blocked by the other. While the lists are not watching,
fresh long clauses wait in a queue. After a compaction watches and queue follow the moved records.
-/

namespace ClauseStore

/-- The watch of a binary clause on one of its literals. -/
structure BinaryWatch where
  other : Literal
  redundant : Bool
  identity : UInt32
  deriving DecidableEq, Inhabited

/-- The watch of a long clause on one of its literals. -/
structure LongWatch where
  /-- the other watched literal when the watch was made -/
  blocker : Literal
  clause : Reference
  deriving DecidableEq

/-- The watches of one literal. -/
structure WatchList where
  binary : Array BinaryWatch := #[]
  long : Array LongWatch := #[]
  deriving DecidableEq, Inhabited

/-- The watch lists of all literals, by the index of the literal, and the queue. -/
structure Watches where
  lists : Array WatchList := #[]
  /-- whether a long clause is watched as soon as it is stored -/
  watching : Bool := true
  pending : List Reference := []
  deriving DecidableEq

namespace WatchList

/-- Takes out the first watch of a binary clause; the last watch takes its place. -/
def removeBinary? (w : WatchList) (other : Literal) (identity : UInt32) : Option WatchList :=
  (w.binary.findIdx? fun b => b.identity == identity && b.other == other).map fun i =>
    { w with binary := (w.binary.setIfInBounds i (w.binary.back?.getD default)).pop }

/-- Follows a compaction: watches of dropped records are dropped. -/
def relocate (w : WatchList) (m : Relocation) : WatchList :=
  { w with long := w.long.filterMap fun x => (m.get? x.clause).map fun r => { x with clause := r } }

end WatchList

namespace Watches

/-- The list of a literal. -/
def list (w : Watches) (l : Literal) : WatchList := w.lists.getD l.index {}

/-- Revises the list of a literal. -/
def revise (w : Watches) (l : Literal) (f : WatchList → WatchList) : Watches :=
  { w with lists := (widened w.lists l.index {}).modify l.index f }

/-- The binary watches of a literal. -/
def binary (w : Watches) (l : Literal) : Array BinaryWatch := (w.list l).binary

/-- The long watches of a literal. -/
def long (w : Watches) (l : Literal) : Array LongWatch := (w.list l).long

/-- Adds a binary watch to the list of a literal. -/
def pushBinary (w : Watches) (l : Literal) (b : BinaryWatch) : Watches :=
  w.revise l fun x => { x with binary := x.binary.push b }

/-- Adds a long watch to the list of a literal. -/
def pushLong (w : Watches) (l : Literal) (b : LongWatch) : Watches :=
  w.revise l fun x => { x with long := x.long.push b }

/-- Watches the binary clause of two literals. -/
def watchBinary (w : Watches) (a b : Literal) (redundant : Bool) (identity : UInt32) : Watches :=
  (w.pushBinary a ⟨b, redundant, identity⟩).pushBinary b ⟨a, redundant, identity⟩

/-- Watches the long clause at a reference on two literals, each blocked by the other. -/
def watchLong (w : Watches) (r : Reference) (a b : Literal) : Watches :=
  (w.pushLong a ⟨b, r⟩).pushLong b ⟨a, r⟩

/-- Takes one watch of a binary clause out of the list of a literal, if it is there. -/
def dropBinary? (w : Watches) (l other : Literal) (identity : UInt32) : Option Watches :=
  ((w.list l).removeBinary? other identity).map fun x => w.revise l fun _ => x

/-- Takes out both watches of a binary clause. A literal without its watch ends the work and is
returned, with the lists as they are then. -/
def unwatchBinary (w : Watches) (a b : Literal) (identity : UInt32) : Option Literal × Watches :=
  match w.dropBinary? a b identity with
  | none => (some a, w)
  | some w =>
    match w.dropBinary? b a identity with
    | none => (some b, w)
    | some w => (none, w)

/-- Puts a long clause into the queue. -/
def queue (w : Watches) (r : Reference) : Watches := { w with pending := w.pending ++ [r] }

/-- The count of long watches, over all literals. -/
def longCount (w : Watches) : Nat := w.lists.foldl (fun n x => n + x.long.size) 0

/-- Follows a compaction: watches and queued references of dropped records are dropped. -/
def relocate (w : Watches) (m : Relocation) : Watches :=
  { w with
    lists := w.lists.map fun x => x.relocate m
    pending := w.pending.filterMap m.get? }

end Watches

end ClauseStore
