import ClauseStore.Relocation
import ClauseStore.Sorting
import ClauseStore.Statistics.Row

/-!
The table of usage statistics, a row for each redundant clause that a scan has met. Rows keep their
order; ranking writes into each row its place, as a fraction of the rows, in the order of each of
four measures of use, the greatest first and equal ones in the order of the rows.
-/

namespace ClauseStore

/-- The rows of the table. -/
structure Table where
  rows : Array Row := #[]
  deriving DecidableEq

namespace Table

/-- The count of rows. -/
def size (t : Table) : Nat := t.rows.size

/-- The row at an index. -/
def row? (t : Table) (i : Nat) : Option Row := t.rows[i]?

/-- Marks the row at an index as garbage, if it is there. -/
def markGarbage (t : Table) (i : Nat) : Table :=
  ⟨t.rows.modify i fun row => { row with garbage := true }⟩

/-- Marks every row as not seen, ahead of a scan. -/
def markUnseen (t : Table) : Table := ⟨t.rows.map fun row => { row with seen := false }⟩

/-- Adds a row. -/
def push (t : Table) (row : Row) : Table := ⟨t.rows.push row⟩

/-- Revises the row at an index, if it is there. -/
def revise (t : Table) (i : Nat) (f : Row → Row) : Table := ⟨t.rows.modify i f⟩

/-- Whether a row stays when the table is compacted. -/
def stays (row : Row) : Bool := row.seen && !row.garbage

/-- The rows that stay. -/
def surviving (t : Table) : Table := ⟨t.rows.filter stays⟩

/-- Rows that were not seen though they are not garbage. -/
def unaccounted (t : Table) : List Row :=
  t.rows.toList.filter fun row => !row.seen && !row.garbage

/-- The indices of some keys, the greatest key first and equal keys in order. -/
def descending (keys : List Binary64) : List Nat :=
  (stableSort (fun a b => b.1.atMost a.1) keys.zipIdx).map Prod.snd

/-- For each key the place of its index in the descending order, as a fraction of the keys. -/
def fractions (keys : List Binary64) : List Binary64 :=
  let total := Binary64.ofCount (UInt64.ofNat keys.length)
  let order := descending keys
  (List.range keys.length).map fun i =>
    Binary64.ofCount (UInt64.ofNat (order.idxOf i)) / total

/-- The fractions of the rows by one measure. -/
def ranksBy (t : Table) (key : Row → Binary64) : List Binary64 := fractions (t.rows.toList.map key)

/-- Writes the four ranks into each row. -/
def rank (t : Table) : Table :=
  let prop := t.ranksBy fun row => row.averageProps.fast
  let uip := t.ranksBy fun row => row.averageUips.fast
  let props := t.ranksBy fun row => .ofCount row.sumProps
  let uips := t.ranksBy fun row => .ofCount row.sumUips
  ⟨t.rows.mapIdx fun i row =>
    { row with ranks :=
        ⟨prop.getD i .zero, uip.getD i .zero, props.getD i .zero, uips.getD i .zero⟩ }⟩

/-- Writes the scores of a predictor into the rows, in order. -/
def score (t : Table) (scores : List Binary64) : Table :=
  ⟨t.rows.mapIdx fun i row =>
    match scores[i]? with
    | some x => row.score x
    | none => row⟩

/-- Follows a compaction; the row of a dropped clause refers to none. -/
def relocate (t : Table) (m : Relocation) : Table :=
  ⟨t.rows.map fun row => { row with clause := (m.get? row.clause).getD .invalid }⟩

end Table

end ClauseStore
