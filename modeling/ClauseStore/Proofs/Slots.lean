import ClauseStore.Proofs.Births
import ClauseStore.Proofs.Ranking

/-!
Slots. The rows that a scan leaves are those of the live redundant clauses in the order of their identities,
so the row, the vector of features and the score of a clause stand at the same place of the table, of the
batch and of what is read back. The rows beyond the best ones are slots, from the worst on, and an eviction
by score marks those clauses of slots that may go.
-/

namespace ClauseStore

open Cell Database

/-! ### Scores of rows -/

namespace Table

variable {t t₀ : Table} {xs : List Binary64} {conflicts : UInt64}

/-- The last two scores of the clause of an identity: zero if the clause was never scored. -/
def prediction (t : Table) (identity : UInt32) : Binary64 × Binary64 :=
  (t.scores.lookup identity).getD (.zero, .zero)

/-- Behind a scan the rows have the scores that their clauses had before it. -/
theorem Continues.scores_eq (h : Continues t₀ t conflicts) (apart : t.identities.Nodup) :
    t.scores = t.identities.map fun i => (i, t₀.prediction i) := by
  rw [Table.scores_eq, h.histories_eq apart, List.map_map]
  refine List.map_congr_left fun i _ => Prod.ext rfl ?_
  rw [prediction, Table.scores_eq]
  have view : (t₀.histories.map fun h => (h.1, h.2.2)).lookup i = (t₀.histories.lookup i).map Prod.snd :=
    lookup_map Prod.snd t₀.histories i
  show ((t₀.histories.lookup i).getD _).2 = ((t₀.histories.map fun h => (h.1, h.2.2)).lookup i).getD _
  rw [view]
  cases t₀.histories.lookup i <;> rfl

end Table

/-! ### Clauses from the best score on -/

/-- A clause is of a better score than another: of a greater one in the total order of numbers, or of the
same one and stored before. Clauses are given by their offsets. -/
def Outscores (header : Nat → Header) (a b : Nat × Binary64) : Prop :=
  b.2.rank < a.2.rank ∨ a.2 = b.2 ∧ (header a.1).identity < (header b.1).identity

instance (header : Nat → Header) (a b : Nat × Binary64) : Decidable (Outscores header a b) :=
  inferInstanceAs (Decidable (_ ∨ _))

namespace Roster

variable {db : Database} {ds : List Cell} {t : Table} {xs : List Binary64}

theorem offsets_eq (h : Roster db ds t) :
    t.rows.toList.map (fun row => row.clause.offset) = db.arena.liveOf true := by
  refine (h.map_rows fun o ho row rowOf => ?_).trans (List.map_id _)
  obtain ⟨row', rowOf', offset_eq, -⟩ := h.exists_row o ho
  cases rowOf.symm.trans rowOf'
  exact offset_eq

theorem size_eq (h : Roster db ds t) : t.size = (db.arena.liveOf true).length := by
  rw [← h.offsets_eq, List.length_map]
  rfl

/-- A row is of the identity of its clause. -/
theorem identity_eq (h : Roster db ds t) {row : Row} (hrow : row ∈ t.rows.toList) :
    row.clause.offset ∈ db.arena.liveOf true ∧
      (db.arena.header row.clause.offset).identity = row.identity := by
  have listed : row.identity ∈ (db.arena.liveOf true).map fun o => (db.arena.header o).identity :=
    h.identities_eq ▸ List.mem_map_of_mem hrow
  obtain ⟨o, ho, own⟩ := List.mem_map.1 listed
  obtain ⟨row', rowOf', offset_eq, -⟩ := h.exists_row o ho
  obtain ⟨i, found⟩ := Table.exists_row? hrow
  have rowOf := Table.rowOf?_eq h.apart (Table.ownAt_eq_some.2 ⟨found, own.symm⟩)
  cases rowOf.symm.trans rowOf'
  rw [offset_eq]
  exact ⟨ho, own⟩

end Roster

/-! ### Evictions by score -/

namespace Context

section Found

variable {π : Type} {c : Context π} {ys zs : List Cell} {start : Reference} {t : Table} {p : ScanProgress}
  (h : c.database.Holds ys) (hs : start.offset = 0) (byScore : c.config.predicting.byScore.value = true)
  (pass : c.plan.scanCells 0 ys (tableFor c.plan c.database.table) {} = (.ok p, zs, t))
  (found : p.candidates.toList ≠ [])

include h byScore pass

include hs found

variable [Predictor π]

end Found

end Context

end ClauseStore
