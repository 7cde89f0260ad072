import ClauseStore.Proofs.Pass
import ClauseStore.Reduction.Rows

/-!
The table behind a scan. Every row that was seen is that of a cell, so the rows that stay are linked to
their cells without a failure, and their features can be read. What is done to the table changes the
ranks, the scores and the number of rows, but neither the clause nor the identity of a row, nor the sums
of its use.
-/

namespace ClauseStore

open Cell

/-- An event that tells features, and neither the birth nor the death of a clause. -/
def Event.isFeatures : Event → Bool
  | .features .. => true
  | _ => false

/-- Which clause a row is for, whether it stays, when it was made, the sums of the use of the clause, and
when it was last used. -/
def Row.key (row : Row) : UInt32 × Reference × Bool × Bool × UInt64 × UInt64 × UInt64 × UInt64 :=
  (row.identity, row.clause, row.garbage, row.seen, row.born, row.sumProps, row.sumUips, row.touched)

namespace Table

/-- The keys of the rows, in order. -/
def keys (t : Table) : List (UInt32 × Reference × Bool × Bool × UInt64 × UInt64 × UInt64 × UInt64) :=
  t.rows.toList.map Row.key

/-- The table with the rows that stay, ranked. -/
def settled (t : Table) : Table := t.surviving.rank

/-- A revision that a view of the rows does not show leaves the view of the table. -/
theorem map_mapIdx_of_view {β : Type} {view : Row → β} (rows : Array Row) {f : Nat → Row → Row}
    (h : ∀ i row, view (f i row) = view row) :
    (rows.mapIdx f).toList.map view = rows.toList.map view := by
  apply List.ext_getElem?
  intro i
  simp only [List.getElem?_map, Array.getElem?_toList, Array.getElem?_mapIdx, Option.map_map]
  congr 1
  funext row
  exact h i row

@[simp] theorem keys_rank (t : Table) : t.rank.keys = t.keys :=
  map_mapIdx_of_view _ fun _ _ => rfl

@[simp] theorem keys_score (t : Table) (xs : List Binary64) : (t.score xs).keys = t.keys := by
  refine map_mapIdx_of_view _ fun i row => ?_
  split <;> rfl

/-- Tables that agree in some view of their rows have rows of the same view at each index. -/
theorem row?_of_map_eq {β : Type} {view : Row → β} {t t' : Table}
    (h : t'.rows.toList.map view = t.rows.toList.map view) {i : Nat} {row : Row}
    (hi : t.row? i = some row) : ∃ row', t'.row? i = some row' ∧ view row' = view row := by
  have at_i := congrArg (fun ks => ks[i]?) h
  simp only [List.getElem?_map, Array.getElem?_toList] at at_i
  rw [row?] at hi
  rw [hi] at at_i
  obtain ⟨row', hrow', view_eq⟩ := Option.map_eq_some_iff.1 at_i
  exact ⟨row', hrow', view_eq⟩

/-- Where no two rows have the same view, rows of the same view are at one index. -/
theorem index_eq_of_view_eq {β : Type} {view : Row → β} {t : Table} {i j : Nat} {row row' : Row}
    (apart : (t.rows.toList.map view).Nodup) (hi : t.row? i = some row) (hj : t.row? j = some row')
    (same : view row = view row') : i = j := by
  have lt : i < t.rows.size := (Array.getElem?_eq_some_iff.1 hi).1
  refine (List.getElem?_inj (by simpa using lt) apart).1 ?_
  rw [row?] at hi hj
  simp only [List.getElem?_map, Array.getElem?_toList, hi, hj, Option.map_some, same]

theorem mem_of_keys {t t' : Table} (h : t'.keys = t.keys) {row : Row} (hrow : row ∈ t.rows.toList) :
    ∃ row' ∈ t'.rows.toList, row'.key = row.key := by
  have : row.key ∈ t'.keys := h ▸ List.mem_map_of_mem hrow
  exact List.mem_map.1 this

end Table

namespace Database

variable {db : Database} {cs : List Cell} {t : Table}

/-- The row is that of a cell: its clause is the one that starts there, and has its identity. -/
def Owned (cs : List Cell) (row : Row) : Prop :=
  ∃ c, At 0 cs row.clause.offset c ∧ c.header.identity = row.identity

/-- The cells with the clauses of some rows linked to the indices of the rows. -/
def relinked : List (Row × Nat) → List Cell → List Cell
  | [], cs => cs
  | e :: es, cs =>
    relinked es (mapAt (Arena.only e.1.clause.offset (Header.withRow (some e.2))) 0 cs)

theorem lasting_only_withRow (k : Nat) (row : Option Nat) (j : Nat) (d : Header) :
    (Arena.only k (Header.withRow row) j d).lasting = d.lasting := by
  rw [Arena.only]
  split <;> rfl

/-- Links revise nothing else of a cell. -/
theorem lasting_relinked (es : List (Row × Nat)) (cs : List Cell) :
    (relinked es cs).map (revised Header.lasting) = cs.map (revised Header.lasting) := by
  induction es generalizing cs with
  | nil => rfl
  | cons e es ih =>
    rw [relinked, ih]
    exact map_revised_mapAt (lasting_only_withRow _ _) 0 cs

theorem identity_eq_of_lasting {c d : Cell} (h : d.revised Header.lasting = c.revised Header.lasting) :
    d.header.identity = c.header.identity := by
  obtain ⟨hp, -⟩ := revised_eq_iff.1 h
  simp only [Header.lasting, Header.mk.injEq] at hp
  exact hp.2.2.2.1

theorem Owned.of_lasting {ds : List Cell} {row : Row}
    (h : ds.map (revised Header.lasting) = cs.map (revised Header.lasting)) (owned : Owned cs row) :
    Owned ds row := by
  obtain ⟨c, hc, own⟩ := owned
  obtain ⟨d, hd, hp⟩ := hc.of_map_eq h
  exact ⟨d, hd, (identity_eq_of_lasting hp).trans own⟩

/-- A row that is that of a cell is linked to it. -/
theorem yields_relink {e : Row × Nat} (tiled : (Arena.ofCells cs).Tiled cs)
    (fits : extents cs < Reference.invalid.offset) (owned : Owned cs e.1) :
    Yields (relink e) (db.placed cs t) (.ok ())
      (db.placed (mapAt (Arena.only e.1.clause.offset (Header.withRow (some e.2))) 0 cs) t) := by
  obtain ⟨c, hc, own⟩ := owned
  have resolved : (db.placed cs t).arena.resolve? e.1.clause = some e.1.clause.offset :=
    tiled.resolve?_eq (by rw [tiled.size_eq]; exact fits) hc
  refine (yields_offsetOf resolved _).bind (Yields.get_bind (fun _ => rfl) ?_)
  simp only [arena_placed, tiled.header_eq hc, own, bne_self_eq_false]
  have step : Yields _ (db.placed cs t) _ _ :=
    yields_reviseHeader e.1.clause.offset (Header.withRow (some e.2))
  rw [arena_placed, Arena.revise_ofCells hc] at step
  exact (yields_refuseIf false _ _).bind step

/-- What lasts settles the core. -/
theorem core_of_lasting {cs ds : List Cell}
    (h : ds.map (revised Header.lasting) = cs.map (revised Header.lasting)) :
    ds.map core = cs.map core := by
  have : ∀ es : List Cell, es.map core = (es.map (revised Header.lasting)).map core := by
    intro es
    rw [List.map_map]
    rfl
  rw [this ds, this cs, h]

theorem ascending_of_lasting {cs ds : List Cell}
    (h : ds.map (revised Header.lasting) = cs.map (revised Header.lasting))
    (ascending : (cs.map identity).Pairwise (· < ·)) : (ds.map identity).Pairwise (· < ·) := by
  rwa [map_eq_of_core identity_eq_of_core (core_of_lasting h)]

theorem tiled_of_lasting {cs ds : List Cell} (sound : ∀ c ∈ cs, c.Sound)
    (h : ds.map (revised Header.lasting) = cs.map (revised Header.lasting)) :
    (Arena.ofCells ds).Tiled ds :=
  ⟨rfl, sound_of_core (core_of_lasting h) sound⟩

theorem yields_forM_relink (es : List (Row × Nat)) (sound : ∀ c ∈ cs, c.Sound)
    (fits : extents cs < Reference.invalid.offset) (owned : ∀ e ∈ es, Owned cs e.1) :
    Yields (es.forM relink) (db.placed cs t) (.ok ()) (db.placed (relinked es cs) t) := by
  induction es generalizing cs with
  | nil => exact yields_forM_nil
  | cons e es ih =>
    have keep := map_revised_mapAt
      (lasting_only_withRow e.1.clause.offset (some e.2)) 0 cs
    refine (yields_relink ⟨rfl, sound⟩ fits (owned e (by simp))).forM_cons ?_
    refine ih (sound_of_core (core_of_lasting keep) sound) ?_ fun e' he' => ?_
    · rw [extents_eq_of_map_eq keep]
      exact fits
    · exact (owned e' (by simp [he'])).of_lasting keep

/-- The rows that stay, with their new indices. -/
def entries (t : Table) : List (Row × Nat) := t.surviving.rows.toList.zipIdx

theorem mem_entries {t : Table} {e : Row × Nat} (h : e ∈ entries t) :
    t.surviving.row? e.2 = some e.1 := by
  obtain ⟨row, i⟩ := e
  have := List.mem_zipIdx_iff_getElem?.1 h
  simpa [Table.row?] using this

/-- The compaction of the table succeeds if the rows that stay are those of cells. -/
theorem yields_compactTable (sound : ∀ c ∈ cs, c.Sound)
    (fits : extents cs < Reference.invalid.offset)
    (owned : ∀ row ∈ t.surviving.rows.toList, Owned cs row) :
    Yields compactTable (db.placed cs t) (.ok ())
      (db.placed (relinked (entries t) cs) t.surviving) := by
  refine Yields.get_bind (fun _ => rfl) ?_
  refine Yields.bind (yields_forM_same fun row _ => yields_log _) ?_
  refine Yields.bind (yields_modify fun _ => rfl) ?_
  have relinks : Yields ((entries t).forM relink) (db.placed cs t.surviving) (.ok ())
      (db.placed (relinked (entries t) cs) t.surviving) :=
    yields_forM_relink (entries t) sound fits fun e he => owned e.1 (by
      have := mem_entries he
      rw [Table.row?, ← Array.getElem?_toList] at this
      exact List.mem_of_getElem? this)
  exact relinks.bind (yields_log _)

/-- The features of a row whose clause is that of a cell, after some conflicts. -/
def featureRow (conflicts : UInt64) (cs : List Cell) (row : Row) : List Binary64 :=
  row.features (UInt32.ofNat ((Arena.ofCells cs).header row.clause.offset).glue.toNat) conflicts

/-- The features of rows that are those of cells can be read. -/
theorem yields_featureMatrix (db : Database) (tiled : (Arena.ofCells cs).Tiled cs)
    (fits : extents cs < Reference.invalid.offset)
    (owned : ∀ row ∈ t.rows.toList, Owned cs row) (conflicts : UInt64) :
    Yields (featureMatrix conflicts) (db.placed cs t)
      (.ok (t.rows.toList.map (featureRow conflicts cs))) (db.placed cs t) := by
  refine Yields.get_bind (fun _ => rfl) (yields_mapM_same fun row hrow => ?_)
  obtain ⟨c, hc, -⟩ := owned row hrow
  have resolved : (db.placed cs t).arena.resolve? row.clause = some row.clause.offset :=
    tiled.resolve?_eq (by rw [tiled.size_eq]; exact fits) hc
  exact (yields_offsetOf resolved _).bind (Yields.get_bind (fun _ => rfl) (yields_pure _ _))

/-- A database that has told some more events. -/
def telling (es : List Event) (db : Database) : Database :=
  { db with events := db.events ++ es.toArray }

@[simp] theorem telling_nil (db : Database) : db.telling [] = db := by simp [telling]

theorem yields_forM_announce {α : Type} (f : α → Event) (xs : List α) (db : Database) :
    Yields (xs.forM fun x => announce (f x)) db (.ok ()) (db.telling (xs.map f)) := by
  induction xs generalizing db with
  | nil =>
    rw [List.map_nil, telling_nil]
    exact yields_pure _ _
  | cons x xs ih =>
    have rest := ih { db with events := db.events.push (f x) }
    have told_eq : ({ db with events := db.events.push (f x) } : Database).telling (xs.map f) =
        db.telling ((x :: xs).map f) := by simp [telling]
    rw [told_eq] at rest
    exact Yields.forM_cons (g := fun x => announce (f x)) (yields_announce (f x)) rest

/-- Rows of one key are those of the same cell. -/
theorem Owned.of_key {row row' : Row} (h : row'.key = row.key) (owned : Owned cs row) :
    Owned cs row' := by
  simp only [Row.key, Prod.mk.injEq] at h
  rw [Owned, h.1, h.2.1]
  exact owned

theorem owned_of_keys {t' : Table} (h : t'.keys = t.keys)
    (owned : ∀ row ∈ t.rows.toList, Owned cs row) : ∀ row ∈ t'.rows.toList, Owned cs row := by
  intro row hrow
  obtain ⟨row', hrow', key_eq⟩ := Table.mem_of_keys h.symm hrow
  exact (owned row' hrow').of_key key_eq.symm

/-- What is told of the features of the rows of a table, whose clauses are those of cells. -/
def featureEvents (conflicts : UInt64) (cs : List Cell) (t : Table) : List Event :=
  t.rows.toList.map fun row => .features row.identity (featureRow conflicts cs row)

/-- Features are told without a failure. -/
theorem yields_exportFeatures (db : Database) (tiled : (Arena.ofCells cs).Tiled cs)
    (fits : extents cs < Reference.invalid.offset)
    (owned : ∀ row ∈ t.rows.toList, Owned cs row) (conflicts : UInt64) :
    Yields (exportFeatures conflicts) (db.placed cs t) (.ok ())
      ((db.placed cs t).telling (featureEvents conflicts cs t)) := by
  have matrix := yields_featureMatrix db tiled fits owned conflicts
  have tells := yields_forM_announce (fun entry : Row × List Binary64 =>
    .features entry.1.identity entry.2)
    (t.rows.toList.zip (t.rows.toList.map (featureRow conflicts cs))) (db.placed cs t)
  have told_eq : (t.rows.toList.zip (t.rows.toList.map (featureRow conflicts cs))).map
      (fun entry : Row × List Binary64 => Event.features entry.1.identity entry.2) =
        featureEvents conflicts cs t := by
    rw [List.map_zip_eq_zipWith, List.zipWith_map_right, List.zipWith_self]
    rfl
  rw [told_eq] at tells
  exact Yields.get_bind (fun _ => rfl) (matrix.bind (tells.bind (yields_log _)))

end Database

/-- What is told of features behind a scan, once the table is up to date: those of all rows, if features
are generated and there is a listener for them. -/
def ScanPlan.exports (p : ScanPlan) (exporting : Bool) (cs : List Cell) (t : Table) : List Event :=
  if p.generating && exporting then Database.featureEvents p.conflicts cs t else []

theorem ScanPlan.isFeatures_exports (p : ScanPlan) (exporting : Bool) (cs : List Cell) (t : Table) :
    ∀ e ∈ p.exports exporting cs t, e.isFeatures = true := by
  intro e he
  rw [exports] at he
  split at he
  · obtain ⟨row, -, rfl⟩ := List.mem_map.1 he
    rfl
  · cases he

namespace Database

variable {db : Database} {cs : List Cell} {t : Table}

/-- Behind a scan that found a candidate, the table is brought up to date without a failure, if the
rows that stay are those of cells. -/
theorem yields_settleTable (db : Database) (plan : ScanPlan) (sound : ∀ c ∈ cs, c.Sound)
    (fits : extents cs < Reference.invalid.offset) (collecting : plan.collecting = true)
    (owned : ∀ row ∈ t.surviving.rows.toList, Owned cs row) :
    Yields (settleTable plan) (db.placed cs t) (.ok ())
      ((db.placed (relinked (entries t) cs) t.settled).telling
        (plan.exports db.exporting (relinked (entries t) cs) t.settled)) := by
  have lasting := lasting_relinked (entries t) cs
  have ranked_owned : ∀ row ∈ t.settled.rows.toList, Owned (relinked (entries t) cs) row :=
    owned_of_keys (Table.keys_rank _) fun row hrow => (owned row hrow).of_lasting lasting
  have fits' : extents (relinked (entries t) cs) < Reference.invalid.offset := by
    rw [extents_eq_of_map_eq lasting]
    exact fits
  have compacted : Yields _ (db.placed cs t) _ _ := yields_compactTable sound fits owned
  have ranked : Yields rankTable (db.placed (relinked (entries t) cs) t.surviving) (.ok ())
      (db.placed (relinked (entries t) cs) t.settled) := yields_modify fun _ => rfl
  rw [settleTable, if_pos collecting]
  refine compacted.bind (ranked.bind (Yields.get_bind (fun _ => rfl) ?_))
  show Yields (if (plan.generating && db.exporting) = true then _ else _) _ _ _
  rw [ScanPlan.exports]
  split
  · exact yields_exportFeatures db (tiled_of_lasting sound lasting) fits' ranked_owned plan.conflicts
  · rw [telling_nil]
    exact yields_pure _ _

end Database

end ClauseStore
