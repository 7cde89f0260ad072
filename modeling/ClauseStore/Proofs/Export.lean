import Mathlib.Data.List.Sort
import ClauseStore.Proofs.Filing
import ClauseStore.Proofs.Recency
import ClauseStore.Proofs.Refusal
import ClauseStore.Proofs.Survey

/-!
Export of features. Behind a scan that found a candidate, the rows that stay are those of the live
redundant clauses, one for each and in the order of their identities; and the row of a clause has what
was on record of its use before the scan. So where there is a listener, the features of just these
clauses are told, each vector with the identity of its clause.
-/

namespace ClauseStore

open Cell Database

/-! ### What features say -/

namespace Database

/-- What is on record of a use of the clause at an offset: the count of the present period, and the sum
of those before it. -/
def lifetime (db : Database) (u : Use) (o : Nat) : UInt64 :=
  ((db.arena.header o).used u).toUInt64 + db.sumOf u (db.arena.header o).identity

/-- The columns of some features that are read off the clause at an offset, after some conflicts. -/
structure Describes (db : Database) (conflicts : UInt64) (o : Nat) (xs : List Binary64) : Prop where
  length_eq : xs.length = 12
  props_eq : xs[4]? = some (.ofCount (db.lifetime .propagation o))
  uips_eq : xs[5]? = some (.ofCount (db.lifetime .uip o))
  glue_eq : xs[10]? = some (.ofCount (UInt64.ofNat (db.arena.header o).glue.toNat))
  idle_eq : xs[11]? = some (.ofCount (elapsed conflicts (db.arena.header o).touched))

end Database

/-- A glue is the same number in a word and in a double word. -/
theorem toUInt64_ofNat_glue (glue : BitVec 22) :
    (UInt32.ofNat glue.toNat).toUInt64 = UInt64.ofNat glue.toNat := by
  have lt := glue.isLt
  apply UInt64.toNat_inj.1
  rw [UInt32.toNat_toUInt64, UInt32.toNat_ofNat', UInt64.toNat_ofNat']
  omega

/-! ### Headers behind a scan -/

namespace Cell

variable {rs : List Reference} {cs ds : List Cell} {c d : Cell}

/-- A scan behind the flagging of reasons revises nothing else of a header. -/
theorem settled_of_lasting
    (lasting : ds.map (revised Header.lasting) = (flagged true rs cs).map (revised Header.lasting)) :
    ds.map (revised Header.settled) = cs.map (revised Header.settled) := by
  have through : ∀ es : List Cell, es.map (revised Header.settled) =
      (es.map (revised Header.lasting)).map (revised (Header.withFlag .reason false)) := by
    intro es
    rw [List.map_map]
    rfl
  rw [through ds, lasting, ← through]
  refine map_revised_mapAt (fun k h => ?_) 0 cs
  split <;> rfl

theorem header_of_settled (h : d.revised Header.settled = c.revised Header.settled) :
    d.header.glue = c.header.glue ∧ d.header.identity = c.header.identity ∧
      d.header.touched = c.header.touched ∧ (d.Learned ↔ c.Learned) := by
  obtain ⟨header_eq, -⟩ := revised_eq_iff.1 h
  simp only [Header.settled, Header.lasting, Header.withFlag, Flags.set, Header.mk.injEq,
    Flags.mk.injEq] at header_eq
  refine ⟨header_eq.1, header_eq.2.2.2.1, header_eq.2.2.2.2.2.2.2.1, ?_⟩
  rw [Learned, Learned, isGarbage, isGarbage, header_eq.2.1.1, header_eq.2.1.2.2.2.1]

theorem standsAs_iff_learned : c.standsAs true = true ↔ c.Learned := by
  simp [standsAs, Learned]

/-- Which clauses are live and redundant is read off what a scan does not revise. -/
theorem learned_identities_eq (h : ds.map (revised Header.settled) = cs.map (revised Header.settled)) :
    (ds.filter (standsAs true)).map (fun c => c.header.identity) =
      (cs.filter (standsAs true)).map fun c => c.header.identity := by
  have through : ∀ es : List Cell, (es.filter (standsAs true)).map (fun c => c.header.identity) =
      ((es.map (revised Header.settled)).filter (standsAs true)).map fun c => c.header.identity := by
    intro es
    rw [List.filter_map, List.map_map]
    rfl
  rw [through ds, through cs, h]

end Cell

/-! ### Rows behind a scan -/

section Rows

variable {cs : List Cell} {t : Table}

/-- Where rows and live redundant clauses belong to each other, and both are in order, they are in the
same order. -/
theorem TiedBothWays.identities_eq (bothWays : TiedBothWays cs t) (rowsOfLearned : RowsOfLearned cs t)
    (ascending : (cs.map identity).Pairwise (· < ·)) (in_order : t.identities.Pairwise (· < ·)) :
    t.identities = (cs.filter (standsAs true)).map fun c => c.header.identity := by
  have learned_order : ((cs.filter (standsAs true)).map fun c => c.header.identity).Pairwise
      (· < ·) := by
    rw [List.pairwise_map] at ascending ⊢
    exact ascending.filter _
  refine in_order.eq_of_mem_iff learned_order fun i => ⟨fun hi => ?_, fun hi => ?_⟩
  · obtain ⟨row, hrow, rfl⟩ := List.mem_map.1 hi
    obtain ⟨k, c, hc, learned, own, -⟩ := rowsOfLearned.rows row hrow
    exact List.mem_map.2 ⟨c, List.mem_filter.2 ⟨hc.mem, standsAs_iff_learned.2 learned⟩, own⟩
  · obtain ⟨c, hc, rfl⟩ := List.mem_map.1 hi
    obtain ⟨hc, stands⟩ := List.mem_filter.1 hc
    obtain ⟨k, at_c⟩ := exists_at 0 hc
    obtain ⟨j, row, -, found, own, -⟩ := bothWays.own k c at_c (standsAs_iff_learned.1 stands)
    exact Table.mem_identities.2 ⟨j, row, Table.ownAt_eq_some.2 ⟨found, own⟩⟩

/-- The features of the row of an identity. -/
def Table.vector (t : Table) (conflicts : UInt64) (cs : List Cell) (identity : UInt32) :
    List Binary64 :=
  ((t.rowOf? identity).map (featureRow conflicts cs)).getD []

/-- Where no two rows are of one identity, features are told by identity. -/
theorem Table.featureEvents_eq (apart : t.identities.Nodup) (conflicts : UInt64) (cs : List Cell) :
    featureEvents conflicts cs t =
      t.identities.map fun identity => .features identity (t.vector conflicts cs identity) := by
  rw [featureEvents, Table.identities, List.map_map]
  refine List.map_congr_left fun row hrow => ?_
  obtain ⟨i, found⟩ := Table.exists_row? hrow
  have rowOf := Table.rowOf?_eq apart (Table.ownAt_eq_some.2 ⟨found, rfl⟩)
  show _ = Event.features row.identity (t.vector conflicts cs row.identity)
  rw [Table.vector, rowOf]
  rfl

/-- A row of the account of a swept clause tells when the clause was last used. -/
theorem Swept.touched_eq {z : Cell} {row : Row} (swept : Swept z.header t) (apart : t.identities.Nodup)
    (learned : z.Learned) (there : row.account ∈ t.accounts) (own : row.identity = z.header.identity) :
    row.touched = z.header.touched := by
  obtain ⟨row₀, hrow₀, account_eq⟩ := List.mem_map.1 there
  obtain ⟨j, found₀⟩ := Table.exists_row? hrow₀
  simp only [Row.account, Prod.mk.injEq] at account_eq
  have own₀ : t.ownAt z.header.identity j = some row₀ :=
    Table.ownAt_eq_some.2 ⟨found₀, account_eq.1.trans own⟩
  obtain ⟨i, row₁, own₁, -, touched⟩ := swept.seen learned
  rw [Table.index_eq apart own₁ own₀, own₀] at own₁
  cases own₁
  exact account_eq.2.2.2.symm.trans touched

end Rows

/-! ### Clauses behind a scan -/

section Behind

variable {config : Config} {tally period : Use → UInt32 → Nat} {next next' : UInt32} {db : Database}
  {cs ds zs : List Cell} {t : Table} {o : Nat}

/-- A scan leaves the glue of a clause alone. -/
theorem Database.Holds.glue_eq (holds : db.Holds cs) (tiled : (Arena.ofCells ds).Tiled ds)
    (same : ds.map (revised Header.settled) = cs.map (revised Header.settled))
    (ho : o ∈ db.arena.liveOf true) :
    ((Arena.ofCells ds).header o).glue = (db.arena.header o).glue := by
  obtain ⟨d, hd, -, header_eq⟩ := holds.exists_learned ho
  obtain ⟨d', hd', same_d⟩ := hd.of_map_eq same
  rw [tiled.header_eq hd', header_eq]
  exact (header_of_settled same_d).1

/-- Among the rows that stay, that of a live redundant clause has what was on record of its use before the
scan. -/
theorem Posted.exists_row (posted : Posted config tally period next cs db.table) (holds : db.Holds cs)
    (behind : Posted config tally period next' zs t) (swept : ∀ z ∈ zs, Swept z.header t)
    (bothWays : TiedBothWays (relinked (entries t) zs) t.settled)
    (same : (relinked (entries t) zs).map (revised Header.settled) = cs.map (revised Header.settled))
    (ho : o ∈ db.arena.liveOf true) :
    ∃ i row, t.settled.row? i = some row ∧ row.identity = (db.arena.header o).identity ∧
      row.clause.offset = o ∧ row.touched = (db.arena.header o).touched ∧
      ∀ u, row.sum u = db.lifetime u o := by
  obtain ⟨d, hd, learned, header_eq⟩ := holds.exists_learned ho
  obtain ⟨d', hd', same_d⟩ := hd.of_map_eq same
  obtain ⟨z, hz, same_z⟩ := hd'.of_map_eq (lasting_relinked (entries t) zs).symm
  obtain ⟨-, identity_eq, touched_eq, learned_iff⟩ := header_of_settled same_d
  have learned_z : z.Learned := (learned_iff.2 learned).of_lasting same_z
  obtain ⟨i, row, -, found, own, place, -⟩ := bothWays.own o d' hd' (learned_iff.2 learned)
  have there : row.account ∈ t.accounts :=
    (Table.accounts_settled t).subset (List.mem_map_of_mem (Table.mem_of_row? found))
  have own_z : row.identity = z.header.identity := own.trans (identity_eq_of_lasting same_z).symm
  refine ⟨i, row, found, ?_, ?_, ?_, fun u => ?_⟩
  · rw [own, identity_eq, header_eq]
  · rw [place, holds.offset_ofOffset hd]
  · have same_touched : z.header.touched = d'.header.touched := by
      show z.header.lasting.touched = d'.header.lasting.touched
      rw [(revised_eq_iff.1 same_z).1]
    rw [(swept z hz.mem).touched_eq behind.apart learned_z there own_z, same_touched, touched_eq,
      header_eq]
  · rw [behind.sum_eq hz.mem (swept z hz.mem) learned_z there own_z, lifetime, header_eq, sumOf,
      (posted.metered d hd.mem).word_eq learned, ← own_z, own, identity_eq]

end Behind

/-- The rows of a table behind a scan are those of the live redundant clauses, in order; each has what was
on record of the use of its clause before the scan. -/
structure Roster (db : Database) (ds : List Cell) (t : Table) : Prop where
  ascending : t.identities.Pairwise (· < ·)
  identities_eq : t.identities = (db.arena.liveOf true).map fun o => (db.arena.header o).identity
  exists_row : ∀ o ∈ db.arena.liveOf true, ∃ row, t.rowOf? (db.arena.header o).identity = some row ∧
    row.clause.offset = o ∧ row.touched = (db.arena.header o).touched ∧ ∀ u, row.sum u = db.lifetime u o
  glue_eq : ∀ o ∈ db.arena.liveOf true,
    ((Arena.ofCells ds).header o).glue = (db.arena.header o).glue

namespace Roster

variable {db : Database} {ds : List Cell} {t : Table} {o : Nat}

theorem apart (h : Roster db ds t) : t.identities.Nodup := h.ascending.imp fun h => UInt32.ne_of_lt h

/-- What is read off the rows is read off their clauses. -/
theorem map_rows {β : Type} {view : Row → β} {f : Nat → β} (h : Roster db ds t)
    (read : ∀ o ∈ db.arena.liveOf true, ∀ row, t.rowOf? (db.arena.header o).identity = some row →
      view row = f o) : t.rows.toList.map view = (db.arena.liveOf true).map f := by
  have own : ∀ row ∈ t.rows.toList, t.rowOf? row.identity = some row := by
    intro row hrow
    obtain ⟨i, found⟩ := Table.exists_row? hrow
    exact Table.rowOf?_eq h.apart (Table.ownAt_eq_some.2 ⟨found, rfl⟩)
  have by_identity : t.rows.toList.map some = t.identities.map t.rowOf? := by
    rw [Table.identities, List.map_map]
    exact (List.map_congr_left own).symm
  refine (List.map_inj_right fun _ _ => Option.some.inj).1 ?_
  rw [List.map_map, ← Option.map_comp_some, ← List.map_map, by_identity, h.identities_eq, List.map_map,
    List.map_map, List.map_map]
  refine List.map_congr_left fun o ho => ?_
  obtain ⟨row, rowOf, -⟩ := h.exists_row o ho
  simp only [Function.comp_apply, rowOf, Option.map_some, read o ho row rowOf]

/-- The features of a row describe its clause. -/
theorem describes (h : Roster db ds t) (ho : o ∈ db.arena.liveOf true) (conflicts : UInt64) :
    db.Describes conflicts o (t.vector conflicts ds (db.arena.header o).identity) := by
  obtain ⟨row, rowOf, offset_eq, last_use, sum_eq⟩ := h.exists_row o ho
  have vector_eq : t.vector conflicts ds (db.arena.header o).identity = featureRow conflicts ds row := by
    rw [Table.vector, rowOf]
    rfl
  rw [vector_eq]
  constructor
  case length_eq => rfl
  case props_eq => exact congrArg (fun n => some (Binary64.ofCount n)) (sum_eq .propagation)
  case uips_eq => exact congrArg (fun n => some (Binary64.ofCount n)) (sum_eq .uip)
  case glue_eq =>
    show some (Binary64.ofCount (UInt32.ofNat ((Arena.ofCells _).header _).glue.toNat).toUInt64) = _
    rw [offset_eq, h.glue_eq o ho, toUInt64_ofNat_glue]
  case idle_eq =>
    exact congrArg (fun n => some (Binary64.ofCount (elapsed conflicts n))) last_use

/-- The features of the rows are told clause by clause. -/
theorem featureEvents_eq (h : Roster db ds t) (conflicts : UInt64) :
    featureEvents conflicts ds t = (db.arena.liveOf true).map fun o =>
      .features (db.arena.header o).identity (t.vector conflicts ds (db.arena.header o).identity) := by
  rw [Table.featureEvents_eq h.apart, h.identities_eq, List.map_map]
  rfl

end Roster

/-! ### What a scan exports -/

namespace Context

variable {π : Type} {c : Context π} {cs zs : List Cell} {t : Table} {p : ScanProgress}
  {rs : List Reference}

/-- Behind a scan of the whole arena, the rows that stay are those of the live redundant clauses. -/
theorem Indexed.roster (h : c.Indexed cs)
    (pass : c.plan.scanCells 0 (flagged true rs cs) (tableFor c.plan c.database.table) {} =
      (.ok p, zs, t)) : Roster c.database (relinked (entries t) zs) t.settled := by
  have holds := h.holds
  obtain ⟨tally, period, -, posted⟩ := h.posted
  have flagged_holds : (c.database.laid (flagged true rs cs)).Holds (flagged true rs cs) :=
    holds.of_core (core_flagged true rs cs)
  have springs := springs_flagged true rs cs
  have flags : Posted c.config tally period (c.database.laid (flagged true rs cs)).nextIdentity
      (flagged true rs cs) (c.database.laid (flagged true rs cs)).table := posted.inherit springs
  have flagged_filed : Filed (flagged true rs cs) (c.database.laid (flagged true rs cs)).table :=
    h.filed.of_springs springs.descends rfl
  have tracks : Tracks c.plan c.config := Reduction.tracks h.collecting
  obtain ⟨behind, swept⟩ := flags.scanned flagged_holds tracks pass
  have bothWays := behind.bothWays swept flagged_holds tracks pass
  have settled : Settlement c.plan [] (flagged true rs cs) c.database.table p
      (relinked (entries t) zs) t.settled := .linked tracks.collecting pass
  have rowsOfLearned := settled.rowsOfLearned tracks.collecting flagged_holds.fits_word
  have same := settled_of_lasting settled.lasting
  -- both the rows that stay and the clauses are in the order of identities
  have sub : t.settled.identities.Sublist t.identities := by
    rw [Table.identities_eq_accounts, Table.identities_eq_accounts]
    exact (Table.accounts_settled t).map Prod.fst
  have in_order := (flagged_filed.scanned flagged_holds flags tracks pass).sublist sub
  have apart : t.settled.identities.Nodup := in_order.imp fun h => UInt32.ne_of_lt h
  have identities_eq := bothWays.identities_eq rowsOfLearned
    (ascending_of_lasting settled.lasting flagged_holds.ascending) in_order
  refine ⟨in_order, ?_, fun o ho => ?_, fun o ho => ?_⟩
  · rw [identities_eq, learned_identities_eq same]
    refine (holds.map_liveOf true fun k d hd => ?_).symm
    rw [holds.tiled.header_eq hd]
  · obtain ⟨i, row, found, own, rest⟩ := posted.exists_row holds behind swept bothWays same ho
    exact ⟨row, Table.rowOf?_eq apart (Table.ownAt_eq_some.2 ⟨found, own⟩), rest⟩
  · exact holds.glue_eq (tiled_of_lasting flagged_holds.sound settled.lasting) same ho

/-- What a reduction exports: where its scan finds a candidate, the features of each live redundant clause
once, in the order of identities and before any deletion, and else nothing. -/
structure Exports [Predictor π] (c : Context π) (search : Snapshot) : Prop where
  found : c.finds search ≠ [] → ∃ (vector : UInt32 → List Binary64) (gone : List (UInt32 × Clause)),
    (Operation.reduce search).told c =
        (c.database.arena.liveOf true).map (fun o =>
          .features (c.database.arena.header o).identity
            (vector (c.database.arena.header o).identity)) ++
        gone.map (fun clause => .deletion clause.1 clause.2) ∧
      ∀ o ∈ c.database.arena.liveOf true, c.database.Describes c.counters.conflicts o
        (vector (c.database.arena.header o).identity)
  fruitless : c.finds search = [] → (Operation.reduce search).told c = []
  ascending : ((c.database.arena.liveOf true).map fun o =>
    (c.database.arena.header o).identity).Pairwise (· < ·)

variable [Predictor π]

theorem IndexedGenerating.exports (h : c.IndexedGenerating cs) {search : Snapshot}
    (lawful : (Operation.reduce search).Lawful c) (exporting : c.database.exporting = true) :
    c.Exports search := by
  have start_eq := c.scanStart_of_collecting h.collecting (c.whole search)
  constructor
  case found =>
    intro found
    rcases exists_surveyed h.holds lawful with ⟨none, -⟩ |
      ⟨xs, ys, -, cs', -, t', p, ms, split, start, -, -, -, settled, told⟩
    · exact absurd none found
    rw [start_eq] at start
    obtain rfl := eq_nil_of_extents start.symm
    rw [List.nil_append] at split
    subst split
    have exports : (c.plan.generating && c.database.exporting) = true := by
      rw [exporting, Bool.and_true]
      exact h.generating
    rw [ScanPlan.exports, if_pos exports] at told
    cases settled with
    | bare untracked => exact absurd (h.collecting.symm.trans untracked) (by decide)
    | @linked zs t tracked pass =>
      have roster := h.toIndexed.roster pass
      refine ⟨t.settled.vector c.counters.conflicts (relinked (entries t) zs),
        ms.map fun m => (m.2.header.identity, m.2.literals), ?_, fun o ho => roster.describes ho _⟩
      rw [told, ← roster.featureEvents_eq, List.map_map]
      rfl
  case fruitless =>
    intro none
    rcases exists_surveyed h.holds lawful with ⟨-, told⟩ | ⟨_, _, _, _, _, _, _, _, -, -, -, found, -⟩
    · exact told
    · exact absurd none found
  case ascending =>
    rw [h.holds.map_liveOf true (g := fun d => d.header.identity) fun k d hd => by
      rw [h.holds.tiled.header_eq hd]]
    have ascending := h.holds.ascending
    rw [List.pairwise_map] at ascending ⊢
    exact ascending.filter _

/-- Behind every lawful run in which features are generated from the start on and no reduction fails, a
reduction exports the features of just the live redundant clauses, if there is a listener. The sums
that they tell are the counts of the notes of use, where no count of a period overflows, and the last
column is the difference from the last use, where the count of conflicts does not wrap around. -/
theorem learned_exported (config : Config) (predictor : π) (ops : List Operation) (search : Snapshot)
    (generating : config.predicting.generating.value = true)
    (follows : (ofConfig config predictor).Follows ops)
    (generates : ∀ op ∈ ops, op.Generates)
    (succeeds : (ofConfig config predictor).Throughout Succeeds ops)
    (exporting : ((ofConfig config predictor).run ops).database.exporting = true)
    (lawful : (Operation.reduce search).Lawful ((ofConfig config predictor).run ops)) :
    ((ofConfig config predictor).run ops).Exports search ∧
      ((∀ op ∈ ops, op.configures = false) → (ofConfig config predictor).Sparse ops →
        ∀ o ∈ ((ofConfig config predictor).run ops).database.arena.liveOf true, ∀ u,
          ((ofConfig config predictor).run ops).database.lifetime u o =
            UInt64.ofNat ((ofConfig config predictor).noted u
              (((ofConfig config predictor).run ops).database.arena.header o).identity ops)) ∧
      (ops.countP Operation.conflicts < 18446744073709551616 →
        ∀ o ∈ ((ofConfig config predictor).run ops).database.arena.liveOf true,
          (elapsed ((ofConfig config predictor).run ops).counters.conflicts
              (((ofConfig config predictor).run ops).database.arena.header o).touched).toNat +
            (((ofConfig config predictor).run ops).database.arena.header o).touched.toNat =
          ((ofConfig config predictor).run ops).counters.conflicts.toNat) := by
  have start := IndexedGenerating.nil config predictor generating
  obtain ⟨cs, indexedGenerating⟩ := start.exists_run follows generates succeeds
  refine ⟨indexedGenerating.exports lawful exporting, fun fixed sparse => ?_, fun few o ho => ?_⟩
  · obtain ⟨period, ds, holds, posted, modest⟩ :=
      exists_posted_run (c := ofConfig config predictor) start.holds (posted_nil config)
        (fun _ _ => Nat.le_refl _) start.collecting follows fixed succeeds sparse.room sparse
    intro o ho u
    have word_eq := (holds.recorded posted modest).word_eq o ho u
    simp only [Nat.zero_add] at word_eq
    exact word_eq
  · have walked := (List.mem_filter.1 (List.mem_filter.1 ho).1).1
    exact elapsed_add (touched_le_conflicts config predictor follows few walked)

/-- Of four clauses the first reduction deletes the third; then the fourth is promoted, and two are new. -/
def exportingRun : List Operation :=
  [.create .redundant 5 [⟨1⟩, ⟨2⟩, ⟨3⟩, ⟨4⟩], .create .redundant 2 [⟨1⟩, ⟨2⟩, ⟨5⟩],
    .create .redundant 9 [⟨1⟩, ⟨2⟩, ⟨6⟩], .create .redundant 8 [⟨1⟩, ⟨3⟩, ⟨6⟩],
    .notePropagation (.ofOffset 0), .noteUip (.ofOffset 0), .notePropagation (.ofOffset 12),
    .notePropagation (.ofOffset 0), .noteConflict, .reduce { reasons := [.ofOffset 0] },
    .notePropagation (.ofOffset 0), .listen true, .makeIrredundant (.ofOffset 24),
    .create .redundant 9 [⟨4⟩, ⟨2⟩, ⟨6⟩], .create .redundant 9 [⟨4⟩, ⟨3⟩, ⟨6⟩]]

/-- The second reduction exports a reason, a clause that is kept for its glue and the two candidates, but
not the clause that was promoted. -/
theorem learned_exported_exportingRun :
    generatingConfig.predicting.generating.value = true ∧
      (ofConfig generatingConfig ({} : Linear)).Follows exportingRun ∧
      (∀ op ∈ exportingRun, op.Generates) ∧
      (ofConfig generatingConfig ({} : Linear)).Throughout Succeeds exportingRun ∧
      ((ofConfig generatingConfig ({} : Linear)).run exportingRun).database.exporting = true ∧
      (Operation.reduce { reasons := [.ofOffset 0] }).Lawful
        ((ofConfig generatingConfig ({} : Linear)).run exportingRun) ∧
      (ofConfig generatingConfig ({} : Linear)).Sparse exportingRun ∧
      (∃ (vector : UInt32 → List Binary64) (gone : List (UInt32 × Clause)),
        (Operation.reduce { reasons := [.ofOffset 0] }).told
            ((ofConfig generatingConfig ({} : Linear)).run exportingRun) =
          [1, 2, 5, 6].map (fun identity => .features identity (vector identity)) ++
            gone.map fun clause => .deletion clause.1 clause.2) ∧
      ((ofConfig generatingConfig ({} : Linear)).run exportingRun).database.lifetime .propagation 0 =
        3 ∧
      exportingRun.countP Operation.conflicts < 18446744073709551616 ∧
      (elapsed 1 (((ofConfig generatingConfig ({} : Linear)).run exportingRun).database.arena.header
        12).touched).toNat = 1 := by
  have generating : generatingConfig.predicting.generating.value = true := by decide
  have follows : (ofConfig generatingConfig ({} : Linear)).Follows exportingRun := by decide +kernel
  have generates : ∀ op ∈ exportingRun, op.Generates := by decide
  have succeeds : (ofConfig generatingConfig ({} : Linear)).Throughout Succeeds exportingRun := by
    decide +kernel
  have exporting : ((ofConfig generatingConfig ({} : Linear)).run exportingRun).database.exporting =
      true := by decide +kernel
  have lawful : (Operation.reduce { reasons := [.ofOffset 0] }).Lawful
      ((ofConfig generatingConfig ({} : Linear)).run exportingRun) := by decide +kernel
  have sparse : (ofConfig generatingConfig ({} : Linear)).Sparse exportingRun :=
    sparse_of_length (by decide)
  have found : ((ofConfig generatingConfig ({} : Linear)).run exportingRun).finds
      { reasons := [.ofOffset 0] } ≠ [] := by decide +kernel
  have identities : (((ofConfig generatingConfig ({} : Linear)).run exportingRun).database.arena.liveOf
      true).map (fun o => (((ofConfig generatingConfig ({} : Linear)).run exportingRun).database.arena.header
        o).identity) = [1, 2, 5, 6] := by decide +kernel
  have live : 0 ∈ ((ofConfig generatingConfig ({} : Linear)).run exportingRun).database.arena.liveOf
      true := by decide +kernel
  have identity_eq : (((ofConfig generatingConfig ({} : Linear)).run exportingRun).database.arena.header
      0).identity = 1 := by decide +kernel
  have noted_eq : (ofConfig generatingConfig ({} : Linear)).noted .propagation 1 exportingRun = 3 := by
    decide +kernel
  have few : exportingRun.countP Operation.conflicts < 18446744073709551616 := by decide
  have beside : 12 ∈ ((ofConfig generatingConfig ({} : Linear)).run exportingRun).database.arena.liveOf
      true := by decide +kernel
  have touched_eq : (((ofConfig generatingConfig ({} : Linear)).run exportingRun).database.arena.header
      12).touched = 0 := by decide +kernel
  have conflicts_eq : ((ofConfig generatingConfig ({} : Linear)).run exportingRun).counters.conflicts =
      1 := by decide +kernel
  obtain ⟨exports, lifetimes, idle⟩ := learned_exported generatingConfig ({} : Linear) exportingRun
    { reasons := [.ofOffset 0] } generating follows generates succeeds exporting lawful
  refine ⟨generating, follows, generates, succeeds, exporting, lawful, sparse, ?_, ?_, few, ?_⟩
  · obtain ⟨vector, gone, told, -⟩ := exports.found found
    refine ⟨vector, gone, ?_⟩
    rw [told, ← identities, List.map_map]
    rfl
  · rw [lifetimes (by decide) sparse 0 live .propagation, identity_eq, noted_eq]
    rfl
  · have since := idle few 12 beside
    rw [conflicts_eq, touched_eq] at since
    rw [touched_eq]
    exact since

end Context

end ClauseStore
