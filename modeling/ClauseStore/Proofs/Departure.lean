import ClauseStore.Proofs.Survey
import ClauseStore.Proofs.Usage

/-!
Rows of clauses that depart. A scan sees the row of every live redundant clause, and ends the rows of
the clauses that are garbage or irredundant; so a row that it neither sees nor finds ended is one that
no clause is linked to any more. Where no reduction fails there is one way for a row to come to that:
a clause is marked as garbage behind its promotion, which does not end its row, and a collection drops
it before a scan meets it.
-/

namespace ClauseStore

open Cell Database

/-- No clause is linked to some row that is not garbage. -/
def Orphaned (bs : List Tie) (t : Table) : Prop :=
  ∃ i row, t.row? i = some row ∧ row.garbage = false ∧ some i ∉ bs.map Tie.row?

/-- The row of a clause is garbage just where the clause is, and was not promoted before. -/
def Truthful (bs : List Tie) (t : Table) : Prop :=
  ∀ b ∈ bs, ∀ i row, b.row? = some i → t.row? i = some row → row.garbage = (b.garbage && b.redundant)

/-- Every row that is not garbage is that of a live redundant clause. -/
def Housed (bs : List Tie) (t : Table) : Prop :=
  ∀ i row, t.row? i = some row → row.garbage = false → ∃ b ∈ bs, b.Learned ∧ b.row? = some i

theorem Table.exists_row?_iff {t : Table} {P : Row → Prop} :
    (∃ i row, t.row? i = some row ∧ P row) ↔ ∃ row ∈ t.rows.toList, P row := by
  constructor
  · rintro ⟨i, row, found, holds⟩
    exact ⟨row, mem_of_row? found, holds⟩
  · rintro ⟨row, hrow, holds⟩
    obtain ⟨i, found⟩ := exists_row? hrow
    exact ⟨i, row, found, holds⟩

/-- Some rows are unaccounted for, if one is neither seen nor garbage. -/
theorem Table.unaccounted_ne_nil {t : Table} : t.unaccounted ≠ [] ↔
    ∃ i row, t.row? i = some row ∧ row.seen = false ∧ row.garbage = false := by
  rw [exists_row?_iff (P := fun row => row.seen = false ∧ row.garbage = false), unaccounted]
  simp [List.filter_eq_nil_iff]

namespace Database

/-- No record is linked to some row that is not garbage. -/
def Orphans (db : Database) : Prop := Orphaned db.ties db.table

/-- A collection from a start drops an irredundant clause that is linked to a row. -/
def Abandons (db : Database) (start : Reference) : Prop :=
  ∃ o ∈ (db.arena.walkFrom 0).1, start.offset ≤ o ∧ (db.arena.header o).flags.garbage = true ∧
    (db.arena.header o).flags.redundant = false ∧ (db.arena.header o).row?.isSome = true

instance (db : Database) (start : Reference) : Decidable (db.Abandons start) :=
  inferInstanceAs (Decidable (∃ o ∈ (db.arena.walkFrom 0).1, _ ∧ _ ∧ _ ∧ _))

end Database

namespace Context

variable {π : Type}

/-- The call is a collection that drops an irredundant clause linked to a row. -/
def Abandons : Operation → Context π → Prop
  | .collect start, c => c.database.Abandons start
  | _, _ => False

variable [Predictor π]

/-- The call is not a reduction that removes clauses, and so brings the table up to date. -/
def Idles (op : Operation) (c : Context π) : Prop :=
  op.reduces = true → ∀ n after, op.answer c ≠ .ok (.reported (.reduced n) after)

/-- Since the table was last brought up to date, a collection has dropped an irredundant clause linked to
a row. -/
def Abandoned (c : Context π) (ops : List Operation) : Prop :=
  ∃ earlier op later, ops = earlier ++ op :: later ∧ Abandons op (c.run earlier) ∧
    (op.after (c.run earlier)).Throughout Idles later

end Context

/-! ### Rows under a pass -/

namespace ScanPlan

variable {p : ScanPlan} {k i : Nat} {h h' : Header} {t t' : Table} {progress : ScanProgress}
  {r : Except Error ScanProgress} {row : Row} {cs zs : List Cell}

/-- A row that a step leaves unseen was there before, and unseen. -/
theorem Step.exists_unseen (step : Step p k h t progress r h' t') (found : t'.row? i = some row)
    (unseen : row.seen = false) : ∃ row₀, t.row? i = some row₀ ∧ row₀.seen = false := by
  have ended : (t.ended h).row? i = some row → ∃ row₀, t.row? i = some row₀ ∧ row₀.seen = false := by
    intro found
    rw [Table.row?_ended] at found
    split at found
    · obtain ⟨row₀, found₀, rfl⟩ := Option.map_eq_some_iff.1 found
      exact ⟨row₀, found₀, unseen⟩
    · exact ⟨row, found, unseen⟩
  cases step with
  | irredundant => exact ended found
  | early => exact ⟨row, found, unseen⟩
  | garbage => exact ended found
  | untracked => exact ⟨row, found, unseen⟩
  | linked =>
    rw [Table.row?_revise] at found
    split at found
    · obtain ⟨row₀, -, rfl⟩ := Option.map_eq_some_iff.1 found
      simp at unseen
    · exact ⟨row, found, unseen⟩
  | fresh =>
    rw [Table.row?_revise, Table.row?_push] at found
    split at found
    · obtain ⟨row₀, -, rfl⟩ := Option.map_eq_some_iff.1 found
      simp at unseen
    next other =>
      rw [if_neg (Ne.symm other)] at found
      exact ⟨row, found, unseen⟩
  | missing => exact ⟨row, found, unseen⟩
  | mismatch => exact ⟨row, found, unseen⟩

theorem Pass.exists_unseen (pass : Pass p k cs t progress r zs t') (found : t'.row? i = some row)
    (unseen : row.seen = false) : ∃ row₀, t.row? i = some row₀ ∧ row₀.seen = false := by
  induction pass with
  | nil => exact ⟨row, found, unseen⟩
  | failed step => exact step.exists_unseen found unseen
  | cons step _ ih =>
    obtain ⟨row₁, found₁, unseen₁⟩ := ih found
    exact step.exists_unseen found₁ unseen₁

end ScanPlan

/-! ### Rows behind a scan -/

section Scan

variable {config : Config} {plan : ScanPlan} {db : Database} {ys zs : List Cell} {t : Table}
  {r : Except Error ScanProgress}

/-- The rows that a scan neither sees nor finds garbage are those that no clause was linked to. -/
theorem Scanned.orphaned_iff (h : Scanned plan ys db r zs t) :
    (∃ i row, t.row? i = some row ∧ row.seen = false ∧ row.garbage = false) ↔
      Orphaned (ys.map tie) db.table := by
  constructor
  · rintro ⟨i, row, found, unseen, live⟩
    obtain ⟨row₀, found₀, -⟩ := h.pass.exists_unseen found unseen
    obtain ⟨row', found', -, garbage_eq, -⟩ := h.passed.rows i row₀ found₀
    rw [found] at found'
    cases found'
    rw [live, eq_comm, Bool.or_eq_false_iff, List.any_eq_false] at garbage_eq
    obtain ⟨live₀, unended⟩ := garbage_eq
    rw [Table.row?_markUnseen] at found₀
    obtain ⟨row₁, found₁, rfl⟩ := Option.map_eq_some_iff.1 found₀
    refine ⟨i, row₁, found₁, live₀, fun linked => ?_⟩
    obtain ⟨b, hb, link⟩ := List.mem_map.1 linked
    obtain ⟨c, hc, rfl⟩ := List.mem_map.1 hb
    obtain ⟨k, at_c⟩ := exists_at 0 hc
    obtain ⟨z, at_z, -⟩ := at_c.of_map_eq h.pass.lasting
    have link : c.header.row? = some i := link
    by_cases learned : c.Learned
    · obtain ⟨j, row', -, found', -, -, seen, same | ⟨none, -⟩⟩ := h.passed.learned k c z at_c at_z learned
      · rw [link] at same
        cases same
        rw [found] at found'
        cases found'
        rw [unseen] at seen
        cases seen
      · rw [link] at none
        cases none
    · refine unended c.tie hb ?_
      rw [ScanPlan.ends_of_not_learned (b := c.tie) learned, beq_iff_eq]
      exact link
  · rintro ⟨i, row, found, live, unlinked⟩
    refine ⟨i, { row with seen := false }, ?_, rfl, live⟩
    refine h.pass.row?_of_foreign (fun c hc link => ?_) (by rw [Table.row?_markUnseen, found]; rfl)
    exact unlinked (List.mem_map.2 ⟨c.tie, List.mem_map_of_mem hc, link⟩)

/-- A scan leaves orphaned rows orphaned. -/
theorem Scanned.orphaned (h : Scanned plan ys db r zs t) (orphaned : Orphaned (ys.map tie) db.table)
    (narrow : t.size ≤ 2147483648) : Orphaned (zs.map tie) t := by
  obtain ⟨i, row, found, live, unlinked⟩ := orphaned
  have foreign : ∀ c ∈ ys, c.header.row? ≠ some i := fun c hc link =>
    unlinked (List.mem_map.2 ⟨c.tie, List.mem_map_of_mem hc, link⟩)
  have kept : t.row? i = some { row with seen := false } :=
    h.pass.row?_of_foreign foreign (by rw [Table.row?_markUnseen, found]; rfl)
  refine ⟨i, _, kept, live, fun linked => ?_⟩
  obtain ⟨b, hb, link⟩ := List.mem_map.1 linked
  obtain ⟨z, hz, rfl⟩ := List.mem_map.1 hb
  obtain ⟨k, at_z⟩ := exists_at 0 hz
  obtain ⟨c, at_c, -, -⟩ := h.pass.origin at_z
  have link : z.header.row? = some i := link
  by_cases learned : c.Learned
  · -- the row of the clause was seen, which the orphaned one was not
    obtain ⟨j, row', link', found', -, -, seen, -⟩ := h.passed.learned k c z at_c at_z learned
    have := Table.lt_size_of_row? found'
    rw [link' (by omega)] at link
    cases link
    rw [kept] at found'
    cases found'
    cases seen
  · rw [h.passed.other k c z at_c at_z learned] at link
    split at link
    · exact foreign c at_c.mem link
    · cases link

/-- Behind a scan, the rows that are not garbage are those of live redundant clauses, if none was
orphaned. -/
theorem Scanned.housed (h : Scanned plan ys db r zs t) (accounted : ¬ Orphaned (ys.map tie) db.table)
    (narrow : t.size ≤ 2147483648) : Housed (zs.map tie) t := by
  intro i row found live
  have seen : row.seen = true := by
    refine Bool.of_not_eq_false fun unseen => accounted ?_
    exact h.orphaned_iff.1 ⟨i, row, found, unseen, live⟩
  obtain ⟨k, z, at_z, learned, -, place, -⟩ := h.anchored.own i row found seen
  obtain ⟨c, at_c, -, flags_eq⟩ := h.pass.origin at_z
  have learned_c : c.Learned := by
    rw [Learned, isGarbage, flags_eq]
    exact learned
  obtain ⟨j, row', link, found', -, place', seen', -⟩ := h.passed.learned k c z at_c at_z learned_c
  have same := h.anchored.apart i j row row' found found' seen seen' (place.trans place'.symm)
  have := Table.lt_size_of_row? found'
  exact ⟨z.tie, List.mem_map_of_mem at_z.mem, learned, same ▸ link (by omega)⟩

/-- Behind a scan, rows are garbage just where their clauses are, if garbage was linked to its own rows. -/
theorem Scanned.truthful (h : Scanned plan ys db r zs t) (tied : TiedToRows config db ys)
    (clean : Clean (ys.map tie) db.table) (narrow : t.size ≤ 2147483648) : Truthful (zs.map tie) t := by
  obtain ⟨mark, -, linked⟩ := tied.linked
  have standing_eq := Table.standing_markUnseen db.table
  have alive := h.passed.alive h.pass (linked.of_standing standing_eq) tied.holds.ascending
    (tied.alive.of_standing standing_eq) (tied.not_strayed clean) narrow
  intro b hb i row link found
  by_cases learned : b.Learned
  · rw [alive b hb learned i row link found, learned.1, Bool.false_and]
  obtain ⟨z, hz, rfl⟩ := List.mem_map.1 hb
  obtain ⟨k, at_z⟩ := exists_at 0 hz
  obtain ⟨c, at_c, -, flags_eq⟩ := h.pass.origin at_z
  have other : ¬ c.Learned := by
    rw [Learned, isGarbage, flags_eq]
    exact learned
  -- only a clause that was garbage keeps its link, and its row has ended
  have link_eq : z.tie.row? = if c.header.flags.redundant then c.header.row? else none :=
    h.passed.other k c z at_c at_z other
  rw [link] at link_eq
  cases redundant : c.header.flags.redundant with
  | false =>
    rw [redundant] at link_eq
    cases link_eq
  | true =>
    rw [redundant, if_pos rfl] at link_eq
    have garbage : c.isGarbage = true := Bool.of_not_eq_false fun live => other ⟨live, redundant⟩
    have hb : c.tie ∈ ys.map tie := List.mem_map_of_mem at_c.mem
    rcases clean c.tie hb garbage with none | ⟨j, row₀, link₀, found₀, -⟩
    · exact absurd (link_eq.trans none) (Option.some_ne_none i)
    have same : some i = some j := link_eq.trans link₀
    cases same
    obtain ⟨row', found', -, garbage_eq, -⟩ := h.passed.rows i { row₀ with seen := false }
      (by rw [Table.row?_markUnseen, found₀]; rfl)
    rw [found] at found'
    cases found'
    have ended : ((ys.map tie).any fun b => b.ends i) = true := by
      refine List.any_eq_true.2 ⟨c.tie, hb, ?_⟩
      rw [ScanPlan.ends_of_not_learned (b := c.tie) other, beq_iff_eq]
      exact link_eq.symm
    have flags : z.tie.garbage = true ∧ z.tie.redundant = true :=
      ⟨(congrArg Flags.garbage flags_eq).symm.trans garbage,
        (congrArg Flags.redundant flags_eq).symm.trans redundant⟩
    rw [garbage_eq, ended, Bool.or_true, flags.1, flags.2]
    rfl

end Scan

/-! ### Rows behind the compaction of the table -/

/-- The rows that clauses are tied to both ways are theirs, where all rows are those of clauses. -/
theorem TiedBothWays.housed {cs : List Cell} {t : Table} (h : TiedBothWays cs t)
    (rowsOfLearned : RowsOfLearned cs t) : Housed (cs.map tie) t := by
  intro i row found live
  obtain ⟨k, c, hc, learned, -, place⟩ := rowsOfLearned.rows row (Table.mem_of_row? found)
  obtain ⟨j, row', link, found', -, place', -⟩ := h.own k c hc learned
  have same := Table.index_eq_of_view_eq rowsOfLearned.apart found found' (place.trans place'.symm)
  exact ⟨c.tie, List.mem_map_of_mem hc.mem, learned, same ▸ link⟩

/-- Where all clauses are live and tied both ways, their rows are not garbage. -/
theorem TiedBothWays.truthful {cs : List Cell} {t : Table} (h : TiedBothWays cs t)
    (live : ∀ c ∈ cs, c.isGarbage = false) : Truthful (cs.map tie) t := by
  intro b hb i row link found
  obtain ⟨c, hc, rfl⟩ := List.mem_map.1 hb
  have live_c : c.tie.garbage = false := live c hc
  rw [live_c, Bool.false_and]
  obtain ⟨k, at_c⟩ := exists_at 0 hc
  cases redundant : c.header.flags.redundant with
  | false =>
    have link : c.header.row? = some i := link
    rw [h.free c hc redundant] at link
    cases link
  | true =>
    obtain ⟨j, row', link', found', -, -, alive⟩ := h.own k c at_c ⟨live_c, redundant⟩
    have same : some i = some j := (show c.header.row? = some i from link).symm.trans link'
    cases same
    rw [found] at found'
    cases found'
    exact alive

/-- A row that the marks of some clauses leave is that of none of them. -/
theorem row?_of_endedAll {ms : List Placed} {t : Table} {i : Nat} {row : Row}
    (found : (endedAll ms t).row? i = some row) (live : row.garbage = false) :
    t.row? i = some row ∧ ∀ m ∈ ms, m.2.header.row? ≠ some i := by
  induction ms generalizing t with
  | nil => exact ⟨found, by simp⟩
  | cons m ms ih =>
    obtain ⟨before, foreign⟩ := ih (t := t.ended m.2.header) found
    rw [Table.row?_ended] at before
    split at before
    · obtain ⟨row₀, -, rfl⟩ := Option.map_eq_some_iff.1 before
      cases live
    next other => exact ⟨before, by simpa [other] using foreign⟩

/-- The marks of clauses end their rows. -/
theorem Housed.markedAll {cs : List Cell} {t : Table} {ms : List Placed} (h : Housed (cs.map tie) t)
    (placed : ∀ m ∈ ms, At 0 cs m.1 m.2) : Housed ((markAll ms cs).map tie) (endedAll ms t) := by
  intro i row found live
  obtain ⟨before, foreign⟩ := row?_of_endedAll found live
  obtain ⟨b, hb, learned, link⟩ := h i row before live
  obtain ⟨c, hc, rfl⟩ := List.mem_map.1 hb
  obtain ⟨k, at_c⟩ := exists_at 0 hc
  have unmarked : k ∉ ms.map Prod.fst := by
    intro marked
    obtain ⟨m, hm, rfl⟩ := List.mem_map.1 marked
    refine foreign m hm ?_
    rw [(placed m hm).unique at_c]
    exact link
  rw [markAll_eq]
  refine ⟨c.tie, List.mem_map.2 ⟨c, ?_, rfl⟩, learned, link⟩
  exact (at_mapAt.2 ⟨c, at_c, by rw [Cell.revised, if_neg unmarked]⟩).mem

theorem Housed.not_orphaned {bs : List Tie} {t : Table} (h : Housed bs t) : ¬ Orphaned bs t := by
  rintro ⟨i, row, found, live, unlinked⟩
  obtain ⟨b, hb, -, link⟩ := h i row found live
  exact unlinked (List.mem_map.2 ⟨b, hb, link⟩)

/-- A collection drops no live clause. -/
theorem Housed.collected {cs : List Cell} {t : Table} (h : Housed (cs.map tie) t) (fill : Nat → UInt32)
    (n : Nat) (m : Relocation) : Housed ((settle fill n cs).map tie) (t.relocate m) := by
  intro i row found live
  obtain ⟨row₀, found₀, same⟩ := Table.row?_of_map_eq (Table.standing_relocate t m).symm found
  obtain ⟨b, hb, learned, link⟩ := h i row₀ found₀ ((congrArg Prod.snd same).trans live)
  obtain ⟨c, hc, rfl⟩ := List.mem_map.1 hb
  refine ⟨c.tie, ?_, learned, link⟩
  rw [ties_settle]
  have live_c : c.isGarbage = false := learned.1
  exact List.mem_map_of_mem (List.mem_filter.2 ⟨hc, by rw [live_c]; rfl⟩)

/-- A collection leaves orphaned rows orphaned. -/
theorem Orphaned.collected {xs ys : List Cell} {t : Table} (h : Orphaned ((xs ++ ys).map tie) t)
    (fill : Nat → UInt32) (n : Nat) (m : Relocation) :
    Orphaned ((xs ++ settle fill n ys).map tie) (t.relocate m) := by
  obtain ⟨i, row, found, live, unlinked⟩ := h
  obtain ⟨row', found', same⟩ := Table.row?_of_map_eq (Table.standing_relocate t m) found
  refine ⟨i, row', found', (congrArg Prod.snd same).trans live, fun linked => unlinked ?_⟩
  exact List.map_subset _ (ties_settle_subset ..) linked

theorem Truthful.subset {bs bs' : List Tie} {t : Table} (h : Truthful bs t) (sub : bs' ⊆ bs) :
    Truthful bs' t :=
  fun b hb => h b (sub hb)

theorem Truthful.of_standing {bs : List Tie} {t t' : Table} (h : Truthful bs t)
    (standing_eq : t'.standing = t.standing) : Truthful bs t' := by
  intro b hb i row' link found'
  obtain ⟨row, found, same⟩ := Table.row?_of_map_eq standing_eq.symm found'
  exact (congrArg Prod.snd same).symm.trans (h b hb i row link found)

/-! ### Rows behind a reduction -/

namespace Eviction

variable {config : Config} {plan : ScanPlan} {fraction : UInt32} {db db' : Database} {ys cs : List Cell}
  {r : Except Error (Option Nat)}

/-- An eviction that finds no candidate keeps rows truthful, orphans none, and leaves orphaned what was. -/
theorem accounted (h : Eviction plan fraction [] ys db (.ok none) db' cs) (tied : TiedToRows config db ys)
    (tracks : Tracks plan config) (clean : Clean (ys.map tie) db.table)
    (narrow : db'.table.size ≤ 2147483648) : Truthful (cs.map tie) db'.table ∧
      (¬ Orphaned (ys.map tie) db.table → Housed (cs.map tie) db'.table) ∧
      (Orphaned (ys.map tie) db.table → Orphaned (cs.map tie) db'.table) := by
  cases h with
  | idle pass =>
    have scanned := tied.scanned tracks pass
    exact ⟨scanned.truthful tied clean narrow, fun accounted => scanned.housed accounted narrow,
      fun orphaned => scanned.orphaned orphaned narrow⟩

/-- An eviction that removes clauses leaves no other rows than those of the clauses that are left. -/
theorem housed {n : Nat} (h : Eviction plan fraction [] ys db (.ok (some n)) db' cs)
    (tied : TiedToRows config db ys) (tracks : Tracks plan config) (clear : ¬ Strayed (ys.map tie)) :
    Housed (cs.map tie) db'.table := by
  cases h with
  | @removed p zs t t' es ms n settled keys_eq told markable offers rows behind count =>
    rw [table_removed offers]
    have fits := tied.holds.fits'
    obtain ⟨bothWays, -⟩ := bothWays_settlement settled tied tracks
    have rowsOfLearned := settled.rowsOfLearned tracks.collecting (by rw [List.nil_append]; omega)
    exact (((bothWays clear).of_keys keys_eq).housed
      (rowsOfLearned.of_keys keys_eq)).markedAll markable.placed

end Eviction

namespace Reduction

variable {π : Type} {c : Context π} {search : Snapshot} {cs ds : List Cell}
  {r : Except Error (Report × Snapshot)} {db : Database}

/-- A reduction that does not fail keeps rows truthful, and it orphans none. Those that were orphaned stay
so if it does not remove clauses. -/
theorem accounted (h : Reduction c search cs r db ds) (tied : TiedToRows c.config c.database cs)
    (collecting : c.config.collecting = true) (clean : Clean (cs.map tie) c.database.table)
    (truthful : Truthful (cs.map tie) c.database.table) (narrow : db.table.size ≤ 2147483648)
    (unfailing : ∀ e, r ≠ .error e) : Truthful (ds.map tie) db.table ∧
      (Orphaned (ds.map tie) db.table ↔ Orphaned (cs.map tie) c.database.table ∧
        ∀ n after, r ≠ .ok (.reduced n, after)) := by
  cases h with
  | unstarted => exact ⟨truthful, (and_iff_left nofun).symm⟩
  | unsatisfiable => exact ⟨truthful, (and_iff_left nofun).symm⟩
  | barred => exact absurd rfl (unfailing _)
  | failed => exact absurd rfl (unfailing _)
  | idle part split start eviction =>
    obtain ⟨rfl, flags, ties_eq⟩ := tied_flagged tied collecting split start
    rw [← ties_eq] at clean ⊢
    rw [ties_flagged]
    obtain ⟨truthful, housed, stays⟩ := eviction.accounted flags (tracks collecting) clean narrow
    refine ⟨truthful, fun orphaned => ⟨?_, nofun⟩, fun orphaned => stays orphaned.1⟩
    exact Classical.byContradiction fun accounted => (housed accounted).not_orphaned orphaned
  | @compacted xs ys ds₀ xs' ys' found db₀ first last asked split start eviction resplit restart first_at =>
    obtain ⟨rfl, flags, ties_eq⟩ := tied_flagged tied collecting split start
    have nil : xs' = [] := eq_nil_of_extents restart
    subst nil
    rw [List.nil_append] at resplit
    subst resplit
    rw [← ties_eq] at clean ⊢
    rw [List.nil_append] at eviction flags clean ⊢
    have ties_ds : (flagged false (c.protects search) ds₀).map tie = ds₀.map tie := ties_flagged ..
    have standing_eq := Table.standing_relocate db₀.table
      (relocationOf [] (flagged false (c.protects search) ds₀))
    cases found with
    | none =>
      have narrow : db₀.table.size ≤ 2147483648 := Table.size_relocate _ _ ▸ narrow
      obtain ⟨truthful, housed, stays⟩ := eviction.accounted flags (tracks collecting) clean narrow
      rw [← ties_ds] at truthful housed stays
      refine ⟨(truthful.subset (ties_settle_subset _ _ [] _)).of_standing standing_eq,
        fun orphaned => ⟨?_, nofun⟩, fun orphaned => ?_⟩
      · refine Classical.byContradiction fun accounted => ?_
        exact ((housed accounted).collected _ _ _).not_orphaned orphaned
      · exact @Orphaned.collected [] _ _ (stays orphaned.1) _ _ _
    | some n =>
      have clear := flags.not_strayed clean
      have housed := eviction.housed flags (tracks collecting) clear
      rw [← ties_ds] at housed
      have fits : extents (flagged false (c.protects search) ds₀) < 4294967295 := by
        rw [extents_eq ((extent_flagged false (c.protects search) ds₀).trans eviction.extent_eq)]
        exact flags.holds.fits'
      have bothWays := (eviction.bothWays flags (tracks collecting) clear rfl).revised
        (tie_flagged false ((c.protects search).map Reference.offset))
      refine ⟨(bothWays.collected _ fits).truthful fun d hd => isGarbage_of_mem_settle hd,
        fun orphaned => ?_, fun orphaned => absurd rfl (orphaned.2 n _)⟩
      exact absurd orphaned (housed.collected _ _ _).not_orphaned

end Reduction

/-! ### Rows behind an operation -/

section Operations

variable {config : Config} {db : Database} {cs xs ys : List Cell} {c d : Cell} {j k i : Nat}

/-- Where garbage is linked to its own rows, no two clauses are linked to one row. -/
theorem TiedToRows.link_apart (tied : TiedToRows config db cs) (clean : Clean (cs.map tie) db.table)
    (hc : At 0 cs k c) (hd : At 0 cs j d) (link_c : c.header.row? = some i)
    (link_d : d.header.row? = some i) : k = j ∧ c = d := by
  obtain ⟨mark, -, linked⟩ := tied.linked
  have owns : ∀ {o : Nat} {e : Cell}, At 0 cs o e → e.header.row? = some i →
      ∃ row, db.table.row? i = some row ∧ row.identity = e.header.identity := by
    intro o e he link
    have listed : e.tie ∈ cs.map tie := List.mem_map_of_mem he.mem
    have sits : e.tie.Sits db.table := by
      cases garbage : e.tie.garbage with
      | true => exact clean e.tie listed garbage
      | false => exact linked.sits listed garbage
    rcases sits with none | ⟨i', row, link', found, own⟩
    · exact absurd (link.symm.trans none) (Option.some_ne_none i)
    · have same : some i = some i' := link.symm.trans link'
      cases same
      exact ⟨row, found, own⟩
  obtain ⟨row, found, own⟩ := owns hc link_c
  obtain ⟨row', found', own'⟩ := owns hd link_d
  rw [found] at found'
  cases found'
  exact eq_of_identity tied.holds.ascending hc hd (congrArg UInt32.toNat (own.symm.trans own'))

/-- A mark ends the row of a redundant clause, and leaves that of a promoted one. -/
theorem Truthful.marked (h : Truthful (cs.map tie) db.table) (tied : TiedToRows config db cs)
    (clean : Clean (cs.map tie) db.table) (hc : At 0 cs k c) :
    Truthful ((markAt k cs).map tie) (db.marked k c cs).table := by
  intro b hb i row link found
  simp only [Database.marked] at found
  rcases mem_ties_only hb with ⟨d, hd, rfl⟩ | ⟨j, d, hd, other, rfl⟩
  · rw [hd.unique hc] at link ⊢
    have link : c.header.row? = some i := link
    cases redundant : c.header.flags.redundant with
    | false =>
      rw [redundant] at found
      rw [h c.tie (List.mem_map_of_mem hc.mem) i row link found]
      show (c.header.flags.garbage && c.header.flags.redundant) = (true && c.header.flags.redundant)
      rw [redundant, Bool.and_false, Bool.and_false]
    | true =>
      rw [redundant, if_pos rfl, Table.row?_ended, if_pos link] at found
      obtain ⟨row₀, -, rfl⟩ := Option.map_eq_some_iff.1 found
      exact redundant.symm
  · refine h d.tie (List.mem_map_of_mem hd.mem) i row link ?_
    split at found
    · rwa [Table.row?_ended, if_neg fun shared => other (tied.link_apart clean hd hc link shared).1]
        at found
    · exact found

theorem Truthful.promoted {t : Table} (h : Truthful (cs.map tie) t) (hc : At 0 cs k c)
    (live : c.isGarbage = false) : Truthful ((promoteAt k cs).map tie) t := by
  intro b hb i row link found
  rcases mem_ties_only hb with ⟨d, hd, rfl⟩ | ⟨j, d, hd, -, rfl⟩
  · rw [hd.unique hc] at link ⊢
    rw [h c.tie (List.mem_map_of_mem hc.mem) i row link found,
      show c.tie.garbage = false from live, Bool.false_and]
    exact (Bool.and_false _).symm
  · exact h d.tie (List.mem_map_of_mem hd.mem) i row link found

/-- The flags of a clause do not concern its link. -/
theorem links_withFlag (flag : Flag) (value : Bool) :
    ((mapAt (Arena.only k (Header.withFlag flag value)) 0 cs).map tie).map Tie.row? =
      (cs.map tie).map Tie.row? := by
  rw [List.map_map, List.map_map]
  refine map_mapAt fun j d _ => ?_
  show (Arena.only k (Header.withFlag flag value) j d.header).row? = d.header.row?
  rw [Arena.only]
  split <;> rfl

/-- A collection orphans no row if the garbage that it drops is redundant or not linked. -/
theorem Truthful.not_orphaned {t : Table} (h : Truthful ((xs ++ ys).map tie) t)
    (accounted : ¬ Orphaned ((xs ++ ys).map tie) t)
    (spared : ∀ c ∈ ys, c.isGarbage = true → c.header.flags.redundant = false → c.header.row? = none)
    (fill : Nat → UInt32) (n : Nat) (m : Relocation) :
    ¬ Orphaned ((xs ++ settle fill n ys).map tie) (t.relocate m) := by
  rintro ⟨i, row', found', live', unlinked⟩
  obtain ⟨row, found, same⟩ := Table.row?_of_map_eq (Table.standing_relocate t m).symm found'
  have live : row.garbage = false := (congrArg Prod.snd same).trans live'
  refine accounted ⟨i, row, found, live, fun linked => unlinked ?_⟩
  obtain ⟨b, hb, link⟩ := List.mem_map.1 linked
  obtain ⟨c, hc, rfl⟩ := List.mem_map.1 hb
  refine List.mem_map.2 ⟨c.tie, ?_, link⟩
  rw [List.map_append, List.mem_append, ties_settle]
  refine (List.mem_append.1 hc).imp List.mem_map_of_mem fun hc => ?_
  refine List.mem_map_of_mem (List.mem_filter.2 ⟨hc, ?_⟩)
  cases garbage : c.isGarbage with
  | false => rfl
  | true =>
    have ended := h c.tie hb i row link found
    rw [live, show c.tie.garbage = true from garbage, Bool.true_and] at ended
    have link : c.header.row? = some i := link
    rw [spared c hc garbage ended.symm] at link
    cases link

/-- A collection that drops an irredundant clause orphans the row that it is linked to. -/
theorem TiedToRows.orphaned (tied : TiedToRows config db (xs ++ ys))
    (clean : Clean ((xs ++ ys).map tie) db.table) (truthful : Truthful ((xs ++ ys).map tie) db.table)
    (hc : c ∈ ys) (garbage : c.isGarbage = true) (irredundant : c.header.flags.redundant = false)
    (link : c.header.row? = some i) (fill : Nat → UInt32) (n : Nat) (m : Relocation) :
    Orphaned ((xs ++ settle fill n ys).map tie) (db.table.relocate m) := by
  have listed : c.tie ∈ (xs ++ ys).map tie := List.mem_map_of_mem (List.mem_append_right xs hc)
  obtain ⟨k, at_c⟩ := exists_at (0 + extents xs) hc
  have whole := at_append.2 (.inr at_c)
  rcases clean c.tie listed garbage with none | ⟨i', row, link', found, -⟩
  · exact absurd (link.symm.trans none) (Option.some_ne_none i)
  have same : some i = some i' := link.symm.trans link'
  cases same
  have live := truthful c.tie listed i row link found
  rw [show c.tie.redundant = false from irredundant, Bool.and_false] at live
  refine ⟨i, _, row?_relocate found, live, fun linked => ?_⟩
  obtain ⟨b, hb, link_b⟩ := List.mem_map.1 linked
  rw [List.map_append, List.mem_append, ties_settle] at hb
  rcases hb with hb | hb
  · obtain ⟨d, hd, rfl⟩ := List.mem_map.1 hb
    obtain ⟨j, at_d⟩ := exists_at 0 hd
    obtain ⟨rfl, -⟩ := tied.link_apart clean whole (at_append.2 (.inl at_d)) link link_b
    have := at_d.bounds.2
    have := at_c.bounds.1
    have := d.extent_pos
    omega
  · obtain ⟨d, hd, rfl⟩ := List.mem_map.1 hb
    obtain ⟨hd, live_d⟩ := List.mem_filter.1 hd
    obtain ⟨j, at_d⟩ := exists_at 0 (List.mem_append_right xs hd)
    obtain ⟨-, rfl⟩ := tied.link_apart clean whole at_d link link_b
    rw [garbage] at live_d
    cases live_d

/-- What a collection from behind some cells drops is among the cells that follow. -/
theorem Database.Holds.abandons_iff (h : db.Holds (xs ++ ys)) :
    db.Abandons (.ofOffset (extents xs)) ↔ ∃ c ∈ ys, c.isGarbage = true ∧
      c.header.flags.redundant = false ∧ c.header.row?.isSome = true := by
  rw [Abandons, h.start_eq]
  constructor
  · rintro ⟨o, ho, behind, dropped⟩
    obtain ⟨c, hc⟩ := h.tiled.mem_walk.1 ho
    rw [h.tiled.header_eq hc] at dropped
    rcases at_append.1 hc with before | hc
    · have := before.bounds.2
      have := c.extent_pos
      omega
    · exact ⟨c, hc.mem, dropped⟩
  · rintro ⟨c, hc, dropped⟩
    obtain ⟨o, at_c⟩ := exists_at (0 + extents xs) hc
    have whole := at_append.2 (.inr at_c)
    have := at_c.bounds.1
    refine ⟨o, h.tiled.mem_walk.2 ⟨c, whole⟩, by omega, ?_⟩
    rw [h.tiled.header_eq whole]
    exact dropped

/-- A collection from behind some cells orphans the rows of the irredundant clauses that it drops. -/
theorem TiedToRows.orphaned_collected_iff (tied : TiedToRows config db (xs ++ ys))
    (clean : Clean ((xs ++ ys).map tie) db.table) (truthful : Truthful ((xs ++ ys).map tie) db.table)
    (fill : Nat → UInt32) (n : Nat) (m : Relocation) :
    Orphaned ((xs ++ settle fill n ys).map tie) (db.table.relocate m) ↔
      Orphaned ((xs ++ ys).map tie) db.table ∨ db.Abandons (.ofOffset (extents xs)) := by
  rw [tied.holds.abandons_iff]
  constructor
  · intro orphaned
    by_cases accounted : Orphaned ((xs ++ ys).map tie) db.table
    · exact .inl accounted
    refine .inr (Classical.byContradiction fun spared => ?_)
    refine truthful.not_orphaned accounted (fun d hd garbage irredundant => ?_) fill n m orphaned
    exact Option.not_isSome_iff_eq_none.1 fun linked => spared ⟨d, hd, garbage, irredundant, linked⟩
  · rintro (orphaned | ⟨d, hd, garbage, irredundant, linked⟩)
    · exact orphaned.collected fill n m
    · obtain ⟨i, link⟩ := Option.isSome_iff_exists.1 linked
      exact tied.orphaned clean truthful hd garbage irredundant link fill n m

/-- A mark ends no row but that of its clause. -/
theorem orphaned_marked_iff (hc : At 0 cs k c) :
    Orphaned ((markAt k cs).map tie) (db.marked k c cs).table ↔ Orphaned (cs.map tie) db.table := by
  rw [Orphaned, Orphaned, markAt, links_withFlag]
  refine exists_congr fun i => exists_congr fun row => ?_
  rw [← and_assoc, ← and_assoc]
  refine and_congr_left fun unlinked => ?_
  have foreign : c.header.row? ≠ some i := fun link =>
    unlinked (List.mem_map.2 ⟨c.tie, List.mem_map_of_mem hc.mem, link⟩)
  simp only [Database.marked]
  split
  · rw [Table.row?_ended, if_neg foreign]
  · exact Iff.rfl

/-- A stored clause is linked to no row. -/
theorem orphaned_stored_iff {t : Table} {identity : UInt32} {source : Source} {glue : UInt32} {keep : Bool}
    {conflicts : UInt64} {ls : Clause} :
    Orphaned ((cs ++ [Cell.stored identity source glue keep conflicts ls]).map tie) t ↔
      Orphaned (cs.map tie) t := by
  have unlinked : (Cell.stored identity source glue keep conflicts ls).tie.row? = none := rfl
  simp only [Orphaned, List.map_append, List.map_cons, List.map_nil, List.mem_append, List.mem_singleton,
    unlinked, reduceCtorEq, or_false]

end Operations

namespace Effect

variable {π : Type} {c c' : Context π} {cs ds : List Cell} {op : Operation} {a : Except Error Answer}

/-- Every effect keeps rows truthful, if a reduction does not fail. -/
theorem truthful (h : Effect c cs op a c' ds) (tied : TiedToRows c.config c.database cs)
    (collecting : c.config.collecting = true) (clean : Clean (cs.map tie) c.database.table)
    (truthful : Truthful (cs.map tie) c.database.table)
    (narrow : c'.database.table.size ≤ 2147483648)
    (unfailing : op.reduces = true → ∀ e, a ≠ .error e) :
    Truthful (ds.map tie) c'.database.table := by
  cases h with
  | configured => exact truthful
  | beside _ _ same =>
    rw [same.table_eq]
    exact truthful
  | stored storage =>
    cases storage with
    | refused => exact truthful
    | binary literals_eq fresh =>
      rw [(beside_storedBinary _ _ _ fresh).table_eq]
      exact truthful
    | long =>
      intro b hb i row link found
      rcases TiedToRows.mem_ties_stored hb with hb | ⟨-, none, -⟩
      · exact truthful b hb i row link found
      · rw [none] at link
        cases link
  | noted note found =>
    rw [ties_noted note]
    exact truthful
  | refused => exact truthful
  | marked found => exact truthful.marked tied clean found
  | promoted found live => exact truthful.promoted found live
  | shortened split start free =>
    subst split
    rw [TiedToRows.ties_shortened]
    exact truthful
  | collected split start first_at =>
    subst split
    exact (truthful.subset (ties_settle_subset ..)).of_standing (Table.standing_relocate _ _)
  | reduced reduction =>
    refine (reduction.accounted tied collecting clean truthful narrow fun e failed => ?_).1
    subst failed
    exact unfailing rfl e rfl

/-- Behind an effect some row is orphaned if one was before, unless a reduction removes clauses, or if a
collection drops an irredundant clause that is linked to a row. -/
theorem orphaned_iff (h : Effect c cs op a c' ds) (tied : TiedToRows c.config c.database cs)
    (collecting : c.config.collecting = true) (clean : Clean (cs.map tie) c.database.table)
    (truthful : Truthful (cs.map tie) c.database.table)
    (narrow : c'.database.table.size ≤ 2147483648)
    (unfailing : op.reduces = true → ∀ e, a ≠ .error e) :
    Orphaned (ds.map tie) c'.database.table ↔
      (Orphaned (cs.map tie) c.database.table ∧
        (op.reduces = true → ∀ n after, a ≠ .ok (.reported (.reduced n) after))) ∨
      Context.Abandons op c := by
  have plain : (Orphaned (ds.map tie) c'.database.table ↔ Orphaned (cs.map tie) c.database.table) →
      op.reduces = false → ¬ Context.Abandons op c →
      (Orphaned (ds.map tie) c'.database.table ↔
        (Orphaned (cs.map tie) c.database.table ∧
          (op.reduces = true → ∀ n after, a ≠ .ok (.reported (.reduced n) after))) ∨
        Context.Abandons op c) := by
    intro same still spares
    rw [same, still, or_iff_left spares]
    exact (and_iff_left nofun).symm
  cases h with
  | configured => exact plain Iff.rfl rfl id
  | beside aside _ same =>
    refine plain (by rw [same.table_eq]) ?_ ?_
    all_goals cases op <;> first | rfl | exact id | cases aside
  | stored storage =>
    refine plain ?_ rfl id
    cases storage with
    | refused => exact Iff.rfl
    | binary literals_eq fresh => rw [(beside_storedBinary _ _ _ fresh).table_eq]
    | long => exact orphaned_stored_iff
  | noted note found =>
    refine plain (by rw [ties_noted note]; rfl) ?_ ?_
    all_goals cases op <;> first | rfl | exact id | cases note
  | refused single =>
    refine plain Iff.rfl ?_ ?_
    all_goals cases op <;> first | rfl | exact id | cases single
  | @marked r d found live free =>
    exact plain (orphaned_marked_iff found) rfl id
  | promoted found live =>
    refine plain ?_ rfl id
    rw [Orphaned, Orphaned, promoteAt, links_withFlag]
    exact Iff.rfl
  | shortened split start free =>
    subst split
    refine plain ?_ rfl id
    rw [TiedToRows.ties_shortened]
    exact Iff.rfl
  | @collected start xs ys first last split start_eq first_at =>
    subst split start_eq
    rw [and_iff_left nofun]
    exact tied.orphaned_collected_iff clean truthful _ _ _
  | @reduced search r db ds counters predictor phase reduction =>
    have unfailing : ∀ e, r ≠ .error e := fun e failed => by
      subst failed
      exact unfailing rfl e rfl
    obtain ⟨-, behind⟩ := reduction.accounted tied collecting clean truthful narrow unfailing
    refine behind.trans (Iff.trans ?_ (or_iff_left id).symm)
    refine and_congr_right fun _ => ⟨fun idles _ n after removes => ?_, fun idles n after removes => ?_⟩
    · cases r with
      | error e => cases removes
      | ok result =>
        obtain ⟨report, search'⟩ := result
        cases removes
        exact idles n search' rfl
    · subst removes
      exact idles rfl n after rfl

end Effect

/-! ### Runs -/

namespace Context

variable {π : Type} [Predictor π] {c : Context π} {cs : List Cell} {op : Operation} {ops : List Operation}

/-- What a context keeps along a run in which no reduction fails. -/
structure TiedTruthfully (c : Context π) (cs : List Cell) : Prop where
  collecting : c.config.collecting = true
  tied : TiedToRows c.config c.database cs
  clean : Clean (cs.map tie) c.database.table
  truthful : Truthful (cs.map tie) c.database.table

namespace TiedTruthfully

omit [Predictor π] in
theorem nil (config : Config) (predictor : π) (collecting : config.collecting = true) :
    (ofConfig config predictor).TiedTruthfully [] :=
  ⟨collecting, .nil, by simp [Clean], by simp [Truthful]⟩

omit [Predictor π] in
theorem orphans_iff (h : c.TiedTruthfully cs) :
    c.database.Orphans ↔ Orphaned (cs.map tie) c.database.table := by
  rw [Orphans, h.tied.holds.ties_eq]

/-- Behind an operation that keeps what it finds, rows are orphaned that were before, unless it removes
clauses by a reduction, and those that it orphans itself. -/
theorem exists_after (h : c.TiedTruthfully cs) (lawful : op.Lawful c) (fixed : op.configures = false)
    (narrow : Narrow op c) (succeeds : Succeeds op c) : ∃ ds, (op.after c).TiedTruthfully ds ∧
      ((op.after c).database.Orphans ↔ (c.database.Orphans ∧ Idles op c) ∨ Abandons op c) := by
  obtain ⟨collecting, tied, clean, truthful⟩ := h
  obtain ⟨c', ds, ms, after_eq, effect⟩ := exists_effect tied.holds lawful
  have clear := tied.not_strayed clean
  rw [Narrow, after_eq] at narrow
  have config_eq := effect.config_eq fixed
  have next : (op.after c).TiedTruthfully ds := by
    rw [after_eq]
    refine ⟨(congrArg Config.collecting config_eq).trans collecting, ?_,
      effect.clean tied collecting clean fun reduces cause => succeeds.ne_error reduces _,
      effect.truthful tied collecting clean truthful narrow succeeds.ne_error⟩
    have kept := (effect.tied tied collecting fixed (fun _ => clear) narrow).logged ms
    rw [← config_eq] at kept
    exact kept
  have table_eq : (op.after c).database.table = c'.database.table := by
    rw [after_eq]
    rfl
  refine ⟨ds, next, ?_⟩
  rw [next.orphans_iff, table_eq, Orphans, tied.holds.ties_eq]
  exact effect.orphaned_iff tied collecting clean truthful narrow succeeds.ne_error

end TiedTruthfully

/-- What was abandoned in a run that begins with a call. -/
theorem abandoned_cons : c.Abandoned (op :: ops) ↔
    (Abandons op c ∧ (op.after c).Throughout Idles ops) ∨ (op.after c).Abandoned ops := by
  constructor
  · rintro ⟨earlier, last, later, split, abandons, idles⟩
    cases earlier with
    | nil =>
      cases split
      exact .inl ⟨abandons, idles⟩
    | cons first earlier =>
      cases split
      exact .inr ⟨earlier, last, later, rfl, abandons, idles⟩
  · rintro (⟨abandons, idles⟩ | ⟨earlier, last, later, rfl, abandons, idles⟩)
    · exact ⟨[], op, ops, rfl, abandons, idles⟩
    · exact ⟨op :: earlier, last, later, rfl, abandons, idles⟩

namespace TiedTruthfully

/-- Behind a run, rows are orphaned that were before it, unless a reduction of the run removes clauses, and
those that the run has abandoned. -/
theorem exists_run (h : c.TiedTruthfully cs) (follows : c.Follows ops)
    (fixed : ∀ op ∈ ops, op.configures = false) (narrow : c.Throughout Narrow ops)
    (succeeds : c.Throughout Succeeds ops) : ∃ ds, (c.run ops).TiedTruthfully ds ∧
      ((c.run ops).database.Orphans ↔
        (c.database.Orphans ∧ c.Throughout Idles ops) ∨ c.Abandoned ops) := by
  induction ops generalizing c cs with
  | nil =>
    have none : ¬ c.Abandoned [] := by
      rintro ⟨earlier, op, later, split, -⟩
      cases earlier <;> cases split
    refine ⟨cs, h, ?_⟩
    rw [or_iff_left none]
    exact (and_iff_left trivial).symm
  | cons op ops ih =>
    obtain ⟨lawful, rest⟩ := follows
    obtain ⟨here, narrow⟩ := narrow
    obtain ⟨ok, succeeds⟩ := succeeds
    obtain ⟨ds, next, step⟩ := h.exists_after lawful (fixed op (by simp)) here ok
    obtain ⟨es, last, behind⟩ := ih next rest (fun op hop => fixed op (by simp [hop])) narrow succeeds
    refine ⟨es, last, behind.trans ?_⟩
    rw [step, abandoned_cons, or_and_right, and_assoc, or_assoc]
    exact Iff.rfl

/-- A reduction that finds a candidate meets rows that are unaccounted for just where rows were
orphaned. -/
theorem unaccounted_iff (h : c.TiedTruthfully cs) {search : Snapshot}
    (lawful : (Operation.reduce search).Lawful c) (found : c.finds search ≠ []) :
    (c.scannedTable search).unaccounted ≠ [] ↔ c.database.Orphans := by
  rcases exists_surveyed h.tied.holds lawful with ⟨none, -⟩ |
    ⟨xs, ys, zs, cs', t, t', p, ms, split, start, pass, -, table_eq, -⟩
  · exact absurd none found
  obtain ⟨rfl, flags, ties_eq⟩ := Reduction.tied_flagged h.tied h.collecting split start
  have scanned := flags.scanned (Reduction.tracks h.collecting) pass
  rw [table_eq, Table.unaccounted_ne_nil, scanned.orphaned_iff, h.orphans_iff, ties_eq]
  exact Iff.rfl

end TiedTruthfully

/-- Behind a lawful run under a fixed configuration for which rows are kept, in which no reduction fails, a
reduction that finds a candidate meets a row that is neither seen nor garbage just if, since the last
reduction that removed clauses, a collection has dropped an irredundant clause that was linked to a row.
The table never has more rows than links can name. -/
theorem unaccounted_iff_abandoned (config : Config) (predictor : π) (ops : List Operation)
    (search : Snapshot) (collecting : config.collecting = true)
    (follows : (ofConfig config predictor).Follows ops)
    (fixed : ∀ op ∈ ops, op.configures = false)
    (narrow : (ofConfig config predictor).Throughout Narrow ops)
    (succeeds : (ofConfig config predictor).Throughout Succeeds ops)
    (lawful : (Operation.reduce search).Lawful ((ofConfig config predictor).run ops))
    (found : ((ofConfig config predictor).run ops).finds search ≠ []) :
    (((ofConfig config predictor).run ops).scannedTable search).unaccounted ≠ [] ↔
      (ofConfig config predictor).Abandoned ops := by
  have start := TiedTruthfully.nil config predictor collecting
  have none : ¬ (ofConfig config predictor).database.Orphans := by
    rw [start.orphans_iff]
    rintro ⟨i, row, found, -⟩
    exact absurd found (by simp [ofConfig, Table.row?])
  obtain ⟨ds, kept, orphans_iff⟩ := start.exists_run follows fixed narrow succeeds
  rw [kept.unaccounted_iff lawful found, orphans_iff]
  exact or_iff_right fun orphaned => none orphaned.1

/-- The first clause is promoted, and then marked and dropped before a scan meets it. -/
def abandoningRun : List Operation :=
  [.create .redundant 6 [⟨1⟩, ⟨2⟩, ⟨3⟩], .create .redundant 6 [⟨1⟩, ⟨2⟩, ⟨4⟩],
    .reduce { reasons := [.ofOffset 12] }, .makeIrredundant (.ofOffset 0), .markGarbage (.ofOffset 0),
    .collect .start]

/-- The collection abandons the row of the first clause: the next reduction finds the second clause, and
logs that row as one that it neither saw nor found garbage. -/
theorem unaccounted_iff_abandoned_abandoningRun :
    generatingConfig.collecting = true ∧
      (ofConfig generatingConfig ({} : Linear)).Follows abandoningRun ∧
      (∀ op ∈ abandoningRun, op.configures = false) ∧
      (ofConfig generatingConfig ({} : Linear)).Throughout Narrow abandoningRun ∧
      (ofConfig generatingConfig ({} : Linear)).Throughout Succeeds abandoningRun ∧
      (Operation.reduce {}).Lawful ((ofConfig generatingConfig ({} : Linear)).run abandoningRun) ∧
      ((ofConfig generatingConfig ({} : Linear)).run abandoningRun).finds {} ≠ [] ∧
      (ofConfig generatingConfig ({} : Linear)).Abandoned abandoningRun ∧
      (((ofConfig generatingConfig ({} : Linear)).run abandoningRun).scannedTable {}).unaccounted ≠ [] ∧
      (((Operation.reduce {}).after ((ofConfig generatingConfig ({} : Linear)).run
        abandoningRun)).database.messages.toList.any (· matches .unaccountedRow _)) = true := by
  have collecting : generatingConfig.collecting = true := by decide
  have follows : (ofConfig generatingConfig ({} : Linear)).Follows abandoningRun := by decide +kernel
  have fixed : ∀ op ∈ abandoningRun, op.configures = false := by decide
  have narrow : (ofConfig generatingConfig ({} : Linear)).Throughout Narrow abandoningRun := by
    decide +kernel
  have succeeds : (ofConfig generatingConfig ({} : Linear)).Throughout Succeeds abandoningRun := by
    decide +kernel
  have lawful : (Operation.reduce {}).Lawful
      ((ofConfig generatingConfig ({} : Linear)).run abandoningRun) := by decide +kernel
  have found : ((ofConfig generatingConfig ({} : Linear)).run abandoningRun).finds {} ≠ [] := by
    decide +kernel
  have drops : ((ofConfig generatingConfig ({} : Linear)).run (abandoningRun.take 5)).database.Abandons
      .start := by decide +kernel
  have abandoned : (ofConfig generatingConfig ({} : Linear)).Abandoned abandoningRun :=
    ⟨abandoningRun.take 5, .collect .start, [], rfl, drops, trivial⟩
  have logged : (((Operation.reduce {}).after ((ofConfig generatingConfig ({} : Linear)).run
      abandoningRun)).database.messages.toList.any (· matches .unaccountedRow _)) = true := by
    decide +kernel
  have meets := unaccounted_iff_abandoned generatingConfig ({} : Linear) abandoningRun {} collecting
    follows fixed narrow succeeds lawful found
  exact ⟨collecting, follows, fixed, narrow, succeeds, lawful, found, abandoned, meets.2 abandoned,
    logged⟩

end Context

end ClauseStore
