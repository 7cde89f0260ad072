import ClauseStore.Proofs.Bookkeeping
import ClauseStore.Proofs.Identities

/-!
Failures of the predictor. Whichever step of a batch fails, the reduction fails with just that failure,
releases the batch, and leaves all clauses as they were: what the scan and the flagging of reasons have
revised by then is undone, or belongs to no clause. The next reduction is scheduled all the same.
-/

namespace ClauseStore

open Cell Database

/-! ### Rows keep their scores -/

/-- Which clause a row is for, when it was made, and its last two scores: what no scan revises. -/
def Row.history (row : Row) : UInt32 × UInt64 × Binary64 × Binary64 :=
  (row.identity, row.born, row.latest, row.previous)

/-- Which clause a row is for, and its last two scores. -/
def Row.scored (row : Row) : UInt32 × Binary64 × Binary64 := (row.identity, row.latest, row.previous)

namespace Table

/-- The histories of the rows, in order. -/
def histories (t : Table) : List (UInt32 × UInt64 × Binary64 × Binary64) := t.rows.toList.map Row.history

/-- The scores of the rows, in order. -/
def scores (t : Table) : List (UInt32 × Binary64 × Binary64) := t.rows.toList.map Row.scored

variable {t : Table}

theorem scores_eq (t : Table) : t.scores = t.histories.map fun h => (h.1, h.2.2) := by
  rw [histories, List.map_map]
  rfl

theorem identities_eq_histories (t : Table) : t.identities = t.histories.map Prod.fst := by
  rw [identities, histories, List.map_map]
  rfl

theorem histories_modify {f : Row → Row} (h : ∀ row, (f row).history = row.history) (i : Nat) :
    histories ⟨t.rows.modify i f⟩ = t.histories :=
  map_rows_modify h t i

theorem histories_push (row : Row) : (t.push row).histories = t.histories ++ [row.history] := by
  simp [histories, push]

theorem histories_ended (t : Table) (h : Header) : (t.ended h).histories = t.histories := by
  rw [ended]
  cases h.row? with
  | none => rfl
  | some i => exact histories_modify (f := fun row => { row with garbage := true }) (fun _ => rfl) i

theorem histories_rank (t : Table) : t.rank.histories = t.histories :=
  map_mapIdx_of_view _ fun _ _ => rfl

theorem histories_tableFor (plan : ScanPlan) (t : Table) : (tableFor plan t).histories = t.histories := by
  rw [tableFor]
  split
  · rw [histories, markUnseen, Array.toList_map, List.map_map]
    rfl
  · rfl

/-- The rows that stay keep their histories and their order. -/
theorem histories_settled (t : Table) : t.settled.histories.Sublist t.histories := by
  rw [settled, histories_rank, histories, surviving, Array.toList_filter]
  exact List.filter_sublist.map _

end Table

/-- The history of a row that is made after some conflicts. -/
def begun (conflicts : UInt64) (identity : UInt32) : UInt32 × UInt64 × Binary64 × Binary64 :=
  (identity, conflicts, .zero, .zero)

/-- The scores of a row that was never scored. -/
def unscored (identity : UInt32) : UInt32 × Binary64 × Binary64 := (identity, .zero, .zero)

namespace ScanPlan

variable {p : ScanPlan} {k : Nat} {cs zs : List Cell} {t t' : Table} {progress : ScanProgress}
  {r : Except Error ScanProgress}

theorem history_touch (p : ScanPlan) (k : Nat) (h : Header) (row : Row) :
    (p.touch k h row).history = row.history := by
  simp only [touch, Row.update]
  split <;> rfl

/-- A step of a pass begins the history of a row, or none. -/
theorem Step.histories {h h' : Header} (step : Step p k h t progress r h' t') :
    ∃ made : List UInt32, t'.histories = t.histories ++ made.map (begun p.conflicts) := by
  cases step with
  | irredundant => exact ⟨[], by simp [Table.histories_ended]⟩
  | garbage => exact ⟨[], by simp [Table.histories_ended]⟩
  | linked => exact ⟨[], (Table.histories_modify (history_touch p k h) _).trans (by simp)⟩
  | fresh =>
    exact ⟨[h.identity],
      (Table.histories_modify (history_touch p k _) _).trans (Table.histories_push _)⟩
  | early => exact ⟨[], by simp⟩
  | untracked => exact ⟨[], by simp⟩
  | missing => exact ⟨[], by simp⟩
  | mismatch => exact ⟨[], by simp⟩

/-- A pass leaves the histories of the rows, and begins others behind them. -/
theorem Pass.histories (pass : Pass p k cs t progress r zs t') :
    ∃ made : List UInt32, t'.histories = t.histories ++ made.map (begun p.conflicts) := by
  induction pass with
  | nil => exact ⟨[], by simp⟩
  | failed step => exact step.histories
  | cons step rest ih =>
    obtain ⟨made, here⟩ := step.histories
    obtain ⟨further, there⟩ := ih
    exact ⟨made ++ further, by rw [there, here, List.map_append, List.append_assoc]⟩

/-- The same behind a scan, whose rows were marked as not seen. -/
theorem histories_of_pass {plan : ScanPlan} {cs zs : List Cell} {t₀ t : Table}
    {r : Except Error ScanProgress}
    (pass : plan.scanCells k cs (tableFor plan t₀) {} = (r, zs, t)) :
    ∃ made : List UInt32, t.histories = t₀.histories ++ made.map (begun plan.conflicts) := by
  have result := pass_scanCells plan k cs (tableFor plan t₀) {}
  rw [pass] at result
  obtain ⟨made, histories_eq⟩ := result.histories
  exact ⟨made, by rw [histories_eq, Table.histories_tableFor]⟩

end ScanPlan

/-- The rows of one table are in another one with the scores that they had, in their order, but for some
that are left out; the others there are of clauses that had none. -/
structure Retained (t t' : Table) : Prop where
  apart : t'.identities.Nodup
  scores : ∃ made : List UInt32, (∀ identity ∈ made, identity ∉ t.identities) ∧
    t'.scores.Sublist (t.scores ++ made.map unscored)
  /-- a row keeps its own pair of scores -/
  scored_eq : ∀ row' ∈ t'.rows.toList, ∀ row ∈ t.rows.toList, row'.identity = row.identity →
    row'.scored = row.scored

/-- Where identities are different, what becomes of a row is told by the row of the same identity. -/
theorem retained_of_scores {t t' : Table} (before : t.identities.Nodup) (behind : t'.identities.Nodup)
    {made : List UInt32} (new : ∀ identity ∈ made, identity ∉ t.identities)
    (sub : t'.scores.Sublist (t.scores ++ made.map unscored)) : Retained t t' := by
  refine ⟨behind, ⟨made, new, sub⟩, fun row' hrow' row hrow same => ?_⟩
  have there : row'.scored ∈ t'.scores := List.mem_map_of_mem hrow'
  rcases List.mem_append.1 (sub.subset there) with kept | fresh
  · obtain ⟨row₀, hrow₀, scored_eq⟩ := List.mem_map.1 kept
    have own : row₀.identity = row.identity := (congrArg Prod.fst scored_eq).trans same
    obtain ⟨i, found⟩ := Table.exists_row? hrow₀
    obtain ⟨j, found'⟩ := Table.exists_row? hrow
    obtain rfl := Table.index_eq_of_view_eq before found found' own
    rw [found] at found'
    rw [← scored_eq, Option.some.inj found']
  · obtain ⟨identity, hi, scored_eq⟩ := List.mem_map.1 fresh
    have own : identity = row.identity := (congrArg Prod.fst scored_eq).trans same
    exact absurd (List.mem_map_of_mem hrow) (own ▸ new identity hi)

/-- The table behind a scan has the rows from before it that stay, with their scores, and rows that were
never scored. -/
theorem Settlement.retained {plan : ScanPlan} {xs ys cs : List Cell} {t₀ t : Table} {p : ScanProgress}
    {next : UInt32} (h : Settlement plan xs ys t₀ p cs t) (tracked : plan.collecting = true)
    (ascending : ((xs ++ ys).map identity).Pairwise (· < ·))
    (below : ∀ c ∈ xs ++ ys, c.identity < next.toNat) (distinct : Distinct next (xs ++ ys) t₀) :
    Retained t₀ t := by
  have behind := h.distinct ascending below distinct
  cases h with
  | bare untracked => rw [tracked] at untracked; cases untracked
  | @linked zs t _ pass =>
    obtain ⟨made, histories_eq⟩ := ScanPlan.histories_of_pass pass
    -- the rows that the pass has made are of other identities, as all are different behind it
    have apart := (ScanPlan.distinct_of_pass pass ascending below distinct).apart
    rw [Table.identities_eq_histories, histories_eq, List.map_append, List.map_map,
      ← Table.identities_eq_histories, List.nodup_append] at apart
    have new : ∀ identity ∈ made, identity ∉ t₀.identities := fun identity hi there =>
      apart.2.2 identity there identity (List.mem_map.2 ⟨identity, hi, rfl⟩) rfl
    have sub := (Table.histories_settled t).map fun h => (h.1, h.2.2)
    rw [← Table.scores_eq, histories_eq, List.map_append, ← Table.scores_eq, List.map_map] at sub
    exact retained_of_scores distinct.apart behind.apart new sub

/-- The row of a live redundant clause stays, if it has not ended and no other clause is linked to it. -/
theorem Settlement.exists_scored {plan : ScanPlan} {ys cs : List Cell} {t₀ t : Table} {p : ScanProgress}
    (h : Settlement plan [] ys t₀ p cs t) (tracked : plan.collecting = true)
    (ascending : (ys.map identity).Pairwise (· < ·)) {k i : Nat} {c : Cell} {row : Row} (hc : At 0 ys k c)
    (learned : c.Learned) (unkept : c.header.flags.keep = false) (link : c.header.row? = some i)
    (found : t₀.row? i = some row) (alive : row.garbage = false)
    (alone : ∀ d ∈ ys, d.header.row? = some i → d.header.identity = c.header.identity) :
    ∃ row' ∈ t.rows.toList, row'.scored = row.scored := by
  cases h with
  | bare untracked => rw [tracked] at untracked; cases untracked
  | @linked zs t _ pass =>
    have result := ScanPlan.pass_scanCells plan (extents []) ys (tableFor plan t₀) {}
    rw [pass] at result
    obtain ⟨xs, ys, xs', ys', t₁, t₂, progress₁, progress₂, g, rfl, rfl, rfl, before, step, behind⟩ :=
      result.exists_split hc
    have foreign : ∀ d ∈ xs ++ ys, d.header.row? ≠ some i := by
      intro d hd linked
      refine identity_ne_of_ascending ascending hd (alone d ?_ linked)
      rcases List.mem_append.1 hd with hd | hd
      · exact List.mem_append_left _ hd
      · exact List.mem_append_right _ (List.mem_cons_of_mem _ hd)
    have unseen : (tableFor plan t₀).row? i = some { row with seen := false } := by
      rw [tableFor, if_pos tracked, Table.row?_markUnseen, found]
      rfl
    have found₁ := before.row?_of_foreign (fun d hd => foreign d (List.mem_append_left _ hd)) unseen
    have found₂ : ∃ k, t₂.row? i = some (plan.touch k c.header { row with seen := false }) := by
      have counts : plan.counts progress₁ c.header = true := by
        rw [ScanPlan.counts, ScanPlan.opens, unkept, Bool.not_false, Bool.or_true, Bool.or_true]
      cases step with
      | irredundant irredundant => rw [learned.2] at irredundant; cases irredundant
      | early _ early => rw [counts] at early; cases early
      | garbage _ _ garbage => exact absurd (learned.1.symm.trans garbage) Bool.false_ne_true
      | untracked _ _ _ untracked => rw [tracked] at untracked; cases untracked
      | linked _ _ _ link' =>
        obtain rfl := Option.some.inj (link.symm.trans link')
        exact ⟨_, by rw [Table.row?_revise, if_pos rfl, found₁]; rfl⟩
      | fresh _ _ _ unlinked => rw [link] at unlinked; cases unlinked
    obtain ⟨k, found₂⟩ := found₂
    have found₃ := behind.row?_of_foreign (fun d hd => foreign d (List.mem_append_right _ hd)) found₂
    have survives : plan.touch k c.header { row with seen := false } ∈ t.surviving.rows.toList := by
      rw [Table.surviving, Array.toList_filter, List.mem_filter]
      refine ⟨Table.mem_of_row? found₃, ?_⟩
      rw [Table.stays, ScanPlan.seen_touch, ScanPlan.garbage_touch, alive]
      rfl
    have history : row.history ∈ t.settled.histories := by
      rw [Table.settled, Table.histories_rank]
      exact List.mem_map.2 ⟨_, survives, ScanPlan.history_touch plan k c.header _⟩
    obtain ⟨row', hrow', history_eq⟩ := List.mem_map.1 history
    exact ⟨row', hrow', congrArg (fun h : UInt32 × UInt64 × Binary64 × Binary64 => (h.1, h.2.2)) history_eq⟩

/-! ### Clauses stay as they are -/

/-- A header but for what a scan and the flagging of reasons revise: grace, the link to a row, the counts
of use, and the flag of a reason. -/
def Header.settled (h : Header) : Header := h.lasting.withFlag .reason false

namespace Cell

variable {rs : List Reference} {cs ds : List Cell} {k : Nat} {c d : Cell}

/-- The flag of a reason has nothing to do with the table. -/
theorem exists_at_flagged (value : Bool) (rs : List Reference) (hc : At 0 cs k c) :
    ∃ d, At 0 (flagged value rs cs) k d ∧ d.header.tie = c.header.tie :=
  ⟨_, at_mapAt.2 ⟨c, hc, rfl⟩, tie_flagged value (rs.map Reference.offset) k c.header⟩

theorem exists_of_at_flagged {value : Bool} (hd : At 0 (flagged value rs cs) k d) :
    ∃ c, At 0 cs k c ∧ d.header.tie = c.header.tie := by
  obtain ⟨c, hc, rfl⟩ := at_mapAt.1 hd
  exact ⟨c, hc, tie_flagged value (rs.map Reference.offset) k c.header⟩

/-- A cell is the same once the flags of reasons are cleared again, with a scan between. -/
theorem settled_cleared
    (lasting : ds.map (revised Header.lasting) = (flagged true rs cs).map (revised Header.lasting))
    (hc : At 0 cs k c) (hd : At 0 (flagged false rs ds) k d) :
    d.header.settled = c.header.settled ∧ d.literals = c.literals ∧
      d.header.flags.reason = (c.header.flags.reason && !decide (k ∈ rs.map Reference.offset)) := by
  obtain ⟨d', hd', rfl⟩ := at_mapAt.1 hd
  obtain ⟨e, he, same⟩ := hd'.of_map_eq lasting.symm
  obtain ⟨c', hc', rfl⟩ := at_mapAt.1 he
  obtain rfl := hc.unique hc'
  obtain ⟨header_eq, literals_eq, -⟩ := revised_eq_iff.1 same
  have flags_eq := flags_eq_of_lasting same
  by_cases reason : k ∈ rs.map Reference.offset
  · rw [revised, if_pos reason] at header_eq flags_eq
    rw [revised, if_pos reason, decide_eq_true reason, Bool.not_true, Bool.and_false]
    refine ⟨?_, literals_eq.symm, rfl⟩
    show (d'.header.lasting.withFlag .reason false).withFlag .reason false = _
    rw [← header_eq]
    rfl
  · rw [revised, if_neg reason] at header_eq flags_eq
    rw [revised, if_neg reason, decide_eq_false reason, Bool.not_false, Bool.and_true]
    refine ⟨?_, literals_eq.symm, ?_⟩
    · rw [Header.settled, ← header_eq]
      rfl
    · rw [← flags_eq]

end Cell

namespace Database

/-- A failure of the predictor has left all clauses of a database as they were, and the flags of some
reasons clear. -/
structure Spared (db : Database) (reasons : List Reference) (db' : Database) : Prop where
  walk_eq : db'.arena.walkFrom 0 = db.arena.walkFrom 0
  /-- identity, size, kind and all flags but that of a reason stay -/
  headers_eq : ∀ o ∈ (db.arena.walkFrom 0).1,
    (db'.arena.header o).settled = (db.arena.header o).settled
  literals_eq : ∀ o ∈ (db.arena.walkFrom 0).1, db'.arena.literals o = db.arena.literals o
  /-- the reasons are flagged no longer -/
  flags_eq : ∀ o ∈ (db.arena.walkFrom 0).1, (db'.arena.header o).flags.reason =
    ((db.arena.header o).flags.reason && !decide (o ∈ reasons.map Reference.offset))
  live_eq : db'.arena.live = db.arena.live
  watches_eq : db'.watches = db.watches
  occurrences_eq : db'.occurrences = db.occurrences
  counts_eq : db'.counts = db.counts
  /-- no end of a clause is told, and no birth -/
  told : ∃ features : List Event, (∀ e ∈ features, e.isFeatures = true) ∧
    db'.events.toList = db.events.toList ++ features
  /-- no two rows are of one identity -/
  apart : db'.table.identities.Nodup
  /-- the rows that are left have the scores that they had, and the others are of clauses that had none -/
  scores : ∃ made : List UInt32, (∀ identity ∈ made, identity ∉ db.table.identities) ∧
    db'.table.scores.Sublist (db.table.scores ++ made.map unscored)
  /-- each row that is left keeps its own pair of scores -/
  scored_eq : ∀ row' ∈ db'.table.rows.toList, ∀ row ∈ db.table.rows.toList,
    row'.identity = row.identity → row'.scored = row.scored
  /-- the row of a live redundant clause is left, if it has not ended and no other clause is linked to it -/
  exists_scored : ∀ o ∈ db.arena.liveOf true, (db.arena.header o).flags.keep = false → ∀ i row,
    (db.arena.header o).row? = some i → db.table.row? i = some row → row.garbage = false →
    (∀ o' ∈ (db.arena.walkFrom 0).1, (db.arena.header o').row? = some i → o' = o) →
    ∃ row' ∈ db'.table.rows.toList, row'.scored = row.scored

/-- What is read off the cells is the same, where a scan ran between the flagging of reasons and the
clearing of the flags. -/
theorem Holds.spared {db db' : Database} {reasons : List Reference} {cs ds : List Cell}
    (h : db.Holds cs) (h' : db'.Holds (flagged false reasons ds))
    (lasting : ds.map (revised Header.lasting) = (flagged true reasons cs).map (revised Header.lasting))
    (watches_eq : db'.watches = db.watches) (occurrences_eq : db'.occurrences = db.occurrences)
    (counts_eq : db'.counts = db.counts) (told : ∃ features : List Event,
      (∀ e ∈ features, e.isFeatures = true) ∧ db'.events.toList = db.events.toList ++ features)
    (retained : Retained db.table db'.table)
    (exists_scored : ∀ k c, At 0 cs k c → c.Learned → c.header.flags.keep = false → ∀ i row,
      c.header.row? = some i → db.table.row? i = some row → row.garbage = false →
      (∀ d ∈ cs, d.header.row? = some i → d.header.identity = c.header.identity) →
      ∃ row' ∈ db'.table.rows.toList, row'.scored = row.scored) :
    Spared db reasons db' := by
  have same : (flagged false reasons ds).map extent = cs.map extent := by
    rw [extent_flagged, extent_eq_of_map_eq lasting, extent_flagged]
  have walk_eq : db'.arena.walkFrom 0 = db.arena.walkFrom 0 := by
    rw [h'.tiled.walkFrom_zero, h.tiled.walkFrom_zero, offsets_eq same]
  have read : ∀ o ∈ (db.arena.walkFrom 0).1,
      (db'.arena.header o).settled = (db.arena.header o).settled ∧
        db'.arena.literals o = db.arena.literals o ∧ (db'.arena.header o).flags.reason =
          ((db.arena.header o).flags.reason && !decide (o ∈ reasons.map Reference.offset)) := by
    intro o ho
    obtain ⟨c, hc⟩ := h.tiled.mem_walk.1 ho
    obtain ⟨d, hd⟩ := h'.tiled.mem_walk.1 (walk_eq ▸ ho)
    rw [h.tiled.header_eq hc, h'.tiled.header_eq hd, h.tiled.literals_eq hc, h'.tiled.literals_eq hd]
    exact settled_cleared lasting hc hd
  refine ⟨walk_eq, fun o ho => (read o ho).1, fun o ho => (read o ho).2.1, fun o ho => (read o ho).2.2, ?_,
    watches_eq, occurrences_eq, counts_eq, told, retained.apart, retained.scores, retained.scored_eq, ?_⟩
  · rw [Arena.live, Arena.live, walk_eq]
    refine List.filter_congr fun o ho => ?_
    have flags_eq := congrArg (fun k => k.flags.garbage) (read o ho).1
    have garbage_eq : (db'.arena.header o).flags.garbage = (db.arena.header o).flags.garbage := flags_eq
    rw [garbage_eq]
  · intro o ho unkept i row link found alive alone
    obtain ⟨c, hc, learned, header_eq⟩ := h.exists_learned ho
    rw [header_eq] at unkept link
    refine exists_scored o c hc learned unkept i row link found alive fun d hd linked => ?_
    obtain ⟨j, at_d⟩ := exists_at 0 hd
    rw [← h.tiled.header_eq at_d] at linked
    obtain rfl := alone j (h.tiled.mem_walk.2 ⟨d, at_d⟩) linked
    rw [at_d.unique hc]

end Database

/-- Only a reduction by scores fails for the predictor, and it leaves all clauses as they were. -/
theorem Reduction.spared {π : Type} {c : Context π} {search : Snapshot} {cs ds : List Cell}
    {r : Except Error (Report × Snapshot)} {db : Database} (h : Reduction c search cs r db ds)
    (holds : c.database.Holds cs) (distinct : Distinct c.database.nextIdentity cs c.database.table)
    {e : PredictorError} (failed : r = .error (.predictor e)) :
    c.config.predicting.byScore.value = true ∧ c.database.Spared search.reasons db := by
  have left := h.holds holds
  have flags : (c.database.laid (flagged true (c.protects search) cs)).Holds _ :=
    holds.of_core (core_flagged true (c.protects search) cs)
  have distinct := distinct.revised (springs_flagged true (c.protects search) cs)
  cases h with
  | unstarted => cases failed
  | unsatisfiable => cases failed
  | barred => cases failed
  | idle => cases failed
  | compacted => cases failed
  | @failed xs ys ds e' db split start eviction named =>
    cases failed
    cases eviction with
    | @failed _ zs t pass =>
      have result := ScanPlan.pass_scanCells c.plan (extents xs) ys
        (tableFor c.plan (c.database.laid (xs ++ ys)).table) {}
      rw [pass] at result
      obtain ⟨fault, other⟩ := result.table_of_error
      cases other
    | @unscored p cs' t es _ settled score told =>
      have byScore : c.config.predicting.byScore.value = true := score
      have collecting : c.config.collecting = true := by rw [Config.collecting, byScore, Bool.true_or]
      have protects_eq : c.protects search = search.reasons := by
        rw [Context.protects, c.scanStart_of_collecting collecting]
        exact List.filter_eq_self.2 fun r _ => decide_eq_true (Nat.zero_le r.offset)
      rw [protects_eq] at split left flags distinct ⊢
      rw [c.scanStart_of_collecting collecting] at start
      obtain rfl := eq_nil_of_extents start.symm
      have tracked : c.plan.collecting = true := collecting
      have lasting := settled.lasting
      rw [← split] at lasting
      rw [split] at flags distinct
      have features := told ▸ c.plan.isFeatures_exports _ _ _
      have retained := settled.retained tracked flags.ascending flags.below distinct
      refine ⟨byScore, holds.spared left lasting rfl rfl rfl ⟨es, features, Array.toList_append⟩
        retained fun k d hd learned unkept i row link found alive alone => ?_⟩
      -- the flag of a reason concerns neither kind nor link
      obtain ⟨d', hd', tie_eq⟩ := exists_at_flagged true search.reasons hd
      rw [split] at hd'
      refine settled.exists_scored tracked flags.ascending hd'
        (show d'.header.tie.Learned from tie_eq ▸ learned) ((congrArg Tie.keep tie_eq).trans unkept)
        ((congrArg Tie.row? tie_eq).trans link) found alive fun b hb linked => ?_
      obtain ⟨j, at_b⟩ := exists_at 0 hb
      obtain ⟨b', at_b', tie_eq'⟩ :=
        exists_of_at_flagged (split ▸ at_b : At 0 (flagged true search.reasons cs) j b)
      have own := alone b' at_b'.mem ((congrArg Tie.row? tie_eq').symm.trans linked)
      exact (congrArg Tie.identity tie_eq').trans (own.trans (congrArg Tie.identity tie_eq).symm)

/-- What is made of a result that is no failure of the predictor is none. -/
theorem Quiet.map {α β : Type} {r : Except Error α} (h : Quiet r) (f : α → β) : Quiet (r.map f) := by
  cases r with
  | error e =>
    rintro cause ⟨⟩
    exact h cause rfl
  | ok a => exact fun _ => nofun

/-- What the call of a reduction returns is what the reduction comes to. -/
theorem Operation.answer_reduce {π : Type} [Predictor π] (c : Context π) (search : Snapshot) :
    (Operation.reduce search).answer c =
      (outcome (Context.reduce search) c).1.map fun result => .reported result.1 result.2 := by
  rw [answer, perform, outcome_bind]
  rcases outcome (Context.reduce search) c with ⟨_ | _, _⟩ <;> rfl

namespace Context

variable {π : Type} [Predictor π]

/-- Whether a reduction comes to ask the predictor for scores. -/
def Asks (c : Context π) (search : Snapshot) : Prop := (outcome (asks search) c.readied).1 = .ok true

instance (c : Context π) (search : Snapshot) : Decidable (c.Asks search) :=
  inferInstanceAs (Decidable (_ = _))

/-- The context in which a reduction asks, if it does. -/
def asking (c : Context π) (search : Snapshot) : Context π := (outcome (asks search) c.readied).2

/-- What a reduction that asks comes to: the features of the rows go through one batch, which is
released, and a failure of the batch is the failure of the reduction and leaves all clauses as they
were. -/
structure Answers (c : Context π) (search : Snapshot) (matrix : List (List Binary64))
    (result : Except PredictorError (List Binary64)) (p' : π) : Prop where
  features : (outcome (Database.featureMatrix c.counters.conflicts) (c.asking search).database).1 =
    .ok matrix
  length_eq : matrix.length = (c.asking search).database.table.size
  many : c.config.predicting.retain.value.toNat < matrix.length
  consultation : Consultation c.predictor matrix.flatten matrix.length
    c.config.predicting.context.value.toNat result p'
  released : ((Operation.reduce search).after c).predictor = Predictor.finish p'
  told_iff : ∀ e, (Operation.reduce search).answer c = .error (.predictor e) ↔ result = .error e
  spared : ∀ e, result = .error e →
    c.database.Spared search.reasons ((Operation.reduce search).after c).database
  scheduled : ∀ e, result = .error e →
    ((Operation.reduce search).after c).counters.lastReduction = c.counters.conflicts ∧
      ((Operation.reduce search).after c).counters.reduceLimit =
        later c.counters.conflicts c.config.predicting.interval.value

/-- Either no scores are asked for, or those of one batch, whose failures are those of the result. -/
theorem verdict {α : Type} {c : Context π} {search : Snapshot} {r : Except Error α} {p : π}
    (h : Consulting (asks search) c.readied r p) :
    (¬ c.Asks search ∧ p = c.predictor ∧ Quiet r) ∨
      (c.Asks search ∧ ∃ matrix result p',
        (outcome (Database.featureMatrix c.counters.conflicts) (c.asking search).database).1 = .ok matrix ∧
        matrix.length = (c.asking search).database.table.size ∧
        c.config.predicting.retain.value.toNat < matrix.length ∧
        Consultation c.predictor matrix.flatten matrix.length c.config.predicting.context.value.toNat
          result p' ∧
        p = Predictor.finish p' ∧ ∀ e, r = .error (.predictor e) ↔ result = .error e) := by
  -- the log of the context in which the predictor is asked does not matter
  have asked : ∀ {d : Context π} {matrix : List (List Binary64)},
      Yields (asks search) c.readied (.ok true) d →
      Yields (Database.featureMatrix c.counters.conflicts) d.database (.ok matrix) d.database →
      matrix.length = d.database.table.size → c.Asks search ∧
        (outcome (Database.featureMatrix c.counters.conflicts) (c.asking search).database).1 = .ok matrix ∧
        matrix.length = (c.asking search).database.table.size := by
    intro d matrix reached features length_eq
    obtain ⟨ms, reached_eq⟩ := reached.outcome_eq
    obtain ⟨ms', features_eq⟩ := features ms
    have asking_eq : c.asking search = Logged.withMessages ms d := congrArg Prod.snd reached_eq
    rw [Asks, asking_eq, reached_eq]
    exact ⟨rfl, congrArg Prod.fst features_eq, length_eq⟩
  cases h with
  | unasked reached away quiet =>
    obtain ⟨ms, reached_eq⟩ := reached.outcome_eq
    exact .inl ⟨by rwa [Asks, reached_eq], rfl, quiet⟩
  | @failed d matrix e p' reached features length_eq many consultation =>
    obtain ⟨asks, read, count⟩ := asked reached features length_eq
    exact .inr ⟨asks, matrix, .error e, p', read, count, length_eq ▸ many, consultation, rfl, by simp⟩
  | @scored d matrix scores p' _ reached features length_eq many consultation quiet =>
    obtain ⟨asks, read, count⟩ := asked reached features length_eq
    exact .inr ⟨asks, matrix, .ok scores, p', read, count, length_eq ▸ many, consultation, rfl,
      fun e => ⟨fun told => absurd told (quiet e), nofun⟩⟩

/-- Behind every lawful run, a lawful reduction that comes to ask the predictor does so in one batch,
whichever step of which fails, and one that does not come to ask leaves the predictor alone. -/
theorem predictor_failure_spares (config : Config) (predictor : π) (ops : List Operation)
    (search : Snapshot) (follows : (ofConfig config predictor).Follows ops)
    (lawful : (Operation.reduce search).Lawful ((ofConfig config predictor).run ops)) :
    (((ofConfig config predictor).run ops).Asks search →
      ∃ matrix result p', ((ofConfig config predictor).run ops).Answers search matrix result p') ∧
    (¬ ((ofConfig config predictor).run ops).Asks search →
      ((Operation.reduce search).after ((ofConfig config predictor).run ops)).predictor =
          ((ofConfig config predictor).run ops).predictor ∧
        Quiet ((Operation.reduce search).answer ((ofConfig config predictor).run ops))) := by
  obtain ⟨cs, holds, distinct⟩ := exists_distinct config predictor follows
  generalize (ofConfig config predictor).run ops = c at lawful holds distinct ⊢
  obtain ⟨r, db, ds, counters, p, phase, reduces, reduction, consulting, counters_eq⟩ :=
    yields_reduce_scheduled c holds search lawful
  have performs : Yields (Operation.reduce search).perform c _ _ :=
    Operation.yields_answered reduces fun result => .reported result.1 result.2
  obtain ⟨ms, outcome_eq⟩ := performs.outcome_eq
  have answer_eq : (Operation.reduce search).answer c = _ := congrArg Prod.fst outcome_eq
  have after_eq : (Operation.reduce search).after c = _ := congrArg Prod.snd outcome_eq
  have predictor_eq : ((Operation.reduce search).after c).predictor = p := by
    rw [after_eq]
    rfl
  rcases verdict consulting with ⟨other, untouched, quiet⟩ |
    ⟨asked, matrix, result, p', features, length_eq, many, consultation, released, told_iff⟩
  · refine ⟨fun asked => absurd asked other, fun _ => ⟨predictor_eq.trans untouched, ?_⟩⟩
    rw [answer_eq]
    exact quiet.map _
  refine ⟨fun _ => ⟨matrix, result, p', ?_⟩, fun other => absurd asked other⟩
  constructor
  case features => exact features
  case length_eq => exact length_eq
  case many => exact many
  case consultation => exact consultation
  case released => exact predictor_eq.trans released
  case told_iff =>
    intro e
    rw [answer_eq, ← told_iff e]
    cases r with
    | error cause =>
      show Except.error cause = _ ↔ _
      simp
    | ok answer => exact ⟨nofun, nofun⟩
  case spared =>
    intro e failed
    obtain ⟨-, spared⟩ := reduction.spared holds distinct ((told_iff e).2 failed)
    rw [after_eq]
    exact ⟨spared.walk_eq, spared.headers_eq, spared.literals_eq, spared.flags_eq, spared.live_eq,
      spared.watches_eq, spared.occurrences_eq, spared.counts_eq, spared.told, spared.apart, spared.scores,
      spared.scored_eq, spared.exists_scored⟩
  case scheduled =>
    intro e failed
    obtain ⟨byScore, -⟩ := reduction.spared holds distinct ((told_iff e).2 failed)
    rw [after_eq]
    refine ⟨by rw [counters_eq]; rfl, ?_⟩
    show counters.reduceLimit = _
    rw [counters_eq, interval]
    exact congrArg (later _) (if_pos byScore)

/-- More clauses are learned than are retained. -/
def askingRun : List Operation :=
  [.create .redundant 5 [⟨1⟩, ⟨2⟩, ⟨3⟩], .create .redundant 5 [⟨1⟩, ⟨2⟩, ⟨4⟩],
    .create .redundant 5 [⟨1⟩, ⟨2⟩, ⟨5⟩], .create .original 0 [⟨1⟩, ⟨2⟩, ⟨6⟩], .noteConflict]

/-- A predictor without a model fails at the first step of its batch. -/
theorem predictor_failure_spares_askingRun :
    (ofConfig scoringConfig ({} : Linear)).Follows askingRun ∧
      (Operation.reduce { reasons := [.ofOffset 12] }).Lawful
        ((ofConfig scoringConfig ({} : Linear)).run askingRun) ∧
      (∃ matrix result p', ((ofConfig scoringConfig ({} : Linear)).run askingRun).Answers
        { reasons := [.ofOffset 12] } matrix result p' ∧ result = .error .modelsNotLoaded) := by
  have follows : (ofConfig scoringConfig ({} : Linear)).Follows askingRun := by decide +kernel
  have lawful : (Operation.reduce { reasons := [.ofOffset 12] }).Lawful
      ((ofConfig scoringConfig ({} : Linear)).run askingRun) := by decide +kernel
  have asks : ((ofConfig scoringConfig ({} : Linear)).run askingRun).Asks
      { reasons := [.ofOffset 12] } := by decide +kernel
  obtain ⟨matrix, result, p', answers⟩ := (predictor_failure_spares scoringConfig ({} : Linear) askingRun
    { reasons := [.ofOffset 12] } follows lawful).1 asks
  have refused : (outcome (reduce { reasons := [.ofOffset 12] })
      ((ofConfig scoringConfig ({} : Linear)).run askingRun)).1 = .error (.predictor .modelsNotLoaded) := by
    decide +kernel
  have answer_eq := Operation.answer_reduce ((ofConfig scoringConfig ({} : Linear)).run askingRun)
    { reasons := [.ofOffset 12] }
  rw [refused] at answer_eq
  exact ⟨follows, lawful, matrix, result, p', answers, (answers.told_iff _).1 answer_eq⟩

end Context

end ClauseStore
