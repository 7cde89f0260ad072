import ClauseStore.Proofs.Relinking

/-!
Links behind a reduction. Where rows of statistics are kept, every scan visits the whole arena. If the
links that it relies on hold, then neither the scan nor what follows it fails for the table, and a
reduction that removes clauses leaves each live redundant clause linked to its own row, which refers to
it, just where no clause had strayed before.
-/

namespace ClauseStore

open Cell Database

namespace Database

/-- What the records have to do with the table, in order. -/
def ties (db : Database) : List Tie :=
  (db.arena.walkFrom 0).1.map fun o => (db.arena.header o).tie

/-- A redundant clause that is garbage is linked to the row of a live redundant one. -/
def Strays (db : Database) : Prop := Strayed db.ties

instance (db : Database) : Decidable db.Strays := inferInstanceAs (Decidable (Strayed db.ties))

/-- Every live redundant clause is linked to a row of its identity that refers to it, and no two clauses
are linked to one row. -/
structure OwnRows (db : Database) : Prop where
  own : ∀ o ∈ (db.arena.walkFrom 0).1, (db.arena.header o).flags.garbage = false →
    (db.arena.header o).flags.redundant = true → ∃ i row, (db.arena.header o).row? = some i ∧
      db.table.row? i = some row ∧ row.identity = (db.arena.header o).identity ∧
      row.clause = .ofOffset o
  apart : ∀ o ∈ (db.arena.walkFrom 0).1, ∀ o' ∈ (db.arena.walkFrom 0).1, ∀ i,
    (db.arena.header o).row? = some i → (db.arena.header o').row? = some i → o = o'

variable {db : Database} {cs : List Cell}

theorem Holds.ties_eq (h : db.Holds cs) : db.ties = cs.map tie := by
  rw [ties, h.tiled.walkFrom_zero]
  exact map_offsets fun k c hc => by rw [h.tiled.header_eq hc, tie]

/-- Clauses that are tied both ways, without garbage among them, have rows of their own. -/
theorem Holds.ownRows (h : db.Holds cs) (bothWays : TiedBothWays cs db.table)
    (live : ∀ c ∈ cs, c.isGarbage = false) : db.OwnRows := by
  constructor
  · intro o ho garbage redundant
    obtain ⟨c, hc⟩ := h.tiled.mem_walk.1 ho
    rw [h.tiled.header_eq hc] at garbage redundant ⊢
    obtain ⟨i, row, link, found, own, place, -⟩ := bothWays.own o c hc ⟨garbage, redundant⟩
    exact ⟨i, row, link, found, own, place⟩
  · intro o ho o' ho' i link link'
    obtain ⟨c, hc⟩ := h.tiled.mem_walk.1 ho
    obtain ⟨d, hd⟩ := h.tiled.mem_walk.1 ho'
    rw [h.tiled.header_eq hc] at link
    rw [h.tiled.header_eq hd] at link'
    have learned : ∀ {e : Cell} {j : Nat}, At 0 cs j e → e.header.row? = some i → e.Learned := by
      intro e j he link
      refine ⟨live e he.mem, ?_⟩
      cases redundant : e.header.flags.redundant with
      | true => rfl
      | false =>
        rw [bothWays.free e he.mem redundant] at link
        cases link
    obtain ⟨j, row, link₁, found, -, place, -⟩ := bothWays.own o c hc (learned hc link)
    obtain ⟨j', row', link₁', found', -, place', -⟩ := bothWays.own o' d hd (learned hd link')
    rw [link] at link₁
    rw [link'] at link₁'
    cases link₁
    cases link₁'
    rw [found] at found'
    cases found'
    have same := congrArg Reference.offset (place.symm.trans place')
    rwa [h.offset_ofOffset hc, h.offset_ofOffset hd] at same

/-- Where a live redundant clause has lost its row, not all clauses have rows of their own. -/
theorem Holds.not_ownRows (h : db.Holds cs) (lost : Lost cs db.table) : ¬ db.OwnRows := by
  intro ownRows
  obtain ⟨k, c, hc, learned, none⟩ := lost
  have own := ownRows.own k (h.tiled.mem_walk.2 ⟨c, hc⟩)
  rw [h.tiled.header_eq hc] at own
  obtain ⟨i, row, -, found, own, -⟩ := own learned.1 learned.2
  exact none row (Table.mem_of_row? found) own

end Database

/-! ### The invariant -/

/-- By scores alone no redundant clause is kept. -/
def Unkept (config : Config) (cs : List Cell) : Prop :=
  config.predicting.generating.value = false →
    ∀ c ∈ cs, c.header.flags.redundant = true → c.header.flags.keep = false

/-- By scores no redundant clause is stored as a kept one. -/
theorem keeps_of_byScore {config : Config} {source : Source} {glue : UInt32}
    (byScore : config.predicting.byScore.value = true) (redundant : (source == .redundant) = true) :
    keeps config source glue = false := by
  have learned : source = .redundant := by simpa using redundant
  rw [learned, keeps, byScore]
  exact Bool.and_false _

/-- Where rows are kept for scores alone, no redundant clause is stored as a kept one. -/
theorem keeps_eq_false {config : Config} {source : Source} {glue : UInt32}
    (collecting : config.collecting = true) (generating : config.predicting.generating.value = false)
    (redundant : (source == .redundant) = true) : keeps config source glue = false := by
  refine keeps_of_byScore ?_ redundant
  rw [Config.collecting, generating, Bool.or_false] at collecting
  exact collecting

theorem Unkept.of_origin {config : Config} {cs ds : List Cell} (h : Unkept config cs)
    (origin : ∀ d ∈ ds, ∃ c ∈ cs, c.header.flags.redundant = d.header.flags.redundant ∧
      c.header.flags.keep = d.header.flags.keep) : Unkept config ds := by
  intro generating d hd redundant
  obtain ⟨c, hc, redundant_eq, keep_eq⟩ := origin d hd
  exact keep_eq.symm.trans (h generating c hc (redundant_eq.trans redundant))

theorem Unkept.of_lasting {config : Config} {cs ds : List Cell} (h : Unkept config cs)
    (lasting : ds.map (revised Header.lasting) = cs.map (revised Header.lasting)) :
    Unkept config ds := by
  refine h.of_origin fun d hd => ?_
  obtain ⟨k, at_d⟩ := exists_at 0 hd
  obtain ⟨c, at_c, same⟩ := at_d.of_map_eq lasting.symm
  have flags_eq := flags_eq_of_lasting same
  exact ⟨c, at_c.mem, congrArg Flags.redundant flags_eq, congrArg Flags.keep flags_eq⟩

theorem Unkept.markAll {config : Config} {cs : List Cell} (h : Unkept config cs) (ms : List Placed) :
    Unkept config (markAll ms cs) := by
  refine h.of_origin fun d hd => ?_
  rw [markAll_eq] at hd
  obtain ⟨k, at_d⟩ := exists_at 0 hd
  obtain ⟨c, at_c, rfl⟩ := at_mapAt.1 at_d
  refine ⟨c, at_c.mem, ?_⟩
  rw [Cell.revised]
  split <;> exact ⟨rfl, rfl⟩

/-- What a database keeps along a run for which rows are kept. -/
structure TiedToRows (config : Config) (db : Database) (cs : List Cell) : Prop where
  holds : db.Holds cs
  linked : ∃ mark, mark ≤ db.nextIdentity.toNat ∧ Linked mark (cs.map tie) db.table
  alive : Alive (cs.map tie) db.table
  unkept : Unkept config cs

namespace TiedToRows

variable {config : Config} {db db' : Database} {cs ds : List Cell}

theorem nil : TiedToRows config {} [] :=
  ⟨holds_nil, ⟨0, Nat.zero_le _, ⟨by simp, by simp, by simp⟩⟩, by simp [Alive], by simp [Unkept]⟩

/-- Fewer clauses with the same links stay tied to rows of the same standing. -/
theorem subset (h : TiedToRows config db cs) (holds : db'.Holds ds) (sub : ds.map tie ⊆ cs.map tie)
    (standing_eq : db'.table.standing = db.table.standing)
    (next_le : db.nextIdentity.toNat ≤ db'.nextIdentity.toNat) : TiedToRows config db' ds := by
  obtain ⟨mark, mark_le, linked⟩ := h.linked
  refine ⟨holds, ⟨mark, Nat.le_trans mark_le next_le, (linked.subset sub).of_standing standing_eq⟩,
    (h.alive.subset sub).of_standing standing_eq, h.unkept.of_origin fun d hd => ?_⟩
  obtain ⟨c, hc, tie_eq⟩ := List.mem_map.1 (sub (List.mem_map_of_mem hd))
  exact ⟨c, hc, congrArg Tie.redundant tie_eq, congrArg Tie.keep tie_eq⟩

/-- Clauses that are tied both ways are tied to rows. -/
theorem of_bothWays (holds : db.Holds cs) (bothWays : TiedBothWays cs db.table)
    (unkept : Unkept config cs) : TiedToRows config db cs := by
  refine ⟨holds, ⟨_, Nat.le_refl _, fun b hb learned _ => ?_, fun b hb irredundant => ?_,
    fun b hb above => ?_⟩, fun b hb learned i row link found => ?_, unkept⟩
  all_goals obtain ⟨c, hc, rfl⟩ := List.mem_map.1 hb
  · obtain ⟨k, at_c⟩ := exists_at 0 hc
    obtain ⟨i, row, link, found, own, -⟩ := bothWays.own k c at_c learned
    exact ⟨i, row, link, found, own⟩
  · exact .inl (bothWays.free c hc irredundant)
  · have := holds.below c hc
    have above : db.nextIdentity.toNat ≤ c.identity := above
    omega
  · obtain ⟨k, at_c⟩ := exists_at 0 hc
    obtain ⟨j, row', link', found', -, -, live⟩ := bothWays.own k c at_c learned
    have : some i = some j := (show c.header.row? = some i from link).symm.trans link'
    cases this
    rw [found] at found'
    cases found'
    exact live

end TiedToRows

/-! ### Behind a scan -/

/-- What a scan of the whole arena leaves, if rows are kept. -/
structure Scanned (plan : ScanPlan) (ys : List Cell) (db : Database) (r : Except Error ScanProgress)
    (zs : List Cell) (t : Table) : Prop where
  ok : ∃ p, r = .ok p
  pass : plan.Pass 0 ys db.table.markUnseen {} r zs t
  passed : ScanPlan.Passed 0 ys db.table.markUnseen zs t
  anchored : ScanPlan.Anchored zs (extents ys) t

theorem ScanPlan.Anchored.of_lasting {cs ds : List Cell} {limit : Nat} {t : Table}
    (h : ScanPlan.Anchored cs limit t)
    (lasting : ds.map (revised Header.lasting) = cs.map (revised Header.lasting)) :
    ScanPlan.Anchored ds limit t := by
  refine ⟨fun i row found seen => ?_, h.apart⟩
  obtain ⟨k, c, hc, learned, own, place, before⟩ := h.own i row found seen
  obtain ⟨d, hd, same⟩ := hc.of_map_eq lasting
  exact ⟨k, d, hd, learned.of_lasting same, (identity_eq_of_lasting same).trans own, place, before⟩

/-- The plan keeps rows, and is made for a configuration. -/
structure Tracks (plan : ScanPlan) (config : Config) : Prop where
  collecting : plan.collecting = true
  generating_eq : plan.generating = config.predicting.generating.value

/-- Where rows are kept, a clause that is not kept by scores alone opens a scan. -/
theorem Tracks.opens {plan : ScanPlan} {config : Config} (tracks : Tracks plan config) {h : Header}
    (unkept : config.predicting.generating.value = false → h.flags.keep = false) :
    plan.opens h = true := by
  rw [ScanPlan.opens, tracks.generating_eq]
  cases generating : config.predicting.generating.value with
  | true => rfl
  | false =>
    rw [unkept generating]
    rfl

section Scanned

variable {config : Config} {plan : ScanPlan} {db : Database} {ys zs : List Cell} {t : Table}
  {r : Except Error ScanProgress}

/-- A scan of the whole arena does not fail where clauses are tied. -/
theorem TiedToRows.scanned (h : TiedToRows config db ys) (tracks : Tracks plan config)
    (pass : plan.scanCells 0 ys (tableFor plan db.table) {} = (r, zs, t)) :
    Scanned plan ys db r zs t := by
  obtain ⟨mark, -, linked⟩ := h.linked
  have fits := h.holds.fits'
  have result := ScanPlan.pass_scanCells plan 0 ys (tableFor plan db.table) {}
  rw [pass, tableFor, if_pos tracks.collecting] at result
  obtain ⟨ok, passed⟩ := result.passed (linked.of_standing (Table.standing_markUnseen _))
    tracks.collecting (fun c hc redundant => tracks.opens fun scored => h.unkept scored c hc redundant)
    h.holds.ascending
  have anchored : ScanPlan.Anchored ([] ++ ys) (extents ([] ++ ys)) t :=
    anchored_pass tracks.collecting (by rw [List.nil_append]; omega) pass
  exact ⟨ok, result, passed, anchored.of_lasting result.lasting⟩

namespace Scanned

/-- The clauses stay tied where the scan finds no candidate, if links can name all rows. -/
theorem tied (h : Scanned plan ys db r zs t) (tied : TiedToRows config db ys)
    (clear : ¬ Strayed (ys.map tie)) (narrow : t.size ≤ 2147483648) {db' : Database}
    (holds : db'.Holds zs) (table_eq : db'.table = t) (next_eq : db'.nextIdentity = db.nextIdentity) :
    TiedToRows config db' zs := by
  obtain ⟨mark, -, linked⟩ := tied.linked
  have standing_eq := Table.standing_markUnseen db.table
  have alive := h.passed.alive h.pass (linked.of_standing standing_eq) tied.holds.ascending
    (tied.alive.of_standing standing_eq) clear narrow
  have linked := h.passed.linked h.pass narrow tied.holds.below
  rw [← table_eq] at linked alive
  exact ⟨holds, ⟨_, Nat.le_of_eq (by rw [next_eq]), linked⟩, alive,
    tied.unkept.of_lasting h.pass.lasting⟩

/-- The clauses of the rows that stay are tied to them both ways, where no clause had strayed. -/
theorem bothWays (h : Scanned plan ys db r zs t) (tied : TiedToRows config db ys)
    (clear : ¬ Strayed (ys.map tie)) : TiedBothWays (relinked (entries t) zs) t.settled := by
  obtain ⟨mark, -, linked⟩ := tied.linked
  have standing_eq := Table.standing_markUnseen db.table
  have fits := tied.holds.fits'
  have extents_eq : extents zs = extents ys := extents_eq_of_map_eq h.pass.lasting
  refine h.anchored.bothWays (by omega) (fun k z at_z learned => ?_) fun z hz irredundant => ?_
  · obtain ⟨i, row, -, owns⟩ := h.passed.owns h.pass (linked.of_standing standing_eq)
      tied.holds.ascending (tied.alive.of_standing standing_eq) clear at_z learned
    exact ⟨i, row, owns⟩
  · obtain ⟨k, at_z⟩ := exists_at 0 hz
    obtain ⟨c, at_c, -, flags_eq⟩ := h.pass.origin at_z
    have other := h.passed.other k c z at_c at_z fun learned => by
      rw [Learned, flags_eq, irredundant] at learned
      cases learned.2
    rw [flags_eq, irredundant] at other
    exact other

/-- Some clause loses its row, where one had strayed. -/
theorem lost (h : Scanned plan ys db r zs t) (tied : TiedToRows config db ys)
    (strayed : Strayed (ys.map tie)) : Lost (relinked (entries t) zs) t.settled := by
  obtain ⟨mark, -, linked⟩ := tied.linked
  obtain ⟨k, z, i, row, at_z, learned, found, place, seen, garbage⟩ :=
    h.passed.dead h.pass (linked.of_standing (Table.standing_markUnseen _)) strayed
  exact h.anchored.lost (ascending_of_lasting h.pass.lasting tied.holds.ascending) at_z learned found
    seen place garbage

theorem clean (h : Scanned plan ys db r zs t) (clean : Clean (ys.map tie) db.table) :
    Clean (zs.map tie) t :=
  h.passed.clean h.pass (clean.of_standing (Table.standing_markUnseen _))

end Scanned

end Scanned

/-! ### Behind an eviction -/

namespace Eviction

variable {config : Config} {plan : ScanPlan} {fraction : UInt32} {db db' : Database} {ys cs : List Cell}
  {r : Except Error (Option Nat)}

/-- Only the predictor makes an eviction fail, and only by scores. -/
theorem cause (h : Eviction plan fraction [] ys db r db' cs) (tied : TiedToRows config db ys)
    (tracks : Tracks plan config) {e : Error} (failed : r = .error e) :
    plan.byScore = true ∧ ∃ cause, e = .predictor cause := by
  cases h with
  | failed pass =>
    obtain ⟨p, ok⟩ := (tied.scanned tracks pass).ok
    cases ok
  | idle => cases failed
  | unscored settled byScore =>
    cases failed
    exact ⟨byScore, _, rfl⟩
  | removed => cases failed

/-- The table behind an eviction that removes clauses, and the links of those that are left. -/
theorem table_removed {p : ScanProgress} {zs : List Cell} {t : Table} {es : List Event}
    {ms : List Placed} {n : Nat} (offers : ∀ m ∈ ms, plan.Offers m.2) :
    ((db.settledBehind zs t p.first es).evicted ms zs n).table = endedAll ms t :=
  table_markedAll fun m hm => (offers m hm).learned.2

/-- What a settlement makes of the clauses is tied both ways just where none had strayed. -/
theorem bothWays_settlement {p : ScanProgress} {t : Table} (settled : Settlement plan [] ys db.table p cs t)
    (tied : TiedToRows config db ys) (tracks : Tracks plan config) :
    (¬ Strayed (ys.map tie) → TiedBothWays cs t) ∧ (Strayed (ys.map tie) → Lost cs t) := by
  cases settled with
  | bare untracked =>
    rw [tracks.collecting] at untracked
    cases untracked
  | linked tracked pass =>
    have scanned := tied.scanned tracks pass
    exact ⟨scanned.bothWays tied, scanned.lost tied⟩

/-- Behind an eviction that removes clauses, the others are tied both ways, where none had strayed. -/
theorem bothWays (h : Eviction plan fraction [] ys db r db' cs) (tied : TiedToRows config db ys)
    (tracks : Tracks plan config) (clear : ¬ Strayed (ys.map tie)) {n : Nat}
    (ok : r = .ok (some n)) : TiedBothWays cs db'.table := by
  cases h with
  | failed => cases ok
  | idle => cases ok
  | unscored => cases ok
  | @removed p zs t t' es ms n settled keys_eq told markable offers rows behind count =>
    rw [table_removed offers]
    obtain ⟨bothWays, -⟩ := bothWays_settlement settled tied tracks
    exact ((bothWays clear).of_keys keys_eq).markedAll
      (ascending_of_lasting settled.lasting tied.holds.ascending) markable fun m hm => (offers m hm).learned

/-- Behind an eviction by scores that removes clauses, one has lost its row, where one had strayed. -/
theorem lost (h : Eviction plan fraction [] ys db r db' cs) (tied : TiedToRows config db ys)
    (tracks : Tracks plan config)
    (strayed : Strayed (ys.map tie)) (byScore : plan.byScore = true) {n : Nat} (ok : r = .ok (some n)) :
    Lost cs db'.table := by
  cases h with
  | failed => cases ok
  | idle => cases ok
  | unscored => cases ok
  | @removed p zs t t' es ms n settled keys_eq told markable offers rows behind count =>
    rw [table_removed offers]
    have fits := tied.holds.fits'
    have fits_zs : extents zs = extents ys := extents_eq_of_map_eq settled.lasting
    obtain ⟨-, lost⟩ := bothWays_settlement settled tied tracks
    have rowsOfLearned :=
      (settled.rowsOfLearned tracks.collecting (by rw [List.nil_append]; omega)).of_keys keys_eq
    refine ((lost strayed).of_keys keys_eq).markedAll markable.placed fun m hm => ?_
    obtain ⟨row, hrow, place⟩ := rows byScore m hm
    obtain ⟨k, d, hd, -, own, place'⟩ := rowsOfLearned.rows row hrow
    have at_m := markable.placed m hm
    have bounds_d := hd.bounds.2
    have bounds_m := at_m.bounds.2
    have same := congrArg Reference.offset (place'.symm.trans place)
    have := d.extent_pos
    have := m.2.extent_pos
    rw [toNat_ofOffset (by omega), toNat_ofOffset (by omega)] at same
    rw [same] at hd
    rw [hd.unique at_m] at own
    exact ⟨row, hrow, own.symm⟩

/-- An eviction keeps clauses tied, also if it fails, where none had strayed. -/
theorem tied (h : Eviction plan fraction [] ys db r db' cs) (tied : TiedToRows config db ys)
    (tracks : Tracks plan config) (clear : ¬ Strayed (ys.map tie))
    (narrow : db'.table.size ≤ 2147483648) : TiedToRows config db' cs := by
  have holds := h.holds tied.holds
  have bothWays := fun (n : Nat) (ok : r = .ok (some n)) => h.bothWays tied tracks clear ok
  cases h with
  | failed pass =>
    obtain ⟨p, ok⟩ := (tied.scanned tracks pass).ok
    cases ok
  | idle pass => exact (tied.scanned tracks pass).tied tied clear narrow holds rfl rfl
  | unscored settled =>
    obtain ⟨bothWays, -⟩ := bothWays_settlement settled tied tracks
    exact .of_bothWays holds (bothWays clear) (tied.unkept.of_lasting settled.lasting)
  | @removed p zs t t' es ms n settled keys_eq told markable offers rows behind count =>
    exact .of_bothWays holds (bothWays n rfl) ((tied.unkept.of_lasting settled.lasting).markAll ms)

theorem clean (h : Eviction plan fraction [] ys db r db' cs) (tied : TiedToRows config db ys)
    (tracks : Tracks plan config) (clean : Clean (ys.map tie) db.table) (ok : r = .ok none) :
    Clean (cs.map tie) db'.table := by
  cases h with
  | failed => cases ok
  | idle pass => exact (tied.scanned tracks pass).clean clean
  | unscored => cases ok
  | removed => cases ok

end Eviction

/-! ### Behind a reduction -/

theorem Cell.eq_nil_of_extents {xs : List Cell} (h : extents xs = 0) : xs = [] := by
  cases xs with
  | nil => rfl
  | cons c cs =>
    have := c.extent_pos
    rw [extents_cons] at h
    omega

theorem Cell.ties_flagged (value : Bool) (rs : List Reference) (cs : List Cell) :
    (flagged value rs cs).map tie = cs.map tie :=
  map_mapAt fun k c _ => tie_flagged value (rs.map Reference.offset) k c.header

theorem Cell.ties_settle (fill : Nat → UInt32) (n : Nat) (ys : List Cell) :
    (settle fill n ys).map tie = (ys.filter fun c => !c.isGarbage).map tie :=
  map_settle fun _ _ => rfl

/-- What a collection leaves has the links of some of the cells before. -/
theorem Cell.ties_settle_subset (fill : Nat → UInt32) (n : Nat) (xs ys : List Cell) :
    (xs ++ settle fill n ys).map tie ⊆ (xs ++ ys).map tie := by
  intro b hb
  rw [List.map_append, List.mem_append, ties_settle] at hb
  rw [List.map_append, List.mem_append]
  refine hb.imp_right fun hb => ?_
  obtain ⟨c, hc, rfl⟩ := List.mem_map.1 hb
  exact List.mem_map_of_mem (List.mem_filter.1 hc).1

theorem TiedToRows.collected {config : Config} {db : Database} {xs ys : List Cell}
    (h : TiedToRows config db (xs ++ ys)) {first : Reference} (last : Reference)
    (first_at : first.isValid = true →
      ∃ d, At (extents xs) (settle db.arena.word (extents xs) ys) first.offset d) :
    TiedToRows config (db.collected xs ys first last)
      (xs ++ settle db.arena.word (extents xs) ys) :=
  h.subset (h.holds.collected last first_at) (ties_settle_subset ..) (Table.standing_relocate _ _)
    (Nat.le_refl _)

namespace Reduction

variable {π : Type} {c : Context π} {search : Snapshot} {cs ds xs ys : List Cell}
  {r : Except Error (Report × Snapshot)} {db : Database}

theorem tracks (collecting : c.config.collecting = true) : Tracks c.plan c.config := ⟨collecting, rfl⟩

/-- Where rows are kept, a scan is one of all cells, with the links that they had. -/
theorem tied_flagged (tied : TiedToRows c.config c.database cs) (collecting : c.config.collecting = true)
    {rs : List Reference} {whole : Bool} (split : flagged true rs cs = xs ++ ys)
    (start : (c.scanStart whole).offset = extents xs) :
    xs = [] ∧ TiedToRows c.config (c.database.laid (xs ++ ys)) (xs ++ ys) ∧
      (xs ++ ys).map tie = cs.map tie := by
  have ties_eq := ties_flagged true rs cs
  have holds := tied.holds.of_core (core_flagged true rs cs)
  rw [split] at ties_eq holds
  rw [c.scanStart_of_collecting collecting] at start
  refine ⟨eq_nil_of_extents start.symm, tied.subset holds ?_ rfl (Nat.le_refl _), ties_eq⟩
  rw [ties_eq]
  exact List.Subset.refl _

/-- The flags of reasons do not concern links. -/
theorem tied_cleared {config : Config} (tied : TiedToRows config db ds) (value : Bool) (rs : List Reference) :
    TiedToRows config (db.laid (flagged value rs ds)) (flagged value rs ds) := by
  refine tied.subset (tied.holds.of_core (core_flagged value rs ds)) ?_ rfl (Nat.le_refl _)
  rw [ties_flagged]
  exact List.Subset.refl _

/-- A reduction keeps clauses tied, also if it fails, where none had strayed. -/
theorem tied (h : Reduction c search cs r db ds) (tied : TiedToRows c.config c.database cs)
    (collecting : c.config.collecting = true) (clear : ¬ Strayed (cs.map tie))
    (narrow : db.table.size ≤ 2147483648) : TiedToRows c.config db ds := by
  have evicted : ∀ {rs : List Reference} {xs ys ds : List Cell} {db : Database}
      {r : Except Error (Option Nat)}, flagged true rs cs = xs ++ ys →
      (c.scanStart (c.whole search)).offset = extents xs →
      Eviction c.plan c.config.reducing.fraction.value xs ys (c.database.laid (xs ++ ys)) r db ds →
      db.table.size ≤ 2147483648 →
      TiedToRows c.config (db.laid (flagged false rs ds)) (flagged false rs ds) := by
    intro rs xs ys ds db r split start eviction narrow
    obtain ⟨rfl, flags, ties_eq⟩ := tied_flagged tied collecting split start
    rw [← ties_eq] at clear
    exact tied_cleared (eviction.tied flags (tracks collecting) clear narrow) false rs
  cases h with
  | unstarted => exact tied
  | unsatisfiable => exact tied
  | barred => exact tied_cleared tied true _
  | failed split start eviction => exact evicted split start eviction narrow
  | idle part split start eviction => exact evicted split start eviction narrow
  | compacted asked split start eviction resplit restart first_at =>
    have left := evicted split start eviction (Table.size_relocate _ _ ▸ narrow)
    rw [resplit] at left
    exact left.collected _ first_at

/-- Only the predictor makes a reduction by scores fail, and else a reason that is no clause. -/
theorem cause (h : Reduction c search cs r db ds) (tied : TiedToRows c.config c.database cs)
    (collecting : c.config.collecting = true) {e : Error} (failed : r = .error e) :
    e = .arena .invalidReference ∨
      c.config.predicting.byScore.value = true ∧ ∃ cause, e = .predictor cause := by
  cases h with
  | unstarted => cases failed
  | unsatisfiable => cases failed
  | barred =>
    cases failed
    exact .inl rfl
  | failed split start eviction =>
    cases failed
    obtain ⟨rfl, flags, -⟩ := tied_flagged tied collecting split start
    exact .inr (eviction.cause flags (tracks collecting) rfl)
  | idle => cases failed
  | compacted => cases failed

/-- Behind a reduction that removes clauses, the table and the cells are those of an eviction whose
flags are cleared, compacted as a whole. -/
theorem exists_eviction (h : Reduction c search cs r db ds) (tied : TiedToRows c.config c.database cs)
    (collecting : c.config.collecting = true) {n : Nat} {after : Snapshot}
    (ok : r = .ok (.reduced n, after)) : ∃ ys ds₀ db₀,
      TiedToRows c.config (c.database.laid ys) ys ∧ ys.map tie = cs.map tie ∧
      Eviction c.plan c.config.reducing.fraction.value [] ys (c.database.laid ys) (.ok (some n)) db₀ ds₀ ∧
      ∃ fill, ds = settle fill 0 (flagged false (c.protects search) ds₀) ∧
        db.table = db₀.table.relocate (relocationOf [] (flagged false (c.protects search) ds₀)) := by
  cases h with
  | unstarted => cases ok
  | unsatisfiable => cases ok
  | barred => cases ok
  | failed => cases ok
  | idle => cases ok
  | @compacted xs ys ds₀ xs' ys' found db₀ first last asked split start eviction resplit restart first_at =>
    cases found with
    | none => cases ok
    | some m =>
      cases ok
      obtain ⟨rfl, flags, ties_eq⟩ := tied_flagged tied collecting split start
      have nil : xs' = [] := eq_nil_of_extents restart
      subst nil
      rw [List.nil_append] at resplit
      refine ⟨ys, ds₀, db₀, flags, ties_eq, eviction, (Arena.ofCells ys').word, ?_, ?_⟩
      · rw [resplit]
        rfl
      · rw [resplit]
        rfl

/-- Behind a reduction that removes clauses, they have rows of their own just where none had strayed. -/
theorem ownRows_iff (h : Reduction c search cs r db ds) (tied : TiedToRows c.config c.database cs)
    (collecting : c.config.collecting = true)
    (scored : Strayed (cs.map tie) → c.config.predicting.byScore.value = true) {n : Nat}
    {after : Snapshot} (ok : r = .ok (.reduced n, after)) :
    db.OwnRows ↔ ¬ Strayed (cs.map tie) := by
  have holds := h.holds tied.holds
  obtain ⟨ys, ds₀, db₀, flags, ties_eq, eviction, fill, rfl, table_eq⟩ :=
    h.exists_eviction tied collecting ok
  have fits := flags.holds.fits'
  have extents_eq : extents (flagged false (c.protects search) ds₀) = extents ys :=
    extents_eq ((extent_flagged false (c.protects search) ds₀).trans eviction.extent_eq)
  rw [← extents_eq] at fits
  have flag := tie_flagged false ((c.protects search).map Reference.offset)
  constructor
  · intro ownRows strayed
    have lost := eviction.lost flags (tracks collecting) (by rwa [ties_eq]) (scored strayed) rfl
    refine holds.not_ownRows ?_ ownRows
    rw [table_eq]
    exact (lost.revised flag).collected fill fits
  · intro clear
    have bothWays := eviction.bothWays flags (tracks collecting) (by rwa [ties_eq]) rfl
    refine holds.ownRows ?_ fun d hd => isGarbage_of_mem_settle hd
    rw [table_eq]
    exact (bothWays.revised flag).collected fill fits

/-- Unless the predictor fails, garbage stays linked to its own rows, or is gone. -/
theorem clean (h : Reduction c search cs r db ds) (tied : TiedToRows c.config c.database cs)
    (collecting : c.config.collecting = true)
    (clean : Clean (cs.map tie) c.database.table) (scored : ∀ cause, r ≠ .error (.predictor cause)) :
    Clean (ds.map tie) db.table := by
  cases h with
  | unstarted => exact clean
  | unsatisfiable => exact clean
  | barred =>
    rw [ties_flagged]
    exact clean
  | failed split start eviction =>
    obtain ⟨rfl, flags, -⟩ := tied_flagged tied collecting split start
    obtain ⟨-, cause, rfl⟩ := eviction.cause flags (tracks collecting) rfl
    exact absurd rfl (scored cause)
  | idle part split start eviction =>
    obtain ⟨rfl, flags, ties_eq⟩ := tied_flagged tied collecting split start
    rw [ties_flagged]
    exact eviction.clean flags (tracks collecting) (ties_eq.symm ▸ clean) rfl
  | @compacted xs ys ds₀ xs' ys' found db₀ first last asked split start eviction resplit restart first_at =>
    obtain ⟨rfl, -⟩ := tied_flagged tied collecting split start
    have nil : xs' = [] := eq_nil_of_extents restart
    subst nil
    intro b hb garbage
    obtain ⟨d, hd, rfl⟩ := List.mem_map.1 hb
    exact absurd garbage (Bool.eq_false_iff.1 (isGarbage_of_mem_settle hd))

end Reduction

end ClauseStore
