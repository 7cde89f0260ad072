import ClauseStore.Proofs.Ranking
import ClauseStore.Proofs.Carrying
import ClauseStore.Proofs.Survey

/-!
Aging of clauses in a reduction. By rank, a scan takes one from the grace of each live redundant clause
that it comes to, unless the clause is kept or a reason, and nothing else of a reduction takes any. A
clause of the second tier with some grace is no candidate, so it is not removed. One that the scan
considers is a candidate if it has no grace, or if it is beyond the second tier.
-/

namespace ClauseStore

open Cell Database

/-! ### What reductions come to -/

/-- Clauses are ranked, no features are generated, and the second tier ends at some glue. -/
structure Config.Grants (config : Config) (tier2 : UInt32) : Prop where
  collecting : config.collecting = false
  tier2_eq : config.retention.tier2.value = tier2

namespace Config.Grants

variable {config : Config} {tier2 : UInt32}

instance (config : Config) (tier2 : UInt32) : Decidable (config.Grants tier2) :=
  decidable_of_iff (config.collecting = false ∧ config.retention.tier2.value = tier2)
    ⟨fun ⟨collecting, tier2_eq⟩ => ⟨collecting, tier2_eq⟩, fun h => ⟨h.collecting, h.tier2_eq⟩⟩

theorem byRank (h : config.Grants tier2) : config.predicting.byScore.value = false :=
  (Bool.or_eq_false_iff.1 h.collecting).1

theorem ungenerated (h : config.Grants tier2) : config.predicting.generating.value = false :=
  (Bool.or_eq_false_iff.1 h.collecting).2

end Config.Grants

/-- A clause that a scan by rank takes grace from: it is live and redundant, and neither kept nor a
reason. -/
structure Header.Loose (h : Header) : Prop where
  live : h.flags.garbage = false
  redundant : h.flags.redundant = true
  unkept : h.flags.keep = false
  free : h.flags.reason = false

namespace Context

variable {π : Type}

/-- The scan of a reduction comes to the record at an offset: it starts at or before the record, the
search is consistent, and all reasons that are to be flagged are clauses. -/
structure Scans (c : Context π) (search : Snapshot) (o : Nat) : Prop where
  proceeds : c.Proceeds search
  named : c.database.Names (c.protects search)
  behind : (c.scanStart (c.whole search)).offset ≤ o

/-- The scan of a reduction comes to a live redundant clause that is neither kept nor a reason. -/
structure Considers (c : Context π) (search : Snapshot) (o : Nat) : Prop extends c.Scans search o where
  record : o ∈ (c.database.arena.walkFrom 0).1
  loose : (c.database.arena.header o).Loose
  unlisted : o ∉ search.reasons.map Reference.offset

/-- The clause at an offset is among the candidates that the scan of a reduction finds. -/
def Nominates (c : Context π) (search : Snapshot) (o : Nat) : Prop :=
  Candidate.ofHeader (.ofOffset o) (c.database.arena.header o) ∈ c.finds search

instance (h : Header) : Decidable h.Loose :=
  decidable_of_iff
    (h.flags.garbage = false ∧ h.flags.redundant = true ∧ h.flags.keep = false ∧ h.flags.reason = false)
    ⟨fun ⟨live, redundant, unkept, free⟩ => ⟨live, redundant, unkept, free⟩,
      fun h => ⟨h.live, h.redundant, h.unkept, h.free⟩⟩

instance (c : Context π) (search : Snapshot) (o : Nat) : Decidable (c.Considers search o) :=
  decidable_of_iff
    ((((c.scanStart (c.whole search)).isValid = true ∧ search.inconsistent = false) ∧
      c.database.Names (c.protects search) ∧ (c.scanStart (c.whole search)).offset ≤ o) ∧
      o ∈ (c.database.arena.walkFrom 0).1 ∧ (c.database.arena.header o).Loose ∧
      o ∉ search.reasons.map Reference.offset)
    ⟨fun ⟨⟨proceeds, named, behind⟩, record, loose, unlisted⟩ =>
      ⟨⟨proceeds, named, behind⟩, record, loose, unlisted⟩,
    fun h => ⟨⟨h.proceeds, h.named, h.behind⟩, h.record, h.loose, h.unlisted⟩⟩

variable {c : Context π} {tier2 : UInt32}

theorem graced_iff (grants : c.config.Grants tier2) {h : Header} :
    c.graced h = true ↔ 0 < h.grace.toNat ∧ h.glue.toNat ≤ tier2.toNat := by
  simp [graced, grants.ungenerated, grants.tier2_eq]

theorem graced_of_inherits {h h' : Header} (inherits : h.Inherits h') : c.graced h' = c.graced h := by
  rw [graced, graced, inherits.grace_eq, inherits.glue_eq]

end Context

/-! ### Grace over a scan -/

namespace Header

/-- A header of the same clause with as much grace or one less, and with one less, if there was any, if
it was weighed. -/
structure Ages (weighed : Prop) (h h' : Header) : Prop where
  identity_eq : h'.identity = h.identity
  glue_eq : h'.glue = h.glue
  le : h'.grace.toNat ≤ h.grace.toNat
  ge : h.grace.toNat ≤ h'.grace.toNat + 1
  spent : weighed → h'.grace.toNat = h.grace.toNat - 1

namespace Ages

variable {weighed weighed' : Prop} {h h' h'' : Header}

theorem of_inherits (inherits : h.Inherits h') (spared : ¬ weighed) : h.Ages weighed h' where
  identity_eq := inherits.identity_eq
  glue_eq := inherits.glue_eq
  le := Nat.le_of_eq (congrArg BitVec.toNat inherits.grace_eq)
  ge := by
    rw [inherits.grace_eq]
    exact Nat.le_succ _
  spent taken := absurd taken spared

theorem inherit (ages : h.Ages weighed h') (inherits : h'.Inherits h'') : h.Ages weighed h'' where
  identity_eq := inherits.identity_eq.trans ages.identity_eq
  glue_eq := inherits.glue_eq.trans ages.glue_eq
  le := by
    rw [inherits.grace_eq]
    exact ages.le
  ge := by
    rw [inherits.grace_eq]
    exact ages.ge
  spent := by
    rw [inherits.grace_eq]
    exact ages.spent

theorem after (inherits : h.Inherits h') (ages : h'.Ages weighed h'') : h.Ages weighed h'' where
  identity_eq := ages.identity_eq.trans inherits.identity_eq
  glue_eq := ages.glue_eq.trans inherits.glue_eq
  le := by
    rw [← inherits.grace_eq]
    exact ages.le
  ge := by
    rw [← inherits.grace_eq]
    exact ages.ge
  spent := by
    rw [← inherits.grace_eq]
    exact ages.spent

theorem imp (ages : h.Ages weighed h') (fewer : weighed' → weighed) : h.Ages weighed' h' :=
  { ages with spent := fun taken => ages.spent (fewer taken) }

end Ages

end Header

namespace ScanPlan

variable {p : ScanPlan} {k j : Nat} {h h' : Header} {c : Cell} {cs zs : List Cell} {t t' : Table}
  {progress progress' : ScanProgress}

/-- By rank, one is taken from the grace of a clause that is neither kept nor a reason. -/
theorem toNat_grace_weigh (byRank : p.byScore = false) (loose : h.Loose) :
    (p.weigh h).1.grace.toNat = h.grace.toNat - 1 := by
  have spent : (p.weigh h).1.grace = h.spent.grace := by
    simp [weigh, consider, byRank, loose.unkept, loose.free, Header.resetUsage]
  rw [spent, toNat_grace_spent]

theorem ages_weigh (byRank : p.byScore = false) (h : Header) : h.Ages h.Loose (p.weigh h).1 := by
  have same := lasting_weigh p h
  simp only [Header.lasting, Header.mk.injEq] at same
  have bounds : (p.weigh h).1.grace.toNat ≤ h.grace.toNat ∧
      h.grace.toNat ≤ (p.weigh h).1.grace.toNat + 1 := by
    rcases (weighed_weigh p h).grace_eq with kept | ⟨less, -⟩
    · exact kept ▸ ⟨Nat.le_refl _, Nat.le_succ _⟩
    · omega
  exact ⟨by simp [same], by simp [same], bounds.1, bounds.2, toNat_grace_weigh byRank⟩

theorem Step.ages (byRank : p.byScore = false)
    (step : Step p k h t progress (.ok progress') h' t') : h.Ages h.Loose h' := by
  have still : ∀ row, ¬ h.Loose → h.Ages h.Loose (h.withRow row) :=
    fun row spared => ⟨rfl, rfl, Nat.le_refl _, Nat.le_succ _, fun loose => absurd loose spared⟩
  cases step with
  | irredundant irredundant =>
    exact still none fun loose => Bool.false_ne_true (irredundant.symm.trans loose.redundant)
  | early _ early =>
    refine .of_inherits (.refl h) fun loose => ?_
    simp [ScanPlan.counts, opens, loose.unkept] at early
  | garbage _ _ garbage =>
    exact .of_inherits (.refl h) fun loose => Bool.false_ne_true (loose.live.symm.trans garbage)
  | untracked => exact ages_weigh byRank h
  | linked => exact ages_weigh byRank h
  | fresh =>
    obtain ⟨identity_eq, glue_eq, le, ge, spent⟩ := ages_weigh byRank (h.withRow (some t.size))
    exact ⟨identity_eq, glue_eq, le, ge, fun loose =>
      spent ⟨loose.live, loose.redundant, loose.unkept, loose.free⟩⟩

/-- A pass by rank revises each cell in its place. -/
theorem Pass.exists_aged (byRank : p.byScore = false)
    (pass : Pass p k cs t progress (.ok progress') zs t') (hc : At k cs j c) :
    ∃ e, At k zs j e ∧ c.header.Ages c.header.Loose e.header ∧ e.header.flags = c.header.flags := by
  obtain ⟨xs, ys, xs', ys', t₁, t₂, progress₁, progress₂, h, rfl, rfl, rfl, before, step, behind⟩ :=
    pass.exists_split hc
  have same := step.lasting
  simp only [Header.lasting, Header.mk.injEq] at same
  exact ⟨c.withHeader h, ⟨xs', ys', rfl, by rw [extents_eq_of_map_eq before.lasting]⟩, step.ages byRank,
    same.2.1⟩

end ScanPlan

/-! ### Grace over a reduction -/

namespace Cell

variable {cs xs ys : List Cell} {k : Nat} {c d : Cell}

/-- Flags of reasons change nothing else of a clause. -/
theorem exists_flagged (value : Bool) (rs : List Reference) (hd : At 0 cs k d) :
    ∃ e, At 0 (flagged value rs cs) k e ∧ d.header.Inherits e.header ∧ e.isGarbage = d.isGarbage ∧
      e.header.flags.redundant = d.header.flags.redundant ∧
      (k ∉ rs.map Reference.offset → e.header = d.header) := by
  refine ⟨_, at_mapAt.2 ⟨d, hd, rfl⟩, ?_⟩
  simp only [isGarbage, revised]
  split
  next listed =>
    exact ⟨d.header.inherits_reason value, rfl, rfl, fun unlisted => absurd listed unlisted⟩
  next => exact ⟨.refl _, rfl, rfl, fun _ => rfl⟩

/-- A live clause stays live where garbage is left out. -/
theorem exists_live_settle (fill : Nat → UInt32) (n : Nat) (hd : d ∈ xs ++ ys) (live : d.isGarbage = false) :
    ∃ e ∈ xs ++ settle fill n ys, e.isGarbage = false ∧ e.header.identity = d.header.identity := by
  rcases List.mem_append.1 hd with front | behind
  · exact ⟨d, List.mem_append_left _ front, live, rfl⟩
  · have moved : (settle fill n ys).map (fun c => c.header.identity) =
        (ys.filter fun c => !c.isGarbage).map fun c => c.header.identity := map_settle fun _ _ => rfl
    have there : d.header.identity ∈ (settle fill n ys).map fun c => c.header.identity := by
      rw [moved]
      exact List.mem_map_of_mem (List.mem_filter.2 ⟨behind, by simp [live]⟩)
    obtain ⟨e, he, identity_eq⟩ := List.mem_map.1 there
    exact ⟨e, List.mem_append_right _ he, isGarbage_of_mem_settle he, identity_eq⟩

end Cell

section Reductions

variable {π : Type} {c : Context π} {search : Snapshot} {fraction : UInt32} {cs ds xs ys : List Cell}
  {db db' : Database} {tier2 i : UInt32} {k lo hi : Nat} {d : Cell}

/-- A scan by rank revises each cell in its place, and takes no grace before its start. -/
theorem exists_aged_scan {plan : ScanPlan} (byRank : plan.byScore = false) {t t' : Table} {p : ScanProgress}
    {zs : List Cell} (pass : plan.scanCells (extents xs) ys t {} = (.ok p, zs, t'))
    (hd : At 0 (xs ++ ys) k d) :
    ∃ e, At 0 (xs ++ zs) k e ∧ d.header.Ages (extents xs ≤ k ∧ d.header.Loose) e.header ∧
      e.header.flags = d.header.flags := by
  have result := ScanPlan.pass_scanCells plan (extents xs) ys t {}
  rw [pass] at result
  rcases at_append.1 hd with front | behind
  · refine ⟨d, at_append.2 (.inl front), .of_inherits (.refl _) fun taken => ?_, rfl⟩
    have := front.bounds.2
    have := d.extent_pos
    omega
  · rw [Nat.zero_add] at behind
    obtain ⟨e, he, ages, flags_eq⟩ := result.exists_aged byRank behind
    exact ⟨e, he.behind, ages.imp And.right, flags_eq⟩

/-- By rank, a live redundant clause that is a candidate by its weight is not in grace. -/
theorem Context.graced_of_weigh (byRank : c.config.predicting.byScore.value = false) {h : Header}
    (live : h.flags.garbage = false) (redundant : h.flags.redundant = true)
    (weighed : (c.plan.weigh h).2 = true) : c.graced h = false := by
  have elected : c.plan.elects h = true := by simp [ScanPlan.elects, live, redundant, weighed]
  rw [Context.elects_of_rank byRank] at elected
  simp only [Bool.and_eq_true, Bool.not_eq_true'] at elected
  exact elected.2

/-- An eviction by rank revises each cell in its place, and removes no clause in grace. -/
theorem Eviction.exists_aged {r : Except Error (Option Nat)} (h : Eviction c.plan fraction xs ys db r db' ds)
    (untracked : c.config.collecting = false) (hd : At 0 (xs ++ ys) k d) :
    ∃ e, At 0 ds k e ∧ d.header.Ages (extents xs ≤ k ∧ d.header.Loose) e.header ∧
      (d.isGarbage = false → (d.header.flags.redundant = true → c.graced d.header = true) →
        e.isGarbage = false) := by
  have byRank : c.config.predicting.byScore.value = false := (Bool.or_eq_false_iff.1 untracked).1
  cases h with
  | failed pass =>
    obtain ⟨p, zs, t, done⟩ := c.plan.exists_scanCells_of_untracked untracked _ _ _ _
    rw [done] at pass
    cases pass
  | unscored _ byScore => exact absurd (byRank.symm.trans byScore) Bool.false_ne_true
  | idle pass =>
    obtain ⟨e, he, ages, flags_eq⟩ := exists_aged_scan byRank pass hd
    refine ⟨e, he, ages, fun live _ => ?_⟩
    rw [isGarbage, flags_eq]
    exact live
  | @removed p zs t t' es ms n settled keys_eq told markable offers rows behind =>
    cases settled with
    | linked tracked => exact absurd (untracked.symm.trans tracked) Bool.false_ne_true
    | bare _ pass =>
      obtain ⟨e, he, ages, flags_eq⟩ := exists_aged_scan byRank pass hd
      rw [markAll_eq]
      refine ⟨_, at_mapAt.2 ⟨e, he, rfl⟩, ages.inherit ?_, fun live graced => ?_⟩
      · split
        · exact e.header.inherits_garbage
        · exact .refl _
      · split
        next marked =>
          -- what is marked was a candidate, so it was not in grace
          obtain ⟨m, hm, rfl⟩ := List.mem_map.1 marked
          obtain ⟨d', hd', weighed⟩ := behind byRank m hm
          obtain rfl := hd'.behind.unique hd
          obtain rfl := (markable.placed m hm).unique he
          have redundant : d'.header.flags.redundant = true := by
            rw [← flags_eq]
            exact (offers m hm).learned.2
          have ungraced := Context.graced_of_weigh byRank live redundant weighed
          exact absurd (ungraced.symm.trans (graced redundant)) Bool.false_ne_true
        next =>
          show e.header.flags.garbage = false
          rw [flags_eq]
          exact live

/-- An eviction between which the flags of the reasons are set takes no grace of a reason. -/
theorem Eviction.exists_aged_flagged {r : Except Error (Option Nat)}
    (h : Eviction c.plan fraction xs ys db r db' ds) (untracked : c.config.collecting = false)
    (split : flagged true (c.protects search) cs = xs ++ ys)
    (start : (c.scanStart (c.whole search)).offset = extents xs) (hd : At 0 cs k d) :
    ∃ e, At 0 (flagged false (c.protects search) ds) k e ∧ d.header.Ages
      (c.Scans search k ∧ k ∉ search.reasons.map Reference.offset ∧ d.header.Loose) e.header ∧
        (d.isGarbage = false → (d.header.flags.redundant = true → c.graced d.header = true) →
          e.isGarbage = false) := by
  obtain ⟨d₁, hd₁, before, garbage_eq, redundant_eq, unflagged⟩ := exists_flagged true (c.protects search) hd
  rw [split] at hd₁
  obtain ⟨e₁, he₁, ages, survives⟩ := h.exists_aged untracked hd₁
  obtain ⟨e, he, behind, garbage_eq', -⟩ := exists_flagged false (c.protects search) he₁
  have weighed : c.Scans search k ∧ k ∉ search.reasons.map Reference.offset ∧ d.header.Loose →
      extents xs ≤ k ∧ d₁.header.Loose := by
    rintro ⟨scans, unlisted, loose⟩
    rw [unflagged (mt (Context.mem_protects_iff scans.behind).1 unlisted), ← start]
    exact ⟨scans.behind, loose⟩
  refine ⟨e, he, .after before ((ages.imp weighed).inherit behind), fun live graced => ?_⟩
  rw [garbage_eq']
  refine survives (garbage_eq.trans live) fun redundant => ?_
  rw [Context.graced_of_inherits before]
  exact graced (redundant_eq.symm.trans redundant)

/-- What a reduction by rank makes of some cells. -/
structure Context.Aged (c : Context π) (search : Snapshot) (cs ds : List Cell) : Prop where
  /-- each cell comes from one of as much grace or one more, and one less where the scan came to it -/
  springs : ∀ e ∈ ds, ∃ k d, At 0 cs k d ∧ d.header.Ages
    (c.Scans search k ∧ k ∉ search.reasons.map Reference.offset ∧ d.header.Loose) e.header
  /-- a live clause stays live if it is irredundant or in grace -/
  survives : ∀ d ∈ cs, d.isGarbage = false →
    (d.header.flags.redundant = true → c.graced d.header = true) →
      ∃ e ∈ ds, e.isGarbage = false ∧ e.header.identity = d.header.identity

namespace Context.Aged

/-- A reduction that ends before its scan takes no grace. -/
theorem of_springs (springs : Springs Header.Inherits cs ds) (away : ∀ k, ¬ c.Scans search k)
    (core_eq : ds.map core = cs.map core) : c.Aged search cs ds := by
  constructor
  case springs =>
    intro e he
    obtain ⟨d, hd, inherits⟩ := springs e he
    obtain ⟨k, at_d⟩ := exists_at 0 hd
    exact ⟨k, d, at_d, .of_inherits inherits fun taken => away k taken.1⟩
  case survives =>
    intro d hd live _
    obtain ⟨k, at_d⟩ := exists_at 0 hd
    obtain ⟨e, he, same⟩ := at_d.of_map_eq core_eq
    exact ⟨e, he.mem, (isGarbage_eq_of_core same).trans live, UInt32.toNat_inj.1 (identity_eq_of_core same)⟩

/-- A compaction takes no grace, and removes no live clause. -/
theorem settled (h : c.Aged search cs (xs ++ ys)) (fill : Nat → UInt32) (n : Nat) :
    c.Aged search cs (xs ++ settle fill n ys) := by
  constructor
  case springs =>
    intro f hf
    obtain ⟨e, he, inherits⟩ := springs_settle fill n xs ys f hf
    obtain ⟨k, d, hd, ages⟩ := h.springs e he
    exact ⟨k, d, hd, ages.inherit inherits⟩
  case survives =>
    intro d hd live graced
    obtain ⟨e, he, alive, identity_eq⟩ := h.survives d hd live graced
    obtain ⟨f, hf, alive', identity_eq'⟩ := exists_live_settle fill n he alive
    exact ⟨f, hf, alive', identity_eq'.trans identity_eq⟩

/-- The flags of the reasons are set for an eviction, and cleared behind it. -/
theorem evicted {r : Except Error (Option Nat)} (h : Eviction c.plan fraction xs ys db r db' ds)
    (untracked : c.config.collecting = false) (split : flagged true (c.protects search) cs = xs ++ ys)
    (start : (c.scanStart (c.whole search)).offset = extents xs) :
    c.Aged search cs (flagged false (c.protects search) ds) := by
  have extent_eq : (flagged false (c.protects search) ds).map extent = cs.map extent := by
    rw [extent_flagged, h.extent_eq, ← split, extent_flagged]
  constructor
  case springs =>
    intro e he
    obtain ⟨k, at_e⟩ := exists_at 0 he
    obtain ⟨d, hd⟩ := mem_offsets.1 (offsets_eq extent_eq ▸ mem_offsets.2 ⟨e, at_e⟩)
    obtain ⟨e', at_e', ages, -⟩ := h.exists_aged_flagged untracked split start hd
    obtain rfl := at_e.unique at_e'
    exact ⟨k, d, hd, ages⟩
  case survives =>
    intro d hd live graced
    obtain ⟨k, at_d⟩ := exists_at 0 hd
    obtain ⟨e, he, ages, survives⟩ := h.exists_aged_flagged untracked split start at_d
    exact ⟨e, he.mem, survives live graced, ages.identity_eq⟩

/-- What a reduction by rank makes of cells. -/
theorem of_reduction {r : Except Error (Report × Snapshot)} (h : Reduction c search cs r db ds)
    (untracked : c.config.collecting = false) (holds : c.database.Holds cs) : c.Aged search cs ds := by
  have still : Springs Header.Inherits cs cs := fun d hd => ⟨d, hd, .refl _⟩
  cases h with
  | unstarted nowhere =>
    exact .of_springs still (fun _ scans => Bool.false_ne_true (nowhere.symm.trans scans.proceeds.1)) rfl
  | unsatisfiable inconsistent =>
    exact .of_springs still
      (fun _ scans => Bool.false_ne_true (scans.proceeds.2.symm.trans inconsistent)) rfl
  | barred _ _ _ halted =>
    obtain ⟨r, rest, all, -, nowhere⟩ := halted
    refine of_springs (springs_flagged _ _ cs) (fun _ scans => nowhere ?_) (core_flagged ..)
    exact holds.tiled.mem_walk.1 (scans.named r (by rw [all]; simp))
  | failed split start eviction => exact evicted eviction untracked split start
  | idle part split start eviction => exact evicted eviction untracked split start
  | compacted asked split start eviction resplit =>
    have aged := evicted eviction untracked split start
    rw [resplit] at aged
    exact aged.settled _ _

end Context.Aged

end Reductions

/-! ### Candidates -/

namespace Context

variable {π : Type} {c : Context π} {cs : List Cell} {search : Snapshot} {tier2 : UInt32} {o : Nat}

/-- By rank, the candidates of a scan are the clauses that may be chosen, in the order of the arena. -/
theorem finds_eq (holds : c.database.Holds cs) (grants : c.config.Grants tier2)
    (proceeds : c.Proceeds search) (named : c.database.Names (c.protects search)) :
    c.finds search = (c.eligible search).map fun o =>
      .ofHeader (.ofOffset o) ((Arena.ofCells (flagged true (c.protects search) cs)).header o) := by
  have placed : ∀ r ∈ c.protects search, ∃ d, At 0 cs r.offset d :=
    fun r hr => holds.tiled.mem_walk.1 (named r hr)
  obtain ⟨xs₀, ys₀, rfl, start⟩ := c.exists_split holds proceeds.1
  obtain ⟨xs, ys, split, extents_eq⟩ :=
    Cell.exists_split (extent_flagged true (c.protects search) (xs₀ ++ ys₀))
  rw [← extents_eq] at start
  obtain ⟨p, zs, t, pass⟩ := c.plan.exists_scanCells_of_untracked grants.collecting (extents xs) ys
    (tableFor c.plan c.database.table) {}
  have readied : c.readied.database.Holds (xs₀ ++ ys₀) := holds
  obtain ⟨ms, reached⟩ := (yields_survey readied proceeds placed split start pass).outcome_eq
  have tiled := (holds.of_core (core_flagged true (c.protects search) (xs₀ ++ ys₀))).tiled
  have passed := ScanPlan.pass_scanCells c.plan (extents xs) ys (tableFor c.plan c.database.table) {}
  rw [pass] at passed
  rw [finds, reached, eligible_eq holds grants.byRank proceeds.1 split start, split]
  rw [split] at tiled
  exact passed.candidates_eq (fun _ _ => ScanPlan.opens_of_elects grants.byRank)
    fun _ _ hd => tiled.header_eq hd.behind

/-- By rank, a clause without grace is a candidate of every scan that considers it. -/
theorem Considers.nominates (considers : c.Considers search o) (holds : c.database.Holds cs)
    (grants : c.config.Grants tier2) (ungraced : c.graced (c.database.arena.header o) = false) :
    c.Nominates search o := by
  have record := holds.tiled.mem_walk.1 considers.record
  have chosen : c.chooses search o = true := by
    simp [chooses, considers.loose.live, considers.loose.redundant, considers.loose.unkept,
      considers.loose.free, considers.unlisted, ungraced]
  have eligible : o ∈ c.eligible search := by
    obtain ⟨xs, ys, rfl, start⟩ := c.exists_split holds considers.proceeds.1
    have behind := considers.behind
    rw [start] at behind
    simp only [Context.eligible]
    rw [if_pos considers.proceeds.1, start, holds.tiled.walkFrom_eq]
    obtain ⟨d, hd⟩ := record
    exact List.mem_filter.2 ⟨mem_offsets.2 ⟨d, hd.of_le behind⟩, chosen⟩
  rw [Nominates, finds_eq holds grants considers.proceeds considers.named]
  refine List.mem_map.2 ⟨o, eligible, ?_⟩
  rw [(holds.view_flagged _ record).1,
    if_neg (mt (mem_protects_iff considers.behind).1 considers.unlisted)]

end Context

end ClauseStore
