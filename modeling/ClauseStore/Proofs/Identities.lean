import ClauseStore.Proofs.Carrying

/-!
Identities of rows. However settings change and whichever calls fail, no two rows of statistics are of
one identity, and a live redundant clause without a link has no row: a row is made only for such a
clause, which is linked to it at once, and a link is only ever taken from a clause that is not redundant.
-/

namespace ClauseStore

open Cell Database

namespace Header

variable {h h' h'' : Header} {i : Nat}

/-- A header of the same clause, live and redundant only if the other is, and without a link only if
the other is. -/
structure Trails (h h' : Header) : Prop where
  identity_eq : h'.identity = h.identity
  learned : h'.tie.Learned → h.tie.Learned
  unlinked : h'.tie.Learned → h'.row? = none → h.row? = none

theorem Trails.refl (h : Header) : h.Trails h := ⟨rfl, id, fun _ => id⟩

theorem Trails.trans (first : h.Trails h') (second : h'.Trails h'') : h.Trails h'' where
  identity_eq := second.identity_eq.trans first.identity_eq
  learned learned := first.learned (second.learned learned)
  unlinked learned none := first.unlinked (second.learned learned) (second.unlinked learned none)

theorem Inherits.trails (inherits : h.Inherits h') : h.Trails h' where
  identity_eq := inherits.identity_eq
  learned := inherits.learned
  unlinked _ none := (row?_of_link_eq inherits.link_eq).symm.trans none

theorem trails_of_tie (tie_eq : h'.tie = h.tie) : h.Trails h' where
  identity_eq := congrArg Tie.identity tie_eq
  learned learned := tie_eq ▸ learned
  unlinked _ none := (congrArg Tie.row? tie_eq).symm.trans none

/-- A link to an index that a table can have is one. -/
theorem row?_withRow_ne_none (h : Header) (fits : i < 4294967295) : (h.withRow (some i)).row? ≠ none := by
  intro unlinked
  have index_eq : (h.withRow (some i)).link.toNat = i := by
    show (UInt32.ofNat i).toNat = i
    rw [UInt32.toNat_ofNat']
    omega
  have greatest : noLink.toNat = 4294967295 := rfl
  rw [link_eq_noLink unlinked, greatest] at index_eq
  omega

theorem trails_withRow (h : Header) (fits : i < 4294967295) : h.Trails (h.withRow (some i)) where
  identity_eq := rfl
  learned learned := ⟨learned.1, learned.2⟩
  unlinked _ none := absurd none (row?_withRow_ne_none h fits)

end Header

/-- No two rows are of one identity, and none is of an identity to come, or of a live redundant clause
without a link. -/
structure Distinct (next : UInt32) (cs : List Cell) (t : Table) : Prop where
  apart : t.identities.Nodup
  below : ∀ identity ∈ t.identities, identity.toNat < next.toNat
  rowless : ∀ c ∈ cs, c.Learned → c.header.row? = none → c.header.identity ∉ t.identities

namespace Distinct

variable {next next' : UInt32} {cs ds : List Cell} {t t' : Table}

theorem trail (h : Distinct next cs t) (springs : Springs Header.Trails cs ds)
    (identities : t'.identities.Sublist t.identities) (next_le : next.toNat ≤ next'.toNat) :
    Distinct next' ds t' := by
  refine ⟨identities.nodup h.apart, fun identity hi => ?_, fun d hd learned unlinked there => ?_⟩
  · exact Nat.lt_of_lt_of_le (h.below identity (identities.subset hi)) next_le
  · obtain ⟨c, hc, trails⟩ := springs d hd
    have there := identities.subset there
    rw [trails.identity_eq] at there
    exact h.rowless c hc (trails.learned learned) (trails.unlinked learned unlinked) there

theorem revised (h : Distinct next cs t) (springs : Springs Header.Inherits cs ds) : Distinct next ds t := by
  refine h.trail (fun d hd => ?_) (.refl _) (Nat.le_refl _)
  obtain ⟨c, hc, inherits⟩ := springs d hd
  exact ⟨c, hc, inherits.trails⟩

theorem of_identities (h : Distinct next cs t) (same : t'.identities = t.identities) :
    Distinct next cs t' :=
  ⟨same ▸ h.apart, same ▸ h.below, same ▸ h.rowless⟩

theorem later (h : Distinct next cs t) (next_le : next.toNat ≤ next'.toNat) : Distinct next' cs t :=
  h.trail (fun d hd => ⟨d, hd, .refl _⟩) (.refl _) next_le

/-- A compaction revises no identity. -/
theorem collected {db : Database} {xs ys : List Cell} (h : Distinct db.nextIdentity (xs ++ ys) db.table)
    (first last : Reference) : Distinct (db.collected xs ys first last).nextIdentity
      (xs ++ settle db.arena.word (extents xs) ys) (db.collected xs ys first last).table := by
  refine (h.revised (springs_settle _ _ xs ys)).of_identities ?_
  show (db.table.relocate (relocationOf xs ys)).identities = _
  rw [Table.identities_eq_accounts, Table.accounts_relocate, Table.identities_eq_accounts]

/-- A clause that is stored is of an identity that no row is of. -/
theorem stored (h : Distinct next cs t) (fresh : next ≠ 4294967295) (c : Cell)
    (identity_eq : c.header.identity = next) : Distinct (next + 1) (cs ++ [c]) t := by
  have next_eq := Database.toNat_succ fresh
  refine ⟨h.apart, fun identity hi => Nat.lt_of_lt_of_le (h.below identity hi) (by omega), ?_⟩
  intro d hd learned unlinked there
  rcases List.mem_append.1 hd with hd | hd
  · exact h.rowless d hd learned unlinked there
  · rw [List.mem_singleton.1 hd, identity_eq] at there
    exact absurd (h.below next there) (Nat.lt_irrefl _)

end Distinct

/-! ### Scans -/

namespace Table

theorem identities_tableFor (plan : ScanPlan) (t : Table) :
    (tableFor plan t).identities = t.identities := by
  rw [tableFor]
  split
  · rw [identities, markUnseen, Array.toList_map, List.map_map]
    rfl
  · rfl

/-- The rows that stay keep their identities and their order. -/
theorem identities_settled (t : Table) : t.settled.identities.Sublist t.identities := by
  rw [identities_eq_accounts, identities_eq_accounts]
  exact (accounts_settled t).map Prod.fst

end Table

namespace ScanPlan

variable {p : ScanPlan} {k : Nat} {h h' : Header} {t t' : Table} {progress : ScanProgress}
  {r : Except Error ScanProgress} {next : UInt32}

theorem trails_weigh (p : ScanPlan) (h : Header) : h.Trails (p.weigh h).1 := by
  refine Header.trails_of_tie ?_
  rw [Header.tie, Header.tie, flags_weigh, identity_weigh, Header.row?_of_link_eq (link_weigh p h)]

/-- A step makes no row, or one for a live redundant clause without a link. -/
theorem Step.made (step : Step p k h t progress r h' t') :
    (h.Trails h' ∧ t'.identities = t.identities) ∨
      (h.tie.Learned ∧ h.row? = none ∧ t'.identities = t.identities ++ [h.identity] ∧
        t'.size = t.size + 1 ∧ (h.withRow (some t.size)).Trails h') := by
  cases step with
  | irredundant irredundant =>
    refine .inl ⟨⟨rfl, fun learned => ?_, fun learned => ?_⟩, Table.identities_ended t h⟩ <;>
      exact absurd (irredundant.symm.trans learned.2) Bool.false_ne_true
  | early => exact .inl ⟨.refl h, rfl⟩
  | garbage => exact .inl ⟨.refl h, Table.identities_ended t h⟩
  | untracked => exact .inl ⟨trails_weigh p h, rfl⟩
  | linked => exact .inl ⟨trails_weigh p h, Table.identities_revise (identity_touch p k h) t _⟩
  | fresh redundant counts live unlinked =>
    refine .inr ⟨⟨live, redundant⟩, unlinked, ?_, ?_, trails_weigh p _⟩
    · exact (Table.identities_revise (identity_touch p k _) _ _).trans (Table.identities_push ..)
    · simp [Table.size, Table.revise, Table.push]
  | missing => exact .inl ⟨.refl h, rfl⟩
  | mismatch => exact .inl ⟨.refl h, rfl⟩

/-- A step keeps the rows of different identities. -/
theorem Step.distinct {xs ys : List Cell} {c : Cell} (step : Step p k c.header t progress r h' t')
    (ascending : ((xs ++ c :: ys).map identity).Pairwise (· < ·)) (below : c.identity < next.toNat)
    (distinct : Distinct next (xs ++ c :: ys) t) : Distinct next (xs ++ c.withHeader h' :: ys) t' := by
  rcases step.made with ⟨trails, identities_eq⟩ | ⟨learned, unlinked, identities_eq, size_eq, trails⟩
  · refine distinct.trail (fun d hd => ?_) (identities_eq ▸ .refl _) (Nat.le_refl _)
    rcases List.mem_append.1 hd with hd | hd
    · exact ⟨d, List.mem_append_left _ hd, .refl _⟩
    rcases List.mem_cons.1 hd with rfl | hd
    · exact ⟨c, by simp, trails⟩
    · exact ⟨d, List.mem_append_right _ (List.mem_cons_of_mem _ hd), .refl _⟩
  · have new := distinct.rowless c (by simp) learned unlinked
    have apart : t'.identities.Nodup := by
      rw [identities_eq, List.nodup_append]
      refine ⟨distinct.apart, by simp, ?_⟩
      rintro a ha b hb rfl
      rw [List.mem_singleton.1 hb] at ha
      exact new ha
    have below' : ∀ identity ∈ t'.identities, identity.toNat < next.toNat := by
      intro identity hi
      rw [identities_eq] at hi
      rcases List.mem_append.1 hi with hi | hi
      · exact distinct.below identity hi
      · rw [List.mem_singleton.1 hi]
        exact below
    have fits : t.size < 4294967295 := by
      have := Table.size_le apart below'
      have := next.toNat_lt
      omega
    refine ⟨apart, below', fun d hd learned' unlinked' there => ?_⟩
    have others : ∀ d ∈ xs ++ ys, d.Learned → d.header.row? = none → d.header.identity ∉ t'.identities := by
      intro d hd learned' unlinked' there
      rw [identities_eq] at there
      rcases List.mem_append.1 there with there | there
      · refine distinct.rowless d ?_ learned' unlinked' there
        rcases List.mem_append.1 hd with hd | hd
        · exact List.mem_append_left _ hd
        · exact List.mem_append_right _ (List.mem_cons_of_mem _ hd)
      · exact identity_ne_of_ascending ascending hd (List.mem_singleton.1 there)
    rcases List.mem_append.1 hd with hd | hd
    · exact others d (List.mem_append_left _ hd) learned' unlinked' there
    rcases List.mem_cons.1 hd with rfl | hd
    · exact Header.row?_withRow_ne_none c.header fits (trails.unlinked learned' unlinked')
    · exact others d (List.mem_append_right _ hd) learned' unlinked' there

/-- A pass keeps the rows of different identities, and makes rows behind those that there are. -/
theorem Pass.distinct {xs cs zs : List Cell} (pass : Pass p k cs t progress r zs t')
    (ascending : ((xs ++ cs).map identity).Pairwise (· < ·))
    (below : ∀ c ∈ cs, c.identity < next.toNat) (distinct : Distinct next (xs ++ cs) t) :
    Distinct next (xs ++ zs) t' := by
  induction pass generalizing xs with
  | nil => exact distinct
  | failed step => exact step.distinct ascending (below _ (by simp)) distinct
  | @cons k c cs zs t t₁ t' progress progress₁ r h step rest ih =>
    have here := step.distinct ascending (below c (by simp)) distinct
    have same : (c.withHeader h).identity = c.identity := congrArg UInt32.toNat step.identity_eq
    have ascending' : (((xs ++ [c.withHeader h]) ++ cs).map identity).Pairwise (· < ·) := by
      simpa [same] using ascending
    rw [List.append_cons] at here ⊢
    exact ih ascending' (fun d hd => below d (by simp [hd])) here

/-- The same behind a scan, whose rows were marked as not seen. -/
theorem distinct_of_pass {xs ys zs : List Cell} {t₀ : Table} {plan : ScanPlan}
    (pass : plan.scanCells (extents xs) ys (tableFor plan t₀) {} = (r, zs, t))
    (ascending : ((xs ++ ys).map identity).Pairwise (· < ·))
    (below : ∀ c ∈ xs ++ ys, c.identity < next.toNat) (distinct : Distinct next (xs ++ ys) t₀) :
    Distinct next (xs ++ zs) t := by
  have result := pass_scanCells plan (extents xs) ys (tableFor plan t₀) {}
  rw [pass] at result
  exact result.distinct ascending (fun c hc => below c (List.mem_append_right _ hc))
    (distinct.of_identities (Table.identities_tableFor plan t₀))

end ScanPlan

/-- Clauses are linked only to rows that there are. -/
theorem springs_relinked_trails {es : List (Row × Nat)} (fits : ∀ e ∈ es, e.2 < 4294967295)
    (cs : List Cell) : Springs Header.Trails cs (relinked es cs) := by
  induction es generalizing cs with
  | nil => exact fun d hd => ⟨d, hd, .refl _⟩
  | cons e es ih =>
    refine Springs.trans (springs_mapAt (fun k h => ?_) cs) (ih (fun e' he => fits e' (by simp [he])) _)
      Header.Trails.trans
    rw [Arena.only]
    split
    · exact h.trails_withRow (fits e (by simp))
    · exact .refl h

theorem Settlement.distinct {plan : ScanPlan} {xs ys cs : List Cell} {t₀ t : Table} {p : ScanProgress}
    {next : UInt32} (h : Settlement plan xs ys t₀ p cs t)
    (ascending : ((xs ++ ys).map identity).Pairwise (· < ·))
    (below : ∀ c ∈ xs ++ ys, c.identity < next.toNat) (distinct : Distinct next (xs ++ ys) t₀) :
    Distinct next cs t := by
  cases h with
  | bare _ pass => exact ScanPlan.distinct_of_pass pass ascending below distinct
  | @linked zs t _ pass =>
    have behind := ScanPlan.distinct_of_pass pass ascending below distinct
    refine behind.trail (springs_relinked_trails (fun e he => ?_) _) (Table.identities_settled t)
      (Nat.le_refl _)
    have inside := Table.lt_size_of_row? (mem_entries he)
    have fewer : t.surviving.size ≤ t.size := by
      simpa [Table.surviving, Table.size] using Array.size_filter_le
    have := Table.size_le behind.apart behind.below
    have := next.toNat_lt
    omega

/-! ### Evictions and reductions -/

theorem Eviction.distinct {plan : ScanPlan} {fraction : UInt32} {xs ys cs : List Cell}
    {db db' : Database} {r : Except Error (Option Nat)} (h : Eviction plan fraction xs ys db r db' cs)
    (holds : db.Holds (xs ++ ys)) (distinct : Distinct db.nextIdentity (xs ++ ys) db.table) :
    Distinct db'.nextIdentity cs db'.table := by
  cases h with
  | failed pass => exact ScanPlan.distinct_of_pass pass holds.ascending holds.below distinct
  | idle pass => exact ScanPlan.distinct_of_pass pass holds.ascending holds.below distinct
  | unscored settled => exact settled.distinct holds.ascending holds.below distinct
  | @removed p cs t t' es ms n settled keys_eq told markable offers =>
    have settled := settled.distinct holds.ascending holds.below distinct
    have next_eq : ((db.settledBehind cs t' p.first es).evicted ms cs n).nextIdentity = db.nextIdentity :=
      (markedAll_frame ms _ _).2.1
    rw [Eviction.table_removed offers, next_eq]
    refine (settled.revised (springs_markAll ms cs)).of_identities ?_
    rw [Table.identities_eq_accounts, Table.accounts_endedAll, Table.accounts_of_keys keys_eq,
      Table.identities_eq_accounts]

theorem Reduction.distinct {π : Type} {c : Context π} {search : Snapshot} {cs ds : List Cell}
    {r : Except Error (Report × Snapshot)} {db : Database} (h : Reduction c search cs r db ds)
    (holds : c.database.Holds cs) (distinct : Distinct c.database.nextIdentity cs c.database.table) :
    Distinct db.nextIdentity ds db.table := by
  have holds : (c.database.laid (flagged true (c.protects search) cs)).Holds _ :=
    holds.of_core (core_flagged true (c.protects search) cs)
  have flags := distinct.revised (springs_flagged true (c.protects search) cs)
  cases h with
  | unstarted => exact distinct
  | unsatisfiable => exact distinct
  | @barred done => exact distinct.revised (springs_flagged true done cs)
  | @failed xs ys ds e db split start eviction =>
    rw [split] at holds flags
    exact (eviction.distinct holds flags).revised (springs_flagged false (c.protects search) ds)
  | @idle xs ys ds db part split start eviction =>
    rw [split] at holds flags
    exact (eviction.distinct holds flags).revised (springs_flagged false (c.protects search) ds)
  | @compacted xs ys ds xs' ys' found db first last asked split start eviction resplit =>
    rw [split] at holds flags
    have left : Distinct (db.laid (xs' ++ ys')).nextIdentity (flagged false (c.protects search) ds)
        (db.laid (xs' ++ ys')).table :=
      (eviction.distinct holds flags).revised (springs_flagged false (c.protects search) ds)
    rw [resplit] at left
    exact left.collected first last

/-! ### Runs -/

theorem Effect.distinct {π : Type} {c c' : Context π} {cs ds : List Cell} {op : Operation}
    {a : Except Error Answer} (h : Effect c cs op a c' ds) (holds : c.database.Holds cs)
    (distinct : Distinct c.database.nextIdentity cs c.database.table) :
    Distinct c'.database.nextIdentity ds c'.database.table := by
  cases h with
  | configured => exact distinct
  | beside _ _ same =>
    rw [same.table_eq]
    exact distinct.later same.next_le
  | @stored source glue clause r db ds phase storage =>
    cases storage with
    | refused _ _ drawn => exact distinct.later drawn
    | @binary a b _ fresh =>
      have same := beside_storedBinary a b source fresh
      rw [same.table_eq]
      exact distinct.later same.next_le
    | long _ _ _ fresh => exact distinct.stored fresh _ rfl
  | @noted _ r d f note =>
    refine distinct.trail (springs_mapAt (fun k h => ?_) cs) (.refl _) (Nat.le_refl _)
    rw [Arena.only]
    split
    · exact Header.trails_of_tie (tie_of_note note h)
    · exact .refl h
  | refused => exact distinct
  | @marked r d found live =>
    refine (distinct.revised (springs_markAt r.offset cs)).of_identities ?_
    show Table.identities (if d.header.flags.redundant then _ else _) = _
    split
    · exact Table.identities_ended ..
    · rfl
  | promoted => exact distinct.revised (springs_promoteAt _ cs)
  | @shortened r size xs ys d split =>
    subst split
    exact distinct.revised (springs_shrunk xs ys d size.toNat)
  | @collected start xs ys first last split =>
    subst split
    exact distinct.collected first last
  | reduced reduction => exact reduction.distinct holds distinct

namespace Context

variable {π : Type} [Predictor π]

/-- Rows are of different identities behind a lawful run. -/
theorem exists_distinct_run {c : Context π} {cs : List Cell} {ops : List Operation}
    (holds : c.database.Holds cs) (distinct : Distinct c.database.nextIdentity cs c.database.table)
    (follows : c.Follows ops) : ∃ ds, (c.run ops).database.Holds ds ∧
      Distinct (c.run ops).database.nextIdentity ds (c.run ops).database.table := by
  induction ops generalizing c cs with
  | nil => exact ⟨cs, holds, distinct⟩
  | cons op ops ih =>
    obtain ⟨lawful, rest⟩ := follows
    obtain ⟨c', ds, ms, after_eq, effect⟩ := exists_effect holds lawful
    have behind : Distinct (op.after c).database.nextIdentity ds (op.after c).database.table := by
      rw [after_eq]
      exact effect.distinct holds distinct
    exact ih (holds_after after_eq (effect.holds holds)) behind rest

/-- Rows are of different identities behind every lawful run. -/
theorem exists_distinct (config : Config) (predictor : π) {ops : List Operation}
    (follows : (ofConfig config predictor).Follows ops) :
    ∃ cs, ((ofConfig config predictor).run ops).database.Holds cs ∧
      Distinct ((ofConfig config predictor).run ops).database.nextIdentity cs
        ((ofConfig config predictor).run ops).database.table :=
  exists_distinct_run holds_nil ⟨.nil, by simp [ofConfig, Table.identities], by simp⟩ follows

end Context

end ClauseStore
