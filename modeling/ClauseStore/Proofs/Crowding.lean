import ClauseStore.Proofs.Usage

/-!
Rows that crowd the table. A reduction that finds no candidate leaves every row where it is, also those
of clauses that were dropped; so a clause that is stored, scanned as a reason, marked and collected leaves
a row behind it. In enough such rounds there come to be more rows than a link can name, though no
reduction fails; then the row of the next clause is not found through its link.
-/

namespace ClauseStore

open Cell Database

/-! ### A pass over one clause -/

namespace ScanPlan

variable {plan : ScanPlan} {d : Cell} {t t' : Table} {r : Except Error ScanProgress} {zs : List Cell}

/-- A pass over one reason without a link makes a row for it, and finds no candidate. -/
theorem pass_of_unlinked (tracked : plan.collecting = true) (learned : d.Learned)
    (reason : d.header.flags.reason = true) (unkept : d.header.flags.keep = false)
    (unlinked : d.header.row? = none) (pass : plan.scanCells 0 [d] (tableFor plan t) {} = (r, zs, t')) :
    ∃ p, r = .ok p ∧ p.candidates.toList = [] ∧ t'.size = t.size + 1 ∧
      zs = [d.withHeader (plan.weigh (d.header.withRow (some t.size))).1] := by
  have result := pass_scanCells plan 0 [d] (tableFor plan t) {}
  rw [pass] at result
  have counts : plan.counts {} d.header = true := by
    rw [ScanPlan.counts, opens, unkept, Bool.not_false, Bool.or_true, Bool.or_true]
  have size_eq : (tableFor plan t).size = t.size := by
    rw [tableFor, if_pos tracked, Table.markUnseen, Table.size, Array.size_map]
    rfl
  have weighed : (plan.weigh (d.header.withRow (some t.size))).2 = false := by
    rw [weigh_withRow, weigh, reason]
    rfl
  cases result with
  | failed step =>
    cases step with
    | missing _ _ link => rw [unlinked] at link; cases link
    | mismatch _ _ link => rw [unlinked] at link; cases link
  | cons step rest =>
    cases rest
    cases step with
    | irredundant irredundant => rw [learned.2] at irredundant; cases irredundant
    | early _ early => rw [counts] at early; cases early
    | garbage _ _ garbage => exact absurd (learned.1.symm.trans garbage) Bool.false_ne_true
    | untracked _ _ _ untracked => rw [tracked] at untracked; cases untracked
    | linked _ _ _ link => rw [unlinked] at link; cases link
    | fresh =>
      rw [size_eq] at pass ⊢
      refine ⟨_, rfl, ?_, ?_, rfl⟩
      · rw [advance, weighed]
        rfl
      · simpa [Table.size, Table.push] using size_eq

/-- A pass over one live clause fails if its row is not there. -/
theorem pass_of_missing (tracked : plan.collecting = true) (learned : d.Learned)
    (unkept : d.header.flags.keep = false) {i : Nat} (link : d.header.row? = some i) (missing : t.size ≤ i)
    (pass : plan.scanCells 0 [d] (tableFor plan t) {} = (r, zs, t')) :
    r = .error (.table .missingRow) := by
  have result := pass_scanCells plan 0 [d] (tableFor plan t) {}
  rw [pass] at result
  have counts : plan.counts {} d.header = true := by
    rw [ScanPlan.counts, opens, unkept, Bool.not_false, Bool.or_true, Bool.or_true]
  have none : (tableFor plan t).row? i = none := by
    rw [tableFor, if_pos tracked, Table.row?_markUnseen, Table.row?, Array.getElem?_eq_none missing]
    rfl
  cases result with
  | failed step =>
    cases step with
    | missing => rfl
    | mismatch _ _ link' found =>
      obtain rfl := Option.some.inj (link.symm.trans link')
      rw [none] at found
      cases found
  | cons step rest =>
    cases step with
    | irredundant irredundant => rw [learned.2] at irredundant; cases irredundant
    | early _ early => rw [counts] at early; cases early
    | garbage _ _ garbage => exact absurd (learned.1.symm.trans garbage) Bool.false_ne_true
    | untracked _ _ _ untracked => rw [tracked] at untracked; cases untracked
    | linked _ _ _ link' found =>
      obtain rfl := Option.some.inj (link.symm.trans link')
      rw [none] at found
      cases found
    | fresh _ _ _ unlinked => rw [link] at unlinked; cases unlinked

end ScanPlan

/-! ### Reductions that remove nothing -/

namespace Reduction

variable {π : Type} {c : Context π} {search : Snapshot} {cs ds zs : List Cell} {db : Database} {t : Table}
  {r : Except Error (Report × Snapshot)}

/-- The start of the scan where rows are kept. -/
theorem nil_of_start (collecting : c.config.collecting = true) {xs : List Cell}
    (start : (c.scanStart (c.whole search)).offset = extents xs) : xs = [] := by
  rw [c.scanStart_of_collecting collecting] at start
  exact eq_nil_of_extents start.symm

/-- Where rows are kept, a reduction whose scan finds no candidate leaves the rows as the scan does, unless
the whole arena is to be compacted. -/
theorem of_fruitless (h : Reduction c search cs r db ds) (collecting : c.config.collecting = true)
    (proceeds : c.Proceeds search) (named : ∀ r ∈ search.reasons, ∃ d, At 0 cs r.offset d)
    (part : c.whole search = false) {p : ScanProgress}
    (pass : c.plan.scanCells 0 (flagged true (c.protects search) cs) (tableFor c.plan c.database.table) {} =
      (.ok p, zs, t)) (fruitless : p.candidates.toList = []) :
    r = .ok (.nothingToReduce, search) ∧ ds = flagged false (c.protects search) zs ∧ db.table = t ∧
      db.nextIdentity = c.database.nextIdentity := by
  cases h with
  | unstarted nowhere => exact absurd (nowhere.symm.trans proceeds.1) Bool.false_ne_true
  | unsatisfiable inconsistent => exact absurd (proceeds.2.symm.trans inconsistent) Bool.false_ne_true
  | barred stray =>
    obtain ⟨r, hr, lost⟩ := stray
    exact absurd (named r hr) lost
  | failed split start eviction =>
    obtain rfl := nil_of_start collecting start
    rw [split] at pass
    cases eviction with
    | failed pass' => cases pass.symm.trans pass'
    | unscored settled _ _ found =>
      obtain ⟨zs', t', pass'⟩ := settled.pass
      cases pass.symm.trans pass'
      exact absurd fruitless found
  | idle _ split start eviction =>
    obtain rfl := nil_of_start collecting start
    rw [split] at pass
    cases eviction with
    | idle pass' =>
      cases pass.symm.trans pass'
      exact ⟨rfl, rfl, rfl, rfl⟩
  | compacted asked split start eviction =>
    obtain rfl := nil_of_start collecting start
    rw [split] at pass
    cases eviction with
    | idle => exact absurd (part.symm.trans (asked rfl)) Bool.false_ne_true
    | removed settled _ _ _ _ _ _ _ found =>
      obtain ⟨zs', t', pass'⟩ := settled.pass
      cases pass.symm.trans pass'
      exact absurd fruitless found

/-- Where rows are kept, a reduction whose scan fails fails with it. -/
theorem of_failed (h : Reduction c search cs r db ds) (collecting : c.config.collecting = true)
    (proceeds : c.Proceeds search) (named : ∀ r ∈ search.reasons, ∃ d, At 0 cs r.offset d) {e : Error}
    (pass : c.plan.scanCells 0 (flagged true (c.protects search) cs) (tableFor c.plan c.database.table) {} =
      (.error e, zs, t)) : r = .error e := by
  cases h with
  | unstarted nowhere => exact absurd (nowhere.symm.trans proceeds.1) Bool.false_ne_true
  | unsatisfiable inconsistent => exact absurd (proceeds.2.symm.trans inconsistent) Bool.false_ne_true
  | barred stray =>
    obtain ⟨r, hr, lost⟩ := stray
    exact absurd (named r hr) lost
  | failed split start eviction =>
    obtain rfl := nil_of_start collecting start
    rw [split] at pass
    cases eviction with
    | failed pass' =>
      cases pass.symm.trans pass'
      rfl
    | unscored settled =>
      obtain ⟨zs', t', pass'⟩ := settled.pass
      cases pass.symm.trans pass'
  | idle _ split start eviction =>
    obtain rfl := nil_of_start collecting start
    rw [split] at pass
    cases eviction with
    | idle pass' => cases pass.symm.trans pass'
  | compacted asked split start eviction =>
    obtain rfl := nil_of_start collecting start
    rw [split] at pass
    cases eviction with
    | idle pass' => cases pass.symm.trans pass'
    | removed settled =>
      obtain ⟨zs', t', pass'⟩ := settled.pass
      cases pass.symm.trans pass'

end Reduction

/-! ### One clause, and no clause -/

namespace Context

variable {π : Type}

/-- A search with the first record as its reason. -/
def holding : Snapshot := { reasons := [.start] }

/-- No long clause is held, and there are some rows, one for each identity so far. -/
structure Vacant (config : Config) (n : Nat) (c : Context π) : Prop where
  config_eq : c.config = config
  holds : c.database.Holds []
  size_eq : c.database.table.size = n
  next_eq : c.database.nextIdentity.toNat = n + 1

/-- One long clause is held, live and redundant, neither kept nor a reason, with a link; and there are some
rows. -/
structure Single (config : Config) (link : UInt32) (n next : Nat) (c : Context π) : Prop where
  config_eq : c.config = config
  exists_cell : ∃ d, c.database.Holds [d] ∧ d.Learned ∧ d.header.flags.reason = false ∧
    d.header.flags.keep = false ∧ d.header.link = link
  size_eq : c.database.table.size = n
  next_eq : c.database.nextIdentity.toNat = next

variable {config : Config} {link : UInt32} {n next : Nat} {c : Context π}

theorem Single.names (h : c.Single config link n next) : c.database.Names holding.reasons := by
  obtain ⟨d, holds, -⟩ := h.exists_cell
  intro r hr
  rw [List.mem_singleton.1 hr]
  exact holds.tiled.mem_walk.2 ⟨d, at_start d⟩

/-- The clause is the one that is flagged as a reason. -/
theorem flagged_protects (collecting : c.config.collecting = true) (value : Bool) (d : Cell) :
    flagged value (c.protects holding) [d] = [d.revised (Header.withFlag .reason value)] := by
  rw [protects, c.scanStart_of_collecting collecting]
  rfl

theorem named_start (d : Cell) : ∀ r ∈ holding.reasons, ∃ e, At 0 [d] r.offset e := by
  intro r hr
  rw [List.mem_singleton.1 hr]
  exact ⟨d, at_start d⟩

theorem proceeds (collecting : c.config.collecting = true) : c.Proceeds holding := by
  rw [Proceeds, c.scanStart_of_collecting collecting]
  exact ⟨rfl, rfl⟩

/-- Where there are no variables, none are inactive. -/
theorem whole_holding (c : Context π) : c.whole holding = false := by
  simp [whole, holding, elapsed]

variable [Predictor π]

theorem Vacant.create (h : c.Vacant config n) (unkept : keeps config .redundant 6 = false)
    (fits : n + 1 < 4294967295) :
    ((Operation.create .redundant 6 [⟨1⟩, ⟨2⟩, ⟨3⟩]).after c).Single config noLink n (n + 2) := by
  have filed_eq : Clause.filed .redundant [⟨1⟩, ⟨2⟩, ⟨3⟩] = [⟨1⟩, ⟨2⟩, ⟨3⟩] := by decide
  have fresh : c.database.nextIdentity ≠ 4294967295 := by
    intro last
    have := congrArg UInt32.toNat last
    rw [h.next_eq] at this
    exact absurd this (Nat.ne_of_lt fits)
  obtain ⟨phase, ms, after_eq, held⟩ := exists_after_create h.holds filed_eq (by decide) fresh (by decide)
  refine ⟨?_, ⟨_, held, ⟨rfl, rfl⟩, rfl, ?_, rfl⟩, ?_, ?_⟩
  · rw [after_eq]
    exact h.config_eq
  · rw [← unkept, ← h.config_eq]
    rfl
  · rw [after_eq]
    exact h.size_eq
  · rw [after_eq]
    show (c.database.nextIdentity + 1).toNat = n + 2
    rw [toNat_succ fresh, h.next_eq]

/-- A clause without a link is given a row, and nothing else comes of a reduction that has it for a
reason. -/
theorem Single.reduce (h : c.Single config noLink n next) (collecting : config.collecting = true) :
    Succeeds (.reduce holding) c ∧
      ((Operation.reduce holding).after c).Single config (UInt32.ofNat n) (n + 1) next := by
  have names := h.names
  obtain ⟨rfl, ⟨d, holds, learned, reason, unkept, link_eq⟩, rfl, rfl⟩ := h
  have lawful : (Operation.reduce holding).Lawful c := fun r hr => .inl (names r hr)
  obtain ⟨c', ds, ms, after_eq, effect⟩ := exists_effect holds lawful
  have held := holds_after after_eq (effect.holds holds)
  rw [Succeeds]
  generalize (Operation.reduce holding).answer c = answer at effect
  rw [after_eq] at held ⊢
  cases effect with
  | beside aside => cases aside
  | noted note => cases note
  | refused single => cases single
  | reduced reduction =>
    have flagged : (d.revised (Header.withFlag .reason true)).Learned := learned
    have unlinked : (d.header.withFlag .reason true).row? = none := if_pos link_eq
    have tracked : c.plan.collecting = true := collecting
    obtain ⟨r, zs, t, pass⟩ : ∃ r zs t, c.plan.scanCells 0 [d.revised (Header.withFlag .reason true)]
        (tableFor c.plan c.database.table) {} = (r, zs, t) := ⟨_, _, _, rfl⟩
    obtain ⟨p, rfl, fruitless, size_eq, rfl⟩ :=
      ScanPlan.pass_of_unlinked tracked flagged rfl unkept unlinked pass
    rw [← flagged_protects collecting true d] at pass
    obtain ⟨rfl, rfl, rfl, next_eq⟩ := reduction.of_fruitless collecting (proceeds collecting)
      (named_start d) (whole_holding _) pass fruitless
    rw [flagged_protects (c := c.readied) collecting] at held
    have flags_eq := ScanPlan.flags_weigh c.plan ((d.header.withFlag .reason true).withRow
      (some c.database.table.size))
    refine ⟨fun _ => rfl, rfl, ⟨_, held, ⟨?_, ?_⟩, rfl, ?_, ?_⟩, size_eq, congrArg UInt32.toNat next_eq⟩
    · exact (congrArg Flags.garbage flags_eq).trans learned.1
    · exact (congrArg Flags.redundant flags_eq).trans learned.2
    · exact (congrArg Flags.keep flags_eq).trans unkept
    · exact ScanPlan.link_weigh ..

/-- The clause is marked and collected, and leaves its row behind. -/
theorem Single.clear (h : c.Single config link (n + 1) (n + 2)) :
    (Operation.markGarbage .start).Lawful c ∧
      (Operation.collect .start).Lawful ((Operation.markGarbage .start).after c) ∧
      ((Operation.collect .start).after ((Operation.markGarbage .start).after c)).Vacant config (n + 1) := by
  have names := h.names
  obtain ⟨config_eq, ⟨d, holds, learned, free, -⟩, size_eq, next_eq⟩ := h
  have marks : Yields (Operation.markGarbage .start).perform c _ _ := Operation.yields_answered
    (Context.yields_onDatabase (yields_markGarbage holds (at_start d) learned.1 free)) fun _ => .done
  obtain ⟨ms, outcome_eq⟩ := marks.outcome_eq
  have marked_eq : (Operation.markGarbage .start).after c = _ := congrArg Prod.snd outcome_eq
  have marked : ((Operation.markGarbage .start).after c).database.Holds
      ([] ++ [d.revised (Header.withFlag .garbage true)]) := by
    rw [marked_eq]
    exact (holds.marked (at_start d) learned.1).logged ms
  obtain ⟨first, last, collects, first_at, -⟩ := yields_collect_cached marked
  have collects : Yields (Operation.collect .start).perform ((Operation.markGarbage .start).after c) _ _ :=
    Operation.yields_answered (Context.yields_onDatabase collects) .relocated
  obtain ⟨ms', outcome_eq'⟩ := collects.outcome_eq
  have collected_eq : (Operation.collect .start).after ((Operation.markGarbage .start).after c) = _ :=
    congrArg Prod.snd outcome_eq'
  refine ⟨.inl (names .start (by simp [holding])), .inl (marked.tiled.mem_walk.2 ⟨_, at_start _⟩), ?_⟩
  rw [collected_eq]
  refine ⟨?_, (marked.collected _ first_at).logged ms', ?_, ?_⟩
  · rw [marked_eq]
    exact config_eq
  · have count : ∀ t : Table, t.size = t.accounts.length := fun t => by simp [Table.accounts, Table.size]
    show (Table.relocate _ _).size = n + 1
    rw [count, Table.accounts_relocate, marked_eq, ← size_eq, count]
    show (if d.header.flags.redundant then _ else _ : Table).accounts.length = _
    rw [if_pos learned.2, Table.accounts_ended]
  · rw [marked_eq]
    exact next_eq

/-- A link behind all rows is a failure. -/
theorem Single.missing (h : c.Single config link n next) (collecting : config.collecting = true) {i : Nat}
    (row_eq : ∀ d : Header, d.link = link → d.row? = some i) (far : n ≤ i) :
    (outcome (Context.reduce holding) c).1 = .error (.table .missingRow) := by
  have names := h.names
  obtain ⟨rfl, ⟨d, holds, learned, -, unkept, link_eq⟩, rfl, -⟩ := h
  obtain ⟨r, db, ds, counters, predictor, phase, reduces, -, reduction⟩ :=
    yields_reduce c holds holding fun r hr => .inl (names r hr)
  obtain ⟨r', zs, t, pass⟩ : ∃ r' zs t, c.plan.scanCells 0 [d.revised (Header.withFlag .reason true)]
      (tableFor c.plan c.database.table) {} = (r', zs, t) := ⟨_, _, _, rfl⟩
  have tracked : c.plan.collecting = true := collecting
  have flagged : (d.revised (Header.withFlag .reason true)).Learned := learned
  obtain rfl := ScanPlan.pass_of_missing tracked flagged unkept (row_eq _ link_eq) far pass
  rw [← flagged_protects collecting true d] at pass
  obtain rfl := reduction.of_failed collecting (proceeds collecting) (named_start d) pass
  obtain ⟨ms, outcome_eq⟩ := reduces.outcome_eq
  rw [outcome_eq]

/-! ### Rounds -/

/-- A clause comes and goes, with a scan between. -/
def round : List Operation :=
  [.create .redundant 6 [⟨1⟩, ⟨2⟩, ⟨3⟩], .reduce holding, .markGarbage .start, .collect .start]

section Rounds

variable (collecting : config.collecting = true) (unkept : keeps config .redundant 6 = false)
include collecting unkept

/-- A round leaves one more row. -/
theorem Vacant.round (h : c.Vacant config n) (fits : n + 1 < 4294967295) :
    c.Follows round ∧ c.Throughout Succeeds round ∧ (c.run round).Vacant config (n + 1) := by
  have stored := h.create unkept fits
  obtain ⟨succeeds, scanned⟩ := stored.reduce collecting
  obtain ⟨marks, collects, vacant⟩ := scanned.clear
  exact ⟨⟨trivial, fun r hr => .inl (stored.names r hr), marks, collects, trivial⟩,
    ⟨nofun, succeeds, nofun, nofun, trivial⟩, vacant⟩

/-- Rounds leave a row each. -/
theorem Vacant.rounds (h : c.Vacant config n) (k : Nat) (fits : n + k < 4294967295) :
    c.Follows (List.replicate k Context.round).flatten ∧
      c.Throughout Succeeds (List.replicate k Context.round).flatten ∧
      (c.run (List.replicate k Context.round).flatten).Vacant config (n + k) := by
  induction k generalizing c n with
  | zero => exact ⟨trivial, trivial, h⟩
  | succ k ih =>
    obtain ⟨follows, succeeds, vacant⟩ := h.round collecting unkept (by omega)
    obtain ⟨follows', succeeds', vacant'⟩ := ih vacant (by omega)
    rw [List.replicate_succ, List.flatten_cons, run_append]
    refine ⟨follows_append.2 ⟨follows, follows'⟩, throughout_append.2 ⟨succeeds, succeeds'⟩, ?_⟩
    rwa [Nat.add_assoc, Nat.add_comm 1 k] at vacant'

end Rounds

end Context

end ClauseStore
