import ClauseStore.Proofs.Conservation

/-!
Flags of reasons. A reduction flags the reasons of the search behind its start, and clears the flags
again, whether or not the eviction in between fails. The flagging itself may fail, at a reason that is no
clause; then the reasons before it keep their flags. So a flag is left behind just where the flagging
stops behind a reason that was not flagged before, and no other outcome of a reduction leaves one.
-/

namespace ClauseStore

open Cell Database

/-- The clauses of an arena that are flagged as reasons, by identity. -/
def Arena.reasons (a : Arena) : List UInt32 :=
  ((a.walkFrom 0).1.filter fun o => (a.header o).flags.reason).map fun o => (a.header o).identity

/-- Some clause of the second arena is flagged that is not flagged in the first. -/
def Arena.Leaks (a a' : Arena) : Prop := ∃ i ∈ a'.reasons, i ∉ a.reasons

/-- The reasons of a search that a reduction flags: those behind its start up to one that is no clause. -/
def Context.reached {π : Type} (c : Context π) (search : Snapshot) : List Reference :=
  (c.protects search).takeWhile fun r => decide (r.offset ∈ (c.database.arena.walkFrom 0).1)

/-- The flagging of the reasons of a search starts, and stops behind a reason that was not flagged. -/
structure Context.Spills {π : Type} (c : Context π) (search : Snapshot) : Prop where
  consistent : search.inconsistent = false
  started : (c.scanStart (c.whole search)).isValid = true
  stray : ¬ c.database.Names (c.protects search)
  unflagged : ∃ r ∈ c.reached search, (c.database.arena.header r.offset).flags.reason = false

/-! ### Flagged cells -/

namespace Cell

/-- What a flag is told by: the identity of a cell, and whether it is flagged. -/
def tag (c : Cell) : UInt32 × Bool := (c.header.identity, c.header.flags.reason)

/-- The identities of the flagged cells of a row. -/
def reasonsIn (cs : List Cell) : List UInt32 :=
  (cs.filter fun c => c.header.flags.reason).map fun c => c.header.identity

variable {c d : Cell} {cs ds xs ys : List Cell} {i : UInt32} {rs : List Reference}

theorem mem_reasonsIn : i ∈ reasonsIn cs ↔ ∃ c ∈ cs, c.tag = (i, true) := by
  simp only [reasonsIn, tag, List.mem_map, List.mem_filter, Prod.mk.injEq]
  constructor
  · rintro ⟨c, ⟨hc, flagged⟩, rfl⟩
    exact ⟨c, hc, rfl, flagged⟩
  · rintro ⟨c, hc, rfl, flagged⟩
    exact ⟨c, ⟨hc, flagged⟩, rfl⟩

/-- No flag is new in a row whose tags are all from another one. -/
theorem reasonsIn_subset (h : ∀ d ∈ ds, ∃ c ∈ cs, c.tag = d.tag) (hi : i ∈ reasonsIn ds) :
    i ∈ reasonsIn cs := by
  obtain ⟨d, hd, flagged⟩ := mem_reasonsIn.1 hi
  obtain ⟨c, hc, same⟩ := h d hd
  exact mem_reasonsIn.2 ⟨c, hc, same.trans flagged⟩

/-- Compaction keeps the tags of what it keeps. -/
theorem tag_settle (fill : Nat → UInt32) (n : Nat) :
    ∀ d ∈ xs ++ settle fill n ys, ∃ c ∈ xs ++ ys, c.tag = d.tag := by
  intro d hd
  rcases List.mem_append.1 hd with hd | hd
  · exact ⟨d, List.mem_append_left _ hd, rfl⟩
  · have kept : (settle fill n ys).map tag = (ys.filter fun c => !c.isGarbage).map tag :=
      map_settle fun _ _ => rfl
    have : d.tag ∈ (ys.filter fun c => !c.isGarbage).map tag := kept ▸ List.mem_map_of_mem hd
    obtain ⟨c, hc, same⟩ := List.mem_map.1 this
    exact ⟨c, List.mem_append_right _ (List.mem_filter.1 hc).1, same⟩

theorem tag_of_lasting (h : d.revised Header.lasting = c.revised Header.lasting) : d.tag = c.tag := by
  obtain ⟨lasting_eq, -⟩ := revised_eq_iff.1 h
  simp only [Header.lasting, Header.mk.injEq] at lasting_eq
  simp only [tag, lasting_eq]

/-- A row with the flags of some cells set has the flags it had and those. -/
theorem reasonsIn_flagged (ascending : (cs.map identity).Pairwise (· < ·)) :
    (∃ i ∈ reasonsIn (flagged true rs cs), i ∉ reasonsIn cs) ↔
      ∃ r ∈ rs, ∃ c, At 0 cs r.offset c ∧ c.header.flags.reason = false := by
  constructor
  · rintro ⟨i, hi, fresh⟩
    obtain ⟨d, hd, tagged⟩ := mem_reasonsIn.1 hi
    obtain ⟨k, at_d⟩ := exists_at 0 hd
    obtain ⟨c, hc, rfl⟩ := at_mapAt.1 at_d
    by_cases hk : k ∈ rs.map Reference.offset
    · obtain ⟨r, hr, rfl⟩ := List.mem_map.1 hk
      rw [revised, if_pos hk] at tagged
      have own : c.header.identity = i := congrArg Prod.fst tagged
      refine ⟨r, hr, c, hc, Bool.eq_false_iff.2 fun was => ?_⟩
      exact fresh (mem_reasonsIn.2 ⟨c, hc.mem, Prod.ext own was⟩)
    · rw [revised, if_neg hk] at tagged
      exact absurd (mem_reasonsIn.2 ⟨c, hc.mem, tagged⟩) fresh
  · rintro ⟨r, hr, c, hc, unflagged⟩
    have listed : r.offset ∈ rs.map Reference.offset := List.mem_map_of_mem hr
    refine ⟨c.header.identity, mem_reasonsIn.2 ⟨_, (at_mapAt.2 ⟨c, hc, rfl⟩).mem, ?_⟩, fun was => ?_⟩
    · rw [revised, if_pos listed]
      rfl
    · obtain ⟨e, he, tagged⟩ := mem_reasonsIn.1 was
      obtain ⟨j, at_e⟩ := exists_at 0 he
      obtain ⟨-, rfl⟩ := eq_of_identity ascending hc at_e
        (congrArg UInt32.toNat (congrArg Prod.fst tagged).symm)
      rw [show c.header.flags.reason = true from congrArg Prod.snd tagged] at unflagged
      cases unflagged

end Cell

/-- The flags of a database are those of its cells. -/
theorem Database.Holds.reasons_eq {db : Database} {cs : List Cell} (h : db.Holds cs) :
    db.arena.reasons = reasonsIn cs := by
  rw [Arena.reasons, h.tiled.walkFrom_zero, reasonsIn]
  refine map_filter_offsets fun k c hc => ?_
  rw [h.tiled.header_eq hc]
  exact ⟨rfl, rfl⟩

/-! ### Reductions -/

/-- An eviction sets no flag and clears none. -/
theorem Eviction.tag_at {plan : ScanPlan} {fraction : UInt32} {xs ys cs : List Cell} {db db' : Database}
    {r : Except Error (Option Nat)} (h : Eviction plan fraction xs ys db r db' cs) {k : Nat} {d : Cell}
    (hd : At 0 cs k d) : ∃ c, At 0 (xs ++ ys) k c ∧ c.tag = d.tag := by
  have scanned : ∀ {zs : List Cell} {e : Cell}, zs.map (revised Header.lasting) =
      (xs ++ ys).map (revised Header.lasting) → At 0 zs k e →
      ∃ c, At 0 (xs ++ ys) k c ∧ c.tag = e.tag := by
    intro zs e lasting he
    obtain ⟨c, hc, same⟩ := he.of_map_eq lasting.symm
    exact ⟨c, hc, tag_of_lasting same⟩
  cases h with
  | failed pass => exact scanned (Settlement.lasting_pass pass) hd
  | idle pass => exact scanned (Settlement.lasting_pass pass) hd
  | unscored settled => exact scanned settled.lasting hd
  | removed settled =>
    rw [markAll_eq] at hd
    obtain ⟨e, he, rfl⟩ := at_mapAt.1 hd
    obtain ⟨c, hc, same⟩ := scanned settled.lasting he
    refine ⟨c, hc, same.trans ?_⟩
    rw [revised]
    split <;> rfl

namespace Reduction

variable {π : Type} {c : Context π} {search : Snapshot} {cs ds xs ys : List Cell}
  {r : Except Error (Report × Snapshot)} {db : Database}

/-- Flags that are set before an eviction and cleared behind it leave no trace. -/
theorem tag_cleared (split : flagged true (c.protects search) cs = xs ++ ys)
    {result : Except Error (Option Nat)}
    (eviction : Eviction c.plan c.config.reducing.fraction.value xs ys
      (c.database.laid (xs ++ ys)) result db ds) {i : UInt32}
    (hi : i ∈ reasonsIn (flagged false (c.protects search) ds)) : i ∈ reasonsIn cs := by
  obtain ⟨d, hd, tagged⟩ := mem_reasonsIn.1 hi
  obtain ⟨k, at_d⟩ := exists_at 0 hd
  obtain ⟨e, he, rfl⟩ := at_mapAt.1 at_d
  by_cases hk : k ∈ (c.protects search).map Reference.offset
  · rw [revised, if_pos hk] at tagged
    cases congrArg Prod.snd tagged
  · rw [revised, if_neg hk] at tagged
    obtain ⟨b, hb, same⟩ := eviction.tag_at he
    rw [← split] at hb
    obtain ⟨a, ha, rfl⟩ := at_mapAt.1 hb
    rw [revised, if_neg hk] at same
    exact mem_reasonsIn.2 ⟨a, ha.mem, same.trans tagged⟩

/-- A reduction leaves a flag behind just where its flagging stops behind a fresh one. -/
theorem leaks_iff (h : Reduction c search cs r db ds) (holds : c.database.Holds cs) :
    (∃ i ∈ reasonsIn ds, i ∉ reasonsIn cs) ↔ c.Spills search := by
  have names : ∀ rs, (c.database.Names rs ↔ ∀ r ∈ rs, ∃ d, At 0 cs r.offset d) := by
    intro rs
    simp only [Names, holds.tiled.mem_walk]
  have none_new : (∀ i ∈ reasonsIn ds, i ∈ reasonsIn cs) → ¬ c.Spills search →
      ((∃ i ∈ reasonsIn ds, i ∉ reasonsIn cs) ↔ c.Spills search) := by
    intro kept dry
    refine ⟨?_, fun spills => absurd spills dry⟩
    rintro ⟨i, hi, fresh⟩
    exact absurd (kept i hi) fresh
  cases h with
  | unstarted nowhere =>
    refine none_new (fun _ => id) fun spills => ?_
    rw [spills.started] at nowhere
    cases nowhere
  | unsatisfiable inconsistent =>
    refine none_new (fun _ => id) fun spills => ?_
    rw [spills.consistent] at inconsistent
    cases inconsistent
  | failed split start eviction named =>
    exact none_new (fun i => tag_cleared split eviction) fun spills => spills.stray ((names _).2 named)
  | idle part split start eviction named =>
    exact none_new (fun i => tag_cleared split eviction) fun spills => spills.stray ((names _).2 named)
  | @compacted xs ys zs xs' ys' found db first last asked split start eviction resplit restart first_at
      first_least named =>
    refine none_new (fun i hi => ?_) fun spills => spills.stray ((names _).2 named)
    have cleared := reasonsIn_subset (tag_settle _ _) hi
    rw [← resplit] at cleared
    exact tag_cleared split eviction cleared
  | @barred done stray started consistent halted =>
    obtain ⟨bad, rest, protects_eq, passed, none_bad⟩ := halted
    have reached_eq : c.reached search = done := by
      rw [Context.reached, protects_eq, List.takeWhile_append_of_pos, List.takeWhile_cons_of_neg,
        List.append_nil]
      · simpa only [decide_eq_true_eq, holds.tiled.mem_walk] using none_bad
      · simpa only [decide_eq_true_eq, holds.tiled.mem_walk] using passed
    rw [reasonsIn_flagged holds.ascending]
    constructor
    · rintro ⟨q, hq, e, he, unflagged⟩
      refine ⟨consistent, started, fun named => none_bad ?_, q, reached_eq ▸ hq, ?_⟩
      · exact (names _).1 named bad (by simp [protects_eq])
      · rwa [holds.tiled.header_eq he]
    · rintro ⟨-, -, -, q, hq, unflagged⟩
      rw [reached_eq] at hq
      obtain ⟨e, he⟩ := passed q hq
      rw [holds.tiled.header_eq he] at unflagged
      exact ⟨q, hq, e, he, unflagged⟩

end Reduction

namespace Context

variable {π : Type}

/-- The counters do not matter. -/
theorem spills_readied {c : Context π} {search : Snapshot} :
    c.readied.Spills search ↔ c.Spills search :=
  ⟨fun h => ⟨h.consistent, h.started, h.stray, h.unflagged⟩,
    fun h => ⟨h.consistent, h.started, h.stray, h.unflagged⟩⟩

variable [Predictor π]

/-- Behind every lawful run, a reduction leaves a clause flagged that was not flagged just if its flagging
of the reasons stops at one that is no clause, behind one that was not flagged. -/
theorem reduce_leaks_iff (config : Config) (predictor : π) (ops : List Operation) (search : Snapshot)
    (follows : (ofConfig config predictor).Follows ops)
    (addressed : ∀ r ∈ search.reasons,
      ((ofConfig config predictor).run ops).database.Addresses r) :
    ((ofConfig config predictor).run ops).database.arena.Leaks
        (outcome (reduce search) ((ofConfig config predictor).run ops)).2.database.arena ↔
      ((ofConfig config predictor).run ops).Spills search := by
  obtain ⟨cs, h⟩ := exists_holds config predictor follows
  generalize (ofConfig config predictor).run ops = c at addressed h ⊢
  obtain ⟨r, db, ds, counters, predictor, phase, reduces, -, reduction⟩ :=
    yields_reduce c h search addressed
  obtain ⟨ms, outcome_eq⟩ := reduces.outcome_eq
  have left : db.Holds ds := reduction.holds h
  have arena_eq : (outcome (reduce search) c).2.database.arena = db.arena := by
    rw [outcome_eq]
    rfl
  rw [Arena.Leaks, arena_eq, left.reasons_eq, h.reasons_eq, ← spills_readied]
  exact reduction.leaks_iff h

/-- A search whose second reason is no clause. -/
def straySearch : Snapshot := { variableCount := 3, reasons := [.ofOffset 0, .invalid] }

/-- The flag of the first reason is left behind, although the reduction has failed. -/
theorem reduce_leaks_straySearch :
    (ofConfig {} ({} : Linear)).Follows [.create .redundant 6 [⟨1⟩, ⟨2⟩, ⟨3⟩]] ∧
      (∀ r ∈ straySearch.reasons, ((ofConfig {} ({} : Linear)).run
        [.create .redundant 6 [⟨1⟩, ⟨2⟩, ⟨3⟩]]).database.Addresses r) ∧
      ((ofConfig {} ({} : Linear)).run [.create .redundant 6 [⟨1⟩, ⟨2⟩, ⟨3⟩]]).database.arena.Leaks
        (outcome (reduce straySearch) ((ofConfig {} ({} : Linear)).run
          [.create .redundant 6 [⟨1⟩, ⟨2⟩, ⟨3⟩]])).2.database.arena := by
  have follows : (ofConfig {} ({} : Linear)).Follows [.create .redundant 6 [⟨1⟩, ⟨2⟩, ⟨3⟩]] := by
    decide +kernel
  have addressed : ∀ r ∈ straySearch.reasons, ((ofConfig {} ({} : Linear)).run
      [.create .redundant 6 [⟨1⟩, ⟨2⟩, ⟨3⟩]]).database.Addresses r := by decide +kernel
  refine ⟨follows, addressed,
    (reduce_leaks_iff ({} : Config) ({} : Linear) _ straySearch follows addressed).2 ?_⟩
  exact ⟨rfl, by decide +kernel, by decide +kernel, by decide +kernel⟩

end Context

end ClauseStore
