import ClauseStore.Proofs.Accounting
import ClauseStore.Proofs.Occurring

/-!
Widths. The counts are natural numbers here, while a store keeps them in machine words. No count ever
passes the identities that have been drawn, of which there are fewer than `2 ^ 32`: each clause that is
counted was stored under one of them, and no literal occurs twice in a clause. The bytes of garbage are
those of an arena with fewer than `2 ^ 32` words. So no count leaves its word.
-/

namespace ClauseStore

open Cell Database

/-- Each count of a database is at most that of the clauses stored, and each of these has drawn an
identity. -/
structure Database.CountsFit (db : Database) : Prop where
  added_lt : db.counts.added < db.nextIdentity.toNat
  original_le : db.counts.original ≤ db.counts.added
  clauses_le : db.counts.irredundant + db.counts.redundant + db.counts.deleted ≤ db.counts.added
  occurrences_le : ∀ l, db.occurrences.count l ≤ db.counts.irredundant
  /-- the garbage is a part of an arena that references can reach -/
  garbage_lt : db.counts.arenaGarbage < wordBytes * UInt32.size

/-- No literal is counted `2 ^ 32` times. -/
theorem Database.CountsFit.occurrences_lt {db : Database} (h : db.CountsFit) (l : Literal) :
    db.occurrences.count l < UInt32.size := by
  have := h.occurrences_le l
  have := h.clauses_le
  have := h.added_lt
  have : db.nextIdentity.toNat < UInt32.size := db.nextIdentity.toNat_lt
  omega

namespace Context

variable {π : Type} [Predictor π]

/-- A reduction by rank that takes more than all candidates would report more than it marks. -/
def Percentage (_ : Operation) (c : Context π) : Prop :=
  c.config.predicting.byScore.value = false → c.config.reducing.fraction.value.toNat ≤ 100

instance (op : Operation) (c : Context π) : Decidable (Percentage op c) :=
  inferInstanceAs (Decidable (_ → _))

end Context

/-! ### What reductions leave -/

/-- A reduction leaves all live clauses but those that are gone. -/
theorem Thinned.length_live {byScore : Bool} {search : Snapshot} {db db₁ : Database} {cs zs : List Cell}
    {gone : List Nat} (h : Thinned byScore search db db₁ cs zs gone) (holds : db.Holds cs) :
    db₁.arena.live.length + gone.length = db.arena.live.length := by
  have apart : db.arena.live.Nodup := by
    rw [holds.live_eq]
    exact (liveOffsets_sublist 0 cs).nodup ((offsets_pairwise 0 cs).imp Nat.ne_of_lt)
  have lost : (db.arena.live.filter gone.contains).Perm gone := by
    refine (List.perm_ext_iff_of_nodup (apart.filter _) h.apart).2 fun o => ?_
    rw [List.mem_filter, List.contains_iff_mem]
    exact ⟨And.right, fun ho => ⟨(h.gone_eq holds ho).1, ho⟩⟩
  have parts := List.length_eq_length_filter_add gone.contains (l := db.arena.live)
  rw [lost.length_eq] at parts
  rw [h.live_eq holds]
  omega

theorem Thinning.length_live {byScore : Bool} {search search' : Snapshot} {db db' : Database}
    {cs ds : List Cell} {gone : List Nat} (h : Thinning byScore search db cs gone search' db' ds)
    (holds : db.Holds cs) : db'.arena.live.length + gone.length = db.arena.live.length := by
  cases h with
  | still thinned => exact thinned.length_live holds
  | @compacted _ _ _ _ last thinned first_at =>
    have lengths := congrArg List.length (thinned.holds.live_collected last first_at)
    rw [List.length_map, List.length_map] at lengths
    rw [← lengths]
    exact thinned.length_live holds

namespace Database

theorem Booked.length_live {db : Database} {bs : List BinaryClause} {cs : List Cell}
    (h : db.Booked bs cs) (holds : db.Holds cs) :
    db.arena.live.length + bs.length = db.counts.live false + db.counts.live true := by
  rw [← h.length_stock holds, stock, Arena.stock, List.length_append, List.length_map, List.length_map]

/-! ### Identities that were drawn -/

/-- No more clauses are counted than were stored, nor more stored than identities drawn, where at least
some count was stored before and reductions have reported some count as removed. -/
structure Drawn (least removed : Nat) (db : Database) (bs : List BinaryClause) (cs : List Cell) :
    Prop where
  booked : db.Booked bs cs
  added_lt : db.counts.added < db.nextIdentity.toNat
  original_le : db.counts.original ≤ db.counts.added
  least_le : least ≤ db.counts.added
  removed_le : db.counts.live false + db.counts.live true + removed ≤ db.counts.added

namespace Drawn

variable {least removed : Nat} {db db' : Database} {bs : List BinaryClause} {cs ds xs ys : List Cell}

theorem relaid (h : db.Drawn least removed bs cs) (same : SameBooks db db')
    (core_eq : ds.map core = cs.map core) : db'.Drawn least removed bs ds where
  booked := h.booked.relaid same core_eq
  added_lt := by
    rw [same.added_eq]
    exact Nat.lt_of_lt_of_le h.added_lt same.next_le
  original_le := by
    rw [same.original_eq, same.added_eq]
    exact h.original_le
  least_le := by
    rw [same.added_eq]
    exact h.least_le
  removed_le := by
    rw [Counts.live_eq_of_same same, Counts.live_eq_of_same same, same.added_eq]
    exact h.removed_le

/-- A clause that is stored is counted once, and its identity is used up. -/
theorem stored (h : db.Drawn least removed bs cs) {bs' : List BinaryClause} (source : Source)
    (fresh : db.nextIdentity ≠ 4294967295) (booked : db'.Booked bs' ds)
    (counts_eq : db'.counts = db.counts.stored source)
    (next_eq : db'.nextIdentity = db.nextIdentity + 1) : db'.Drawn least removed bs' ds := by
  have added_eq : (db.counts.stored source).added = db.counts.added + 1 := by cases source <;> rfl
  have original_le : (db.counts.stored source).original ≤ db.counts.original + 1 := by
    cases source <;> simp [Counts.stored]
  have before := h.removed_le
  constructor
  case booked => exact booked
  case added_lt =>
    rw [counts_eq, next_eq, added_eq, toNat_succ fresh]
    exact Nat.succ_lt_succ h.added_lt
  case original_le =>
    rw [counts_eq, added_eq]
    exact Nat.le_trans original_le (Nat.succ_le_succ h.original_le)
  case least_le =>
    rw [counts_eq, added_eq]
    exact Nat.le_succ_of_le h.least_le
  case removed_le =>
    rw [counts_eq, added_eq, Counts.live_stored, Counts.live_stored]
    cases source <;> (simp; omega)

/-- Whoever stores nothing and counts no more live clauses draws no identity. -/
theorem spent (h : db.Drawn least removed bs cs) {bs' : List BinaryClause} (booked : db'.Booked bs' ds)
    (added_eq : db'.counts.added = db.counts.added) (original_eq : db'.counts.original = db.counts.original)
    (next_eq : db'.nextIdentity = db.nextIdentity)
    (live_le : db'.counts.live false + db'.counts.live true ≤
      db.counts.live false + db.counts.live true) : db'.Drawn least removed bs' ds where
  booked := booked
  added_lt := by
    rw [added_eq, next_eq]
    exact h.added_lt
  original_le := by
    rw [original_eq, added_eq]
    exact h.original_le
  least_le := by
    rw [added_eq]
    exact h.least_le
  removed_le := by
    rw [added_eq]
    exact Nat.le_trans (Nat.add_le_add_right live_le removed) h.removed_le

theorem retired_le (n : Counts) (redundant : Bool) :
    (n.retired redundant).live false + (n.retired redundant).live true ≤ n.live false + n.live true := by
  rw [Counts.live_retired, Counts.live_retired]
  omega

/-- Every way to revise the books keeps to the identities that were drawn. -/
theorem keeps (least removed : Nat) : Bookkeeping (Drawn least removed) where
  relaid := relaid
  storedBinary h source _ fresh := h.stored source fresh (h.booked.storedBinary _ _ source) rfl rfl
  storedLong h source glue keep conflicts _ _ fresh :=
    h.stored source fresh (h.booked.storedLong _ _ _ source glue keep conflicts) rfl rfl
  marked {db _ _ _ d} h live := by
    refine h.spent (h.booked.marked live) ?_ ?_ rfl (retired_le db.counts d.header.flags.redundant)
    all_goals cases redundant : d.header.flags.redundant <;> simp [Database.marked, Counts.retired, redundant]
  promoted {db _ xs ys d r} h live redundant start _ := by
    -- the clause was counted, so that the count of redundant ones does not stop at zero
    have counted := (h.booked.live_eq true).symm
    rw [List.countP_append, List.countP_cons, standsAs_of_live live, redundant, beq_self_eq_true, if_pos rfl]
      at counted
    refine h.spent (h.booked.promoted live redundant _) rfl rfl rfl ?_
    show db.counts.promoted.live false + db.counts.promoted.live true ≤ _
    rw [Counts.live_promoted, Counts.live_promoted, if_neg Bool.false_ne_true, if_pos rfl]
    omega
  shortened n h _ _ := h.spent (h.booked.shortened n) rfl rfl rfl (Nat.le_refl _)
  collected h _ first := h.spent (h.booked.collected first _) rfl rfl rfl (Nat.le_refl _)
  deletedBinary {db _ _ x _ _ _} h w binds held own := by
    refine h.spent (h.booked.deletedBinary w binds held own) ?_ ?_ rfl (retired_le db.counts x.redundant)
    all_goals cases redundant : x.redundant <;> simp [Database.deletedBinary, Counts.retired]

/-- No literal is counted more often than clauses are live: it occurs at most once in each. -/
theorem occurrences_le (h : db.Drawn least removed bs cs) (holds : db.Holds cs) (other : db.Holds ds)
    (tallied : db.Tallied bs ds) (binds : db.Binds bs) (l : Literal) :
    db.occurrences.count l ≤ db.counts.irredundant := by
  have counted : (db.irredundants bs).length = db.counts.live false := by
    rw [h.booked.live_eq, holds.irredundants_eq, List.length_append, List.length_map,
      List.length_map, BinaryClause.ofKind, ← List.countP_eq_length_filter,
      ← List.countP_eq_length_filter]
  rw [tallied.count_flatten other, Clause.count_flatten_of_nodup (tallied.nodup other binds)]
  exact Nat.le_trans List.countP_le_length (Nat.le_of_eq counted)

end Drawn

theorem drawn_nil {π : Type} {config : Config} {predictor : π} :
    (Context.ofConfig config predictor).database.Drawn 0 0 [] [] :=
  ⟨⟨fun kind => by cases kind <;> rfl, rfl⟩, (by decide : 0 < (1 : UInt32).toNat), Nat.le_refl 0,
    Nat.le_refl 0, Nat.le_refl 0⟩

end Database

namespace Context

variable {π : Type} [Predictor π] {c : Context π} {bs : List BinaryClause} {cs : List Cell}

/-- What a call reports as removed was live before it, and is not any more. -/
theorem length_live_of_removed (bs : List BinaryClause) (holds : c.database.Holds cs) {op : Operation}
    (lawful : op.Lawful c) (percentage : Percentage op c) : Answer.removed (op.answer c) = 0 ∨
      BinaryClause.record op (op.answer c) bs = bs ∧
      (op.after c).database.arena.live.length + Answer.removed (op.answer c) =
        c.database.arena.live.length := by
  cases aside : op.aside with
  | true =>
    obtain ⟨db, ms, -, sideline⟩ := exists_sideline holds aside
    generalize op.answer c = answer at sideline
    cases sideline <;> exact .inl rfl
  | false =>
    obtain ⟨c', ds, ms, after_eq, effect⟩ := exists_effect holds lawful
    rw [after_eq]
    generalize op.answer c = answer at effect
    cases effect with
    | beside aside' =>
      rw [aside'] at aside
      cases aside
    | stored storage => cases storage <;> exact .inl rfl
    | @reduced search r db ds counters predictor phase reduction =>
      obtain ⟨gone, thinning, count_eq⟩ := reduction.thinning (c := c.readied) holds
      have removed_eq : Answer.removed (r.map fun result => .reported result.1 result.2) =
          reportedCount r := by
        rcases r with _ | ⟨_ | _ | _, _⟩ <;> rfl
      refine .inr ⟨rfl, ?_⟩
      rw [removed_eq, count_eq percentage]
      exact thinning.length_live holds
    | _ => exact .inl rfl

/-- One call draws an identity for what it stores, and reports no clause as removed that it still
counts. -/
theorem drawn_step {least removed : Nat} (holds : c.database.Holds cs) (binds : c.database.Binds bs)
    (h : c.database.Drawn least removed bs cs) {op : Operation} (lawful : op.Lawful c)
    (candid : op.Candid bs) (percentage : Percentage op c) :
    ∃ ds, (op.after c).database.Holds ds ∧ (op.after c).database.Drawn c.database.counts.added
      (removed + Answer.removed (op.answer c)) (BinaryClause.record op (op.answer c) bs) ds := by
  have here : c.database.Drawn c.database.counts.added removed bs cs := { h with least_le := Nat.le_refl _ }
  obtain ⟨ds, next, kept⟩ := (Drawn.keeps _ removed).step holds binds here lawful candid
  refine ⟨ds, next, { kept with removed_le := ?_ }⟩
  rcases length_live_of_removed bs holds lawful percentage with none | ⟨binary, lengths⟩
  · rw [none]
    exact kept.removed_le
  · have before := h.booked.length_live holds
    have after := kept.booked.length_live next
    have within := h.removed_le
    have stored := kept.least_le
    rw [binary] at after
    omega

theorem drawn_run {least removed : Nat} {ops : List Operation} (holds : c.database.Holds cs)
    (binds : c.database.Binds bs) (h : c.database.Drawn least removed bs cs) (follows : c.Follows ops)
    (candid : c.Candid bs ops) (percentage : c.Throughout Percentage ops) :
    ∃ least' ds, (c.run ops).database.Holds ds ∧ (c.run ops).database.Drawn least'
      (removed + c.removals ops) (BinaryClause.keep c ops bs) ds := by
  induction ops generalizing c cs bs least removed with
  | nil => exact ⟨least, cs, holds, h⟩
  | cons op ops ih =>
    obtain ⟨ds, next, kept⟩ := drawn_step holds binds h follows.1 candid.1 percentage.1
    have rest := ih next (binds_step holds binds follows.1) kept follows.2 candid.2 percentage.2
    rwa [Nat.add_assoc] at rest

/-- Behind every lawful run whose deletions tell the kind of their binary clause, no count passes the
identities that were drawn, and the garbage is a part of an arena that references can reach. -/
theorem countsFit_run (config : Config) (predictor : π) {ops : List Operation}
    (follows : (ofConfig config predictor).Follows ops)
    (candid : (ofConfig config predictor).Candid [] ops) :
    ((ofConfig config predictor).run ops).database.CountsFit := by
  have start : (ofConfig config predictor).database.Holds [] := holds_nil
  have unbound : (ofConfig config predictor).database.Binds [] := binds_nil
  have binds := binds_run start unbound follows
  obtain ⟨cs, holds, drawn⟩ := (Drawn.keeps 0 0).run start unbound drawn_nil follows candid
  obtain ⟨ds, other, tallied⟩ := Tallied.keeps.run start unbound ⟨fun _ => rfl, by simp⟩ follows candid
  constructor
  case added_lt => exact drawn.added_lt
  case original_le => exact drawn.original_le
  case clauses_le => exact Nat.le_trans (Nat.le_add_right ..) (Nat.le_of_eq drawn.booked.added_eq.symm)
  case occurrences_le => exact drawn.occurrences_le holds other tallied binds
  case garbage_lt =>
    have part : extents (garbageOf cs) ≤ extents cs := extents_le_of_sublist List.filter_sublist
    have fits := holds.fits_word
    rw [holds.garbage_eq, Nat.mul_comm]
    exact Nat.mul_lt_mul_of_pos_left (Nat.lt_of_le_of_lt part fits : _ < UInt32.size) (by decide)

/-- Nor does the count of the clauses that reductions have removed, where those by rank take a
percentage. -/
theorem reduced_le_run (config : Config) (predictor : π) {ops : List Operation}
    (follows : (ofConfig config predictor).Follows ops)
    (candid : (ofConfig config predictor).Candid [] ops)
    (percentage : (ofConfig config predictor).Throughout Percentage ops) :
    ((ofConfig config predictor).run ops).database.counts.reduced ≤
      ((ofConfig config predictor).run ops).database.counts.added := by
  have start : (ofConfig config predictor).database.Holds [] := holds_nil
  obtain ⟨least, cs, -, drawn⟩ := drawn_run start binds_nil drawn_nil follows candid percentage
  have reduced_eq : ((ofConfig config predictor).run ops).database.counts.reduced =
      0 + (ofConfig config predictor).removals ops := reduced_run start follows
  rw [reduced_eq]
  exact Nat.le_trans (Nat.le_add_left ..) drawn.removed_le

end Context

end ClauseStore
