import ClauseStore.Proofs.Conservation
import ClauseStore.Proofs.Filing

/-!
Runs by scores. While reductions go by scores, no redundant clause is stored as a kept one, so a scan
comes to every live redundant clause, whatever else is configured in between. Rows then stay in order
along a run in which no reduction fails; and where links can name all rows, clauses stay tied to theirs.
-/

namespace ClauseStore

open Cell Database

/-! ### What clauses stem from -/

namespace Header

variable {h h' h'' : Header}

/-- A header that tells the clause of another, and is live or redundant only if that is. -/
structure Stems (h h' : Header) : Prop where
  identity_eq : h'.identity = h.identity
  keep_eq : h'.flags.keep = h.flags.keep
  garbage : h'.flags.garbage = false → h.flags.garbage = false
  redundant : h'.flags.redundant = true → h.flags.redundant = true

theorem Descends.stems (descends : h.Descends h') : h.Stems h' :=
  ⟨descends.identity_eq, descends.keep_eq, descends.garbage, descends.redundant⟩

theorem Stems.refl (h : Header) : h.Stems h := (Descends.refl h).stems

theorem Stems.trans (first : h.Stems h') (second : h'.Stems h'') : h.Stems h'' where
  identity_eq := second.identity_eq.trans first.identity_eq
  keep_eq := second.keep_eq.trans first.keep_eq
  garbage live := first.garbage (second.garbage live)
  redundant redundant := first.redundant (second.redundant redundant)

theorem Stems.of_tie_eq (tie_eq : h'.tie = h.tie) : h.Stems h' where
  identity_eq := congrArg Tie.identity tie_eq
  keep_eq := congrArg Tie.keep tie_eq
  garbage live := (congrArg Tie.garbage tie_eq).symm.trans live
  redundant redundant := (congrArg Tie.redundant tie_eq).symm.trans redundant

end Header

theorem Cell.Springs.stems {cs ds : List Cell} (springs : Springs Header.Inherits cs ds) :
    Springs Header.Stems cs ds := by
  intro d hd
  obtain ⟨c, hc, inherits⟩ := springs d hd
  exact ⟨c, hc, inherits.toDescends.stems⟩

/-- Every cell stems from one of other cells, or is that of the next identity, and then is not kept by
scores if it is redundant. -/
def Cell.Grows (config : Config) (next : UInt32) (cs ds : List Cell) : Prop :=
  ∀ d ∈ ds, (∃ c ∈ cs, c.header.Stems d.header) ∨ d.header.identity = next ∧
    (config.predicting.byScore.value = true → d.header.flags.redundant = true → d.header.flags.keep = false)

theorem Cell.Springs.grows {cs ds : List Cell} (springs : Springs Header.Stems cs ds) (config : Config)
    (next : UInt32) : Grows config next cs ds := fun d hd => .inl (springs d hd)

/-- Whatever a reduction comes to, it makes no clause. -/
theorem Reduction.stems {π : Type} {c : Context π} {search : Snapshot} {cs ds : List Cell}
    {r : Except Error (Report × Snapshot)} {db : Database} (h : Reduction c search cs r db ds)
    (holds : c.database.Holds cs) :
    Springs Header.Stems cs ds ∧ db.nextIdentity = c.database.nextIdentity := by
  obtain ⟨gone, thinning, -⟩ := h.thinning holds
  have kept : ∀ {zs : List Cell}, SameButMarked gone cs zs → Springs Header.Stems cs zs := by
    intro zs kept z hz
    obtain ⟨k, at_z⟩ := exists_at 0 hz
    obtain ⟨x, at_x⟩ := kept.exists_at.1 ⟨z, at_z⟩
    obtain ⟨essence_eq, garbage_eq⟩ := kept.view k x z at_x at_z
    simp only [essence, Prod.mk.injEq] at essence_eq
    refine ⟨x, at_x.mem, essence_eq.1, essence_eq.2.2.2.2, fun live => ?_, fun redundant => ?_⟩
    · rw [isGarbage, isGarbage, live] at garbage_eq
      exact (Bool.or_eq_false_iff.1 garbage_eq.symm).1
    · exact essence_eq.2.2.2.1.symm.trans redundant
  generalize searchAfter search r = search' at thinning
  cases thinning with
  | still thinned => exact ⟨kept thinned.kept, thinned.next_eq⟩
  | compacted thinned =>
    exact ⟨(kept thinned.kept).trans (springs_settle _ _ _ _).stems Header.Stems.trans, thinned.next_eq⟩

/-- Behind every effect a clause stems from one before it, or is a new one. -/
theorem Effect.grows {π : Type} {c c' : Context π} {cs ds : List Cell} {op : Operation}
    {a : Except Error Answer} (h : Effect c cs op a c' ds) (holds : c.database.Holds cs) :
    Grows c.config c.database.nextIdentity cs ds ∧
      c.database.nextIdentity.toNat ≤ c'.database.nextIdentity.toNat := by
  have still : Springs Header.Stems cs cs := fun d hd => ⟨d, hd, .refl _⟩
  cases h with
  | configured => exact ⟨still.grows _ _, Nat.le_refl _⟩
  | beside _ _ same => exact ⟨still.grows _ _, same.next_le⟩
  | @stored source glue clause r db ds phase storage =>
    cases storage with
    | refused _ _ drawn => exact ⟨still.grows _ _, drawn⟩
    | binary _ fresh => exact ⟨still.grows _ _, (beside_storedBinary _ _ _ fresh).next_le⟩
    | long _ _ _ fresh =>
      refine ⟨fun d hd => ?_, ?_⟩
      · rcases List.mem_append.1 hd with hd | hd
        · exact still.grows _ _ d hd
        · rw [List.mem_singleton.1 hd]
          exact .inr ⟨rfl, fun byScore redundant => keeps_of_byScore byScore redundant⟩
      · show _ ≤ (c.database.nextIdentity + 1).toNat
        rw [toNat_succ fresh]
        exact Nat.le_succ _
  | @noted op r d f note =>
    refine ⟨(springs_mapAt (fun k h => ?_) cs).grows _ _, Nat.le_refl _⟩
    rw [Arena.only]
    split
    · exact .of_tie_eq (tie_of_note note h)
    · exact .refl h
  | refused => exact ⟨still.grows _ _, Nat.le_refl _⟩
  | @marked r => exact ⟨(springs_markAt r.offset cs).stems.grows _ _, Nat.le_refl _⟩
  | @promoted r => exact ⟨(springs_promoteAt r.offset cs).stems.grows _ _, Nat.le_refl _⟩
  | @shortened r size xs ys d split =>
    subst split
    exact ⟨(springs_shrunk xs ys d size.toNat).stems.grows _ _, Nat.le_refl _⟩
  | @collected start xs ys _ _ split =>
    subst split
    exact ⟨(springs_settle _ _ xs ys).stems.grows _ _, Nat.le_refl _⟩
  | reduced reduction =>
    obtain ⟨springs, next_eq⟩ := reduction.stems holds
    exact ⟨springs.grows _ _, Nat.le_of_eq (congrArg UInt32.toNat next_eq.symm)⟩

/-- What configures puts another configuration in the place of the former one, and does nothing else. -/
theorem Effect.exists_configured {π : Type} {c c' : Context π} {cs ds : List Cell} {op : Operation}
    {a : Except Error Answer} (h : Effect c cs op a c' ds) (configures : ¬ op.configures = false) :
    ∃ config, op = .configure config ∧ c' = { c with config } ∧ ds = cs := by
  cases h with
  | @configured config => exact ⟨config, rfl, rfl, rfl⟩
  | beside aside => exact absurd (by cases op <;> first | rfl | cases aside) configures
  | noted note => exact absurd (by cases op <;> first | rfl | cases note) configures
  | refused single => exact absurd (by cases op <;> first | rfl | cases single) configures
  | _ => exact absurd rfl configures

/-! ### Clauses that are not kept -/

/-- No redundant clause is kept. -/
def Cell.NoneKept (cs : List Cell) : Prop :=
  ∀ c ∈ cs, c.header.flags.redundant = true → c.header.flags.keep = false

theorem Cell.NoneKept.unkept {cs : List Cell} (h : NoneKept cs) (config : Config) : Unkept config cs :=
  fun _ => h

/-- By scores no clause that is stored is kept. -/
theorem Cell.NoneKept.of_grows {config : Config} {next : UInt32} {cs ds : List Cell} (h : NoneKept cs)
    (byScore : config.predicting.byScore.value = true) (grows : Grows config next cs ds) : NoneKept ds := by
  intro d hd redundant
  rcases grows d hd with ⟨c, hc, stems⟩ | ⟨-, new⟩
  · exact stems.keep_eq.trans (h c hc (stems.redundant redundant))
  · exact new byScore redundant

namespace Operation

/-- The call leaves reductions going by scores. -/
def Scores : Operation → Prop
  | configure config => config.predicting.byScore.value = true
  | _ => True

instance : (op : Operation) → Decidable op.Scores
  | configure config => inferInstanceAs (Decidable (config.predicting.byScore.value = true))
  | listen _ | create .. | noteConflict | notePropagation _ | noteUip _ | noteUsed _ | setReason ..
  | shrink .. | markGarbage _ | makeIrredundant _ | deleteBinary .. | setWatching _ | queuePending _
  | takePending | connectPending | collect _ | reduce _ => inferInstanceAs (Decidable True)

end Operation

namespace Context

variable {π : Type} {c c' : Context π} {cs ds : List Cell} {op : Operation} {a : Except Error Answer}

/-! ### Runs -/

/-- Reductions go by scores, rows are in order, and no redundant clause is kept. -/
structure Scoring (c : Context π) (cs : List Cell) : Prop extends c.Indexed cs where
  byScore : c.config.predicting.byScore.value = true
  noneKept : NoneKept cs

theorem collecting_of_byScore {config : Config} (byScore : config.predicting.byScore.value = true) :
    config.collecting = true := by
  rw [Config.collecting, byScore, Bool.true_or]

namespace Scoring

theorem nil (config : Config) (predictor : π) (byScore : config.predicting.byScore.value = true) :
    (ofConfig config predictor).Scoring [] :=
  ⟨.nil config predictor (collecting_of_byScore byScore), byScore, by simp [NoneKept]⟩

theorem logged (h : c.Scoring cs) (ms : Array Message) : (Logged.withMessages ms c).Scoring cs :=
  ⟨h.toIndexed.logged ms, h.byScore, h.noneKept⟩

/-- Reductions by scores stay so behind the effect of a call that does not fail. -/
theorem of_effect (h : c.Scoring cs) (effect : Effect c cs op a c' ds) (scores : op.Scores)
    (succeeds : op.reduces = true → ∀ e, a ≠ .error e) : c'.Scoring ds := by
  by_cases fixed : op.configures = false
  · refine ⟨h.toIndexed.of_effect effect fixed succeeds, ?_,
      h.noneKept.of_grows h.byScore (effect.grows h.holds).1⟩
    rw [effect.config_eq fixed]
    exact h.byScore
  · obtain ⟨config, rfl, rfl, rfl⟩ := effect.exists_configured fixed
    exact ⟨h.toIndexed.reconfigured (collecting_of_byScore scores) (h.noneKept.unkept _), scores,
      h.noneKept⟩

end Scoring

/-- Reductions go by scores, rows are in order, and clauses are tied to them. -/
structure TiedScoring (c : Context π) (cs : List Cell) : Prop extends c.Scoring cs where
  tied : TiedToRows c.config c.database cs
  clean : Clean (cs.map tie) c.database.table

namespace TiedScoring

theorem nil (config : Config) (predictor : π) (byScore : config.predicting.byScore.value = true) :
    (ofConfig config predictor).TiedScoring [] :=
  ⟨.nil config predictor byScore, .nil, by simp [Clean]⟩

/-- Clauses stay tied behind the effect of a call that does not fail, if links can name all rows. -/
theorem of_effect (h : c.TiedScoring cs) (effect : Effect c cs op a c' ds) (scores : op.Scores)
    (narrow : c'.database.table.size ≤ 2147483648)
    (succeeds : op.reduces = true → ∀ e, a ≠ .error e) : c'.TiedScoring ds := by
  refine ⟨h.toScoring.of_effect effect scores succeeds, ?_, ?_⟩
  · by_cases fixed : op.configures = false
    · rw [effect.config_eq fixed]
      exact effect.tied h.tied h.collecting fixed (fun _ => h.tied.not_strayed h.clean) narrow
    · obtain ⟨config, rfl, rfl, rfl⟩ := effect.exists_configured fixed
      exact ⟨h.holds, h.tied.linked, h.tied.alive, h.noneKept.unkept _⟩
  · by_cases fixed : op.configures = false
    · exact effect.clean h.tied h.collecting h.clean fun reduces cause => succeeds reduces _
    · obtain ⟨config, rfl, rfl, rfl⟩ := effect.exists_configured fixed
      exact h.clean

/-- Clauses stay tied along a run in which no reduction fails. -/
theorem exists_run [Predictor π] {ops : List Operation} (h : c.TiedScoring cs) (follows : c.Follows ops)
    (scores : ∀ op ∈ ops, op.Scores) (narrow : c.Throughout Narrow ops)
    (succeeds : c.Throughout Succeeds ops) : ∃ ds, (c.run ops).TiedScoring ds := by
  induction ops generalizing c cs with
  | nil => exact ⟨cs, h⟩
  | cons op ops ih =>
    obtain ⟨lawful, follows⟩ := follows
    obtain ⟨fits, narrow⟩ := narrow
    obtain ⟨succeeds, rest⟩ := succeeds
    obtain ⟨c', ds, ms, after_eq, effect⟩ := exists_effect h.holds lawful
    rw [Narrow, after_eq] at fits
    have next := h.of_effect effect (scores op (by simp)) fits succeeds.ne_error
    have next : (op.after c).TiedScoring ds := by
      rw [after_eq]
      exact ⟨next.toScoring.logged ms, next.tied.logged ms, next.clean⟩
    exact ih next follows (fun op hop => scores op (by simp [hop])) narrow rest

end TiedScoring

end Context

end ClauseStore
