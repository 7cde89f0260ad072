import ClauseStore.Predictor.Linear
import ClauseStore.Proofs.Outcome
import ClauseStore.Reduction

/-!
Consulting the predictor. A batch of rows is submitted, a prediction is made and tells how many scores
there are, and a score is read for each row: each of these steps may fail, and then none of the later
ones is made. A reduction asks for scores at most once, and only where its search is consistent, its
reasons can be flagged, its scan finds a candidate, and more rows are left than are retained.
-/

namespace ClauseStore

variable {π : Type} [Predictor π]

/-- How a batch goes from some state of the predictor on: what comes of it, and the state behind it,
ahead of the release of the batch. -/
inductive Consultation (p : π) (matrix : List Binary64) (rows context : Nat) :
    Except PredictorError (List Binary64) → π → Prop where
  | unsubmitted {e : PredictorError} {p' : π}
    (refused : outcome (Predictor.submit matrix rows) p = (.error e, p')) :
    Consultation p matrix rows context (.error e) p'
  | unpredicted {e : PredictorError} {p₁ p' : π}
    (submitted : outcome (Predictor.submit matrix rows) p = (.ok (), p₁))
    (refused : outcome (Predictor.predict rows context) p₁ = (.error e, p')) :
    Consultation p matrix rows context (.error e) p'
  /-- the prediction tells another count of scores than that of the rows -/
  | miscounted {n : Nat} {p₁ p' : π}
    (submitted : outcome (Predictor.submit matrix rows) p = (.ok (), p₁))
    (predicted : outcome (Predictor.predict rows context) p₁ = (.ok n, p')) (other : n ≠ rows) :
    Consultation p matrix rows context (.error (.rowCount rows n)) p'
  /-- a row is without a score, and those before it are not -/
  | unread {i : Nat} {p₁ p' : π}
    (submitted : outcome (Predictor.submit matrix rows) p = (.ok (), p₁))
    (predicted : outcome (Predictor.predict rows context) p₁ = (.ok rows, p')) (short : i < rows)
    (missing : Predictor.score? p' i = none) (least : ∀ j < i, Predictor.score? p' j ≠ none) :
    Consultation p matrix rows context (.error (.rowCount rows i)) p'
  | scored {scores : List Binary64} {p₁ p' : π}
    (submitted : outcome (Predictor.submit matrix rows) p = (.ok (), p₁))
    (predicted : outcome (Predictor.predict rows context) p₁ = (.ok rows, p'))
    (read : (List.range rows).map (Predictor.score? p') = scores.map some) :
    Consultation p matrix rows context (.ok scores) p'

namespace Consultation

variable {p p' : π} {matrix scores : List Binary64} {rows context : Nat}

/-- A batch that goes well tells a score for each row. -/
theorem length_eq (h : Consultation p matrix rows context (.ok scores) p') : scores.length = rows := by
  cases h with
  | scored _ _ read => simpa using (congrArg List.length read).symm

/-- A batch does not both go well and fail. -/
theorem ne_error (h : Consultation p matrix rows context (.ok scores) p') {e : PredictorError} {q : π} :
    ¬ Consultation p matrix rows context (.error e) q := by
  intro failed
  cases h with
  | scored submitted predicted read =>
    cases failed with
    | unsubmitted refused => cases submitted.symm.trans refused
    | unpredicted submitted' refused =>
      cases submitted.symm.trans submitted'
      cases predicted.symm.trans refused
    | miscounted submitted' predicted' other =>
      cases submitted.symm.trans submitted'
      cases predicted.symm.trans predicted'
      exact other rfl
    | @unread i _ _ submitted' predicted' short missing =>
      cases submitted.symm.trans submitted'
      cases predicted.symm.trans predicted'
      have unread : none ∈ (List.range rows).map (Predictor.score? p') :=
        List.mem_map.2 ⟨i, List.mem_range.2 short, missing⟩
      rw [read] at unread
      simp at unread

end Consultation

/-! ### Linear models -/

namespace Linear

variable {p : Linear} {m : Model} {matrix : List Binary64} {rows context : Nat}

/-- A matrix has as many rows as are read off it. -/
theorem length_matrixRows (rows : Nat) (xs : List Binary64) : (matrixRows rows xs).length = rows := by
  induction rows generalizing xs with
  | zero => rfl
  | succ rows ih => rw [matrixRows, List.length_cons, ih]

/-- The rows that a batch is cut into are those that it was handed over as. -/
theorem wholeRows_eq (whole : matrix.length = rows * columns) :
    wholeRows matrix = matrixRows rows matrix := by
  rw [wholeRows, whole, Nat.mul_div_cancel _ (by decide)]

/-- A loaded predictor takes a matrix of whole rows. -/
theorem outcome_submit (loaded : p.models ≠ []) (whole : matrix.length = rows * columns) :
    outcome (Predictor.submit matrix rows) p = (.ok (), { p with batch := matrix, rows }) := by
  show attempt (fun p => p.submit matrix rows) p = _
  rw [attempt, submit, if_neg (by simpa using loaded), if_neg (by simpa using whole)]

/-- A prediction in a context that has a model tells a score for each row of the batch. -/
theorem outcome_predict (loaded : p.models[context]? = some m) (whole : p.batch.length = p.rows * columns)
    (same : rows = p.rows) :
    outcome (Predictor.predict rows context) p =
      (.ok rows, { p with scores := (matrixRows p.rows p.batch).map m.score }) := by
  have step : p.predict rows context =
      .ok { p with scores := (matrixRows p.rows p.batch).map m.score } := by
    rw [predict, loaded, ← wholeRows_eq whole]
    exact if_neg (by simpa using same)
  have attempted : outcome (attempt fun p => p.predict rows context) p =
      (.ok (), { p with scores := (matrixRows p.rows p.batch).map m.score }) := by
    show attempt _ p = _
    rw [attempt, step]
  show outcome (_ >>= fun _ => _) p = _
  rw [outcome_bind, attempted]
  refine congrArg (fun n => (Except.ok n, _)) ?_
  rw [List.length_map, length_matrixRows, same]

/-- A linear predictor with a model for the scoring context tells a score for each of some whole rows. -/
theorem exists_consultation (loaded : p.models[context]? = some m)
    (whole : matrix.length = rows * columns) :
    ∃ scores p', Consultation p matrix rows context (.ok scores) p' := by
  have some_model : p.models ≠ [] := by
    rintro none
    simp [none] at loaded
  refine ⟨(matrixRows rows matrix).map m.score, _, .scored (outcome_submit some_model whole)
    (outcome_predict loaded whole rfl) ?_⟩
  have count : ((matrixRows rows matrix).map m.score).length = rows := by
    rw [List.length_map, length_matrixRows]
  show (List.range rows).map (fun i => ((matrixRows rows matrix).map m.score)[i]?) = _
  generalize (matrixRows rows matrix).map m.score = scores at count ⊢
  subst count
  refine List.ext_getElem (by simp) fun i here _ => ?_
  rw [List.length_map, List.length_range] at here
  simp [here]

end Linear

namespace Context

/-! ### One batch -/

omit [Predictor π] in
/-- Reads of some indices succeed, or the first index without a score is the failure. -/
theorem outcome_mapM_read (f : Nat → Option Binary64) (fault : Nat → PredictorError) (is : List Nat)
    (p : π) :
    (∃ xs, is.map f = xs.map some ∧ outcome (is.mapM fun i => match f i with
        | some x => pure x
        | none => throw (fault i) : Attempt π (List Binary64)) p = (.ok xs, p)) ∨
      ∃ before i behind, is = before ++ i :: behind ∧ f i = none ∧ (∀ j ∈ before, f j ≠ none) ∧
        outcome (is.mapM fun i => match f i with
          | some x => pure x
          | none => throw (fault i) : Attempt π (List Binary64)) p = (.error (fault i), p) := by
  induction is with
  | nil => exact .inl ⟨[], rfl, rfl⟩
  | cons i is ih =>
    rw [List.mapM_cons, outcome_bind]
    cases first : f i with
    | none => exact .inr ⟨[], i, is, rfl, first, by simp, rfl⟩
    | some x =>
      have read : outcome (pure x : Attempt π Binary64) p = (.ok x, p) := rfl
      simp only [read, outcome_bind]
      rcases ih with ⟨xs, all, rest⟩ | ⟨before, j, behind, rfl, missing, present, rest⟩
      · refine .inl ⟨x :: xs, by rw [List.map_cons, List.map_cons, first, all], ?_⟩
        rw [rest]
        rfl
      · refine .inr ⟨i :: before, j, behind, rfl, missing, ?_, by rw [rest]⟩
        rintro k (_ | ⟨_, hk⟩)
        · rw [first]
          exact Option.some_ne_none x
        · exact present k hk

/-- Scores are read for all rows, or the first row without one is the failure. -/
theorem outcome_readScores (rows : Nat) (p : π) :
    (∃ scores, (List.range rows).map (Predictor.score? p) = scores.map some ∧
        outcome (readScores rows) p = (.ok scores, p)) ∨
      ∃ i, i < rows ∧ Predictor.score? p i = none ∧ (∀ j < i, Predictor.score? p j ≠ none) ∧
        outcome (readScores rows) p = (.error (.rowCount rows i), p) := by
  rw [readScores, outcome_bind, outcome_get]
  refine (outcome_mapM_read (Predictor.score? p) (.rowCount rows) (List.range rows) p).imp id ?_
  rintro ⟨before, i, behind, range_eq, missing, present, failed⟩
  have ascends := List.pairwise_lt_range (n := rows)
  rw [range_eq] at ascends
  have above := (List.pairwise_cons.1 (List.pairwise_append.1 ascends).2.1).1
  have short : i < rows := List.mem_range.1 (by rw [range_eq]; simp)
  refine ⟨i, short, missing, fun j hj => present j ?_, failed⟩
  have among : j ∈ before ++ i :: behind := range_eq ▸ List.mem_range.2 (Nat.lt_trans hj short)
  rcases List.mem_append.1 among with hb | hb
  · exact hb
  · rcases List.mem_cons.1 hb with rfl | hb
    · exact absurd hj (Nat.lt_irrefl _)
    · exact absurd (above j hb) (Nat.lt_asymm hj)

/-- A batch goes one of the ways, and leaves all but the state of the predictor alone. -/
theorem yields_predictBatch (c : Context π) (matrix : List Binary64) (rows : Nat) :
    ∃ r p', Consultation c.predictor matrix rows c.config.predicting.context.value.toNat r p' ∧
      Yields (predictBatch matrix rows) c (r.mapError .predictor) { c with predictor := p' } := by
  have submits := yields_onPredictor (c := c) (Predictor.submit (π := π) matrix rows)
  rcases submitted : outcome (Predictor.submit matrix rows) c.predictor with ⟨e | ⟨⟩, p₁⟩
  · rw [submitted] at submits
    exact ⟨.error e, p₁, .unsubmitted submitted, submits.bind_error⟩
  rw [submitted] at submits
  have predicts := yields_onPredictor (c := { c with predictor := p₁ })
    (Predictor.predict (π := π) rows c.config.predicting.context.value.toNat)
  rcases predicted : outcome (Predictor.predict rows c.config.predicting.context.value.toNat) p₁ with
    ⟨e | n, p'⟩
  · rw [predicted] at predicts
    exact ⟨.error e, p', .unpredicted submitted predicted,
      submits.bind (Yields.get_bind (fun _ => rfl) predicts.bind_error)⟩
  rw [predicted] at predicts
  have counts := yields_onDatabase (c := { c with predictor := p' })
    (Database.yields_refuseIf (n != rows) (.wrongScoreCount n rows) (.predictor (.rowCount rows n)))
  by_cases same : n = rows
  · subst same
    rw [if_neg (by simp)] at counts
    have reads := yields_onPredictor (c := { c with predictor := p' }) (readScores (π := π) n)
    have behind : ∀ {r : Except PredictorError (List Binary64)},
        Yields (onPredictor (readScores (π := π) n)) { c with predictor := p' } (r.mapError .predictor)
          { c with predictor := p' } → Yields (predictBatch matrix n) c (r.mapError .predictor)
            { c with predictor := p' } := fun reads =>
      submits.bind (Yields.get_bind (fun _ => rfl) (predicts.bind (counts.bind reads)))
    rcases outcome_readScores n p' with ⟨scores, read, outcome_eq⟩ |
      ⟨i, short, missing, least, outcome_eq⟩
    · rw [outcome_eq] at reads
      exact ⟨.ok scores, p', .scored submitted predicted read, behind reads⟩
    · rw [outcome_eq] at reads
      exact ⟨.error (.rowCount n i), p', .unread submitted predicted short missing least, behind reads⟩
  · rw [if_pos (by simpa using same)] at counts
    exact ⟨.error (.rowCount rows n), p', .miscounted submitted predicted same,
      submits.bind (Yields.get_bind (fun _ => rfl) (predicts.bind counts.bind_error))⟩

/-! ### Where a reduction asks -/

/-- Tells whether there are more rows than are retained, so that an eviction by score asks. -/
def exceeds : Run π Bool := do
  let c ← get
  return decide (c.config.predicting.retain.value.toNat < c.database.table.size)

/-- Goes with an eviction behind a scan that found candidates up to where it asks for scores. -/
def asksBehind (plan : ScanPlan) : Run π Bool := do
  onDatabase (Database.settleTable plan)
  if plan.byScore then exceeds else return false

/-- Goes with an eviction from a start up to where it asks for scores. -/
def asksFrom (start : Reference) : Run π Bool := do
  let c ← get
  let plan := ScanPlan.ofConfig c.config c.counters.conflicts c.counters.lastReduction
  let candidates ← onDatabase (Database.scan plan start)
  if candidates.isEmpty then return false else asksBehind plan

/-- Goes with the flagging of some reasons, and an eviction from a start, up to where it asks. -/
def asksAround (start : Reference) (reasons : List Reference) : Run π Bool := do
  reasons.forM fun r => onDatabase (Database.setReason r true)
  asksFrom start

/-- Goes with a reduction from a start up to where it asks for scores. -/
def asksWithin (start : Reference) (search : Snapshot) : Run π Bool :=
  if search.inconsistent then return false
  else asksAround start (search.reasons.filter fun r => decide (start ≤ r))

/-- Goes with a reduction up to where it asks for scores, and tells whether it does. -/
def asks (search : Snapshot) : Run π Bool := do
  let whole ← compacting search
  let start := (← get).scanStart whole
  if start.isValid then asksWithin start search else return false

end Context

/-- A result that is no failure of the predictor. -/
def Quiet {α : Type} (r : Except Error α) : Prop := ∀ e, r ≠ .error (.predictor e)

open Context in
/-- What a part of a reduction comes to, and the state of the predictor behind it, where some steps go
with it up to where it asks for scores. -/
inductive Consulting {α : Type} (near : Run π Bool) (c : Context π) :
    Except Error α → π → Prop where
  /-- no scores are asked for -/
  | unasked {b : Except Error Bool} {d : Context π} {r : Except Error α} (reached : Yields near c b d)
    (away : b ≠ .ok true) (quiet : Quiet r) : Consulting near c r c.predictor
  /-- the predictor fails -/
  | failed {d : Context π} {matrix : List (List Binary64)} {e : PredictorError} {p' : π}
    (reached : Yields near c (.ok true) d)
    (features : Yields (Database.featureMatrix c.counters.conflicts) d.database (.ok matrix) d.database)
    (length_eq : matrix.length = d.database.table.size)
    (many : c.config.predicting.retain.value.toNat < d.database.table.size)
    (consultation : Consultation c.predictor matrix.flatten matrix.length
      c.config.predicting.context.value.toNat (.error e) p') :
    Consulting near c (.error (.predictor e)) (Predictor.finish p')
  /-- the rows are scored -/
  | scored {d : Context π} {matrix : List (List Binary64)} {scores : List Binary64} {p' : π}
    {r : Except Error α} (reached : Yields near c (.ok true) d)
    (features : Yields (Database.featureMatrix c.counters.conflicts) d.database (.ok matrix) d.database)
    (length_eq : matrix.length = d.database.table.size)
    (many : c.config.predicting.retain.value.toNat < d.database.table.size)
    (consultation : Consultation c.predictor matrix.flatten matrix.length
      c.config.predicting.context.value.toNat (.ok scores) p')
    (quiet : Quiet r) : Consulting near c r (Predictor.finish p')

namespace Consulting

variable {α β : Type} {near near' : Run π Bool} {c c' : Context π} {r : Except Error α}
  {r' : Except Error β} {p : π}

/-- A larger part of a reduction comes to the same, where it leads to the smaller one and passes on a
failure of the predictor. -/
theorem within (h : Consulting near c r p) (config_eq : c'.config = c.config)
    (counters_eq : c'.counters = c.counters) (predictor_eq : c'.predictor = c.predictor)
    (leads : ∀ {b d}, Yields near c b d → Yields near' c' b d)
    (passes : ∀ e, r = .error (.predictor e) → r' = .error (.predictor e)) (quiet : Quiet r → Quiet r') :
    Consulting near' c' r' p := by
  cases h with
  | unasked reached away hushed =>
    rw [← predictor_eq]
    exact .unasked (leads reached) away (quiet hushed)
  | failed reached features length_eq many consultation =>
    rw [passes _ rfl]
    rw [← counters_eq] at features
    rw [← config_eq] at many
    rw [← config_eq, ← predictor_eq] at consultation
    exact .failed (leads reached) features length_eq many consultation
  | scored reached features length_eq many consultation hushed =>
    rw [← counters_eq] at features
    rw [← config_eq] at many
    rw [← config_eq, ← predictor_eq] at consultation
    exact .scored (leads reached) features length_eq many consultation (quiet hushed)

end Consulting

end ClauseStore
