import Mathlib.Data.Set.List
import ClauseStore.Proofs.Consultation

/-!
Sessions with a predictor of linear models. A session is a list of calls, in any order, and each call
has an answer. What a call does to the predictor is one of six changes, and of these only a load that
succeeds touches the models, only a submission that succeeds the batch, and only a prediction that
succeeds the scores; a release forgets batch and scores, and a call that fails changes nothing. So the
models are loaded once, all or none, the batch that a prediction is about is the one submitted last, and
the scores are those of the last prediction, whatever other calls are made in between.
-/

namespace ClauseStore

/-- A call of a predictor. -/
inductive Call where
  | setup
  | load (files : List ModelFile)
  | submit (matrix : List Binary64) (rows : Nat)
  | predict (rows context : Nat)
  | score (index : Nat)
  | finish

/-- What a call answers. -/
inductive Reply where
  | done (result : Except PredictorError Unit)
  | counted (result : Except PredictorError Nat)
  | score (value : Option Binary64)
  | released
  deriving DecidableEq

/-- A call with its answer. -/
structure Exchange where
  call : Call
  reply : Reply

namespace Exchange

/-- Whether models are loaded. -/
def loads : Exchange → Bool
  | ⟨.load _, .done (.ok ())⟩ => true
  | _ => false

/-- Whether a batch is taken. -/
def submits : Exchange → Bool
  | ⟨.submit .., .done (.ok ())⟩ => true
  | _ => false

/-- Whether scores are made. -/
def predicts : Exchange → Bool
  | ⟨.predict .., .counted (.ok _)⟩ => true
  | _ => false

/-- Whether batch and scores are released. -/
def releases : Exchange → Bool
  | ⟨.finish, _⟩ => true
  | _ => false

end Exchange

namespace Predictor

variable {π : Type} [Predictor π]

/-- Makes a call: its answer, and the predictor behind it. -/
def call (p : π) : Call → Reply × π
  | .setup => (outcome setup p).map .done id
  | .load files => (outcome (load files) p).map .done id
  | .submit matrix rows => (outcome (submit matrix rows) p).map .done id
  | .predict rows context => (outcome (predict rows context) p).map .counted id
  | .score i => (.score (score? p i), p)
  | .finish => (.released, finish p)

/-- The predictor behind some calls. -/
def after (p : π) (calls : List Call) : π := calls.foldl (fun p c => (call p c).2) p

/-- Some calls with their answers. -/
def exchanges (p : π) : List Call → List Exchange
  | [] => []
  | c :: calls => ⟨c, (call p c).1⟩ :: exchanges (call p c).2 calls

end Predictor

namespace Linear

open Predictor (call after exchanges)

variable {p q : Linear} {c : Call} {x : Exchange} {files : List ModelFile} {models : List Model}
  {matrix : List Binary64} {rows context : Nat}

/-! ### What a call does -/

/-- Models are read from files if each of them holds one. -/
theorem modelsOf_eq_ok : modelsOf files = .ok models ↔ files.map Model.ofFile = models.map .ok := by
  induction files generalizing models with
  | nil => cases models <;> simp [modelsOf]
  | cons f files ih =>
    cases read : Model.ofFile f with
    | error e => cases models <;> simp [modelsOf, bind, Except.bind, read]
    | ok m =>
      cases rest : modelsOf files with
      | error e => cases models <;> simp [modelsOf, bind, Except.bind, read, rest, ← ih]
      | ok ms => cases models <;> simp [modelsOf, bind, Except.bind, read, rest, ← ih]

/-- A load needs a predictor that is set up and has no models yet, and from one to three files, each of
which holds a model. -/
theorem load_eq_ok : p.load files = .ok q ↔ p.ready = true ∧ p.models = [] ∧ 1 ≤ files.length ∧
    files.length ≤ 3 ∧ ∃ models, files.map Model.ofFile = models.map .ok ∧ q = { p with models } := by
  simp only [← modelsOf_eq_ok]
  have counted : (files.isEmpty || decide (maxContexts < files.length)) = true ↔
      ¬ (1 ≤ files.length ∧ files.length ≤ 3) := by
    rw [Bool.or_eq_true, decide_eq_true_iff, List.isEmpty_iff_length_eq_zero, maxContexts]
    omega
  rw [load]
  by_cases ready : p.ready = true
  · by_cases unloaded : p.models = []
    · by_cases few : 1 ≤ files.length ∧ files.length ≤ 3
      · rw [if_neg (by simpa using ready), if_neg (by simpa using unloaded),
          if_neg (mt counted.1 (not_not_intro few))]
        cases modelsOf files <;> simp [ready, unloaded, few, Except.map, eq_comm]
      · rw [if_neg (by simpa using ready), if_neg (by simpa using unloaded), if_pos (counted.2 few)]
        simp only [reduceCtorEq, false_iff]
        exact fun ⟨_, _, least, most, _⟩ => few ⟨least, most⟩
    · simp [ready, unloaded]
  · simp [ready]

theorem submit_eq_ok : p.submit matrix rows = .ok q ↔
    p.models ≠ [] ∧ matrix.length = rows * columns ∧ q = { p with batch := matrix, rows } := by
  rw [submit]
  by_cases unloaded : p.models = []
  · simp [unloaded]
  · by_cases whole : matrix.length = rows * columns
    · rw [if_neg (by simpa using unloaded), if_neg (not_not_intro whole)]
      simp [unloaded, whole, eq_comm]
    · simp [unloaded, whole]

theorem predict_eq_ok : p.predict rows context = .ok q ↔ ∃ m, p.models[context]? = some m ∧
    rows = p.rows ∧ q = { p with scores := (wholeRows p.batch).map m.score } := by
  rw [predict]
  cases p.models[context]? with
  | none => simp
  | some m => by_cases same : rows = p.rows <;> simp [same, eq_comm]

theorem call_load (p : Linear) (files : List ModelFile) : call p (.load files) =
    match p.load files with
    | .ok q => (.done (.ok ()), q)
    | .error e => (.done (.error e), p) := by
  show (attempt (fun p => p.load files) p).map Reply.done id = _
  rw [attempt]
  cases p.load files <;> rfl

theorem call_submit (p : Linear) (matrix : List Binary64) (rows : Nat) :
    call p (.submit matrix rows) =
      match p.submit matrix rows with
      | .ok q => (.done (.ok ()), q)
      | .error e => (.done (.error e), p) := by
  show (attempt (fun p => p.submit matrix rows) p).map Reply.done id = _
  rw [attempt]
  cases p.submit matrix rows <;> rfl

theorem call_predict (p : Linear) (rows context : Nat) :
    call p (.predict rows context) =
      match p.predict rows context with
      | .ok q => (.counted (.ok q.scores.length), q)
      | .error e => (.counted (.error e), p) := by
  show (outcome (attempt (fun p => p.predict rows context) >>= fun _ => _) p).map Reply.counted id = _
  rw [outcome_bind, outcome, attempt]
  cases p.predict rows context <;> rfl

/-- What a call can do to a predictor. -/
inductive Change (p : Linear) (x : Exchange) : Linear → Prop
  | idle : Change p x p
  | readied : Change p x { p with ready := true }
  | loaded {models : List Model} (loads : x.loads = true) (none : p.models = []) (few : models.length ≤ 3) :
    Change p x { p with models }
  | submitted {matrix : List Binary64} {rows : Nat} (submits : x.submits = true)
    (whole : matrix.length = rows * columns) : Change p x { p with batch := matrix, rows }
  | predicted {m : Model} (predicts : x.predicts = true) :
    Change p x { p with scores := (wholeRows p.batch).map m.score }
  | released (releases : x.releases = true) : Change p x { p with batch := [], rows := 0, scores := [] }

theorem change_call (p : Linear) (c : Call) : Change p ⟨c, (call p c).1⟩ (call p c).2 := by
  cases c with
  | setup => exact .readied
  | load files =>
    rw [call_load]
    cases loaded : p.load files with
    | error e => exact .idle
    | ok q =>
      obtain ⟨-, none, -, few, models, read, rfl⟩ := load_eq_ok.1 loaded
      have count : models.length = files.length := by simpa using (congrArg List.length read).symm
      exact .loaded rfl none (count ▸ few)
  | submit matrix rows =>
    rw [call_submit]
    cases taken : p.submit matrix rows with
    | error e => exact .idle
    | ok q =>
      obtain ⟨-, whole, rfl⟩ := submit_eq_ok.1 taken
      exact .submitted rfl whole
  | predict rows context =>
    rw [call_predict]
    cases made : p.predict rows context with
    | error e => exact .idle
    | ok q =>
      obtain ⟨m, -, -, rfl⟩ := predict_eq_ok.1 made
      exact .predicted rfl
  | score i => exact .idle
  | finish => exact .released rfl

/-- What every change keeps that comes with an answer of some kind, some calls with such answers keep. -/
theorem after_keeps {I : Linear → Prop} {Q : Exchange → Prop}
    (step : ∀ {p x q}, Change p x q → Q x → I p → I q) {p : Linear} (calls : List Call)
    (all : ∀ x ∈ exchanges p calls, Q x) (h : I p) : I (after p calls) := by
  induction calls generalizing p with
  | nil => exact h
  | cons c calls ih =>
    rw [exchanges, List.forall_mem_cons] at all
    exact ih all.2 (step (change_call p c) all.1 h)

/-! ### What calls keep -/

theorem models_after (loaded : p.models ≠ []) (calls : List Call) :
    (after p calls).models = p.models := by
  refine after_keeps (I := fun q => q.models = p.models) (Q := fun _ => True) ?_ calls (by simp) rfl
  rintro p' x q change - kept
  cases change with
  | loaded loads none few => exact absurd (kept.symm.trans none) loaded
  | _ => exact kept

theorem length_models_after (few : p.models.length ≤ 3) (calls : List Call) :
    (after p calls).models.length ≤ 3 := by
  refine after_keeps (I := fun q => q.models.length ≤ 3) (Q := fun _ => True) ?_ calls (by simp) few
  rintro p' x q change - kept
  cases change with
  | loaded loads none few => exact few
  | _ => exact kept

/-- Without a load that succeeds there are still no models. -/
theorem models_after_eq_nil (unloaded : p.models = []) {calls : List Call}
    (loads : ∀ x ∈ exchanges p calls, x.loads = false) : (after p calls).models = [] := by
  refine after_keeps (I := fun q => q.models = []) ?_ calls loads unloaded
  rintro p' x q change others kept
  cases change with
  | loaded loads => exact absurd loads (by simp [others])
  | _ => exact kept

/-- The batch stays up to the next submission that succeeds, or the next release. -/
theorem batch_after {calls : List Call}
    (others : ∀ x ∈ exchanges p calls, x.submits = false ∧ x.releases = false) :
    (after p calls).batch = p.batch ∧ (after p calls).rows = p.rows := by
  refine after_keeps (I := fun q => q.batch = p.batch ∧ q.rows = p.rows) ?_ calls others ⟨rfl, rfl⟩
  rintro p' x q change others kept
  cases change with
  | submitted submits => exact absurd submits (by simp [others.1])
  | released releases => exact absurd releases (by simp [others.2])
  | _ => exact kept

/-- The scores stay up to the next prediction that succeeds, or the next release. -/
theorem scores_after {calls : List Call}
    (others : ∀ x ∈ exchanges p calls, x.predicts = false ∧ x.releases = false) :
    (after p calls).scores = p.scores := by
  refine after_keeps (I := fun q => q.scores = p.scores) ?_ calls others rfl
  rintro p' x q change others kept
  cases change with
  | predicted predicts => exact absurd predicts (by simp [others.1])
  | released releases => exact absurd releases (by simp [others.2])
  | _ => exact kept

/-- A predictor without a batch has no scores either, up to the next submission that succeeds. -/
theorem scores_after_eq_nil (empty : p.rows = 0 ∧ p.batch = [] ∧ p.scores = []) {calls : List Call}
    (others : ∀ x ∈ exchanges p calls, x.submits = false) :
    (after p calls).rows = 0 ∧ (after p calls).batch = [] ∧ (after p calls).scores = [] := by
  refine after_keeps (I := fun q => q.rows = 0 ∧ q.batch = [] ∧ q.scores = []) ?_ calls others empty
  rintro p' x q change others kept
  cases change with
  | submitted submits => exact absurd submits (by simp [others])
  | predicted => exact ⟨kept.1, kept.2.1, by rw [kept.2.1]; rfl⟩
  | released => exact ⟨rfl, rfl, rfl⟩
  | _ => exact kept

/-- The batch is as many whole rows as it was handed over as. -/
def Whole (p : Linear) : Prop := p.batch.length = p.rows * columns

/-- It stays so: a batch that is not is refused, and a release leaves no row. -/
theorem whole_after (whole : p.Whole) (calls : List Call) : (after p calls).Whole := by
  refine after_keeps (I := Whole) (Q := fun _ => True) ?_ calls (by simp) whole
  rintro p' x q change - kept
  cases change with
  | submitted _ whole => exact whole
  | released => exact (Nat.zero_mul columns).symm
  | _ => exact kept

/-- So a prediction that succeeds tells as many scores as the rows that it was asked for. -/
theorem count_of_predict (whole : p.Whole) {n : Nat}
    (made : call p (.predict rows context) = (.counted (.ok n), q)) : n = rows := by
  rw [call_predict] at made
  cases step : p.predict rows context with
  | error e => simp [step] at made
  | ok q' =>
    obtain ⟨m, -, same, rfl⟩ := predict_eq_ok.1 step
    rw [step] at made
    simp only [Prod.mk.injEq, Reply.counted.injEq, Except.ok.injEq] at made
    rw [← made.1, List.length_map, wholeRows_eq whole, length_matrixRows, same]

/-! ### The protocol -/

/-- The rows of a matrix are its chunks, one for each column of features. -/
theorem getElem?_matrixRows (rows : Nat) (xs : List Binary64) (i : Nat) :
    (matrixRows rows xs)[i]? =
      if i < rows then some ((xs.drop (i * columns)).take columns) else none := by
  induction rows generalizing xs i with
  | zero => rfl
  | succ rows ih =>
    cases i with
    | zero => simp [matrixRows]
    | succ i =>
      rw [matrixRows, List.getElem?_cons_succ, ih, List.drop_drop, Nat.succ_mul, Nat.add_comm columns]
      simp

/-- What can be relied on from a state of the predictor on, whatever calls come next. -/
structure Protocol (p : Linear) : Prop where
  /-- once there are models there are one to three of them, and they stay -/
  models : p.models ≠ [] → 1 ≤ p.models.length ∧ p.models.length ≤ 3 ∧
    ∀ calls, (after p calls).models = p.models
  /-- a load is refused before the set-up, once there are models, for no file and for more than three,
  and where any of the files holds no model -/
  load_iff : ∀ files, (call p (.load files)).1 = .done (.ok ()) ↔ p.ready = true ∧ p.models = [] ∧
    1 ≤ files.length ∧ files.length ≤ 3 ∧ ∀ f ∈ files, ∃ m, Model.ofFile f = .ok m
  /-- a load that succeeds loads the model of each file, in order -/
  load_ok : ∀ files q, call p (.load files) = (.done (.ok ()), q) →
    ∃ models, files.map Model.ofFile = models.map .ok ∧ q = { p with models }
  load_error : ∀ files e q, call p (.load files) = (.done (.error e), q) → q = p
  /-- a load that fails does not keep a later one from succeeding -/
  reload : p.models = [] → ∀ files e q, call p (.load files) = (.done (.error e), q) →
    ∀ calls, (∀ x ∈ exchanges q calls, x.loads = false) → (after q calls).ready = true →
    ∀ files models, 1 ≤ files.length → files.length ≤ 3 → files.map Model.ofFile = models.map .ok →
      call (after q calls) (.load files) = (.done (.ok ()), { after q calls with models })
  submit_error : ∀ matrix rows e q, call p (.submit matrix rows) = (.done (.error e), q) → q = p
  predict_error : ∀ rows context e q, call p (.predict rows context) = (.counted (.error e), q) → q = p
  /-- a batch can be scored until another one is taken or it is released, and the scores can be read
  until others are made or they are released -/
  scored : ∀ matrix rows q, call p (.submit matrix rows) = (.done (.ok ()), q) →
    ∀ calls, (∀ x ∈ exchanges q calls, x.submits = false ∧ x.releases = false) →
    ∀ context m, (after q calls).models[context]? = some m →
    (call (after q calls) (.predict rows context)).1 = .counted (.ok rows) ∧
    ∀ calls', (∀ x ∈ exchanges (call (after q calls) (.predict rows context)).2 calls',
        x.predicts = false ∧ x.releases = false) →
    ∀ i, (call (after (call (after q calls) (.predict rows context)).2 calls') (.score i)).1 =
      .score (if i < rows then some (m.score ((matrix.drop (i * columns)).take columns)) else none)
  /-- behind a release there is nothing to score and no score to read, until a batch is taken -/
  released : ∀ calls, (∀ x ∈ exchanges (call p .finish).2 calls, x.submits = false) →
    (∀ i, (call (after (call p .finish).2 calls) (.score i)).1 = .score none) ∧
    ∀ rows context, rows ≠ 0 →
      ∃ e, (call (after (call p .finish).2 calls) (.predict rows context)).1 = .counted (.error e)

/-- How a predictor begins: fresh, or with its models loaded already. -/
inductive Begun : Linear → Prop
  | fresh : Begun {}
  | loaded {models : List Model} {p : Linear} (loaded : ofModels models = .ok p) : Begun p

theorem Begun.length_models (h : Begun p) : p.models.length ≤ 3 := by
  cases h with
  | fresh => exact Nat.zero_le 3
  | @loaded models _ loaded =>
    rw [ofModels] at loaded
    split at loaded
    · cases loaded
    · rename_i few
      cases loaded
      rw [Bool.or_eq_true, decide_eq_true_iff, not_or] at few
      exact Nat.le_of_not_lt few.2

theorem Begun.whole (h : Begun p) : p.Whole := by
  cases h with
  | fresh => exact (Nat.zero_mul columns).symm
  | @loaded models _ loaded =>
    rw [ofModels] at loaded
    split at loaded
    · cases loaded
    · cases loaded
      exact (Nat.zero_mul columns).symm

theorem call_load_eq_ok : call p (.load files) = (.done (.ok ()), q) ↔ p.load files = .ok q := by
  rw [call_load]
  cases p.load files <;> simp

theorem call_load_eq_error {e : PredictorError} :
    call p (.load files) = (.done (.error e), q) ↔ p.load files = .error e ∧ q = p := by
  rw [call_load]
  cases p.load files <;> simp [eq_comm]

theorem call_submit_eq_ok :
    call p (.submit matrix rows) = (.done (.ok ()), q) ↔ p.submit matrix rows = .ok q := by
  rw [call_submit]
  cases p.submit matrix rows <;> simp

theorem call_submit_eq_error {e : PredictorError} :
    call p (.submit matrix rows) = (.done (.error e), q) ↔ p.submit matrix rows = .error e ∧ q = p := by
  rw [call_submit]
  cases p.submit matrix rows <;> simp [eq_comm]

theorem call_predict_eq_error {e : PredictorError} :
    call p (.predict rows context) = (.counted (.error e), q) ↔
      p.predict rows context = .error e ∧ q = p := by
  rw [call_predict]
  cases p.predict rows context <;> simp [eq_comm]

/-- The batch that was submitted is scored, row by row, whatever calls are made before and after. -/
theorem scored_of_submitted {m : Model} (taken : call p (.submit matrix rows) = (.done (.ok ()), q))
    {calls : List Call} (others : ∀ x ∈ exchanges q calls, x.submits = false ∧ x.releases = false)
    (model : (after q calls).models[context]? = some m) :
    ∃ q', call (after q calls) (.predict rows context) = (.counted (.ok rows), q') ∧
      q'.scores = (matrixRows rows matrix).map m.score := by
  obtain ⟨-, whole, q_eq⟩ := submit_eq_ok.1 (call_submit_eq_ok.1 taken)
  have batch_eq : (after q calls).batch = matrix := by rw [(batch_after others).1, q_eq]
  have rows_eq : (after q calls).rows = rows := by rw [(batch_after others).2, q_eq]
  have made := predict_eq_ok.2 ⟨m, model, rows_eq.symm, rfl⟩
  rw [batch_eq, wholeRows_eq whole] at made
  refine ⟨{ after q calls with scores := (matrixRows rows matrix).map m.score }, ?_, rfl⟩
  rw [call_predict, made]
  simp [length_matrixRows, batch_eq]

theorem protocol_of_few (few : p.models.length ≤ 3) : Protocol p where
  models loaded := ⟨List.length_pos_iff.2 loaded, few, models_after loaded⟩
  load_iff files := by
    constructor
    · intro ok
      obtain ⟨ready, none, least, most, models, read, -⟩ :=
        load_eq_ok.1 (call_load_eq_ok.1 (Prod.ext ok rfl : call p (.load files) = (_, _)))
      refine ⟨ready, none, least, most, fun f hf => ?_⟩
      obtain ⟨m, -, hm⟩ := List.mem_map.1 (read ▸ List.mem_map_of_mem hf)
      exact ⟨m, hm.symm⟩
    · rintro ⟨ready, none, least, most, read⟩
      have held : files.map Model.ofFile ∈ {rs | ∀ r ∈ rs, r ∈ Set.range Except.ok} := by
        rintro r hr
        obtain ⟨f, hf, rfl⟩ := List.mem_map.1 hr
        exact (read f hf).imp fun _ h => h.symm
      rw [← Set.range_list_map] at held
      obtain ⟨models, read⟩ := held
      rw [call_load, load_eq_ok.2 ⟨ready, none, least, most, models, read.symm, rfl⟩]
  load_ok files q ok := by
    obtain ⟨-, -, -, -, models, read, rfl⟩ := load_eq_ok.1 (call_load_eq_ok.1 ok)
    exact ⟨models, read, rfl⟩
  load_error files e q failed := (call_load_eq_error.1 failed).2
  reload none files e q failed calls loads ready again models least most read := by
    obtain ⟨-, rfl⟩ := call_load_eq_error.1 failed
    exact call_load_eq_ok.2
      (load_eq_ok.2 ⟨ready, models_after_eq_nil none loads, least, most, models, read, rfl⟩)
  submit_error matrix rows e q failed := (call_submit_eq_error.1 failed).2
  predict_error rows context e q failed := (call_predict_eq_error.1 failed).2
  scored matrix rows q taken calls others context m model := by
    obtain ⟨q', made, scores_eq⟩ := scored_of_submitted taken others model
    rw [made]
    refine ⟨rfl, fun calls' others' i => ?_⟩
    show Reply.score (Predictor.after q' calls').scores[i]? = _
    rw [scores_after others', scores_eq, List.getElem?_map, getElem?_matrixRows]
    split <;> rfl
  released calls others := by
    obtain ⟨rows_eq, -, scores_eq⟩ := scores_after_eq_nil ⟨rfl, rfl, rfl⟩ others
    constructor
    · intro i
      show Reply.score (after (call p .finish).2 calls).scores[i]? = _
      rw [scores_eq]
      rfl
    · intro rows context nonzero
      rw [call_predict]
      cases made : (after (call p .finish).2 calls).predict rows context with
      | error e => exact ⟨e, rfl⟩
      | ok q =>
        obtain ⟨m, -, same, -⟩ := predict_eq_ok.1 made
        exact absurd (same.trans rows_eq) nonzero

/-- Whatever calls a predictor has taken from its beginning on, it keeps to the protocol. -/
theorem protocol_holds (begun : Begun p) (calls : List Call) : Protocol (after p calls) :=
  protocol_of_few (length_models_after begun.length_models calls)

/-- Whatever calls a predictor has taken from its beginning on, a prediction tells as many scores as the
rows that it was asked for. -/
theorem predicted_count (begun : Begun p) (calls : List Call) {n : Nat}
    (made : call (after p calls) (.predict rows context) = (.counted (.ok n), q)) : n = rows :=
  count_of_predict (whole_after begun.whole calls) made

/-- A file with the model that takes one from the first feature. -/
def firstFeature : ModelFile := .holding "1 0 0 0 0 0 0 0 0 0 0 0 # weights\n-1".toUTF8

/-- A file with the model that halves the last feature. -/
def halvedFeature : ModelFile := .holding "0 0 0 0 0 0 0 0 0 0 0 .5\n0".toUTF8

/-- Models are asked for too early, then from a file that is there and one that is not, then from two
files. -/
def loadingCalls : List Call :=
  [.load [firstFeature], .setup, .load [firstFeature, .failing .notFound],
    .load [firstFeature, halvedFeature]]

/-- Two rows, with a four in the last column of the first row, and a six in that of the second. -/
def batchOfTwo : List Binary64 :=
  List.replicate 11 .zero ++ ⟨0x4010000000000000⟩ :: List.replicate 11 .zero ++ [⟨0x4018000000000000⟩]

/-- A predictor with two models, loaded by the last of four calls. -/
def loadedPair : Linear := after {} loadingCalls

/-- Calls that leave a batch as it is: each of them is refused. -/
def refusedCalls : List Call :=
  [.submit batchOfTwo 3, .predict 2 2, .load [.failing .permissionDenied], .predict 1 0]

/-- Both models are loaded, and refused calls do not touch the batch. The scores outlast another batch
and a prediction that is refused. -/
theorem protocol_holds_loadedPair :
    Begun {} ∧ Protocol loadedPair ∧
      ∃ q, call loadedPair (.submit batchOfTwo 2) = (.done (.ok ()), q) ∧
        (call (after q refusedCalls) (.predict 2 1)).1 = .counted (.ok 2) ∧
        (call (after (call (after q refusedCalls) (.predict 2 1)).2
          [.submit [] 0, .predict 2 0]) (.score 1)).1 = .score (some ⟨0x4008000000000000⟩) := by
  have protocol : Protocol loadedPair := protocol_holds .fresh loadingCalls
  have taken : call loadedPair (.submit batchOfTwo 2) =
      (.done (.ok ()), { loadedPair with batch := batchOfTwo, rows := 2 }) := by decide +kernel
  obtain ⟨made, scored⟩ := protocol.scored batchOfTwo 2 _ taken refusedCalls (by decide +kernel) 1
    ⟨List.replicate 11 .zero ++ [⟨0x3FE0000000000000⟩], .zero⟩ (by decide +kernel)
  refine ⟨.fresh, protocol, _, taken, made, ?_⟩
  rw [scored [.submit [] 0, .predict 2 0] (by decide +kernel) 1]
  decide +kernel

end Linear

end ClauseStore
