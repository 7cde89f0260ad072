import ClauseStore.Proofs.Operation

/-!
The scan of a reduction. What a reduction does to the end of its scan is told apart from what follows, so
that it can be said whether the scan finds a candidate, and in which state it leaves the table. Where it
finds one, features are told first and deletions after them, whether or not the eviction fails later;
where it finds none, or the reduction ends before its scan, nothing is told.
-/

namespace ClauseStore

open Cell Database

namespace Context

variable {π : Type}

/-- Goes with a reduction to the end of its scan, and returns the candidates that are found; there are
none where the reduction ends before. -/
def survey (search : Snapshot) : Run π (List Candidate) := do
  let whole ← compacting search
  let start := (← get).scanStart whole
  if start.isValid && !search.inconsistent then
    (search.reasons.filter fun r => decide (start ≤ r)).forM fun r =>
      onDatabase (Database.setReason r true)
    let c ← get
    onDatabase (Database.scan
      (.ofConfig c.config c.counters.conflicts c.counters.lastReduction) start)
  else return []

/-- The candidates that the scan of a reduction finds. -/
def finds (c : Context π) (search : Snapshot) : List Candidate :=
  match (outcome (survey search) c.readied).1 with
  | .ok candidates => candidates
  | .error _ => []

/-- The table as the scan of a reduction leaves it. -/
def scannedTable (c : Context π) (search : Snapshot) : Table :=
  (outcome (survey search) c.readied).2.database.table

variable {c : Context π} {search : Snapshot} {cs xs ys : List Cell}

theorem yields_survey_away (away : ¬ c.Proceeds search) : Yields (survey search) c (.ok []) c := by
  refine (yields_compacting c search).bind (Yields.get_bind (fun _ => rfl) ?_)
  have ends : ¬ ((c.scanStart (c.whole search)).isValid && !search.inconsistent) = true := by
    rw [Bool.and_eq_true, Bool.not_eq_true']
    exact away
  dsimp only
  rw [if_neg ends]
  exact yields_pure _ _

/-- A reduction that does not end before flags reasons and scans. -/
theorem yields_survey_begun {r : Except Error (List Candidate)} {d : Context π}
    (proceeds : c.Proceeds search)
    (rest : Yields (do
      onDatabase ((c.protects search).forM fun r => Database.setReason r true)
      let d ← get
      onDatabase (Database.scan
        (.ofConfig d.config d.counters.conflicts d.counters.lastReduction)
        (c.scanStart (c.whole search)))) c r d) : Yields (survey search) c r d := by
  refine (yields_compacting c search).bind (Yields.get_bind (fun _ => rfl) ?_)
  have begins : ((c.scanStart (c.whole search)).isValid && !search.inconsistent) = true := by
    rw [proceeds.1, proceeds.2]
    rfl
  dsimp only
  rw [if_pos begins, forM_onDatabase]
  exact rest

/-- The scan is a pass over the cells behind its start, if all reasons can be flagged. -/
theorem yields_survey (h : c.database.Holds cs) (proceeds : c.Proceeds search)
    (named : ∀ r ∈ c.protects search, ∃ d, At 0 cs r.offset d)
    (split : flagged true (c.protects search) cs = xs ++ ys)
    (start : (c.scanStart (c.whole search)).offset = extents xs)
    {pass : Except Error ScanProgress × List Cell × Table}
    (passed : c.plan.scanCells (extents xs) ys (tableFor c.plan c.database.table) {} = pass) :
    Yields (survey search) c ((c.database.laid (xs ++ ys)).scanned xs pass).1
      { c with database := ((c.database.laid (xs ++ ys)).scanned xs pass).2 } := by
  have flags := yields_forM_setReason h true named
  have flagged_holds := h.of_core (core_flagged true (c.protects search) cs)
  rw [split] at flags flagged_holds
  have scans := yields_scan c.plan flagged_holds.tiled start passed
  exact yields_survey_begun proceeds
    ((yields_onDatabase flags).bind (Yields.get_bind (fun _ => rfl) (yields_onDatabase scans)))

/-- A reason that stands for no clause ends a reduction before its scan. -/
theorem exists_survey_barred (h : c.database.Holds cs) (proceeds : c.Proceeds search)
    (addressed : ∀ r ∈ search.reasons, c.database.Addresses r)
    (stray : ∃ r ∈ c.protects search, ¬ ∃ d, At 0 cs r.offset d) :
    ∃ d, Yields (survey search) c (.error (.arena .invalidReference)) d := by
  have places : ∀ r ∈ c.protects search,
      (∃ d, At 0 cs r.offset d) ∨ c.database.arena.resolve? r = none :=
    fun r hr => (addressed r (List.mem_filter.1 hr).1).imp h.tiled.mem_walk.1 id
  obtain ⟨done, -, -, -, -, -, flags⟩ := yields_forM_setReason_error h true places stray
  exact ⟨_, yields_survey_begun proceeds (yields_onDatabase flags).bind_error⟩

end Context

/-! ### What a reduction tells -/

/-- What the scan of a reduction comes to, and what the reduction tells. -/
inductive Surveyed {π : Type} (c : Context π) (search : Snapshot) (cs : List Cell) (db : Database) :
    Prop where
  /-- no candidate is found, or the reduction ends before its scan -/
  | fruitless {r : Except Error (List Candidate)} {d : Context π}
    (reached : Yields (Context.survey search) c r d)
    (none : ∀ candidates, r = .ok candidates → candidates = [])
    (silent : db.events = c.database.events)
  /-- some candidates are found -/
  | fruitful {xs ys zs cs' : List Cell} {t t' : Table} {p : ScanProgress} {ms : List Placed}
    {d : Context π} (split : flagged true (c.protects search) cs = xs ++ ys)
    (start : (c.scanStart (c.whole search)).offset = extents xs)
    (pass : c.plan.scanCells (extents xs) ys (tableFor c.plan c.database.table) {} = (.ok p, zs, t))
    (reached : Yields (Context.survey search) c (.ok p.candidates.toList) d)
    (some : p.candidates.toList ≠ []) (table_eq : d.database.table = t)
    (settled : Settlement c.plan xs ys c.database.table p cs' t')
    (told : db.events.toList =
      c.database.events.toList ++ c.plan.exports c.database.exporting cs' t' ++ deletions ms)

namespace Eviction

variable {π : Type} {c : Context π} {search : Snapshot} {cs xs ys ds : List Cell} {db db' : Database}
  {r : Except Error (Option Nat)}

/-- What an eviction tells is settled by its scan. -/
theorem surveyed (h : Eviction c.plan c.config.reducing.fraction.value xs ys
      (c.database.laid (xs ++ ys)) r db ds) (holds : c.database.Holds cs)
    (proceeds : c.Proceeds search) (named : ∀ r ∈ c.protects search, ∃ d, At 0 cs r.offset d)
    (split : flagged true (c.protects search) cs = xs ++ ys)
    (start : (c.scanStart (c.whole search)).offset = extents xs) (same : db'.events = db.events) :
    Surveyed c search cs db' := by
  cases h with
  | failed pass =>
    exact .fruitless (Context.yields_survey holds proceeds named split start pass) nofun same
  | idle pass fruitless =>
    refine .fruitless (Context.yields_survey holds proceeds named split start pass) ?_ ?_
    · rintro candidates ⟨⟩
      exact fruitless
    · rw [same, settledBehind, telling_nil]
      rfl
  | @unscored p zs t es _ settled byScore told found =>
    obtain ⟨us, u, pass⟩ := settled.pass
    have reached := Context.yields_survey holds proceeds named split start pass
    have events_eq : db'.events.toList = c.database.events.toList ++
        c.plan.exports c.database.exporting ds t ++ deletions [] := by
      rw [same, told]
      simp [settledBehind, telling, laid, placed, deletions]
    exact .fruitful split start pass reached found rfl settled events_eq
  | @removed p zs t t' es ms n settled keys_eq told markable offers rows behind count found =>
    obtain ⟨us, u, pass⟩ := settled.pass
    have reached := Context.yields_survey holds proceeds named split start pass
    have frame := markedAll_frame ms zs ((c.database.laid (xs ++ ys)).settledBehind zs t' p.first es)
    have events_eq : db'.events.toList = c.database.events.toList ++
        c.plan.exports c.database.exporting zs t ++ deletions ms := by
      rw [same]
      show (markedAll ms zs _).events.toList = _
      rw [frame.2.2.2, told]
      simp [settledBehind, telling, laid, placed]
    exact .fruitful split start pass reached found rfl settled events_eq

end Eviction

/-- What a reduction tells is settled by its scan. -/
theorem Reduction.surveyed {π : Type} {c : Context π} {search : Snapshot} {cs ds : List Cell}
    {r : Except Error (Report × Snapshot)} {db : Database} (h : Reduction c search cs r db ds)
    (holds : c.database.Holds cs) (addressed : ∀ r ∈ search.reasons, c.database.Addresses r) :
    Surveyed c search cs db := by
  cases h with
  | unstarted nowhere =>
    refine .fruitless (Context.yields_survey_away fun proceeds => ?_) (fun _ ok => ?_) rfl
    · rw [proceeds.1] at nowhere
      cases nowhere
    · cases ok
      rfl
  | unsatisfiable inconsistent =>
    refine .fruitless (Context.yields_survey_away fun proceeds => ?_) (fun _ ok => ?_) rfl
    · rw [proceeds.2] at inconsistent
      cases inconsistent
    · cases ok
      rfl
  | barred stray started consistent halted =>
    obtain ⟨bad, rest, all, -, none⟩ := halted
    obtain ⟨d, reached⟩ := Context.exists_survey_barred holds ⟨started, consistent⟩ addressed
      ⟨bad, by rw [all]; simp, none⟩
    exact .fruitless reached nofun rfl
  | failed split start eviction named proceeds =>
    exact eviction.surveyed holds proceeds named split start rfl
  | idle part split start eviction named proceeds =>
    exact eviction.surveyed holds proceeds named split start rfl
  | compacted asked split start eviction resplit restart first_at first_least named proceeds =>
    exact eviction.surveyed holds proceeds named split start rfl

/-! ### Whether a scan finds a candidate -/

namespace Context

variable {π : Type} [Predictor π] {c : Context π} {cs : List Cell} {search : Snapshot}

/-- A reduction whose scan finds no candidate tells nothing, and else features are told before deletions. -/
theorem exists_surveyed (holds : c.database.Holds cs) (lawful : (Operation.reduce search).Lawful c) :
    (c.finds search = [] ∧ (Operation.reduce search).told c = []) ∨
      ∃ xs ys zs cs' t t' p ms, flagged true (c.protects search) cs = xs ++ ys ∧
        (c.scanStart (c.whole search)).offset = extents xs ∧
        c.plan.scanCells (extents xs) ys (tableFor c.plan c.database.table) {} = (.ok p, zs, t) ∧
        c.finds search ≠ [] ∧ c.scannedTable search = t ∧
        Settlement c.plan xs ys c.database.table p cs' t' ∧
        (Operation.reduce search).told c =
          c.plan.exports c.database.exporting cs' t' ++ deletions ms := by
  obtain ⟨r, db, ds, counters, predictor, phase, reduces, -, reduction⟩ :=
    yields_reduce c holds search lawful
  have performs : Yields (Operation.reduce search).perform c _ _ :=
    Operation.yields_answered reduces fun result => .reported result.1 result.2
  obtain ⟨ms, outcome_eq⟩ := performs.outcome_eq
  have told_eq := told_eq_drop (congrArg Prod.snd outcome_eq : (Operation.reduce search).after c = _)
  have readied : c.readied.database.Holds cs := holds
  cases reduction.surveyed readied lawful with
  | @fruitless found d reached none silent =>
    obtain ⟨ms', reached_eq⟩ := reached.outcome_eq
    refine .inl ⟨?_, ?_⟩
    · rw [finds, reached_eq]
      cases found with
      | error e => rfl
      | ok candidates => exact none candidates rfl
    · rw [told_eq]
      show db.events.toList.drop _ = []
      rw [silent]
      exact List.drop_length
  | @fruitful xs ys zs cs' t t' p marks d split start pass reached found table_eq settled told =>
    obtain ⟨ms', reached_eq⟩ := reached.outcome_eq
    refine .inr ⟨xs, ys, zs, cs', t, t', p, marks, split, start, pass, ?_, ?_, settled, ?_⟩
    · rw [finds, reached_eq]
      exact found
    · rw [scannedTable, reached_eq]
      exact table_eq
    · rw [told_eq]
      show db.events.toList.drop _ = _
      rw [told, List.append_assoc]
      exact List.drop_left

end Context

end ClauseStore
