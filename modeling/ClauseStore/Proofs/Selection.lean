import ClauseStore.Proofs.Slots

/-!
Reductions by scores, exactly. A scan by scores comes to every live redundant clause, and elects those that
the search does not need. If more are learned than are retained, one batch tells a score for each, and of
those beyond the best ones the search loses the ones that it does not need and that are old enough: a clause
that stays in a slot uses it up all the same.
-/

namespace ClauseStore

open Cell Database

/-! ### Candidates by score -/

/-- Whether a search needs the clause at an offset: it is flagged as a reason, or listed as one. -/
def Database.needs (db : Database) (search : Snapshot) (o : Nat) : Bool :=
  (db.arena.header o).flags.reason || (search.reasons.map Reference.offset).contains o

namespace Context

variable {π : Type} {c : Context π} {search : Snapshot} {cs : List Cell} {o : Nat}

end Context

/-! ### What a reduction by scores comes to -/

namespace Context

/-- Whether a reduction by scores may remove the clause at an offset, if it is in a slot: the search does not
need it, and it was first scanned enough conflicts ago. -/
def expendable {π : Type} (c : Context π) (search : Snapshot) (born : UInt32 → UInt64) (o : Nat) : Bool :=
  !c.database.needs search o && decide (c.config.predicting.leastAge.value ≤
    elapsed c.counters.conflicts (born (c.database.arena.header o).identity))

/-- What a reduction by scores that does not fail comes to: the report, the clauses that it removes, and the
predictor and the rows behind it. `born` tells for an identity after how many conflicts its clause was first
scanned. -/
inductive Slotted {π : Type} [Predictor π] (c : Context π) (search : Snapshot) (born : UInt32 → UInt64) :
    Report → List Nat → π → Table → Prop where
  /-- the search needs all the learned clauses that there are -/
  | needed {p' : π} {t : Table}
    (all : ∀ o ∈ c.database.arena.liveOf true, c.database.needs search o = true) :
    Slotted c search born .nothingToReduce [] p' t
  /-- there are no more than are retained, so no scores are asked for -/
  | within {t : Table}
    (free : ∃ o ∈ c.database.arena.liveOf true, c.database.needs search o = false)
    (few : (c.database.arena.liveOf true).length ≤ c.config.predicting.retain.value.toNat)
    (unasked : ¬ c.Asks search)
    (scores_eq : t.scores = (c.database.arena.liveOf true).map fun o =>
      ((c.database.arena.header o).identity,
        c.database.table.prediction (c.database.arena.header o).identity)) :
    Slotted c search born (.reduced 0) [] c.predictor t
  /-- one batch tells a score for each of them, and of those beyond the best ones, from the worst on, the
  ones go that the search does not need and that are old enough -/
  | beyond {t : Table} {vector : Nat → List Binary64} {scores : List Binary64} {p' : π}
    {order : List (Nat × Binary64)} {gone : List Nat}
    (free : ∃ o ∈ c.database.arena.liveOf true, c.database.needs search o = false)
    (many : c.config.predicting.retain.value.toNat < (c.database.arena.liveOf true).length)
    (asks : c.Asks search)
    (ascending : ((c.database.arena.liveOf true).map fun o =>
      (c.database.arena.header o).identity).Pairwise (· < ·))
    (describes : ∀ o ∈ c.database.arena.liveOf true,
      c.database.Describes c.counters.conflicts o (vector o))
    (consultation : Consultation c.predictor ((c.database.arena.liveOf true).map vector).flatten
      (c.database.arena.liveOf true).length c.config.predicting.context.value.toNat (.ok scores) p')
    (scores_eq : t.scores = ((c.database.arena.liveOf true).zip scores).map fun entry =>
      ((c.database.arena.header entry.1).identity, entry.2,
        (c.database.table.prediction (c.database.arena.header entry.1).identity).1))
    (perm : order.Perm ((c.database.arena.liveOf true).zip scores))
    (ranked : order.Pairwise (Outscores c.database.arena.header))
    (gone_eq : gone = ((order.drop c.config.predicting.retain.value.toNat).reverse.map Prod.fst).filter
      (c.expendable search born)) :
    Slotted c search born (.reduced gone.length) gone (Predictor.finish p') t

/-- A reduction by scores comes to what it reports, and is told and conserves what the clauses that it
removes leave. -/
def Emptied {π : Type} [Predictor π] (c : Context π) (search : Snapshot) (born : UInt32 → UInt64)
    (result : Report × Snapshot) (d : Context π) : Prop :=
  ∃ moved gone, Slotted c search born result.1 gone d.predictor d.database.table ∧
    Conserved true search c.database (.ok result) d.database moved gone

theorem Emptied.logged {π : Type} [Predictor π] {c d : Context π} {search : Snapshot}
    {born : UInt32 → UInt64} {result : Report × Snapshot} (h : c.Emptied search born result d)
    (ms : Array Message) : c.Emptied search born result (Logged.withMessages ms d) := by
  obtain ⟨moved, gone, slotted, conserved⟩ := h
  exact ⟨moved, gone, slotted, conserved.logged ms⟩

/-- Learned clauses are first scanned after the conflicts that `born` tells, if by the next scan at the
latest. -/
def Dated {π : Type} (c : Context π) (born : UInt32 → UInt64) : Prop :=
  ∀ o ∈ c.database.arena.liveOf true,
    (c.database.table.births.lookup (c.database.arena.header o).identity).getD c.counters.conflicts =
      born (c.database.arena.header o).identity

/-! ### Reductions by scores -/

section Scored

variable {π : Type} {c : Context π} {search : Snapshot} {cs zs : List Cell} {t : Table} {p : ScanProgress}

variable (h : c.Scoring cs)
include h

theorem Scoring.proceeds (consistent : search.inconsistent = false) : c.Proceeds search := by
  rw [Proceeds, c.scanStart_of_collecting h.collecting]
  exact ⟨rfl, consistent⟩

variable (pass : c.plan.scanCells 0 (flagged true (c.protects search) cs)
  (tableFor c.plan c.database.table) {} = (.ok p, zs, t))
include pass

variable (consistent : search.inconsistent = false) (named : ∀ r ∈ search.reasons, ∃ d, At 0 cs r.offset d)
include consistent named

variable [Predictor π]

end Scored

/-! ### Predictors that answer -/

/-- The predictor tells a score for each row of every batch of whole rows. -/
def Answering {π : Type} [Predictor π] (c : Context π) : Prop :=
  ∀ matrix : List (List Binary64), (∀ xs ∈ matrix, xs.length = columns) → ∃ scores p',
    Consultation c.predictor matrix.flatten matrix.length c.config.predicting.context.value.toNat
      (.ok scores) p'

/-- A linear predictor with a model for the scoring context answers. -/
theorem answering_of_model {c : Context Linear} {m : Model}
    (loaded : c.predictor.models[c.config.predicting.context.value.toNat]? = some m) : c.Answering := by
  intro matrix whole
  refine Linear.exists_consultation loaded ?_
  rw [List.length_flatten, List.map_congr_left whole, List.map_const', List.sum_replicate_nat]

end Context

/-- A predictor that tells fixed scores row by row, and zero for further rows. -/
structure Scripted where
  scores : List Binary64

instance : Predictor Scripted where
  setup := pure ()
  load _ := pure ()
  submit _ _ := pure ()
  predict rows _ := pure rows
  score? p i := some (p.scores.getD i .zero)
  finish := id

namespace Context

section Runs

variable {π : Type} [Predictor π]

end Runs

end Context

end ClauseStore
