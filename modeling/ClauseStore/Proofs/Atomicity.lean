import ClauseStore.Proofs.Binding

/-!
Refusals. A call about clauses that fails leaves everything as it was: what is checked is checked before
anything is changed. Only a clause for which the arena has no room draws its identity first, and only a
deletion of a binary clause takes a watch before it looks for the other; there the watch lists decide,
which hold both watches of a clause or none.
-/

namespace ClauseStore

open Cell Database

/-! ### Clauses that are not stored -/

namespace Database

variable {db : Database} {cs : List Cell}

/-- Identities and places are left for a clause of some size. -/
def HasRoom (db : Database) (size : Nat) : Prop :=
  db.nextIdentity ≠ 4294967295 ∧
    db.arena.size + aligned (Header.wordCount + size) < Reference.invalid.offset

instance (db : Database) (size : Nat) : Decidable (db.HasRoom size) :=
  inferInstanceAs (Decidable (_ ∧ _))

/-- Where there is room, a clause is stored, or it is not accepted and nothing is done. -/
theorem store_placed_or_refused (h : db.Holds cs) (config : Config) (source : Source) (glue : UInt32)
    (conflicts : UInt64) {clause : Clause} (room : clause.fault? = none → db.HasRoom clause.length) :
    (∃ p db', Yields (store config source glue conflicts clause) db (.ok p) db') ∨
      ∃ e, Yields (store config source glue conflicts clause) db (.error e) db := by
  unfold store
  cases accepted : clause.fault? with
  | some fault => exact .inr ⟨_, yields_throw _ _⟩
  | none =>
    obtain ⟨fresh, fits⟩ := room accepted
    obtain ⟨many, few, -⟩ := Clause.accepted accepted source
    have filed_eq : (if source = .original then clause.sortedByIndex else clause) =
        clause.filed source := rfl
    have length_eq : (clause.filed source).length = clause.length := by
      rw [Clause.filed]
      split
      · exact (stableSort_perm ..).length_eq
      · rfl
    rw [h.tiled.size_eq] at fits
    simp only [filed_eq]
    rcases literals_eq : clause.filed source with _ | ⟨a, _ | ⟨b, _ | ⟨l, rest⟩⟩⟩
    · simp [literals_eq] at many
    · simp [literals_eq] at many
    · exact .inl ⟨_, _, yields_storeBinary a b source fresh⟩
    · rw [← length_eq, literals_eq] at fits
      rw [literals_eq] at few
      exact .inl ⟨_, _, yields_storeLong h source glue (keeps config source glue) conflicts fresh few fits⟩

end Database

/-! ### Calls about clauses -/

namespace Operation

variable {π : Type}

/-- The call stores, revises or deletes one clause, or notes its use. What is to be stored has room if it
is accepted, and what is to be deleted has no literal of atom zero. -/
def Edits (op : Operation) (c : Context π) : Prop :=
  match op with
  | create _ _ clause => clause.fault? = none → c.database.HasRoom clause.length
  | deleteBinary a b _ _ => a.atom ≠ 0 ∧ b.atom ≠ 0
  | notePropagation _ | noteUip _ | noteUsed _ | setReason .. | shrink .. | markGarbage _
  | makeIrredundant _ => True
  | _ => False

instance (op : Operation) (c : Context π) : Decidable (op.Edits c) :=
  match op with
  | create _ _ clause =>
    inferInstanceAs (Decidable (clause.fault? = none → c.database.HasRoom clause.length))
  | deleteBinary a b _ _ => inferInstanceAs (Decidable (a.atom ≠ 0 ∧ b.atom ≠ 0))
  | notePropagation _ | noteUip _ | noteUsed _ | setReason .. | shrink .. | markGarbage _
  | makeIrredundant _ => inferInstanceAs (Decidable True)
  | configure _ | listen _ | noteConflict | setWatching _ | queuePending _ | takePending
  | connectPending | collect _ | reduce _ => inferInstanceAs (Decidable False)

end Operation

namespace Context

variable {π : Type}

/-- A context is left as it was. Everything that is kept about clauses is, up to the log: the arena with
its walk, the watch lists with the queue, the table of statistics, occurrences and counts, the next
identity, the two cached references, and what was told. The phase of configuration may have ended. -/
structure Untouched (c c' : Context π) : Prop where
  database_eq : c'.database = { c.database with messages := c'.database.messages }
  counters_eq : c'.counters = c.counters
  config_eq : c'.config = c.config
  predictor_eq : c'.predictor = c.predictor
  phase_eq : c'.phase = c.phase ∨ c.phase = .configuration ∧ c'.phase = .input

namespace Untouched

variable {c c' : Context π}

theorem logged (c : Context π) (ms : Array Message) : Untouched c (Logged.withMessages ms c) :=
  ⟨rfl, rfl, rfl, rfl, .inl rfl⟩

/-- A call that leaves the context as it was tells nothing. -/
theorem told_eq [Predictor π] {op : Operation} (h : Untouched c (op.after c)) : op.told c = [] := by
  have events_eq : (op.after c).database.events = c.database.events := by rw [h.database_eq]
  rw [Operation.told, events_eq, ← Array.length_toList, List.drop_length]

end Untouched

variable [Predictor π] {c : Context π} {cs : List Cell} {bs : List BinaryClause}

/-- A clause that is not stored, though there is room, leaves the context as it was. -/
theorem untouched_create (holds : c.database.Holds cs) {source : Source} {glue : UInt32}
    {clause : Clause} (room : clause.fault? = none → c.database.HasRoom clause.length) {e : Error}
    (failed : (Operation.create source glue clause).answer c = .error e) :
    Untouched c ((Operation.create source glue clause).after c) := by
  -- the phase of configuration ends before anything is checked
  have created : ∀ {r db'}, Yields (store c.config source glue c.counters.conflicts clause)
      c.database r db' → Yields (Operation.create source glue clause).perform c (r.map .placed)
        { c with
          phase := if c.phase = .configuration then .input else c.phase
          database := db' } := by
    intro r db' stores
    refine Operation.yields_answered (Yields.bind (yields_modify fun _ => rfl) ?_) .placed
    exact Yields.get_bind (fun _ => rfl) (yields_onDatabase stores)
  rcases store_placed_or_refused holds c.config source glue c.counters.conflicts room with
    ⟨p, db', stores⟩ | ⟨e', refuses⟩
  · obtain ⟨ms, outcome_eq⟩ := (created stores).outcome_eq
    rw [Operation.answer, outcome_eq] at failed
    cases failed
  · obtain ⟨ms, outcome_eq⟩ := (created refuses).outcome_eq
    rw [Operation.after, outcome_eq]
    refine ⟨rfl, rfl, rfl, rfl, ?_⟩
    by_cases phase : c.phase = .configuration
    · exact .inr ⟨phase, if_pos phase⟩
    · exact .inl (if_neg phase)

/-- A binary clause that is not found leaves the context as it was. -/
theorem untouched_deleteBinary (binds : c.database.Binds bs) {a b : Literal} {redundant : Bool}
    {identity : UInt32} {e : Error}
    (failed : (Operation.deleteBinary a b redundant identity).answer c = .error e) :
    Untouched c ((Operation.deleteBinary a b redundant identity).after c) := by
  have unwatching := Watches.unwatching binds.lists binds.proper binds.apart a b identity
  rcases result : c.database.watches.unwatchBinary a b identity with ⟨_ | l, w⟩
  · have deletes := yields_onDatabase (c := c) (yields_deleteBinary redundant result)
    have performs : Yields (Operation.deleteBinary a b redundant identity).perform c _ _ :=
      Operation.yields_answered deletes fun _ => .done
    obtain ⟨ms, outcome_eq⟩ := performs.outcome_eq
    rw [Operation.answer, outcome_eq] at failed
    cases failed
  · have refuses := yields_onDatabase (c := c) (yields_deleteBinary_missing redundant result)
    have performs : Yields (Operation.deleteBinary a b redundant identity).perform c _ _ :=
      Operation.yields_answered refuses fun _ => .done
    obtain ⟨ms, outcome_eq⟩ := performs.outcome_eq
    rw [Operation.after, outcome_eq]
    -- no watch is taken where the first one is missing, and the second is never missing alone
    rw [result] at unwatching
    cases unwatching
    exact .logged c ms

/-- A call about a clause that fails leaves the context as it was. -/
theorem untouched_of_error (holds : c.database.Holds cs) (binds : c.database.Binds bs)
    {op : Operation} (lawful : op.Lawful c) (edits : op.Edits c) {e : Error}
    (failed : op.answer c = .error e) : Untouched c (op.after c) := by
  obtain ⟨c', ds, ms, after_eq, effect⟩ := exists_effect holds lawful
  rw [failed] at effect
  generalize answer_eq : (Except.error e : Except Error Answer) = answer at effect
  cases effect with
  | configured | noted | marked | promoted | shortened | collected => cases answer_eq
  | refused =>
    rw [after_eq]
    exact .logged c ms
  | beside aside =>
    cases op with
    | deleteBinary a b redundant identity => exact untouched_deleteBinary binds failed
    | listen | noteConflict | setWatching | queuePending | takePending | connectPending =>
      exact edits.elim
    | _ => cases aside
  | stored => exact untouched_create holds edits failed
  | reduced => exact edits.elim

/-- Behind every lawful run, a call about a clause that fails changes nothing and tells nothing. -/
theorem failure_atomic (config : Config) (predictor : π) (ops : List Operation) (op : Operation)
    (e : Error) (follows : (ofConfig config predictor).Follows ops)
    (lawful : op.Lawful ((ofConfig config predictor).run ops))
    (edits : op.Edits ((ofConfig config predictor).run ops))
    (failed : op.answer ((ofConfig config predictor).run ops) = .error e) :
    Untouched ((ofConfig config predictor).run ops)
        (op.after ((ofConfig config predictor).run ops)) ∧
      op.told ((ofConfig config predictor).run ops) = [] := by
  have holds : (ofConfig config predictor).database.Holds [] := holds_nil
  have binds : (ofConfig config predictor).database.Binds [] := binds_nil
  obtain ⟨cs, left⟩ := exists_holds_run holds follows
  have untouched := untouched_of_error left (binds_run holds binds follows) lawful edits failed
  exact ⟨untouched, untouched.told_eq⟩

/-- Binary clauses on one literal, of which the first goes, so that the last takes its place. -/
def swappingRun : List Operation :=
  [.create .original 0 [⟨1⟩, ⟨2⟩], .create .redundant 2 [⟨3⟩, ⟨1⟩], .create .original 0 [⟨1⟩, ⟨2⟩],
    .create .redundant 6 [⟨1⟩, ⟨-2⟩, ⟨3⟩], .deleteBinary ⟨2⟩ ⟨1⟩ false 1]

/-- A clause is sought with the identity of another on the same literal. -/
theorem failure_atomic_swappingRun :
    (ofConfig {} ({} : Linear)).Follows swappingRun ∧
      (Operation.deleteBinary ⟨2⟩ ⟨1⟩ true 2).answer ((ofConfig {} ({} : Linear)).run swappingRun) =
        .error (.clause .missing) ∧
      Untouched ((ofConfig {} ({} : Linear)).run swappingRun)
        ((Operation.deleteBinary ⟨2⟩ ⟨1⟩ true 2).after ((ofConfig {} ({} : Linear)).run swappingRun)) ∧
      (Operation.deleteBinary ⟨2⟩ ⟨1⟩ true 2).told
        ((ofConfig {} ({} : Linear)).run swappingRun) = [] := by
  have follows : (ofConfig {} ({} : Linear)).Follows swappingRun := by decide +kernel
  have edits : (Operation.deleteBinary ⟨2⟩ ⟨1⟩ true 2).Edits
      ((ofConfig {} ({} : Linear)).run swappingRun) := by decide +kernel
  have failed : (Operation.deleteBinary ⟨2⟩ ⟨1⟩ true 2).answer
      ((ofConfig {} ({} : Linear)).run swappingRun) = .error (.clause .missing) := by
    have refused : ((Operation.deleteBinary ⟨2⟩ ⟨1⟩ true 2).answer
        ((ofConfig {} ({} : Linear)).run swappingRun)).map (fun _ => ()) =
      .error (.clause .missing) := by decide +kernel
    revert refused
    rcases (Operation.deleteBinary ⟨2⟩ ⟨1⟩ true 2).answer
      ((ofConfig {} ({} : Linear)).run swappingRun) with e | a
    · exact congrArg _ ∘ Except.error.inj
    · exact nofun
  exact ⟨follows, failed, failure_atomic ({} : Config) ({} : Linear) swappingRun
    (.deleteBinary ⟨2⟩ ⟨1⟩ true 2) (.clause .missing) follows trivial edits failed⟩

end Context

end ClauseStore
