import ClauseStore.Proofs.Reduction
import ClauseStore.Proofs.Storing

/-!
Operations and runs. An operation is one call that a search makes; a run is a list of them, and the
context behind a run is what the calls leave, failures included. An operation is lawful where its
references are to clauses, or stand for no place of the arena, and a compaction starts between two
records. Every lawful operation has one of a few effects on the cells, and so a database goes on to hold
cells along a lawful run.
-/

namespace ClauseStore

open Cell Database

/-- A call that a search makes. -/
inductive Operation where
  /-- puts a configuration in the place of the former one -/
  | configure (config : Config)
  /-- sets whether features are exported -/
  | listen (exporting : Bool)
  | create (source : Source) (glue : UInt32) (clause : Clause)
  | noteConflict
  | notePropagation (r : Reference)
  | noteUip (r : Reference)
  | noteUsed (r : Reference)
  | setReason (r : Reference) (value : Bool)
  | shrink (r : Reference) (size : UInt64)
  | markGarbage (r : Reference)
  | makeIrredundant (r : Reference)
  | deleteBinary (a b : Literal) (redundant : Bool) (identity : UInt32)
  | setWatching (value : Bool)
  | queuePending (r : Reference)
  | takePending
  | connectPending
  | collect (start : Reference)
  | reduce (search : Snapshot)

/-- What a call returns. -/
inductive Answer where
  | done
  | placed (placement : Placement)
  | queued (rs : List Reference)
  | relocated (moved : Relocation)
  | reported (report : Report) (search : Snapshot)

namespace Database

/-- A start of a compaction: a record, or the end of the arena. -/
def Boundary (db : Database) (start : Reference) : Prop :=
  start.offset ∈ (db.arena.walkFrom 0).1 ∨ start = db.arena.limit

end Database

namespace Operation

variable {π : Type}

/-- Makes the call. -/
def perform [Predictor π] : Operation → Run π Answer
  | configure config => do
    modify fun c => { c with config }
    return .done
  | listen exporting => do
    modify fun c => { c with database.exporting := exporting }
    return .done
  | create source glue clause => return .placed (← Context.create source glue clause)
  | noteConflict => do
    Context.noteConflict
    return .done
  | notePropagation r => do
    Context.notePropagation r
    return .done
  | noteUip r => do
    Context.noteUip r
    return .done
  | noteUsed r => do
    Context.noteUsed r
    return .done
  | setReason r value => do
    Context.onDatabase (Database.setReason r value)
    return .done
  | shrink r size => do
    Context.onDatabase (Database.shrink r size)
    return .done
  | markGarbage r => do
    Context.onDatabase (Database.markGarbage r)
    return .done
  | makeIrredundant r => do
    Context.onDatabase (Database.makeIrredundant r)
    return .done
  | deleteBinary a b redundant identity => do
    Context.onDatabase (Database.deleteBinary a b redundant identity)
    return .done
  | setWatching value => do
    Context.setWatching value
    return .done
  | queuePending r => do
    Context.queuePending r
    return .done
  | takePending => return .queued (← Context.takePending)
  | connectPending => do
    Context.onDatabase Database.connectPending
    return .done
  | collect start => return .relocated (← Context.collect start)
  | reduce search => do
    let result ← Context.reduce search
    return .reported result.1 result.2

/-- What the call returns on a context. -/
def answer [Predictor π] (op : Operation) (c : Context π) : Except Error Answer :=
  (outcome op.perform c).1

/-- The context behind the call. -/
def after [Predictor π] (op : Operation) (c : Context π) : Context π := (outcome op.perform c).2

/-- The events that the call tells. -/
def told [Predictor π] (op : Operation) (c : Context π) : List Event :=
  (op.after c).database.events.toList.drop c.database.events.size

/-- The references of the call are to clauses or stand for no place, and a compaction starts between
two records. -/
def Lawful (op : Operation) (c : Context π) : Prop :=
  match op with
  | notePropagation r | noteUip r | noteUsed r | setReason r _ => c.database.Addresses r
  | shrink r _ | markGarbage r | makeIrredundant r => c.database.Addresses r
  | collect start => c.database.Boundary start
  | reduce search => ∀ r ∈ search.reasons, c.database.Addresses r
  | _ => True

instance (db : Database) (r : Reference) : Decidable (db.Addresses r) :=
  inferInstanceAs (Decidable (_ ∨ _))

instance (db : Database) (start : Reference) : Decidable (db.Boundary start) :=
  inferInstanceAs (Decidable (_ ∨ _))

instance (op : Operation) (c : Context π) : Decidable (op.Lawful c) :=
  match op with
  | notePropagation r | noteUip r | noteUsed r | setReason r _ | shrink r _ | markGarbage r
  | makeIrredundant r => inferInstanceAs (Decidable (c.database.Addresses r))
  | collect start => inferInstanceAs (Decidable (c.database.Boundary start))
  | reduce search => inferInstanceAs (Decidable (∀ r ∈ search.reasons, c.database.Addresses r))
  | configure _ | listen _ | create .. | noteConflict | deleteBinary .. | setWatching _
  | queuePending _ | takePending | connectPending => inferInstanceAs (Decidable True)

end Operation

/-! ### Runs -/

namespace Context

variable {π : Type} [Predictor π]

/-- The context behind a run. -/
def run (c : Context π) (ops : List Operation) : Context π := ops.foldl (fun c op => op.after c) c

/-- Each operation of a run is lawful where it is made. -/
def Follows (c : Context π) : List Operation → Prop
  | [] => True
  | op :: ops => op.Lawful c ∧ (op.after c).Follows ops

theorem run_append (c : Context π) (ops ops' : List Operation) :
    c.run (ops ++ ops') = (c.run ops).run ops' :=
  List.foldl_append

theorem follows_append {c : Context π} {ops ops' : List Operation} :
    c.Follows (ops ++ ops') ↔ c.Follows ops ∧ (c.run ops).Follows ops' := by
  induction ops generalizing c with
  | nil => simp [Follows, run]
  | cons op ops ih =>
    rw [List.cons_append, Follows, Follows, ih, and_assoc]
    rfl

/-- Whether a run is lawful is decided call by call. -/
def decidableFollows (c : Context π) : (ops : List Operation) → Decidable (c.Follows ops)
  | [] => inferInstanceAs (Decidable True)
  | op :: ops =>
    have := decidableFollows (op.after c) ops
    inferInstanceAs (Decidable (op.Lawful c ∧ (op.after c).Follows ops))

instance (c : Context π) (ops : List Operation) : Decidable (c.Follows ops) := c.decidableFollows ops

/-- Something holds of each operation of a run and the context in which it is made. -/
def Throughout (P : Operation → Context π → Prop) (c : Context π) : List Operation → Prop
  | [] => True
  | op :: ops => P op c ∧ (op.after c).Throughout P ops

theorem throughout_append {P : Operation → Context π → Prop} {c : Context π} {ops ops' : List Operation} :
    c.Throughout P (ops ++ ops') ↔ c.Throughout P ops ∧ (c.run ops).Throughout P ops' := by
  induction ops generalizing c with
  | nil => simp [Throughout, run]
  | cons op ops ih =>
    rw [List.cons_append, Throughout, Throughout, ih, and_assoc]
    rfl

/-- Whether something holds throughout a run is decided call by call. -/
def decidableThroughout {P : Operation → Context π → Prop} [∀ op c, Decidable (P op c)] (c : Context π) :
    (ops : List Operation) → Decidable (c.Throughout P ops)
  | [] => inferInstanceAs (Decidable True)
  | op :: ops =>
    have := decidableThroughout (P := P) (op.after c) ops
    inferInstanceAs (Decidable (P op c ∧ (op.after c).Throughout P ops))

instance {P : Operation → Context π → Prop} [∀ op c, Decidable (P op c)] (c : Context π)
    (ops : List Operation) : Decidable (c.Throughout P ops) := c.decidableThroughout ops

end Context

/-! ### Effects -/

namespace Operation

variable {π : Type}

/-- The clause that a note is about, and the revision of its header. -/
def note? (c : Context π) : Operation → Option (Reference × (Header → Header))
  | notePropagation r => some (r, fun h => { h.countProp with touched := c.counters.conflicts })
  | noteUip r => some (r, fun h => { h.countUip with touched := c.counters.conflicts })
  | noteUsed r => some (r, graced c.config.retention.tier2.value)
  | setReason r value => some (r, Header.withFlag .reason value)
  | _ => none

/-- A note leaves the core of a header alone. -/
theorem core_of_note {c : Context π} {op : Operation} {r : Reference} {f : Header → Header}
    (note : op.note? c = some (r, f)) (d : Header) : (f d).core = d.core := by
  cases op <;> simp only [note?, Option.some.injEq, Prod.mk.injEq, reduceCtorEq] at note <;>
    (obtain ⟨-, rfl⟩ := note; rfl)

/-- A note leaves the link of a header alone. -/
theorem link_of_note {c : Context π} {op : Operation} {r : Reference} {f : Header → Header}
    (note : op.note? c = some (r, f)) (d : Header) : (f d).link = d.link := by
  cases op <;> simp only [note?, Option.some.injEq, Prod.mk.injEq, reduceCtorEq] at note <;>
    (obtain ⟨-, rfl⟩ := note; rfl)

/-- Whether a call does not concern long clauses. -/
def aside : Operation → Bool
  | listen _ | noteConflict | deleteBinary .. | setWatching _ | queuePending _ | takePending
  | connectPending => true
  | _ => false

/-- Whether a call is about one long clause. -/
def single : Operation → Bool
  | notePropagation _ | noteUip _ | noteUsed _ | setReason .. | shrink .. | markGarbage _
  | makeIrredundant _ => true
  | _ => false

end Operation

/-- What a lawful operation does: its answer, the context behind it, and the cells held then. -/
inductive Effect {π : Type} (c : Context π) (cs : List Cell) :
    Operation → Except Error Answer → Context π → List Cell → Prop where
  | configured {config : Config} : Effect c cs (.configure config) (.ok .done) { c with config } cs
  /-- no long clause is concerned -/
  | beside {op : Operation} {r : Except Error Answer} {c' : Context π} (aside : op.aside = true)
    (config_eq : c'.config = c.config) (same : Beside c.database c'.database) : Effect c cs op r c' cs
  | stored {source : Source} {glue : UInt32} {clause : Clause} {r : Except Error Placement}
    {db : Database} {ds : List Cell} {phase : Phase}
    (storage : Storage c.config source glue c.counters.conflicts clause cs c.database r db ds) :
    Effect c cs (.create source glue clause) (r.map .placed) { c with phase, database := db } ds
  | noted {op : Operation} {r : Reference} {d : Cell} {f : Header → Header}
    (note : op.note? c = some (r, f)) (found : At 0 cs r.offset d) :
    Effect c cs op (.ok .done)
      { c with database := c.database.laid (mapAt (Arena.only r.offset f) 0 cs) }
      (mapAt (Arena.only r.offset f) 0 cs)
  /-- a call about one clause is refused -/
  | refused {op : Operation} {e : Error} (single : op.single = true) : Effect c cs op (.error e) c cs
  | marked {r : Reference} {d : Cell} (found : At 0 cs r.offset d) (live : d.isGarbage = false)
    (free : d.header.flags.reason = false) :
    Effect c cs (.markGarbage r) (.ok .done)
      { c with database := c.database.marked r.offset d cs } (markAt r.offset cs)
  | promoted {r : Reference} {d : Cell} (found : At 0 cs r.offset d) (live : d.isGarbage = false)
    (redundant : d.header.flags.redundant = true) :
    Effect c cs (.makeIrredundant r) (.ok .done)
      { c with database := c.database.promoted r d cs } (promoteAt r.offset cs)
  | shortened {r : Reference} {size : UInt64} {xs ys : List Cell} {d : Cell} (split : cs = xs ++ d :: ys)
    (start : r.offset = extents xs) (free : barsShrink d size = false) :
    Effect c cs (.shrink r size) (.ok .done)
      { c with database := c.database.shortened size.toNat d (xs ++ d.shrunk size.toNat :: ys) }
      (xs ++ d.shrunk size.toNat :: ys)
  | collected {start : Reference} {xs ys : List Cell} {first last : Reference} (split : cs = xs ++ ys)
    (start_eq : start = .ofOffset (extents xs))
    (first_at : first.isValid = true →
      ∃ d, At (extents xs) (settle c.database.arena.word (extents xs) ys) first.offset d)
    (first_least : NoneBefore first (extents xs) (settle c.database.arena.word (extents xs) ys))
    (last_eq : last = c.database.relast xs ys) :
    Effect c cs (.collect start) (.ok (.relocated (relocationOf xs ys)))
      { c with database := c.database.collected xs ys first last }
      (xs ++ settle c.database.arena.word (extents xs) ys)
  | reduced {search : Snapshot} {r : Except Error (Report × Snapshot)} {db : Database} {ds : List Cell}
    {counters : Counters} {predictor : π} {phase : Phase}
    (reduction : Reduction c.readied search cs r db ds) :
    Effect c cs (.reduce search) (r.map fun result => .reported result.1 result.2)
      { c with counters, predictor, phase, database := db } ds

namespace Operation

variable {π : Type} {c : Context π} {cs : List Cell}

/-- The result of a call is passed on. -/
theorem yields_answered {α : Type} {run : Run π α} {r : Except Error α} {c' : Context π}
    (h : Yields run c r c') (f : α → Answer) :
    Yields (run >>= fun a => pure (f a)) c (r.map f) c' := by
  cases r with
  | error e => exact h.bind_error
  | ok a => exact h.bind (yields_pure _ _)

/-- A step beside the long clauses has no effect on them. -/
theorem yields_aside {act : Action Unit} (h : Sparing act) {op : Operation} (aside : op.aside = true) :
    ∃ r c' ds, Yields (do
        Context.onDatabase act
        return Answer.done) c r c' ∧ Effect c cs op r c' ds := by
  obtain ⟨r, db, hact, same⟩ := h c.database
  exact ⟨_, _, cs, yields_answered (Context.yields_onDatabase hact) fun _ => .done,
    .beside aside rfl same⟩

/-- A note revises one header, or is refused. -/
theorem yields_noted (h : c.database.Holds cs) {op : Operation} {r : Reference}
    {f : Header → Header} (note : op.note? c = some (r, f)) (single : op.single = true)
    (addressed : c.database.Addresses r) :
    ∃ a c' ds, Yields (Context.onDatabase (Database.note r f)) c a c' ∧
      Effect c cs op (a.map fun _ => .done) c' ds := by
  rcases addressed.imp h.tiled.mem_walk.1 id with ⟨d, hd⟩ | unresolved
  · exact ⟨_, _, _, Context.yields_onDatabase (yields_note h hd f), .noted note hd⟩
  · exact ⟨_, _, _, Context.yields_onDatabase (yields_note_none unresolved f), .refused single⟩

theorem yields_shrink_effect (h : c.database.Holds cs) {r : Reference} (size : UInt64)
    (addressed : c.database.Addresses r) :
    ∃ a c' ds, Yields (Context.onDatabase (Database.shrink r size)) c a c' ∧
      Effect c cs (.shrink r size) (a.map fun _ => .done) c' ds := by
  rcases addressed.imp h.tiled.mem_walk.1 id with ⟨d, hd⟩ | unresolved
  · cases bar : barsShrink d size with
    | true =>
      exact ⟨_, _, _, Context.yields_onDatabase (yields_shrink_refused h hd bar), .refused rfl⟩
    | false =>
      obtain ⟨xs, ys, rfl, start⟩ := hd
      rw [Nat.zero_add] at start
      exact ⟨_, _, _, Context.yields_onDatabase (yields_shrink h start bar),
        .shortened rfl start bar⟩
  · exact ⟨_, _, _, Context.yields_onDatabase (yields_shrink_none unresolved size), .refused rfl⟩

theorem yields_markGarbage_effect (h : c.database.Holds cs) {r : Reference}
    (addressed : c.database.Addresses r) :
    ∃ a c' ds, Yields (Context.onDatabase (Database.markGarbage r)) c a c' ∧
      Effect c cs (.markGarbage r) (a.map fun _ => .done) c' ds := by
  rcases addressed.imp h.tiled.mem_walk.1 id with ⟨d, hd⟩ | unresolved
  · by_cases bar : d.isGarbage = true ∨ d.header.flags.reason = true
    · obtain ⟨e, refused⟩ := yields_markGarbage_refused h hd bar
      exact ⟨_, _, _, Context.yields_onDatabase refused, .refused rfl⟩
    · obtain ⟨live, free⟩ := not_or.1 bar
      rw [Bool.not_eq_true] at live free
      exact ⟨_, _, _, Context.yields_onDatabase (yields_markGarbage h hd live free),
        .marked hd live free⟩
  · exact ⟨_, _, _, Context.yields_onDatabase (yields_markGarbage_none unresolved), .refused rfl⟩

theorem yields_makeIrredundant_effect (h : c.database.Holds cs) {r : Reference}
    (addressed : c.database.Addresses r) :
    ∃ a c' ds, Yields (Context.onDatabase (Database.makeIrredundant r)) c a c' ∧
      Effect c cs (.makeIrredundant r) (a.map fun _ => .done) c' ds := by
  rcases addressed.imp h.tiled.mem_walk.1 id with ⟨d, hd⟩ | unresolved
  · cases bar : d.header.flags.garbage || !d.header.flags.redundant with
    | true =>
      exact ⟨_, _, _, Context.yields_onDatabase (yields_makeIrredundant_refused h hd bar),
        .refused rfl⟩
    | false =>
      simp only [Bool.or_eq_false_iff, Bool.not_eq_false'] at bar
      exact ⟨_, _, _, Context.yields_onDatabase (yields_makeIrredundant h hd bar.1 bar.2),
        .promoted hd bar.1 bar.2⟩
  · exact ⟨_, _, _, Context.yields_onDatabase (yields_makeIrredundant_none unresolved),
      .refused rfl⟩

/-- A start of a compaction is a boundary between cells. -/
theorem exists_split_of_boundary (h : c.database.Holds cs) {start : Reference}
    (boundary : c.database.Boundary start) :
    ∃ xs ys, cs = xs ++ ys ∧ start = .ofOffset (extents xs) := by
  rcases boundary with record | rfl
  · obtain ⟨d, xs, ys, rfl, start_eq⟩ := h.tiled.mem_walk.1 record
    rw [Nat.zero_add] at start_eq
    exact ⟨xs, d :: ys, rfl, by rw [← start_eq, ofOffset_offset]⟩
  · exact ⟨cs, [], by simp, by rw [Arena.limit, h.tiled.size_eq]⟩

variable [Predictor π]

/-- A lawful operation has one of the effects. -/
theorem yields_perform (h : c.database.Holds cs) (op : Operation) (lawful : op.Lawful c) :
    ∃ r c' ds, Yields op.perform c r c' ∧ Effect c cs op r c' ds := by
  have same : Beside c.database c.database := .refl _
  -- a call about one clause is a step on the database, whose result is passed on
  have single : ∀ {op : Operation} {run : Run π Unit}, (∃ a c' ds, Yields run c a c' ∧
      Effect c cs op (a.map fun _ => .done) c' ds) → ∃ r c' ds, Yields (do
        run
        return Answer.done) c r c' ∧ Effect c cs op r c' ds := by
    rintro op run ⟨a, c', ds, hrun, effect⟩
    exact ⟨_, c', ds, yields_answered hrun fun _ => .done, effect⟩
  cases op with
  | configure config =>
    exact ⟨_, _, cs, Yields.bind (yields_modify fun _ => rfl) (yields_pure _ _), .configured⟩
  | listen exporting =>
    exact ⟨_, _, cs, Yields.bind (yields_modify fun _ => rfl) (yields_pure _ _),
      .beside rfl rfl ⟨rfl, rfl, rfl, rfl, Nat.le_refl _⟩⟩
  | create source glue clause =>
    obtain ⟨r, db, ds, hstore, storage⟩ :=
      yields_store h c.config source glue c.counters.conflicts clause
    have created : Yields (Context.create source glue clause) c r { c with
        phase := if c.phase = .configuration then .input else c.phase, database := db } :=
      Yields.bind (yields_modify fun _ => rfl)
        (Yields.get_bind (fun _ => rfl) (Context.yields_onDatabase hstore))
    exact ⟨_, _, ds, yields_answered created .placed, .stored storage⟩
  | noteConflict =>
    exact ⟨_, _, cs, Yields.bind (yields_modify fun _ => rfl) (yields_pure _ _), .beside rfl rfl same⟩
  | notePropagation r =>
    have note : Operation.note? c (.notePropagation r) = some (r, _) := rfl
    obtain ⟨a, c', ds, noted, effect⟩ := yields_noted h note rfl lawful
    exact single ⟨a, c', ds, Yields.get_bind (fun _ => rfl) noted, effect⟩
  | noteUip r =>
    have note : Operation.note? c (.noteUip r) = some (r, _) := rfl
    obtain ⟨a, c', ds, noted, effect⟩ := yields_noted h note rfl lawful
    exact single ⟨a, c', ds, Yields.get_bind (fun _ => rfl) noted, effect⟩
  | noteUsed r =>
    have note : Operation.note? c (.noteUsed r) = some (r, _) := rfl
    obtain ⟨a, c', ds, noted, effect⟩ := yields_noted h note rfl lawful
    exact single ⟨a, c', ds, Yields.get_bind (fun _ => rfl) noted, effect⟩
  | setReason r value => exact single (yields_noted h rfl rfl lawful)
  | shrink r size => exact single (yields_shrink_effect h size lawful)
  | markGarbage r => exact single (yields_markGarbage_effect h lawful)
  | makeIrredundant r => exact single (yields_makeIrredundant_effect h lawful)
  | deleteBinary a b redundant identity =>
    exact yields_aside (sparing_deleteBinary a b redundant identity) rfl
  | setWatching value =>
    have set_eq : Yields (Context.setWatching value) c (.ok ()) _ :=
      (Context.yields_log _).bind (yields_modify fun _ => rfl)
    exact ⟨_, _, cs, yields_answered set_eq fun _ => .done,
      .beside rfl rfl ⟨rfl, rfl, rfl, rfl, Nat.le_refl _⟩⟩
  | queuePending r =>
    exact ⟨_, _, cs, Yields.bind (yields_modify fun _ => rfl) (yields_pure _ _),
      .beside rfl rfl ⟨rfl, rfl, rfl, rfl, Nat.le_refl _⟩⟩
  | takePending =>
    have taken : Yields Context.takePending c _ _ :=
      Yields.get_bind (fun _ => rfl) (Yields.bind (yields_modify fun _ => rfl) (yields_pure _ _))
    exact ⟨_, _, cs, yields_answered taken .queued,
      .beside rfl rfl ⟨rfl, rfl, rfl, rfl, Nat.le_refl _⟩⟩
  | connectPending => exact yields_aside sparing_connectPending rfl
  | collect start =>
    obtain ⟨xs, ys, rfl, rfl⟩ := exists_split_of_boundary h lawful
    obtain ⟨first, last, collect, first_at, first_least, last_eq⟩ := yields_collect_cached h
    exact ⟨_, _, _, yields_answered (Context.yields_onDatabase collect) .relocated,
      .collected rfl rfl first_at first_least last_eq⟩
  | reduce search =>
    obtain ⟨r, db, ds, counters, predictor, phase, reduce, -, reduction⟩ :=
      Context.yields_reduce c h search lawful
    exact ⟨_, _, ds, yields_answered reduce fun result => .reported result.1 result.2,
      .reduced reduction⟩

end Operation

/-! ### What a database holds along a run -/

namespace Database.Holds

variable {db : Database} {cs : List Cell}

/-- The log does not matter. -/
theorem logged (h : db.Holds cs) (ms : Array Message) : (Logged.withMessages ms db).Holds cs :=
  ⟨h.arena_eq, h.sound, h.fits, h.ascending, h.below, h.garbage_eq, h.first_eq⟩

end Database.Holds

namespace Reduction

variable {π : Type} {c : Context π} {search : Snapshot} {cs ds : List Cell}
  {r : Except Error (Report × Snapshot)} {db : Database}

/-- A reduction keeps what a database holds, also if it fails. -/
theorem holds (h : Reduction c search cs r db ds) (holds : c.database.Holds cs) : db.Holds ds := by
  have flags : (c.database.laid (flagged true (c.protects search) cs)).Holds _ :=
    holds.of_core (core_flagged true (c.protects search) cs)
  cases h with
  | unstarted => exact holds
  | unsatisfiable => exact holds
  | barred => exact holds.of_core (core_flagged ..)
  | failed split start eviction =>
    rw [split] at flags
    exact (eviction.holds flags).of_core (core_flagged ..)
  | idle part split start eviction =>
    rw [split] at flags
    exact (eviction.holds flags).of_core (core_flagged ..)
  | @compacted xs ys ds xs' ys' found db first last asked split start eviction resplit restart first_at =>
    rw [split] at flags
    have left : (db.laid (flagged false (c.protects search) ds)).Holds _ :=
      (eviction.holds flags).of_core (core_flagged ..)
    rw [resplit] at left
    exact left.collected _ first_at

end Reduction

namespace Effect

variable {π : Type} {c c' : Context π} {cs ds : List Cell} {op : Operation} {r : Except Error Answer}

/-- Every effect keeps what a database holds. -/
theorem holds (h : Effect c cs op r c' ds) (holds : c.database.Holds cs) : c'.database.Holds ds := by
  cases h with
  | configured => exact holds
  | beside _ _ same => exact holds.beside same
  | stored storage => exact storage.holds holds
  | noted note found => exact holds.noted (Operation.core_of_note note) _
  | refused => exact holds
  | marked found live => exact holds.marked found live
  | promoted found live => exact holds.promoted found live
  | shortened split start free =>
    subst split
    exact holds.shortened free
  | collected split start first_at =>
    subst split
    exact holds.collected _ first_at
  | reduced reduction => exact reduction.holds holds

end Effect

namespace Context

variable {π : Type} [Predictor π] {c : Context π} {cs : List Cell}

/-- One step of a run. -/
theorem exists_effect (h : c.database.Holds cs) {op : Operation} (lawful : op.Lawful c) :
    ∃ c' ds ms, op.after c = Logged.withMessages ms c' ∧ Effect c cs op (op.answer c) c' ds := by
  obtain ⟨r, c', ds, perform, effect⟩ := op.yields_perform h lawful
  obtain ⟨ms, outcome_eq⟩ := perform.outcome_eq
  refine ⟨c', ds, ms, by rw [Operation.after, outcome_eq], ?_⟩
  rw [Operation.answer, outcome_eq]
  exact effect

/-- The log of a call does not matter to what is held behind it. -/
theorem holds_after {c' : Context π} {ds : List Cell} {op : Operation} {ms : Array Message}
    (after_eq : op.after c = Logged.withMessages ms c') (h : c'.database.Holds ds) :
    (op.after c).database.Holds ds := by
  rw [after_eq]
  exact h.logged ms

/-- A clause of more than two literals that has no fault is stored where there is room for it. -/
theorem exists_after_create (h : c.database.Holds cs) {source : Source} {glue : UInt32} {clause : Clause}
    {x y z : Literal} {rest : Clause} (filed_eq : clause.filed source = x :: y :: z :: rest)
    (accepted : clause.fault? = none) (fresh : c.database.nextIdentity ≠ 4294967295)
    (room : extents cs + aligned (Header.wordCount + (x :: y :: z :: rest).length) <
      Reference.invalid.offset) :
    ∃ phase ms, (Operation.create source glue clause).after c = Logged.withMessages ms
        { c with
          phase
          database := (c.database.storedLong x y (z :: rest) source glue (keeps c.config source glue)
            c.counters.conflicts cs) } ∧
      ((Operation.create source glue clause).after c).database.Holds (cs ++
        [Cell.stored c.database.nextIdentity source glue (keeps c.config source glue) c.counters.conflicts
          (x :: y :: z :: rest)]) := by
  have fits := (Clause.accepted accepted source).2.1
  rw [filed_eq] at fits
  have store_eq : store c.config source glue c.counters.conflicts clause =
      storeLong x y (z :: rest) source glue (keeps c.config source glue) c.counters.conflicts := by
    rw [store, accepted]
    dsimp only
    rw [show (if source = .original then clause.sortedByIndex else clause) = _ from filed_eq]
  have stores := yields_storeLong h source glue (keeps c.config source glue) c.counters.conflicts fresh
    fits room
  rw [← store_eq] at stores
  have created : Yields (Context.create source glue clause) c (.ok (.long _ _)) { c with
      phase := if c.phase = .configuration then .input else c.phase, database := _ } :=
    Yields.bind (yields_modify fun _ => rfl) (Yields.get_bind (fun _ => rfl) (yields_onDatabase stores))
  obtain ⟨ms, outcome_eq⟩ := (Operation.yields_answered created .placed).outcome_eq
  have after_eq := congrArg Prod.snd outcome_eq
  refine ⟨_, ms, after_eq, holds_after after_eq ?_⟩
  exact (Storage.long filed_eq (List.cons_ne_nil _ _) accepted fresh room).holds h

/-- The log of a call does not matter to what is told in it. -/
theorem told_eq_drop {c' : Context π} {op : Operation} {ms : Array Message}
    (after_eq : op.after c = Logged.withMessages ms c') :
    op.told c = c'.database.events.toList.drop c.database.events.size := by
  rw [Operation.told, after_eq]
  rfl

/-- A database goes on to hold cells behind a lawful operation. -/
theorem exists_holds_step (h : c.database.Holds cs) {op : Operation} (lawful : op.Lawful c) :
    ∃ ds, (op.after c).database.Holds ds := by
  obtain ⟨c', ds, ms, after_eq, effect⟩ := exists_effect h lawful
  exact ⟨ds, holds_after after_eq (effect.holds h)⟩

/-- A database goes on to hold cells along a lawful run. -/
theorem exists_holds_run {ops : List Operation} (h : c.database.Holds cs) (follows : c.Follows ops) :
    ∃ ds, (c.run ops).database.Holds ds := by
  induction ops generalizing c cs with
  | nil => exact ⟨cs, h⟩
  | cons op ops ih =>
    obtain ⟨lawful, rest⟩ := follows
    obtain ⟨ds, next⟩ := exists_holds_step h lawful
    exact ih next rest

/-- Every database behind a lawful run of an empty context holds cells. -/
theorem exists_holds (config : Config) (predictor : π) {ops : List Operation}
    (follows : (ofConfig config predictor).Follows ops) :
    ∃ cs, ((ofConfig config predictor).run ops).database.Holds cs := by
  have start : (ofConfig config predictor).database.Holds [] := holds_nil
  exact exists_holds_run start follows

end Context

end ClauseStore
