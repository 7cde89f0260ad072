import ClauseStore.Proofs.Operation

/-!
Operations beside the long clauses, to the letter. They settle what becomes of the watch lists and of the
binary clauses: a deletion takes out both watches of a clause or is refused, and the queued clauses are
watched one after the other, up to one that is no clause.
-/

namespace ClauseStore

open Cell Database

/-- The watch lists after one clause of an arena is watched on its first two literals, unless it is
garbage. -/
def Watches.joined (a : Arena) (w : Watches) (r : Reference) : Watches :=
  if (a.header r.offset).flags.garbage then w
  else match a.literals r.offset with
    | x :: y :: _ => w.watchLong r x y
    | _ => w

namespace Database

/-- A database after a binary clause is deleted, which leaves some watch lists. -/
def deletedBinary (a b : Literal) (redundant : Bool) (identity : UInt32) (w : Watches)
    (db : Database) : Database :=
  let counts := db.counts.retired redundant
  { db with
    watches := w
    occurrences := if redundant then db.occurrences else db.occurrences.remove [a, b]
    counts := { counts with deleted := counts.deleted + 1 }
    events := db.events.push (.deletion identity [a, b]) }

variable {db : Database} {cs : List Cell} {a b : Literal} {identity : UInt32} {w : Watches}

/-! ### Deletions of binary clauses -/

theorem yields_deleteBinary (redundant : Bool)
    (found : db.watches.unwatchBinary a b identity = (none, w)) :
    Yields (deleteBinary a b redundant identity) db (.ok ())
      (db.deletedBinary a b redundant identity w) := by
  refine Yields.get_bind (fun _ => rfl) ?_
  dsimp only
  rw [found]
  refine Yields.bind (yields_modify fun _ => rfl) ((yields_log _).bind ?_)
  exact (yields_retire redundant _).bind ((yields_recount _).bind (yields_announce _))

theorem yields_deleteBinary_missing {l : Literal} (redundant : Bool)
    (missing : db.watches.unwatchBinary a b identity = (some l, w)) :
    Yields (deleteBinary a b redundant identity) db (.error (.clause .missing))
      { db with watches := w } := by
  refine Yields.get_bind (fun _ => rfl) ?_
  dsimp only
  rw [missing]
  exact Yields.bind (yields_modify fun _ => rfl) (yields_refuse _ _)

/-! ### Queued clauses -/

/-- A clause is watched, or what is watched is none. -/
theorem yields_connect (h : db.Holds cs) (r : Reference) :
    Yields (connect r) db (.ok ()) { db with watches := db.watches.joined db.arena r } ∨
      ∃ e, Yields (connect r) db (.error e) db ∧ r.offset ∉ (db.arena.walkFrom 0).1 := by
  cases resolved : db.arena.resolve? r with
  | none =>
    refine .inr ⟨_, (yields_offsetOf_none resolved _).bind_error, fun record => ?_⟩
    obtain ⟨c, hc⟩ := h.tiled.mem_walk.1 record
    rw [h.resolve?_eq hc] at resolved
    cases resolved
  | some o =>
    obtain rfl : r.offset = o := by
      rw [Arena.resolve?] at resolved
      split at resolved
      · exact Option.some.inj resolved
      · cases resolved
    have opened : ∀ {res db'}, Yields _ db res db' → Yields (connect r) db res db' := fun rest =>
      (yields_offsetOf resolved asClauseError).bind ((yields_recordAt r.offset).bind rest)
    have header_eq : (db.arena.record r.offset).header = db.arena.header r.offset := rfl
    have literals_eq : (db.arena.record r.offset).literals = db.arena.literals r.offset := rfl
    rw [Watches.joined]
    by_cases garbage : (db.arena.header r.offset).flags.garbage = true
    · refine .inl (opened ?_)
      rw [header_eq, if_pos garbage, if_pos garbage]
      exact yields_pure () db
    · rcases literals : db.arena.literals r.offset with _ | ⟨x, _ | ⟨y, rest⟩⟩
      case cons.cons =>
        refine .inl (opened ?_)
        rw [header_eq, literals_eq, if_neg garbage, if_neg garbage, literals]
        exact yields_modify fun _ => rfl
      -- a record has more than two literals
      all_goals
        refine .inr ⟨.clause .missing, opened ?_, fun record => ?_⟩
        · rw [header_eq, literals_eq, if_neg garbage, literals]
          exact yields_throw _ _
        · obtain ⟨c, hc⟩ := h.tiled.mem_walk.1 record
          have long := (h.tiled.sound_at hc).long
          rw [← h.tiled.literals_eq hc, literals] at long
          simp at long

/-- Clauses are watched in turn, up to the first that is none. -/
theorem yields_forM_connect (h : db.Holds cs) (rs : List Reference) :
    Yields (rs.forM connect) db (.ok ()) { db with
        watches := rs.foldl (Watches.joined db.arena) db.watches } ∨
      ∃ e done r rest, rs = done ++ r :: rest ∧ r.offset ∉ (db.arena.walkFrom 0).1 ∧
        Yields (rs.forM connect) db (.error e) { db with
          watches := done.foldl (Watches.joined db.arena) db.watches } := by
  induction rs generalizing db with
  | nil => exact .inl yields_forM_nil
  | cons r rs ih =>
    rcases yields_connect h r with first | ⟨e, halt, stray⟩
    · have left : Database.Holds { db with watches := db.watches.joined db.arena r } cs :=
        h.beside ⟨rfl, rfl, rfl, rfl, Nat.le_refl _⟩
      rcases ih left with rest | ⟨e, done, s, rest, rfl, stray, halt⟩
      · exact .inl (first.forM_cons rest)
      · exact .inr ⟨e, r :: done, s, rest, rfl, stray, first.forM_cons halt⟩
    · exact .inr ⟨e, [], r, rs, rfl, stray, halt.bind_error⟩

end Database

/-! ### What the operations come to -/

/-- What an operation beside the long clauses does to a database, with its answer. -/
inductive Sideline (db : Database) : Operation → Except Error Answer → Database → Prop where
  | listened {exporting : Bool} : Sideline db (.listen exporting) (.ok .done) { db with exporting }
  | counted : Sideline db .noteConflict (.ok .done) db
  | deleted {a b : Literal} {redundant : Bool} {identity : UInt32} {w : Watches}
    (found : db.watches.unwatchBinary a b identity = (none, w)) :
    Sideline db (.deleteBinary a b redundant identity) (.ok .done)
      (db.deletedBinary a b redundant identity w)
  | missing {a b l : Literal} {redundant : Bool} {identity : UInt32} {w : Watches}
    (missing : db.watches.unwatchBinary a b identity = (some l, w)) :
    Sideline db (.deleteBinary a b redundant identity) (.error (.clause .missing))
      { db with watches := w }
  | watching {value : Bool} :
    Sideline db (.setWatching value) (.ok .done) { db with watches.watching := value }
  | queued {r : Reference} :
    Sideline db (.queuePending r) (.ok .done) { db with watches := db.watches.queue r }
  | taken : Sideline db .takePending (.ok (.queued db.watches.pending)) { db with watches.pending := [] }
  | connected : Sideline db .connectPending (.ok .done) { db with
      watches := { db.watches.pending.foldl (Watches.joined db.arena)
        { db.watches with pending := [] } with watching := true } }
  /-- one of the queued references is to no clause -/
  | halted {e : Error} {done rest : List Reference} {r : Reference}
    (split : db.watches.pending = done ++ r :: rest) (stray : r.offset ∉ (db.arena.walkFrom 0).1) :
    Sideline db .connectPending (.error e) { db with
      watches := done.foldl (Watches.joined db.arena) { db.watches with pending := [] } }

/-- Long clauses are not concerned. -/
theorem Sideline.beside {db db' : Database} {op : Operation} {r : Except Error Answer}
    (h : Sideline db op r db') : Beside db db' := by
  cases h with
  | @deleted _ _ redundant =>
    have arenaGarbage_eq : (db.counts.retired redundant).arenaGarbage = db.counts.arenaGarbage := by
      cases redundant <;> rfl
    exact ⟨rfl, rfl, rfl, arenaGarbage_eq, Nat.le_refl _⟩
  | _ => exact ⟨rfl, rfl, rfl, rfl, Nat.le_refl _⟩

namespace Context

variable {π : Type} {c : Context π} {cs : List Cell}

theorem yields_connectPending (h : c.database.Holds cs) : ∃ r db,
    Yields (onDatabase (π := π) Database.connectPending) c r { c with database := db } ∧
      Sideline c.database .connectPending (r.map fun _ => .done) db := by
  have emptied : Database.Holds { c.database with
      watches := { c.database.watches with pending := [] } } cs :=
    h.beside ⟨rfl, rfl, rfl, rfl, Nat.le_refl _⟩
  have opened : ∀ {r db}, Yields _ { c.database with
      watches := { c.database.watches with pending := [] } } r db →
      Yields Database.connectPending c.database r db := fun rest =>
    Yields.get_bind (fun _ => rfl) (Yields.bind (yields_modify fun _ => rfl)
      ((Database.yields_log (.connecting c.database.watches.pending.length)).bind rest))
  rcases yields_forM_connect emptied c.database.watches.pending with
    whole | ⟨e, done, r, rest, split, stray, halt⟩
  · refine ⟨.ok (), _, yields_onDatabase (opened (whole.bind ?_)), .connected⟩
    exact (Database.yields_log _).bind (yields_modify fun _ => rfl)
  · exact ⟨.error e, _, yields_onDatabase (opened halt.bind_error), .halted split stray⟩

variable [Predictor π]

/-- What an operation beside the long clauses comes to. -/
theorem exists_sideline (h : c.database.Holds cs) {op : Operation} (aside : op.aside = true) :
    ∃ db ms, (op.after c).database = Logged.withMessages ms db ∧
      Sideline c.database op (op.answer c) db := by
  have told : ∀ {r c'}, Yields op.perform c r c' → Sideline c.database op r c'.database →
      ∃ db ms, (op.after c).database = Logged.withMessages ms db ∧
        Sideline c.database op (op.answer c) db := by
    intro r c' perform sideline
    obtain ⟨ms, outcome_eq⟩ := perform.outcome_eq
    refine ⟨c'.database, ms, by rw [Operation.after, outcome_eq]; rfl, ?_⟩
    rw [Operation.answer, outcome_eq]
    exact sideline
  cases op with
  | listen exporting => exact told (Yields.bind (yields_modify fun _ => rfl) (yields_pure _ _)) .listened
  | noteConflict => exact told (Yields.bind (yields_modify fun _ => rfl) (yields_pure _ _)) .counted
  | deleteBinary a b redundant identity =>
    rcases result : c.database.watches.unwatchBinary a b identity with ⟨_ | l, w⟩
    · have deletes := yields_onDatabase (yields_deleteBinary redundant result)
      exact told (Operation.yields_answered deletes fun _ => .done) (.deleted result)
    · have refuses := yields_onDatabase (yields_deleteBinary_missing redundant result)
      exact told (Operation.yields_answered refuses fun _ => .done) (.missing result)
  | setWatching value =>
    have set_eq : Yields (setWatching value) c (.ok ()) _ :=
      (yields_log _).bind (yields_modify fun _ => rfl)
    exact told (Operation.yields_answered set_eq fun _ => .done) .watching
  | queuePending r => exact told (Yields.bind (yields_modify fun _ => rfl) (yields_pure _ _)) .queued
  | takePending =>
    have takes : Yields takePending c _ _ :=
      Yields.get_bind (fun _ => rfl) (Yields.bind (yields_modify fun _ => rfl) (yields_pure _ _))
    exact told (Operation.yields_answered takes .queued) .taken
  | connectPending =>
    obtain ⟨r, db, connects, sideline⟩ := yields_connectPending h
    exact told (Operation.yields_answered connects fun _ => .done) sideline
  | _ => cases aside

end Context

end ClauseStore
