import ClauseStore.Proofs.Binding

/-!
Keeping books of the live clauses. Counts and occurrences are revised in few ways: a clause is stored,
marked, promoted, shortened or deleted, or the arena is compacted. A property of the books and of the
clauses that each of these ways keeps is kept by every lawful operation, reductions that fail included,
and so along every run whose deletions tell the kind of their binary clause.
-/

namespace ClauseStore

open Cell Database

/-! ### Deletions that tell the kind of their clause -/

instance (a b : Literal) (identity : UInt32) (x : BinaryClause) : Decidable (x.Matches a b identity) :=
  inferInstanceAs (Decidable (_ ∧ _))

/-- A deletion of a stored binary clause tells whether it was stored as redundant. -/
def Operation.Candid (bs : List BinaryClause) (op : Operation) : Prop :=
  match op with
  | .deleteBinary a b redundant identity => ∀ x ∈ bs, x.Matches a b identity → x.redundant = redundant
  | _ => True

instance (bs : List BinaryClause) (op : Operation) : Decidable (op.Candid bs) :=
  match op with
  | .deleteBinary a b redundant identity =>
    inferInstanceAs (Decidable (∀ x ∈ bs, x.Matches a b identity → x.redundant = redundant))
  | .configure _ | .listen _ | .create .. | .noteConflict | .notePropagation _ | .noteUip _ | .noteUsed _
  | .setReason .. | .shrink .. | .markGarbage _ | .makeIrredundant _ | .setWatching _ | .queuePending _
  | .takePending | .connectPending | .collect _ | .reduce _ => inferInstanceAs (Decidable True)

namespace Context

variable {π : Type} [Predictor π]

/-- Each deletion of a run tells the kind of its binary clause, where some binary clauses are stored
before the run. -/
def Candid (c : Context π) (bs : List BinaryClause) : List Operation → Prop
  | [] => True
  | op :: ops => op.Candid bs ∧ (op.after c).Candid (BinaryClause.record op (op.answer c) bs) ops

/-- Whether the deletions of a run tell the kinds of their clauses is decided call by call. -/
def decidableCandid (c : Context π) (bs : List BinaryClause) : (ops : List Operation) →
    Decidable (c.Candid bs ops)
  | [] => inferInstanceAs (Decidable True)
  | op :: ops =>
    have := decidableCandid (op.after c) (BinaryClause.record op (op.answer c) bs) ops
    inferInstanceAs (Decidable (op.Candid bs ∧
      (op.after c).Candid (BinaryClause.record op (op.answer c) bs) ops))

instance (c : Context π) (bs : List BinaryClause) (ops : List Operation) : Decidable (c.Candid bs ops) :=
  c.decidableCandid bs ops

end Context

/-! ### Live clauses by kind -/

/-- The records of an arena that are live and of a kind. -/
def Arena.liveOf (a : Arena) (redundant : Bool) : List Nat :=
  a.live.filter fun o => (a.header o).flags.redundant == redundant

/-- A live redundant record is a cell with a live redundant clause. -/
theorem Database.Holds.exists_learned {db : Database} {cs : List Cell} (holds : db.Holds cs) {o : Nat}
    (ho : o ∈ db.arena.liveOf true) :
    ∃ d, At 0 cs o d ∧ d.Learned ∧ db.arena.header o = d.header := by
  obtain ⟨live, redundant⟩ := List.mem_filter.1 ho
  obtain ⟨d, found, alive⟩ := holds.mem_live.1 live
  have header_eq := holds.tiled.header_eq found
  rw [header_eq, beq_iff_eq] at redundant
  exact ⟨d, found, ⟨alive, redundant⟩, header_eq⟩

/-- The binary clauses of a kind. -/
def BinaryClause.ofKind (redundant : Bool) (bs : List BinaryClause) : List BinaryClause :=
  bs.filter fun b => b.redundant == redundant

/-- Whether the clause of a cell is live and of a kind. -/
def Cell.standsAs (redundant : Bool) (c : Cell) : Bool :=
  !c.isGarbage && c.header.flags.redundant == redundant

namespace Cell

variable {redundant : Bool} {c d : Cell} {cs ds : List Cell}

theorem standsAs_eq_of_core (h : d.core = c.core) : d.standsAs redundant = c.standsAs redundant := by
  have essence_eq := essence_eq_of_core h
  simp only [essence, Prod.mk.injEq] at essence_eq
  rw [standsAs, standsAs, isGarbage_eq_of_core h, essence_eq.2.2.2.1]

theorem standsAs_of_live (live : c.isGarbage = false) :
    c.standsAs redundant = (c.header.flags.redundant == redundant) := by
  rw [standsAs, live, Bool.not_false, Bool.true_and]

@[simp] theorem standsAs_moved (w : UInt32) (c : Cell) :
    (c.moved w).standsAs redundant = c.standsAs redundant := rfl

@[simp] theorem standsAs_garbage (c : Cell) :
    (c.revised (Header.withFlag .garbage true)).standsAs redundant = false := rfl

/-- Rows of which a test says the same, cell by cell, are counted alike. -/
theorem countP_eq_of_map_eq {p : Cell → Bool} (h : ds.map p = cs.map p) : ds.countP p = cs.countP p := by
  have counts_eq := congrArg (List.countP id) h
  rwa [List.countP_map, List.countP_map, Function.id_comp] at counts_eq

/-- What is live stays where garbage is left out. -/
theorem filter_standsAs_live (redundant : Bool) (cs : List Cell) :
    (cs.filter fun c => !c.isGarbage).filter (standsAs redundant) = cs.filter (standsAs redundant) := by
  rw [List.filter_filter]
  refine List.filter_congr fun c _ => ?_
  cases garbage : c.isGarbage <;> simp [standsAs, garbage]

end Cell

/-- What is read off the live records of a kind is read off their cells. -/
theorem Database.Holds.map_liveOf {β : Type} {db : Database} {cs : List Cell} {f : Nat → β} {g : Cell → β}
    (h : db.Holds cs) (redundant : Bool) (view : ∀ k c, At 0 cs k c → f k = g c) :
    (db.arena.liveOf redundant).map f = (cs.filter (standsAs redundant)).map g := by
  rw [Arena.liveOf, Arena.live, h.tiled.walkFrom_zero, List.filter_filter]
  refine map_filter_offsets fun k c hc => ⟨?_, view k c hc⟩
  rw [h.tiled.header_eq hc, standsAs, isGarbage, Bool.and_comm]

/-! ### Properties that are kept -/

/-- The books stay, and the last irredundant clause that is cached, but for the count of the clauses that
reductions have removed and for the bytes of garbage. -/
structure Database.SameBooks (db db' : Database) : Prop where
  occurrences_eq : db'.occurrences = db.occurrences
  added_eq : db'.counts.added = db.counts.added
  irredundant_eq : db'.counts.irredundant = db.counts.irredundant
  redundant_eq : db'.counts.redundant = db.counts.redundant
  deleted_eq : db'.counts.deleted = db.counts.deleted
  last_eq : db'.lastIrredundant = db.lastIrredundant
  original_eq : db'.counts.original = db.counts.original
  /-- an identity may be drawn for a clause that is refused then -/
  next_le : db.nextIdentity.toNat ≤ db'.nextIdentity.toNat

/-- What the books say of clauses: all but the counts that a reduction and a compaction revise alone. -/
def Database.books (db : Database) : Occurrences × Counts × Reference × UInt32 :=
  (db.occurrences, { db.counts with reduced := 0, arenaGarbage := 0 }, db.lastIrredundant, db.nextIdentity)

theorem Database.SameBooks.of_books {db db' : Database} (h : db'.books = db.books) : SameBooks db db' := by
  simp only [books, Prod.mk.injEq, Counts.mk.injEq] at h
  obtain ⟨occurrences, ⟨added, original, irredundant, redundant, deleted, -⟩, last, next⟩ := h
  exact ⟨occurrences, added, irredundant, redundant, deleted, last, original, Nat.le_of_eq (by rw [next])⟩

/-- A property of the books, the binary clauses and the cells that each way to revise them keeps. -/
structure Bookkeeping (P : Database → List BinaryClause → List Cell → Prop) : Prop where
  /-- only what does not belong to the clauses is revised -/
  relaid {db db' : Database} {bs : List BinaryClause} {cs ds : List Cell} (h : P db bs cs)
    (same : SameBooks db db') (core_eq : ds.map core = cs.map core) : P db' bs ds
  storedBinary {db : Database} {bs : List BinaryClause} {cs : List Cell} {a b : Literal} (h : P db bs cs)
    (source : Source) (proper : a ≠ b) (fresh : db.nextIdentity ≠ 4294967295) :
    P (db.storedBinary a b source) (bs ++ [⟨db.nextIdentity, a, b, source == .redundant⟩]) cs
  storedLong {db : Database} {bs : List BinaryClause} {cs : List Cell} {a b : Literal} {rest : Clause}
    (h : P db bs cs) (source : Source) (glue : UInt32) (keep : Bool) (conflicts : UInt64)
    (distinct : (a :: b :: rest).Nodup) (holds : db.Holds cs) (fresh : db.nextIdentity ≠ 4294967295) :
    P (db.storedLong a b rest source glue keep conflicts cs) bs
      (cs ++ [Cell.stored db.nextIdentity source glue keep conflicts (a :: b :: rest)])
  marked {db : Database} {bs : List BinaryClause} {xs ys : List Cell} {d : Cell}
    (h : P db bs (xs ++ d :: ys)) (live : d.isGarbage = false) :
    P (db.marked (extents xs) d (xs ++ d :: ys)) bs
      (xs ++ d.revised (Header.withFlag .garbage true) :: ys)
  promoted {db : Database} {bs : List BinaryClause} {xs ys : List Cell} {d : Cell} {r : Reference}
    (h : P db bs (xs ++ d :: ys)) (live : d.isGarbage = false)
    (redundant : d.header.flags.redundant = true) (start : r.offset = extents xs)
    (holds : db.Holds (xs ++ d :: ys)) :
    P (db.promoted r d (xs ++ d :: ys)) bs (xs ++ d.revised (Header.withFlag .redundant false) :: ys)
  shortened {db : Database} {bs : List BinaryClause} {xs ys : List Cell} {d : Cell} (n : Nat)
    (h : P db bs (xs ++ d :: ys)) (live : d.isGarbage = false) (shorter : n < d.literals.length) :
    P (db.shortened n d (xs ++ d.shrunk n :: ys)) bs (xs ++ d.shrunk n :: ys)
  collected {db : Database} {bs : List BinaryClause} {xs ys : List Cell} (h : P db bs (xs ++ ys))
    (holds : db.Holds (xs ++ ys)) (first : Reference) :
    P (db.collected xs ys first (db.relast xs ys)) bs (xs ++ settle db.arena.word (extents xs) ys)
  deletedBinary {db : Database} {bs : List BinaryClause} {cs : List Cell} {x : BinaryClause}
    {a b : Literal} {identity : UInt32} (h : P db bs cs) (w : Watches) (binds : db.Binds bs) (held : x ∈ bs)
    (own : x.Matches a b identity) :
    P (db.deletedBinary a b x.redundant identity w) (bs.filter fun y => y.identity ≠ identity) cs

namespace Bookkeeping

variable {P : Database → List BinaryClause → List Cell → Prop} {db db' : Database}
  {bs : List BinaryClause} {cs ds xs ys : List Cell}

theorem markedAt (keeps : Bookkeeping P) (h : P db bs cs) {k : Nat} {d : Cell} (found : At 0 cs k d)
    (live : d.isGarbage = false) : P (db.marked k d cs) bs (markAt k cs) := by
  obtain ⟨xs, ys, rfl, rfl⟩ := found
  rw [Nat.zero_add, markAt_append]
  exact keeps.marked h live

theorem markedAll (keeps : Bookkeeping P) {ms : List Placed} (h : P db bs cs) (free : Markable ms cs) :
    P (db.markedAll ms cs) bs (markAll ms cs) := by
  induction ms generalizing db cs with
  | nil => exact h
  | cons m ms ih =>
    exact ih (keeps.markedAt h (free.placed m (by simp)) (free.live m (by simp))) free.tail

/-- An eviction marks some clauses, at most. -/
theorem eviction (keeps : Bookkeeping P) (h : P db bs (xs ++ ys)) {plan : ScanPlan} {fraction : UInt32}
    {r : Except Error (Option Nat)} (step : Eviction plan fraction xs ys db r db' ds) : P db' bs ds := by
  cases step with
  | failed pass =>
    exact keeps.relaid h (.of_books rfl) (core_of_lasting (Settlement.lasting_pass pass))
  | idle pass =>
    exact keeps.relaid h (.of_books rfl) (core_of_lasting (Settlement.lasting_pass pass))
  | unscored settled =>
    exact keeps.relaid h (.of_books rfl) (core_of_lasting settled.lasting)
  | @removed p cs t t' es ms n settled _ _ markable =>
    have behind : P (db.settledBehind cs t' p.first es) bs cs :=
      keeps.relaid h (.of_books rfl) (core_of_lasting settled.lasting)
    exact keeps.relaid (keeps.markedAll behind markable) (.of_books rfl) rfl

/-- A reduction marks some clauses and compacts, at most. -/
theorem reduction (keeps : Bookkeeping P) {π : Type} {c : Context π} (h : P c.database bs cs)
    (holds : c.database.Holds cs) {search : Snapshot} {r : Except Error (Report × Snapshot)}
    (step : Reduction c search cs r db ds) : P db bs ds := by
  have flags : P (c.database.laid (flagged true (c.protects search) cs)) bs
      (flagged true (c.protects search) cs) :=
    keeps.relaid h (.of_books rfl) (core_flagged ..)
  cases step with
  | unstarted => exact h
  | unsatisfiable => exact h
  | barred => exact keeps.relaid h (.of_books rfl) (core_flagged ..)
  | failed split start eviction =>
    rw [split] at flags
    exact keeps.relaid (keeps.eviction flags eviction) (.of_books rfl) (core_flagged ..)
  | idle part split start eviction =>
    rw [split] at flags
    exact keeps.relaid (keeps.eviction flags eviction) (.of_books rfl) (core_flagged ..)
  | @compacted xs ys ds xs' ys' found db first last asked split start eviction resplit restart first_at
      first_least named proceeds last_eq =>
    have flags_hold := holds.of_core (core_flagged true (c.protects search) cs)
    rw [split] at flags flags_hold
    have left : P (db.laid (flagged false (c.protects search) ds)) bs
        (flagged false (c.protects search) ds) :=
      keeps.relaid (keeps.eviction flags eviction) (.of_books rfl) (core_flagged ..)
    have left_holds : (db.laid (flagged false (c.protects search) ds)).Holds _ :=
      (eviction.holds flags_hold).of_core (core_flagged ..)
    rw [resplit] at left left_holds
    subst last_eq
    exact keeps.collected left left_holds first

/-- What an operation beside the long clauses does to the books. -/
theorem sideline (keeps : Bookkeeping P) (h : P db bs cs) (binds : db.Binds bs) {op : Operation}
    {r : Except Error Answer} (step : Sideline db op r db') (candid : op.Candid bs) :
    P db' (BinaryClause.record op r bs) cs := by
  cases step with
  | @deleted a b redundant identity w found =>
    have unwatching := Watches.unwatching binds.lists binds.proper binds.apart a b identity
    rw [found] at unwatching
    cases unwatching with
    | found held own =>
      obtain rfl := candid _ held own
      exact keeps.deletedBinary h w binds held own
  | _ => exact keeps.relaid h (.of_books rfl) rfl

/-- What storing does to the books. -/
theorem storage (keeps : Bookkeeping P) (h : P db bs cs) (holds : db.Holds cs) {config : Config}
    {source : Source} {glue : UInt32} {conflicts : UInt64} {c : Clause} {r : Except Error Placement}
    (step : Storage config source glue conflicts c cs db r db' ds) :
    P db' (BinaryClause.record (.create source glue c) (r.map .placed) bs) ds := by
  cases step with
  | refused _ _ drawn => exact keeps.relaid h ⟨rfl, rfl, rfl, rfl, rfl, rfl, rfl, drawn⟩ rfl
  | @binary a b literals_eq fresh accepted =>
    have distinct := Clause.nodup_filed accepted source
    have proper : a ≠ b := by
      rw [literals_eq] at distinct
      simpa using distinct
    simp only [BinaryClause.record, Except.map, literals_eq]
    exact keeps.storedBinary h source proper fresh
  | @long a b rest literals_eq long accepted fresh =>
    have distinct := Clause.nodup_filed accepted source
    rw [literals_eq] at distinct
    exact keeps.storedLong h source glue _ conflicts distinct holds fresh

/-- What any other operation does to the books. -/
theorem effect (keeps : Bookkeeping P) {π : Type} {c c' : Context π} (h : P c.database bs cs)
    {op : Operation} {r : Except Error Answer} (step : Effect c cs op r c' ds)
    (holds : c.database.Holds cs) (apart : op.aside = false) :
    P c'.database (BinaryClause.record op r bs) ds := by
  cases step with
  | configured => exact h
  | beside aside =>
    rw [aside] at apart
    cases apart
  | stored storage => exact keeps.storage h holds storage
  | noted note =>
    rw [BinaryClause.record_done apart]
    exact keeps.relaid h (.of_books rfl) (core_mapAt_only (Operation.core_of_note note) _ cs)
  | refused =>
    rw [BinaryClause.record_error]
    exact h
  | marked found live => exact keeps.markedAt h found live
  | @promoted r d found live redundant =>
    obtain ⟨xs, ys, rfl, start⟩ := found
    rw [Nat.zero_add] at start
    rw [start, promoteAt_append]
    exact keeps.promoted h live redundant start holds
  | shortened split start free =>
    subst split
    obtain ⟨live, -, shorter⟩ := barsShrink_eq_false (holds.sound _ (by simp)) free
    exact keeps.shortened _ h live shorter
  | @collected _ xs ys first last split _ _ _ last_eq =>
    subst split last_eq
    exact keeps.collected h holds first
  | reduced reduction => exact keeps.reduction (c := c.readied) h holds reduction

variable {π : Type} [Predictor π] {c : Context π}

/-- One step of a run keeps the books. -/
theorem step (keeps : Bookkeeping P) (holds : c.database.Holds cs) (binds : c.database.Binds bs)
    (h : P c.database bs cs) {op : Operation} (lawful : op.Lawful c) (candid : op.Candid bs) :
    ∃ ds, (op.after c).database.Holds ds ∧
      P (op.after c).database (BinaryClause.record op (op.answer c) bs) ds := by
  cases aside : op.aside with
  | true =>
    obtain ⟨db, ms, after_eq, sideline⟩ := Context.exists_sideline holds aside
    rw [after_eq]
    exact ⟨cs, (holds.beside sideline.beside).logged ms,
      keeps.relaid (keeps.sideline h binds sideline candid) (.of_books rfl) rfl⟩
  | false =>
    obtain ⟨c', ds, ms, after_eq, effect⟩ := Context.exists_effect holds lawful
    rw [after_eq]
    exact ⟨ds, (effect.holds holds).logged ms,
      keeps.relaid (keeps.effect h effect holds aside) (.of_books rfl) rfl⟩

/-- A run keeps the books. -/
theorem run (keeps : Bookkeeping P) {ops : List Operation} (holds : c.database.Holds cs)
    (binds : c.database.Binds bs) (h : P c.database bs cs) (follows : c.Follows ops)
    (candid : c.Candid bs ops) :
    ∃ ds, (c.run ops).database.Holds ds ∧ P (c.run ops).database (BinaryClause.keep c ops bs) ds := by
  induction ops generalizing c cs bs with
  | nil => exact ⟨cs, holds, h⟩
  | cons op ops ih =>
    obtain ⟨ds, next, kept⟩ := keeps.step holds binds h follows.1 candid.1
    exact ih next (Context.binds_step holds binds follows.1) kept follows.2 candid.2

end Bookkeeping

end ClauseStore
