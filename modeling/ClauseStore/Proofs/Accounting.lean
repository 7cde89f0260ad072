import ClauseStore.Proofs.Bookkeeping
import ClauseStore.Proofs.Journal

/-!
Accounting. Behind every lawful run the counts are those of the clauses: the live ones of each kind, the
bytes of garbage, all that were ever stored, and those that reductions have reported as removed. So no
call takes more from a count than it holds, and no compaction reclaims more bytes than are counted.
-/

namespace ClauseStore

open Cell Database

/-- The count of live clauses of a kind. -/
def Counts.live (redundant : Bool) (n : Counts) : Nat := if redundant then n.redundant else n.irredundant

/-- The count of clauses that a call reports as removed by a reduction. -/
def Answer.removed : Except Error Answer → Nat
  | .ok (.reported (.reduced n) _) => n
  | _ => 0

/-- Whether a clause comes to be, as an event tells. -/
def Event.isBirth : Event → Bool
  | .original .. | .addition .. => true
  | _ => false

/-- Whether a clause ends, as an event tells. -/
def Event.isDeath : Event → Bool
  | .deletion .. => true
  | _ => false

namespace Database

/-- A compaction from a start on reclaims no more bytes than are counted as garbage. -/
def Covers (db : Database) (start : Reference) : Prop :=
  (Compaction.ofStart db.arena start.offset).run.1.reclaimed ≤ db.counts.arenaGarbage

end Database

namespace Context

variable {π : Type} [Predictor π]

/-- The count of clauses that the reductions of a run have reported as removed. -/
def removals (c : Context π) : List Operation → Nat
  | [] => 0
  | op :: ops => Answer.removed (op.answer c) + (op.after c).removals ops

/-- The context in which a reduction is done with its eviction, and may turn to its compaction. -/
def evicted (c : Context π) (search : Snapshot) : Context π :=
  (outcome (evictAround (c.readied.scanStart (c.readied.whole search)) (c.readied.protects search))
    c.readied).2

/-- The counts of a context are those of its clauses, where its binary clauses are some clauses and
reductions have reported some count of clauses as removed. -/
structure Balanced (c : Context π) (bs : List BinaryClause) (removed : Nat) : Prop where
  /-- the binary clauses are those that are watched -/
  binds : c.database.Binds bs
  /-- the clauses of each kind are counted: the live long ones and the binary ones -/
  live_eq : ∀ redundant, c.database.counts.live redundant =
    (c.database.arena.liveOf redundant).length + (BinaryClause.ofKind redundant bs).length
  /-- the bytes of garbage are those of the garbage records -/
  garbage_eq : c.database.counts.arenaGarbage =
    wordBytes * total ((c.database.casualties .start).map c.database.arena.span)
  /-- whatever was stored is live, or garbage, or gone -/
  added_eq : c.database.counts.added = c.database.counts.irredundant + c.database.counts.redundant +
    c.database.counts.deleted + (c.database.casualties .start).length
  reduced_eq : c.database.counts.reduced = removed
  /-- no end of a clause was told that was not counted -/
  told_eq : c.database.counts.irredundant + c.database.counts.redundant +
    c.database.events.toList.countP Event.isDeath = c.database.events.toList.countP Event.isBirth
  /-- a clause that may be marked, promoted or deleted is one of those that are counted -/
  record_counted : ∀ o ∈ c.database.arena.live,
    0 < c.database.counts.live (c.database.arena.header o).flags.redundant
  binary_counted : ∀ x ∈ bs, 0 < c.database.counts.live x.redundant
  /-- a compaction reclaims no more than is counted, also within a reduction -/
  collect_covered : ∀ start, c.database.Boundary start → c.database.Covers start
  reduce_covered : ∀ search, (Operation.reduce search).Lawful c →
    (c.readied.scanStart (c.readied.whole search)).isValid = true →
    (c.evicted search).database.Covers (c.readied.scanStart (c.readied.whole search))
  /-- and one of the whole arena leaves no garbage -/
  emptied_eq : ((Operation.collect .start).after c).database.counts.arenaGarbage = 0

end Context

/-! ### The counts of live clauses -/

namespace Counts

variable {redundant kind : Bool} {n : Counts}

theorem live_stored (source : Source) : (n.stored source).live kind =
    n.live kind + if (source == .redundant) = kind then 1 else 0 := by
  cases source <;> cases kind <;> rfl

theorem live_retired : (n.retired redundant).live kind =
    n.live kind - if redundant = kind then 1 else 0 := by
  cases redundant <;> cases kind <;> rfl

theorem live_promoted : n.promoted.live kind =
    if kind then n.live true - 1 else n.live false + 1 := by
  cases kind <;> rfl

theorem live_eq_of_same {db db' : Database} (same : SameBooks db db') :
    db'.counts.live kind = db.counts.live kind := by
  cases kind
  · exact same.irredundant_eq
  · exact same.redundant_eq

end Counts

namespace Database

/-- The counts of live clauses and of all clauses are those of a row of cells and of some binary
clauses. -/
structure Booked (db : Database) (bs : List BinaryClause) (cs : List Cell) : Prop where
  live_eq : ∀ kind, db.counts.live kind = cs.countP (standsAs kind) + bs.countP (·.redundant == kind)
  added_eq : db.counts.added =
    db.counts.live false + db.counts.live true + db.counts.deleted + cs.countP isGarbage

namespace Booked

variable {db db' : Database} {bs : List BinaryClause} {cs ds xs ys : List Cell} {d : Cell}

theorem relaid (h : db.Booked bs cs) (same : SameBooks db db') (core_eq : ds.map core = cs.map core) :
    db'.Booked bs ds := by
  refine ⟨fun kind => ?_, ?_⟩
  · rw [Counts.live_eq_of_same same, h.live_eq,
      countP_eq_of_map_eq (map_eq_of_core standsAs_eq_of_core core_eq)]
  · rw [Counts.live_eq_of_same same, Counts.live_eq_of_same same, same.added_eq, same.deleted_eq,
      h.added_eq, countP_eq_of_map_eq (map_eq_of_core isGarbage_eq_of_core core_eq)]

theorem storedBinary (h : db.Booked bs cs) (a b : Literal) (source : Source) :
    (db.storedBinary a b source).Booked (bs ++ [⟨db.nextIdentity, a, b, source == .redundant⟩]) cs := by
  have added_eq := h.added_eq
  refine ⟨fun kind => ?_, ?_⟩
  · show (db.counts.stored source).live kind = _
    rw [Counts.live_stored, h.live_eq, List.countP_append, List.countP_singleton, Nat.add_assoc]
    simp only [beq_iff_eq]
  · show (db.counts.stored source).added = (db.counts.stored source).live false +
      (db.counts.stored source).live true + (db.counts.stored source).deleted + _
    rw [Counts.live_stored, Counts.live_stored]
    cases source <;> (simp [Counts.stored]; omega)

theorem storedLong (h : db.Booked bs cs) (a b : Literal) (rest : Clause) (source : Source)
    (glue : UInt32) (keep : Bool) (conflicts : UInt64) :
    (db.storedLong a b rest source glue keep conflicts cs).Booked bs
      (cs ++ [Cell.stored db.nextIdentity source glue keep conflicts (a :: b :: rest)]) := by
  have added_eq := h.added_eq
  have live : (Cell.stored db.nextIdentity source glue keep conflicts (a :: b :: rest)).isGarbage =
      false := rfl
  have kind_eq : (Cell.stored db.nextIdentity source glue keep conflicts
      (a :: b :: rest)).header.flags.redundant = (source == .redundant) := rfl
  refine ⟨fun kind => ?_, ?_⟩
  · show (db.counts.stored source).live kind = _
    rw [Counts.live_stored, h.live_eq, List.countP_append, List.countP_singleton, standsAs_of_live live,
      kind_eq]
    simp only [beq_iff_eq]
    omega
  · show (db.counts.stored source).added = (db.counts.stored source).live false +
      (db.counts.stored source).live true + (db.counts.stored source).deleted + _
    rw [Counts.live_stored, Counts.live_stored, List.countP_append, List.countP_singleton, live]
    cases source <;> (simp [Counts.stored]; omega)

theorem marked (h : db.Booked bs (xs ++ d :: ys)) (live : d.isGarbage = false) :
    (db.marked (extents xs) d (xs ++ d :: ys)).Booked bs
      (xs ++ d.revised (Header.withFlag .garbage true) :: ys) := by
  have live_eq := h.live_eq
  have added_eq := h.added_eq
  have garbage : (d.revised (Header.withFlag .garbage true)).isGarbage = true := rfl
  simp only [List.countP_append, List.countP_cons, standsAs_of_live live, live] at live_eq added_eq
  have kinds := live_eq d.header.flags.redundant
  refine ⟨fun kind => ?_, ?_⟩
  · have here := live_eq kind
    show (db.counts.retired d.header.flags.redundant).live kind = _
    rw [Counts.live_retired, List.countP_append, List.countP_cons, standsAs_garbage]
    simp only [beq_iff_eq, Bool.false_eq_true, if_false] at here ⊢
    split at here
    next own =>
      rw [if_pos own]
      omega
    next other =>
      rw [if_neg other]
      omega
  · show (db.counts.retired d.header.flags.redundant).added =
      (db.counts.retired d.header.flags.redundant).live false +
        (db.counts.retired d.header.flags.redundant).live true +
        (db.counts.retired d.header.flags.redundant).deleted + _
    rw [Counts.live_retired, Counts.live_retired, List.countP_append, List.countP_cons, garbage]
    cases redundant : d.header.flags.redundant <;>
      simp [Counts.retired, redundant] at kinds added_eq ⊢ <;> omega

theorem promoted (h : db.Booked bs (xs ++ d :: ys)) (live : d.isGarbage = false)
    (redundant : d.header.flags.redundant = true) (r : Reference) :
    (db.promoted r d (xs ++ d :: ys)).Booked bs
      (xs ++ d.revised (Header.withFlag .redundant false) :: ys) := by
  have live_eq := h.live_eq
  have added_eq := h.added_eq
  have live' : (d.revised (Header.withFlag .redundant false)).isGarbage = false := live
  have kind_eq : (d.revised (Header.withFlag .redundant false)).header.flags.redundant = false := rfl
  simp only [List.countP_append, List.countP_cons, standsAs_of_live live, live, redundant]
    at live_eq added_eq
  have learned := live_eq true
  refine ⟨fun kind => ?_, ?_⟩
  · have here := live_eq kind
    show db.counts.promoted.live kind = _
    rw [Counts.live_promoted, List.countP_append, List.countP_cons, standsAs_of_live live', kind_eq]
    cases kind <;> simp at here ⊢ <;> omega
  · show db.counts.promoted.added = db.counts.promoted.live false + db.counts.promoted.live true +
      db.counts.promoted.deleted + _
    rw [Counts.live_promoted, Counts.live_promoted, List.countP_append, List.countP_cons, live']
    simp [Counts.promoted] at learned added_eq ⊢
    omega

theorem shortened (h : db.Booked bs (xs ++ d :: ys)) (n : Nat) :
    (db.shortened n d (xs ++ d.shrunk n :: ys)).Booked bs (xs ++ d.shrunk n :: ys) := by
  have same : ∀ p : Cell → Bool, p (d.shrunk n) = p d →
      (xs ++ d.shrunk n :: ys).countP p = (xs ++ d :: ys).countP p := by
    intro p hp
    rw [List.countP_append, List.countP_append, List.countP_cons, List.countP_cons, hp]
  refine ⟨fun kind => ?_, ?_⟩
  · rw [same _ rfl]
    exact h.live_eq kind
  · rw [same _ rfl]
    exact h.added_eq

theorem collected (h : db.Booked bs (xs ++ ys)) (first last : Reference) :
    (db.collected xs ys first last).Booked bs (xs ++ settle db.arena.word (extents xs) ys) := by
  have live_eq := h.live_eq
  have added_eq := h.added_eq
  simp only [List.countP_append] at live_eq added_eq
  have kinds : ∀ kind, (settle db.arena.word (extents xs) ys).countP (standsAs kind) =
      ys.countP (standsAs kind) := by
    intro kind
    rw [countP_eq_of_map_eq (map_settle fun w c => standsAs_moved w c), List.countP_eq_length_filter,
      filter_standsAs_live, List.countP_eq_length_filter]
  have clean : (settle db.arena.word (extents xs) ys).countP isGarbage = 0 :=
    List.countP_eq_zero.2 fun c hc => by rw [isGarbage_of_mem_settle hc]; decide
  refine ⟨fun kind => ?_, ?_⟩
  · rw [List.countP_append, kinds]
    exact live_eq kind
  · show db.counts.added = db.counts.live false + db.counts.live true +
      (db.counts.deleted + (garbageOf ys).length) + _
    rw [List.countP_append, clean, garbageOf, ← List.countP_eq_length_filter]
    omega

theorem deletedBinary (h : db.Booked bs cs) {x : BinaryClause} {a b : Literal} {identity : UInt32}
    (w : Watches) (binds : db.Binds bs) (held : x ∈ bs) (own : x.Matches a b identity) :
    (db.deletedBinary a b x.redundant identity w).Booked
      (bs.filter fun y => y.identity ≠ identity) cs := by
  have live_eq := h.live_eq
  have added_eq := h.added_eq
  have split := BinaryClause.perm_cons_filter binds.apart held
  rw [own.1] at split
  simp only [split.countP_eq, List.countP_cons] at live_eq
  have kinds := live_eq x.redundant
  refine ⟨fun kind => ?_, ?_⟩
  · have here := live_eq kind
    show (db.counts.retired x.redundant).live kind = _
    rw [Counts.live_retired]
    simp only [beq_iff_eq] at here
    split at here <;> simp_all
  · show (db.counts.retired x.redundant).added = (db.counts.retired x.redundant).live false +
      (db.counts.retired x.redundant).live true + ((db.counts.retired x.redundant).deleted + 1) + _
    rw [Counts.live_retired, Counts.live_retired]
    cases redundant : x.redundant <;> simp [Counts.retired, redundant] at kinds added_eq ⊢ <;> omega

/-- Every way to revise the books keeps the counts. -/
theorem keeps : Bookkeeping Booked where
  relaid := relaid
  storedBinary h source _ _ := h.storedBinary _ _ source
  storedLong h source glue keep conflicts _ _ _ := h.storedLong _ _ _ source glue keep conflicts
  marked := marked
  promoted h live redundant _ _ := h.promoted live redundant _
  shortened n h _ _ := h.shortened n
  collected h _ first := h.collected first _
  deletedBinary h w binds held own := h.deletedBinary w binds held own

end Booked

/-! ### Reading the books -/

variable {db : Database} {bs : List BinaryClause} {cs xs ys : List Cell}

theorem Holds.length_liveOf (h : db.Holds cs) (redundant : Bool) :
    (db.arena.liveOf redundant).length = cs.countP (standsAs redundant) := by
  have places := h.map_liveOf redundant (f := fun _ => ()) (g := fun _ => ()) fun _ _ _ => rfl
  have lengths := congrArg List.length places
  rwa [List.length_map, List.length_map, ← List.countP_eq_length_filter] at lengths

theorem Holds.map_garbage {β : Type} {f : Nat → β} {g : Cell → β} (h : db.Holds cs)
    (view : ∀ k c, At 0 cs k c → f k = g c) :
    (db.casualties .start).map f = (garbageOf cs).map g := by
  have h : db.Holds ([] ++ cs) := h
  exact h.map_casualties view

/-- A compaction of what is held reclaims what is counted of it. -/
theorem Holds.covers (h : db.Holds (xs ++ ys)) : db.Covers (.ofOffset (extents xs)) := by
  have fits := h.fits_word
  have sum := extents_append xs ys
  have garbage_eq := h.garbage_eq
  rw [garbageOf, List.filter_append, extents_append, Nat.add_mul] at garbage_eq
  rw [Covers, h.start_eq, garbage_eq]
  refine Nat.le_trans (Nat.le_of_eq h.past.reclaimed_eq) ?_
  exact Nat.le_add_left ..

/-- A live clause is among those that are counted. -/
theorem Booked.record_counted (h : db.Booked bs cs) (holds : db.Holds cs) {o : Nat}
    (live : o ∈ db.arena.live) : 0 < db.counts.live (db.arena.header o).flags.redundant := by
  obtain ⟨c, hc, live⟩ := holds.mem_live.1 live
  have counted : 0 < cs.countP (standsAs c.header.flags.redundant) :=
    List.countP_pos_iff.2 ⟨c, hc.mem, by rw [standsAs_of_live live, beq_self_eq_true]⟩
  rw [holds.tiled.header_eq hc, h.live_eq]
  omega

theorem Booked.binary_counted (h : db.Booked bs cs) {x : BinaryClause} (hx : x ∈ bs) :
    0 < db.counts.live x.redundant := by
  have counted : 0 < bs.countP (·.redundant == x.redundant) :=
    List.countP_pos_iff.2 ⟨x, hx, beq_self_eq_true _⟩
  rw [h.live_eq]
  omega

/-! ### Clauses that reductions have removed -/

theorem reduced_markedAll (ms : List Placed) (cs : List Cell) (db : Database) :
    (db.markedAll ms cs).counts.reduced = db.counts.reduced := by
  induction ms generalizing cs db with
  | nil => rfl
  | cons m ms ih =>
    have step : (db.marked m.1 m.2 cs).counts.reduced = db.counts.reduced := by
      show (db.counts.retired m.2.header.flags.redundant).reduced = _
      cases m.2.header.flags.redundant <;> rfl
    exact (ih _ _).trans step

end Database

theorem Eviction.reduced_eq {plan : ScanPlan} {fraction : UInt32} {xs ys ds : List Cell}
    {db db' : Database} {r : Except Error (Option Nat)} (h : Eviction plan fraction xs ys db r db' ds) :
    db'.counts.reduced = db.counts.reduced + Reduction.evictedCount r := by
  cases h with
  | @removed p cs t t' es ms n =>
    show (markedAll ms cs (db.settledBehind cs t' p.first es)).counts.reduced + n = _
    rw [reduced_markedAll]
    rfl
  | _ => rfl

theorem Reduction.reduced_eq {π : Type} {c : Context π} {search : Snapshot} {cs ds : List Cell}
    {r : Except Error (Report × Snapshot)} {db : Database} (h : Reduction c search cs r db ds) :
    db.counts.reduced = c.database.counts.reduced + reportedCount r := by
  cases h with
  | failed _ _ eviction => exact eviction.reduced_eq
  | idle _ _ _ eviction => exact eviction.reduced_eq
  | @compacted _ _ _ _ _ found _ _ _ _ _ _ eviction =>
    refine eviction.reduced_eq.trans ?_
    cases found <;> rfl
  | _ => rfl

namespace Context

variable {π : Type} [Predictor π] {c : Context π} {bs : List BinaryClause} {cs : List Cell}

/-- What a call reports as removed is counted. -/
theorem reduced_step (holds : c.database.Holds cs) {op : Operation} (lawful : op.Lawful c) :
    (op.after c).database.counts.reduced =
      c.database.counts.reduced + Answer.removed (op.answer c) := by
  cases aside : op.aside with
  | true =>
    obtain ⟨db, ms, after_eq, sideline⟩ := exists_sideline holds aside
    rw [after_eq]
    generalize op.answer c = answer at sideline
    cases sideline with
    | @deleted _ _ redundant =>
      show (c.database.counts.retired redundant).reduced = _
      cases redundant <;> rfl
    | _ => rfl
  | false =>
    obtain ⟨c', ds, ms, after_eq, effect⟩ := exists_effect holds lawful
    rw [after_eq]
    generalize op.answer c = answer at effect
    cases effect with
    | beside aside' =>
      rw [aside'] at aside
      cases aside
    | @stored source _ _ _ _ _ _ storage =>
      cases storage with
      | refused => rfl
      | binary | long =>
        show (c.database.counts.stored source).reduced = _
        cases source <;> rfl
    | @marked _ d =>
      show (c.database.counts.retired d.header.flags.redundant).reduced = _
      cases d.header.flags.redundant <;> rfl
    | @reduced search r db ds counters predictor phase reduction =>
      refine reduction.reduced_eq.trans ?_
      rcases r with _ | ⟨_ | _ | _, _⟩ <;> rfl
    | _ => rfl

/-- What the reductions of a run report as removed is counted. -/
theorem reduced_run {ops : List Operation} (holds : c.database.Holds cs) (follows : c.Follows ops) :
    (c.run ops).database.counts.reduced = c.database.counts.reduced + c.removals ops := by
  induction ops generalizing c cs with
  | nil => rfl
  | cons op ops ih =>
    obtain ⟨lawful, rest⟩ := follows
    obtain ⟨ds, next⟩ := exists_holds_step holds lawful
    refine (ih next rest).trans ?_
    rw [reduced_step holds lawful, removals, Nat.add_assoc]

end Context

/-! ### Births and deaths -/

namespace Event

theorem length_replay? {held held' : List Numbered} {e : Event} (h : replay? held e = some held') :
    held'.length + (if e.isDeath then 1 else 0) = held.length + if e.isBirth then 1 else 0 := by
  cases e with
  | original | addition =>
    obtain rfl := Option.some.inj h
    simp [isDeath, isBirth]
  | features =>
    obtain rfl := Option.some.inj h
    rfl
  | deletion identity c =>
    rw [replay?] at h
    split at h
    next among =>
      obtain rfl := Option.some.inj h
      obtain ⟨x, hx, same⟩ := List.any_eq_true.1 among
      have pos := List.length_pos_of_mem hx
      rw [List.length_eraseP_of_mem hx same]
      simp only [isDeath, isBirth, if_true, Bool.false_eq_true, if_false]
      omega
    next => cases h

/-- A journal leaves as many clauses as were born and have not died. -/
theorem length_replayAll? {es : List Event} {held held' : List Numbered}
    (h : replayAll? held es = some held') :
    held'.length + es.countP isDeath = held.length + es.countP isBirth := by
  induction es generalizing held with
  | nil =>
    obtain rfl := Option.some.inj h
    rfl
  | cons e es ih =>
    rw [replayAll?_cons] at h
    obtain ⟨mid, first, rest⟩ := Option.bind_eq_some_iff.1 h
    have here := length_replay? first
    have behind := ih rest
    rw [List.countP_cons, List.countP_cons]
    omega

end Event

/-- A live clause is of one of the two kinds. -/
theorem Cell.length_living (cs : List Cell) :
    (living cs).length = cs.countP (standsAs false) + cs.countP (standsAs true) := by
  induction cs with
  | nil => rfl
  | cons c cs ih =>
    rw [List.countP_cons, List.countP_cons]
    cases garbage : c.isGarbage with
    | true =>
      rw [living_cons_garbage garbage, ih]
      simp [standsAs, garbage]
    | false =>
      rw [living_cons_live garbage, List.length_cons, ih, standsAs_of_live garbage,
        standsAs_of_live garbage]
      cases c.header.flags.redundant <;> (simp; omega)

theorem BinaryClause.length_kinds (bs : List BinaryClause) :
    bs.length = bs.countP (·.redundant == false) + bs.countP (·.redundant == true) := by
  rw [List.length_eq_countP_add_countP (fun b : BinaryClause => b.redundant == false)]
  congr 2
  funext b
  cases b.redundant <;> rfl

/-- The live clauses are counted by kind. -/
theorem Database.Booked.length_stock {db : Database} {bs : List BinaryClause} {cs : List Cell}
    (h : db.Booked bs cs) (holds : db.Holds cs) :
    (db.stock bs).length = db.counts.live false + db.counts.live true := by
  rw [stock, holds.stock_eq, List.length_append, List.length_map, length_living,
    BinaryClause.length_kinds bs, h.live_eq, h.live_eq]
  omega

namespace Context

variable {π : Type} [Predictor π] {c : Context π} {bs : List BinaryClause} {cs : List Cell}

/-- A compaction from the start of the arena leaves no garbage. -/
theorem emptied_eq (holds : c.database.Holds cs) :
    ((Operation.collect .start).after c).database.counts.arenaGarbage = 0 := by
  have holds : c.database.Holds ([] ++ cs) := holds
  obtain ⟨first, last, collects, -⟩ := yields_collect holds
  have performs : Yields (Operation.collect (.ofOffset (extents []))).perform c _ _ :=
    Operation.yields_answered (yields_onDatabase collects) .relocated
  obtain ⟨ms, outcome_eq⟩ := performs.outcome_eq
  have after_eq : (Operation.collect .start).after c = _ := congrArg Prod.snd outcome_eq
  rw [after_eq]
  show c.database.counts.arenaGarbage - extents (garbageOf cs) * wordBytes = 0
  rw [holds.garbage_eq, List.nil_append, Nat.sub_self]

/-- What is held behind the eviction of a reduction are records where they were before. -/
theorem exists_evicted (holds : c.database.Holds cs) {search : Snapshot}
    (lawful : (Operation.reduce search).Lawful c)
    (started : (c.readied.scanStart (c.readied.whole search)).isValid = true) :
    ∃ ds, (c.evicted search).database.Holds ds ∧ ds.map extent = cs.map extent := by
  by_cases named : ∀ r ∈ c.readied.protects search, ∃ d, At 0 cs r.offset d
  · obtain ⟨xs₀, ys₀, cs_eq, start₀⟩ := c.readied.exists_split holds started
    have same := (extent_flagged true (c.readied.protects search) cs).trans
      (congrArg (List.map extent) cs_eq)
    obtain ⟨xs, ys, split, extents_eq⟩ := Cell.exists_split same
    obtain ⟨r, db, ds, predictor, evict, eviction, -⟩ :=
      yields_evictAround c.readied holds named split (start₀.trans extents_eq.symm)
    obtain ⟨ms, outcome_eq⟩ := evict.outcome_eq
    have flags := holds.of_core (core_flagged true (c.readied.protects search) cs)
    rw [split] at flags
    refine ⟨flagged false (c.readied.protects search) ds, ?_, ?_⟩
    · rw [evicted, outcome_eq]
      exact ((eviction.holds flags).of_core (core_flagged ..)).logged ms
    · rw [extent_flagged, eviction.extent_eq, ← split, extent_flagged]
  · -- a reason that is no clause ends the reduction before its eviction
    have stray : ∃ r ∈ c.readied.protects search, ¬ ∃ d, At 0 cs r.offset d := by
      simpa only [Classical.not_forall, exists_prop] using named
    have places : ∀ r ∈ c.readied.protects search,
        (∃ d, At 0 cs r.offset d) ∨ c.database.arena.resolve? r = none :=
      fun r hr => (lawful r (List.mem_filter.1 hr).1).imp holds.tiled.mem_walk.1 id
    obtain ⟨done, -, -, -, -, -, flags⟩ :=
      Database.yields_forM_setReason_error holds true places stray
    have halts : Yields (evictAround (c.readied.scanStart (c.readied.whole search))
        (c.readied.protects search)) c.readied (.error (.arena .invalidReference))
        { c.readied with database := c.database.laid (flagged true done cs) } := by
      rw [evictAround, forM_onDatabase]
      exact (yields_onDatabase (c := c.readied) flags).bind_error
    obtain ⟨ms, outcome_eq⟩ := halts.outcome_eq
    refine ⟨flagged true done cs, ?_, extent_flagged ..⟩
    rw [evicted, outcome_eq]
    exact (holds.of_core (core_flagged true done cs)).logged ms

/-- The compaction of a reduction reclaims no more than is counted. -/
theorem reduce_covered (holds : c.database.Holds cs) {search : Snapshot}
    (lawful : (Operation.reduce search).Lawful c)
    (started : (c.readied.scanStart (c.readied.whole search)).isValid = true) :
    (c.evicted search).database.Covers (c.readied.scanStart (c.readied.whole search)) := by
  obtain ⟨ds, left, extents_eq⟩ := exists_evicted holds lawful started
  obtain ⟨xs, ys, rfl, start⟩ := c.readied.exists_split holds started
  obtain ⟨xs', ys', rfl, restart⟩ := Cell.exists_split extents_eq
  have covers := left.covers
  rwa [restart, ← start, ofOffset_offset] at covers

/-- The counts of a context are those of its clauses behind every lawful run, reductions that fail
included, whose deletions tell the kind of their binary clause. -/
theorem counts_balance (config : Config) (predictor : π) (ops : List Operation)
    (follows : (ofConfig config predictor).Follows ops)
    (candid : (ofConfig config predictor).Candid [] ops) :
    ((ofConfig config predictor).run ops).Balanced (BinaryClause.keep (ofConfig config predictor) ops [])
      ((ofConfig config predictor).removals ops) := by
  have start : (ofConfig config predictor).database.Holds [] := holds_nil
  have empty : (ofConfig config predictor).database.Booked [] [] := ⟨fun kind => by cases kind <;> rfl, rfl⟩
  obtain ⟨cs, holds, booked⟩ := Booked.keeps.run start binds_nil empty follows candid
  have binds : (ofConfig config predictor).database.Binds [] := binds_nil
  have untold : (ofConfig config predictor).database.Journaled [] := journaled_nil
  have journaled := journaled_run start binds untold follows
  have reduced := reduced_run start follows
  constructor
  case binds => exact binds_run start binds follows
  case live_eq =>
    intro redundant
    rw [holds.length_liveOf, BinaryClause.ofKind, ← List.countP_eq_length_filter]
    exact booked.live_eq redundant
  case garbage_eq =>
    rw [holds.map_garbage fun k c hc => holds.tiled.span_eq hc, total_map_extent, holds.garbage_eq,
      Nat.mul_comm]
  case added_eq =>
    have lengths := congrArg List.length (holds.map_garbage (f := fun _ => ()) (g := fun _ => ())
      fun _ _ _ => rfl)
    rw [List.length_map, List.length_map, garbageOf, ← List.countP_eq_length_filter] at lengths
    rw [lengths]
    exact booked.added_eq
  case reduced_eq => exact reduced.trans (Nat.zero_add _)
  case told_eq =>
    obtain ⟨held, replayed, perm⟩ := journaled.turns [] (.refl [])
    have lengths := Event.length_replayAll? replayed
    rw [perm.length_eq, booked.length_stock holds, List.length_nil, Nat.zero_add] at lengths
    exact lengths
  case record_counted => exact fun o => booked.record_counted holds
  case binary_counted => exact fun x => booked.binary_counted
  case collect_covered =>
    intro first boundary
    obtain ⟨xs, ys, rfl, rfl⟩ := Operation.exists_split_of_boundary holds boundary
    exact holds.covers
  case reduce_covered => exact fun search => reduce_covered holds
  case emptied_eq => exact emptied_eq holds

/-- Clauses that are stored, deleted, shortened, marked, promoted, compacted and reduced. -/
def countedRun : List Operation :=
  [.create .original 0 [⟨1⟩, ⟨2⟩, ⟨3⟩], .create .redundant 9 [⟨-1⟩, ⟨2⟩, ⟨4⟩, ⟨5⟩],
    .create .redundant 3 [⟨6⟩, ⟨5⟩], .create .redundant 9 [⟨3⟩, ⟨-4⟩, ⟨6⟩],
    .create .redundant 8 [⟨5⟩, ⟨-2⟩, ⟨3⟩], .shrink (.ofOffset 12) 3, .markGarbage (.ofOffset 12),
    .makeIrredundant (.ofOffset 24), .deleteBinary ⟨5⟩ ⟨6⟩ true 3, .collect (.ofOffset 12),
    .create .redundant 7 [⟨1⟩, ⟨-5⟩, ⟨6⟩], .noteConflict, .reduce { variableCount := 6, activeCount := 6 }]

theorem counts_balance_countedRun :
    (ofConfig {} ({} : Linear)).Follows countedRun ∧
      (ofConfig {} ({} : Linear)).Candid [] countedRun ∧
      (ofConfig {} ({} : Linear)).removals countedRun = 1 ∧
      ((ofConfig {} ({} : Linear)).run countedRun).Balanced
        (BinaryClause.keep (ofConfig {} ({} : Linear)) countedRun [])
        ((ofConfig {} ({} : Linear)).removals countedRun) := by
  have follows : (ofConfig {} ({} : Linear)).Follows countedRun := by decide +kernel
  have candid : (ofConfig {} ({} : Linear)).Candid [] countedRun := by decide +kernel
  have removed : (ofConfig {} ({} : Linear)).removals countedRun = 1 := by decide +kernel
  exact ⟨follows, candid, removed, counts_balance ({} : Config) ({} : Linear) countedRun follows candid⟩

end Context

end ClauseStore
