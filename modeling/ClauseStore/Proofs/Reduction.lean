import ClauseStore.Proofs.Collection
import ClauseStore.Proofs.Eviction
import ClauseStore.Reduction

/-!
Reductions on a row of cells. A reduction flags the reasons behind its start, evicts, and clears the
flags again; where it goes on to a compaction, that is one of the cells behind the start. What is
scheduled, and in which phase the context is, does not concern the database.
-/

namespace ClauseStore

open Cell Database

namespace Cell

/-- The cells with the flag of a reason set, or cleared, on those at some references. -/
def flagged (value : Bool) (rs : List Reference) (cs : List Cell) : List Cell :=
  mapAt (fun k h => if k ∈ rs.map Reference.offset then h.withFlag .reason value else h) 0 cs

variable {value : Bool} {r : Reference} {rs : List Reference} {cs : List Cell}

theorem core_withFlag_reason (value : Bool) (h : Header) : (h.withFlag .reason value).core = h.core :=
  rfl

theorem core_flagged (value : Bool) (rs : List Reference) (cs : List Cell) :
    (flagged value rs cs).map core = cs.map core := by
  refine map_revised_mapAt (fun k d => ?_) 0 cs
  split
  · exact core_withFlag_reason value d
  · rfl

@[simp] theorem flagged_nil (value : Bool) (cs : List Cell) : flagged value [] cs = cs :=
  mapAt_self fun k c _ => by simp

theorem flagged_cons (value : Bool) (r : Reference) (rs : List Reference) (cs : List Cell) :
    flagged value (r :: rs) cs =
      flagged value rs (mapAt (Arena.only r.offset (Header.withFlag .reason value)) 0 cs) := by
  rw [flagged, flagged, mapAt_mapAt]
  refine mapAt_congr fun k c _ => ?_
  simp only [List.map_cons, List.mem_cons, Arena.only]
  by_cases hk : k = r.offset
  · simp [hk, Header.withFlag, Flags.set]
  · rw [if_neg hk, id]
    by_cases hm : k ∈ rs.map Reference.offset
    · rw [if_pos hm, if_pos (.inr hm)]
    · rw [if_neg hm, if_neg fun h => h.elim hk hm]

theorem extent_flagged (value : Bool) (rs : List Reference) (cs : List Cell) :
    (flagged value rs cs).map extent = cs.map extent := extent_mapAt 0 cs

/-- Flags do not move a cell. -/
theorem at_flagged {k : Nat} : (∃ d, At 0 (flagged value rs cs) k d) ↔ ∃ d, At 0 cs k d := by
  rw [← mem_offsets, offsets_eq (extent_flagged value rs cs), mem_offsets]

end Cell

namespace Database

variable {db : Database} {cs : List Cell}

/-- A reference to a clause, or one that stands for no place of the arena. -/
def Addresses (db : Database) (r : Reference) : Prop :=
  r.offset ∈ (db.arena.walkFrom 0).1 ∨ db.arena.resolve? r = none

/-- The references are to clauses. -/
def Names (db : Database) (rs : List Reference) : Prop := ∀ r ∈ rs, r.offset ∈ (db.arena.walkFrom 0).1

instance (db : Database) (rs : List Reference) : Decidable (db.Names rs) :=
  inferInstanceAs (Decidable (∀ r ∈ rs, r.offset ∈ (db.arena.walkFrom 0).1))

/-- A database with other cells. -/
def laid (cs : List Cell) (db : Database) : Database := { db with arena := .ofCells cs }

theorem yields_setReason (h : db.Holds cs) {r : Reference} {c : Cell} (hc : At 0 cs r.offset c)
    (value : Bool) : Yields (setReason r value) db (.ok ())
      (db.laid (mapAt (Arena.only r.offset (Header.withFlag .reason value)) 0 cs)) :=
  yields_note h hc _

/-- Reasons that are clauses are flagged, or their flags cleared, without a failure. -/
theorem yields_forM_setReason (h : db.Holds cs) {rs : List Reference} (value : Bool)
    (named : ∀ r ∈ rs, ∃ c, At 0 cs r.offset c) :
    Yields (rs.forM fun r => setReason r value) db (.ok ()) (db.laid (flagged value rs cs)) := by
  induction rs generalizing db cs with
  | nil =>
    rw [flagged_nil, laid, ← h.arena_eq]
    exact yields_forM_nil
  | cons r rs ih =>
    obtain ⟨c, hc⟩ := named r (by simp)
    have next := ih (h.noted (core_withFlag_reason value) r.offset) fun r' hr' => by
      obtain ⟨d, hd⟩ := named r' (by simp [hr'])
      exact ⟨_, at_mapAt.2 ⟨d, hd, rfl⟩⟩
    rw [flagged_cons]
    exact Yields.forM_cons (g := fun r => setReason r value) (yields_setReason h hc value) next

/-- A reason that stands for no clause ends the flagging, with the reasons before it flagged. -/
theorem yields_forM_setReason_error (h : db.Holds cs) {rs : List Reference} (value : Bool)
    (addressed : ∀ r ∈ rs, (∃ c, At 0 cs r.offset c) ∨ db.arena.resolve? r = none)
    (stray : ∃ r ∈ rs, ¬ ∃ c, At 0 cs r.offset c) :
    ∃ done r rest, rs = done ++ r :: rest ∧ (∀ q ∈ done, ∃ c, At 0 cs q.offset c) ∧
      (¬ ∃ c, At 0 cs r.offset c) ∧
      Yields (rs.forM fun r => setReason r value) db (.error (.arena .invalidReference))
        (db.laid (flagged value done cs)) := by
  induction rs generalizing db cs with
  | nil =>
    obtain ⟨r, hr, -⟩ := stray
    cases hr
  | cons r rs ih =>
    by_cases hc : ∃ c, At 0 cs r.offset c
    · obtain ⟨c, hc⟩ := hc
      have still : ∀ {r' : Reference}, (∃ d, At 0 (mapAt (Arena.only r.offset
          (Header.withFlag .reason value)) 0 cs) r'.offset d) ↔ ∃ d, At 0 cs r'.offset d := by
        intro r'
        constructor
        · rintro ⟨d, hd⟩
          obtain ⟨e, he, -⟩ := at_mapAt.1 hd
          exact ⟨e, he⟩
        · rintro ⟨e, he⟩
          exact ⟨_, at_mapAt.2 ⟨e, he, rfl⟩⟩
      obtain ⟨r', hr', hstray⟩ := stray
      have behind : r' ∈ rs := by
        rcases List.mem_cons.1 hr' with rfl | hr'
        · exact absurd ⟨c, hc⟩ hstray
        · exact hr'
      have kept := h.noted (core_withFlag_reason value) r.offset
      obtain ⟨done, bad, rest, rfl, named, none_bad, next⟩ := ih kept (fun q hq => by
        refine (addressed q (by simp [hq])).imp still.2 fun unresolved => ?_
        rw [Arena.resolve?] at unresolved ⊢
        have size_eq : ∀ ds : List Cell, (Arena.ofCells ds).size = extents ds := Arena.size_ofCells
        simp only [Arena.resolves, h.arena_eq, size_eq, extents_mapAt] at unresolved ⊢
        exact unresolved) ⟨r', behind, fun hd => hstray (still.1 hd)⟩
      refine ⟨r :: done, bad, rest, rfl, fun q hq => ?_, fun hd => none_bad (still.2 hd), ?_⟩
      · rcases List.mem_cons.1 hq with rfl | hq
        · exact ⟨c, hc⟩
        · exact still.1 (named q hq)
      · rw [flagged_cons]
        exact Yields.forM_cons (g := fun r => setReason r value) (yields_setReason h hc value) next
    · have unresolved := (addressed r (by simp)).resolve_left hc
      refine ⟨[], r, rs, rfl, by simp, hc, ?_⟩
      rw [flagged_nil, laid, ← h.arena_eq]
      exact (yields_note_none unresolved _).bind_error

end Database

namespace Context

variable {π : Type}

/-- Whether so many variables are inactive that the whole arena is compacted. -/
def whole (c : Context π) (search : Snapshot) : Bool :=
  c.config.reducing.compact.value &&
    decide (search.variableCount * c.config.reducing.compactLimit.value.toUInt64 / 100 <
      elapsed search.variableCount search.activeCount)

/-- The reasons of a search that are flagged: those behind the start of the scan. -/
def protects (c : Context π) (search : Snapshot) : List Reference :=
  search.reasons.filter fun r => decide (c.scanStart (c.whole search) ≤ r)

/-- Whether a reduction comes to flag reasons: it has a start, and its search is consistent. -/
def Proceeds (c : Context π) (search : Snapshot) : Prop :=
  (c.scanStart (c.whole search)).isValid = true ∧ search.inconsistent = false

/-- The plan of the scan. -/
def plan (c : Context π) : ScanPlan :=
  .ofConfig c.config c.counters.conflicts c.counters.lastReduction

end Context

/-! ### What a reduction comes to -/

/-- What a reduction comes to before the next one is scheduled, with the database and the cells it
leaves. -/
inductive Reduction {π : Type} (c : Context π) (search : Snapshot) (cs : List Cell) :
    Except Error (Report × Snapshot) → Database → List Cell → Prop where
  /-- there is no clause to start from -/
  | unstarted (nowhere : (c.scanStart (c.whole search)).isValid = false) :
    Reduction c search cs (.ok (.nothingToReduce, search)) c.database cs
  /-- the search is inconsistent -/
  | unsatisfiable (inconsistent : search.inconsistent = true) :
    Reduction c search cs (.ok (.unsatisfiable, search)) c.database cs
  /-- one of the reasons is no clause -/
  | barred {done : List Reference} (stray : ∃ r ∈ search.reasons, ¬ ∃ d, At 0 cs r.offset d)
    (started : (c.scanStart (c.whole search)).isValid = true) (consistent : search.inconsistent = false)
    (halted : ∃ r rest, c.protects search = done ++ r :: rest ∧
      (∀ q ∈ done, ∃ d, At 0 cs q.offset d) ∧ ¬ ∃ d, At 0 cs r.offset d) :
    Reduction c search cs (.error (.arena .invalidReference)) (c.database.laid (flagged true done cs))
      (flagged true done cs)
  /-- the eviction fails -/
  | failed {xs ys ds : List Cell} {e : Error} {db : Database}
    (split : flagged true (c.protects search) cs = xs ++ ys)
    (start : (c.scanStart (c.whole search)).offset = extents xs)
    (eviction : Eviction c.plan c.config.reducing.fraction.value xs ys
      (c.database.laid (xs ++ ys)) (.error e) db ds)
    (named : ∀ r ∈ c.protects search, ∃ d, At 0 cs r.offset d) (proceeds : c.Proceeds search) :
    Reduction c search cs (.error e) (db.laid (flagged false (c.protects search) ds))
      (flagged false (c.protects search) ds)
  /-- no candidate is found, and the arena stays as it is -/
  | idle {xs ys ds : List Cell} {db : Database} (part : c.whole search = false)
    (split : flagged true (c.protects search) cs = xs ++ ys)
    (start : (c.scanStart (c.whole search)).offset = extents xs)
    (eviction : Eviction c.plan c.config.reducing.fraction.value xs ys
      (c.database.laid (xs ++ ys)) (.ok none) db ds)
    (named : ∀ r ∈ c.protects search, ∃ d, At 0 cs r.offset d) (proceeds : c.Proceeds search) :
    Reduction c search cs (.ok (.nothingToReduce, search))
      (db.laid (flagged false (c.protects search) ds)) (flagged false (c.protects search) ds)
  /-- some clauses are removed, or no candidate is found, and the arena is compacted from the start -/
  | compacted {xs ys ds xs' ys' : List Cell} {found : Option Nat} {db : Database}
    {first last : Reference} (asked : found = none → c.whole search = true)
    (split : flagged true (c.protects search) cs = xs ++ ys)
    (start : (c.scanStart (c.whole search)).offset = extents xs)
    (eviction : Eviction c.plan c.config.reducing.fraction.value xs ys
      (c.database.laid (xs ++ ys)) (.ok found) db ds)
    (resplit : flagged false (c.protects search) ds = xs' ++ ys') (restart : extents xs' = extents xs)
    (first_at : first.isValid = true → ∃ d, At (extents xs')
      (settle (Arena.ofCells (xs' ++ ys')).word (extents xs') ys') first.offset d)
    (first_least : NoneBefore first (extents xs')
      (settle (Arena.ofCells (xs' ++ ys')).word (extents xs') ys'))
    (named : ∀ r ∈ c.protects search, ∃ d, At 0 cs r.offset d) (proceeds : c.Proceeds search)
    (last_eq : last = (db.laid (xs' ++ ys')).relast xs' ys') :
    Reduction c search cs
      (.ok (found.elim .nothingToReduce .reduced, search.relocate (relocationOf xs' ys')))
      ((db.laid (xs' ++ ys')).collected xs' ys' first last)
      (xs' ++ settle (Arena.ofCells (xs' ++ ys')).word (extents xs') ys')

namespace Context

variable {π : Type} {cs : List Cell}

/-- What follows an eviction tells no event, and revises nothing of the table but its references. -/
structure Leaves (db db' : Database) : Prop where
  events_eq : db'.events = db.events
  table_eq : db'.table = db.table ∨ ∃ m, db'.table = db.table.relocate m

/-- Where rows of statistics are kept, a scan is one of the whole arena. -/
theorem scanStart_of_collecting (c : Context π) (collecting : c.config.collecting = true) (whole : Bool) :
    c.scanStart whole = .start := by
  rw [scanStart, collecting, Bool.or_true, if_pos rfl]

/-- A scan starts between two cells, if it starts at all. -/
theorem exists_split (c : Context π) (h : c.database.Holds cs) {whole : Bool}
    (valid : (c.scanStart whole).isValid = true) :
    ∃ xs ys, cs = xs ++ ys ∧ (c.scanStart whole).offset = extents xs := by
  rw [scanStart] at valid ⊢
  split
  · exact ⟨[], cs, rfl, rfl⟩
  next part =>
    rw [if_neg part] at valid
    obtain ⟨d, xs, ys, rfl, offset_eq⟩ := h.first_eq valid
    exact ⟨xs, d :: ys, rfl, by omega⟩

theorem yields_narrate (m : Context π → Message) (blind : ∀ c ms, m (Logged.withMessages ms c) = m c)
    (c : Context π) : Yields (narrate m) c (.ok ()) c := by
  refine Yields.get_bind (fun ms => ?_) (yields_onDatabase (Database.yields_logIf _ _))
  rw [blind]
  rfl

theorem yields_compacting (c : Context π) (search : Snapshot) :
    Yields (compacting search) c (.ok (c.whole search)) c := by
  refine Yields.get_bind (fun _ => rfl) ?_
  dsimp only
  rw [whole]
  split
  next asked =>
    rw [asked, Bool.true_and]
    exact (yields_log _).bind (yields_pure _ _)
  next refused =>
    rw [Bool.not_eq_true] at refused
    rw [refused, Bool.false_and]
    exact yields_pure _ _

/-- What follows an eviction that did not fail. -/
theorem yields_conclude (c : Context π) (h : c.database.Holds cs) {search : Snapshot} {xs ys ds : List Cell}
    {found : Option Nat} {db : Database} (predictor : π)
    (named : ∀ r ∈ c.protects search, ∃ d, At 0 cs r.offset d) (proceeds : c.Proceeds search)
    (split : flagged true (c.protects search) cs = xs ++ ys)
    (start : (c.scanStart (c.whole search)).offset = extents xs)
    (eviction : Eviction c.plan c.config.reducing.fraction.value xs ys
      (c.database.laid (xs ++ ys)) (.ok found) db ds) :
    ∃ result db' ds', Yields (conclude (c.scanStart (c.whole search)) (c.whole search) search found)
        { c with predictor, database := db.laid (flagged false (c.protects search) ds) } (.ok result)
        { c with predictor, database := db' } ∧ Reduction c search cs (.ok result) db' ds' ∧
      result.1 = found.elim .nothingToReduce .reduced ∧ Leaves db db' := by
  have flagged_holds := h.of_core (core_flagged true (c.protects search) cs)
  rw [split] at flagged_holds
  have left : (db.laid (flagged false (c.protects search) ds)).Holds _ :=
    (eviction.holds flagged_holds).of_core (core_flagged false (c.protects search) ds)
  have same := (extent_flagged false (c.protects search) ds).trans eviction.extent_eq
  obtain ⟨xs', ys', resplit, restart⟩ := Cell.exists_split same
  have behind : { c with predictor, database := db.laid (flagged false (c.protects search) ds) } =
      { c with predictor, database := db.laid (xs' ++ ys') } := by rw [resplit]
  rw [resplit] at left
  obtain ⟨first, last, collect, first_at, first_least, last_eq⟩ := yields_collect_cached left
  have start_eq : c.scanStart (c.whole search) = .ofOffset (extents xs') := by
    rw [restart, ← start, ofOffset_offset]
  have collects : Yields (Context.collect (c.scanStart (c.whole search)))
      { c with predictor, database := db.laid (flagged false (c.protects search) ds) }
      (.ok (relocationOf xs' ys'))
      { c with predictor, database := (db.laid (xs' ++ ys')).collected xs' ys' first last } := by
    rw [behind, start_eq]
    exact yields_onDatabase collect
  have leaves : Leaves db ((db.laid (xs' ++ ys')).collected xs' ys' first last) := ⟨rfl, .inr ⟨_, rfl⟩⟩
  cases found with
  | some n =>
    refine ⟨_, (db.laid (xs' ++ ys')).collected xs' ys' first last, _, ?_,
      .compacted (fun lost => by cases lost) split start eviction resplit restart first_at first_least
        named proceeds last_eq, rfl, leaves⟩
    exact (yields_narrate _ (fun _ _ => rfl) _).bind (collects.bind (yields_pure _ _))
  | none =>
    rw [conclude]
    by_cases whole : c.whole search = true
    · rw [if_pos whole]
      exact ⟨_, (db.laid (xs' ++ ys')).collected xs' ys' first last, _, collects.bind (yields_pure _ _),
        .compacted (fun _ => whole) split start eviction resplit restart first_at first_least named
          proceeds last_eq, rfl, leaves⟩
    · rw [if_neg whole]
      exact ⟨_, _, _, yields_pure _ _, .idle (by simpa using whole) split start eviction named proceeds,
        rfl, ⟨rfl, .inl rfl⟩⟩

variable [Predictor π]

/-- Reasons that are clauses are flagged around an eviction. -/
theorem yields_evictAround_of_evict (c : Context π) (h : c.database.Holds cs) {rs : List Reference}
    {start : Reference} {xs ys ds : List Cell} {r : Except Error (Option Nat)} {db : Database} {predictor : π}
    (named : ∀ r ∈ rs, ∃ d, At 0 cs r.offset d) (split : flagged true rs cs = xs ++ ys)
    (evict : Yields (evict start) { c with database := c.database.laid (xs ++ ys) } r
      { c with predictor, database := db })
    (eviction : Eviction c.plan c.config.reducing.fraction.value xs ys (c.database.laid (xs ++ ys)) r db ds) :
    Yields (evictAround start rs) c r { c with predictor, database := db.laid (flagged false rs ds) } := by
  have flags := Database.yields_forM_setReason h true named
  have flagged_holds := h.of_core (core_flagged true rs cs)
  rw [split] at flags flagged_holds
  have named' : ∀ r ∈ rs, ∃ d, At 0 ds r.offset d := by
    intro r hr
    rw [← mem_offsets, offsets_eq eviction.extent_eq, ← split, mem_offsets]
    exact at_flagged.2 (named r hr)
  have clears := Database.yields_forM_setReason (eviction.holds flagged_holds) false named'
  rw [evictAround, forM_onDatabase, forM_onDatabase]
  exact (yields_onDatabase flags).bind ((yields_observing evict).bind
    ((yields_onDatabase clears).bind (yields_liftExcept r)))

omit [Predictor π] in
/-- With reasons that are clauses, the way to the question for scores leads on behind their flagging. -/
theorem yields_asksAround (c : Context π) (h : c.database.Holds cs) {rs : List Reference}
    {start : Reference} {xs ys : List Cell} (named : ∀ r ∈ rs, ∃ d, At 0 cs r.offset d)
    (split : flagged true rs cs = xs ++ ys) {b : Except Error Bool} {d : Context π}
    (reached : Yields (asksFrom start) { c with database := c.database.laid (xs ++ ys) } b d) :
    Yields (asksAround start rs) c b d := by
  have flags := Database.yields_forM_setReason h true named
  rw [split] at flags
  rw [asksAround, forM_onDatabase]
  exact (yields_onDatabase flags).bind reached

/-- An eviction with reasons flagged around it. -/
theorem yields_evictAround (c : Context π) (h : c.database.Holds cs) {rs : List Reference}
    {start : Reference} {xs ys : List Cell} (named : ∀ r ∈ rs, ∃ d, At 0 cs r.offset d)
    (split : flagged true rs cs = xs ++ ys) (hs : start.offset = extents xs) :
    ∃ r db ds predictor, Yields (evictAround start rs) c r
        { c with predictor, database := db.laid (flagged false rs ds) } ∧
      Eviction c.plan c.config.reducing.fraction.value xs ys (c.database.laid (xs ++ ys)) r db ds ∧
      Consulting (asksAround start rs) c r predictor := by
  have flagged_holds := h.of_core (core_flagged true rs cs)
  rw [split] at flagged_holds
  obtain ⟨r, db, ds, predictor, evict, eviction, consulting⟩ :=
    yields_evict { c with database := c.database.laid (xs ++ ys) } flagged_holds hs
  exact ⟨r, db, ds, predictor, yields_evictAround_of_evict c h named split evict eviction, eviction,
    consulting.within rfl rfl rfl (yields_asksAround c h named split) (fun _ => id) id⟩

/-- A reduction from a start comes to what it says. -/
theorem yields_reduceFrom (c : Context π) (h : c.database.Holds cs) (search : Snapshot)
    (valid : (c.scanStart (c.whole search)).isValid = true)
    (addressed : ∀ r ∈ search.reasons, c.database.Addresses r) :
    ∃ r db ds predictor phase,
      Yields (reduceFrom (c.scanStart (c.whole search)) (c.whole search) search) c r
        { c with predictor, phase, database := db } ∧ Reduction c search cs r db ds ∧
      Consulting (asksWithin (c.scanStart (c.whole search)) search) c r predictor := by
  rw [reduceFrom, asksWithin]
  by_cases inconsistent : search.inconsistent = true
  · rw [if_pos inconsistent, if_pos inconsistent]
    refine ⟨_, _, _, c.predictor, .unsatisfiable, ?_, .unsatisfiable inconsistent,
      .unasked (yields_pure _ _) (by simp) nofun⟩
    exact (yields_log _).bind (Yields.bind (yields_modify fun _ => rfl) (yields_pure _ _))
  rw [if_neg inconsistent, if_neg inconsistent]
  by_cases named : ∀ r ∈ c.protects search, ∃ d, At 0 cs r.offset d
  · obtain ⟨xs₀, ys₀, cs_eq, start₀⟩ := c.exists_split h valid
    have same := (extent_flagged true (c.protects search) cs).trans (congrArg (List.map extent) cs_eq)
    obtain ⟨xs, ys, split, extents_eq⟩ := Cell.exists_split same
    have start := start₀.trans extents_eq.symm
    obtain ⟨r, db, ds, predictor, evict, eviction, consulting⟩ :=
      yields_evictAround c h named split start
    have proceeds : c.Proceeds search := ⟨valid, Bool.not_eq_true _ ▸ inconsistent⟩
    cases r with
    | error e =>
      refine ⟨_, _, _, predictor, c.phase, evict.bind_error,
        .failed split start eviction named proceeds,
        consulting.within rfl rfl rfl id ?_ ?_⟩
      · rintro cause ⟨⟩
        rfl
      · rintro quiet cause ⟨⟩
        exact quiet cause rfl
    | ok found =>
      obtain ⟨result, db', ds', rest, reduction, -⟩ :=
        yields_conclude c h predictor named proceeds split start eviction
      exact ⟨.ok result, db', ds', predictor, c.phase, evict.bind rest, reduction,
        consulting.within rfl rfl rfl id (fun _ => nofun) fun _ => nofun⟩
  · have stray : ∃ r ∈ c.protects search, ¬ ∃ d, At 0 cs r.offset d := by
      simpa only [Classical.not_forall, exists_prop] using named
    have places : ∀ r ∈ c.protects search,
        (∃ d, At 0 cs r.offset d) ∨ c.database.arena.resolve? r = none :=
      fun r hr => (addressed r (List.mem_filter.1 hr).1).imp h.tiled.mem_walk.1 id
    obtain ⟨done, bad, rest, halted, passed, none_bad, flags⟩ :=
      Database.yields_forM_setReason_error h true places stray
    obtain ⟨r, hr, hstray⟩ := stray
    have away : Yields (asksAround (c.scanStart (c.whole search)) (c.protects search)) c
        (.error (.arena .invalidReference))
        { c with database := c.database.laid (flagged true done cs) } := by
      rw [asksAround, forM_onDatabase]
      exact (yields_onDatabase flags).bind_error
    refine ⟨_, _, flagged true done cs, c.predictor, c.phase, Yields.bind_error ?_,
      .barred ⟨r, (List.mem_filter.1 hr).1, hstray⟩ valid (Bool.not_eq_true _ ▸ inconsistent)
        ⟨bad, rest, halted, passed, none_bad⟩, .unasked away nofun nofun⟩
    rw [evictAround, forM_onDatabase]
    exact (yields_onDatabase flags).bind_error

/-- A reduction that has a start goes on from there. -/
theorem yields_reduceOnce_of_reduceFrom (c : Context π) {search : Snapshot}
    (valid : (c.scanStart (c.whole search)).isValid = true) {r : Except Error (Report × Snapshot)}
    {c' : Context π}
    (body : Yields (reduceFrom (c.scanStart (c.whole search)) (c.whole search) search) c r c') :
    Yields (reduceOnce search) c r c' := by
  refine (yields_compacting c search).bind (Yields.get_bind (fun _ => rfl) ?_)
  dsimp only
  rw [if_pos valid]
  exact (yields_narrate _ (fun _ _ => rfl) _).bind body

/-- A reduction without a start comes to nothing. -/
theorem yields_reduceOnce_of_invalid (c : Context π) {search : Snapshot}
    (invalid : (c.scanStart (c.whole search)).isValid = false) :
    Yields (reduceOnce search) c (.ok (.nothingToReduce, search)) c := by
  refine (yields_compacting c search).bind (Yields.get_bind (fun _ => rfl) ?_)
  dsimp only
  rw [invalid]
  exact (yields_narrate _ (fun _ _ => rfl) _).bind (yields_pure _ _)

theorem yields_reduceOnce (c : Context π) (h : c.database.Holds cs) (search : Snapshot)
    (addressed : ∀ r ∈ search.reasons, c.database.Addresses r) :
    ∃ r db ds predictor phase, Yields (reduceOnce search) c r
        { c with predictor, phase, database := db } ∧ Reduction c search cs r db ds ∧
      Consulting (asks search) c r predictor := by
  have nears : ∀ {b d}, Yields (if (c.scanStart (c.whole search)).isValid then
      asksWithin (c.scanStart (c.whole search)) search else return false) c b d →
      Yields (asks search) c b d :=
    fun rest => (yields_compacting c search).bind (Yields.get_bind (fun _ => rfl) rest)
  by_cases valid : (c.scanStart (c.whole search)).isValid = true
  · obtain ⟨r, db, ds, predictor, phase, body, reduction, consulting⟩ :=
      yields_reduceFrom c h search valid addressed
    rw [if_pos valid] at nears
    exact ⟨r, db, ds, predictor, phase, yields_reduceOnce_of_reduceFrom c valid body, reduction,
      consulting.within rfl rfl rfl nears (fun _ => id) id⟩
  · rw [if_neg valid] at nears
    rw [Bool.not_eq_true] at valid
    exact ⟨_, _, _, c.predictor, c.phase, yields_reduceOnce_of_invalid c valid, .unstarted valid,
      .unasked (nears (yields_pure _ _)) (by simp) nofun⟩

/-- A context at the start of a reduction. -/
def readied (c : Context π) : Context π :=
  { c with
    counters := { c.counters with reductions := c.counters.reductions + 1 }
    phase := if c.phase = .unsatisfiable then c.phase else .solving }

/-- A context behind a reduction, when the next one is scheduled. -/
def scheduled (d : Context π) : Context π :=
  { d with
    counters := { d.counters with
      reduceLimit := later d.counters.conflicts d.interval
      lastReduction := d.counters.conflicts } }

/-- The next reduction is scheduled, whatever a reduction has come to. -/
theorem yields_reduce_of_reduceOnce (c : Context π) {search : Snapshot}
    {r : Except Error (Report × Snapshot)} {d : Context π}
    (body : Yields (reduceOnce search) c.readied r d) : Yields (reduce search) c r d.scheduled := by
  let counters := { d.counters with reduceLimit := later d.counters.conflicts d.interval }
  have schedules : Yields schedule d (.ok ()) { d with counters } :=
    Yields.bind (yields_modify fun _ => rfl) (Yields.get_bind (fun _ => rfl) (yields_log _))
  refine Yields.bind (yields_modify fun _ => rfl) ?_
  refine (yields_narrate _ (fun _ _ => rfl) _).bind ((yields_observing body).bind ?_)
  refine schedules.bind (Yields.bind (yields_modify fun _ => rfl) ?_)
  refine Yields.get_bind (fun _ => rfl) ?_
  cases r with
  | ok result => exact (yields_log _).bind (yields_pure _ _)
  | error e => exact (yields_log _).bind (yields_throw _ _)

/-- A reduction comes to what it says, asks the predictor once at most, and schedules the next one,
also where it fails. -/
theorem yields_reduce_scheduled (c : Context π) (h : c.database.Holds cs) (search : Snapshot)
    (addressed : ∀ r ∈ search.reasons, c.database.Addresses r) :
    ∃ r db ds counters predictor phase, Yields (reduce search) c r
        { c with counters, predictor, phase, database := db } ∧
      Reduction c.readied search cs r db ds ∧ Consulting (asks search) c.readied r predictor ∧
      counters = { c.readied.counters with
        reduceLimit := later c.counters.conflicts c.readied.interval
        lastReduction := c.counters.conflicts } := by
  obtain ⟨r, db, ds, predictor, phase, body, reduction, consulting⟩ :=
    yields_reduceOnce c.readied h search addressed
  exact ⟨r, db, ds, _, predictor, phase, yields_reduce_of_reduceOnce c body, reduction, consulting, rfl⟩

/-- A reduction comes to what it says, also where it fails. -/
theorem yields_reduce (c : Context π) (h : c.database.Holds cs) (search : Snapshot)
    (addressed : ∀ r ∈ search.reasons, c.database.Addresses r) :
    ∃ r db ds counters predictor phase, Yields (reduce search) c r
        { c with counters, predictor, phase, database := db } ∧
      counters.conflicts = c.counters.conflicts ∧ Reduction c.readied search cs r db ds := by
  obtain ⟨r, db, ds, counters, predictor, phase, reduces, reduction, -, rfl⟩ :=
    yields_reduce_scheduled c h search addressed
  exact ⟨r, db, ds, _, predictor, phase, reduces, rfl, reduction⟩

/-! ### Reductions on a machine -/

/-- What a reduction adds and multiplies fits the words of a count. -/
structure Countable (search : Snapshot) (c : Context π) : Prop where
  reductions : c.counters.reductions.toNat + 1 < UInt64.size
  /-- the limit of inactive variables is a share of this product -/
  limit : c.config.reducing.compact.value = true →
    search.variableCount.toNat * c.config.reducing.compactLimit.value.toNat < UInt64.size

omit [Predictor π] in
theorem counts_iff {m : Arithmetic} {search : Snapshot} {c : Context π} :
    c.counts m search = true ↔ (m = .checked → c.Countable search) := by
  rw [counts, Bool.and_eq_true, Bool.or_eq_true, Bool.not_eq_true', Arithmetic.add?, Arithmetic.mul?,
    Arithmetic.isSome_count?_iff, Arithmetic.isSome_count?_iff, UInt32.toNat_toUInt64]
  constructor
  · rintro ⟨reductions, unlimited | limit⟩ checked
    · exact ⟨reductions checked, fun compact => by rw [unlimited] at compact; cases compact⟩
    · exact ⟨reductions checked, fun _ => limit checked⟩
  · intro countable
    refine ⟨fun checked => (countable checked).reductions, ?_⟩
    cases compact : c.config.reducing.compact.value with
    | false => exact .inl rfl
    | true => exact .inr fun checked => (countable checked).limit compact

end Context

end ClauseStore
