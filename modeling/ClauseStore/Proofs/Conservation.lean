import ClauseStore.Proofs.Exactness

/-!
Reductions conserve clauses. Whatever a reduction comes to, each long clause that was live before is live
afterwards where its record was moved to, or its deletion was told, once; and what is deleted was
redundant, no reason, and kept only where reductions go by scores. No clause is made, no binary clause is
touched, and the reasons of the search are the same clauses as before.
-/

namespace ClauseStore

open Cell Database

namespace Arena

/-- The records of an arena that are not garbage. -/
def live (a : Arena) : List Nat := (a.walkFrom 0).1.filter fun o => !(a.header o).flags.garbage

/-- What a reduction must not change of a clause. -/
def clause (a : Arena) (o : Nat) : UInt32 × Clause × BitVec 22 × Bool × Bool :=
  let h := a.header o
  (h.identity, a.literals o, h.glue, h.flags.redundant, h.flags.keep)

end Arena

/-- The state of the search behind a reduction. -/
def searchAfter (search : Snapshot) : Except Error (Report × Snapshot) → Snapshot
  | .ok result => result.2
  | .error _ => search

/-- The count of clauses that a reduction reports as removed. -/
def reportedCount : Except Error (Report × Snapshot) → Nat
  | .ok (.reduced n, _) => n
  | _ => 0

/-- The identities of the live clauses among some reasons. -/
def Database.reasonsOf (db : Database) (search : Snapshot) : List UInt32 :=
  (search.reasons.filter fun r => db.arena.live.contains r.offset).map
    fun r => (db.arena.header r.offset).identity

/-- A reduction that removes some clauses has conserved all others. -/
structure Conserved (byScore : Bool) (search : Snapshot) (db : Database)
    (r : Except Error (Report × Snapshot)) (db' : Database) (moved : Relocation) (gone : List Nat) :
    Prop where
  /-- the clauses that are live afterwards are those that were live and are not gone, in order, where
  they were moved to -/
  survivors_eq : (db.arena.live.filter fun o => !gone.contains o).map
      (fun o => moved.get? (.ofOffset o)) =
    db'.arena.live.map fun o => some (.ofOffset o)
  /-- and they are the same clauses -/
  clauses_eq : (db.arena.live.filter fun o => !gone.contains o).map db.arena.clause =
    db'.arena.live.map db'.arena.clause
  gone_live : ∀ o ∈ gone, o ∈ db.arena.live
  gone_redundant : ∀ o ∈ gone, (db.arena.header o).flags.redundant = true
  gone_free : ∀ o ∈ gone, (db.arena.header o).flags.reason = false ∧
    o ∉ search.reasons.map Reference.offset
  gone_unkept : ∀ o ∈ gone, (db.arena.header o).flags.keep = true → byScore = true
  /-- the clauses that are gone are different ones, and each was told once -/
  gone_apart : gone.Nodup
  told : ∃ features : List Event, (∀ e ∈ features, e.isFeatures = true) ∧
    db'.events.toList = db.events.toList ++ features ++
      gone.map fun o => .deletion (db.arena.header o).identity (db.arena.literals o)
  binary_eq : ∀ l, db'.watches.binary l = db.watches.binary l
  count_eq : reportedCount r = gone.length
  reasons_eq : db'.reasonsOf (searchAfter search r) = db.reasonsOf search
  /-- the references of the search and of the watch lists follow, or nothing has moved -/
  followed : (searchAfter search r = search ∧ db'.watches = db.watches ∧
      ∀ o ∈ db.arena.live, moved.get? (.ofOffset o) = some (.ofOffset o)) ∨
    (searchAfter search r = search.relocate moved ∧ db'.watches = db.watches.relocate moved)

/-! ### Rows that are kept but for some cells -/

namespace Cell

/-- What a reduction must not change of a cell. -/
def essence (c : Cell) : UInt32 × Clause × BitVec 22 × Bool × Bool :=
  (c.header.identity, c.literals, c.header.glue, c.header.flags.redundant, c.header.flags.keep)

theorem essence_eq_of_core {c d : Cell} (h : d.core = c.core) : d.essence = c.essence := by
  obtain ⟨hp, hl, -⟩ := revised_eq_iff.1 h
  simp only [Header.core, Header.mk.injEq, Flags.mk.injEq] at hp
  simp only [essence, hl, hp]

/-- A row in which some cells have become garbage, and which is otherwise the same. -/
structure SameButMarked (gone : List Nat) (cs ds : List Cell) : Prop where
  extent_eq : ds.map extent = cs.map extent
  view : ∀ k c d, At 0 cs k c → At 0 ds k d →
    d.essence = c.essence ∧ d.isGarbage = (c.isGarbage || gone.contains k)

variable {gone : List Nat} {bs cs ds es : List Cell}

theorem SameButMarked.exists_at (h : SameButMarked gone cs ds) {k : Nat} :
    (∃ d, At 0 ds k d) ↔ ∃ c, At 0 cs k c := by
  rw [← mem_offsets, offsets_eq h.extent_eq, mem_offsets]

theorem SameButMarked.of_core (h : SameButMarked gone cs ds) (core_eq : es.map core = ds.map core) :
    SameButMarked gone cs es := by
  refine ⟨(extent_eq_of_map_eq core_eq).trans h.extent_eq, fun k c e hc he => ?_⟩
  obtain ⟨d, hd, same⟩ := he.of_map_eq core_eq.symm
  obtain ⟨essence_eq, garbage_eq⟩ := h.view k c d hc hd
  exact ⟨(essence_eq_of_core same).symm.trans essence_eq,
    (isGarbage_eq_of_core same).symm.trans garbage_eq⟩

theorem SameButMarked.from_core (h : SameButMarked gone cs ds) (core_eq : cs.map core = bs.map core) :
    SameButMarked gone bs ds := by
  refine ⟨h.extent_eq.trans (extent_eq_of_map_eq core_eq), fun k b d hb hd => ?_⟩
  obtain ⟨c, hc, same⟩ := hb.of_map_eq core_eq
  obtain ⟨essence_eq, garbage_eq⟩ := h.view k c d hc hd
  rw [essence_eq_of_core same] at essence_eq
  rw [isGarbage_eq_of_core same] at garbage_eq
  exact ⟨essence_eq, garbage_eq⟩

theorem SameButMarked.refl (cs : List Cell) : SameButMarked [] cs cs := by
  refine ⟨rfl, fun k c d hc hd => ?_⟩
  rw [hc.unique hd]
  exact ⟨rfl, (Bool.or_false _).symm⟩

/-- Marks make garbage and change nothing else. -/
theorem sameButMarked_markAll (ms : List Placed) (cs : List Cell) :
    SameButMarked (ms.map Prod.fst) cs (markAll ms cs) := by
  rw [markAll_eq]
  refine ⟨extent_mapAt 0 cs, fun k c d hc hd => ?_⟩
  obtain ⟨c', hc', rfl⟩ := at_mapAt.1 hd
  rw [hc.unique hc', revised]
  by_cases marked : k ∈ ms.map Prod.fst
  · rw [if_pos marked, List.contains_iff_mem.2 marked, Bool.or_true]
    exact ⟨rfl, rfl⟩
  · rw [if_neg marked, Bool.eq_false_iff.2 fun h => marked (List.contains_iff_mem.1 h), Bool.or_false]
    exact ⟨rfl, rfl⟩

end Cell

/-! ### Before the compaction -/

/-- The clause of a cell may be removed by a reduction. -/
structure Cell.Removable (byScore : Bool) (search : Snapshot) (k : Nat) (c : Cell) : Prop where
  learned : c.Learned
  free : c.header.flags.reason = false
  unlisted : k ∉ search.reasons.map Reference.offset
  unkept : c.header.flags.keep = true → byScore = true

/-- A database in which a reduction has marked some clauses, and has done nothing else that matters. -/
structure Thinned (byScore : Bool) (search : Snapshot) (db db₁ : Database) (cs zs : List Cell)
    (gone : List Nat) : Prop where
  holds : db₁.Holds zs
  kept : SameButMarked gone cs zs
  removable : ∀ o ∈ gone, ∃ c, At 0 cs o c ∧ c.Removable byScore search o
  apart : gone.Nodup
  told : ∃ features : List Event, (∀ e ∈ features, e.isFeatures = true) ∧
    db₁.events.toList = db.events.toList ++ features ++
      gone.map fun o => .deletion (db.arena.header o).identity (db.arena.literals o)
  watches_eq : db₁.watches = db.watches
  next_eq : db₁.nextIdentity = db.nextIdentity

/-- What a reduction leaves: the state of its search, a database in which some clauses are marked, and
which is perhaps compacted, and the cells that it holds. -/
inductive Thinning (byScore : Bool) (search : Snapshot) (db : Database) (cs : List Cell)
    (gone : List Nat) : Snapshot → Database → List Cell → Prop where
  | still {db₁ : Database} {zs : List Cell} (thinned : Thinned byScore search db db₁ cs zs gone) :
    Thinning byScore search db cs gone search db₁ zs
  | compacted {db₁ : Database} {xs ys : List Cell} {first last : Reference}
    (thinned : Thinned byScore search db db₁ cs (xs ++ ys) gone)
    (first_at : first.isValid = true →
      ∃ d, At (extents xs) (settle db₁.arena.word (extents xs) ys) first.offset d) :
    Thinning byScore search db cs gone (search.relocate (relocationOf xs ys))
      (db₁.collected xs ys first last) (xs ++ settle db₁.arena.word (extents xs) ys)

namespace Reduction

variable {π : Type} {c : Context π} {search : Snapshot} {cs xs ys ds : List Cell} {db : Database}

/-- Whoever marks nothing, and tells nothing but features, removes nothing. -/
theorem thinned_nil {byScore : Bool} (holds : db.Holds ds) (core_eq : ds.map core = cs.map core)
    (watches_eq : db.watches = c.database.watches) (next_eq : db.nextIdentity = c.database.nextIdentity)
    {es : List Event} (features : ∀ e ∈ es, e.isFeatures = true)
    (told : db.events = c.database.events ++ es.toArray) :
    Thinned byScore search c.database db cs ds [] := by
  refine ⟨holds, (SameButMarked.refl cs).of_core core_eq, by simp, .nil, ⟨es, features, ?_⟩, watches_eq,
    next_eq⟩
  rw [told]
  simp

/-- What an eviction with flagged reasons removes may be removed. -/
theorem removable (split : flagged true (c.protects search) cs = xs ++ ys)
    (start : (c.scanStart (c.whole search)).offset = extents xs)
    (lasting : ds.map (revised Header.lasting) = (xs ++ ys).map (revised Header.lasting))
    {k : Nat} {d : Cell} (hd : At 0 ds k d) (offers : c.plan.Offers d)
    (behind : c.plan.byScore = false → extents xs ≤ k) :
    ∃ e, At 0 cs k e ∧ e.Removable c.config.predicting.byScore.value search k ∧
      e.header.identity = d.header.identity ∧ e.literals = d.literals := by
  obtain ⟨d', hd', same⟩ := At.of_map_eq lasting.symm hd
  rw [← split] at hd'
  obtain ⟨e, he, rfl⟩ := at_mapAt.1 hd'
  have offers' := offers.of_lasting same
  have identity_eq := identity_eq_of_lasting same
  have literals_eq := (revised_eq_iff.1 same).2.1
  -- a reason behind the start would have its flag set
  have unflagged : k ∉ (c.protects search).map Reference.offset := by
    intro hk
    have free := offers'.free
    rw [revised, if_pos hk] at free
    cases free
  rw [revised, if_neg unflagged] at offers' identity_eq literals_eq
  refine ⟨e, he, ⟨offers'.learned, offers'.free, ?_, offers'.unkept⟩, identity_eq, literals_eq⟩
  intro listed
  obtain ⟨r, hr, rfl⟩ := List.mem_map.1 listed
  refine unflagged (List.mem_map.2 ⟨r, List.mem_filter.2 ⟨hr, decide_eq_true ?_⟩, rfl⟩)
  show (c.scanStart (c.whole search)).offset ≤ r.offset
  cases score : c.plan.byScore with
  | false =>
    rw [start]
    exact behind score
  | true =>
    have collecting : c.config.collecting = true := by
      have score : c.config.predicting.byScore.value = true := score
      rw [Config.collecting, score, Bool.true_or]
    rw [Context.scanStart, collecting, Bool.or_true, if_pos rfl]
    exact Nat.zero_le _

/-- What is told of cells that can be marked is told of the clauses that they were. -/
theorem deletions_eq (holds : c.database.Holds cs) {ms : List Placed}
    (found : ∀ m ∈ ms, ∃ e, At 0 cs m.1 e ∧ e.header.identity = m.2.header.identity ∧
      e.literals = m.2.literals) :
    deletions ms = (ms.map Prod.fst).map fun o =>
      .deletion (c.database.arena.header o).identity (c.database.arena.literals o) := by
  rw [deletions, List.map_map]
  refine List.map_congr_left fun m hm => ?_
  obtain ⟨e, he, identity_eq, literals_eq⟩ := found m hm
  show _ = Event.deletion (c.database.arena.header m.1).identity (c.database.arena.literals m.1)
  rw [holds.tiled.header_eq he, holds.tiled.literals_eq he, identity_eq, literals_eq]

/-- The count of clauses that an eviction returns. -/
def evictedCount : Except Error (Option Nat) → Nat
  | .ok (some n) => n
  | _ => 0

/-- An eviction with flagged reasons marks clauses that may be removed, and nothing else that matters. -/
theorem thinned_of_eviction (holds : c.database.Holds cs)
    (split : flagged true (c.protects search) cs = xs ++ ys)
    (start : (c.scanStart (c.whole search)).offset = extents xs) {r : Except Error (Option Nat)}
    (eviction : Eviction c.plan c.config.reducing.fraction.value xs ys
      (c.database.laid (xs ++ ys)) r db ds) :
    ∃ gone, Thinned c.config.predicting.byScore.value search c.database
        (db.laid (flagged false (c.protects search) ds)) cs (flagged false (c.protects search) ds) gone ∧
      ((c.config.predicting.byScore.value = false → c.config.reducing.fraction.value.toNat ≤ 100) →
        evictedCount r = gone.length) := by
  have flags_core : (xs ++ ys).map core = cs.map core := split ▸ core_flagged true (c.protects search) cs
  have clear_core := core_flagged false (c.protects search) ds
  have flags : (c.database.laid (xs ++ ys)).Holds (xs ++ ys) := split ▸ holds.of_core (core_flagged ..)
  have cleared : (db.laid (flagged false (c.protects search) ds)).Holds _ :=
    (eviction.holds flags).of_core clear_core
  cases eviction with
  | failed pass =>
    have core_eq := core_of_lasting (Settlement.lasting_pass pass)
    have told : c.database.events = c.database.events ++ ([] : List Event).toArray := by simp
    exact ⟨[], thinned_nil cleared (clear_core.trans (core_eq.trans flags_core)) rfl rfl (by simp) told,
      fun _ => rfl⟩
  | idle pass =>
    have core_eq := core_of_lasting (Settlement.lasting_pass pass)
    exact ⟨[], thinned_nil cleared (clear_core.trans (core_eq.trans flags_core)) rfl rfl (by simp) rfl,
      fun _ => rfl⟩
  | unscored settled byScore told =>
    have core_eq := core_of_lasting settled.lasting
    have features := told ▸ c.plan.isFeatures_exports _ _ _
    exact ⟨[], thinned_nil cleared (clear_core.trans (core_eq.trans flags_core)) rfl rfl features rfl,
      fun _ => rfl⟩
  | @removed p zs t t' es ms n settled keys_eq told markable offers rows behind count =>
    have lasting := settled.lasting
    have features := told ▸ c.plan.isFeatures_exports _ _ _
    have found : ∀ m ∈ ms, ∃ e, At 0 cs m.1 e ∧
        e.Removable c.config.predicting.byScore.value search m.1 ∧
        e.header.identity = m.2.header.identity ∧ e.literals = m.2.literals := fun m hm =>
      removable split start lasting (markable.placed m hm) (offers m hm) fun rank => by
        obtain ⟨d, hd, -⟩ := behind rank m hm
        exact hd.bounds.1
    have frame := markedAll_frame ms zs ((c.database.laid (xs ++ ys)).settledBehind zs t' p.first es)
    refine ⟨ms.map Prod.fst,
      ⟨cleared, ?_, ?_, markable.apart, ⟨es, features, ?_⟩, frame.1, frame.2.1⟩, ?_⟩
    · exact ((sameButMarked_markAll ms zs).of_core clear_core).from_core
        ((core_of_lasting lasting).trans flags_core)
    · intro o ho
      obtain ⟨m, hm, rfl⟩ := List.mem_map.1 ho
      obtain ⟨e, he, removable, -⟩ := found m hm
      exact ⟨e, he, removable⟩
    · have ends := deletions_eq holds fun m hm => by
        obtain ⟨e, he, -, same⟩ := found m hm
        exact ⟨e, he, same⟩
      show (markedAll ms zs _).events.toList = _
      rw [frame.2.2.2, ← ends]
      simp [settledBehind, telling, laid, placed]
    · rw [List.length_map]
      exact count

/-- Whatever a reduction comes to, it thins, and perhaps compacts. By rank it removes a percentage of its
candidates, and reports how many, if that is at most a hundred. -/
theorem thinning {r : Except Error (Report × Snapshot)} (h : Reduction c search cs r db ds)
    (holds : c.database.Holds cs) :
    ∃ gone, Thinning c.config.predicting.byScore.value search c.database cs gone (searchAfter search r)
        db ds ∧
      ((c.config.predicting.byScore.value = false → c.config.reducing.fraction.value.toNat ≤ 100) →
        reportedCount r = gone.length) := by
  have quiet : c.database.events = c.database.events ++ ([] : List Event).toArray := by simp
  have untouched : Thinned c.config.predicting.byScore.value search c.database c.database cs cs [] :=
    thinned_nil holds rfl rfl rfl (by simp) quiet
  cases h with
  | unstarted => exact ⟨[], .still untouched, fun _ => rfl⟩
  | unsatisfiable => exact ⟨[], .still untouched, fun _ => rfl⟩
  | @barred done =>
    have core_eq := core_flagged true done cs
    exact ⟨[], .still (thinned_nil (holds.of_core core_eq) core_eq rfl rfl (by simp) quiet), fun _ => rfl⟩
  | failed split start eviction =>
    obtain ⟨gone, thinned, count_eq⟩ := thinned_of_eviction holds split start eviction
    exact ⟨gone, .still thinned, count_eq⟩
  | idle part split start eviction =>
    obtain ⟨gone, thinned, count_eq⟩ := thinned_of_eviction holds split start eviction
    exact ⟨gone, .still thinned, count_eq⟩
  | @compacted _ _ _ _ _ found _ _ _ _ split start eviction resplit _ first_at =>
    obtain ⟨gone, thinned, count_eq⟩ := thinned_of_eviction holds split start eviction
    rw [resplit] at thinned
    refine ⟨gone, .compacted thinned first_at, fun percentage => ?_⟩
    cases found with
    | none => exact count_eq percentage
    | some n => exact count_eq percentage

end Reduction

/-! ### Reading live clauses -/

namespace Database.Holds

variable {db : Database} {cs : List Cell}

theorem live_eq (h : db.Holds cs) : db.arena.live = liveOffsets 0 cs := by
  rw [Arena.live, h.tiled.walkFrom_zero]
  refine (liveOffsets_eq_filter fun k c hc => ?_).symm
  rw [h.tiled.header_eq hc, isGarbage]

theorem mem_live (h : db.Holds cs) {k : Nat} :
    k ∈ db.arena.live ↔ ∃ c, At 0 cs k c ∧ c.isGarbage = false := by
  rw [h.live_eq, mem_liveOffsets]

theorem contains_live (h : db.Holds cs) {k : Nat} {c : Cell} (hc : At 0 cs k c) :
    db.arena.live.contains k = !c.isGarbage := by
  rw [Bool.eq_iff_iff, List.contains_iff_mem, h.mem_live, Bool.not_eq_true']
  constructor
  · rintro ⟨d, hd, live⟩
    rw [hc.unique hd]
    exact live
  · exact fun live => ⟨c, hc, live⟩

theorem clause_eq (h : db.Holds cs) {k : Nat} {c : Cell} (hc : At 0 cs k c) :
    db.arena.clause k = c.essence := by
  rw [Arena.clause, h.tiled.header_eq hc, h.tiled.literals_eq hc, essence]

end Database.Holds

namespace Thinned

variable {byScore : Bool} {search : Snapshot} {db db₁ : Database} {cs zs : List Cell} {gone : List Nat}

/-- The clauses that are live are those that were and are not gone. -/
theorem live_eq (h : Thinned byScore search db db₁ cs zs gone) (holds : db.Holds cs) :
    db₁.arena.live = db.arena.live.filter fun o => !gone.contains o := by
  have garbage_eq : ∀ k d, At 0 zs k d →
      ((db.arena.header k).flags.garbage || gone.contains k) = d.isGarbage := by
    intro k d hd
    obtain ⟨c, hc⟩ := h.kept.exists_at.1 ⟨d, hd⟩
    rw [holds.tiled.header_eq hc, (h.kept.view k c d hc hd).2, isGarbage]
  rw [h.holds.live_eq, liveOffsets_eq_filter garbage_eq, offsets_eq h.kept.extent_eq, Arena.live,
    holds.tiled.walkFrom_zero, List.filter_filter]
  refine List.filter_congr fun k _ => ?_
  cases (db.arena.header k).flags.garbage <;> cases gone.contains k <;> rfl

theorem clause_eq (h : Thinned byScore search db db₁ cs zs gone) (holds : db.Holds cs) {o : Nat}
    (live : o ∈ db₁.arena.live) : db₁.arena.clause o = db.arena.clause o := by
  obtain ⟨d, hd, -⟩ := h.holds.mem_live.1 live
  obtain ⟨c, hc⟩ := h.kept.exists_at.1 ⟨d, hd⟩
  rw [h.holds.clause_eq hd, holds.clause_eq hc, (h.kept.view o c d hc hd).1]

/-- The live reasons are the same clauses. -/
theorem reasonsOf_eq (h : Thinned byScore search db db₁ cs zs gone) (holds : db.Holds cs)
    (named : ∀ r ∈ search.reasons, ∃ d, At 0 cs r.offset d) :
    db₁.reasonsOf search = db.reasonsOf search := by
  have same : ∀ r ∈ search.reasons, db₁.arena.live.contains r.offset =
      db.arena.live.contains r.offset ∧
        (db₁.arena.header r.offset).identity = (db.arena.header r.offset).identity := by
    intro r hr
    obtain ⟨c, hc⟩ := named r hr
    obtain ⟨d, hd⟩ := h.kept.exists_at.2 ⟨c, hc⟩
    obtain ⟨essence_eq, garbage_eq⟩ := h.kept.view _ c d hc hd
    have stays : gone.contains r.offset = false := by
      refine Bool.eq_false_iff.2 fun lost => ?_
      obtain ⟨e, -, removable⟩ := h.removable _ (List.contains_iff_mem.1 lost)
      exact removable.unlisted (List.mem_map_of_mem hr)
    simp only [essence, Prod.mk.injEq] at essence_eq
    rw [holds.contains_live hc, h.holds.contains_live hd, garbage_eq, stays, Bool.or_false,
      holds.tiled.header_eq hc, h.holds.tiled.header_eq hd]
    exact ⟨rfl, essence_eq.1⟩
  rw [reasonsOf, reasonsOf, List.filter_congr fun r hr => (same r hr).1]
  exact List.map_congr_left fun r hr => (same r (List.mem_filter.1 hr).1).2

/-- What is gone was live, redundant, no reason, and kept only where reductions go by scores. -/
theorem gone_eq (h : Thinned byScore search db db₁ cs zs gone) (holds : db.Holds cs) {o : Nat}
    (ho : o ∈ gone) : o ∈ db.arena.live ∧ (db.arena.header o).flags.redundant = true ∧
      ((db.arena.header o).flags.reason = false ∧ o ∉ search.reasons.map Reference.offset) ∧
      ((db.arena.header o).flags.keep = true → byScore = true) := by
  obtain ⟨c, hc, removable⟩ := h.removable o ho
  rw [holds.tiled.header_eq hc]
  exact ⟨holds.mem_live.2 ⟨c, hc, removable.learned.1⟩, removable.learned.2,
    ⟨removable.free, removable.unlisted⟩, removable.unkept⟩

/-- A reduction without a compaction conserves clauses. -/
theorem conserved (h : Thinned byScore search db db₁ cs zs gone) (holds : db.Holds cs)
    (named : ∀ r ∈ search.reasons, ∃ d, At 0 cs r.offset d) {r : Except Error (Report × Snapshot)}
    (after_eq : searchAfter search r = search) (count_eq : reportedCount r = gone.length) :
    Conserved byScore search db r db₁ ⟨db.arena.limit, #[]⟩ gone := by
  have live_eq := h.live_eq holds
  have stays : ∀ o ∈ db.arena.live,
      (⟨db.arena.limit, #[]⟩ : Relocation).get? (.ofOffset o) = some (.ofOffset o) := by
    intro o ho
    obtain ⟨c, hc, -⟩ := holds.mem_live.1 ho
    have fits : extents (cs ++ []) < 4294967295 := by simpa using holds.fits'
    rw [Arena.limit, holds.tiled.size_eq]
    exact get?_before fits hc
  constructor
  case survivors_eq =>
    rw [live_eq]
    exact List.map_congr_left fun o ho => stays o (List.mem_filter.1 ho).1
  case clauses_eq =>
    rw [← live_eq]
    exact List.map_congr_left fun o ho => (h.clause_eq holds ho).symm
  case gone_live => exact fun o ho => (h.gone_eq holds ho).1
  case gone_redundant => exact fun o ho => (h.gone_eq holds ho).2.1
  case gone_free => exact fun o ho => (h.gone_eq holds ho).2.2.1
  case gone_unkept => exact fun o ho => (h.gone_eq holds ho).2.2.2
  case gone_apart => exact h.apart
  case told => exact h.told
  case binary_eq => exact fun l => by rw [h.watches_eq]
  case count_eq => exact count_eq
  case reasons_eq =>
    rw [after_eq]
    exact h.reasonsOf_eq holds named
  case followed => exact .inl ⟨after_eq, h.watches_eq, stays⟩

end Thinned

/-! ### Through the compaction -/

namespace Database

variable {db : Database} {xs ys : List Cell} {first : Reference}

/-- The live clauses behind a compaction are those before it, where they were moved to. -/
theorem Holds.live_collected (h : db.Holds (xs ++ ys)) (last : Reference)
    (first_at : first.isValid = true →
      ∃ d, At (extents xs) (settle db.arena.word (extents xs) ys) first.offset d) :
    db.arena.live.map (fun o => (relocationOf xs ys).get? (.ofOffset o)) =
      (db.collected xs ys first last).arena.live.map fun o => some (.ofOffset o) := by
  have after := h.collected last first_at
  have bound := h.fits'
  rw [extents_append] at bound
  have settled_live : ∀ c ∈ settle db.arena.word (extents xs) ys, c.isGarbage = false :=
    fun c hc => isGarbage_of_mem_settle hc
  rw [h.live_eq, after.live_eq, liveOffsets_append, liveOffsets_append, List.map_append, List.map_append,
    Nat.zero_add, liveOffsets_eq_offsets settled_live,
    ← map_lookup_moves db.arena.word (extents xs) (Nat.lt_succ_of_lt bound)]
  congr 1
  · refine List.map_congr_left fun o ho => ?_
    obtain ⟨c, hc, -⟩ := mem_liveOffsets.1 ho
    exact get?_before h.fits' hc
  · refine List.map_congr_left fun o ho => ?_
    obtain ⟨c, hc, -⟩ := mem_liveOffsets.1 ho
    exact get?_behind h.fits' hc

/-- And they are the same clauses. -/
theorem Holds.clauses_collected (h : db.Holds (xs ++ ys)) (last : Reference)
    (first_at : first.isValid = true →
      ∃ d, At (extents xs) (settle db.arena.word (extents xs) ys) first.offset d) :
    db.arena.live.map db.arena.clause = (db.collected xs ys first last).arena.live.map
      (db.collected xs ys first last).arena.clause := by
  have after := h.collected last first_at
  have essences : ∀ {db : Database} {cs : List Cell}, db.Holds cs →
      db.arena.live.map db.arena.clause = (cs.filter fun c => !c.isGarbage).map essence := by
    intro db cs h
    rw [Arena.live, h.tiled.walkFrom_zero]
    refine map_filter_offsets fun k c hc => ⟨?_, h.clause_eq hc⟩
    rw [h.tiled.header_eq hc, isGarbage]
  have settled_live : ∀ c ∈ settle db.arena.word (extents xs) ys, (!c.isGarbage) = true :=
    fun c hc => by rw [isGarbage_of_mem_settle hc]; rfl
  rw [essences h, essences after, List.filter_append, List.filter_append,
    List.filter_eq_self.2 settled_live, List.map_append, List.map_append]
  congr 1
  exact (map_settle fun _ _ => rfl).symm

/-- A reason that is live leads to the same clause, and one that is not to no live clause. -/
theorem Holds.reason_collected (h : db.Holds (xs ++ ys)) (last : Reference)
    (first_at : first.isValid = true →
      ∃ d, At (extents xs) (settle db.arena.word (extents xs) ys) first.offset d)
    {r : Reference} (named : ∃ d, At 0 (xs ++ ys) r.offset d) :
    if db.arena.live.contains r.offset then ∃ r', (relocationOf xs ys).get? r = some r' ∧
      (db.collected xs ys first last).arena.live.contains r'.offset = true ∧
      ((db.collected xs ys first last).arena.header r'.offset).identity =
        (db.arena.header r.offset).identity
    else ∀ r', (relocationOf xs ys).get? r = some r' →
      (db.collected xs ys first last).arena.live.contains r'.offset = false := by
  have after := h.collected last first_at
  obtain ⟨d, hd⟩ := named
  have r_eq := ofOffset_offset r
  rw [h.contains_live hd, h.tiled.header_eq hd]
  cases garbage : d.isGarbage with
  | true =>
    rcases get?_garbage db.arena.word h.fits' hd garbage with lost | ⟨stays, hd'⟩
    · rw [r_eq] at lost
      rw [lost]
      rintro r' ⟨⟩
    · rw [r_eq] at stays
      rw [stays]
      rintro r' ⟨⟩
      rw [after.contains_live hd', garbage]
      rfl
  | false =>
    obtain ⟨k, d', moved, hk, live, identity_eq⟩ := get?_live db.arena.word h.fits' hd garbage
    rw [r_eq] at moved
    refine ⟨_, moved, ?_, ?_⟩
    · rw [after.offset_ofOffset hk, after.contains_live hk, live]
      rfl
    · rw [after.offset_ofOffset hk, after.tiled.header_eq hk]
      exact UInt32.toNat_inj.1 identity_eq

/-- The live reasons of a search are the same clauses behind a compaction. -/
theorem Holds.reasonsOf_collected (h : db.Holds (xs ++ ys)) (last : Reference)
    (first_at : first.isValid = true →
      ∃ d, At (extents xs) (settle db.arena.word (extents xs) ys) first.offset d)
    {search : Snapshot} (named : ∀ r ∈ search.reasons, ∃ d, At 0 (xs ++ ys) r.offset d) :
    (db.collected xs ys first last).reasonsOf (search.relocate (relocationOf xs ys)) =
      db.reasonsOf search := by
  rw [reasonsOf, reasonsOf, Snapshot.relocate]
  dsimp only
  generalize search.reasons = rs at named
  induction rs with
  | nil => rfl
  | cons r rs ih =>
    have rest := ih fun r' hr' => named r' (by simp [hr'])
    have here := h.reason_collected last first_at (named r (by simp))
    rw [List.filter_cons]
    split at here
    next live =>
      obtain ⟨r', moved, live', identity_eq⟩ := here
      rw [if_pos live, List.filterMap_cons_some moved, List.filter_cons, if_pos live', List.map_cons,
        List.map_cons, rest, identity_eq]
    next lost =>
      rw [if_neg lost, ← rest]
      cases moved : (relocationOf xs ys).get? r with
      | none => rw [List.filterMap_cons_none moved]
      | some r' =>
        rw [List.filterMap_cons_some moved, List.filter_cons, here r' moved, if_neg (by decide)]

theorem binary_relocate (w : Watches) (m : Relocation) (l : Literal) :
    (w.relocate m).binary l = w.binary l := by
  simp only [Watches.binary, Watches.list, Watches.relocate, Array.getD_eq_getD_getElem?,
    Array.getElem?_map]
  cases w.lists[l.index]? <;> rfl

end Database

/-- A reduction that ends with a compaction conserves clauses. -/
theorem Thinned.conserved_collected {byScore : Bool} {search : Snapshot} {db db₁ : Database}
    {cs xs ys : List Cell} {gone : List Nat} (h : Thinned byScore search db db₁ cs (xs ++ ys) gone)
    (holds : db.Holds cs) (named : ∀ r ∈ search.reasons, ∃ d, At 0 cs r.offset d)
    {first last : Reference} (first_at : first.isValid = true →
      ∃ d, At (extents xs) (settle db₁.arena.word (extents xs) ys) first.offset d)
    {r : Except Error (Report × Snapshot)}
    (after_eq : searchAfter search r = search.relocate (relocationOf xs ys))
    (count_eq : reportedCount r = gone.length) :
    Conserved byScore search db r (db₁.collected xs ys first last) (relocationOf xs ys) gone := by
  have live_eq := h.live_eq holds
  have named' : ∀ r ∈ search.reasons, ∃ d, At 0 (xs ++ ys) r.offset d :=
    fun r hr => h.kept.exists_at.2 (named r hr)
  constructor
  case survivors_eq =>
    rw [← live_eq]
    exact h.holds.live_collected last first_at
  case clauses_eq =>
    rw [← live_eq, ← h.holds.clauses_collected last first_at]
    exact List.map_congr_left fun o ho => (h.clause_eq holds ho).symm
  case gone_live => exact fun o ho => (h.gone_eq holds ho).1
  case gone_redundant => exact fun o ho => (h.gone_eq holds ho).2.1
  case gone_free => exact fun o ho => (h.gone_eq holds ho).2.2.1
  case gone_unkept => exact fun o ho => (h.gone_eq holds ho).2.2.2
  case gone_apart => exact h.apart
  case told => exact h.told
  case binary_eq =>
    intro l
    show (db₁.watches.relocate _).binary l = _
    rw [binary_relocate, h.watches_eq]
  case count_eq => exact count_eq
  case reasons_eq =>
    rw [after_eq, h.holds.reasonsOf_collected last first_at named', h.reasonsOf_eq holds named]
  case followed =>
    refine .inr ⟨after_eq, ?_⟩
    show db₁.watches.relocate _ = _
    rw [h.watches_eq]

namespace Thinning

variable {byScore : Bool} {search search' : Snapshot} {db db' : Database} {cs ds : List Cell}
  {gone : List Nat}

/-- A reduction does not concern binary clauses. -/
theorem binary_eq (h : Thinning byScore search db cs gone search' db' ds) (l : Literal) :
    db'.watches.binary l = db.watches.binary l := by
  cases h with
  | still thinned => rw [thinned.watches_eq]
  | @compacted db₁ _ _ _ _ thinned =>
    rw [← thinned.watches_eq]
    exact binary_relocate db₁.watches _ l

theorem next_eq (h : Thinning byScore search db cs gone search' db' ds) :
    db'.nextIdentity = db.nextIdentity := by
  cases h with
  | still thinned => exact thinned.next_eq
  | compacted thinned => exact thinned.next_eq

end Thinning

/-- Whatever a reduction comes to, it conserves clauses. -/
theorem Reduction.conserves {π : Type} {c : Context π} {search : Snapshot} {cs ds : List Cell}
    {r : Except Error (Report × Snapshot)} {db : Database} (h : Reduction c search cs r db ds)
    (holds : c.database.Holds cs) (named : ∀ r ∈ search.reasons, ∃ d, At 0 cs r.offset d)
    (percentage : c.config.predicting.byScore.value = false →
      c.config.reducing.fraction.value.toNat ≤ 100) :
    ∃ moved gone,
      Conserved c.config.predicting.byScore.value search c.database r db moved gone := by
  obtain ⟨gone, thinning, count_eq⟩ := h.thinning holds
  generalize after_eq : searchAfter search r = search' at thinning
  cases thinning with
  | still thinned => exact ⟨_, gone, thinned.conserved holds named after_eq (count_eq percentage)⟩
  | compacted thinned first_at =>
    exact ⟨_, gone, thinned.conserved_collected holds named first_at after_eq (count_eq percentage)⟩

/-- The log does not matter. -/
theorem Conserved.logged {byScore : Bool} {search : Snapshot} {db db' : Database}
    {r : Except Error (Report × Snapshot)} {moved : Relocation} {gone : List Nat}
    (h : Conserved byScore search db r db' moved gone) (ms : Array Message) :
    Conserved byScore search db r (Logged.withMessages ms db') moved gone :=
  ⟨h.survivors_eq, h.clauses_eq, h.gone_live, h.gone_redundant, h.gone_free, h.gone_unkept,
    h.gone_apart, h.told, h.binary_eq, h.count_eq, h.reasons_eq, h.followed⟩

namespace Context

variable {π : Type} [Predictor π]

/-- Behind every lawful run, a reduction conserves clauses, whatever it comes to. By rank it removes a
percentage of its candidates, which is at most a hundred. -/
theorem reduce_conserves (config : Config) (predictor : π) (ops : List Operation) (search : Snapshot)
    (follows : (ofConfig config predictor).Follows ops)
    (named : ((ofConfig config predictor).run ops).database.Names search.reasons)
    (percentage : ((ofConfig config predictor).run ops).config.predicting.byScore.value = false →
      ((ofConfig config predictor).run ops).config.reducing.fraction.value.toNat ≤ 100) :
    ∃ moved gone,
      Conserved ((ofConfig config predictor).run ops).config.predicting.byScore.value search
        ((ofConfig config predictor).run ops).database
        (outcome (reduce search) ((ofConfig config predictor).run ops)).1
        (outcome (reduce search) ((ofConfig config predictor).run ops)).2.database moved gone := by
  obtain ⟨cs, h⟩ := exists_holds config predictor follows
  generalize (ofConfig config predictor).run ops = c at h named percentage ⊢
  obtain ⟨r, db, ds, counters, predictor, phase, reduces, -, reduction⟩ :=
    yields_reduce c h search fun r hr => .inl (named r hr)
  obtain ⟨ms, outcome_eq⟩ := reduces.outcome_eq
  have placed : ∀ r ∈ search.reasons, ∃ d, At 0 cs r.offset d :=
    fun r hr => h.tiled.mem_walk.1 (named r hr)
  obtain ⟨moved, gone, conserved⟩ := reduction.conserves h placed percentage
  refine ⟨moved, gone, ?_⟩
  rw [outcome_eq]
  exact conserved.logged ms

/-- Four long clauses, of which three are redundant. -/
def learnedRun : List Operation :=
  [.create .original 0 [⟨1⟩, ⟨2⟩, ⟨3⟩], .create .redundant 5 [⟨-1⟩, ⟨2⟩, ⟨4⟩],
    .create .redundant 9 [⟨3⟩, ⟨-4⟩, ⟨6⟩], .create .redundant 7 [⟨3⟩, ⟨-4⟩, ⟨5⟩], .noteConflict]

/-- A search that relies on the last of the clauses. -/
def learnedSearch : Snapshot := { variableCount := 6, activeCount := 6, reasons := [.ofOffset 36] }

/-- The clause before the reason is removed, and the reason moves to its place. -/
theorem reduce_conserves_learnedRun :
    (ofConfig {} ({} : Linear)).Follows learnedRun ∧
      ((ofConfig {} ({} : Linear)).run learnedRun).database.Names learnedSearch.reasons ∧
      (outcome (reduce learnedSearch) ((ofConfig {} ({} : Linear)).run learnedRun)).1 =
        .ok (.reduced 1, { learnedSearch with reasons := [.ofOffset 24] }) ∧
      ∃ moved gone,
        Conserved ((ofConfig {} ({} : Linear)).run learnedRun).config.predicting.byScore.value
          learnedSearch ((ofConfig {} ({} : Linear)).run learnedRun).database
          (outcome (reduce learnedSearch) ((ofConfig {} ({} : Linear)).run learnedRun)).1
          (outcome (reduce learnedSearch) ((ofConfig {} ({} : Linear)).run learnedRun)).2.database
          moved gone := by
  have follows : (ofConfig {} ({} : Linear)).Follows learnedRun := by decide +kernel
  have named : ((ofConfig {} ({} : Linear)).run learnedRun).database.Names learnedSearch.reasons := by
    decide +kernel
  have percentage : ((ofConfig {} ({} : Linear)).run learnedRun).config.predicting.byScore.value = false →
      ((ofConfig {} ({} : Linear)).run learnedRun).config.reducing.fraction.value.toNat ≤ 100 := by
    decide +kernel
  have reduced : (outcome (reduce learnedSearch) ((ofConfig {} ({} : Linear)).run learnedRun)).1 =
      .ok (.reduced 1, { learnedSearch with reasons := [.ofOffset 24] }) := by decide +kernel
  exact ⟨follows, named, reduced,
    reduce_conserves ({} : Config) ({} : Linear) learnedRun learnedSearch follows named percentage⟩

end Context

end ClauseStore
