import ClauseStore.Proofs.Exactness

/-!
The cached reference to the first reducible clause, from which reductions by rank scan. It is sound where
no reducible clause lies before it, and where none is left if it is invalid. A scan looks from where none
lies before, and everything else makes at most fewer clauses reducible; but a collection looks for the
first one from its start on only. So the cache is sound throughout a run just where no collection starts
behind a reducible clause.
-/

namespace ClauseStore

open Cell Database

/-- The records of an arena whose clauses are live, redundant and not kept. -/
def Arena.reducible (a : Arena) : List Nat :=
  (a.walkFrom 0).1.filter fun o =>
    !(a.header o).flags.garbage && ((a.header o).flags.redundant && !(a.header o).flags.keep)

/-- What reductions by rank trust: no reducible clause lies before the cached reference, and if it is
invalid there is none at all. -/
structure Database.FirstSound (db : Database) : Prop where
  none_before : db.firstReducible.isValid = true →
    ∀ o ∈ db.arena.reducible, ¬ o < db.firstReducible.offset
  none_left : db.firstReducible.isValid = false → db.arena.reducible = []

instance (db : Database) : Decidable db.FirstSound :=
  decidable_of_iff
    ((db.firstReducible.isValid = true → ∀ o ∈ db.arena.reducible, ¬ o < db.firstReducible.offset) ∧
      (db.firstReducible.isValid = false → db.arena.reducible = []))
    ⟨fun h => ⟨h.1, h.2⟩, fun h => ⟨h.none_before, h.none_left⟩⟩

/-- The call is not a collection that starts behind a reducible clause. -/
def Context.StartsInFront {π : Type} (op : Operation) (c : Context π) : Prop :=
  match op with
  | .collect start => ∀ o ∈ c.database.arena.reducible, ¬ o < start.offset
  | _ => True

/-! ### Rows without a reducible cell before a reference -/

namespace Cell

variable {first : Reference} {c d : Cell} {cs ds xs ys zs : List Cell} {f : Nat → Header → Header}

theorem isReducible_eq_of_core (h : d.core = c.core) : d.isReducible = c.isReducible := by
  obtain ⟨flags_eq, -⟩ := revised_eq_iff.1 h
  simp only [Header.core, Header.mk.injEq, Flags.mk.injEq] at flags_eq
  simp only [isReducible, isGarbage, flags_eq]

/-- A reference stays good for a row in which no more cells are reducible. -/
theorem NoneBefore.weaken (h : NoneBefore first 0 cs) (fewer : ∀ k d, At 0 ds k d →
    d.isReducible = true → ∃ c, At 0 cs k c ∧ c.isReducible = true) : NoneBefore first 0 ds := by
  intro k d hd reducible
  obtain ⟨c, hc, was⟩ := fewer k d hd reducible
  exact h k c hc was

theorem NoneBefore.of_core (h : NoneBefore first 0 cs) (core_eq : ds.map core = cs.map core) :
    NoneBefore first 0 ds := by
  refine h.weaken fun k d hd reducible => ?_
  obtain ⟨c, hc, same⟩ := hd.of_map_eq core_eq.symm
  exact ⟨c, hc, (isReducible_eq_of_core same).trans reducible⟩

theorem NoneBefore.mapAt (h : NoneBefore first 0 cs)
    (fewer : ∀ k (c : Cell), (c.revised (f k)).isReducible = true → c.isReducible = true) :
    NoneBefore first 0 (mapAt f 0 cs) := by
  refine h.weaken fun k d hd reducible => ?_
  obtain ⟨c, hc, rfl⟩ := at_mapAt.1 hd
  exact ⟨c, hc, fewer k c reducible⟩

/-- Revising one header does not matter if no clause becomes reducible by it. -/
theorem NoneBefore.only (h : NoneBefore first 0 cs) {g : Header → Header}
    (fewer : ∀ c : Cell, (c.revised g).isReducible = true → c.isReducible = true) (k : Nat) :
    NoneBefore first 0 (Cell.mapAt (Arena.only k g) 0 cs) := by
  refine h.mapAt fun j c reducible => ?_
  rw [Arena.only] at reducible
  split at reducible
  · exact fewer c reducible
  · exact reducible

@[simp] theorem isReducible_garbage (c : Cell) :
    (c.revised (Header.withFlag .garbage true)).isReducible = false := rfl

@[simp] theorem isReducible_irredundant (c : Cell) :
    (c.revised (Header.withFlag .redundant false)).isReducible = false := by
  simp [isReducible, revised, Header.withFlag, Flags.set]

theorem NoneBefore.markAll (h : NoneBefore first 0 cs) (ms : List Placed) :
    NoneBefore first 0 (markAll ms cs) := by
  rw [markAll_eq]
  refine h.mapAt fun k c reducible => ?_
  split at reducible
  · cases reducible
  · exact reducible

/-- What is found behind a boundary is good for the whole row, if no reducible cell lies before the
boundary. -/
theorem NoneBefore.behind {start : Reference} (start_eq : start.offset = extents xs)
    (front : NoneBefore start 0 (xs ++ ys)) (least : NoneBefore first (extents xs) zs) :
    NoneBefore first 0 (xs ++ zs) := by
  intro k c hc reducible
  rcases at_append.1 hc with hc | hc
  · have := front k c (at_append.2 (.inl hc)) reducible
    have := hc.bounds.2
    have := c.extent_pos
    omega
  · rw [Nat.zero_add] at hc
    exact least k c hc reducible

end Cell

namespace Database.Holds

variable {db : Database} {cs : List Cell}

theorem mem_reducible (h : db.Holds cs) {o : Nat} :
    o ∈ db.arena.reducible ↔ ∃ c, At 0 cs o c ∧ c.isReducible = true := by
  rw [Arena.reducible, List.mem_filter, h.tiled.mem_walk]
  constructor
  · rintro ⟨⟨c, hc⟩, reducible⟩
    rw [h.tiled.header_eq hc] at reducible
    exact ⟨c, hc, reducible⟩
  · rintro ⟨c, hc, reducible⟩
    rw [h.tiled.header_eq hc]
    exact ⟨⟨c, hc⟩, reducible⟩

/-- A reference is in front of the reducible clauses of the arena if it is for the cells. -/
theorem noneBefore_iff (h : db.Holds cs) {r : Reference} :
    (∀ o ∈ db.arena.reducible, ¬ o < r.offset) ↔ NoneBefore r 0 cs := by
  constructor
  · intro front k c hc reducible
    exact Nat.not_lt.1 (front k (h.mem_reducible.2 ⟨c, hc, reducible⟩))
  · intro front o ho
    obtain ⟨c, hc, reducible⟩ := h.mem_reducible.1 ho
    exact Nat.not_lt.2 (front o c hc reducible)

/-- The invalid reference lies behind all cells, so one condition says both. -/
theorem firstSound_iff (h : db.Holds cs) : db.FirstSound ↔ NoneBefore db.firstReducible 0 cs := by
  rw [← h.noneBefore_iff]
  cases valid : db.firstReducible.isValid with
  | true => exact ⟨fun sound => sound.none_before valid, fun front => ⟨fun _ => front, by simp [valid]⟩⟩
  | false =>
    constructor
    · intro sound o ho
      rw [sound.none_left valid] at ho
      cases ho
    · intro front
      refine ⟨by simp [valid], fun _ => List.eq_nil_iff_forall_not_mem.2 fun o ho => front o ho ?_⟩
      obtain ⟨c, hc, -⟩ := h.mem_reducible.1 ho
      have := hc.bounds.2
      have := c.extent_pos
      have := h.fits'
      rw [offset_eq_of_not_isValid valid]
      omega

end Database.Holds

/-! ### Evictions and reductions -/

namespace Eviction

variable {plan : ScanPlan} {fraction : UInt32} {xs ys cs : List Cell} {db db' : Database}
  {r : Except Error (Option Nat)} {start : Reference}

/-- What a scan caches is good for the whole row, if no reducible cell lies before its start. -/
theorem noneBefore_of_pass (holds : db.Holds (xs ++ ys)) (start_eq : start.offset = extents xs)
    (front : NoneBefore start 0 (xs ++ ys)) {t₀ t : Table} {p : ScanProgress} {zs : List Cell}
    (pass : plan.scanCells (extents xs) ys t₀ {} = (.ok p, zs, t)) :
    NoneBefore p.first 0 (xs ++ ys) := by
  have fits := holds.fits'
  rw [extents_append] at fits
  have result := ScanPlan.pass_scanCells plan (extents xs) ys t₀ {}
  rw [pass] at result
  obtain ⟨least, -⟩ := result.first_least fits fun valid => absurd valid Bool.false_ne_true
  exact front.behind start_eq least

theorem noneBefore_of_settlement (holds : db.Holds (xs ++ ys)) (start_eq : start.offset = extents xs)
    (front : NoneBefore start 0 (xs ++ ys)) {t₀ t : Table} {p : ScanProgress}
    (settled : Settlement plan xs ys t₀ p cs t) : NoneBefore p.first 0 cs := by
  have least : NoneBefore p.first 0 (xs ++ ys) := by
    cases settled with
    | bare _ pass => exact noneBefore_of_pass holds start_eq front pass
    | linked _ pass => exact noneBefore_of_pass holds start_eq front pass
  exact least.of_core (core_of_lasting settled.lasting)

/-- No cell becomes reducible in an eviction. -/
theorem noneBefore (h : Eviction plan fraction xs ys db r db' cs) {first : Reference}
    (front : NoneBefore first 0 (xs ++ ys)) : NoneBefore first 0 cs := by
  cases h with
  | failed pass => exact front.of_core (core_of_lasting (Settlement.lasting_pass pass))
  | idle pass => exact front.of_core (core_of_lasting (Settlement.lasting_pass pass))
  | unscored settled => exact front.of_core (core_of_lasting settled.lasting)
  | removed settled => exact (front.of_core (core_of_lasting settled.lasting)).markAll _

/-- An eviction that starts before the reducible cells leaves a good reference, also if it fails. -/
theorem caches (h : Eviction plan fraction xs ys db r db' cs) (holds : db.Holds (xs ++ ys))
    (start_eq : start.offset = extents xs) (front : NoneBefore start 0 (xs ++ ys))
    (cached : NoneBefore db.firstReducible 0 (xs ++ ys)) : NoneBefore db'.firstReducible 0 cs := by
  cases h with
  | failed pass => exact cached.of_core (core_of_lasting (Settlement.lasting_pass pass))
  | idle pass =>
    exact (noneBefore_of_pass holds start_eq front pass).of_core
      (core_of_lasting (Settlement.lasting_pass pass))
  | unscored settled => exact noneBefore_of_settlement holds start_eq front settled
  | @removed p zs t t' es ms n settled =>
    have least := noneBefore_of_settlement holds start_eq front settled
    have frame := markedAll_frame ms zs (db.settledBehind zs t' p.first es)
    show NoneBefore (markedAll ms zs _).firstReducible 0 _
    rw [frame.2.2.1]
    exact least.markAll ms

end Eviction

namespace Reduction

variable {π : Type} {c : Context π} {search : Snapshot} {cs ds : List Cell}
  {r : Except Error (Report × Snapshot)} {db : Database}

/-- A reduction scans, and compacts, from where no reducible clause lies before, if the cache is sound. -/
theorem caches (h : Reduction c search cs r db ds) (holds : c.database.Holds cs)
    (cached : NoneBefore c.database.firstReducible 0 cs) : NoneBefore db.firstReducible 0 ds := by
  have front : NoneBefore (c.scanStart (c.whole search)) 0 cs := by
    rw [Context.scanStart]
    split
    · exact fun k _ _ _ => Nat.zero_le k
    · exact cached
  have flags_core := core_flagged true (c.protects search) cs
  have flags := holds.of_core flags_core
  have front_flagged := front.of_core flags_core
  have cached_flagged := cached.of_core flags_core
  cases h with
  | unstarted => exact cached
  | unsatisfiable => exact cached
  | barred => exact cached.of_core (core_flagged ..)
  | failed split start eviction =>
    rw [split] at flags front_flagged cached_flagged
    exact (eviction.caches flags start front_flagged cached_flagged).of_core (core_flagged ..)
  | idle part split start eviction =>
    rw [split] at flags front_flagged cached_flagged
    exact (eviction.caches flags start front_flagged cached_flagged).of_core (core_flagged ..)
  | @compacted xs ys zs xs' ys' found db first last asked split start eviction resplit restart first_at
      first_least =>
    rw [split] at front_flagged
    have front_left := (eviction.noneBefore front_flagged).of_core
      (core_flagged false (c.protects search) zs)
    rw [resplit] at front_left
    exact front_left.behind (start.trans restart.symm) first_least

end Reduction

/-! ### Effects and runs -/

/-- Storing caches a fresh reducible clause if none was cached. -/
theorem Database.Storage.caches {config : Config} {source : Source} {glue : UInt32} {conflicts : UInt64}
    {clause : Clause} {cs ds : List Cell} {db db' : Database} {r : Except Error Placement}
    (h : Storage config source glue conflicts clause cs db r db' ds) (holds : db.Holds cs)
    (cached : NoneBefore db.firstReducible 0 cs) : NoneBefore db'.firstReducible 0 ds := by
  cases h with
  | refused => exact cached
  | @binary a b literals_eq fresh =>
    rw [(beside_storedBinary a b source fresh).first_eq]
    exact cached
  | @long a b rest literals_eq =>
    have fits := holds.fits'
    have next := cached.snoc (d := Cell.stored db.nextIdentity source glue
      (keeps config source glue) conflicts (a :: b :: rest)) (by omega) fun valid => by
        obtain ⟨_, place⟩ := holds.first_eq valid
        have := place.bounds.2
        omega
    have live : (Cell.stored db.nextIdentity source glue (keeps config source glue) conflicts
        (a :: b :: rest)).isGarbage = false := rfl
    rw [isReducible_of_live live, Nat.zero_add] at next
    simp only [storedLong]
    exact next

namespace Effect

variable {π : Type} {c c' : Context π} {cs ds : List Cell} {op : Operation} {r : Except Error Answer}

/-- Every effect keeps the cache sound, but a collection from behind a reducible clause. -/
theorem caches (h : Effect c cs op r c' ds) (holds : c.database.Holds cs)
    (front : Context.StartsInFront op c) (cached : NoneBefore c.database.firstReducible 0 cs) :
    NoneBefore c'.database.firstReducible 0 ds := by
  cases h with
  | configured => exact cached
  | beside _ _ same =>
    rw [same.first_eq]
    exact cached
  | stored storage => exact storage.caches holds cached
  | noted note found =>
    refine cached.only (fun d reducible => ?_) _
    have core_eq : (d.revised _).core = d.core :=
      revised_eq_iff.2 ⟨Operation.core_of_note note d.header, rfl, rfl⟩
    exact (isReducible_eq_of_core core_eq).symm.trans reducible
  | refused => exact cached
  | marked => exact cached.only (fun d reducible => by simp at reducible) _
  | promoted => exact cached.only (fun d reducible => by simp at reducible) _
  | @shortened r size xs ys d split start free =>
    subst split
    obtain ⟨-, -, shorter⟩ := Database.barsShrink_eq_false (holds.sound d (by simp)) free
    refine cached.weaken fun k e he reducible => ?_
    rcases at_append.1 he with he | he
    · exact ⟨e, at_append.2 (.inl he), reducible⟩
    · rcases at_cons.1 he with ⟨rfl, rfl⟩ | he
      · exact ⟨d, at_append.2 (.inr (at_cons.2 (.inl ⟨rfl, rfl⟩))), reducible⟩
      · rw [extent_shrunk d shorter] at he
        exact ⟨e, at_append.2 (.inr (at_cons.2 (.inr he))), reducible⟩
  | @collected start xs ys first last split start_eq first_at first_least =>
    subst split start_eq
    exact (holds.noneBefore_iff.1 front).behind holds.start_eq first_least
  | reduced reduction => exact reduction.caches holds cached

/-- A collection that leaves the cache sound did not start behind a reducible clause: what it caches is
not before its start. -/
theorem startsInFront (h : Effect c cs op r c' ds) (holds : c.database.Holds cs)
    (cached : NoneBefore c'.database.firstReducible 0 ds) : Context.StartsInFront op c := by
  cases h with
  | @collected start xs ys first last split start_eq first_at =>
    subst split start_eq
    refine holds.noneBefore_iff.2 fun k e he reducible => ?_
    have fits := holds.fits'
    rw [holds.start_eq]
    rw [extents_append] at fits
    rcases at_append.1 he with before | he
    · have least : first.offset ≤ k := cached k e (at_append.2 (.inl before)) reducible
      have := before.bounds.2
      have := e.extent_pos
      cases valid : first.isValid with
      | true =>
        obtain ⟨_, place⟩ := first_at valid
        have := place.bounds.1
        omega
      | false =>
        rw [offset_eq_of_not_isValid valid] at least
        omega
    · have := he.bounds.1
      omega
  | beside => cases op <;> trivial
  | noted => cases op <;> trivial
  | refused => cases op <;> trivial
  | configured => trivial
  | stored => trivial
  | marked => trivial
  | promoted => trivial
  | shortened => trivial
  | reduced => trivial

end Effect

namespace Context

variable {π : Type} [Predictor π]

instance (op : Operation) (c : Context π) : Decidable (StartsInFront op c) :=
  match op with
  | .collect start => inferInstanceAs (Decidable (∀ o ∈ c.database.arena.reducible, ¬ o < start.offset))
  | .configure _ | .listen _ | .create .. | .noteConflict | .notePropagation _ | .noteUip _
  | .noteUsed _ | .setReason .. | .shrink .. | .markGarbage _ | .makeIrredundant _ | .deleteBinary ..
  | .setWatching _ | .queuePending _ | .takePending | .connectPending | .reduce _ =>
    inferInstanceAs (Decidable True)

/-- The cache is sound throughout a run from where it is sound just if no collection of the run starts
behind a reducible clause. -/
theorem firstSound_throughout {c : Context π} {cs : List Cell} {ops : List Operation}
    (h : c.database.Holds cs) (sound : NoneBefore c.database.firstReducible 0 cs)
    (follows : c.Follows ops) :
    (∀ n, (c.run (ops.take n)).database.FirstSound) ↔ c.Throughout StartsInFront ops := by
  induction ops generalizing c cs with
  | nil => simpa [run, Throughout] using h.firstSound_iff.2 sound
  | cons op ops ih =>
    obtain ⟨lawful, rest⟩ := follows
    obtain ⟨c', ds, ms, after_eq, effect⟩ := exists_effect h lawful
    have next : (op.after c).database.Holds ds := holds_after after_eq (effect.holds h)
    have first_eq : (op.after c).database.firstReducible = c'.database.firstReducible := by
      rw [after_eq]
      rfl
    constructor
    · intro all
      have here : NoneBefore (op.after c).database.firstReducible 0 ds := next.firstSound_iff.1 (all 1)
      refine ⟨effect.startsInFront h (first_eq ▸ here), ?_⟩
      exact (ih next here rest).1 fun n => all (n + 1)
    · rintro ⟨front, behind⟩ n
      have here : NoneBefore (op.after c).database.firstReducible 0 ds :=
        first_eq ▸ effect.caches h front sound
      cases n with
      | zero => exact h.firstSound_iff.2 sound
      | succ n => exact (ih next here rest).2 behind n

/-- Along every lawful run of an empty context, the cached reference to the first reducible clause is
sound throughout just if no collection starts behind a reducible clause. -/
theorem firstReducible_sound_iff (config : Config) (predictor : π) (ops : List Operation)
    (follows : (ofConfig config predictor).Follows ops) :
    (∀ n, ((ofConfig config predictor).run (ops.take n)).database.FirstSound) ↔
      (ofConfig config predictor).Throughout StartsInFront ops := by
  have start : (ofConfig config predictor).database.Holds [] := holds_nil
  exact firstSound_throughout start (fun _ _ hc => absurd hc not_at_nil) follows

/-- Two reducible clauses, and a collection that starts at the second one. -/
def skippingRun : List Operation :=
  [.create .redundant 6 [⟨1⟩, ⟨2⟩, ⟨3⟩], .create .redundant 6 [⟨1⟩, ⟨2⟩, ⟨4⟩], .collect (.ofOffset 12)]

/-- The collection caches the second clause, and no reduction by rank ever scans the first one again. -/
theorem firstReducible_sound_skippingRun :
    (ofConfig {} ({} : Linear)).Follows skippingRun ∧
      (∀ n, ((ofConfig {} ({} : Linear)).run ((skippingRun.take 2).take n)).database.FirstSound) ∧
      ¬ ∀ n, ((ofConfig {} ({} : Linear)).run (skippingRun.take n)).database.FirstSound := by
  have follows : (ofConfig {} ({} : Linear)).Follows skippingRun := by decide +kernel
  have begins : (ofConfig {} ({} : Linear)).Follows (skippingRun.take 2) := by decide +kernel
  have front : (ofConfig {} ({} : Linear)).Throughout StartsInFront (skippingRun.take 2) := by
    decide +kernel
  have skips : ¬ (ofConfig {} ({} : Linear)).Throughout StartsInFront skippingRun := by decide +kernel
  refine ⟨follows, (firstReducible_sound_iff ({} : Config) ({} : Linear) _ begins).2 front,
    fun sound => skips ?_⟩
  exact (firstReducible_sound_iff ({} : Config) ({} : Linear) skippingRun follows).1 sound

end Context

end ClauseStore
