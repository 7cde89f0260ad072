import ClauseStore.Proofs.Operation

/-!
Compaction is exact. What a collection leaves is said in terms of the arena before it: which words
stay, which records are visited from the start on and what they hold, how long the arena is, what is
counted, and where the relocation leads for every reference.
-/

namespace ClauseStore

open Cell

/-- The sum of some counts. -/
def total (ns : List Nat) : Nat := ns.foldr (· + ·) 0

namespace Database

/-- The records from a start on that are not garbage. -/
def survivors (db : Database) (start : Reference) : List Nat :=
  (db.arena.walkFrom start.offset).1.filter fun o => !(db.arena.header o).flags.garbage

/-- The records from a start on that are garbage. -/
def casualties (db : Database) (start : Reference) : List Nat :=
  (db.arena.walkFrom start.offset).1.filter fun o => (db.arena.header o).flags.garbage

/-- A compaction from a start on has left nothing but what it must leave. -/
structure Compacted (db : Database) (start : Reference) (moved : Relocation) (db' : Database) :
    Prop where
  /-- the words before the start stay -/
  words_before : ∀ i, i < start.offset → db'.arena.word i = db.arena.word i
  /-- the records before the start are visited as before -/
  walk_before : (db'.arena.walkFrom 0).1 =
    ((db.arena.walkFrom 0).1.filter fun o => decide (o < start.offset)) ++
      (db'.arena.walkFrom start.offset).1
  walk_ends : (db'.arena.walkFrom start.offset).2 = true
  /-- the records from the start on are the survivors, with their headers, but for the flag of a
  shortened clause, and their literals -/
  records_eq : (db'.arena.walkFrom start.offset).1.map
      (fun o => (db'.arena.header o, db'.arena.literals o)) =
    (db.survivors start).map
      fun o => ((db.arena.header o).withFlag .shrunken false, db.arena.literals o)
  size_eq : db'.arena.size = start.offset + total ((db.survivors start).map
    fun o => (wordsOfClause (db.arena.header o).size.toUInt64).toNat)
  deleted_eq : db'.counts.deleted = db.counts.deleted + (db.casualties start).length
  garbage_eq : db'.counts.arenaGarbage + wordBytes * total ((db.casualties start).map db.arena.span) =
    db.counts.arenaGarbage
  get_invalid : moved.get? .invalid = none
  get_before : ∀ r, r.isValid = true → r < start → moved.get? r = some r
  /-- the start of a survivor leads to the start of its record -/
  get_survivor : ∀ o ∈ db.survivors start, ∃ o' ∈ (db'.arena.walkFrom start.offset).1,
    moved.get? (.ofOffset o) = some (.ofOffset o') ∧
      (db'.arena.header o').identity = (db.arena.header o).identity
  get_other : ∀ r, start ≤ r → r.offset ∉ db.survivors start → moved.get? r = none
  /-- the moves lead from the survivors to their records, in order -/
  moves_eq : moved.moves.toList = ((db.survivors start).map Reference.ofOffset).zip
    ((db'.arena.walkFrom start.offset).1.map Reference.ofOffset)
  moves_ascend : moved.moves.toList.Pairwise fun m m' => m.1 < m'.1 ∧ m.2 < m'.2
  /-- no record moves away from the start -/
  moves_back : ∀ m ∈ moved.moves, m.2 ≤ m.1

/-! ### What is read behind a boundary -/

variable {db : Database} {xs ys : List Cell}

namespace Holds

theorem start_eq (h : db.Holds (xs ++ ys)) : (Reference.ofOffset (extents xs)).offset = extents xs := by
  have fits := h.fits'
  rw [extents_append] at fits
  exact toNat_ofOffset (by omega)

theorem survivors_eq (h : db.Holds (xs ++ ys)) :
    db.survivors (.ofOffset (extents xs)) = liveOffsets (extents xs) ys := by
  rw [survivors, h.start_eq, h.tiled.walkFrom_eq xs]
  refine (liveOffsets_eq_filter fun k c hc => ?_).symm
  rw [h.tiled.header_eq hc.behind, isGarbage]

theorem map_survivors {β : Type} {f : Nat → β} {g : Cell → β} (h : db.Holds (xs ++ ys))
    (view : ∀ k c, At 0 (xs ++ ys) k c → f k = g c) :
    (db.survivors (.ofOffset (extents xs))).map f = (ys.filter fun c => !c.isGarbage).map g := by
  rw [survivors, h.start_eq, h.tiled.walkFrom_eq xs]
  refine map_filter_offsets fun k c hc => ⟨?_, view k c hc.behind⟩
  rw [h.tiled.header_eq hc.behind, isGarbage]

theorem map_casualties {β : Type} {f : Nat → β} {g : Cell → β} (h : db.Holds (xs ++ ys))
    (view : ∀ k c, At 0 (xs ++ ys) k c → f k = g c) :
    (db.casualties (.ofOffset (extents xs))).map f = (garbageOf ys).map g := by
  rw [casualties, h.start_eq, h.tiled.walkFrom_eq xs]
  refine map_filter_offsets fun k c hc => ⟨?_, view k c hc.behind⟩
  rw [h.tiled.header_eq hc.behind, isGarbage]

end Holds

theorem total_map_extent (cs : List Cell) : total (cs.map extent) = extents cs := by
  induction cs with
  | nil => rfl
  | cons c cs ih =>
    show c.extent + total (cs.map extent) = _
    rw [ih, extents_cons]

/-- The words of a record of some size are what its cell needs. -/
theorem toNat_words_of_size {c : Cell} (h : c.Sound) :
    (wordsOfClause c.header.size.toUInt64).toNat = c.need := by
  have bound := c.header.size.toNat_lt
  have size_eq : c.header.size.toUInt64 = UInt64.ofNat c.literals.length := by
    apply UInt64.toNat_inj.1
    rw [UInt32.toNat_toUInt64, UInt64.toNat_ofNat', ← h.size_eq]
    omega
  rw [size_eq, Arena.toNat_wordsOfClause (by rw [← h.size_eq]; omega), need]

/-- What a boundary leaves before it does not depend on what stands behind it. -/
theorem word_ofCells_append (xs zs : List Cell) {i : Nat} (hi : i < extents xs) :
    (Arena.ofCells (xs ++ zs)).word i = (Arena.ofCells xs).word i := by
  have read : ∀ cs : List Cell, (Arena.ofCells cs).word i = (cs.flatMap Cell.words).getD i 0 := by
    intro cs
    rw [Arena.word, Arena.ofCells, Array.getD_eq_getD_getElem?, List.getElem?_toArray,
      List.getD_eq_getElem?_getD]
  rw [read, read, List.flatMap_append, List.getD_eq_getElem?_getD, List.getD_eq_getElem?_getD,
    List.getElem?_append_left (by rwa [length_flatMap_words])]

/-- The records before a boundary. -/
theorem filter_offsets_before (xs ys : List Cell) :
    (offsets 0 (xs ++ ys)).filter (fun o => decide (o < extents xs)) = offsets 0 xs := by
  rw [offsets_append, List.filter_append, Nat.zero_add, List.filter_eq_self.2, List.filter_eq_nil_iff.2,
    List.append_nil]
  · intro o ho
    obtain ⟨c, hc⟩ := mem_offsets.1 ho
    have := hc.bounds.1
    simp only [decide_eq_true_eq]
    omega
  · intro o ho
    obtain ⟨c, hc⟩ := mem_offsets.1 ho
    have := hc.bounds.2
    have := c.extent_pos
    simp only [decide_eq_true_eq]
    omega

/-! ### Exactness -/

section Collected

variable {first last : Reference}

/-- The start of a survivor leads to the start of its record. -/
theorem Holds.get?_survivor (h : db.Holds (xs ++ ys)) (after : (db.collected xs ys first last).Holds
      (xs ++ settle db.arena.word (extents xs) ys)) {o : Nat}
    (ho : o ∈ db.survivors (.ofOffset (extents xs))) :
    ∃ o' ∈ ((db.collected xs ys first last).arena.walkFrom (extents xs)).1,
      (relocationOf xs ys).get? (.ofOffset o) = some (.ofOffset o') ∧
        ((db.collected xs ys first last).arena.header o').identity = (db.arena.header o).identity := by
  have fits := h.fits'
  rw [extents_append] at fits
  rw [h.survivors_eq, mem_liveOffsets] at ho
  obtain ⟨c, hc, live⟩ := ho
  obtain ⟨o', w, lookup_eq, hc'⟩ := lookup_moves db.arena.word (extents xs) hc live (by omega)
  refine ⟨o', ?_, (get?_behind h.fits' hc).trans lookup_eq, ?_⟩
  · rw [after.tiled.walkFrom_eq xs]
    exact mem_offsets.2 ⟨_, hc'⟩
  · rw [after.tiled.header_eq hc'.behind, h.tiled.header_eq hc.behind]
    rfl

/-- No other reference from the start on leads anywhere. -/
theorem Holds.get?_other (h : db.Holds (xs ++ ys)) {r : Reference}
    (behind : .ofOffset (extents xs) ≤ r) (lost : r.offset ∉ db.survivors (.ofOffset (extents xs))) :
    (relocationOf xs ys).get? r = none := by
  have fits := h.fits'
  rw [get?_relocationOf fits]
  rw [extents_append] at fits
  split
  · rfl
  rw [if_neg (show ¬ r < .ofOffset (extents xs) from Nat.not_lt.2 behind)]
  refine lookup_moves_none (fun c hc => ?_) (by omega)
  rw [h.survivors_eq, mem_liveOffsets] at lost
  cases garbage : c.isGarbage with
  | true => rfl
  | false => exact absurd ⟨c, hc, garbage⟩ lost

end Collected

/-- A collection of the cells behind a boundary leaves nothing but what it must leave. -/
theorem Holds.compacted (h : db.Holds (xs ++ ys)) {first : Reference} (last : Reference)
    (first_at : first.isValid = true →
      ∃ d, At (extents xs) (settle db.arena.word (extents xs) ys) first.offset d) :
    Compacted db (.ofOffset (extents xs)) (relocationOf xs ys) (db.collected xs ys first last) := by
  have fits := h.fits'
  rw [extents_append] at fits
  have start_eq := h.start_eq
  have after := h.collected last first_at
  have walk_eq := after.tiled.walkFrom_eq xs
  have ascending := moves_pairwise (Nat.le_refl (extents xs))
    (fun c hc => h.sound c (List.mem_append_right xs hc)) (by omega)
  constructor
  case words_before =>
    intro i hi
    rw [start_eq] at hi
    rw [after.arena_eq, h.arena_eq, word_ofCells_append xs _ hi, word_ofCells_append xs _ hi]
  case walk_before =>
    rw [start_eq, walk_eq, after.tiled.walkFrom_zero, h.tiled.walkFrom_zero, filter_offsets_before,
      offsets_append, Nat.zero_add]
  case walk_ends => rw [start_eq, walk_eq]
  case records_eq =>
    have left : (settle db.arena.word (extents xs) ys).map (fun c => (c.header, c.literals)) =
        (ys.filter fun c => !c.isGarbage).map
          fun c => (c.header.withFlag .shrunken false, c.literals) := map_settle fun _ _ => rfl
    rw [start_eq, walk_eq, h.map_survivors fun k c hc => by rw [h.tiled.header_eq hc,
      h.tiled.literals_eq hc], ← left]
    exact map_offsets fun k c hc => by
      rw [after.tiled.header_eq hc.behind, after.tiled.literals_eq hc.behind]
  case size_eq =>
    have left : (settle db.arena.word (extents xs) ys).map extent =
        (ys.filter fun c => !c.isGarbage).map need := map_settle extent_moved
    rw [start_eq, after.tiled.size_eq, extents_append, h.map_survivors fun k c hc => by
      rw [h.tiled.header_eq hc, toNat_words_of_size (h.tiled.sound_at hc)], ← left, total_map_extent]
  case deleted_eq =>
    have lengths : ((db.casualties (.ofOffset (extents xs))).map fun _ => ()).length =
        ((garbageOf ys).map fun _ => ()).length :=
      congrArg List.length (h.map_casualties fun _ _ _ => rfl)
    rw [List.length_map, List.length_map] at lengths
    rw [lengths]
    rfl
  case garbage_eq =>
    have books := h.garbage_eq
    rw [garbageOf, List.filter_append, extents_append, Nat.add_mul] at books
    rw [h.map_casualties fun k c hc => h.tiled.span_eq hc, total_map_extent]
    show db.counts.arenaGarbage - extents (garbageOf ys) * wordBytes + _ = _
    rw [books, Nat.mul_comm wordBytes, garbageOf]
    omega
  case get_invalid => rfl
  case get_before =>
    intro r valid before
    rw [get?_relocationOf h.fits', valid, if_pos before]
    rfl
  case get_survivor =>
    rw [start_eq]
    exact fun o ho => h.get?_survivor after ho
  case get_other => exact fun r => h.get?_other
  case moves_eq =>
    rw [start_eq, walk_eq, h.survivors_eq]
    exact moves_eq_zip
  case moves_ascend => exact ascending.2
  case moves_back => exact fun m hm => (ascending.1 m (List.mem_toArray.1 hm)).2.2

/-- The log does not matter. -/
theorem Compacted.logged {db' : Database} {start : Reference} {moved : Relocation}
    (h : Compacted db start moved db') (ms : Array Message) :
    Compacted db start moved (Logged.withMessages ms db') :=
  ⟨h.words_before, h.walk_before, h.walk_ends, h.records_eq, h.size_eq, h.deleted_eq, h.garbage_eq,
    h.get_invalid, h.get_before, h.get_survivor, h.get_other, h.moves_eq, h.moves_ascend, h.moves_back⟩

end Database

namespace Context

variable {π : Type} [Predictor π]

/-- Behind every lawful run, a collection from a boundary between records succeeds and is exact. -/
theorem collect_exact (config : Config) (predictor : π) (ops : List Operation) (start : Reference)
    (follows : (ofConfig config predictor).Follows ops)
    (boundary : ((ofConfig config predictor).run ops).database.Boundary start) :
    ∃ moved, (Operation.collect start).answer ((ofConfig config predictor).run ops) =
        .ok (.relocated moved) ∧
      Database.Compacted ((ofConfig config predictor).run ops).database start moved
        ((Operation.collect start).after ((ofConfig config predictor).run ops)).database := by
  obtain ⟨cs, h⟩ := exists_holds config predictor follows
  obtain ⟨xs, ys, rfl, rfl⟩ := Operation.exists_split_of_boundary h boundary
  obtain ⟨first, last, collect, first_at⟩ := Database.yields_collect h
  have performed : Yields (Operation.collect (.ofOffset (extents xs))).perform
      ((ofConfig config predictor).run ops) _ _ :=
    Operation.yields_answered (yields_onDatabase collect) .relocated
  obtain ⟨ms, outcome_eq⟩ := performed.outcome_eq
  refine ⟨Database.relocationOf xs ys, by rw [Operation.answer, outcome_eq]; rfl, ?_⟩
  rw [Operation.after, outcome_eq]
  exact (h.compacted last first_at).logged ms

/-- Three long clauses of which the first is garbage and the second is shortened. -/
def sampleRun : List Operation :=
  [.create .original 0 [⟨1⟩, ⟨2⟩, ⟨3⟩], .create .redundant 5 [⟨-1⟩, ⟨2⟩, ⟨4⟩, ⟨5⟩],
    .create .redundant 7 [⟨3⟩, ⟨-4⟩, ⟨6⟩], .markGarbage (.ofOffset 0), .shrink (.ofOffset 12) 3]

theorem collect_exact_sampleRun :
    (ofConfig {} ({} : Linear)).Follows sampleRun ∧
      ((ofConfig {} ({} : Linear)).run sampleRun).database.Boundary .start ∧
      ∃ moved, (Operation.collect .start).answer ((ofConfig {} ({} : Linear)).run sampleRun) =
          .ok (.relocated moved) ∧
        Database.Compacted ((ofConfig {} ({} : Linear)).run sampleRun).database .start moved
          ((Operation.collect .start).after ((ofConfig {} ({} : Linear)).run sampleRun)).database := by
  have follows : (ofConfig {} ({} : Linear)).Follows sampleRun := by decide +kernel
  have boundary : ((ofConfig {} ({} : Linear)).run sampleRun).database.Boundary .start := by
    decide +kernel
  exact ⟨follows, boundary, collect_exact ({} : Config) ({} : Linear) sampleRun .start follows boundary⟩

end Context

end ClauseStore
