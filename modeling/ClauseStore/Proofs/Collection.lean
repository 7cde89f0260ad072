import ClauseStore.Proofs.Holding

/-!
Collection, as a change of the row of cells: those behind the start settle, and table, watch lists and
books follow. A collection from a boundary between records succeeds, and what a database holds
afterwards are the cells before the start and the settled ones behind it.
-/

namespace ClauseStore

open Cell

namespace Database

/-- The movement of the cells behind some others. -/
def relocationOf (xs ys : List Cell) : Relocation :=
  ⟨.ofOffset (extents xs), (moves (extents xs) (extents xs) ys).toArray⟩

section Moving

variable {xs ys : List Cell} {k : Nat} {c : Cell}

/-- The moves ascend, so that halving comes to what a lookup comes to. -/
theorem get?_relocationOf (fits : extents (xs ++ ys) < 4294967295) (r : Reference) :
    (relocationOf xs ys).get? r =
      if !r.isValid then none
      else if r < .ofOffset (extents xs) then some r
      else (moves (extents xs) (extents xs) ys).lookup r := by
  rw [extents_append] at fits
  rw [Relocation.get?, relocationOf, Relocation.search_eq_lookup (moves_ascend (extents xs) (by omega))]

/-- A record before the start does not move. -/
theorem get?_before (fits : extents (xs ++ ys) < 4294967295) (hc : At 0 xs k c) :
    (relocationOf xs ys).get? (.ofOffset k) = some (.ofOffset k) := by
  rw [get?_relocationOf fits]
  have bounds := hc.bounds.2
  have extent_pos := c.extent_pos
  rw [extents_append] at fits
  have before : Reference.ofOffset k < .ofOffset (extents xs) := by
    show (Reference.ofOffset k).offset < (Reference.ofOffset (extents xs)).offset
    rw [toNat_ofOffset (by omega), toNat_ofOffset (by omega)]
    omega
  rw [isValid_ofOffset (by omega), if_neg (by decide), if_pos before]

/-- A record behind the start goes where the moves lead. -/
theorem get?_behind (fits : extents (xs ++ ys) < 4294967295) (hc : At (extents xs) ys k c) :
    (relocationOf xs ys).get? (.ofOffset k) =
      (moves (extents xs) (extents xs) ys).lookup (.ofOffset k) := by
  rw [get?_relocationOf fits]
  have bounds := hc.bounds
  have extent_pos := c.extent_pos
  rw [extents_append] at fits
  have behind : ¬ Reference.ofOffset k < .ofOffset (extents xs) := by
    show ¬ (Reference.ofOffset k).offset < (Reference.ofOffset (extents xs)).offset
    rw [toNat_ofOffset (by omega), toNat_ofOffset (by omega)]
    omega
  rw [isValid_ofOffset (by omega), if_neg (by decide), if_neg behind]

/-- A live record leads to a live one of the same clause. -/
theorem get?_live (fill : Nat → UInt32) (fits : extents (xs ++ ys) < 4294967295)
    (hc : At 0 (xs ++ ys) k c) (live : c.isGarbage = false) :
    ∃ k' d, (relocationOf xs ys).get? (.ofOffset k) = some (.ofOffset k') ∧
      At 0 (xs ++ settle fill (extents xs) ys) k' d ∧ d.isGarbage = false ∧ d.identity = c.identity := by
  rcases at_append.1 hc with hc | hc
  · exact ⟨k, c, get?_before fits hc, at_append.2 (.inl hc), live, rfl⟩
  · rw [Nat.zero_add] at hc
    have bound := fits
    rw [extents_append] at bound
    obtain ⟨k', w, lookup_eq, hk'⟩ := lookup_moves fill (extents xs) hc live (by omega)
    exact ⟨k', c.moved w, (get?_behind fits hc).trans lookup_eq, hk'.behind, live, rfl⟩

/-- A record that is garbage leads nowhere, or stays. -/
theorem get?_garbage (fill : Nat → UInt32) (fits : extents (xs ++ ys) < 4294967295)
    (hc : At 0 (xs ++ ys) k c) (garbage : c.isGarbage = true) :
    (relocationOf xs ys).get? (.ofOffset k) = none ∨
      (relocationOf xs ys).get? (.ofOffset k) = some (.ofOffset k) ∧
        At 0 (xs ++ settle fill (extents xs) ys) k c := by
  rcases at_append.1 hc with hc | hc
  · exact .inr ⟨get?_before fits hc, at_append.2 (.inl hc)⟩
  · rw [Nat.zero_add] at hc
    left
    rw [get?_behind fits hc]
    have bounds := hc.bounds
    have extent_pos := c.extent_pos
    rw [extents_append] at fits
    refine lookup_moves_none (fun d hd => ?_) (by omega)
    rw [toNat_ofOffset (by omega)] at hd
    rw [hd.unique hc, garbage]

end Moving

/-- A database after a collection of the cells behind some others, with new cached references. -/
def collected (xs ys : List Cell) (first last : Reference) (db : Database) : Database :=
  { db with
    arena := .ofCells (xs ++ settle db.arena.word (extents xs) ys)
    watches := db.watches.relocate (relocationOf xs ys)
    table := db.table.relocate (relocationOf xs ys)
    counts := { db.counts with
      arenaGarbage := db.counts.arenaGarbage - extents (garbageOf ys) * wordBytes
      deleted := db.counts.deleted + (garbageOf ys).length }
    firstReducible := first
    lastIrredundant := last }

variable {db : Database} {xs ys : List Cell}

/-- The last live irredundant clause of an arena before a reference. -/
def lastBefore (arena : Arena) (limit : Reference) : Reference :=
  (((arena.walkFrom 0).1.takeWhile fun o => !decide (limit.offset ≤ o)).filter fun o =>
    !(arena.header o).flags.garbage && !(arena.header o).flags.redundant).getLast?.elim
      .invalid Reference.ofOffset

theorem yields_lastIrredundantBefore (limit : Reference) (db : Database) :
    Yields (lastIrredundantBefore limit) db (.ok (lastBefore db.arena limit)) db := by
  have until_eq : Yields (offsetsUntil fun o => decide (limit.offset ≤ o)) db _ db :=
    Yields.get_bind (fun _ => rfl) ((yields_logIf _ _).bind (yields_pure _ _))
  exact until_eq.bind (Yields.get_bind (fun _ => rfl) (yields_pure _ _))

/-- The last irredundant clause that is cached after a compaction of an arena, by the one cached
before. -/
def recached (start : Reference) (c : Compaction) (last : Reference) (arena : Arena) : Reference :=
  if c.lastIrredundant.isValid then c.lastIrredundant
  else if last.isValid && decide (start ≤ last) then lastBefore arena start
  else last

theorem yields_recache (start : Reference) (c : Compaction) (db : Database) :
    Yields (recache start c) db (.ok ())
      { db with
        firstReducible := c.firstReducible
        lastIrredundant := recached start c db.lastIrredundant db.arena } := by
  refine Yields.bind (yields_modify fun _ => rfl) (Yields.get_bind (fun _ => rfl) ?_)
  dsimp only
  rw [recached]
  split
  · exact (yields_pure _ _).bind (yields_modify fun _ => rfl)
  · split
    · exact (yields_lastIrredundantBefore start _).bind (yields_modify fun _ => rfl)
    · exact (yields_pure _ _).bind (yields_modify fun _ => rfl)

theorem yields_follow (m : Relocation) (db : Database) :
    Yields (follow m) db (.ok ())
      { db with table := db.table.relocate m, watches := db.watches.relocate m } := by
  refine Yields.get_bind (fun _ => rfl) ?_
  refine Yields.bind (yields_modify fun _ => rfl) ?_
  exact Yields.get_bind (fun _ => rfl) (yields_log _)

/-- A database with what a compaction has written in the place of its arena. -/
def installed (start : Reference) (c : Compaction) (db : Database) : Database :=
  { db with
    arena := c.compacted
    watches := db.watches.relocate (c.relocation start)
    table := db.table.relocate (c.relocation start)
    counts := { db.counts with
      arenaGarbage := db.counts.arenaGarbage - c.reclaimed
      deleted := db.counts.deleted + c.dropped }
    firstReducible := c.firstReducible
    lastIrredundant := recached start c db.lastIrredundant c.compacted }

theorem yields_install (start : Reference) (c : Compaction) (db : Database) :
    Yields (install start c) db (.ok (c.relocation start)) (db.installed start c) := by
  refine Yields.bind (yields_modify fun _ => rfl) ((yields_recount _).bind ?_)
  refine (yields_recache _ _ _).bind ?_
  exact (yields_follow _ _).bind ((yields_log _).bind (yields_pure _ _))

/-- A collection succeeds in every arena through which a walk from the start on comes to the end. -/
theorem yields_collect_of_walk {start : Reference} (ends : (db.arena.walkFrom start.offset).2 = true) :
    Yields (collect start) db
      (.ok ((Compaction.ofStart db.arena start.offset).run.1.relocation start))
      (db.installed start (Compaction.ofStart db.arena start.offset).run.1) := by
  refine Yields.get_bind (fun _ => rfl) ?_
  dsimp only
  rw [if_pos ((Compaction.snd_run (Nat.le_refl _)).trans ends)]
  exact yields_install _ _ _

/-- Otherwise it fails. Then what was moved stays moved, which is in front of what the compaction has
read, and the words behind it and all else stay as they were. -/
theorem yields_collect_of_stopped {start : Reference}
    (stopped : (db.arena.walkFrom start.offset).2 = false) :
    ∃ c, (Compaction.ofStart db.arena start.offset).Goes c ∧
      Yields (collect start) db (.error (asClauseError .invalidReference)) { db with arena := c.arena } := by
  refine ⟨_, Compaction.goes_run (Nat.le_refl _), Yields.get_bind (fun _ => rfl) ?_⟩
  dsimp only
  rw [if_neg (Bool.eq_false_iff.1 ((Compaction.snd_run (Nat.le_refl _)).trans stopped))]
  exact Yields.bind (yields_modify fun _ => rfl) (yields_refuse _ _)

/-- The compaction of the cells behind some others. -/
def compactionOf (db : Database) (xs : List Cell) : Compaction :=
  (Compaction.ofStart db.arena (extents xs)).run.1

theorem Holds.past (h : db.Holds (xs ++ ys)) : Compaction.Past db.arena xs ys (db.compactionOf xs) := by
  have fits := h.fits'
  have tiled : db.arena.Tiled (xs ++ ([] ++ ys)) := h.tiled
  exact (Compaction.past_start tiled).run tiled (by rw [List.nil_append]; omega) rfl

/-- The last irredundant clause that is cached after a collection of the cells behind some others. -/
def relast (xs ys : List Cell) (db : Database) : Reference :=
  recached (.ofOffset (extents xs)) (db.compactionOf xs) db.lastIrredundant
    (.ofCells (xs ++ settle db.arena.word (extents xs) ys))

/-- A collection from a boundary between cells succeeds. -/
theorem yields_collect_recached (h : db.Holds (xs ++ ys)) :
    Yields (collect (.ofOffset (extents xs))) db (.ok (relocationOf xs ys))
      (db.collected xs ys (db.compactionOf xs).firstReducible (db.relast xs ys)) := by
  have fits := h.fits'
  rw [extents_append] at fits
  have start_eq : (Reference.ofOffset (extents xs)).offset = extents xs := toNat_ofOffset (by omega)
  have past := h.past
  have moved_eq : (db.compactionOf xs).relocation (.ofOffset (extents xs)) = relocationOf xs ys := by
    rw [Compaction.relocation, relocationOf, ← past.moves_eq]
  have installed_eq : db.installed (.ofOffset (extents xs)) (db.compactionOf xs) =
      db.collected xs ys (db.compactionOf xs).firstReducible (db.relast xs ys) := by
    rw [installed, moved_eq, past.compacted_eq, past.dropped_eq, past.reclaimed_eq]
    rfl
  have ends : (db.arena.walkFrom (Reference.ofOffset (extents xs)).offset).2 = true := by
    rw [start_eq, h.tiled.walkFrom_eq xs]
  have collects := yields_collect_of_walk ends
  rw [start_eq] at collects
  rw [← moved_eq, ← installed_eq]
  exact collects

/-- The first reducible clause that a collection caches is the first of the cells behind the
boundary, and the last irredundant one is cached anew. -/
theorem yields_collect_cached (h : db.Holds (xs ++ ys)) :
    ∃ first last, Yields (collect (.ofOffset (extents xs))) db (.ok (relocationOf xs ys))
        (db.collected xs ys first last) ∧
      (first.isValid = true →
        ∃ c, At (extents xs) (settle db.arena.word (extents xs) ys) first.offset c) ∧
      NoneBefore first (extents xs) (settle db.arena.word (extents xs) ys) ∧
      last = db.relast xs ys :=
  ⟨_, _, yields_collect_recached h, h.past.first_eq, h.past.first_least, rfl⟩

/-- A collection from a boundary between cells succeeds. -/
theorem yields_collect (h : db.Holds (xs ++ ys)) :
    ∃ first last, Yields (collect (.ofOffset (extents xs))) db (.ok (relocationOf xs ys))
        (db.collected xs ys first last) ∧
      (first.isValid = true →
        ∃ c, At (extents xs) (settle db.arena.word (extents xs) ys) first.offset c) := by
  obtain ⟨first, last, collect, first_at, -⟩ := yields_collect_cached h
  exact ⟨first, last, collect, first_at⟩

/-- A database goes on to hold what a collection leaves. -/
theorem Holds.collected (h : db.Holds (xs ++ ys)) {first : Reference} (last : Reference)
    (hfirst : first.isValid = true →
      ∃ c, At (extents xs) (settle db.arena.word (extents xs) ys) first.offset c) :
    (db.collected xs ys first last).Holds (xs ++ settle db.arena.word (extents xs) ys) := by
  have fits := h.fits
  have sound := h.sound
  have settled_le := extents_settle_le db.arena.word (extents xs)
    fun c hc => sound c (List.mem_append_right xs hc)
  have identities_eq : (settle db.arena.word (extents xs) ys).map identity =
      (ys.filter fun c => !c.isGarbage).map identity := map_settle fun _ _ => rfl
  have sub : ((xs ++ settle db.arena.word (extents xs) ys).map identity).Sublist
      ((xs ++ ys).map identity) := by
    rw [List.map_append, List.map_append, identities_eq]
    exact (List.Sublist.refl _).append (List.filter_sublist.map identity)
  refine ⟨rfl, ?_, ?_, h.ascending.sublist sub, ?_, ?_, ?_⟩
  · intro c hc
    rcases List.mem_append.1 hc with hc | hc
    · exact sound c (List.mem_append_left ys hc)
    · exact settle_sound _ _ (fun d hd => sound d (List.mem_append_right xs hd)) c hc
  · rw [extents_append] at fits ⊢
    omega
  · intro c hc
    obtain ⟨d, hd, hid⟩ := List.mem_map.1 (sub.subset (List.mem_map_of_mem hc))
    rw [← hid]
    exact h.below d hd
  · have none_left : garbageOf (settle db.arena.word (extents xs) ys) = [] :=
      List.filter_eq_nil_iff.2 fun c hc => by rw [isGarbage_of_mem_settle hc]; decide
    have garbage_eq := h.garbage_eq
    have split : ∀ zs, garbageOf (xs ++ zs) = garbageOf xs ++ garbageOf zs :=
      fun zs => List.filter_append ..
    rw [split, extents_append, Nat.add_mul] at garbage_eq
    rw [split, none_left, List.append_nil]
    show db.counts.arenaGarbage - extents (garbageOf ys) * wordBytes = _
    omega
  · intro valid
    obtain ⟨c, hc⟩ := hfirst valid
    exact ⟨c, at_append.2 (.inr (by rwa [Nat.zero_add]))⟩

end Database

end ClauseStore
