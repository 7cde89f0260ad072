import ClauseStore.Proofs.Exactness

/-!
Compaction in stages. What a compaction leaves of a cell does not depend on how often the cell is moved,
so whoever compacts from some boundary on and then from the start comes to where a compaction from the
start leads at once. Only the words that fill up odd records may differ, for they are those that happen
to stand there. A reference that is led on twice is led where the single relocation leads it.
-/

namespace ClauseStore

open Cell

namespace Cell

variable {fill fill' fill'' : Nat → UInt32} {xs ys cs ds : List Cell} {c : Cell} {o m n k : Nat}
  {r : Reference}

/-! ### Moving twice -/

@[simp] theorem need_moved (w : UInt32) (c : Cell) : (c.moved w).need = c.need := rfl

/-- What is read off settled cells, and not changed by a further move, is read off cells that have
settled in two stages. -/
theorem map_settle_twice {β : Type} {view : Cell → β} (view' : Cell → β)
    (first : ∀ w c, view (c.moved w) = view' c) (again : ∀ w c, view' (c.moved w) = view' c) :
    (settle fill n (xs ++ settle fill' m ys)).map view = (settle fill'' n (xs ++ ys)).map view := by
  have live : (settle fill' m ys).filter (fun c => !c.isGarbage) = settle fill' m ys :=
    List.filter_eq_self.2 fun c hc => by rw [isGarbage_of_mem_settle hc]; rfl
  rw [map_settle first, map_settle first, List.filter_append, List.filter_append, live,
    List.map_append, List.map_append, map_settle again]

theorem extent_settle_twice : (settle fill n (xs ++ settle fill' m ys)).map extent =
    (settle fill'' n (xs ++ ys)).map extent :=
  map_settle_twice need extent_moved fun w c => need_moved w c

theorem record_settle_twice :
    (settle fill n (xs ++ settle fill' m ys)).map (fun c => (c.header, c.literals)) =
      (settle fill'' n (xs ++ ys)).map fun c => (c.header, c.literals) := by
  refine map_settle_twice (fun c => (c.header.withFlag .shrunken false, c.literals)) (fun _ _ => rfl)
    fun w c => ?_
  simp [Cell.moved, Header.withFlag, Flags.set]

/-- Garbage is left out before the boundary in the second stage, and behind it in the first. -/
theorem garbageOf_settle_twice : garbageOf (xs ++ settle fill m ys) = garbageOf xs := by
  have none_left : garbageOf (settle fill m ys) = [] :=
    List.filter_eq_nil_iff.2 fun c hc => by rw [isGarbage_of_mem_settle hc]; decide
  rw [garbageOf, List.filter_append]
  exact (congrArg _ none_left).trans (List.append_nil _)

/-! ### Moves in two stages -/

/-- The moves of settled cells lead on from where the cells were moved to. -/
theorem lookup_moves_twice (fill : Nat → UInt32) (hmo : m ≤ o) (sound : ∀ c ∈ cs, c.Sound)
    (ho : o + extents cs < 4294967296) :
    ((moves o m cs).lookup r).bind (fun s => (moves m n (settle fill m cs)).lookup s) =
      (moves o n cs).lookup r := by
  induction cs generalizing o m n with
  | nil => rfl
  | cons c cs ih =>
    have need_le := (sound c (List.mem_cons_self ..)).need_le
    have need_pos : 0 < c.need := by rw [← extent_moved 0 c]; exact (c.moved 0).extent_pos
    have behind := fun d hd => sound d (List.mem_cons_of_mem c hd)
    rw [extents_cons] at ho
    have rest := fun m n hm => @ih (o + c.extent) m n hm behind (by omega)
    by_cases garbage : c.isGarbage = true
    · rw [moves, if_pos garbage, settle, if_pos garbage, moves, if_pos garbage]
      exact rest m n (by omega)
    · have live : ¬ (c.moved (fill (m + Header.wordCount + c.literals.length))).isGarbage = true :=
        garbage
      rw [moves, if_neg garbage, settle, if_neg garbage, moves, if_neg live, moves, if_neg garbage,
        extent_moved, need_moved, List.lookup_cons, List.lookup_cons]
      by_cases here : (r == Reference.ofOffset o) = true
      · rw [here]
        simp only [Option.bind_some, List.lookup_cons, beq_self_eq_true]
      · rw [Bool.not_eq_true] at here
        rw [here, ← rest (m + c.need) (n + c.need) (by omega)]
        -- what is behind the cell is moved behind the place of the cell
        refine Option.bind_congr fun s hs => ?_
        obtain ⟨j, moved⟩ : ∃ j, (j, s) ∈ moves (o + c.extent) (m + c.need) cs := by
          obtain ⟨l, l', split, -⟩ := List.lookup_eq_some_iff.1 hs
          exact ⟨r, by simp [split]⟩
        have landed : m + c.need ≤ s.offset :=
          ((moves_pairwise (n := m + c.need) (by omega) behind (by omega)).1 _ moved).2.1
        have apart : (s == Reference.ofOffset m) = false := by
          rw [beq_eq_false_iff_ne]
          rintro rfl
          have := toNat_ofOffset (k := m) (by omega)
          omega
        rw [List.lookup_cons, apart]

/-- No move leads from a reference before the cells. -/
theorem lookup_moves_before (h : r.offset < o) (ho : o + extents cs < 4294967296) :
    (moves o n cs).lookup r = none :=
  lookup_moves_none (fun c hc => by have := hc.bounds.1; omega) ho

/-- No move leads from a reference behind the cells. -/
theorem lookup_moves_behind (h : o + extents cs ≤ r.offset) (ho : o + extents cs < 4294967296) :
    (moves o n cs).lookup r = none :=
  lookup_moves_none (fun c hc => by
    have := hc.bounds.2
    have := c.extent_pos
    omega) ho

end Cell

namespace Database

variable {xs ys cs : List Cell} {r : Reference}

/-- From the start on, a reference goes where the moves lead. -/
theorem get?_start (fits : extents cs < 4294967295) :
    (relocationOf [] cs).get? r = (moves 0 0 cs).lookup r := by
  have behind : ¬ r < .ofOffset (extents []) := Nat.not_lt_zero _
  have fits' : extents ([] ++ cs) < 4294967295 := fits
  rw [get?_relocationOf fits', if_neg behind]
  split
  next invalid =>
    have offset_eq := offset_eq_of_not_isValid (by simpa using invalid)
    exact (lookup_moves_behind (by omega) (by omega)).symm
  next => rfl

/-- A reference that is led on by two stages goes where the single relocation leads. -/
theorem get?_staged (fill : Nat → UInt32) (fits : extents (xs ++ ys) < 4294967295)
    (sound : ∀ c ∈ ys, c.Sound) (r : Reference) :
    ((relocationOf xs ys).get? r).bind (relocationOf [] (xs ++ settle fill (extents xs) ys)).get? =
      (relocationOf [] (xs ++ ys)).get? r := by
  have settled_le := extents_settle_le fill (extents xs) sound
  have settled_fits : extents (xs ++ settle fill (extents xs) ys) < 4294967295 := by
    rw [extents_append] at fits ⊢
    omega
  have second : (relocationOf [] (xs ++ settle fill (extents xs) ys)).get? =
      fun s => (moves 0 0 (xs ++ settle fill (extents xs) ys)).lookup s :=
    funext fun _ => get?_start settled_fits
  rw [extents_append] at fits settled_fits
  have start_eq : (Reference.ofOffset (extents xs)).offset = extents xs := toNat_ofOffset (by omega)
  rw [second, get?_start (by rwa [extents_append]), get?_relocationOf (by rwa [extents_append])]
  simp only [moves_append fill, Nat.zero_add, List.lookup_append]
  by_cases invalid : (!r.isValid) = true
  · have offset_eq := offset_eq_of_not_isValid (by simpa using invalid)
    rw [if_pos invalid, lookup_moves_behind (by omega) (by omega),
      lookup_moves_behind (by omega) (by omega)]
    rfl
  rw [if_neg invalid]
  by_cases before : r < .ofOffset (extents xs)
  · have lt : r.offset < extents xs := start_eq ▸ before
    rw [if_pos before, Option.bind_some, lookup_moves_before lt (by omega),
      lookup_moves_before lt (by omega)]
  · have ge : extents xs ≤ r.offset := start_eq ▸ Nat.le_of_not_lt before
    have unmoved : ∀ {n : Nat} {s : Reference}, extents xs ≤ s.offset → (moves 0 n xs).lookup s = none :=
      fun hs => lookup_moves_behind (by omega) (by omega)
    rw [if_neg before, unmoved ge, Option.none_or,
      ← lookup_moves_twice fill (n := extents (settle fill 0 xs)) (Nat.le_refl _) sound (by omega)]
    -- what is behind the boundary is moved behind it
    refine Option.bind_congr fun s hs => ?_
    obtain ⟨l, l', split, -⟩ := List.lookup_eq_some_iff.1 hs
    have landed : extents xs ≤ s.offset :=
      ((moves_pairwise (Nat.le_refl (extents xs)) sound (by omega)).1 (r, s) (by simp [split])).2.1
    rw [unmoved landed, Option.none_or]

end Database

/-! ### Holders of references -/

/-- One relocation leads where two lead in turn. -/
def Relocation.Composes (first second whole : Relocation) : Prop :=
  ∀ r, (first.get? r).bind second.get? = whole.get? r

namespace Relocation.Composes

variable {first second whole : Relocation}

theorem table_eq (h : first.Composes second whole) (t : Table) :
    (t.relocate first).relocate second = t.relocate whole := by
  have invalid : second.get? .invalid = none := rfl
  simp only [Table.relocate, Array.map_map]
  congr 2
  funext row
  simp only [Function.comp_apply, ← h row.clause]
  cases first.get? row.clause with
  | none => rw [Option.getD_none, invalid]; rfl
  | some s => rfl

theorem list_eq (h : first.Composes second whole) (w : WatchList) :
    (w.relocate first).relocate second = w.relocate whole := by
  simp only [WatchList.relocate, Array.filterMap_filterMap]
  congr 2
  funext x
  rw [← h x.clause]
  cases first.get? x.clause <;> rfl

theorem watches_eq (h : first.Composes second whole) (w : Watches) :
    (w.relocate first).relocate second = w.relocate whole := by
  simp only [Watches.relocate, Array.map_map, List.filterMap_filterMap]
  congr 2
  · exact funext h.list_eq
  · exact funext h

end Relocation.Composes

/-- The records that a walk visits are those of the cells. -/
theorem Arena.Tiled.map_records {a : Arena} {cs : List Cell} (h : a.Tiled cs) :
    (a.walkFrom 0).1.map (fun o => (a.header o, a.literals o)) =
      cs.map fun c => (c.header, c.literals) := by
  rw [h.walkFrom_zero]
  exact map_offsets fun k c hc => by rw [h.header_eq hc, h.literals_eq hc]

/-! ### Cached references -/

namespace Cell

/-- Where the cells of a row start, with their flags. -/
def flagsAt (o : Nat) (cs : List Cell) : List (Nat × Flags) :=
  (offsets o cs).zip (cs.map fun c => c.header.flags)

theorem flagsAt_concat (o : Nat) (cs : List Cell) (c : Cell) :
    flagsAt o (cs ++ [c]) = flagsAt o cs ++ [(o + extents cs, c.header.flags)] := by
  rw [flagsAt, offsets_append, List.map_append, List.zip_append (by simp)]
  rfl

theorem flagsAt_eq {cs ds : List Cell} (extent_eq : ds.map extent = cs.map extent)
    (flags_eq : (ds.map fun c => c.header.flags) = cs.map fun c => c.header.flags) (o : Nat) :
    flagsAt o ds = flagsAt o cs := by
  rw [flagsAt, flagsAt, offsets_eq extent_eq, flags_eq]

theorem bounds_of_mem_flagsAt {o : Nat} {cs : List Cell} {f : Nat × Flags} (h : f ∈ flagsAt o cs) :
    f.1 < o + extents cs := by
  obtain ⟨c, hc⟩ := mem_offsets.1 (List.of_mem_zip h).1
  have := hc.bounds.2
  have := c.extent_pos
  omega

/-- The first clause of a row that is redundant and not kept. -/
def firstOf (fs : List (Nat × Flags)) : Reference :=
  (fs.find? fun f => f.2.redundant && !f.2.keep).elim .invalid fun f => .ofOffset f.1

/-- The last irredundant clause of a row. -/
def lastOf (fs : List (Nat × Flags)) : Reference :=
  (fs.filter fun f => !f.2.redundant).getLast?.elim .invalid fun f => .ofOffset f.1

end Cell

namespace Compaction

variable {old : Arena} {xs ys zs : List Cell} {d : Cell} {c : Compaction}

/-- A compaction caches the first reducible and the last irredundant clause that it has written. -/
structure Caches (c : Compaction) (fs : List (Nat × Flags)) : Prop where
  first_eq : c.firstReducible = firstOf fs
  last_eq : c.lastIrredundant = lastOf fs

/-- The step over one more cell. -/
theorem Caches.step (hold : old.Tiled (xs ++ (ys ++ d :: zs)))
    (hsize : extents (xs ++ (ys ++ d :: zs)) < 4294967295) (past : Past old xs ys c)
    (h : c.Caches (flagsAt (extents xs) (settle old.word (extents xs) ys))) :
    c.step.Caches
      (flagsAt (extents xs) (settle old.word (extents xs) (ys ++ [d]))) := by
  have sound : ∀ c ∈ ys, c.Sound := fun c hc => hold.sound c (by simp [hc])
  have fits := extents_settle_le old.word (extents xs) sound
  obtain ⟨pre, place, split⟩ := past.exists_split hold
  have header_eq : c.arena.header c.read = d.header := place ▸ Arena.header_of_cell split
  simp only [extents_append, extents_cons] at hsize
  rw [Compaction.step, Compaction.shift, header_eq]
  rw [settle_append, settle]
  by_cases garbage : d.isGarbage = true
  · have flag : d.header.flags.garbage = true := garbage
    rw [if_pos garbage, if_pos flag, settle, List.append_nil]
    exact ⟨h.first_eq, h.last_eq⟩
  · have flag : ¬ d.header.flags.garbage = true := garbage
    rw [if_neg garbage, if_neg flag, settle, flagsAt_concat, ← past.write_eq]
    constructor
    · show (if d.header.flags.redundant && !d.header.flags.keep && !c.firstReducible.isValid then _
        else c.firstReducible) = _
      rw [h.first_eq, firstOf, firstOf, List.find?_append]
      cases found : (flagsAt (extents xs) (settle old.word (extents xs) ys)).find? fun f =>
          f.2.redundant && !f.2.keep with
      | some f =>
        -- what is cached is valid, so that it is not replaced
        have := bounds_of_mem_flagsAt (List.mem_of_find?_eq_some found)
        have valid : (Reference.ofOffset f.1).isValid = true := isValid_ofOffset (by omega)
        simp [valid]
      | none =>
        have cached : Reference.invalid.isValid = false := rfl
        simp only [Option.elim_none, cached, Bool.not_false, Bool.and_true, Option.none_or,
          List.find?_singleton, Cell.moved, Header.withFlag, Flags.set]
        split <;> rfl
    · show (if d.header.flags.redundant then c.lastIrredundant else _) = _
      rw [h.last_eq, lastOf, lastOf, List.filter_append]
      cases kind : d.header.flags.redundant <;> simp [kind, Cell.moved, Header.withFlag, Flags.set]

/-- The run over all cells behind the start. -/
theorem Caches.run (hold : old.Tiled (xs ++ (ys ++ zs))) (hsize : extents (xs ++ (ys ++ zs)) < 4294967295)
    (past : Past old xs ys c) (size_eq : c.arena.size = old.size)
    (h : c.Caches (flagsAt (extents xs) (settle old.word (extents xs) ys))) :
    c.run.1.Caches (flagsAt (extents xs) (settle old.word (extents xs) (ys ++ zs))) := by
  induction zs generalizing ys c with
  | nil =>
    rw [past.run_nil hold size_eq]
    simpa using h
  | cons d zs ih =>
    rw [past.run_cons hold size_eq]
    have hold' : old.Tiled (xs ++ ((ys ++ [d]) ++ zs)) := by simpa using hold
    have next := ih hold' (by simpa using hsize)
      (past.step hold (by omega)) (c.size_step.trans size_eq) (h.step hold hsize past)
    simpa using next

end Compaction

namespace Database

variable {db : Database} {xs ys cs : List Cell}

theorem Holds.caches (h : db.Holds (xs ++ ys)) : (db.compactionOf xs).Caches
    (flagsAt (extents xs) (settle db.arena.word (extents xs) ys)) := by
  have tiled : db.arena.Tiled (xs ++ ([] ++ ys)) := h.tiled
  exact (Compaction.Caches.run tiled h.fits' (Compaction.past_start tiled) rfl ⟨rfl, rfl⟩ :)

/-- No clause is before the start of the arena. -/
theorem recached_start (c : Compaction) (last : Reference) (arena : Arena) :
    recached .start c last arena = c.lastIrredundant := by
  have none_of_invalid : ∀ {r : Reference}, ¬ r.isValid = true → r = .invalid := fun h => by
    simpa [Reference.isValid] using h
  have before : lastBefore arena .start = .invalid := by
    have least : ∀ o, decide (Reference.start.offset ≤ o) = true := fun o => decide_eq_true (Nat.zero_le o)
    simp only [lastBefore, least, Bool.not_true]
    cases (arena.walkFrom 0).1 <;> rfl
  rw [recached]
  split
  · rfl
  next lost =>
    rw [none_of_invalid lost]
    split
    · exact before
    next other =>
      have least : decide (Reference.start ≤ last) = true := decide_eq_true (Nat.zero_le _)
      exact none_of_invalid (by simpa [least] using other)

/-- What a compaction from the start leaves. -/
def condensed (db : Database) (cs : List Cell) : Database :=
  db.collected [] cs (firstOf (flagsAt 0 (settle db.arena.word 0 cs)))
    (lastOf (flagsAt 0 (settle db.arena.word 0 cs)))

theorem yields_collect_start (h : db.Holds cs) :
    Yields (collect .start) db (.ok (relocationOf [] cs)) (db.condensed cs) := by
  have held : db.Holds ([] ++ cs) := h
  have collects := yields_collect_recached held
  have caches := held.caches
  have start_eq : Reference.ofOffset (extents []) = .start := rfl
  rw [relast, start_eq, recached_start, caches.first_eq, caches.last_eq] at collects
  exact collects

/-- Two databases agree but for the words that fill up records, and the log. -/
structure Agrees (db db' : Database) : Prop where
  size_eq : db'.arena.size = db.arena.size
  walk_eq : db'.arena.walkFrom 0 = db.arena.walkFrom 0
  records_eq : (db'.arena.walkFrom 0).1.map (fun o => (db'.arena.header o, db'.arena.literals o)) =
    (db.arena.walkFrom 0).1.map fun o => (db.arena.header o, db.arena.literals o)
  /-- watch lists with the queue, the table of statistics, counts, and the cached references are the
  same, and whatever else is kept -/
  rest_eq : db' = { db with arena := db'.arena, messages := db'.messages }

/-- Compaction in two stages leaves what compaction at once leaves. -/
theorem Holds.agrees (h : db.Holds (xs ++ ys)) (first last : Reference) :
    (db.condensed (xs ++ ys)).Agrees ((db.collected xs ys first last).condensed
      (xs ++ settle db.arena.word (extents xs) ys)) := by
  have settled_sound := settle_sound db.arena.word (extents xs)
    fun c hc => h.sound c (List.mem_append_right xs hc)
  have staged_sound : ∀ c ∈ xs ++ settle db.arena.word (extents xs) ys, c.Sound := by
    intro c hc
    rcases List.mem_append.1 hc with hc | hc
    · exact h.sound c (List.mem_append_left ys hc)
    · exact settled_sound c hc
  have once : (db.condensed (xs ++ ys)).arena.Tiled (settle db.arena.word 0 (xs ++ ys)) :=
    ⟨rfl, settle_sound _ _ h.sound⟩
  have twice : ((db.collected xs ys first last).condensed
      (xs ++ settle db.arena.word (extents xs) ys)).arena.Tiled
      (settle (db.collected xs ys first last).arena.word 0 (xs ++ settle db.arena.word (extents xs) ys)) :=
    ⟨rfl, settle_sound _ _ staged_sound⟩
  have extent_eq : (settle (db.collected xs ys first last).arena.word 0
      (xs ++ settle db.arena.word (extents xs) ys)).map extent =
        (settle db.arena.word 0 (xs ++ ys)).map extent := extent_settle_twice
  have walk_eq := offsets_eq (o := 0) extent_eq
  constructor
  case size_eq => rw [once.size_eq, twice.size_eq, extents_eq extent_eq]
  case walk_eq => rw [once.walkFrom_zero, twice.walkFrom_zero, walk_eq]
  case records_eq =>
    rw [once.map_records, twice.map_records]
    exact record_settle_twice
  case rest_eq =>
    have fits : extents (xs ++ ys) < 4294967295 := h.fits
    have composes : (relocationOf xs ys).Composes
        (relocationOf [] (xs ++ settle db.arena.word (extents xs) ys)) (relocationOf [] (xs ++ ys)) :=
      get?_staged db.arena.word fits fun c hc => h.sound c (List.mem_append_right xs hc)
    have flags_eq := flagsAt_eq extent_eq
      (map_settle_twice (fun c => c.header.flags.set .shrunken false) (fun _ _ => rfl)
        fun w c => by simp [Cell.moved, Header.withFlag, Flags.set]) 0
    have split : garbageOf (xs ++ ys) = garbageOf xs ++ garbageOf ys := List.filter_append ..
    have garbage_eq : db.counts.arenaGarbage - extents (garbageOf ys) * wordBytes -
        extents (garbageOf xs) * wordBytes =
          db.counts.arenaGarbage - extents (garbageOf (xs ++ ys)) * wordBytes := by
      rw [split, extents_append, Nat.add_mul]
      omega
    have deleted_eq : db.counts.deleted + (garbageOf ys).length + (garbageOf xs).length =
        db.counts.deleted + (garbageOf (xs ++ ys)).length := by
      rw [split, List.length_append]
      omega
    rw [condensed, condensed, flags_eq]
    simp only [Database.collected, garbageOf_settle_twice, composes.table_eq, composes.watches_eq, garbage_eq,
      deleted_eq]

/-- The log does not matter. -/
theorem Agrees.logged {db db' : Database} (h : db.Agrees db') (ms ms' : Array Message) :
    Database.Agrees (Logged.withMessages ms db) (Logged.withMessages ms' db') := by
  refine ⟨h.size_eq, h.walk_eq, h.records_eq, ?_⟩
  have rest_eq := h.rest_eq
  exact congrArg (Logged.withMessages ms') rest_eq

/-- The start of the arena is a boundary between records. -/
theorem Holds.boundary_start (h : db.Holds cs) : db.Boundary .start := by
  cases cs with
  | nil => exact .inr (by rw [Arena.limit, h.tiled.size_eq]; rfl)
  | cons c cs => exact .inl (h.tiled.mem_walk.2 ⟨c, at_cons.2 (.inl ⟨rfl, rfl⟩)⟩)

end Database

namespace Context

variable {π : Type} [Predictor π] {c : Context π} {cs : List Cell}

/-- A collection comes to what the database comes to. -/
theorem exists_collect {start : Reference} {moved : Relocation} {db : Database}
    (collects : Yields (Database.collect start) c.database (.ok moved) db) :
    (Operation.collect start).answer c = .ok (.relocated moved) ∧
      ∃ ms, (Operation.collect start).after c = { c with database := Logged.withMessages ms db } := by
  have performs : Yields (Operation.collect start).perform c _ _ :=
    Operation.yields_answered (yields_onDatabase collects) .relocated
  obtain ⟨ms, outcome_eq⟩ := performs.outcome_eq
  exact ⟨by rw [Operation.answer, outcome_eq]; rfl, ms, by rw [Operation.after, outcome_eq]; rfl⟩

/-- A collection from a boundary and then one from the start come to what one from the start comes to,
and lead each reference where that one leads it. -/
structure Staged (c : Context π) (start : Reference) (first second whole : Relocation) : Prop where
  first_answer : (Operation.collect start).answer c = .ok (.relocated first)
  second_answer : (Operation.collect .start).answer ((Operation.collect start).after c) =
    .ok (.relocated second)
  whole_answer : (Operation.collect .start).answer c = .ok (.relocated whole)
  composes : first.Composes second whole
  agrees : ((Operation.collect .start).after c).database.Agrees
    ((Operation.collect .start).after ((Operation.collect start).after c)).database
  /-- nothing but the database is concerned -/
  around_eq : (Operation.collect .start).after ((Operation.collect start).after c) =
    { (Operation.collect .start).after c with
      database := ((Operation.collect .start).after ((Operation.collect start).after c)).database }

theorem exists_staged (holds : c.database.Holds cs) {start : Reference}
    (boundary : c.database.Boundary start) : ∃ first second whole, c.Staged start first second whole := by
  obtain ⟨xs, ys, rfl, rfl⟩ := Operation.exists_split_of_boundary holds boundary
  obtain ⟨first, last, collects, first_at⟩ := Database.yields_collect holds
  obtain ⟨first_answer, ms, after_eq⟩ := exists_collect collects
  have left := (holds.collected last first_at).logged ms
  obtain ⟨whole_answer, ms', whole_eq⟩ := exists_collect (Database.yields_collect_start holds)
  have between : ((Operation.collect (.ofOffset (extents xs))).after c).database.Holds
      (xs ++ settle c.database.arena.word (extents xs) ys) := by
    rw [after_eq]
    exact left
  obtain ⟨second_answer, ms'', second_eq⟩ := exists_collect (Database.yields_collect_start between)
  refine ⟨_, _, _, first_answer, second_answer, whole_answer, ?_, ?_, ?_⟩
  · have fits : extents (xs ++ ys) < 4294967295 := holds.fits
    exact Database.get?_staged _ fits fun d hd => holds.sound d (List.mem_append_right xs hd)
  · rw [whole_eq, second_eq, after_eq]
    exact (holds.agrees first last).logged ms' ms''
  · rw [whole_eq, second_eq, after_eq]

/-- Behind every lawful run, compaction from a boundary and then from the start equals compaction from
the start. -/
theorem collect_staged (config : Config) (predictor : π) (ops : List Operation) (start : Reference)
    (follows : (ofConfig config predictor).Follows ops)
    (boundary : ((ofConfig config predictor).run ops).database.Boundary start) :
    ∃ first second whole,
      ((ofConfig config predictor).run ops).Staged start first second whole := by
  obtain ⟨cs, holds⟩ := exists_holds config predictor follows
  exact exists_staged holds boundary

/-- Behind every lawful run, compaction from the start is idempotent. -/
theorem collect_idempotent (config : Config) (predictor : π) (ops : List Operation)
    (follows : (ofConfig config predictor).Follows ops) :
    ∃ first second whole, ((ofConfig config predictor).run ops).Staged .start first second whole := by
  obtain ⟨cs, holds⟩ := exists_holds config predictor follows
  exact exists_staged holds holds.boundary_start

/-- Garbage before and behind a promoted clause, of which the clause behind it is shortened. -/
def stagedRun : List Operation :=
  [.create .redundant 7 [⟨1⟩, ⟨2⟩, ⟨3⟩], .create .original 0 [⟨-1⟩, ⟨2⟩, ⟨4⟩],
    .create .redundant 5 [⟨1⟩, ⟨-2⟩, ⟨5⟩, ⟨6⟩, ⟨7⟩], .create .redundant 8 [⟨3⟩, ⟨4⟩, ⟨-6⟩],
    .create .redundant 9 [⟨2⟩, ⟨-4⟩, ⟨6⟩], .markGarbage (.ofOffset 0), .shrink (.ofOffset 24) 3,
    .makeIrredundant (.ofOffset 38), .markGarbage (.ofOffset 50)]

theorem collect_staged_stagedRun :
    (ofConfig {} ({} : Linear)).Follows stagedRun ∧
      ((ofConfig {} ({} : Linear)).run stagedRun).database.Boundary (.ofOffset 24) ∧
      ∃ first second whole,
        ((ofConfig {} ({} : Linear)).run stagedRun).Staged (.ofOffset 24) first second whole := by
  have follows : (ofConfig {} ({} : Linear)).Follows stagedRun := by decide +kernel
  have boundary : ((ofConfig {} ({} : Linear)).run stagedRun).database.Boundary (.ofOffset 24) := by
    decide +kernel
  exact ⟨follows, boundary,
    collect_staged ({} : Config) ({} : Linear) stagedRun (.ofOffset 24) follows boundary⟩

end Context

end ClauseStore
