import ClauseStore.Database.Revision
import ClauseStore.Database.Usage
import ClauseStore.Proofs.Holding

/-!
Revisions of stored clauses, as changes of one cell. A note revises a header; marking and promotion
set a flag and keep the books; shortening cuts a cell. A refused revision changes nothing. Each of
them keeps what a database holds.
-/

namespace ClauseStore

open Cell

/-- A table in which the row that a header links to is marked as garbage. -/
def Table.ended (h : Header) (t : Table) : Table :=
  match h.row? with
  | some index => t.markGarbage index
  | none => t

/-- The counts after the end of a clause among the live ones. -/
def Counts.retired (redundant : Bool) (n : Counts) : Counts :=
  if redundant then { n with redundant := n.redundant - 1 }
  else { n with irredundant := n.irredundant - 1 }

/-- The counts after the promotion of a clause. -/
def Counts.promoted (n : Counts) : Counts :=
  { n with redundant := n.redundant - 1, irredundant := n.irredundant + 1 }

/-- The cell that starts at a place, as garbage. -/
def Cell.markAt (k : Nat) (cs : List Cell) : List Cell :=
  mapAt (Arena.only k (Header.withFlag .garbage true)) 0 cs

/-- The cell that starts at a place, as irredundant. -/
def Cell.promoteAt (k : Nat) (cs : List Cell) : List Cell :=
  mapAt (Arena.only k (Header.withFlag .redundant false)) 0 cs

namespace Database

/-- A database after the clause of a cell is marked as garbage. -/
def marked (k : Nat) (c : Cell) (cs : List Cell) (db : Database) : Database :=
  let redundant := c.header.flags.redundant
  { db with
    arena := .ofCells (markAt k cs)
    table := if redundant then db.table.ended c.header else db.table
    occurrences := if redundant then db.occurrences else db.occurrences.remove c.literals
    counts := { db.counts.retired redundant with
      arenaGarbage := db.counts.arenaGarbage + c.extent * wordBytes }
    events := db.events.push (.deletion c.header.identity c.literals) }

/-- A database after the clause of a cell is promoted. -/
def promoted (r : Reference) (c : Cell) (cs : List Cell) (db : Database) : Database :=
  { db with
    arena := .ofCells (promoteAt r.offset cs)
    occurrences := db.occurrences.add c.literals
    lastIrredundant :=
      if !db.lastIrredundant.isValid || db.lastIrredundant < r then r else db.lastIrredundant
    counts := db.counts.promoted }

/-- A database after the clause of a cell is shortened, which leaves some row of cells. -/
def shortened (n : Nat) (c : Cell) (cs : List Cell) (db : Database) : Database :=
  { db with
    arena := .ofCells cs
    occurrences :=
      if c.header.flags.redundant then db.occurrences
      else db.occurrences.remove (c.literals.drop n)
    events := (db.events.push (.addition c.header.identity (c.literals.take n)
      (if c.header.flags.redundant then .redundant else .irredundant))).push
        (.deletion c.header.identity c.literals) }

variable {db : Database} {cs : List Cell} {c : Cell} {r : Reference}

/-! ### Notes -/

theorem yields_note (h : db.Holds cs) (hc : At 0 cs r.offset c) (f : Header → Header) :
    Yields (note r f) db (.ok ())
      { db with arena := .ofCells (mapAt (Arena.only r.offset f) 0 cs) } := by
  refine (yields_offsetOf (h.resolve?_eq hc) _).bind ?_
  have step : Yields _ db _ _ := yields_reviseHeader r.offset f
  rw [h.arena_eq, Arena.revise_ofCells hc] at step
  exact step

theorem yields_note_none (h : db.arena.resolve? r = none) (f : Header → Header) :
    Yields (note r f) db (.error (.arena .invalidReference)) db :=
  (yields_offsetOf_none h _).bind_error

/-- A note that leaves the core of a header alone leaves that of every cell alone. -/
theorem core_mapAt_only {f : Header → Header} (hf : ∀ d, (f d).core = d.core) (k : Nat)
    (cs : List Cell) : (mapAt (Arena.only k f) 0 cs).map core = cs.map core := by
  refine map_revised_mapAt (fun i d => ?_) 0 cs
  rw [Arena.only]
  split
  · exact hf d
  · rfl

/-- And it keeps what a database holds. -/
theorem Holds.noted (h : db.Holds cs) {f : Header → Header} (hf : ∀ d, (f d).core = d.core)
    (k : Nat) : Holds { db with arena := .ofCells (mapAt (Arena.only k f) 0 cs) }
      (mapAt (Arena.only k f) 0 cs) :=
  h.of_core (core_mapAt_only hf k cs)

/-! ### Garbage -/

theorem yields_endRow (h : Header) :
    Yields (endRow h) db (.ok ()) { db with table := db.table.ended h } := by
  unfold endRow Table.ended
  cases h.row? with
  | none => exact yields_pure () db
  | some index =>
    refine Yields.get_bind (fun _ => rfl) ((yields_logIf _ _).bind ?_)
    exact yields_modify fun _ => rfl

theorem yields_retire (redundant : Bool) (ls : Clause) :
    Yields (retire redundant ls) db (.ok ())
      { db with
        occurrences := if redundant then db.occurrences else db.occurrences.remove ls
        counts := db.counts.retired redundant } := by
  cases redundant
  · exact (yields_modify fun _ => rfl).bind (yields_recount _)
  · exact yields_recount (Counts.retired true)

/-- A live clause that is no reason is marked. -/
theorem yields_markGarbage (h : db.Holds cs) (hc : At 0 cs r.offset c)
    (live : c.isGarbage = false) (free : c.header.flags.reason = false) :
    Yields (markGarbage r) db (.ok ()) (db.marked r.offset c cs) := by
  have record_eq := h.tiled.record_eq hc
  refine (yields_offsetOf (h.resolve?_eq hc) _).bind ((yields_recordAt _).bind ?_)
  simp only [record_eq]
  have garbage_eq : c.header.flags.garbage = false := live
  rw [garbage_eq, free]
  refine (yields_refuseIf false _ _).bind ((yields_refuseIf false _ _).bind ?_)
  refine (yields_reviseHeader _ _).bind ((yields_log _).bind ?_)
  have arena_eq : db.arena.revise r.offset (Header.withFlag .garbage true) =
      .ofCells (markAt r.offset cs) := by rw [h.arena_eq, Arena.revise_ofCells hc]; rfl
  rw [arena_eq, marked]
  cases c.header.flags.redundant
  · refine (yields_pure () _).bind ((yields_retire false _).bind ?_)
    exact (yields_recount _).bind (yields_announce _)
  · refine (yields_endRow _).bind ((yields_retire true _).bind ?_)
    exact (yields_recount _).bind (yields_announce _)

/-- Garbage is not marked twice, and no reason is marked. -/
theorem yields_markGarbage_refused (h : db.Holds cs) (hc : At 0 cs r.offset c)
    (hbar : c.isGarbage = true ∨ c.header.flags.reason = true) :
    ∃ e, Yields (markGarbage r) db (.error e) db := by
  have record_eq := h.tiled.record_eq hc
  by_cases garbage : c.header.flags.garbage = true
  · refine ⟨.clause .alreadyGarbage, ?_⟩
    refine (yields_offsetOf (h.resolve?_eq hc) _).bind ((yields_recordAt _).bind ?_)
    simp only [record_eq, garbage]
    exact (yields_refuseIf true _ _).bind_error
  · have reason := hbar.resolve_left garbage
    refine ⟨.clause .reasonClause, ?_⟩
    refine (yields_offsetOf (h.resolve?_eq hc) _).bind ((yields_recordAt _).bind ?_)
    simp only [record_eq, garbage, reason]
    exact (yields_refuseIf false _ _).bind (yields_refuseIf true _ _).bind_error

theorem yields_markGarbage_none (h : db.arena.resolve? r = none) :
    Yields (markGarbage r) db (.error (asClauseError .invalidReference)) db :=
  (yields_offsetOf_none h _).bind_error

/-! ### Promotion and shortening -/

/-- A live redundant clause is promoted. -/
theorem yields_makeIrredundant (h : db.Holds cs) (hc : At 0 cs r.offset c)
    (live : c.isGarbage = false) (redundant : c.header.flags.redundant = true) :
    Yields (makeIrredundant r) db (.ok ()) (db.promoted r c cs) := by
  have record_eq := h.tiled.record_eq hc
  have garbage_eq : c.header.flags.garbage = false := live
  refine (yields_offsetOf (h.resolve?_eq hc) _).bind ((yields_recordAt _).bind ?_)
  simp only [record_eq, garbage_eq, redundant]
  refine (yields_failIf false _).bind ((yields_reviseHeader _ _).bind ((yields_log _).bind ?_))
  have arena_eq : db.arena.revise r.offset (Header.withFlag .redundant false) =
      .ofCells (promoteAt r.offset cs) := by rw [h.arena_eq, Arena.revise_ofCells hc]; rfl
  rw [arena_eq, promoted]
  exact (yields_modify fun _ => rfl).bind (yields_recount Counts.promoted)

/-- Garbage is not promoted, and neither is an irredundant clause. -/
theorem yields_makeIrredundant_refused (h : db.Holds cs) (hc : At 0 cs r.offset c)
    (hbar : (c.header.flags.garbage || !c.header.flags.redundant) = true) :
    Yields (makeIrredundant r) db (.error (.clause .notRedundant)) db := by
  have record_eq := h.tiled.record_eq hc
  refine (yields_offsetOf (h.resolve?_eq hc) _).bind ((yields_recordAt _).bind ?_)
  simp only [record_eq, hbar]
  exact (yields_failIf true _).bind_error

theorem yields_makeIrredundant_none (h : db.arena.resolve? r = none) :
    Yields (makeIrredundant r) db (.error (asClauseError .invalidReference)) db :=
  (yields_offsetOf_none h _).bind_error

/-- Whether the clause of a cell may not be shortened to a size. -/
def barsShrink (c : Cell) (size : UInt64) : Bool :=
  c.header.flags.garbage || decide (size.toNat < 3) || decide (c.header.size.toNat ≤ size.toNat)

/-- A clause that may be shortened is live, keeps more than two literals and loses at least one. -/
theorem barsShrink_eq_false (sound : c.Sound) {size : UInt64} (free : barsShrink c size = false) :
    c.isGarbage = false ∧ 2 < size.toNat ∧ size.toNat < c.literals.length := by
  simp only [barsShrink, Bool.or_eq_false_iff, decide_eq_false_iff_not] at free
  obtain ⟨⟨live, long⟩, less⟩ := free
  have := sound.size_eq
  exact ⟨live, by omega, by omega⟩

/-- A live clause is shortened to a size of at least three, below its own. -/
theorem yields_shrink {xs ys : List Cell} (h : db.Holds (xs ++ c :: ys)) (hr : r.offset = extents xs)
    {size : UInt64} (free : barsShrink c size = false) :
    Yields (shrink r size) db (.ok ())
      (db.shortened size.toNat c (xs ++ c.shrunk size.toNat :: ys)) := by
  have hc : At 0 (xs ++ c :: ys) r.offset c := ⟨xs, ys, rfl, by omega⟩
  have record_eq := h.tiled.record_eq hc
  have sound := h.tiled.sound_at hc
  have size_lt := c.header.size.toNat_lt
  have less := (barsShrink_eq_false sound free).2.2
  have word_eq : size.toUInt32.toNat = size.toNat := by
    have := sound.size_eq
    rw [UInt64.toNat_toUInt32]
    omega
  have arena_eq : db.arena.shrink r.offset size.toUInt32 =
      .ofCells (xs ++ c.shrunk size.toNat :: ys) := by
    rw [h.arena_eq, hr, Arena.shrink_ofCells sound (by omega), word_eq]
  refine (yields_offsetOf (h.resolve?_eq hc) _).bind ((yields_recordAt _).bind ?_)
  simp only [record_eq]
  rw [barsShrink] at free
  simp only [free]
  refine (yields_failIf false _).bind ((yields_modify fun _ => rfl).bind ((yields_log _).bind ?_))
  rw [arena_eq, shortened]
  refine (yields_modify fun _ => rfl).bind ((yields_announce _).bind ?_)
  exact yields_announce _

/-- No other shortening is done. -/
theorem yields_shrink_refused (h : db.Holds cs) (hc : At 0 cs r.offset c) {size : UInt64}
    (bar : barsShrink c size = true) :
    Yields (shrink r size) db (.error (.clause .invalidShrink)) db := by
  have record_eq := h.tiled.record_eq hc
  refine (yields_offsetOf (h.resolve?_eq hc) _).bind ((yields_recordAt _).bind ?_)
  simp only [record_eq]
  rw [barsShrink] at bar
  simp only [bar]
  exact (yields_failIf true _).bind_error

theorem yields_shrink_none (h : db.arena.resolve? r = none) (size : UInt64) :
    Yields (shrink r size) db (.error (asClauseError .invalidReference)) db :=
  (yields_offsetOf_none h _).bind_error

/-! ### What is kept -/

section Kept

variable {xs ys : List Cell} {d : Cell} {db' : Database}

/-- A database goes on to hold its cells where one of them is replaced by one of the same identity and
extent, and the books are kept. -/
theorem Holds.replaced (h : db.Holds (xs ++ c :: ys)) (sound : d.Sound) (hext : d.extent = c.extent)
    (hid : d.identity = c.identity) (arena_eq : db'.arena = .ofCells (xs ++ d :: ys))
    (garbage_eq : db'.counts.arenaGarbage = extents (garbageOf (xs ++ d :: ys)) * wordBytes)
    (next_eq : db'.nextIdentity = db.nextIdentity)
    (first_eq : db'.firstReducible = db.firstReducible) : db'.Holds (xs ++ d :: ys) := by
  have identities_eq : (xs ++ d :: ys).map identity = (xs ++ c :: ys).map identity := by
    simp [hid]
  constructor
  case arena_eq => exact arena_eq
  case sound =>
    intro e he
    rcases List.mem_append.1 he with he | he
    · exact h.sound e (List.mem_append_left _ he)
    · rcases List.mem_cons.1 he with rfl | he
      · exact sound
      · exact h.sound e (List.mem_append_right _ (List.mem_cons_of_mem _ he))
  case fits =>
    have := h.fits
    simpa [hext] using this
  case ascending =>
    rw [identities_eq]
    exact h.ascending
  case below =>
    intro e he
    have : e.identity ∈ (xs ++ c :: ys).map identity :=
      identities_eq ▸ List.mem_map_of_mem he
    obtain ⟨e', he', hid'⟩ := List.mem_map.1 this
    rw [next_eq, ← hid']
    exact h.below e' he'
  case garbage_eq => exact garbage_eq
  case first_eq =>
    rw [first_eq]
    intro valid
    have offsets_eq : offsets 0 (xs ++ d :: ys) = offsets 0 (xs ++ c :: ys) := by simp [hext]
    rw [← mem_offsets, offsets_eq, mem_offsets]
    exact h.first_eq valid

theorem markAt_append : markAt (extents xs) (xs ++ c :: ys) =
    xs ++ c.revised (Header.withFlag .garbage true) :: ys := Arena.mapAt_only _

theorem promoteAt_append : promoteAt (extents xs) (xs ++ c :: ys) =
    xs ++ c.revised (Header.withFlag .redundant false) :: ys := Arena.mapAt_only _

/-- Soundness does not depend on flags other than that of a shortened clause. -/
theorem Sound.withFlag (h : c.Sound) {f : Flag} (hf : f ≠ .shrunken) (value : Bool) :
    (c.revised (Header.withFlag f value)).Sound := by
  have shrunken_eq : (c.header.withFlag f value).flags.shrunken = c.header.flags.shrunken := by
    cases f <;> first | rfl | exact absurd rfl hf
  have room_eq : (c.revised (Header.withFlag f value)).room = c.room := by
    simp only [room, revised, shrunken_eq]
  refine ⟨h.size_eq, h.long, h.literals_ne, ?_, ?_⟩
  · simp only [revised, shrunken_eq]
    exact h.closed
  · rw [extent_revised, room_eq]
    exact h.extent_eq

theorem Holds.marked (h : db.Holds cs) {k : Nat} (hc : At 0 cs k c) (live : c.isGarbage = false) :
    (db.marked k c cs).Holds (markAt k cs) := by
  have sound := h.tiled.sound_at hc
  obtain ⟨xs, ys, rfl, rfl⟩ := hc
  rw [Nat.zero_add, markAt_append]
  refine h.replaced (Sound.withFlag sound (by decide) true) rfl rfl ?_ ?_ rfl rfl
  · simp only [Database.marked, markAt_append]
  · have garbage_eq := h.garbage_eq
    have isGarbage_eq : (c.revised (Header.withFlag .garbage true)).isGarbage = true := rfl
    simp only [Database.marked, garbageOf, List.filter_append, List.filter_cons, isGarbage_eq, live,
      extents_append] at garbage_eq ⊢
    rw [garbage_eq]
    simp [wordBytes]
    omega

theorem Holds.promoted (h : db.Holds cs) (hc : At 0 cs r.offset c) (live : c.isGarbage = false) :
    (db.promoted r c cs).Holds (promoteAt r.offset cs) := by
  have sound := h.tiled.sound_at hc
  obtain ⟨xs, ys, rfl, hr⟩ := hc
  rw [Nat.zero_add] at hr
  rw [hr, promoteAt_append]
  refine h.replaced (Sound.withFlag sound (by decide) false) rfl rfl ?_ ?_ rfl rfl
  · simp only [Database.promoted, hr, promoteAt_append]
  · have isGarbage_eq : (c.revised (Header.withFlag .redundant false)).isGarbage = false := live
    have garbage_eq := h.garbage_eq
    simp only [Database.promoted, Counts.promoted, garbageOf, List.filter_append, List.filter_cons,
      isGarbage_eq, live] at garbage_eq ⊢
    exact garbage_eq

theorem Holds.shortened (h : db.Holds (xs ++ c :: ys)) {size : UInt64}
    (free : barsShrink c size = false) :
    (db.shortened size.toNat c (xs ++ c.shrunk size.toNat :: ys)).Holds
      (xs ++ c.shrunk size.toNat :: ys) := by
  have sound := h.sound c (by simp)
  obtain ⟨live, long, less⟩ := barsShrink_eq_false sound free
  refine h.replaced (sound.shrunk (by omega) less) (extent_shrunk c less) rfl rfl ?_ rfl rfl
  have isGarbage_eq : (c.shrunk size.toNat).isGarbage = false := live
  have garbage_eq := h.garbage_eq
  simp only [Database.shortened, garbageOf, List.filter_append, List.filter_cons, isGarbage_eq,
    live] at garbage_eq ⊢
  exact garbage_eq

end Kept

end Database

end ClauseStore
