import ClauseStore.Proofs.Rows

/-!
Marking a list of clauses. Where the clauses are different, live and no reasons, each of them is marked,
and the marks of the others do not matter to it; so the list is marked as a whole and told in its
order.
-/

namespace ClauseStore

open Cell

namespace Cell

/-- A cell of a row with the place where it starts. -/
abbrev Placed := Nat × Cell

/-- Cells that can be marked as garbage one after the other. -/
structure Markable (ms : List Placed) (cs : List Cell) : Prop where
  apart : (ms.map Prod.fst).Nodup
  placed : ∀ m ∈ ms, At 0 cs m.1 m.2
  live : ∀ m ∈ ms, m.2.isGarbage = false
  free : ∀ m ∈ ms, m.2.header.flags.reason = false

/-- Marks some cells as garbage, one after the other. -/
def markAll (ms : List Placed) (cs : List Cell) : List Cell :=
  ms.foldl (fun cs m => markAt m.1 cs) cs

variable {ms : List Placed} {m : Placed} {cs : List Cell} {c : Cell} {j k : Nat}

/-- Another cell is not touched by a mark. -/
theorem At.markAt (hc : At 0 cs j c) (hne : j ≠ k) : At 0 (markAt k cs) j c := by
  refine at_mapAt.2 ⟨c, hc, ?_⟩
  rw [Arena.only, if_neg hne]
  rfl

theorem Markable.tail (h : Markable (m :: ms) cs) : Markable ms (markAt m.1 cs) := by
  have apart := h.apart
  rw [List.map_cons, List.nodup_cons] at apart
  refine ⟨apart.2, fun n hn => ?_, fun n hn => h.live n (by simp [hn]), fun n hn => h.free n (by simp [hn])⟩
  refine (h.placed n (by simp [hn])).markAt ?_
  intro heq
  exact apart.1 (heq ▸ List.mem_map_of_mem hn)

/-- The marks, all at once. -/
theorem markAll_eq (ms : List Placed) (cs : List Cell) : markAll ms cs =
    mapAt (fun k h => if k ∈ ms.map Prod.fst then h.withFlag .garbage true else h) 0 cs := by
  induction ms generalizing cs with
  | nil =>
    rw [markAll, List.foldl_nil, mapAt_self]
    intro k c _
    simp
  | cons m ms ih =>
    show markAll ms (Cell.markAt m.1 cs) = _
    rw [ih, Cell.markAt, mapAt_mapAt]
    refine mapAt_congr fun k c _ => ?_
    simp only [List.map_cons, List.mem_cons, Arena.only]
    by_cases hk : k = m.1
    · simp [hk, Header.withFlag, Flags.set]
    · rw [if_neg hk, id]
      by_cases hm : k ∈ ms.map Prod.fst
      · rw [if_pos hm, if_pos (.inr hm)]
      · rw [if_neg hm, if_neg fun h => h.elim hk hm]

end Cell

namespace Database

/-- A database after some cells are marked as garbage. -/
def markedAll : List Placed → List Cell → Database → Database
  | [], _, db => db
  | m :: ms, cs, db => markedAll ms (markAt m.1 cs) (db.marked m.1 m.2 cs)

/-- The events that tell the end of some cells. -/
def deletions (ms : List Placed) : List Event :=
  ms.map fun m => .deletion m.2.header.identity m.2.literals

variable {db : Database} {cs : List Cell} {ms : List Placed}

theorem Holds.markedAll (h : db.Holds cs) (free : Markable ms cs) :
    (db.markedAll ms cs).Holds (markAll ms cs) := by
  induction ms generalizing db cs with
  | nil => exact h
  | cons m ms ih =>
    exact ih (h.marked (free.placed m (by simp)) (free.live m (by simp))) free.tail

/-- Cells that can be marked are marked. -/
theorem yields_forM_markGarbage (h : db.Holds cs) (free : Markable ms cs) :
    Yields ((ms.map fun m => Reference.ofOffset m.1).forM markGarbage) db (.ok ())
      (db.markedAll ms cs) := by
  induction ms generalizing db cs with
  | nil => exact yields_forM_nil
  | cons m ms ih =>
    have at_m := free.placed m (by simp)
    have live := free.live m (by simp)
    have offset_eq := h.offset_ofOffset at_m
    have step : Yields (markGarbage (.ofOffset m.1)) db _ _ :=
      yields_markGarbage h (by rwa [offset_eq]) live (free.free m (by simp))
    rw [offset_eq] at step
    exact step.forM_cons (ih (h.marked at_m live) free.tail)

/-- What marking does not touch. -/
theorem markedAll_frame (ms : List Placed) (cs : List Cell) (db : Database) :
    (db.markedAll ms cs).watches = db.watches ∧
      (db.markedAll ms cs).nextIdentity = db.nextIdentity ∧
      (db.markedAll ms cs).firstReducible = db.firstReducible ∧
      (db.markedAll ms cs).events = db.events ++ (deletions ms).toArray := by
  induction ms generalizing cs db with
  | nil => exact ⟨rfl, rfl, rfl, by simp [markedAll, deletions]⟩
  | cons m ms ih =>
    obtain ⟨watches_eq, next_eq, first_eq, events_eq⟩ := ih (markAt m.1 cs) (db.marked m.1 m.2 cs)
    refine ⟨watches_eq, next_eq, first_eq, ?_⟩
    show (markedAll ms _ _).events = _
    rw [events_eq]
    simp [marked, deletions]

/-- The table after the rows of some redundant cells have ended. -/
def endedAll (ms : List Placed) (t : Table) : Table := ms.foldl (fun t m => t.ended m.2.header) t

theorem table_markedAll (redundant : ∀ m ∈ ms, m.2.header.flags.redundant = true) :
    (db.markedAll ms cs).table = endedAll ms db.table := by
  induction ms generalizing db cs with
  | nil => rfl
  | cons m ms ih =>
    have step : (db.marked m.1 m.2 cs).table = db.table.ended m.2.header := by
      simp only [marked, redundant m (by simp), if_true]
    show (markedAll ms _ _).table = _
    rw [ih fun n hn => redundant n (by simp [hn]), step]
    rfl

end Database

end ClauseStore
