import ClauseStore.Proofs.Binding
import Mathlib.Data.List.Basic

/-!
Watches of long clauses. A long clause waits in the queue, once, and has no watch; or it is watched on its
first two literals, each blocked by the other. A clause that is garbage when the queue is worked off is
neither. What the lists hold of a clause is told by the blockers of its watches, literal by literal: that
does not change when the clause is moved, shortened or promoted.
-/

namespace ClauseStore

open Cell Database

/-- The blockers of the watches that a long clause has in the list of a literal. -/
def Watches.blockers (w : Watches) (r : Reference) (l : Literal) : List Literal :=
  (w.long l).toList.filterMap fun x => if x.clause = r then some x.blocker else none

namespace Clause

/-- The blockers that a watched clause has in the list of a literal: its first two literals block each
other. -/
def crossed (c : Clause) (l : Literal) : List Literal :=
  match c.take 2 with
  | [a, b] => if l = a then [b] else if l = b then [a] else []
  | _ => []

/-- The first two literals of a clause are different ones. -/
def Paired (c : Clause) : Prop := ∃ a b, c.take 2 = [a, b] ∧ a ≠ b

end Clause

/-- How watch lists and a queue hold the clause of a cell. -/
inductive QueuedOrWatched (w : Watches) (queue : List Reference) (r : Reference) (c : Cell) : Prop where
  | queued (once : queue.count r = 1) (unwatched : ∀ l, w.blockers r l = [])
  | watched (unqueued : queue.count r = 0) (crossed : ∀ l, w.blockers r l = c.literals.crossed l)
  /-- the clause was garbage when the queue was worked off -/
  | gone (garbage : c.isGarbage = true) (unqueued : queue.count r = 0)
    (unwatched : ∀ l, w.blockers r l = [])

/-- Watch lists and a queue hold the clauses of a row of cells, and no others. -/
structure AllQueuedOrWatched (w : Watches) (queue : List Reference) (cs : List Cell) : Prop where
  pairs : ∀ k c, At 0 cs k c → c.literals.Paired
  cells : ∀ k c, At 0 cs k c → QueuedOrWatched w queue (.ofOffset k) c
  queue_at : ∀ r ∈ queue, ∃ c, At 0 cs r.offset c
  lists_at : ∀ r l, w.blockers r l ≠ [] → ∃ c, At 0 cs r.offset c

/-! ### Blockers -/

namespace Watches

variable {w w' : Watches} {r s : Reference} {a b l m : Literal}

theorem mem_blockers : m ∈ w.blockers r l ↔ ⟨m, r⟩ ∈ (w.long l).toList := by
  simp only [blockers, List.mem_filterMap, Option.ite_none_right_eq_some, Option.some.injEq]
  constructor
  · rintro ⟨x, hx, rfl, rfl⟩
    exact hx
  · intro hx
    exact ⟨_, hx, rfl, rfl⟩

theorem blockers_of_long_eq (long_eq : ∀ l, w'.long l = w.long l) (r : Reference) (l : Literal) :
    w'.blockers r l = w.blockers r l := by
  rw [blockers, blockers, long_eq]

theorem blockers_pushLong (x : LongWatch) : (w.pushLong m x).blockers r l =
    w.blockers r l ++ if l = m ∧ x.clause = r then [x.blocker] else [] := by
  rw [blockers, blockers, long_pushLong]
  by_cases here : l = m
  · subst here
    by_cases own : x.clause = r <;> simp [own]
  · simp [here]

/-- A clause is watched on two literals, and no other clause is concerned. -/
theorem blockers_watchLong (apart : a ≠ b) : (w.watchLong r a b).blockers s l =
    w.blockers s l ++ if s = r then Clause.crossed [a, b] l else [] := by
  rw [watchLong, blockers_pushLong, blockers_pushLong, List.append_assoc]
  congr 1
  by_cases own : s = r
  · subst own
    by_cases first : l = a
    · subst first
      simp [Clause.crossed, apart]
    · simp [Clause.crossed, first]
  · simp [own, Ne.symm own]

/-- The blockers of a clause that has moved are those it had. -/
theorem blockers_relocate {moved : Relocation}
    (h : ∀ x ∈ (w.long l).toList, moved.get? x.clause = some s ↔ x.clause = r) :
    (w.relocate moved).blockers s l = w.blockers r l := by
  rw [blockers, blockers, long_relocate, Array.toList_filterMap, List.filterMap_filterMap]
  refine List.filterMap_congr fun x hx => ?_
  have leads := h x hx
  by_cases own : x.clause = r
  · rw [leads.2 own, if_pos own]
    simp
  · rw [if_neg own]
    cases led : moved.get? x.clause with
    | none => rfl
    | some t =>
      have apart : t ≠ s := fun same => own (leads.1 (led.trans (congrArg some same)))
      simp [apart]

/-- Watching clauses does not concern the queue. -/
theorem pending_foldl_joined (arena : Arena) (rs : List Reference) (w : Watches) :
    (rs.foldl (joined arena) w).pending = w.pending := by
  induction rs generalizing w with
  | nil => rfl
  | cons r rs ih =>
    rw [List.foldl_cons, ih, joined]
    split
    · rfl
    · split
      · exact pending_watchLong w r _ _
      · rfl

end Watches

/-! ### Rows whose clauses hang -/

namespace Cell

/-- A row whose cells start where those of another one do and have the same first two literals, and are
garbage at least where those are. -/
structure Aged (cs ds : List Cell) : Prop where
  extent_eq : ds.map extent = cs.map extent
  view : ∀ k c d, At 0 cs k c → At 0 ds k d →
    d.literals.take 2 = c.literals.take 2 ∧ (c.isGarbage = true → d.isGarbage = true)

variable {cs ds : List Cell} {gone : List Nat} {k : Nat}

theorem Aged.exists_at (h : Aged cs ds) : (∃ d, At 0 ds k d) ↔ ∃ c, At 0 cs k c := by
  rw [← mem_offsets, offsets_eq h.extent_eq, mem_offsets]

theorem SameButMarked.aged (h : SameButMarked gone cs ds) : Aged cs ds := by
  refine ⟨h.extent_eq, fun k c d hc hd => ?_⟩
  obtain ⟨essence_eq, garbage_eq⟩ := h.view k c d hc hd
  simp only [essence, Prod.mk.injEq] at essence_eq
  refine ⟨by rw [essence_eq.2.1], fun garbage => ?_⟩
  rw [garbage_eq, garbage, Bool.true_or]

/-- A revision of one header that keeps garbage. -/
theorem aged_only {f : Header → Header} (h : ∀ d, d.flags.garbage = true → (f d).flags.garbage = true)
    (k : Nat) (cs : List Cell) : Aged cs (mapAt (Arena.only k f) 0 cs) := by
  refine ⟨extent_mapAt 0 cs, fun j c d hc hd => ?_⟩
  obtain ⟨e, he, rfl⟩ := at_mapAt.1 hd
  rw [hc.unique he, revised, Arena.only]
  split
  · exact ⟨rfl, h e.header⟩
  · exact ⟨rfl, id⟩

/-- One cell in the place of another. -/
theorem aged_replaced {xs ys : List Cell} {c d : Cell} (extent_eq : d.extent = c.extent)
    (pair_eq : d.literals.take 2 = c.literals.take 2) (garbage : c.isGarbage = true → d.isGarbage = true) :
    Aged (xs ++ c :: ys) (xs ++ d :: ys) := by
  refine ⟨by simp [extent_eq], fun k a b ha hb => ?_⟩
  have extent_pos := c.extent_pos
  rcases at_append.1 ha with hxs | ha
  · rw [hxs.unique ((at_append.1 hb).resolve_right fun hb => by
      have := hxs.bounds.2
      have := hb.bounds.1
      have := a.extent_pos
      omega)]
    exact ⟨rfl, id⟩
  · have behind := ha.bounds.1
    replace hb := (at_append.1 hb).resolve_left fun hb => by
      have := hb.bounds.2
      have := b.extent_pos
      omega
    rcases at_cons.1 ha with ⟨rfl, rfl⟩ | ha
    · rcases at_cons.1 hb with ⟨-, rfl⟩ | hb
      · exact ⟨pair_eq, garbage⟩
      · have := hb.bounds.1
        omega
    · rcases at_cons.1 hb with ⟨rfl, rfl⟩ | hb
      · have := ha.bounds.1
        omega
      · rw [extent_eq] at hb
        rw [ha.unique hb]
        exact ⟨rfl, id⟩

end Cell

namespace QueuedOrWatched

variable {w w' : Watches} {queue queue' : List Reference} {r r' : Reference} {c d : Cell}

/-- A clause goes on to hang where its place in the queue and its blockers stay. -/
theorem congr (h : QueuedOrWatched w queue r c) (count_eq : queue'.count r' = queue.count r)
    (blockers_eq : ∀ l, w'.blockers r' l = w.blockers r l)
    (pair_eq : d.literals.take 2 = c.literals.take 2)
    (garbage : c.isGarbage = true → d.isGarbage = true) : QueuedOrWatched w' queue' r' d := by
  have crossed_eq : ∀ l, d.literals.crossed l = c.literals.crossed l := by
    intro l
    rw [Clause.crossed, pair_eq, Clause.crossed]
  cases h with
  | queued once unwatched =>
    exact .queued (count_eq.trans once) fun l => (blockers_eq l).trans (unwatched l)
  | watched unqueued crossed =>
    refine .watched (count_eq.trans unqueued) fun l => ?_
    rw [blockers_eq, crossed, crossed_eq]
  | gone here unqueued unwatched =>
    exact .gone (garbage here) (count_eq.trans unqueued) fun l => (blockers_eq l).trans (unwatched l)

end QueuedOrWatched

namespace AllQueuedOrWatched

variable {w w' : Watches} {queue : List Reference} {cs ds : List Cell} {r : Reference} {a b : Literal}

theorem nil : AllQueuedOrWatched {} [] [] :=
  ⟨fun _ _ h => absurd h not_at_nil, fun _ _ h => absurd h not_at_nil, by simp, fun _ _ h => absurd rfl h⟩

theorem aged (h : AllQueuedOrWatched w queue cs) (aged : Aged cs ds) : AllQueuedOrWatched w queue ds := by
  have before : ∀ {k d}, At 0 ds k d → ∃ c, At 0 cs k c ∧ d.literals.take 2 = c.literals.take 2 ∧
      (c.isGarbage = true → d.isGarbage = true) := by
    intro k d hd
    obtain ⟨c, hc⟩ := aged.exists_at.1 ⟨d, hd⟩
    exact ⟨c, hc, aged.view k c d hc hd⟩
  constructor
  case pairs =>
    intro k d hd
    obtain ⟨c, hc, pair_eq, -⟩ := before hd
    rw [Clause.Paired, pair_eq]
    exact h.pairs k c hc
  case cells =>
    intro k d hd
    obtain ⟨c, hc, pair_eq, garbage⟩ := before hd
    exact (h.cells k c hc).congr rfl (fun _ => rfl) pair_eq garbage
  case queue_at => exact fun r hr => aged.exists_at.2 (h.queue_at r hr)
  case lists_at => exact fun r l hl => aged.exists_at.2 (h.lists_at r l hl)

theorem of_long_eq (h : AllQueuedOrWatched w queue cs) (long_eq : ∀ l, w'.long l = w.long l) :
    AllQueuedOrWatched w' queue cs := by
  have blockers_eq := Watches.blockers_of_long_eq long_eq
  refine ⟨h.pairs, fun k c hc => ?_, h.queue_at, fun r l hl => ?_⟩
  · exact (h.cells k c hc).congr rfl (blockers_eq _) rfl id
  · rw [blockers_eq] at hl
    exact h.lists_at r l hl

/-- What is at no cell is neither queued nor watched. -/
theorem unknown (h : AllQueuedOrWatched w queue cs) (stray : ¬ ∃ c, At 0 cs r.offset c) :
    queue.count r = 0 ∧ ∀ l, w.blockers r l = [] := by
  refine ⟨List.count_eq_zero.2 fun hr => stray (h.queue_at r hr), fun l => ?_⟩
  by_contra hl
  exact stray (h.lists_at r l hl)

end AllQueuedOrWatched

/-! ### Storing and connecting -/

namespace AllQueuedOrWatched

variable {w w' : Watches} {queue : List Reference} {cs : List Cell} {r : Reference} {c d : Cell}
  {a b : Literal}

/-- The reference to a place is not one to another place. -/
theorem ofOffset_ne {k : Nat} (hk : k < 4294967296) (h : k ≠ r.offset) : Reference.ofOffset k ≠ r := by
  rintro rfl
  exact h (toNat_ofOffset hk).symm

/-- The order of the queue does not matter. -/
theorem perm (h : AllQueuedOrWatched w queue cs) {queue' : List Reference} (perm : queue'.Perm queue) :
    AllQueuedOrWatched w queue' cs := by
  refine ⟨h.pairs, fun k c hc => ?_, fun r hr => h.queue_at r (perm.mem_iff.1 hr), h.lists_at⟩
  exact (h.cells k c hc).congr (perm.count_eq _) (fun _ => rfl) rfl id

/-- A clause in a cell behind the others is queued. -/
theorem enqueue (h : AllQueuedOrWatched w queue cs) (own : r.offset = extents cs)
    (paired : d.literals.Paired) :
    AllQueuedOrWatched w (r :: queue) (cs ++ [d]) := by
  have at_d : At 0 (cs ++ [d]) r.offset d := ⟨cs, [], rfl, by rw [own, Nat.zero_add]⟩
  have fresh : ¬ ∃ c, At 0 cs r.offset c := by
    rintro ⟨c, hc⟩
    have := hc.bounds.2
    have := c.extent_pos
    omega
  obtain ⟨unqueued, unwatched⟩ := h.unknown fresh
  have cell_cases : ∀ {k c}, At 0 (cs ++ [d]) k c → At 0 cs k c ∧ k < r.offset ∨ k = r.offset ∧ c = d := by
    intro k c hc
    rcases at_append.1 hc with hc | hc
    · have := hc.bounds.2
      have := c.extent_pos
      exact .inl ⟨hc, by omega⟩
    · rcases at_cons.1 hc with ⟨rfl, rfl⟩ | hc
      · exact .inr ⟨by omega, rfl⟩
      · exact absurd hc not_at_nil
  constructor
  case pairs =>
    intro k c hc
    rcases cell_cases hc with ⟨hc, -⟩ | ⟨-, rfl⟩
    · exact h.pairs k c hc
    · exact paired
  case cells =>
    intro k c hc
    rcases cell_cases hc with ⟨hc, before⟩ | ⟨rfl, rfl⟩
    · have other := ofOffset_ne (Nat.lt_trans before r.word.toNat_lt) (Nat.ne_of_lt before)
      exact (h.cells k c hc).congr (List.count_cons_of_ne other.symm) (fun _ => rfl) rfl id
    · rw [ofOffset_offset]
      refine .queued ?_ unwatched
      rw [List.count_cons_self, unqueued]
  case queue_at =>
    intro s hs
    rcases List.mem_cons.1 hs with rfl | hs
    · exact ⟨d, at_d⟩
    · obtain ⟨c, hc⟩ := h.queue_at s hs
      exact ⟨c, at_append.2 (.inl hc)⟩
  case lists_at =>
    intro s l hl
    obtain ⟨c, hc⟩ := h.lists_at s l hl
    exact ⟨c, at_append.2 (.inl hc)⟩

/-- The first clause of the queue is queued once, and so it is not watched. -/
theorem first_unwatched (h : AllQueuedOrWatched w (r :: queue) cs) (hc : At 0 cs r.offset c) :
    queue.count r = 0 ∧ ∀ l, w.blockers r l = [] := by
  have own := h.cells _ c hc
  rw [ofOffset_offset] at own
  cases own with
  | queued once unwatched =>
    rw [List.count_cons_self] at once
    exact ⟨by omega, unwatched⟩
  | watched unqueued =>
    rw [List.count_cons_self] at unqueued
    omega
  | gone _ unqueued =>
    rw [List.count_cons_self] at unqueued
    omega

/-- The first clause is taken out of the queue, and no other clause is concerned. -/
theorem dequeue (h : AllQueuedOrWatched w (r :: queue) cs) (fits : extents cs < 4294967296)
    (hc : At 0 cs r.offset c) (own : QueuedOrWatched w' queue r c)
    (others : ∀ s ≠ r, ∀ l, w'.blockers s l = w.blockers s l) : AllQueuedOrWatched w' queue cs := by
  constructor
  case pairs => exact h.pairs
  case cells =>
    intro k e he
    by_cases here : k = r.offset
    · subst here
      rwa [ofOffset_offset, he.unique hc]
    · have := he.bounds.2
      have := e.extent_pos
      have other := ofOffset_ne (by omega) here
      exact (h.cells k e he).congr (List.count_cons_of_ne other.symm).symm (others _ other) rfl id
  case queue_at => exact fun s hs => h.queue_at s (List.mem_cons_of_mem _ hs)
  case lists_at =>
    intro s l hl
    by_cases here : s = r
    · subst here
      exact ⟨c, hc⟩
    · rw [others s here] at hl
      exact h.lists_at s l hl

/-- The first clause of the queue is watched. -/
theorem watch (h : AllQueuedOrWatched w (r :: queue) cs) (fits : extents cs < 4294967296)
    (hc : At 0 cs r.offset c) (pair_eq : c.literals.take 2 = [a, b]) (apart : a ≠ b) :
    AllQueuedOrWatched (w.watchLong r a b) queue cs := by
  obtain ⟨unqueued, unwatched⟩ := h.first_unwatched hc
  refine h.dequeue fits hc (.watched unqueued fun l => ?_) fun s other l => ?_
  · rw [Watches.blockers_watchLong apart, unwatched, if_pos rfl, List.nil_append, Clause.crossed,
      Clause.crossed, pair_eq]
    rfl
  · rw [Watches.blockers_watchLong apart, if_neg other, List.append_nil]

/-- A clause is stored in a cell behind the others, and watched or queued. -/
theorem attach (h : AllQueuedOrWatched w w.pending cs) (fits : extents (cs ++ [d]) < 4294967296)
    (own : r.offset = extents cs) (pair_eq : d.literals.take 2 = [a, b]) (apart : a ≠ b) :
    AllQueuedOrWatched (attach r a b w) (Database.attach r a b w).pending (cs ++ [d]) := by
  have queued := h.enqueue own ⟨a, b, pair_eq, apart⟩
  have at_d : At 0 (cs ++ [d]) r.offset d := ⟨cs, [], rfl, by rw [own, Nat.zero_add]⟩
  rw [Database.attach]
  split
  · rw [Watches.pending_watchLong]
    exact queued.watch fits at_d pair_eq apart
  · exact (queued.perm (List.perm_append_singleton r w.pending)).of_long_eq fun _ => rfl

/-- The first clause of the queue is watched, or dropped as garbage. -/
theorem joined {arena : Arena} (tiled : arena.Tiled cs) (fits : extents cs < 4294967296)
    (h : AllQueuedOrWatched w (r :: queue) cs) : AllQueuedOrWatched (w.joined arena r) queue cs := by
  obtain ⟨c, hc⟩ := h.queue_at r (List.mem_cons_self ..)
  obtain ⟨a, b, pair_eq, apart⟩ := h.pairs _ c hc
  have literals_eq : c.literals = a :: b :: c.literals.drop 2 := by
    rw [← List.take_append_drop 2 c.literals, pair_eq]
    simp
  have joined_eq : w.joined arena r = if c.isGarbage then w else w.watchLong r a b := by
    rw [Watches.joined, tiled.header_eq hc, tiled.literals_eq hc, literals_eq]
    rfl
  rw [joined_eq]
  cases garbage : c.isGarbage with
  | true =>
    obtain ⟨unqueued, unwatched⟩ := h.first_unwatched hc
    exact h.dequeue fits hc (.gone garbage unqueued unwatched) fun _ _ _ => rfl
  | false => exact h.watch fits hc pair_eq apart

/-- The queue is worked off. -/
theorem foldl_joined {arena : Arena} (tiled : arena.Tiled cs) (fits : extents cs < 4294967296)
    (h : AllQueuedOrWatched w queue cs) :
    AllQueuedOrWatched (queue.foldl (Watches.joined arena) w) [] cs := by
  induction queue generalizing w with
  | nil => exact h
  | cons r queue ih => exact ih (h.joined tiled fits)

end AllQueuedOrWatched

/-! ### Compaction -/

namespace Database.Holds

variable {db : Database} {xs ys : List Cell} {k : Nat} {c d : Cell} {r s : Reference}

/-- A reference to a cell that is moved leads to a cell. -/
theorem at_of_get? (h : db.Holds (xs ++ ys)) (fill : Nat → UInt32) (hc : At 0 (xs ++ ys) r.offset c)
    (led : (relocationOf xs ys).get? r = some s) :
    ∃ d, At 0 (xs ++ settle fill (extents xs) ys) s.offset d ∧ d.identity = c.identity := by
  have settled_le := extents_settle_le fill (extents xs)
    fun e he => h.sound e (List.mem_append_right xs he)
  have fits := h.fits'
  rw [extents_append] at fits
  have inside : ∀ {k d}, At 0 (xs ++ settle fill (extents xs) ys) k d →
      (Reference.ofOffset k).offset = k := by
    intro k d hd
    have := hd.bounds.2
    rw [extents_append] at this
    have := d.extent_pos
    exact toNat_ofOffset (by omega)
  rw [← ofOffset_offset r] at led
  cases garbage : c.isGarbage with
  | false =>
    obtain ⟨k, d, moved, hd, -, identity_eq⟩ := get?_live fill h.fits' hc garbage
    obtain rfl := Option.some.inj (led.symm.trans moved)
    exact ⟨d, by rwa [inside hd], identity_eq⟩
  | true =>
    rcases get?_garbage fill h.fits' hc garbage with lost | ⟨stays, hd⟩
    · rw [lost] at led
      cases led
    · obtain rfl := Option.some.inj (led.symm.trans stays)
      exact ⟨c, by rwa [inside hd], rfl⟩

/-- A cell behind a compaction is one from before it, to whose new place its old one leads. -/
theorem exists_moved (h : db.Holds (xs ++ ys)) (fill : Nat → UInt32)
    (hd : At 0 (xs ++ settle fill (extents xs) ys) k d) :
    ∃ r c, At 0 (xs ++ ys) r.offset c ∧ d.literals = c.literals ∧ d.isGarbage = c.isGarbage ∧
      d.identity = c.identity ∧ (relocationOf xs ys).get? r = some (.ofOffset k) := by
  have fits := h.fits'
  have outer := extents_append xs ys
  rcases at_append.1 hd with hd | hd
  · have := hd.bounds.2
    have := d.extent_pos
    have here : (Reference.ofOffset k).offset = k := toNat_ofOffset (by omega)
    refine ⟨.ofOffset k, d, ?_, rfl, rfl, rfl, get?_before fits hd⟩
    rw [here]
    exact at_append.2 (.inl hd)
  · rw [Nat.zero_add] at hd
    have bound : extents xs + extents ys < 4294967296 := by omega
    obtain ⟨j, c, w, hc, -, rfl, lookup_eq⟩ := exists_of_at_settle hd bound
    have := hc.bounds.2
    have := c.extent_pos
    have here : (Reference.ofOffset j).offset = j := toNat_ofOffset (by omega)
    refine ⟨.ofOffset j, c, ?_, rfl, rfl, rfl, (get?_behind fits hc).trans lookup_eq⟩
    rw [here]
    exact hc.behind

/-- Two references to cells that lead to the same place are one. -/
theorem get?_injective (h : db.Holds (xs ++ ys)) (fill : Nat → UInt32) (hc : At 0 (xs ++ ys) r.offset c)
    (hd : At 0 (xs ++ ys) s.offset d) {t : Reference} (led : (relocationOf xs ys).get? r = some t)
    (led' : (relocationOf xs ys).get? s = some t) : r = s := by
  obtain ⟨c', hc', own⟩ := h.at_of_get? fill hc led
  obtain ⟨d', hd', own'⟩ := h.at_of_get? fill hd led'
  rw [hc'.unique hd'] at own
  have offset_eq := (eq_of_identity h.ascending hc hd (own.symm.trans own')).1
  rw [← ofOffset_offset r, offset_eq, ofOffset_offset]

end Database.Holds

/-- What is queued or watched stays so through a compaction. -/
theorem AllQueuedOrWatched.relocate {db : Database} {xs ys : List Cell} {w : Watches} {queue : List Reference}
    (h : AllQueuedOrWatched w queue (xs ++ ys)) (holds : db.Holds (xs ++ ys)) (fill : Nat → UInt32) :
    AllQueuedOrWatched (w.relocate (relocationOf xs ys)) (queue.filterMap (relocationOf xs ys).get?)
      (xs ++ settle fill (extents xs) ys) := by
  constructor
  case pairs =>
    intro k d hd
    obtain ⟨r, c, hc, literals_eq, -⟩ := holds.exists_moved fill hd
    rw [literals_eq]
    exact h.pairs _ c hc
  case cells =>
    intro k d hd
    obtain ⟨r, c, hc, literals_eq, garbage_eq, -, led⟩ := holds.exists_moved fill hd
    -- among the references to cells, only that of the cell leads to its place
    have leads : ∀ s, (∃ e, At 0 (xs ++ ys) s.offset e) →
        ((relocationOf xs ys).get? s = some (.ofOffset k) ↔ s = r) := by
      rintro s ⟨e, he⟩
      constructor
      · exact fun led' => holds.get?_injective fill he hc led' led
      · rintro rfl
        exact led
    have count_eq : (queue.filterMap (relocationOf xs ys).get?).count (.ofOffset k) = queue.count r := by
      rw [List.count_filterMap, List.count_eq_countP]
      refine List.countP_congr fun s hs => ?_
      rw [beq_iff_eq, beq_iff_eq]
      exact leads s (h.queue_at s hs)
    have blockers_eq : ∀ l, (w.relocate (relocationOf xs ys)).blockers (.ofOffset k) l =
        w.blockers r l := by
      refine fun l => Watches.blockers_relocate fun x hx => leads _ (h.lists_at x.clause l ?_)
      exact List.ne_nil_of_mem (Watches.mem_blockers.2 hx)
    have own := h.cells _ c hc
    rw [ofOffset_offset] at own
    exact own.congr count_eq blockers_eq (by rw [literals_eq]) (by rw [garbage_eq]; exact id)
  case queue_at =>
    intro s hs
    obtain ⟨r, hr, led⟩ := List.mem_filterMap.1 hs
    obtain ⟨c, hc⟩ := h.queue_at r hr
    obtain ⟨d, hd, -⟩ := holds.at_of_get? fill hc led
    exact ⟨d, hd⟩
  case lists_at =>
    intro s l hl
    obtain ⟨m, hm⟩ := List.exists_mem_of_ne_nil _ hl
    have watch := Watches.mem_blockers.1 hm
    rw [Watches.long_relocate, Array.toList_filterMap, List.mem_filterMap] at watch
    obtain ⟨x, hx, moved⟩ := watch
    obtain ⟨t, led, same⟩ := Option.map_eq_some_iff.1 moved
    obtain rfl : t = s := congrArg LongWatch.clause same
    obtain ⟨c, hc⟩ := h.lists_at x.clause l (List.ne_nil_of_mem (Watches.mem_blockers.2 hx))
    obtain ⟨d, hd, -⟩ := holds.at_of_get? fill hc led
    exact ⟨d, hd⟩

/-! ### Operations and runs -/

namespace Operation

/-- Whether a call puts a reference into the queue, or takes the queue out, by hand. -/
def queues : Operation → Bool
  | queuePending _ | takePending => true
  | _ => false

end Operation

namespace Database

/-- The watch lists and the queue of a database hold its long clauses. -/
def AttachesAll (db : Database) (cs : List Cell) : Prop := AllQueuedOrWatched db.watches db.watches.pending cs

namespace AttachesAll

variable {db db' : Database} {cs ds : List Cell}

/-- What an operation beside the long clauses does to their watches. -/
theorem sideline (h : db.AttachesAll cs) (holds : db.Holds cs) {bs : List BinaryClause} (binds : db.Binds bs)
    {op : Operation} {r : Except Error Answer} (step : Sideline db op r db')
    (settled : op.queues = false) : db'.AttachesAll cs := by
  have h : AllQueuedOrWatched db.watches db.watches.pending cs := h
  have emptied : AllQueuedOrWatched { db.watches with pending := [] } db.watches.pending cs :=
    h.of_long_eq fun _ => rfl
  cases step with
  | listened => exact h
  | counted => exact h
  | @deleted a b redundant identity w found =>
    have unwatching := Watches.unwatching binds.lists binds.proper binds.apart a b identity
    rw [found] at unwatching
    cases unwatching with
    | found _ _ _ long_eq pending_eq =>
      have kept := h.of_long_eq long_eq
      rw [← pending_eq] at kept
      exact kept
  | @missing a b l redundant identity w missing =>
    have unwatching := Watches.unwatching binds.lists binds.proper binds.apart a b identity
    rw [missing] at unwatching
    cases unwatching
    exact h
  | watching => exact h.of_long_eq fun _ => rfl
  | queued => cases settled
  | taken => cases settled
  | connected =>
    have joined := emptied.foldl_joined holds.tiled holds.fits_word
    have left := Watches.pending_foldl_joined db.arena db.watches.pending
      { db.watches with pending := [] }
    show AllQueuedOrWatched _ (Watches.pending (List.foldl _ _ _)) cs
    rw [left]
    exact joined.of_long_eq fun _ => rfl
  | @halted e done rest r split stray =>
    obtain ⟨c, hc⟩ := h.queue_at r (by rw [split]; simp)
    exact absurd (holds.tiled.mem_walk.2 ⟨c, hc⟩) stray

/-- What storing does to the watches of the long clauses. -/
theorem storage (h : db.AttachesAll cs) (holds : db.Holds cs) {config : Config} {source : Source}
    {glue : UInt32} {conflicts : UInt64} {c : Clause} {r : Except Error Placement}
    (step : Storage config source glue conflicts c cs db r db' ds) : db'.AttachesAll ds := by
  have fits := (step.holds holds).fits_word
  cases step with
  | refused => exact h
  | @binary a b =>
    have kept := AllQueuedOrWatched.of_long_eq h
      (Watches.long_watchBinary db.watches · a b (source == .redundant) db.nextIdentity)
    rw [← Watches.pending_watchBinary db.watches a b (source == .redundant) db.nextIdentity] at kept
    exact kept
  | @long a b rest literals_eq long accepted =>
    have apart := Clause.nodup_filed accepted source
    rw [literals_eq, List.nodup_cons] at apart
    have own : (Reference.ofOffset (extents cs)).offset = extents cs := toNat_ofOffset holds.fits_word
    exact AllQueuedOrWatched.attach h fits own rfl fun same => apart.1 (same ▸ List.mem_cons_self ..)

/-- Where the cells age and the watch lists stay, so does what is queued or watched. -/
theorem aged (h : db.AttachesAll cs) (aged : Aged cs ds) (watches_eq : db'.watches = db.watches) :
    db'.AttachesAll ds := by
  rw [AttachesAll, watches_eq]
  exact AllQueuedOrWatched.aged h aged

theorem collected {xs ys : List Cell} (h : db.AttachesAll (xs ++ ys)) (holds : db.Holds (xs ++ ys))
    (first last : Reference) :
    (db.collected xs ys first last).AttachesAll (xs ++ settle db.arena.word (extents xs) ys) :=
  AllQueuedOrWatched.relocate h holds db.arena.word

/-- What a reduction does to the watches of the long clauses. -/
theorem thinning (h : db.AttachesAll cs) {byScore : Bool} {search search' : Snapshot} {gone : List Nat}
    (step : Thinning byScore search db cs gone search' db' ds) : db'.AttachesAll ds := by
  cases step with
  | still thinned => exact h.aged thinned.kept.aged thinned.watches_eq
  | @compacted db₁ xs ys first last thinned =>
    have before : db₁.AttachesAll (xs ++ ys) := h.aged thinned.kept.aged thinned.watches_eq
    exact before.collected thinned.holds first last

/-- What any other operation does to the watches of the long clauses. -/
theorem effect {π : Type} {c c' : Context π} {op : Operation} {r : Except Error Answer}
    (h : c.database.AttachesAll cs) (holds : c.database.Holds cs) (step : Effect c cs op r c' ds)
    (apart : op.aside = false) : c'.database.AttachesAll ds := by
  cases step with
  | configured => exact h
  | beside aside =>
    rw [aside] at apart
    cases apart
  | stored storage => exact h.storage holds storage
  | @noted _ r d f note found =>
    have core_eq := core_mapAt_only (Operation.core_of_note note) r.offset cs
    exact h.aged ((SameButMarked.refl cs).of_core core_eq).aged rfl
  | refused => exact h
  | @marked r =>
    exact h.aged (aged_only (f := Header.withFlag .garbage true) (fun _ _ => rfl) r.offset cs) rfl
  | @promoted r =>
    exact h.aged (aged_only (f := Header.withFlag .redundant false) (fun _ => id) r.offset cs) rfl
  | @shortened r size xs ys d split start free =>
    subst split
    obtain ⟨-, long, shorter⟩ := barsShrink_eq_false (holds.sound d (by simp)) free
    refine h.aged (aged_replaced (extent_shrunk d shorter) ?_ id) rfl
    rw [Cell.shrunk, List.take_take, Nat.min_eq_left (by omega)]
  | @collected start xs ys first last split =>
    subst split
    exact h.collected holds first last
  | reduced reduction =>
    obtain ⟨gone, thinning, -⟩ := reduction.thinning holds
    exact h.thinning thinning

end AttachesAll

end Database

/-! ### What is queued or watched, in the arena -/

/-- The watch lists and the queue of a database hold each live clause of the arena, and hold nothing that
is no clause. -/
structure Database.Watched (db : Database) : Prop where
  /-- a live clause is queued once and not watched, or not queued and watched once on each of its first
  two literals, with the other one as the blocker -/
  live : ∀ o ∈ db.arena.live, ∃ a b rest, db.arena.literals o = a :: b :: rest ∧ a ≠ b ∧
    (db.watches.pending.count (.ofOffset o) = 1 ∧ (∀ l, db.watches.blockers (.ofOffset o) l = []) ∨
      .ofOffset o ∉ db.watches.pending ∧ ∀ l, db.watches.blockers (.ofOffset o) l =
        if l = a then [b] else if l = b then [a] else [])
  queued : ∀ r ∈ db.watches.pending, r.offset ∈ (db.arena.walkFrom 0).1
  /-- a watch is on one of the first two literals of a clause, with the other one as the blocker -/
  placed : ∀ l, ∀ x ∈ (db.watches.long l).toList, x.clause.offset ∈ (db.arena.walkFrom 0).1 ∧
    ∃ a b rest, db.arena.literals x.clause.offset = a :: b :: rest ∧
      (l = a ∧ x.blocker = b ∨ l = b ∧ x.blocker = a)

/-- Neither the watch lists nor the queue of a database refer to garbage. -/
def Database.Spotless (db : Database) : Prop :=
  (∀ r ∈ db.watches.pending, r.offset ∈ db.arena.live) ∧
    ∀ l, ∀ x ∈ (db.watches.long l).toList, x.clause.offset ∈ db.arena.live

namespace Database.AttachesAll

variable {db : Database} {cs : List Cell}

/-- What is queued or watched is read in the arena. -/
theorem watched (h : db.AttachesAll cs) (holds : db.Holds cs) : db.Watched := by
  have literals_eq : ∀ {k c}, At 0 cs k c → ∃ a b rest, db.arena.literals k = a :: b :: rest ∧ a ≠ b ∧
      ∀ l, c.literals.crossed l = if l = a then [b] else if l = b then [a] else [] := by
    intro k c hc
    obtain ⟨a, b, pair_eq, apart⟩ := h.pairs k c hc
    refine ⟨a, b, c.literals.drop 2, ?_, apart, fun l => by rw [Clause.crossed, pair_eq]⟩
    rw [holds.tiled.literals_eq hc, ← List.take_append_drop 2 c.literals, pair_eq]
    simp
  constructor
  case live =>
    intro o ho
    obtain ⟨c, hc, live⟩ := holds.mem_live.1 ho
    obtain ⟨a, b, rest, literals, apart, crossed_eq⟩ := literals_eq hc
    refine ⟨a, b, rest, literals, apart, ?_⟩
    cases h.cells o c hc with
    | queued once unwatched => exact .inl ⟨once, unwatched⟩
    | watched unqueued crossed =>
      exact .inr ⟨List.count_eq_zero.1 unqueued, fun l => (crossed l).trans (crossed_eq l)⟩
    | gone garbage =>
      rw [live] at garbage
      cases garbage
  case queued => exact fun r hr => holds.tiled.mem_walk.2 (h.queue_at r hr)
  case placed =>
    intro l x hx
    have watch : x.blocker ∈ db.watches.blockers x.clause l := Watches.mem_blockers.2 hx
    obtain ⟨c, hc⟩ := h.lists_at x.clause l (List.ne_nil_of_mem watch)
    obtain ⟨a, b, rest, literals, -, crossed_eq⟩ := literals_eq hc
    refine ⟨holds.tiled.mem_walk.2 ⟨c, hc⟩, a, b, rest, literals, ?_⟩
    have own := h.cells _ c hc
    rw [ofOffset_offset] at own
    cases own with
    | queued _ unwatched => simp [unwatched] at watch
    | gone _ _ unwatched => simp [unwatched] at watch
    | watched _ crossed =>
      rw [crossed, crossed_eq] at watch
      split at watch
      next first => exact .inl ⟨first, List.mem_singleton.1 watch⟩
      next =>
        split at watch
        next second => exact .inr ⟨second, List.mem_singleton.1 watch⟩
        next => cases watch

/-- Where no cell is garbage, neither is anything that is queued or watched. -/
theorem spotless (h : db.AttachesAll cs) (holds : db.Holds cs) (clean : ∀ c ∈ cs, c.isGarbage = false) :
    db.Spotless := by
  constructor
  · intro r hr
    obtain ⟨c, hc⟩ := h.queue_at r hr
    exact holds.mem_live.2 ⟨c, hc, clean c hc.mem⟩
  · intro l x hx
    obtain ⟨c, hc⟩ := h.lists_at x.clause l (List.ne_nil_of_mem (Watches.mem_blockers.2 hx))
    exact holds.mem_live.2 ⟨c, hc, clean c hc.mem⟩

/-- The log does not matter. -/
theorem logged (h : db.AttachesAll cs) (ms : Array Message) :
    Database.AttachesAll (Logged.withMessages ms db) cs := h

end Database.AttachesAll

namespace Context

variable {π : Type} [Predictor π] {c : Context π} {cs : List Cell} {bs : List BinaryClause}

/-- One step of a run keeps clauses queued or watched. -/
theorem attachesAll_step (holds : c.database.Holds cs) (binds : c.database.Binds bs)
    (h : c.database.AttachesAll cs) {op : Operation} (lawful : op.Lawful c) (settled : op.queues = false) :
    ∃ ds, (op.after c).database.Holds ds ∧ (op.after c).database.AttachesAll ds := by
  cases aside : op.aside with
  | true =>
    obtain ⟨db, ms, after_eq, sideline⟩ := exists_sideline holds aside
    rw [after_eq]
    exact ⟨cs, (holds.beside sideline.beside).logged ms,
      (h.sideline holds binds sideline settled).logged ms⟩
  | false =>
    obtain ⟨c', ds, ms, after_eq, effect⟩ := exists_effect holds lawful
    refine ⟨ds, holds_after after_eq (effect.holds holds), ?_⟩
    rw [after_eq]
    exact (h.effect holds effect aside).logged ms

/-- A run whose queue is worked off by the database only keeps clauses queued or watched. -/
theorem attachesAll_run {ops : List Operation} (holds : c.database.Holds cs) (binds : c.database.Binds bs)
    (h : c.database.AttachesAll cs) (follows : c.Follows ops) (settled : ∀ op ∈ ops, op.queues = false) :
    ∃ ds, (c.run ops).database.Holds ds ∧ (c.run ops).database.AttachesAll ds := by
  induction ops generalizing c cs bs with
  | nil => exact ⟨cs, holds, h⟩
  | cons op ops ih =>
    obtain ⟨lawful, rest⟩ := follows
    obtain ⟨ds, holds', h'⟩ := attachesAll_step holds binds h lawful (settled op (List.mem_cons_self ..))
    exact ih holds' (binds_step holds binds lawful) h' rest
      fun op hop => settled op (List.mem_cons_of_mem _ hop)

/-- A compaction from the start of the arena succeeds, and leaves no watch or queue entry of garbage. -/
theorem spotless_collect (holds : c.database.Holds cs) (h : c.database.AttachesAll cs) :
    ∃ moved, (Operation.collect .start).answer c = .ok (.relocated moved) ∧
      ((Operation.collect .start).after c).database.Spotless := by
  have start_eq : Reference.start = .ofOffset (extents []) := rfl
  have holds : c.database.Holds ([] ++ cs) := holds
  obtain ⟨first, last, collects, first_at⟩ := yields_collect holds
  have performs : Yields (Operation.collect (.ofOffset (extents []))).perform c _ _ :=
    Operation.yields_answered (yields_onDatabase collects) .relocated
  obtain ⟨ms, outcome_eq⟩ := performs.outcome_eq
  rw [start_eq, Operation.answer, Operation.after, outcome_eq]
  have holds' : (c.database.collected [] cs first last).Holds
    ([] ++ settle c.database.arena.word (extents []) cs) := Holds.collected holds last first_at
  have attached' : (c.database.collected [] cs first last).AttachesAll
    ([] ++ settle c.database.arena.word (extents []) cs) := AttachesAll.collected h holds first last
  refine ⟨relocationOf [] cs, rfl, ?_⟩
  exact (attached'.logged ms).spotless (holds'.logged ms) fun d hd => isGarbage_of_mem_settle hd

/-- Behind every lawful run that leaves the queue to the database, the watch lists and the queue hold the
live long clauses and nothing that is no clause, and the watch lists hold the binary clauses that were
stored and not deleted; and after a compaction of the whole arena no watch or queue entry of garbage is
left. -/
theorem watches_hold (config : Config) (predictor : π) (ops : List Operation)
    (follows : (ofConfig config predictor).Follows ops) (settled : ∀ op ∈ ops, op.queues = false) :
    ((ofConfig config predictor).run ops).database.Watched ∧
      ((ofConfig config predictor).run ops).database.Binds
        (BinaryClause.keep (ofConfig config predictor) ops []) ∧
      ∃ moved, (Operation.collect .start).answer ((ofConfig config predictor).run ops) =
          .ok (.relocated moved) ∧
        ((Operation.collect .start).after ((ofConfig config predictor).run ops)).database.Spotless := by
  have holds : (ofConfig config predictor).database.Holds [] := holds_nil
  have binds : (ofConfig config predictor).database.Binds [] := binds_nil
  have attached : (ofConfig config predictor).database.AttachesAll [] := AllQueuedOrWatched.nil
  obtain ⟨cs, holds', attached'⟩ := attachesAll_run holds binds attached follows settled
  exact ⟨attached'.watched holds', binds_run holds binds follows, spotless_collect holds' attached'⟩

/-- Clauses that are stored while nothing is watched, one of which is garbage when the queue is worked off,
and then stored, shortened, deleted and compacted. -/
def watchingRun : List Operation :=
  [.setWatching false, .create .original 0 [⟨1⟩, ⟨2⟩, ⟨3⟩], .create .original 0 [⟨4⟩, ⟨-1⟩],
    .create .redundant 5 [⟨-1⟩, ⟨2⟩, ⟨4⟩], .markGarbage (.ofOffset 0), .connectPending,
    .create .redundant 7 [⟨5⟩, ⟨-2⟩, ⟨3⟩, ⟨4⟩], .create .redundant 3 [⟨6⟩, ⟨5⟩],
    .shrink (.ofOffset 24) 3, .deleteBinary ⟨4⟩ ⟨-1⟩ false 2, .collect .start, .setWatching false,
    .create .irredundant 0 [⟨6⟩, ⟨-5⟩, ⟨1⟩]]

/-- The last clause waits in the queue, and one binary clause is left. -/
theorem watches_hold_watchingRun :
    (ofConfig {} ({} : Linear)).Follows watchingRun ∧ (∀ op ∈ watchingRun, op.queues = false) ∧
      ((ofConfig {} ({} : Linear)).run watchingRun).database.watches.pending = [.ofOffset 24] ∧
      BinaryClause.keep (ofConfig {} ({} : Linear)) watchingRun [] = [⟨5, ⟨6⟩, ⟨5⟩, true⟩] ∧
      ((ofConfig {} ({} : Linear)).run watchingRun).database.Watched ∧
      ((ofConfig {} ({} : Linear)).run watchingRun).database.Binds
        (BinaryClause.keep (ofConfig {} ({} : Linear)) watchingRun []) ∧
      ∃ moved, (Operation.collect .start).answer ((ofConfig {} ({} : Linear)).run watchingRun) =
          .ok (.relocated moved) ∧
        ((Operation.collect .start).after
          ((ofConfig {} ({} : Linear)).run watchingRun)).database.Spotless := by
  have follows : (ofConfig {} ({} : Linear)).Follows watchingRun := by decide +kernel
  have settled : ∀ op ∈ watchingRun, op.queues = false := by decide +kernel
  have queued : ((ofConfig {} ({} : Linear)).run watchingRun).database.watches.pending =
    [.ofOffset 24] := by decide +kernel
  have kept : BinaryClause.keep (ofConfig {} ({} : Linear)) watchingRun [] =
    [⟨5, ⟨6⟩, ⟨5⟩, true⟩] := by decide +kernel
  exact ⟨follows, settled, queued, kept,
    watches_hold ({} : Config) ({} : Linear) watchingRun follows settled⟩

end Context

end ClauseStore
