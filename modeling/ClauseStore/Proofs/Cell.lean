import ClauseStore.Arena

/-!
Cells: records taken out of the arena. A cell is a header, the live literals, and the words that
stand behind them up to the next record; a row of cells says all that an arena holds. What a cell
spans follows from the literals it has room for, which a clause shortened in place keeps until its
cell is moved. Most of what happens to stored clauses only revises headers, and then no cell of a
row changes its place.
-/

namespace ClauseStore

/-- A record with the words behind its literals. -/
structure Cell where
  header : Header
  literals : Clause
  rest : List UInt32

/-- A header without what the search and the reductions revise as they go: grace, link, the counts of
use, the last use, and the reason flag. -/
def Header.core (h : Header) : Header :=
  { h with
    grace := 0, link := 0, props := 0, uips := 0, touched := 0
    flags := { h.flags with reason := false } }

namespace Cell

/-- The words of a cell, in order. -/
def words (c : Cell) : List UInt32 := c.header.words ++ (c.literals.map Literal.word ++ c.rest)

/-- The count of words of a cell. -/
def extent (c : Cell) : Nat := Header.wordCount + (c.literals.length + c.rest.length)

/-- The count of literals that a cell was laid out for. The sentinel of a shortened clause stands in
the place of the last of them. -/
def room (c : Cell) : Nat :=
  if c.header.flags.shrunken then
    c.literals.length + (c.rest.takeWhile fun w => w != sentinel).length + 1
  else c.literals.length

/-- What the walk through an arena relies on. -/
structure Sound (c : Cell) : Prop where
  size_eq : c.header.size.toNat = c.literals.length
  long : 2 < c.literals.length
  literals_ne : ∀ l ∈ c.literals, l.word ≠ sentinel
  closed : c.header.flags.shrunken = true → sentinel ∈ c.rest
  extent_eq : c.extent = aligned (Header.wordCount + c.room)

/-- Revises the header of a cell. -/
def revised (f : Header → Header) (c : Cell) : Cell := { c with header := f c.header }

/-- A cell up to what is revised as the search goes. -/
def core (c : Cell) : Cell := c.revised Header.core

theorem length_words (c : Cell) : c.words.length = c.extent := by
  simp only [words, extent, List.length_append, List.length_map]
  rfl

theorem wordCount_le_extent (c : Cell) : Header.wordCount ≤ c.extent := Nat.le_add_right ..

theorem extent_pos (c : Cell) : 0 < c.extent := Nat.lt_of_lt_of_le (by decide) c.wordCount_le_extent

@[simp] theorem extent_revised (f : Header → Header) (c : Cell) :
    (c.revised f).extent = c.extent := rfl

theorem Sound.even {c : Cell} (h : c.Sound) : c.extent % 2 = 0 := by
  rw [h.extent_eq, aligned]; omega

theorem revised_eq_iff {p : Header → Header} {c d : Cell} :
    d.revised p = c.revised p ↔
      p d.header = p c.header ∧ d.literals = c.literals ∧ d.rest = c.rest := by
  simp only [revised, mk.injEq]

theorem extent_eq_of_revised {p : Header → Header} {c d : Cell}
    (h : d.revised p = c.revised p) : d.extent = c.extent := by
  obtain ⟨-, hl, hr⟩ := revised_eq_iff.1 h
  rw [extent, extent, hl, hr]

/-- Soundness is a matter of the core of a cell. -/
theorem Sound.of_core {c d : Cell} (hc : c.Sound) (h : d.core = c.core) : d.Sound := by
  obtain ⟨hp, hl, hr⟩ := revised_eq_iff.1 h
  simp only [Header.core, Header.mk.injEq, Flags.mk.injEq] at hp
  have hs : d.header.size = c.header.size := by simp [hp]
  have hf : d.header.flags.shrunken = c.header.flags.shrunken := by simp [hp]
  have hroom : d.room = c.room := by rw [room, room, hl, hf, hr]
  constructor
  case size_eq =>
    rw [hs, hl]
    exact hc.size_eq
  case long =>
    rw [hl]
    exact hc.long
  case literals_ne =>
    rw [hl]
    exact hc.literals_ne
  case closed =>
    rw [hf, hr]
    exact hc.closed
  case extent_eq =>
    rw [extent_eq_of_revised h, hroom]
    exact hc.extent_eq

/-! ### Rows of cells -/

/-- The count of words of a row of cells. -/
def extents : List Cell → Nat
  | [] => 0
  | c :: cs => c.extent + extents cs

/-- Where the cells of a row start, if the first starts at an offset. -/
def offsets : Nat → List Cell → List Nat
  | _, [] => []
  | o, c :: cs => o :: offsets (o + c.extent) cs

/-- A cell of a row, the first of which starts at `o`, starts at `k`. -/
def At (o : Nat) (cs : List Cell) (k : Nat) (c : Cell) : Prop :=
  ∃ xs ys, cs = xs ++ c :: ys ∧ k = o + extents xs

@[simp] theorem extents_nil : extents [] = 0 := rfl

@[simp] theorem extents_cons (c : Cell) (cs : List Cell) :
    extents (c :: cs) = c.extent + extents cs := rfl

@[simp] theorem extents_append (xs ys : List Cell) :
    extents (xs ++ ys) = extents xs + extents ys := by
  induction xs with
  | nil => simp
  | cons c cs ih => rw [List.cons_append, extents_cons, ih, extents_cons]; omega

theorem extents_le_of_sublist {xs ys : List Cell} (h : xs.Sublist ys) : extents xs ≤ extents ys := by
  induction h with
  | slnil => exact Nat.le_refl _
  | cons c _ ih => exact Nat.le_trans ih (Nat.le_add_left ..)
  | cons_cons c _ ih => exact Nat.add_le_add_left ih c.extent

@[simp] theorem offsets_nil (o : Nat) : offsets o [] = [] := rfl

@[simp] theorem offsets_cons (o : Nat) (c : Cell) (cs : List Cell) :
    offsets o (c :: cs) = o :: offsets (o + c.extent) cs := rfl

@[simp] theorem length_offsets (o : Nat) (cs : List Cell) : (offsets o cs).length = cs.length := by
  induction cs generalizing o with
  | nil => rfl
  | cons c cs ih => rw [offsets_cons, List.length_cons, List.length_cons, ih]

/-- The words of a row bound the count of its cells. -/
theorem length_le_extents (cs : List Cell) : cs.length * Header.wordCount ≤ extents cs := by
  induction cs with
  | nil => simp
  | cons c cs ih =>
    have := c.wordCount_le_extent
    rw [List.length_cons, extents_cons, Nat.succ_mul]
    omega

@[simp] theorem offsets_append (o : Nat) (xs ys : List Cell) :
    offsets o (xs ++ ys) = offsets o xs ++ offsets (o + extents xs) ys := by
  induction xs generalizing o with
  | nil => simp
  | cons c cs ih => simp [ih, Nat.add_assoc]

theorem length_flatMap_words (cs : List Cell) : (cs.flatMap words).length = extents cs := by
  induction cs with
  | nil => rfl
  | cons c cs ih => rw [List.flatMap_cons, List.length_append, ih, length_words, extents_cons]

theorem not_at_nil {o k : Nat} {c : Cell} : ¬ At o [] k c := by
  rintro ⟨xs, ys, h, -⟩
  simp at h

theorem at_cons {o k : Nat} {c d : Cell} {ds : List Cell} :
    At o (d :: ds) k c ↔ (k = o ∧ c = d) ∨ At (o + d.extent) ds k c := by
  constructor
  · rintro ⟨xs, ys, hcs, rfl⟩
    cases xs with
    | nil => exact .inl ⟨rfl, (List.cons.inj hcs).1.symm⟩
    | cons e es =>
      obtain ⟨rfl, rfl⟩ := List.cons.inj hcs
      exact .inr ⟨es, ys, rfl, by simp [Nat.add_assoc]⟩
  · rintro (⟨rfl, rfl⟩ | ⟨xs, ys, rfl, rfl⟩)
    · exact ⟨[], ds, rfl, rfl⟩
    · exact ⟨d :: xs, ys, rfl, by simp [Nat.add_assoc]⟩

theorem at_append {o k : Nat} {c : Cell} {xs ys : List Cell} :
    At o (xs ++ ys) k c ↔ At o xs k c ∨ At (o + extents xs) ys k c := by
  induction xs generalizing o with
  | nil => simp [not_at_nil]
  | cons d ds ih => rw [List.cons_append, at_cons, at_cons, ih, extents_cons, or_assoc, Nat.add_assoc]

/-- A cell of the part of a row behind others is one of the row. -/
theorem At.behind {k : Nat} {c : Cell} {xs ys : List Cell} (h : At (extents xs) ys k c) :
    At 0 (xs ++ ys) k c :=
  at_append.2 (.inr (by rwa [Nat.zero_add]))

theorem mem_offsets {o k : Nat} {cs : List Cell} : k ∈ offsets o cs ↔ ∃ c, At o cs k c := by
  induction cs generalizing o with
  | nil => simp [not_at_nil]
  | cons d ds ih => simp [at_cons, ih, exists_or]

/-- A cell lies within its row. -/
theorem At.bounds {o k : Nat} {c : Cell} {cs : List Cell} (h : At o cs k c) :
    o ≤ k ∧ k + c.extent ≤ o + extents cs := by
  obtain ⟨xs, ys, rfl, rfl⟩ := h
  simp only [extents_append, extents_cons]
  omega

/-- A cell of a row from a boundary on is one of the part behind it. -/
theorem At.of_le {k : Nat} {c : Cell} {xs ys : List Cell} (h : At 0 (xs ++ ys) k c)
    (behind : extents xs ≤ k) : At (extents xs) ys k c := by
  rcases at_append.1 h with front | h
  · have := front.bounds.2
    have := c.extent_pos
    omega
  · rwa [Nat.zero_add] at h

theorem at_start (c : Cell) : At 0 [c] Reference.start.offset c := ⟨[], [], rfl, rfl⟩

theorem At.mem {o k : Nat} {c : Cell} {cs : List Cell} (h : At o cs k c) : c ∈ cs := by
  obtain ⟨xs, ys, rfl, -⟩ := h
  simp

theorem exists_at {c : Cell} {cs : List Cell} (o : Nat) (h : c ∈ cs) : ∃ k, At o cs k c := by
  obtain ⟨xs, ys, rfl⟩ := List.append_of_mem h
  exact ⟨_, xs, ys, rfl, rfl⟩

/-- One cell starts at a place. -/
theorem At.unique {o k : Nat} {c d : Cell} {cs : List Cell} (hc : At o cs k c)
    (hd : At o cs k d) : c = d := by
  induction cs generalizing o with
  | nil => exact absurd hc not_at_nil
  | cons e es ih =>
    have := e.extent_pos
    rcases at_cons.1 hc with ⟨rfl, rfl⟩ | hc'
    · rcases at_cons.1 hd with ⟨-, rfl⟩ | hd'
      · rfl
      · have := hd'.bounds.1; omega
    · rcases at_cons.1 hd with ⟨rfl, -⟩ | hd'
      · have := hc'.bounds.1; omega
      · exact ih hc' hd'

/-- The cells of a row start behind one another. -/
theorem offsets_pairwise (o : Nat) (cs : List Cell) : (offsets o cs).Pairwise (· < ·) := by
  induction cs generalizing o with
  | nil => exact .nil
  | cons c cs ih =>
    refine List.pairwise_cons.2 ⟨fun k hk => ?_, ih _⟩
    obtain ⟨d, hd⟩ := mem_offsets.1 hk
    have := hd.bounds.1
    have := c.extent_pos
    omega

/-- What is read at the places of cells is read off the cells. -/
theorem map_filter_offsets {β : Type} {o : Nat} {cs : List Cell} {p : Nat → Bool} {q : Cell → Bool}
    {f : Nat → β} {g : Cell → β} (h : ∀ k c, At o cs k c → p k = q c ∧ f k = g c) :
    ((offsets o cs).filter p).map f = (cs.filter q).map g := by
  induction cs generalizing o with
  | nil => rfl
  | cons c cs ih =>
    obtain ⟨pick, view⟩ := h o c (at_cons.2 (.inl ⟨rfl, rfl⟩))
    have rest := ih fun k d hd => h k d (at_cons.2 (.inr hd))
    rw [offsets_cons, List.filter_cons, List.filter_cons, pick]
    split
    · rw [List.map_cons, List.map_cons, rest, view]
    · exact rest

theorem map_offsets {β : Type} {o : Nat} {cs : List Cell} {f : Nat → β} {g : Cell → β}
    (h : ∀ k c, At o cs k c → f k = g c) : (offsets o cs).map f = cs.map g := by
  induction cs generalizing o with
  | nil => rfl
  | cons c cs ih =>
    rw [offsets_cons, List.map_cons, List.map_cons, h o c (at_cons.2 (.inl ⟨rfl, rfl⟩)),
      ih fun k d hd => h k d (at_cons.2 (.inr hd))]

/-! ### Revising headers in place -/

/-- Revises the header of every cell of a row, by the place where the cell starts. -/
def mapAt (f : Nat → Header → Header) : Nat → List Cell → List Cell
  | _, [] => []
  | o, c :: cs => c.revised (f o) :: mapAt f (o + c.extent) cs

@[simp] theorem mapAt_nil (f : Nat → Header → Header) (o : Nat) : mapAt f o [] = [] := rfl

@[simp] theorem mapAt_cons (f : Nat → Header → Header) (o : Nat) (c : Cell) (cs : List Cell) :
    mapAt f o (c :: cs) = c.revised (f o) :: mapAt f (o + c.extent) cs := rfl

variable {f g : Nat → Header → Header}

@[simp] theorem extents_mapAt (o : Nat) (cs : List Cell) :
    extents (mapAt f o cs) = extents cs := by
  induction cs generalizing o with
  | nil => rfl
  | cons c cs ih => simp [ih]

theorem mapAt_append (o : Nat) (xs ys : List Cell) :
    mapAt f o (xs ++ ys) = mapAt f o xs ++ mapAt f (o + extents xs) ys := by
  induction xs generalizing o with
  | nil => simp
  | cons c cs ih => simp [ih, Nat.add_assoc]

theorem mapAt_mapAt (o : Nat) (cs : List Cell) :
    mapAt f o (mapAt g o cs) = mapAt (fun k h => f k (g k h)) o cs := by
  induction cs generalizing o with
  | nil => rfl
  | cons c cs ih =>
    rw [mapAt_cons, mapAt_cons, extent_revised, ih]
    rfl

theorem mapAt_congr {o : Nat} {cs : List Cell} (h : ∀ k c, At o cs k c → f k c.header = g k c.header) :
    mapAt f o cs = mapAt g o cs := by
  induction cs generalizing o with
  | nil => rfl
  | cons c cs ih =>
    rw [mapAt_cons, mapAt_cons, ih fun k d hd => h k d (at_cons.2 (.inr hd)), revised, revised,
      h o c (at_cons.2 (.inl ⟨rfl, rfl⟩))]

theorem mapAt_self {o : Nat} {cs : List Cell} (h : ∀ k c, At o cs k c → f k c.header = c.header) :
    mapAt f o cs = cs := by
  induction cs generalizing o with
  | nil => rfl
  | cons c cs ih =>
    rw [mapAt_cons, ih fun k d hd => h k d (at_cons.2 (.inr hd)), revised,
      h o c (at_cons.2 (.inl ⟨rfl, rfl⟩))]

theorem at_mapAt {o k : Nat} {d : Cell} {cs : List Cell} :
    At o (mapAt f o cs) k d ↔ ∃ c, At o cs k c ∧ d = c.revised (f k) := by
  induction cs generalizing o with
  | nil => simp [not_at_nil]
  | cons c cs ih =>
    rw [mapAt_cons, at_cons, extent_revised, ih]
    constructor
    · rintro (⟨rfl, rfl⟩ | ⟨e, he, rfl⟩)
      · exact ⟨c, at_cons.2 (.inl ⟨rfl, rfl⟩), rfl⟩
      · exact ⟨e, at_cons.2 (.inr he), rfl⟩
    · rintro ⟨e, he, rfl⟩
      rcases at_cons.1 he with ⟨rfl, rfl⟩ | he
      · exact .inl ⟨rfl, rfl⟩
      · exact .inr ⟨e, he, rfl⟩

/-- What is read off revised cells is read off the cells. -/
theorem map_mapAt {β : Type} {o : Nat} {cs : List Cell} {g g' : Cell → β}
    (h : ∀ k c, At o cs k c → g (c.revised (f k)) = g' c) : (mapAt f o cs).map g = cs.map g' := by
  induction cs generalizing o with
  | nil => rfl
  | cons c cs ih =>
    rw [mapAt_cons, List.map_cons, List.map_cons, h o c (at_cons.2 (.inl ⟨rfl, rfl⟩)),
      ih fun k d hd => h k d (at_cons.2 (.inr hd))]

/-- What a revision of headers keeps of each header, it keeps of the row. -/
theorem map_revised_mapAt {p : Header → Header} (h : ∀ k d, p (f k d) = p d) (o : Nat)
    (cs : List Cell) : (mapAt f o cs).map (revised p) = cs.map (revised p) := by
  induction cs generalizing o with
  | nil => rfl
  | cons c cs ih => simp [ih, revised, h]

/-- Rows that agree up to a view of the headers have their cells at the same places. -/
theorem At.of_map_eq {p : Header → Header} {o k : Nat} {c : Cell} {cs ds : List Cell}
    (h : ds.map (revised p) = cs.map (revised p)) (hc : At o cs k c) :
    ∃ d, At o ds k d ∧ d.revised p = c.revised p := by
  induction cs generalizing o ds with
  | nil => exact absurd hc not_at_nil
  | cons e es ih =>
    obtain ⟨e', es', rfl, he, hes⟩ := List.map_eq_cons_iff.1 h
    have hext := extent_eq_of_revised he
    rcases at_cons.1 hc with ⟨rfl, rfl⟩ | hc
    · exact ⟨e', at_cons.2 (.inl ⟨rfl, rfl⟩), he⟩
    · obtain ⟨d, hd, hp⟩ := ih hes hc
      exact ⟨d, at_cons.2 (.inr (hext ▸ hd)), hp⟩

/-! ### Rows of the same extents -/

section Extents

variable {xs ys : List Cell} {cs ds : List Cell}

theorem extent_eq_of_map_eq {p : Header → Header} (h : ds.map (revised p) = cs.map (revised p)) :
    ds.map extent = cs.map extent := by
  have : ∀ es : List Cell, es.map extent = (es.map (revised p)).map extent := by
    intro es
    rw [List.map_map]
    rfl
  rw [this ds, this cs, h]

theorem extent_mapAt (o : Nat) (cs : List Cell) : (mapAt f o cs).map extent = cs.map extent := by
  induction cs generalizing o with
  | nil => rfl
  | cons c cs ih => simp [ih]

theorem extents_eq (h : ds.map extent = cs.map extent) : extents ds = extents cs := by
  induction cs generalizing ds with
  | nil => rw [List.map_eq_nil_iff.1 h]
  | cons c cs ih =>
    obtain ⟨d, ds, rfl, hd, hds⟩ := List.map_eq_cons_iff.1 h
    rw [extents_cons, extents_cons, ih hds, hd]

theorem offsets_eq {o : Nat} (h : ds.map extent = cs.map extent) : offsets o ds = offsets o cs := by
  induction cs generalizing o ds with
  | nil => rw [List.map_eq_nil_iff.1 h]
  | cons c cs ih =>
    obtain ⟨d, ds, rfl, hd, hds⟩ := List.map_eq_cons_iff.1 h
    rw [offsets_cons, offsets_cons, hd, ih hds]

/-- A boundary between cells is one of every row of the same extents. -/
theorem exists_split (h : ds.map extent = (xs ++ ys).map extent) :
    ∃ xs' ys', ds = xs' ++ ys' ∧ extents xs' = extents xs := by
  rw [List.map_append] at h
  obtain ⟨xs', ys', rfl, hxs, -⟩ := List.map_eq_append_iff.1 h
  exact ⟨xs', ys', rfl, extents_eq hxs⟩

theorem extents_eq_of_map_eq {p : Header → Header} (h : ds.map (revised p) = cs.map (revised p)) :
    extents ds = extents cs :=
  extents_eq (extent_eq_of_map_eq h)

end Extents

end Cell

end ClauseStore
