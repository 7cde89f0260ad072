import ClauseStore.Database.Collection
import ClauseStore.Proofs.Outcome
import ClauseStore.Proofs.Overlap
import ClauseStore.Proofs.Relocation
import ClauseStore.Proofs.Tiling

/-!
Compaction on rows of cells. The cells behind the start settle: garbage is left out, and of the other
cells the header stays but for the mark of a shortened clause, and the live literals. A settled cell is
no longer than it was, so what is written never reaches what is still to be read. The relocation leads
from the place of a survivor to its new place and from nowhere else.
-/

namespace ClauseStore

namespace Cell

/-- The cell is to be left out by a compaction. -/
def isGarbage (c : Cell) : Bool := c.header.flags.garbage

/-- The clause of a cell is live, redundant and not kept, so that a reduction by rank may remove it. -/
def isReducible (c : Cell) : Bool :=
  !c.isGarbage && (c.header.flags.redundant && !c.header.flags.keep)

/-- No reducible clause of a row starts before a reference. -/
def NoneBefore (first : Reference) (o : Nat) (cs : List Cell) : Prop :=
  ∀ k c, At o cs k c → c.isReducible = true → first.offset ≤ k

/-- A cell after its record has moved, with the word that fills it up. -/
def moved (fill : UInt32) (c : Cell) : Cell where
  header := c.header.withFlag .shrunken false
  literals := c.literals
  rest := if (Header.wordCount + c.literals.length) % 2 = 0 then [] else [fill]

/-- The count of words that a cell needs for its live literals. -/
def need (c : Cell) : Nat := aligned (Header.wordCount + c.literals.length)

/-- The cells of a row without garbage, moved together from a place on. The filling words are given
by their places. -/
def settle (fill : Nat → UInt32) : Nat → List Cell → List Cell
  | _, [] => []
  | n, c :: cs =>
    if c.isGarbage then settle fill n cs
    else c.moved (fill (n + Header.wordCount + c.literals.length)) :: settle fill (n + c.need) cs

/-- The moves of a compaction that reads a row from one place on and writes it from another. -/
def moves : Nat → Nat → List Cell → List (Reference × Reference)
  | _, _, [] => []
  | o, n, c :: cs =>
    if c.isGarbage then moves (o + c.extent) n cs
    else (.ofOffset o, .ofOffset n) :: moves (o + c.extent) (n + c.need) cs

/-- Where the cells of a row start that are not garbage. -/
def liveOffsets : Nat → List Cell → List Nat
  | _, [] => []
  | o, c :: cs =>
    if c.isGarbage then liveOffsets (o + c.extent) cs else o :: liveOffsets (o + c.extent) cs

variable {fill : Nat → UInt32} {c d : Cell} {cs xs ys : List Cell} {o n k : Nat}

@[simp] theorem extent_moved (w : UInt32) (c : Cell) : (c.moved w).extent = c.need := by
  simp only [extent, moved, need, aligned]
  split <;> simp <;> omega

theorem isReducible_of_live (live : c.isGarbage = false) :
    c.isReducible = (c.header.flags.redundant && !c.header.flags.keep) := by
  rw [isReducible, live, Bool.not_false, Bool.true_and]

@[simp] theorem isReducible_moved (w : UInt32) (c : Cell) :
    (c.moved w).isReducible = c.isReducible := rfl

/-- What is needed for the live literals is there. -/
theorem Sound.need_le (h : c.Sound) : c.need ≤ c.extent := by
  have : c.literals.length ≤ c.room := by
    rw [room]
    split <;> omega
  rw [h.extent_eq, need, aligned, aligned]
  omega

theorem Sound.moved (h : c.Sound) (w : UInt32) : (c.moved w).Sound := by
  refine ⟨h.size_eq, h.long, h.literals_ne, ?_, ?_⟩
  · simp [Cell.moved, Header.withFlag, Flags.set]
  · rw [extent_moved]
    rfl

theorem settle_append (xs ys : List Cell) : settle fill n (xs ++ ys) =
    settle fill n xs ++ settle fill (n + extents (settle fill n xs)) ys := by
  induction xs generalizing n with
  | nil => rfl
  | cons c cs ih =>
    simp only [List.cons_append, settle]
    split
    · exact ih
    · rw [ih, extents_cons, extent_moved, List.cons_append, ← Nat.add_assoc n c.need]

theorem moves_append (fill : Nat → UInt32) (xs ys : List Cell) : moves o n (xs ++ ys) =
    moves o n xs ++ moves (o + extents xs) (n + extents (settle fill n xs)) ys := by
  induction xs generalizing o n with
  | nil => rfl
  | cons c cs ih =>
    simp only [List.cons_append, moves, settle]
    split
    · rw [ih, extents_cons, Nat.add_assoc]
    · rw [ih, extents_cons, extents_cons, extent_moved, List.cons_append, Nat.add_assoc,
        Nat.add_assoc]

theorem settle_sound (fill : Nat → UInt32) (n : Nat) (h : ∀ c ∈ cs, c.Sound) :
    ∀ d ∈ settle fill n cs, d.Sound := by
  induction cs generalizing n with
  | nil => simp [settle]
  | cons c cs ih =>
    have rest := fun n => ih n fun d hd => h d (List.mem_cons_of_mem c hd)
    rw [settle]
    split
    · exact rest _
    · intro d hd
      rcases List.mem_cons.1 hd with rfl | hd
      · exact (h c (List.mem_cons_self ..)).moved _
      · exact rest _ d hd

/-- What is written is never longer than what was read. -/
theorem extents_settle_le (fill : Nat → UInt32) (n : Nat) (h : ∀ c ∈ cs, c.Sound) :
    extents (settle fill n cs) ≤ extents cs := by
  induction cs generalizing n with
  | nil => exact Nat.le_refl _
  | cons c cs ih =>
    have rest := fun n => ih n fun d hd => h d (List.mem_cons_of_mem c hd)
    rw [settle]
    split
    · exact Nat.le_trans (rest _) (Nat.le_add_left ..)
    · rw [extents_cons, extents_cons, extent_moved]
      exact Nat.add_le_add (h c (List.mem_cons_self ..)).need_le (rest _)

/-- No settled cell is garbage. -/
theorem isGarbage_of_mem_settle (h : d ∈ settle fill n cs) : d.isGarbage = false := by
  induction cs generalizing n with
  | nil => simp [settle] at h
  | cons c cs ih =>
    rw [settle] at h
    split at h
    · exact ih h
    next live =>
      rcases List.mem_cons.1 h with rfl | h
      · exact Bool.eq_false_iff.2 live
      · exact ih h

/-- The settled cells are those that are not garbage, up to what a move forgets. -/
theorem map_settle {β : Type} {view view' : Cell → β} (hview : ∀ w c, view (c.moved w) = view' c) :
    (settle fill n cs).map view = (cs.filter fun c => !c.isGarbage).map view' := by
  induction cs generalizing n with
  | nil => rfl
  | cons c cs ih =>
    rw [settle]
    split
    next garbage => rw [ih, List.filter_cons_of_neg (by simp [garbage])]
    next live => rw [List.map_cons, ih, hview, List.filter_cons_of_pos (by simp [live]), List.map_cons]

theorem mem_liveOffsets : k ∈ liveOffsets o cs ↔ ∃ c, At o cs k c ∧ c.isGarbage = false := by
  induction cs generalizing o with
  | nil => simp [liveOffsets, not_at_nil]
  | cons d ds ih =>
    rw [liveOffsets]
    split
    next garbage =>
      rw [ih]
      constructor
      · rintro ⟨c, hc, live⟩
        exact ⟨c, at_cons.2 (.inr hc), live⟩
      · rintro ⟨c, hc, live⟩
        rcases at_cons.1 hc with ⟨-, rfl⟩ | hc
        · rw [garbage] at live; cases live
        · exact ⟨c, hc, live⟩
    next hlive =>
      rw [List.mem_cons, ih]
      constructor
      · rintro (rfl | ⟨c, hc, live⟩)
        · exact ⟨d, at_cons.2 (.inl ⟨rfl, rfl⟩), by simpa using hlive⟩
        · exact ⟨c, at_cons.2 (.inr hc), live⟩
      · rintro ⟨c, hc, live⟩
        rcases at_cons.1 hc with ⟨rfl, rfl⟩ | hc
        · exact .inl rfl
        · exact .inr ⟨c, hc, live⟩

theorem liveOffsets_append (o : Nat) (xs ys : List Cell) :
    liveOffsets o (xs ++ ys) = liveOffsets o xs ++ liveOffsets (o + extents xs) ys := by
  induction xs generalizing o with
  | nil => rfl
  | cons c cs ih =>
    simp only [List.cons_append, liveOffsets, ih, extents_cons, Nat.add_assoc]
    split <;> rfl

theorem liveOffsets_eq_offsets (h : ∀ c ∈ cs, c.isGarbage = false) : liveOffsets o cs = offsets o cs := by
  induction cs generalizing o with
  | nil => rfl
  | cons c cs ih =>
    rw [liveOffsets, if_neg (by simp [h c (by simp)]), offsets_cons,
      ih fun d hd => h d (List.mem_cons_of_mem c hd)]

/-- Whether a cell is garbage is read off its header. -/
theorem liveOffsets_eq_filter {garbage : Nat → Bool}
    (h : ∀ k c, At o cs k c → garbage k = c.isGarbage) :
    liveOffsets o cs = (offsets o cs).filter fun k => !garbage k := by
  induction cs generalizing o with
  | nil => rfl
  | cons c cs ih =>
    have here := h o c (at_cons.2 (.inl ⟨rfl, rfl⟩))
    rw [liveOffsets, ih fun k d hd => h k d (at_cons.2 (.inr hd)), offsets_cons, List.filter_cons,
      here]
    cases c.isGarbage <;> simp

/-! ### Moves -/

theorem toNat_ofOffset (h : k < 4294967296) : (Reference.ofOffset k).offset = k := by
  rw [Reference.ofOffset, Reference.offset, UInt32.toNat_ofNat']
  omega

theorem isValid_ofOffset (h : k < 4294967295) : (Reference.ofOffset k).isValid = true := by
  have offset_eq := toNat_ofOffset (Nat.lt_succ_of_lt h)
  simp only [Reference.isValid, bne_iff_ne, ne_eq]
  intro invalid
  have : Reference.invalid.offset = 4294967295 := rfl
  rw [invalid] at offset_eq
  omega

/-- The reference to no clause is the greatest. -/
theorem offset_eq_of_not_isValid {r : Reference} (h : r.isValid = false) : r.offset = 4294967295 := by
  have : r = .invalid := by simpa [Reference.isValid] using h
  rw [this]
  rfl

/-- Whoever caches the first reducible clause goes on to do so when a cell comes behind the others. -/
theorem NoneBefore.snoc {first : Reference} (h : NoneBefore first o cs)
    (fits : o + extents cs < 4294967295)
    (place : first.isValid = true → first.offset ≤ o + extents cs) :
    NoneBefore (if d.isReducible && !first.isValid then .ofOffset (o + extents cs) else first) o
      (cs ++ [d]) := by
  intro k c hc reducible
  rcases at_append.1 hc with hc | hc
  · have least := h k c hc reducible
    have := hc.bounds.2
    have := c.extent_pos
    split
    next opens =>
      -- nothing was cached, so no cell before this one is reducible
      simp only [Bool.and_eq_true, Bool.not_eq_true'] at opens
      rw [offset_eq_of_not_isValid opens.2] at least
      omega
    next => exact least
  · rcases at_cons.1 hc with ⟨rfl, rfl⟩ | hc
    · split
      next => exact Nat.le_of_eq (toNat_ofOffset (by omega))
      next cached => exact place (by simpa [reducible] using cached)
    · exact absurd hc not_at_nil

theorem ofOffset_offset (r : Reference) : Reference.ofOffset r.offset = r := by
  cases r
  simp [Reference.ofOffset, Reference.offset]

/-- The moves lead from the places of the survivors to the places of the settled cells. -/
theorem moves_eq_zip : moves o n cs = ((liveOffsets o cs).map Reference.ofOffset).zip
    ((offsets n (settle fill n cs)).map Reference.ofOffset) := by
  induction cs generalizing o n with
  | nil => rfl
  | cons c cs ih =>
    simp only [moves, liveOffsets, settle]
    split
    · exact ih
    · rw [ih, offsets_cons, extent_moved]
      rfl

/-- The move of a cell is not one of a cell behind it. -/
theorem lookup_cons_behind {r : Reference} {ms : List (Reference × Reference)} {e : Cell}
    (hc : At (o + e.extent) cs k c) (ho : o + (e.extent + extents cs) < 4294967296) :
    List.lookup (.ofOffset k) ((.ofOffset o, r) :: ms) = ms.lookup (.ofOffset k) := by
  have place := hc.bounds
  have behind := c.extent_pos
  have above := e.extent_pos
  have apart : (Reference.ofOffset k == Reference.ofOffset o) = false := by
    rw [beq_eq_false_iff_ne]
    intro same
    have := congrArg Reference.offset same
    rw [toNat_ofOffset (by omega), toNat_ofOffset (by omega)] at this
    omega
  rw [List.lookup_cons, apart]

/-- The place of a survivor leads to the place of its cell after the move. -/
theorem lookup_moves (fill : Nat → UInt32) (n : Nat) (hc : At o cs k c) (live : c.isGarbage = false)
    (ho : o + extents cs < 4294967296) : ∃ k' w,
      (moves o n cs).lookup (.ofOffset k) = some (.ofOffset k') ∧
        At n (settle fill n cs) k' (c.moved w) := by
  induction cs generalizing o n with
  | nil => exact absurd hc not_at_nil
  | cons d ds ih =>
    have extent_pos := d.extent_pos
    rw [extents_cons] at ho
    rcases at_cons.1 hc with ⟨rfl, rfl⟩ | hc
    · refine ⟨n, fill (n + Header.wordCount + c.literals.length), ?_, ?_⟩
      · rw [moves, if_neg (by simp [live]), List.lookup_cons, beq_self_eq_true]
      · rw [settle, if_neg (by simp [live])]
        exact at_cons.2 (.inl ⟨rfl, rfl⟩)
    · have rest := fun n => ih n hc (by omega)
      rw [moves, settle]
      split
      · exact rest n
      · obtain ⟨k', w, hlookup, hk'⟩ := rest (n + d.need)
        refine ⟨k', w, ?_, at_cons.2 (.inr (by rwa [extent_moved]))⟩
        rw [lookup_cons_behind hc ho]
        exact hlookup

/-- Every settled cell is that of a survivor, whose place leads to its own. -/
theorem exists_of_at_settle (hd : At n (settle fill n cs) k d) (ho : o + extents cs < 4294967296) :
    ∃ j c w, At o cs j c ∧ c.isGarbage = false ∧ d = c.moved w ∧
      (moves o n cs).lookup (.ofOffset j) = some (.ofOffset k) := by
  induction cs generalizing o n with
  | nil => exact absurd hd not_at_nil
  | cons e es ih =>
    have extent_pos := e.extent_pos
    rw [extents_cons] at ho
    rw [settle] at hd
    rw [moves]
    split at hd
    next garbage =>
      obtain ⟨j, c, w, hc, live, rfl, lookup_eq⟩ := @ih (o + e.extent) n hd (by omega)
      rw [if_pos garbage]
      exact ⟨j, c, w, at_cons.2 (.inr hc), live, rfl, lookup_eq⟩
    next live =>
      rw [if_neg live]
      rcases at_cons.1 hd with ⟨rfl, rfl⟩ | hd
      · refine ⟨o, e, _, at_cons.2 (.inl ⟨rfl, rfl⟩), by simpa using live, rfl, ?_⟩
        rw [List.lookup_cons, beq_self_eq_true]
      · rw [extent_moved] at hd
        obtain ⟨j, c, w, hc, live, rfl, lookup_eq⟩ := @ih (o + e.extent) (n + e.need) hd (by omega)
        refine ⟨j, c, w, at_cons.2 (.inr hc), live, rfl, ?_⟩
        rw [lookup_cons_behind hc ho]
        exact lookup_eq

/-- The places of the survivors lead, in order, to the places of the settled cells. -/
theorem map_lookup_moves (fill : Nat → UInt32) (n : Nat) (ho : o + extents cs < 4294967296) :
    (liveOffsets o cs).map (fun k => (moves o n cs).lookup (.ofOffset k)) =
      (offsets n (settle fill n cs)).map fun k => some (.ofOffset k) := by
  induction cs generalizing o n with
  | nil => rfl
  | cons c cs ih =>
    have extent_pos := c.extent_pos
    rw [extents_cons] at ho
    have rest := fun n => @ih (o + c.extent) n (by omega)
    rw [liveOffsets, moves, settle]
    split
    · exact rest n
    · rw [offsets_cons, extent_moved, List.map_cons, List.map_cons, ← rest, List.lookup_cons,
        beq_self_eq_true]
      congr 1
      refine List.map_congr_left fun k hk => ?_
      obtain ⟨d, hd, -⟩ := mem_liveOffsets.1 hk
      exact lookup_cons_behind hd ho

/-- No other place leads anywhere. -/
theorem lookup_moves_none {r : Reference}
    (h : ∀ c, At o cs r.offset c → c.isGarbage = true) (ho : o + extents cs < 4294967296) :
    (moves o n cs).lookup r = none := by
  induction cs generalizing o n with
  | nil => rfl
  | cons d ds ih =>
    rw [extents_cons] at ho
    have rest := fun n => ih (o := o + d.extent) (n := n)
      (fun c hc => h c (at_cons.2 (.inr hc))) (by omega)
    rw [moves]
    split
    · exact rest n
    next live =>
      have : (r == Reference.ofOffset o) = false := by
        rw [beq_eq_false_iff_ne]
        rintro rfl
        rw [toNat_ofOffset (by omega)] at h
        exact live (h d (at_cons.2 (.inl ⟨rfl, rfl⟩)))
      rw [List.lookup_cons, this]
      exact rest _

theorem liveOffsets_sublist (o : Nat) (cs : List Cell) : (liveOffsets o cs).Sublist (offsets o cs) := by
  induction cs generalizing o with
  | nil => exact .slnil
  | cons c cs ih =>
    rw [liveOffsets, offsets_cons]
    split
    · exact (ih _).cons _
    · exact (ih _).cons_cons _

theorem fst_moves (o n : Nat) (cs : List Cell) :
    (moves o n cs).map Prod.fst = (liveOffsets o cs).map Reference.ofOffset := by
  induction cs generalizing o n with
  | nil => rfl
  | cons c cs ih =>
    rw [moves, liveOffsets]
    split
    · exact ih ..
    · rw [List.map_cons, List.map_cons, ih]

/-- Moves ascend in the old references. -/
theorem moves_ascend (n : Nat) (ho : o + extents cs < 4294967296) :
    (moves o n cs).Pairwise fun m m' => m.1 < m'.1 := by
  have ascending : ((liveOffsets o cs).map Reference.ofOffset).Pairwise (· < ·) := by
    rw [List.pairwise_map]
    refine ((offsets_pairwise o cs).sublist (liveOffsets_sublist o cs)).imp_of_mem fun {j k} hj hk less => ?_
    obtain ⟨c, hc, -⟩ := mem_liveOffsets.1 hj
    obtain ⟨d, hd, -⟩ := mem_liveOffsets.1 hk
    have := hd.bounds.2
    have := d.extent_pos
    show (Reference.ofOffset j).offset < (Reference.ofOffset k).offset
    rwa [toNat_ofOffset (by omega), toNat_ofOffset (by omega)]
  rwa [← fst_moves o n, List.pairwise_map] at ascending

/-- Moves ascend in the old and in the new references, and none leads forward. -/
theorem moves_pairwise (hno : n ≤ o) (h : ∀ c ∈ cs, c.Sound) (ho : o + extents cs < 4294967296) :
    (∀ m ∈ moves o n cs, o ≤ m.1.offset ∧ n ≤ m.2.offset ∧ m.2.offset ≤ m.1.offset) ∧
      (moves o n cs).Pairwise fun m m' => m.1 < m'.1 ∧ m.2 < m'.2 := by
  induction cs generalizing o n with
  | nil => exact ⟨by simp [moves], .nil⟩
  | cons c cs ih =>
    have need_le := (h c (List.mem_cons_self ..)).need_le
    have extent_pos := c.extent_pos
    have need_pos : 0 < c.need := by rw [← extent_moved 0 c]; exact (c.moved 0).extent_pos
    have sound := fun d hd => h d (List.mem_cons_of_mem c hd)
    rw [extents_cons] at ho
    rw [moves]
    split
    · obtain ⟨above, ascending⟩ := ih (o := o + c.extent) (n := n) (by omega) sound (by omega)
      refine ⟨fun m hm => ?_, ascending⟩
      have := above m hm
      omega
    · obtain ⟨above, ascending⟩ := ih (o := o + c.extent) (n := n + c.need) (by omega) sound (by omega)
      have from_eq := toNat_ofOffset (k := o) (by omega)
      have to_eq := toNat_ofOffset (k := n) (by omega)
      refine ⟨fun m hm => ?_, List.pairwise_cons.2 ⟨fun m hm => ?_, ascending⟩⟩
      · rcases List.mem_cons.1 hm with rfl | hm
        · simp only [from_eq, to_eq]
          omega
        · have := above m hm
          omega
      · have := above m hm
        constructor
        · show (Reference.ofOffset o).offset < m.1.offset
          omega
        · show (Reference.ofOffset n).offset < m.2.offset
          omega

end Cell

open Cell

/-! ### What a compaction has written -/

namespace Compaction

/-- A compaction that has come past some cells behind the start. -/
structure Past (old : Arena) (xs ys : List Cell) (c : Compaction) : Prop where
  /-- behind the settled cells stands the arena as it was before -/
  words_eq : c.arena.words.toList =
    (xs ++ settle old.word (extents xs) ys).flatMap Cell.words ++ old.words.toList.drop c.write
  read_eq : c.read = extents xs + extents ys
  write_eq : c.write = extents xs + extents (settle old.word (extents xs) ys)
  moves_eq : c.moves.toList = Cell.moves (extents xs) (extents xs) ys
  dropped_eq : c.dropped = (ys.filter isGarbage).length
  reclaimed_eq : c.reclaimed = extents (ys.filter isGarbage) * wordBytes
  first_eq : c.firstReducible.isValid = true →
    ∃ d, At (extents xs) (settle old.word (extents xs) ys) c.firstReducible.offset d
  first_least : NoneBefore c.firstReducible (extents xs) (settle old.word (extents xs) ys)

variable {old : Arena} {xs ys zs : List Cell} {d : Cell} {c : Compaction}

namespace Past

/-- How many words are written. -/
theorem length_words (h : Past old xs ys c) :
    ((xs ++ settle old.word (extents xs) ys).flatMap Cell.words).length = c.write := by
  rw [length_flatMap_words, extents_append, h.write_eq]

/-- Nothing is written ahead of what is read. -/
theorem ordered (h : Past old xs ys c) (sound : ∀ d ∈ ys, d.Sound) : c.write ≤ c.read := by
  have := extents_settle_le old.word (extents xs) sound
  rw [h.write_eq, h.read_eq]
  omega

/-- What was written is the arena of the settled cells. -/
theorem compacted_eq (h : Past old xs ys c) :
    c.compacted = .ofCells (xs ++ settle old.word (extents xs) ys) := by
  apply Arena.eq_of_toList
  rw [compacted, Arena.truncate, Array.toList_extract, h.words_eq, List.extract_eq_take_drop, List.drop_zero,
    Nat.sub_zero, ← h.length_words, List.take_left]
  rfl

/-- Where a cell is read, it stands as it stood before. -/
theorem exists_split (h : Past old xs ys c) (hold : old.Tiled (xs ++ (ys ++ d :: zs))) :
    ∃ pre, pre.length = c.read ∧
      c.arena.words.toList = pre ++ (d.words ++ zs.flatMap Cell.words) := by
  have ordered := h.ordered fun e he => hold.sound e (by simp [he])
  have read_eq : ((xs ++ ys).flatMap Cell.words).length = c.read := by
    rw [length_flatMap_words, extents_append, h.read_eq]
  have old_eq : old.words.toList =
      (xs ++ ys).flatMap Cell.words ++ (d.words ++ zs.flatMap Cell.words) := by
    rw [hold.eq, Arena.toList_ofCells]
    simp
  refine ⟨(xs ++ settle old.word (extents xs) ys).flatMap Cell.words ++
    ((xs ++ ys).flatMap Cell.words).drop c.write, ?_, ?_⟩
  · rw [List.length_append, h.length_words, List.length_drop]
    omega
  · rw [h.words_eq, old_eq, List.drop_append_of_le_length (by omega), List.append_assoc]

end Past

/-- A record that is moved stands where it is written, and behind it what stood there before. -/
theorem toList_shift {pre written behind : List UInt32} (sound : d.Sound)
    (length_eq : written.length = c.write) (words_eq : c.arena.words.toList = written ++ behind)
    (place : pre.length = c.read) (split : ∃ post, c.arena.words.toList = pre ++ (d.words ++ post))
    (ordered : c.write ≤ c.read) :
    c.shift.arena.words.toList = written ++ ((d.header.withFlag .shrunken false).words ++
      (d.literals.map Literal.word ++ behind.drop (Header.wordCount + d.literals.length))) := by
  obtain ⟨post, split⟩ := split
  have header_eq : c.arena.header c.read = d.header := place ▸ Arena.header_of_cell split
  have count : (d.header.words ++ d.literals.map Literal.word).length =
      Header.wordCount + d.literals.length := by
    rw [List.length_append, List.length_map]
    rfl
  have shifted_eq : c.shifted.words.toList = written ++ (d.header.words ++
      (d.literals.map Literal.word ++ behind.drop (Header.wordCount + d.literals.length))) := by
    rw [shifted, header_eq, sound.size_eq, ← count, ← List.append_assoc d.header.words]
    split
    next same =>
      -- the record stands where it is written
      have here : written ++ behind = pre ++ (d.words ++ post) := words_eq.symm.trans split
      obtain ⟨rfl, rfl⟩ := List.append_inj here (by omega)
      rw [words_eq, Cell.words, ← List.append_assoc d.header.words, List.append_assoc _ d.rest,
        List.drop_left]
    next =>
      have source : (c.arena.words.extract c.read (c.read + (d.header.words ++
          d.literals.map Literal.word).length)).toList = d.header.words ++ d.literals.map Literal.word := by
        rw [Array.toList_extract, split, List.extract_eq_take_drop, Nat.add_sub_cancel_left, ← place,
          List.drop_left, Cell.words, ← List.append_assoc d.header.words, List.append_assoc _ d.rest,
          List.take_left]
      have room : (d.header.words ++ d.literals.map Literal.word).length ≤ behind.length := by
        have total := congrArg List.length (words_eq.symm.trans split)
        have extent_eq := d.length_words
        simp only [Cell.words, List.length_append] at total extent_eq ⊢
        omega
      have target : c.arena.words.toList = written ++
          (behind.take (d.header.words ++ d.literals.map Literal.word).length ++
            behind.drop (d.header.words ++ d.literals.map Literal.word).length) := by
        rw [words_eq, List.take_append_drop]
      rw [Arena.copyWithin, source, ← length_eq]
      exact Arena.toList_write _ target (by rw [List.length_take]; omega)
  rw [shift, ← length_eq]
  exact Arena.toList_revise _ shifted_eq

/-- The words of a cell after its move, and those behind them. -/
theorem append_moved (old : Arena) (d : Cell) {n : Nat} (inside : n + d.need ≤ old.size) :
    (d.header.withFlag .shrunken false).words ++ (d.literals.map Literal.word ++
        (old.words.toList.drop n).drop (Header.wordCount + d.literals.length)) =
      (d.moved (old.word (n + Header.wordCount + d.literals.length))).words ++
        old.words.toList.drop (n + d.need) := by
  rw [List.drop_drop, ← Nat.add_assoc]
  by_cases even : (Header.wordCount + d.literals.length) % 2 = 0
  · have full : n + d.need = n + Header.wordCount + d.literals.length := by
      rw [need, aligned]
      omega
    simp [Cell.words, Cell.moved, even, full]
  · have full : n + d.need = n + Header.wordCount + d.literals.length + 1 := by
      rw [need, aligned]
      omega
    have there : n + Header.wordCount + d.literals.length < old.words.toList.length := by
      rw [← Arena.size_eq_length]
      omega
    have word_eq : old.word (n + Header.wordCount + d.literals.length) =
        old.words.toList[n + Header.wordCount + d.literals.length] := by
      rw [Arena.word, Array.getD_eq_getD_getElem?, ← Array.getElem?_toList, List.getElem?_eq_getElem there]
      rfl
    rw [List.drop_eq_getElem_cons there, ← word_eq, full]
    simp [Cell.words, Cell.moved, even]

namespace Past

theorem header_eq (h : Past old xs ys c) (hold : old.Tiled (xs ++ (ys ++ d :: zs))) :
    c.arena.header c.read = d.header := by
  obtain ⟨pre, place, split⟩ := h.exists_split hold
  exact place ▸ Arena.header_of_cell split

theorem span_eq (h : Past old xs ys c) (hold : old.Tiled (xs ++ (ys ++ d :: zs))) :
    c.arena.span c.read = d.extent := by
  obtain ⟨pre, place, split⟩ := h.exists_split hold
  exact place ▸ Arena.span_of_cell (hold.sound d (by simp)) split

/-- A garbage cell is left out. -/
theorem skip (h : Past old xs ys c) (hold : old.Tiled (xs ++ (ys ++ d :: zs)))
    (garbage : d.isGarbage = true) : Past old xs (ys ++ [d]) c.skip := by
  have span_eq := h.span_eq hold
  have settle_eq : settle old.word (extents xs) (ys ++ [d]) = settle old.word (extents xs) ys := by
    rw [settle_append, settle, if_pos garbage]
    exact List.append_nil _
  constructor
  case words_eq =>
    rw [settle_eq]
    exact h.words_eq
  case read_eq =>
    rw [Compaction.skip, span_eq, extents_append, h.read_eq, Nat.add_assoc]
    rfl
  case write_eq =>
    rw [settle_eq]
    exact h.write_eq
  case moves_eq =>
    rw [moves_append old.word, Cell.moves, if_pos garbage]
    exact h.moves_eq.trans (List.append_nil _).symm
  case dropped_eq => simp [Compaction.skip, garbage, h.dropped_eq]
  case reclaimed_eq =>
    rw [Compaction.skip, span_eq, h.reclaimed_eq]
    simp [garbage, Nat.add_mul]
  case first_eq =>
    rw [settle_eq]
    exact h.first_eq
  case first_least =>
    rw [settle_eq]
    exact h.first_least

/-- A live cell is moved to where it is written. -/
theorem shift (h : Past old xs ys c) (hold : old.Tiled (xs ++ (ys ++ d :: zs)))
    (hsize : extents (xs ++ (ys ++ d :: zs)) < 4294967296) (live : d.isGarbage = false) :
    Past old xs (ys ++ [d]) c.shift := by
  have sound_d : d.Sound := hold.sound d (by simp)
  have ordered := h.ordered fun e he => hold.sound e (by simp [he])
  have write_eq := h.write_eq
  have read_eq := h.read_eq
  have span_eq := h.span_eq hold
  have header_eq := h.header_eq hold
  have written_eq : c.shift.write = c.write + d.need := by
    rw [Compaction.shift, header_eq, sound_d.size_eq]
    rfl
  have inside : c.write + d.extent ≤ extents (xs ++ (ys ++ d :: zs)) := by
    simp only [extents_append, extents_cons]
    omega
  have short : c.write < 4294967295 := by
    have := d.extent_pos
    omega
  have room : c.write + d.need ≤ old.size := by
    have := sound_d.need_le
    rw [hold.size_eq]
    omega
  obtain ⟨pre, place, split⟩ := h.exists_split hold
  -- the cell that stands there now
  generalize e_eq : d.moved (old.word (c.write + Header.wordCount + d.literals.length)) = e
  have settle_eq : settle old.word (extents xs) (ys ++ [d]) = settle old.word (extents xs) ys ++ [e] := by
    rw [settle_append, settle, if_neg (by simp [live]), ← write_eq, ← e_eq]
    rfl
  have extent_eq : e.extent = d.need := e_eq ▸ extent_moved ..
  constructor
  case words_eq =>
    rw [settle_eq, ← List.append_assoc, List.flatMap_append, List.append_assoc, written_eq,
      toList_shift sound_d h.length_words h.words_eq place ⟨_, split⟩ ordered, append_moved old d room,
      e_eq]
    simp
  case read_eq =>
    rw [Compaction.shift, span_eq, extents_append, read_eq, Nat.add_assoc]
    rfl
  case write_eq =>
    rw [written_eq, settle_eq, extents_append, extents_cons, extent_eq, write_eq, Nat.add_assoc]
    rfl
  case moves_eq =>
    rw [moves_append old.word, Cell.moves, if_neg (by simp [live]), ← write_eq, ← read_eq,
      Compaction.shift, Array.toList_push, h.moves_eq]
    rfl
  case dropped_eq => simp [Compaction.shift, live, h.dropped_eq]
  case reclaimed_eq => simp [Compaction.shift, live, h.reclaimed_eq]
  case first_eq =>
    rw [settle_eq, Compaction.shift, header_eq]
    intro valid
    by_cases opens : (d.header.flags.redundant && !d.header.flags.keep && !c.firstReducible.isValid) = true
    · rw [if_pos opens, toNat_ofOffset (Nat.lt_succ_of_lt short)]
      exact ⟨e, _, [], rfl, write_eq⟩
    · rw [if_neg opens] at valid ⊢
      obtain ⟨first, placed⟩ := h.first_eq valid
      exact ⟨first, at_append.2 (.inl placed)⟩
  case first_least =>
    have next := h.first_least.snoc (d := e) (write_eq ▸ short) fun valid => by
      obtain ⟨_, place⟩ := h.first_eq valid
      have := place.bounds.2
      omega
    rw [← e_eq, isReducible_moved, isReducible_of_live (by simp [live]), ← write_eq, e_eq] at next
    rw [settle_eq, Compaction.shift, header_eq]
    exact next

/-- The step over one more cell. -/
theorem step (hold : old.Tiled (xs ++ (ys ++ d :: zs)))
    (hsize : extents (xs ++ (ys ++ d :: zs)) < 4294967296) (h : Past old xs ys c) :
    Past old xs (ys ++ [d]) c.step := by
  rw [Compaction.step, h.header_eq hold]
  split
  next garbage => exact h.skip hold garbage
  next live => exact h.shift hold hsize (Bool.eq_false_iff.2 live)

end Past

/-- A run ends behind the last cell. -/
theorem Past.run_nil (h : Past old xs ys c) (hold : old.Tiled (xs ++ (ys ++ [])))
    (size_eq : c.arena.size = old.size) : c.run = (c, true) := by
  rw [Compaction.run, if_neg (by rw [size_eq, hold.size_eq, h.read_eq]; simp)]

/-- A run begins with the step over the next cell. -/
theorem Past.run_cons (h : Past old xs ys c) (hold : old.Tiled (xs ++ (ys ++ d :: zs)))
    (size_eq : c.arena.size = old.size) : c.run = c.step.run := by
  have at_d : At 0 (xs ++ (ys ++ d :: zs)) c.read d := ⟨xs ++ ys, zs, by simp, by simp [h.read_eq]⟩
  have resolves : c.arena.resolves c.read = true := by
    rw [Arena.resolves, size_eq]
    exact hold.resolves_eq at_d
  have inside : c.read < c.arena.size := by
    have := at_d.bounds.2
    have := d.extent_pos
    rw [size_eq, hold.size_eq]
    omega
  rw [Compaction.run, if_pos inside, if_pos resolves]

/-- The run over all cells behind the start. -/
theorem Past.run (hold : old.Tiled (xs ++ (ys ++ zs))) (hsize : extents (xs ++ (ys ++ zs)) < 4294967296)
    (h : Past old xs ys c) (size_eq : c.arena.size = old.size) : Past old xs (ys ++ zs) c.run.1 := by
  induction zs generalizing ys c with
  | nil =>
    rw [h.run_nil hold size_eq]
    simpa using h
  | cons d zs ih =>
    rw [h.run_cons hold size_eq]
    have hold' : old.Tiled (xs ++ ((ys ++ [d]) ++ zs)) := by simpa using hold
    have next := ih hold' (by simpa using hsize) (h.step hold hsize) (c.size_step.trans size_eq)
    simpa using next

theorem past_start (hold : old.Tiled (xs ++ ys)) : Past old xs [] (.ofStart old (extents xs)) := by
  refine ⟨?_, rfl, rfl, rfl, rfl, rfl, fun h => absurd h Bool.false_ne_true, fun _ _ h => absurd h not_at_nil⟩
  have before : old.words.toList.take (extents xs) = xs.flatMap Cell.words := by
    rw [hold.eq, Arena.toList_ofCells, List.flatMap_append, ← length_flatMap_words xs, List.take_left]
  rw [settle, List.append_nil, ← before]
  exact (List.take_append_drop ..).symm

end Compaction

end ClauseStore
