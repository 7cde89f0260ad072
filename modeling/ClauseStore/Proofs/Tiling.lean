import ClauseStore.Proofs.Allocation
import ClauseStore.Proofs.Cell

/-!
The arena as a row of cells. An arena that was laid out from sound cells reads back as those cells: a
header, the literals and the span of a record are those of the cell that starts there, and a walk
visits the cells in order and ends where the arena ends. Every write that the database makes leaves
such an arena: a revision of a header, the shortening of a clause, and a record put behind the others.
-/

namespace ClauseStore

open Cell

@[simp] theorem Header.length_words (h : Header) : h.words.length = wordCount := rfl

namespace Arena

/-- The arena of a row of cells, one behind the other. -/
def ofCells (cs : List Cell) : Arena := ⟨(cs.flatMap Cell.words).toArray⟩

/-- An arena that consists of sound cells. -/
structure Tiled (a : Arena) (cs : List Cell) : Prop where
  eq : a = ofCells cs
  sound : ∀ c ∈ cs, c.Sound

variable {a : Arena} {cs : List Cell} {c : Cell} {k : Nat} {pre mid post ws : List UInt32}

/-! ### Lists of words -/

theorem eq_of_toList {b : Arena} (h : a.words.toList = b.words.toList) : a = b := by
  cases a
  cases b
  exact congrArg mk (Array.toList_inj.1 h)

theorem size_eq_length (a : Arena) : a.size = a.words.toList.length := (Array.length_toList).symm

/-- Words are read where they were put, behind others. -/
theorem word_append (h : a.words.toList = pre ++ post) (i : Nat) :
    a.word (pre.length + i) = post.getD i 0 := by
  have : a.words[pre.length + i]? = post[i]? := by
    rw [← Array.getElem?_toList, h, List.getElem?_append_right (Nat.le_add_right ..),
      Nat.add_sub_cancel_left]
  rw [word, Array.getD_eq_getD_getElem?, this, List.getD_eq_getElem?_getD]

/-- A write replaces as many words as it has. -/
theorem toList_write (ws : List UInt32) (h : a.words.toList = pre ++ (mid ++ post))
    (hlen : ws.length = mid.length) :
    (a.write pre.length ws).words.toList = pre ++ (ws ++ post) := by
  induction ws generalizing a pre mid with
  | nil => rw [write, h, List.eq_nil_of_length_eq_zero hlen.symm]
  | cons w ws ih =>
    obtain ⟨m, ms, rfl⟩ := List.exists_cons_of_length_eq_add_one hlen.symm
    have hset : (⟨a.words.setIfInBounds pre.length w⟩ : Arena).words.toList =
        (pre ++ [w]) ++ (ms ++ post) := by
      rw [Array.toList_setIfInBounds, h]
      simp
    have step := ih hset (by simpa using hlen)
    rw [List.length_append, List.length_singleton] at step
    rw [write, step]
    simp

/-- A header is read where its words stand. -/
theorem header_of_toList {h : Header} (ha : a.words.toList = pre ++ (h.words ++ post)) :
    a.header pre.length = h := by
  have words_eq : a.header pre.length = Header.ofWords fun i => h.words.getD i 0 := by
    refine Header.ofWords_congr fun i hi => ?_
    rw [word_append ha, List.getD_eq_getElem?_getD, List.getD_eq_getElem?_getD,
      List.getElem?_append_left (by rw [Header.length_words]; exact hi)]
  rw [words_eq, Header.ofWords_words]

/-- A header is revised where its words stand. -/
theorem toList_revise {h : Header} (f : Header → Header)
    (ha : a.words.toList = pre ++ (h.words ++ post)) :
    (a.revise pre.length f).words.toList = pre ++ ((f h).words ++ post) := by
  rw [revise, header_of_toList ha, setHeader]
  exact toList_write _ ha ((f h).length_words.trans h.length_words.symm)

/-- Counting stops where the sentinel stands behind others. -/
theorem runLength_append (h : a.words.toList = pre ++ post) :
    a.runLength pre.length = (post.takeWhile fun w => w != sentinel).length := by
  have size_eq : a.words.size = pre.length + post.length := by
    rw [← Array.length_toList, h, List.length_append]
  induction post generalizing pre with
  | nil => rw [runLength, dif_neg (by simp [size_eq])]; rfl
  | cons w ws ih =>
    have hlt : pre.length < a.words.size := by simp [size_eq]
    have get_eq : a.words[pre.length] = w := by
      have : a.words[pre.length]? = some w := by rw [← Array.getElem?_toList, h]; simp
      simpa [Array.getElem?_eq_getElem hlt] using this
    rw [runLength, dif_pos hlt, get_eq]
    by_cases hw : w = sentinel
    · simp [hw]
    · have := @ih (pre ++ [w]) (by simp [h]) (by simp [size_eq]; omega)
      rw [List.length_append, List.length_singleton] at this
      simp [hw, this]

/-- Counting up to the sentinel does not go past a list that holds it. -/
theorem takeWhile_append_of_mem (h : sentinel ∈ pre) :
    (pre ++ post).takeWhile (fun w => w != sentinel) = pre.takeWhile fun w => w != sentinel := by
  induction pre with
  | nil => simp at h
  | cons w ws ih =>
    rw [List.cons_append, List.takeWhile_cons, List.takeWhile_cons]
    by_cases hw : w = sentinel
    · simp [hw]
    · rw [ih ((List.mem_cons.1 h).resolve_left (Ne.symm hw))]

/-- A header is read where its cell stands. -/
theorem header_of_cell (ha : a.words.toList = pre ++ (c.words ++ post)) : a.header pre.length = c.header :=
  header_of_toList (ha.trans (congrArg (pre ++ ·) (List.append_assoc ..)))

/-- The words of literals are read where their cell stands. -/
theorem literalWords_of_cell (sound : c.Sound) (ha : a.words.toList = pre ++ (c.words ++ post)) :
    (a.literalWords pre.length).toList = c.literals.map Literal.word := by
  have count : Header.wordCount = c.header.words.length := rfl
  rw [literalWords, header_of_cell ha, sound.size_eq, Array.toList_extract, ha, List.extract_eq_take_drop,
    Nat.add_sub_cancel_left, count, ← List.drop_drop, List.drop_left, Cell.words, List.append_assoc,
    List.drop_left, List.append_assoc]
  exact List.take_left' (by simp)

/-- A span is read where its cell stands, whatever stands behind it. -/
theorem span_of_cell (sound : c.Sound) (ha : a.words.toList = pre ++ (c.words ++ post)) :
    a.span pre.length = c.extent := by
  rw [span, header_of_cell ha, sound.extent_eq, Cell.room]
  simp only [sound.size_eq]
  split
  next shrunken =>
    have split_eq : a.words.toList =
        (pre ++ (c.header.words ++ c.literals.map Literal.word)) ++ (c.rest ++ post) := by
      rw [ha, Cell.words]
      simp
    have length_eq : (pre ++ (c.header.words ++ c.literals.map Literal.word)).length =
        pre.length + (Header.wordCount + c.literals.length) := by
      rw [List.length_append, List.length_append, List.length_map]
      rfl
    have run_eq := runLength_append split_eq
    rw [length_eq, takeWhile_append_of_mem (sound.closed shrunken)] at run_eq
    rw [run_eq, Nat.add_assoc, Nat.add_assoc]
    rfl
  next => rfl

theorem toList_ofCells (cs : List Cell) : (ofCells cs).words.toList = cs.flatMap Cell.words := rfl

theorem size_ofCells (cs : List Cell) : (ofCells cs).size = extents cs := by
  rw [size_eq_length, toList_ofCells, length_flatMap_words]

/-- The words of a row, split around those of one of its cells. -/
theorem toList_ofCells_append (xs : List Cell) (c : Cell) (ys : List Cell) :
    (ofCells (xs ++ c :: ys)).words.toList = xs.flatMap Cell.words ++ (c.header.words ++
      (c.literals.map Literal.word ++ (c.rest ++ ys.flatMap Cell.words))) := by
  rw [toList_ofCells]
  simp [Cell.words]

/-! ### Reading -/

namespace Tiled

theorem size_eq (h : a.Tiled cs) : a.size = extents cs := by rw [h.eq, size_ofCells]

theorem sound_at (h : a.Tiled cs) (hc : At 0 cs k c) : c.Sound := h.sound c hc.mem

/-- The words of the arena, split around those of a cell. -/
theorem exists_split (h : a.Tiled cs) (hc : At 0 cs k c) :
    ∃ pre post, pre.length = k ∧ a.words.toList = pre ++ (c.words ++ post) := by
  obtain ⟨xs, ys, rfl, rfl⟩ := hc
  refine ⟨xs.flatMap Cell.words, ys.flatMap Cell.words, ?_, ?_⟩
  · rw [length_flatMap_words, Nat.zero_add]
  · rw [h.eq, toList_ofCells, List.flatMap_append, List.flatMap_cons]

/-- The header of a cell is read at its start. -/
theorem header_eq (h : a.Tiled cs) (hc : At 0 cs k c) : a.header k = c.header := by
  obtain ⟨pre, post, rfl, ha⟩ := h.exists_split hc
  exact header_of_cell ha

/-- The words of the literals of a cell are read at its start. -/
theorem literalWords_eq (h : a.Tiled cs) (hc : At 0 cs k c) :
    (a.literalWords k).toList = c.literals.map Literal.word := by
  obtain ⟨pre, post, rfl, ha⟩ := h.exists_split hc
  exact literalWords_of_cell (h.sound_at hc) ha

/-- The literals of a cell are read at its start. -/
theorem literals_eq (h : a.Tiled cs) (hc : At 0 cs k c) : a.literals k = c.literals := by
  rw [literals, h.literalWords_eq hc, List.map_map]
  exact List.map_id'' (fun l => Literal.ofWord_word l) _

/-- The span of a record is the extent of its cell, whatever stands behind it. -/
theorem span_eq (h : a.Tiled cs) (hc : At 0 cs k c) : a.span k = c.extent := by
  obtain ⟨pre, post, rfl, ha⟩ := h.exists_split hc
  exact span_of_cell (h.sound_at hc) ha

theorem record_eq (h : a.Tiled cs) (hc : At 0 cs k c) :
    a.record k = ⟨c.header, c.literals, c.extent⟩ := by
  rw [record, h.header_eq hc, h.literals_eq hc, h.span_eq hc]

theorem extents_even {xs : List Cell} (h : ∀ c ∈ xs, c.Sound) : extents xs % 2 = 0 := by
  induction xs with
  | nil => rfl
  | cons c cs ih =>
    have := (h c (by simp)).even
    have := ih fun d hd => h d (by simp [hd])
    rw [extents_cons]
    omega

/-- A header fits where a cell starts. -/
theorem resolves_eq (h : a.Tiled cs) (hc : At 0 cs k c) : a.resolves k = true := by
  have := hc.bounds.2
  have := c.wordCount_le_extent
  obtain ⟨xs, ys, rfl, rfl⟩ := hc
  have := extents_even fun d hd => h.sound d (List.mem_append_left (c :: ys) hd)
  simp only [resolves, h.size_eq, alignment, Bool.and_eq_true, beq_iff_eq, decide_eq_true_eq]
  omega

/-- A walk from the start of a cell visits the cells from there on, up to the end of the arena. -/
theorem walkFrom_eq (xs : List Cell) {ys : List Cell} (h : a.Tiled (xs ++ ys)) :
    a.walkFrom (extents xs) = (offsets (extents xs) ys, true) := by
  induction ys generalizing xs with
  | nil => rw [walkFrom, if_neg (by simp [h.size_eq])]; rfl
  | cons c cs ih =>
    have step := ih (xs ++ [c]) (by simpa using h)
    rw [extents_append, extents_cons, extents_nil, Nat.add_zero] at step
    have hc : At 0 (xs ++ c :: cs) (extents xs) c := ⟨xs, cs, rfl, by simp⟩
    have inside : extents xs < a.size := by
      have := c.extent_pos
      rw [h.size_eq, extents_append, extents_cons]
      omega
    rw [walkFrom, if_pos inside, if_pos (h.resolves_eq hc), h.span_eq hc, step]
    rfl

/-- A walk through the whole arena visits every cell. -/
theorem walkFrom_zero (h : a.Tiled cs) : a.walkFrom 0 = (offsets 0 cs, true) :=
  walkFrom_eq [] h

/-- The references to cells are those that a walk visits. -/
theorem mem_walk (h : a.Tiled cs) : k ∈ (a.walkFrom 0).1 ↔ ∃ c, At 0 cs k c := by
  rw [h.walkFrom_zero, mem_offsets]

/-- A reference to a cell stands for the start of the cell. -/
theorem resolve?_eq (h : a.Tiled cs) (hsize : a.size < Reference.invalid.offset) {r : Reference}
    (hc : At 0 cs r.offset c) : a.resolve? r = some r.offset := by
  have valid : r.isValid = true := by
    have := hc.bounds.2
    have := c.extent_pos
    rw [h.size_eq] at hsize
    simp only [Reference.isValid, bne_iff_ne, ne_eq]
    rintro rfl
    omega
  rw [resolve?, valid, h.resolves_eq hc]
  rfl

end Tiled

/-! ### Writing -/

/-- Revises the header at one place. -/
def only (k : Nat) (f : Header → Header) (i : Nat) : Header → Header := if i = k then f else id

theorem mapAt_only {xs ys : List Cell} (f : Header → Header) :
    mapAt (only (extents xs) f) 0 (xs ++ c :: ys) = xs ++ c.revised f :: ys := by
  rw [mapAt_append, mapAt_cons, Nat.zero_add, only, if_pos rfl, mapAt_self, mapAt_self]
  · intro k d hd
    have := hd.bounds.1
    have := c.extent_pos
    rw [only, if_neg (by omega), id]
  · intro k d hd
    have := hd.bounds.2
    have := d.extent_pos
    rw [only, if_neg (by omega), id]

/-- A revision of a header revises the cell that starts there. -/
theorem revise_ofCells (hc : At 0 cs k c) (f : Header → Header) :
    (ofCells cs).revise k f = ofCells (mapAt (only k f) 0 cs) := by
  obtain ⟨xs, ys, rfl, rfl⟩ := hc
  rw [Nat.zero_add, mapAt_only]
  apply eq_of_toList
  rw [← length_flatMap_words]
  have := toList_revise f (toList_ofCells_append xs c ys)
  rw [this, toList_ofCells_append]
  rfl

end Arena

namespace Cell

/-- A cell whose clause is shortened to its first literals. The first time, the sentinel takes the
place of the last literal. -/
def shrunk (n : Nat) (c : Cell) : Cell where
  header := { c.header.withFlag .shrunken true with size := UInt32.ofNat n }
  literals := c.literals.take n
  rest :=
    if c.header.flags.shrunken then (c.literals.drop n).map Literal.word ++ c.rest
    else (c.literals.drop n).dropLast.map Literal.word ++ sentinel :: c.rest

/-- A cell put behind the others: its literals, filled up with zero words. -/
def fresh (h : Header) (ls : Clause) : Cell where
  header := { h with size := UInt32.ofNat ls.length }
  literals := ls
  rest := List.replicate (aligned (Header.wordCount + ls.length) - (Header.wordCount + ls.length)) 0

variable {c : Cell} {n : Nat}

theorem extent_shrunk (c : Cell) (hn : n < c.literals.length) : (c.shrunk n).extent = c.extent := by
  simp only [shrunk, extent, List.length_take]
  split
  · simp only [List.length_append, List.length_map, List.length_drop]
    omega
  · simp only [List.length_append, List.length_map, List.length_dropLast, List.length_drop,
      List.length_cons]
    omega

/-- A clause shortened in place keeps its room. -/
theorem Sound.room_shrunk (h : c.Sound) (hn : n < c.literals.length) :
    (c.shrunk n).room = c.room := by
  have literals_ne : ∀ w ∈ (c.literals.drop n).map Literal.word, w ≠ sentinel := by
    simp only [List.mem_map]
    rintro w ⟨l, hl, rfl⟩
    exact h.literals_ne l (List.mem_of_mem_drop hl)
  simp only [room, shrunk, Header.withFlag, Flags.set, if_true, List.length_take]
  split
  · have all_ne : ∀ w ∈ (c.literals.drop n).map Literal.word, (w != sentinel) = true := by
      simpa using literals_ne
    rw [List.takeWhile_append_of_pos all_ne]
    simp only [List.length_append, List.length_map, List.length_drop]
    omega
  · have all_ne : ∀ w ∈ (c.literals.drop n).dropLast.map Literal.word, (w != sentinel) = true := by
      intro w hw
      obtain ⟨l, hl, rfl⟩ := List.mem_map.1 hw
      simpa using literals_ne _ (List.mem_map.2 ⟨l, List.dropLast_subset _ hl, rfl⟩)
    rw [List.takeWhile_append_of_pos all_ne]
    simp only [List.takeWhile_cons, bne_self_eq_false, Bool.false_eq_true, if_false,
      List.append_nil, List.length_map, List.length_dropLast, List.length_drop]
    omega

theorem Sound.shrunk (h : c.Sound) (hlong : 2 < n) (hn : n < c.literals.length)  :
    (c.shrunk n).Sound := by
  have hsize := c.header.size.toNat_lt
  have hfits := h.size_eq
  constructor
  case size_eq =>
    simp only [Cell.shrunk, List.length_take, UInt32.toNat_ofNat']
    omega
  case long =>
    simp only [Cell.shrunk, List.length_take]
    omega
  case literals_ne =>
    intro l hl
    exact h.literals_ne l (List.mem_of_mem_take hl)
  case closed =>
    intro _
    simp only [Cell.shrunk]
    split
    next shrunken => exact List.mem_append_right _ (h.closed shrunken)
    next => simp
  case extent_eq => rw [extent_shrunk c hn, h.room_shrunk hn, h.extent_eq]

theorem fresh_sound (h : Header) {ls : Clause} (hlong : 2 < ls.length)
    (hsize : ls.length < 4294967296) (hne : ∀ l ∈ ls, l.word ≠ sentinel)
    (hflag : h.flags.shrunken = false) : (fresh h ls).Sound := by
  have room_eq : (fresh h ls).room = ls.length := by
    simp only [room, fresh, hflag, Bool.false_eq_true, if_false]
  refine ⟨?_, hlong, hne, ?_, ?_⟩
  · simp only [fresh, UInt32.toNat_ofNat']
    omega
  · simp [fresh, hflag]
  · rw [room_eq, extent]
    simp only [fresh, List.length_replicate, aligned]
    omega

end Cell

namespace Arena

variable {a : Arena} {cs : List Cell} {c : Cell} {k : Nat}

/-- Shortening a clause in place shortens the cell that starts there. -/
theorem shrink_ofCells {xs ys : List Cell} {n : UInt32} (sound : c.Sound)
    (hn : n.toNat < c.literals.length) :
    (ofCells (xs ++ c :: ys)).shrink (extents xs) n = ofCells (xs ++ c.shrunk n.toNat :: ys) := by
  have words_eq := toList_ofCells_append xs c ys
  have header_eq := header_of_toList words_eq
  rw [length_flatMap_words] at header_eq
  apply eq_of_toList
  rw [toList_ofCells_append, shrink]
  simp only [header_eq, sound.size_eq]
  split
  next shrunken =>
    rw [← length_flatMap_words, toList_revise _ words_eq]
    simp only [Cell.shrunk, shrunken, if_true, UInt32.ofNat_toNat]
    rw [List.append_assoc, ← List.append_assoc ((c.literals.take _).map _), ← List.map_append,
      List.take_append_drop]
  next intact =>
    have last : c.literals.drop n.toNat ≠ [] := by
      simp only [ne_eq, List.drop_eq_nil_iff]
      omega
    have literals_split : c.literals = (c.literals.take n.toNat ++ (c.literals.drop n.toNat).dropLast)
        ++ [(c.literals.drop n.toNat).getLast last] := by
      rw [List.append_assoc, List.dropLast_concat_getLast, List.take_append_drop]
    have around : (ofCells (xs ++ c :: ys)).words.toList =
        (xs.flatMap Cell.words ++ (c.header.words ++ (c.literals.take n.toNat ++
          (c.literals.drop n.toNat).dropLast).map Literal.word)) ++
          ([((c.literals.drop n.toNat).getLast last).word] ++ (c.rest ++ ys.flatMap Cell.words)) := by
      conv => lhs; rw [words_eq]; rw [literals_split]
      simp
    have marked := toList_write [sentinel] around rfl
    have length_eq : (xs.flatMap Cell.words ++ (c.header.words ++ (c.literals.take n.toNat ++
          (c.literals.drop n.toNat).dropLast).map Literal.word)).length =
        extents xs + Header.wordCount + c.literals.length - 1 := by
      simp only [List.length_append, length_flatMap_words, List.length_map, List.length_take,
        List.length_dropLast, List.length_drop, Header.length_words]
      omega
    rw [length_eq] at marked
    rw [← length_flatMap_words, toList_revise _ (h := c.header) (by
      rw [length_flatMap_words, marked, List.append_assoc, List.append_assoc])]
    simp [Cell.shrunk, intact]

/-- A record written into zero words behind a row of cells is a fresh cell. -/
theorem append_ofCells (cs : List Cell) (h : Header) (ls : Clause) :
    ((⟨(ofCells cs).words ++ Array.replicate (aligned (Header.wordCount + ls.length)) 0⟩ : Arena)
      |>.setHeader (extents cs) h |>.writeLiterals (extents cs) ls) =
        ofCells (cs ++ [Cell.fresh h ls]) := by
  have zeros : List.replicate (aligned (Header.wordCount + ls.length)) (0 : UInt32) =
      List.replicate Header.wordCount 0 ++ (List.replicate ls.length 0 ++ List.replicate
        (aligned (Header.wordCount + ls.length) - (Header.wordCount + ls.length)) 0) := by
    rw [List.replicate_append_replicate, List.replicate_append_replicate]
    congr 1
    simp only [aligned]
    omega
  have room : (⟨(ofCells cs).words ++ Array.replicate (aligned (Header.wordCount + ls.length)) 0⟩ :
      Arena).words.toList = cs.flatMap Cell.words ++ (List.replicate Header.wordCount 0 ++
        (List.replicate ls.length 0 ++ List.replicate
          (aligned (Header.wordCount + ls.length) - (Header.wordCount + ls.length)) 0)) := by
    rw [Array.toList_append, toList_ofCells, Array.toList_replicate, zeros]
  have header_eq := toList_write h.words room (by simp)
  have size_eq := toList_revise (fun h => { h with size := UInt32.ofNat ls.length }) header_eq
  rw [← List.append_assoc] at size_eq
  have literals_eq := toList_write (ls.map Literal.word) size_eq (by simp)
  rw [List.length_append, length_flatMap_words, Header.length_words] at literals_eq
  apply eq_of_toList
  rw [writeLiterals, setHeader, ← length_flatMap_words] at *
  rw [literals_eq, toList_ofCells]
  simp [Cell.fresh, Cell.words]

end Arena

end ClauseStore
