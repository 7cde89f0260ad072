import ClauseStore.Arena.Compaction

/-!
Compaction within one array of words. What is written never reaches what is still to be read, since a
record takes no more words where it is written than where it was read. So behind the place that is
written on stands the arena as it was before, and the records that are read are those that a walk through
it would visit. This is so of every arena, also of one whose words are not records.
-/

namespace ClauseStore

namespace Arena

/-- From a place on, two arenas have the same words. -/
structure AgreesFrom (n : Nat) (a b : Arena) : Prop where
  size_eq : a.size = b.size
  word_eq : ∀ i, n ≤ i → a.word i = b.word i

variable {a b : Arena} {n o : Nat}

theorem AgreesFrom.refl (n : Nat) (a : Arena) : a.AgreesFrom n a := ⟨rfl, fun _ _ => rfl⟩

theorem AgreesFrom.trans {c : Arena} {m : Nat} (h : a.AgreesFrom n b) (h' : b.AgreesFrom m c) (le : m ≤ n) :
    a.AgreesFrom n c :=
  ⟨h.size_eq.trans h'.size_eq, fun i hi => (h.word_eq i hi).trans (h'.word_eq i (Nat.le_trans le hi))⟩

section Reading

variable (h : a.AgreesFrom n b) (behind : n ≤ o)
include h behind

theorem AgreesFrom.header_eq : a.header o = b.header o :=
  Header.ofWords_congr fun _ _ => h.word_eq _ (Nat.le_trans behind (Nat.le_add_right ..))

theorem AgreesFrom.getElem_eq (inside : o < a.words.size) (inside' : o < b.words.size) :
    a.words[o] = b.words[o] := by
  have word_eq := h.word_eq o behind
  rwa [word, word, Array.getD_eq_getD_getElem?, Array.getD_eq_getD_getElem?,
    Array.getElem?_eq_getElem inside, Array.getElem?_eq_getElem inside'] at word_eq

theorem AgreesFrom.runLength_eq : a.runLength o = b.runLength o := by
  fun_induction runLength a o with
  | case1 o inside stops =>
    have inside' : o < b.words.size := Nat.lt_of_lt_of_eq inside h.size_eq
    rw [runLength, dif_pos inside', ← h.getElem_eq behind inside inside', if_pos stops]
  | case2 o inside goes ih =>
    have inside' : o < b.words.size := Nat.lt_of_lt_of_eq inside h.size_eq
    rw [ih (Nat.le_succ_of_le behind), runLength.eq_def b o, dif_pos inside',
      ← h.getElem_eq behind inside inside', if_neg goes]
  | case3 o outside =>
    have outside' : ¬ o < b.words.size := fun inside' => outside (Nat.lt_of_lt_of_eq inside' h.size_eq.symm)
    rw [runLength, dif_neg outside']

theorem AgreesFrom.span_eq : a.span o = b.span o := by
  rw [span, span, h.header_eq behind, h.runLength_eq (by omega)]

omit behind in
theorem AgreesFrom.resolves_eq : a.resolves o = b.resolves o := by rw [resolves, resolves, h.size_eq]

theorem AgreesFrom.walkFrom_eq : a.walkFrom o = b.walkFrom o := by
  fun_induction walkFrom a o with
  | case1 o inside fits rest ih =>
    rw [walkFrom.eq_def b o, if_pos (h.size_eq ▸ inside), if_pos (h.resolves_eq ▸ fits), ← h.span_eq behind,
      ← ih (Nat.le_trans behind (Nat.le_add_right ..))]
  | case2 o inside lost => rw [walkFrom, if_pos (h.size_eq ▸ inside), if_neg (h.resolves_eq ▸ lost)]
  | case3 o outside => rw [walkFrom, if_neg (h.size_eq ▸ outside)]

end Reading

/-! ### What is written -/

/-- A record has room for its literals. -/
theorem aligned_le_span (a : Arena) (o : Nat) :
    aligned (Header.wordCount + (a.header o).size.toNat) ≤ a.span o := by
  rw [span]
  split
  · simp only [aligned]
    omega
  · exact Nat.le_refl _

/-- A copy changes no word but those of the stretch it is copied to. -/
theorem word_copyWithin {source count target i : Nat} (outside : i < target ∨ target + count ≤ i) :
    (a.copyWithin source count target).word i = a.word i := by
  have few : (a.words.extract source (source + count)).toList.length ≤ count := by
    rw [Array.length_toList, Array.size_extract]
    omega
  rw [copyWithin, word_write, if_neg (by omega)]

/-- A revision changes no word but those of its header. -/
theorem word_revise {i : Nat} (f : Header → Header) (outside : i < o ∨ o + Header.wordCount ≤ i) :
    (a.revise o f).word i = a.word i := by
  have count : (f (a.header o)).words.length = Header.wordCount := rfl
  rw [revise, setHeader, word_write, if_neg (by omega)]

end Arena

namespace Compaction

/-- What a compaction does from one point of its way to a later one: it goes on writing behind what it
has written, and not ahead of what it reads. No word changes but those that it writes. -/
structure Goes (c c' : Compaction) : Prop where
  ordered : c'.write ≤ c'.read
  onward : c.write ≤ c'.write
  word_eq : ∀ i, i < c.write → c'.arena.word i = c.arena.word i
  agrees : c'.arena.AgreesFrom c'.write c.arena

variable {c c' c'' : Compaction}

theorem Goes.refl (ordered : c.write ≤ c.read) : c.Goes c :=
  ⟨ordered, Nat.le_refl _, fun _ _ => rfl, .refl _ _⟩

theorem Goes.trans (h : c.Goes c') (h' : c'.Goes c'') : c.Goes c'' where
  ordered := h'.ordered
  onward := Nat.le_trans h.onward h'.onward
  word_eq i hi := (h'.word_eq i (Nat.lt_of_lt_of_le hi h.onward)).trans (h.word_eq i hi)
  agrees := h'.agrees.trans h.agrees h'.onward

/-- The step over one record. -/
theorem goes_step (ordered : c.write ≤ c.read) : c.Goes c.step := by
  have size_eq := c.size_step
  rw [step] at size_eq ⊢
  split at size_eq
  next garbage =>
    rw [if_pos garbage]
    exact ⟨Nat.le_trans ordered (Nat.le_add_right ..), Nat.le_refl _, fun _ _ => rfl, .refl _ _⟩
  next live =>
    rw [if_neg live]
    have shorter := c.arena.aligned_le_span c.read
    have count_le : Header.wordCount + (c.arena.header c.read).size.toNat ≤
        aligned (Header.wordCount + (c.arena.header c.read).size.toNat) := by
      rw [aligned]
      omega
    have outside : ∀ i, i < c.write ∨ c.write + aligned (Header.wordCount +
        (c.arena.header c.read).size.toNat) ≤ i → c.shift.arena.word i = c.arena.word i := by
      intro i hi
      have shifted_eq : c.shifted.word i = c.arena.word i := by
        rw [shifted]
        split
        · rfl
        · exact Arena.word_copyWithin (by omega)
      rw [← shifted_eq]
      exact Arena.word_revise _ (by omega)
    exact ⟨Nat.add_le_add ordered shorter, Nat.le_add_right .., fun i hi => outside i (.inl hi),
      size_eq, fun i hi => outside i (.inr hi)⟩

/-- The run over all records from the place on that is read. -/
theorem goes_run (ordered : c.write ≤ c.read) : c.Goes c.run.1 := by
  fun_induction run c with
  | case1 c inside resolves ih =>
    have step := goes_step ordered
    exact step.trans (ih step.ordered)
  | case2 => exact .refl ordered
  | case3 => exact .refl ordered

/-- The run comes to the end where a walk through the arena before it does. -/
theorem snd_run (ordered : c.write ≤ c.read) : c.run.2 = (c.arena.walkFrom c.read).2 := by
  fun_induction run c with
  | case1 c inside resolves ih =>
    have step := goes_step ordered
    have rest := step.agrees.walkFrom_eq step.ordered
    rw [ih step.ordered, rest, read_step, Arena.walkFrom.eq_def c.arena c.read, if_pos inside,
      if_pos resolves]
  | case2 c inside lost => rw [Arena.walkFrom, if_pos inside, if_neg lost]
  | case3 c outside => rw [Arena.walkFrom, if_neg outside]

end Compaction

end ClauseStore
