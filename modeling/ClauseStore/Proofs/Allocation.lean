import ClauseStore.Arena
import Mathlib.Order.Bounds.Defs

/-!
Allocation at the limits of the machine counts. What a record needs is the least even count of words
with room for its header and its literals. A machine that wraps counts it modulo `2 ^ 64`, one that
checks its arithmetic stops where a sum on the way does not fit, and the arena compares only the count
it is given with the greatest offset. Main statement: on a machine that wraps an allocation is exact
unless the count has wrapped and what is left of it fits; then, and only then, it succeeds without
room for the record. On one that checks it is exact unless the machine stops.
-/

namespace ClauseStore

/-- The count of words that a record of some size needs, counted without wrapping. -/
def wordsNeeded (size : UInt64) : Nat := aligned (Header.wordCount + size.toNat)

theorem isLeast_aligned (n : Nat) : IsLeast {m | alignment ∣ m ∧ n ≤ m} (aligned n) := by
  constructor
  · exact ⟨Nat.dvd_mul_left _ _, by rw [aligned]; omega⟩
  · rintro m ⟨even, le⟩
    rw [alignment] at even
    rw [aligned]
    omega

namespace Arena

/-- Clearing the lowest bit of a machine count is halving and doubling it. -/
theorem toNat_alignedCount (n : UInt64) :
    (alignedCount n).toNat = aligned n.toNat % 18446744073709551616 := by
  have even : ∀ b : BitVec 64, b &&& ~~~1#64 = (b >>> 1) <<< 1 := by
    intro b
    ext i hi
    rw [BitVec.getElem_and, BitVec.getElem_not, BitVec.getElem_one, BitVec.getElem_shiftLeft]
    cases i with
    | zero => simp
    | succ i => simp [Nat.add_comm 1 i, BitVec.getLsbD_eq_getElem hi]
  have step : (alignedCount n).toBitVec = ((n + 1).toBitVec >>> 1) <<< 1 := even _
  rw [← UInt64.toNat_toBitVec, step, BitVec.toNat_shiftLeft, BitVec.toNat_ushiftRight,
    UInt64.toNat_toBitVec, UInt64.toNat_add, aligned, Nat.shiftRight_eq_div_pow,
    Nat.shiftLeft_eq]
  simp
  omega

/-- The machine count of the words of a clause is the need of the clause, wrapped once. -/
theorem toNat_wordsOfClause_eq_mod (size : UInt64) :
    (wordsOfClause size).toNat = wordsNeeded size % 18446744073709551616 := by
  rw [wordsOfClause, toNat_alignedCount, UInt64.toNat_add, wordsNeeded, aligned, aligned,
    Header.wordCount, show (8 : UInt64).toNat = 8 from rfl]
  omega

/-- The words of a clause, counted without wrapping. -/
theorem toNat_wordsOfClause {n : Nat} (h : n < 4294967296) :
    (wordsOfClause (UInt64.ofNat n)).toNat = aligned (Header.wordCount + n) := by
  have size_eq : (UInt64.ofNat n).toNat = n := by
    rw [UInt64.toNat_ofNat', Nat.mod_eq_of_lt (by omega)]
  rw [toNat_wordsOfClause_eq_mod, wordsNeeded, size_eq, aligned, Header.wordCount]
  omega

/-- An arena is another one with a count of zero words behind it. -/
structure Grown (a : Arena) (count : Nat) (b : Arena) : Prop where
  size_eq : b.size = a.size + count
  kept : ∀ i < a.size, b.word i = a.word i
  zero : ∀ i, a.size ≤ i → b.word i = 0

/-- What the caller of an allocation is promised: a record with room for all that it needs, or a
refusal if no reference could hold its end. -/
structure AllocatesExactly (m : Arithmetic) (a : Arena) (size : UInt64) : Prop where
  placed : a.size + wordsNeeded size < Reference.invalid.offset →
    ∃ r b, allocate m a size = some (.ok (r, b)) ∧ r.offset = a.size ∧ a.Grown (wordsNeeded size) b
  refused : Reference.invalid.offset ≤ a.size + wordsNeeded size →
    allocate m a size = some (.error .exhausted)

/-- The need of a size is beyond the machine counts, and the arena has room for what is left of it
after wrapping. -/
def Wraps (a : Arena) (size : UInt64) : Prop :=
  18446744073709551616 ≤ wordsNeeded size ∧
    a.size + (wordsNeeded size - 18446744073709551616) < Reference.invalid.offset

instance (a : Arena) (size : UInt64) : Decidable (a.Wraps size) :=
  inferInstanceAs (Decidable (_ ∧ _))

/-- Header, literals and alignment of a record of some size add up to more than a machine counts. -/
def Overflows (size : UInt64) : Prop :=
  18446744073709551616 ≤ Header.wordCount + size.toNat + alignment

instance (size : UInt64) : Decidable (Overflows size) := inferInstanceAs (Decidable (_ ≤ _))

variable {m : Arithmetic} {a b : Arena} {words size : UInt64} {r : Reference}

/-! ### Counting the words -/

/-- The alignment is added before one is taken off, which comes to the same where the machine goes on. -/
theorem alignedCount_of_add (n : UInt64) : (n + 2 - 1) &&& ~~~1 = alignedCount n := by
  rw [alignedCount, UInt64.sub_eq_add_neg, UInt64.add_assoc]
  rfl

theorem wordsOfClause?_wrapping (size : UInt64) :
    wordsOfClause? .wrapping size = some (wordsOfClause size) := by
  rw [wordsOfClause?, Arithmetic.add?_wrapping, Option.bind_some, alignedCount?,
    Arithmetic.add?_wrapping, Option.map_some, alignedCount_of_add, wordsOfClause]

/-- Where the sums fit, every machine counts the words. -/
theorem wordsOfClause?_of_not_overflows (m : Arithmetic) (fits : ¬Overflows size) :
    wordsOfClause? m size = some (wordsOfClause size) := by
  simp only [Overflows, Header.wordCount, alignment, Nat.not_le] at fits
  have eight : (8 : UInt64).toNat = 8 := rfl
  have two : (2 : UInt64).toNat = 2 := rfl
  have size_eq : UInt64.size = 18446744073709551616 := rfl
  have sum_eq : (8 + size).toNat = 8 + size.toNat := by
    rw [UInt64.toNat_add, eight]
    omega
  rw [wordsOfClause?, Arithmetic.add?_of_lt m (by omega), Option.bind_some, alignedCount?,
    Arithmetic.add?_of_lt m (by omega), Option.map_some, alignedCount_of_add, wordsOfClause]

/-- A machine that checks its arithmetic stops where the sums do not fit. -/
theorem wordsOfClause?_of_overflows (large : Overflows size) : wordsOfClause? .checked size = none := by
  simp only [Overflows, Header.wordCount, alignment] at large
  have eight : (8 : UInt64).toNat = 8 := rfl
  have two : (2 : UInt64).toNat = 2 := rfl
  have size_eq : UInt64.size = 18446744073709551616 := rfl
  by_cases fits : 8 + size.toNat < 18446744073709551616
  · have sum_eq : (8 + size).toNat = 8 + size.toNat := by
      rw [UInt64.toNat_add, eight]
      omega
    rw [wordsOfClause?, Arithmetic.add?_of_lt _ (by omega), Option.bind_some, alignedCount?,
      Arithmetic.add?, Arithmetic.count?_eq_none_iff.2 ⟨rfl, by omega⟩, Option.map_none]
  · rw [wordsOfClause?, Arithmetic.add?, Arithmetic.count?_eq_none_iff.2 ⟨rfl, by omega⟩,
      Option.bind_none]

theorem allocate_wrapping (a : Arena) (size : UInt64) :
    allocate .wrapping a size = some (a.reserve (wordsOfClause size)) := by
  rw [allocate, wordsOfClause?_wrapping, Option.map_some]

/-- Where the sums fit, every machine makes the same allocation: so it is for all sizes that are ever
stored. -/
theorem allocate_of_not_overflows (m : Arithmetic) (a : Arena) (fits : ¬Overflows size) :
    allocate m a size = some (a.reserve (wordsOfClause size)) := by
  rw [allocate, wordsOfClause?_of_not_overflows m fits, Option.map_some]

theorem allocate_of_overflows (a : Arena) (large : Overflows size) :
    allocate .checked a size = none := by
  rw [allocate, wordsOfClause?_of_overflows large, Option.map_none]

/-! ### Making room -/

theorem grown_replicate (a : Arena) (count : Nat) :
    a.Grown count ⟨a.words ++ Array.replicate count 0⟩ := by
  constructor
  case size_eq => simp [Arena.size]
  case kept =>
    intro i hi
    rw [Arena.size] at hi
    simp [word, Array.getD_eq_getD_getElem?, Array.getElem?_append_left hi]
  case zero =>
    intro i hi
    rw [Arena.size] at hi
    simp only [word, Array.getD_eq_getD_getElem?, Array.getElem?_append_right hi,
      Array.getElem?_replicate]
    split <;> rfl

/-- What decides an allocation is the machine count of the words. -/
theorem exists_reserve (a : Arena) (words : UInt64)
    (room : a.size + words.toNat < Reference.invalid.offset) :
    ∃ r b, a.reserve words = .ok (r, b) :=
  ⟨_, _, if_pos room⟩

theorem reserve_eq_error (full : Reference.invalid.offset ≤ a.size + words.toNat) :
    a.reserve words = .error .exhausted :=
  if_neg (Nat.not_lt.2 full)

theorem grown_of_reserve (ok : a.reserve words = .ok (r, b)) :
    a.size + words.toNat < Reference.invalid.offset ∧ r.offset = a.size ∧ a.Grown words.toNat b := by
  simp only [reserve] at ok
  split at ok
  next room =>
    obtain ⟨rfl, rfl⟩ := Prod.mk.inj (Except.ok.inj ok)
    have limit : Reference.invalid.offset < UInt32.size := by decide
    exact ⟨room, UInt32.toNat_ofNat_of_lt' (by omega), grown_replicate a _⟩
  next => cases ok

/-- A record fills its words but for one at most. -/
theorem wordsNeeded_bounds (size : UInt64) :
    Header.wordCount + size.toNat ≤ wordsNeeded size ∧
      wordsNeeded size ≤ Header.wordCount + size.toNat + 1 := by
  rw [wordsNeeded, aligned]
  omega

/-- Where the machine counts just what a record needs, the allocation is exact. -/
theorem allocatesExactly_of_reserve
    (allocates : allocate m a size = some (a.reserve (wordsOfClause size)))
    (exact_count : a.size + wordsNeeded size < Reference.invalid.offset →
      (wordsOfClause size).toNat = wordsNeeded size)
    (full : Reference.invalid.offset ≤ a.size + wordsNeeded size →
      Reference.invalid.offset ≤ a.size + (wordsOfClause size).toNat) :
    AllocatesExactly m a size := by
  constructor
  case placed =>
    intro fits
    have whole := exact_count fits
    obtain ⟨r, b, ok⟩ := exists_reserve a (wordsOfClause size) (by omega)
    exact ⟨r, b, by rw [allocates, ok], whole ▸ (grown_of_reserve ok).2⟩
  case refused =>
    intro large
    rw [allocates, reserve_eq_error (full large)]

/-- On a machine that wraps an allocation is exact unless the need has wrapped into what the arena has
room for, and this is where it succeeds without room for the header and the literals of the record. On
one that checks its arithmetic an allocation is exact unless the machine stops, and it stops where the
sums overflow. -/
theorem allocate_exact_iff (a : Arena) (size : UInt64) :
    IsLeast {n | alignment ∣ n ∧ Header.wordCount + size.toNat ≤ n} (wordsNeeded size) ∧
      (AllocatesExactly .wrapping a size ↔ ¬a.Wraps size) ∧
      (a.Wraps size ↔ ∃ r b, allocate .wrapping a size = some (.ok (r, b)) ∧
        b.size < r.offset + (Header.wordCount + size.toNat)) ∧
      (AllocatesExactly .checked a size ↔ ¬Overflows size) ∧
      (Overflows size ↔ allocate .checked a size = none) := by
  have size_lt := size.toNat_lt
  have counted := toNat_wordsOfClause_eq_mod size
  have header : Header.wordCount = 8 := rfl
  have align : alignment = 2 := rfl
  have limit : Reference.invalid.offset = 4294967295 := rfl
  obtain ⟨enough, tight⟩ := wordsNeeded_bounds size
  have allocates := allocate_wrapping a size
  -- a wrapped count is at most eight, and so below what any header and its literals take
  have wraps_iff : a.Wraps size ↔ ∃ r b, allocate .wrapping a size = some (.ok (r, b)) ∧
      b.size < r.offset + (Header.wordCount + size.toNat) := by
    rw [allocates]
    constructor
    · rintro ⟨beyond, left⟩
      obtain ⟨r, b, ok⟩ := exists_reserve a (wordsOfClause size) (by omega)
      obtain ⟨-, offset_eq, grown⟩ := grown_of_reserve ok
      exact ⟨r, b, by rw [ok], by rw [offset_eq, grown.size_eq]; omega⟩
    · rintro ⟨r, b, ok, short⟩
      obtain ⟨held, offset_eq, grown⟩ := grown_of_reserve (Option.some.inj ok)
      rw [offset_eq, grown.size_eq] at short
      constructor <;> omega
  have stops_iff : Overflows size ↔ allocate .checked a size = none := by
    refine ⟨allocate_of_overflows a, fun stops => Decidable.byContradiction fun fits => ?_⟩
    rw [allocate_of_not_overflows .checked a fits] at stops
    cases stops
  refine ⟨isLeast_aligned _, ⟨?_, ?_⟩, wraps_iff, ⟨?_, ?_⟩, stops_iff⟩
  · intro exact wraps
    obtain ⟨r, b, ok, -⟩ := wraps_iff.1 wraps
    have refused := exact.refused (by have := wraps.1; omega)
    rw [ok] at refused
    cases refused
  · intro unwrapped
    rw [Wraps] at unwrapped
    exact allocatesExactly_of_reserve allocates (fun _ => by omega) (fun _ => by omega)
  · intro exact large
    have refused := exact.refused (by rw [Overflows] at large; omega)
    rw [stops_iff.1 large] at refused
    cases refused
  · intro fits
    have checked := allocate_of_not_overflows .checked a fits
    rw [Overflows] at fits
    exact allocatesExactly_of_reserve checked (fun _ => by omega) (fun _ => by omega)

/-- A machine that wraps gives a record of no words in the empty arena to a clause of `2 ^ 64 - 8`
literals, where one that checks stops. -/
theorem allocate_exact_iff_empty :
    ({} : Arena).Wraps 18446744073709551608 ∧
      ¬AllocatesExactly .wrapping {} 18446744073709551608 ∧
      allocate .wrapping {} 18446744073709551608 = some (.ok (.start, {})) ∧
      ¬AllocatesExactly .checked {} 18446744073709551608 ∧
      allocate .checked {} 18446744073709551608 = none := by
  have wraps : ({} : Arena).Wraps 18446744073709551608 := by decide
  have large : Overflows 18446744073709551608 := by decide
  obtain ⟨-, exact_iff, -, checked_iff, stops_iff⟩ := allocate_exact_iff {} 18446744073709551608
  exact ⟨wraps, fun exact => exact_iff.1 exact wraps, rfl, fun exact => checked_iff.1 exact large,
    stops_iff.1 large⟩

end Arena

end ClauseStore
