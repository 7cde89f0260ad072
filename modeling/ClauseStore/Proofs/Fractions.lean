import ClauseStore.Proofs.Counting
import ClauseStore.Proofs.Eviction

/-!
The ranks of rows. Each of four measures of use puts the rows in an order, the greatest use first and
equal uses in the order of the rows, and what is written into a row is its place in that order,
divided by the count of rows. The place of a row is found by going back through the order: the order
lists the indices of the rows, and the place is where an index stands in it. Sums of use are compared
as numbers of the 64-bit format, which tells sums below `2 ^ 53` apart.
-/

namespace ClauseStore

/-! ### Places in an order -/

section Places

variable {order : List Nat} {n i j : Nat} {R : Nat → Nat → Prop}

/-- Where the indices stand in an order of them is an order of them again. -/
theorem map_idxOf_perm (h : order.Perm (List.range n)) :
    ((List.range n).map order.idxOf).Perm (List.range n) := by
  have apart : order.Nodup := h.nodup_iff.2 List.nodup_range
  have length_eq : order.length = n := by simpa using h.length_eq
  have back : order.map order.idxOf = List.range n := by
    refine List.ext_getElem (by simp [length_eq]) fun k hk _ => ?_
    rw [List.length_map] at hk
    simp [apart.idxOf_getElem k hk]
  exact back ▸ (h.map order.idxOf).symm

/-- One index stands before another in an order that is sorted by a relation just if the relation
holds. -/
theorem idxOf_lt_iff (h : order.Perm (List.range n)) (sorted : order.Pairwise R)
    (asymm : ∀ i j, R i j → ¬ R j i) (hi : i < n) (hj : j < n) :
    order.idxOf i < order.idxOf j ↔ R i j := by
  have listed : ∀ k < n, ∃ hk : order.idxOf k < order.length, order[order.idxOf k] = k := by
    intro k hk
    have among : k ∈ order := h.mem_iff.2 (List.mem_range.2 hk)
    exact ⟨List.idxOf_lt_length_of_mem among, List.getElem_idxOf _⟩
  have forward : ∀ {i j}, i < n → j < n → order.idxOf i < order.idxOf j → R i j := by
    intro i j hi hj less
    obtain ⟨hi', at_i⟩ := listed i hi
    obtain ⟨hj', at_j⟩ := listed j hj
    have related := List.pairwise_iff_getElem.1 sorted _ _ hi' hj' less
    rwa [at_i, at_j] at related
  refine ⟨forward hi hj, fun related => ?_⟩
  rcases Nat.lt_trichotomy (order.idxOf i) (order.idxOf j) with less | same | more
  · exact less
  · obtain ⟨hi', at_i⟩ := listed i hi
    obtain ⟨hj', at_j⟩ := listed j hj
    have same_index : i = j := by
      rw [← at_i, ← at_j]
      simp only [same]
    exact absurd related (asymm _ _ (same_index ▸ related))
  · exact absurd related (asymm _ _ (forward hj hi more))

end Places

namespace Table

/-! ### The descending order of some keys -/

variable {keys : List Binary64} {i j : Nat}

/-- Whether the key at an index is greater than the one at another, or equals it and stands first. -/
def Outranks (keys : List Binary64) (i j : Nat) : Prop :=
  (keys.getD j .zero).rank < (keys.getD i .zero).rank ∨
    (keys.getD i .zero).rank = (keys.getD j .zero).rank ∧ i < j

theorem Outranks.asymm (h : Outranks keys i j) : ¬ Outranks keys j i := by
  simp only [Outranks] at *
  omega

theorem descending_perm (keys : List Binary64) :
    (descending keys).Perm (List.range keys.length) := by
  have indices : keys.zipIdx.map Prod.snd = List.range keys.length := by
    rw [List.zipIdx_map_snd, List.range_eq_range']
  exact indices ▸ (stableSort_perm ..).map Prod.snd

theorem descending_pairwise (keys : List Binary64) :
    (descending keys).Pairwise (Outranks keys) := by
  have key_eq : ∀ p ∈ keys.zipIdx, keys.getD p.2 .zero = p.1 := by
    rintro ⟨key, i⟩ hp
    rw [List.getD_eq_getElem?_getD, List.mem_zipIdx_iff_getElem?.1 hp]
    rfl
  rw [descending, List.pairwise_map]
  refine (comparing_atMost.pairwise_stableSort _ (zipIdx_pairwise keys)).imp_of_mem ?_
  rintro p q hp hq ⟨le, strict⟩
  have mem_iff := (stableSort_perm (fun a b => b.1.atMost a.1) keys.zipIdx).mem_iff (a := p)
  rw [Outranks, key_eq p ((stableSort_perm ..).mem_iff.1 hp),
    key_eq q ((stableSort_perm ..).mem_iff.1 hq)]
  simp only [Binary64.atMost, decide_eq_true_eq, decide_eq_false_iff_not] at le strict
  omega

/-! ### Measures -/

/-- The measures of use by which rows are ranked. -/
inductive Measure where
  /-- the fast average of propagations -/
  | prop
  /-- the fast average of uses as a first reason -/
  | uip
  /-- the sum of propagations -/
  | props
  /-- the sum of uses as a first reason -/
  | uips

namespace Measure

/-- How much use a row has, by a measure; averages are compared in the total order. -/
def use : Measure → Row → Int
  | prop, row => row.averageProps.fast.rank
  | uip, row => row.averageUips.fast.rank
  | props, row => row.sumProps.toNat
  | uips, row => row.sumUips.toNat

/-- The number that the rows are sorted by. -/
def key : Measure → Row → Binary64
  | prop, row => row.averageProps.fast
  | uip, row => row.averageUips.fast
  | props, row => .ofCount row.sumProps
  | uips, row => .ofCount row.sumUips

/-- The rank that is written for a measure. -/
def written : Measure → Ranks → Binary64
  | prop => Ranks.prop
  | uip => Ranks.uip
  | props => Ranks.props
  | uips => Ranks.uips

end Measure

/-- Whether the sums of a row are held exactly. -/
structure Exact (row : Row) : Prop where
  props : row.sumProps.toNat < 2 * Binary64.leadingBit
  uips : row.sumUips.toNat < 2 * Binary64.leadingBit

/-- Keys are in the order of the use that they stand for. -/
theorem Measure.rank_key_lt_iff (m : Measure) {a b : Row} (ha : Exact a) (hb : Exact b) :
    (m.key a).rank < (m.key b).rank ↔ m.use a < m.use b := by
  cases m with
  | prop => exact Iff.rfl
  | uip => exact Iff.rfl
  | props => exact (Binary64.rank_ofCount_lt_iff ha.props hb.props).trans Int.ofNat_lt.symm
  | uips => exact (Binary64.rank_ofCount_lt_iff ha.uips hb.uips).trans Int.ofNat_lt.symm

/-! ### Ranks -/

/-- A row without its ranks. -/
def unranked (row : Row) : Row := { row with ranks := {} }

variable {t : Table}

/-- The place of each row by a measure. -/
def place (t : Table) (m : Measure) (i : Nat) : Nat :=
  (descending (t.rows.toList.map m.key)).idxOf i

theorem getD_ranksBy (t : Table) (key : Row → Binary64) {i : Nat} (h : i < t.size) :
    (t.ranksBy key).getD i .zero =
      .ofCount (.ofNat ((descending (t.rows.toList.map key)).idxOf i)) / .ofCount (.ofNat t.size) := by
  have h : i < t.rows.size := h
  simp [ranksBy, fractions, size, h]

/-- What is written into the rows is their places, as fractions of their count. -/
theorem map_written_rank (t : Table) (m : Measure) :
    t.rank.rows.toList.map (fun row => m.written row.ranks) = (List.range t.size).map fun i =>
      .ofCount (.ofNat (t.place m i)) / .ofCount (.ofNat t.size) := by
  refine List.ext_getElem (by simp [rank, size]) fun i hi _ => ?_
  have inside : i < t.size := by simpa [rank, size] using hi
  simp only [rank, List.getElem_map, Array.getElem_toList, Array.getElem_mapIdx, List.getElem_range]
  cases m <;> exact t.getD_ranksBy _ inside

theorem place_perm (t : Table) (m : Measure) :
    ((List.range t.size).map (t.place m)).Perm (List.range t.size) := by
  have perm := descending_perm (t.rows.toList.map m.key)
  rw [List.length_map, Array.length_toList] at perm
  exact map_idxOf_perm perm

/-- A row has its place before another one just if it has more use, or equal use and stands first. -/
theorem place_lt_iff (exact : ∀ row ∈ t.rows.toList, Exact row) (m : Measure) {a b : Row}
    (ha : t.row? i = some a) (hb : t.row? j = some b) :
    t.place m i < t.place m j ↔ m.use b < m.use a ∨ m.use a = m.use b ∧ i < j := by
  have perm := descending_perm (t.rows.toList.map m.key)
  rw [List.length_map, Array.length_toList] at perm
  have read : ∀ {k row}, t.row? k = some row → k < t.rows.size ∧ row ∈ t.rows.toList ∧
      (t.rows.toList.map m.key).getD k .zero = m.key row := by
    intro k row hrow
    rw [row?, ← Array.getElem?_toList] at hrow
    refine ⟨by simpa using (List.getElem?_eq_some_iff.1 hrow).1, List.mem_of_getElem? hrow, ?_⟩
    rw [List.getD_eq_getElem?_getD, List.getElem?_map, hrow]
    rfl
  obtain ⟨hi, mem_a, key_a⟩ := read ha
  obtain ⟨hj, mem_b, key_b⟩ := read hb
  have more := m.rank_key_lt_iff (exact b mem_b) (exact a mem_a)
  have less := m.rank_key_lt_iff (exact a mem_a) (exact b mem_b)
  rw [place, place, idxOf_lt_iff perm (descending_pairwise _) (fun _ _ => Outranks.asymm) hi hj,
    Outranks, key_a, key_b]
  omega

/-- The rank of a place is zero for the first place only. -/
theorem fraction_eq_zero {k n : Nat} (less : k < n) (fits : n < UInt64.size) :
    Binary64.ofCount (.ofNat k) / .ofCount (.ofNat n) = .zero ↔ k = 0 := by
  have toNat_eq : ∀ {k : Nat}, k < UInt64.size → (UInt64.ofNat k).toNat = k := by
    intro k hk
    rw [UInt64.toNat_ofNat']
    exact Nat.mod_eq_of_lt hk
  have positive : UInt64.ofNat n ≠ 0 := by
    intro zero
    have := congrArg UInt64.toNat zero
    rw [toNat_eq fits, UInt64.toNat_zero] at this
    omega
  rw [Binary64.ofCount_div_eq_zero positive, ← UInt64.toNat_inj, toNat_eq (Nat.lt_trans less fits),
    UInt64.toNat_zero]

/-- One row has the first place, and it alone has rank zero. -/
theorem countP_rank_zero (m : Measure) (rows : 0 < t.size) (fits : t.size < UInt64.size) :
    (t.rank.rows.toList.countP fun row => m.written row.ranks = .zero) = 1 := by
  have places := t.place_perm m
  have first : ∀ i ∈ List.range t.size,
      (Binary64.ofCount (.ofNat (t.place m i)) / .ofCount (.ofNat t.size) = .zero ↔
        t.place m i = 0) := by
    intro i hi
    have among := places.mem_iff.1 (List.mem_map_of_mem hi)
    exact fraction_eq_zero (List.mem_range.1 among) fits
  calc (t.rank.rows.toList.countP fun row => m.written row.ranks = .zero)
      = (t.rank.rows.toList.map fun row => m.written row.ranks).countP (· = .zero) := by
        rw [List.countP_map]
        rfl
    _ = (List.range t.size).countP fun i => t.place m i = 0 := by
        rw [map_written_rank, List.countP_map]
        exact List.countP_congr fun i hi => by simpa using first i hi
    _ = ((List.range t.size).map (t.place m)).count 0 := by
        rw [List.count, List.countP_map]
        rfl
    _ = 1 := by
        rw [places.count_eq, List.nodup_range.count, if_pos (List.mem_range.2 rows)]

/-- How a measure ranks the rows of a table: the places that the rows have, and what is written. -/
structure Ranked (t : Table) (m : Measure) (place : Nat → Nat) : Prop where
  perm : ((List.range t.size).map place).Perm (List.range t.size)
  /-- rows of more use come first, and rows of equal use in their order -/
  order : ∀ i j a b, t.row? i = some a → t.row? j = some b →
    (place i < place j ↔ m.use b < m.use a ∨ m.use a = m.use b ∧ i < j)
  written : t.rank.rows.toList.map (fun row => m.written row.ranks) =
    (List.range t.size).map fun i => .ofCount (.ofNat (place i)) / .ofCount (.ofNat t.size)
  /-- the first place alone has rank zero -/
  best : (t.rank.rows.toList.countP fun row => m.written row.ranks = .zero) = 1

/-- By each measure the places of the rows are an order of them by their use, and the ranks are the
places as fractions; nothing but the ranks is changed. -/
theorem rank_places (t : Table) (rows : 0 < t.size) (fits : t.size < UInt64.size)
    (exact : ∀ row ∈ t.rows.toList, Exact row) :
    (∀ m, ∃ place, t.Ranked m place) ∧
      t.rank.rows.toList.map unranked = t.rows.toList.map unranked := by
  refine ⟨fun m => ⟨t.place m, ?_⟩, map_mapIdx_of_view _ fun _ _ => rfl⟩
  constructor
  case perm => exact t.place_perm m
  case order => exact fun i j a b ha hb => place_lt_iff exact m ha hb
  case written => exact t.map_written_rank m
  case best => exact countP_rank_zero m rows fits

/-- Rows with equal sums, with averages of either zero and of no number, and with the greatest sum that
is held exactly. -/
def mixed : Table where
  rows := #[
    { Row.fresh 1 .start 0 with sumProps := 9, averageProps := ⟨⟨0x8000000000000000⟩, .zero⟩ },
    { Row.fresh 2 .start 0 with sumProps := 9007199254740991, averageUips := ⟨.nan true, .zero⟩ },
    { Row.fresh 3 .start 0 with sumProps := 9, sumUips := 4, averageProps := ⟨.nan false, .one⟩ },
    { Row.fresh 4 .start 0 with sumUips := 4, averageUips := ⟨.infinity true, .one⟩ }]

theorem rank_places_mixed :
    0 < mixed.size ∧ mixed.size < UInt64.size ∧ (∀ row ∈ mixed.rows.toList, Exact row) ∧
      (∀ m, ∃ place, mixed.Ranked m place) ∧
      mixed.rank.rows.toList.map unranked = mixed.rows.toList.map unranked := by
  have rows : 0 < mixed.size := by decide
  have fits : mixed.size < UInt64.size := by decide
  have exact : ∀ row ∈ mixed.rows.toList, Exact row := by
    intro row hrow
    have sums : ∀ row ∈ mixed.rows.toList, row.sumProps.toNat < 2 * Binary64.leadingBit ∧
        row.sumUips.toNat < 2 * Binary64.leadingBit := by decide
    exact ⟨(sums row hrow).1, (sums row hrow).2⟩
  exact ⟨rows, fits, exact, mixed.rank_places rows fits exact⟩

end Table

end ClauseStore
