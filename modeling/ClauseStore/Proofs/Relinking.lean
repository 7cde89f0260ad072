import ClauseStore.Proofs.Linkage

/-!
Links behind the compaction of the table. The rows that stay get new indices, and only the clauses of
those rows are linked anew: where no row of a live redundant clause was garbage, each of these is then
bothWays to its row, in both directions, and stays so when clauses are marked and the arena is
compacted. Where one of the rows was garbage, its clause has lost it for good.
-/

namespace ClauseStore

open Cell Database

/-- Every live redundant clause is linked to its row and the row refers to it, and no irredundant
clause is linked. -/
structure TiedBothWays (cs : List Cell) (t : Table) : Prop where
  own : ∀ k c, At 0 cs k c → c.Learned → ∃ i row, c.header.row? = some i ∧ t.row? i = some row ∧
    row.identity = c.header.identity ∧ row.clause = .ofOffset k ∧ row.garbage = false
  free : ∀ c ∈ cs, c.header.flags.redundant = false → c.header.row? = none

/-- A live redundant clause has no row. -/
def Lost (cs : List Cell) (t : Table) : Prop :=
  ∃ k c, At 0 cs k c ∧ c.Learned ∧ ∀ row ∈ t.rows.toList, row.identity ≠ c.header.identity

namespace Table

/-- A row that was seen and is not garbage stays. -/
theorem mem_surviving {t : Table} {i : Nat} {row : Row} (h : t.row? i = some row)
    (seen : row.seen = true) (live : row.garbage = false) : row ∈ t.surviving.rows.toList := by
  rw [surviving, Array.toList_filter, List.mem_filter, stays, seen, live]
  exact ⟨mem_of_row? h, rfl⟩

end Table

/-! ### Links to the rows that stay -/

section Relinked

variable {es : List (Row × Nat)} {e : Row × Nat} {zs : List Cell} {z : Cell} {k : Nat}

theorem at_relinked_other (foreign : ∀ e ∈ es, e.1.clause.offset ≠ k) (hz : At 0 zs k z) :
    At 0 (relinked es zs) k z := by
  induction es generalizing zs with
  | nil => exact hz
  | cons e es ih =>
    refine ih (fun e' he' => foreign e' (by simp [he'])) (at_mapAt.2 ⟨z, hz, ?_⟩)
    rw [Arena.only, if_neg (Ne.symm (foreign e (by simp)))]
    rfl

theorem at_relinked (apart : (es.map fun e => e.1.clause.offset).Nodup) (he : e ∈ es)
    (hz : At 0 zs e.1.clause.offset z) :
    At 0 (relinked es zs) e.1.clause.offset (z.revised (Header.withRow (some e.2))) := by
  induction es generalizing zs with
  | nil => cases he
  | cons e' es ih =>
    rw [List.map_cons, List.nodup_cons] at apart
    obtain ⟨alone, apart⟩ := apart
    have different : ∀ e ∈ es, e.1.clause.offset ≠ e'.1.clause.offset := fun e he same => alone (by
      rw [← same]
      exact List.mem_map_of_mem (f := fun e : Row × Nat => e.1.clause.offset) he)
    rcases List.mem_cons.1 he with here | he
    · rw [← here] at different ⊢
      have linked : At 0 (mapAt (Arena.only e.1.clause.offset (Header.withRow (some e.2))) 0 zs)
          e.1.clause.offset (z.revised (Header.withRow (some e.2))) :=
        at_mapAt.2 ⟨z, hz, by rw [Arena.only, if_pos rfl]⟩
      have kept := at_relinked_other different linked
      exact kept
    · refine ih apart he (at_mapAt.2 ⟨z, hz, ?_⟩)
      rw [Arena.only, if_neg (different e he)]
      rfl

theorem entries_apart {t : Table} (apart : (t.surviving.rows.toList.map Row.clause).Nodup) :
    ((entries t).map fun e => e.1.clause.offset).Nodup := by
  have rows_eq : (entries t).map (fun e => e.1.clause.offset) =
      t.surviving.rows.toList.map fun row => row.clause.offset := by
    have firsts : (entries t).map Prod.fst = t.surviving.rows.toList := List.zipIdx_map_fst ..
    rw [← firsts, List.map_map]
    rfl
  rw [rows_eq, List.nodup_iff_pairwise_ne, List.pairwise_map]
  rw [List.nodup_iff_pairwise_ne, List.pairwise_map] at apart
  refine apart.imp fun different same => different ?_
  rw [← ofOffset_offset (Row.clause _), same, ofOffset_offset]

theorem mem_entries_of_mem {t : Table} {row : Row} (h : row ∈ t.surviving.rows.toList) :
    ∃ i, (row, i) ∈ entries t := by
  obtain ⟨i, hi, rfl⟩ := List.getElem_of_mem h
  exact ⟨i, List.mem_zipIdx_iff_getElem?.2 (List.getElem?_eq_getElem hi)⟩

theorem row_mem_of_entries {t : Table} (h : e ∈ entries t) : e.1 ∈ t.surviving.rows.toList :=
  Table.mem_of_row? (mem_entries h)

end Relinked

namespace ScanPlan.Anchored

variable {zs : List Cell} {limit : Nat} {t : Table} {k i : Nat} {z : Cell} {row : Row}

/-- The rows that stay are no more than links can name, as each has a record of its own. -/
theorem size_surviving_lt (h : Anchored zs limit t) (fits : extents zs < 4294967296) :
    t.surviving.size < 2147483648 := by
  have places : t.surviving.rows.toList.map Row.clause ⊆ (offsets 0 zs).map Reference.ofOffset := by
    intro r hr
    obtain ⟨row, hrow, rfl⟩ := List.mem_map.1 hr
    obtain ⟨k, c, hc, -, -, place⟩ := h.surviving hrow
    exact List.mem_map.2 ⟨k, mem_offsets.2 ⟨c, hc⟩, place.symm⟩
  have size_le := h.surviving_apart.length_le_of_subset places
  rw [List.length_map, List.length_map, length_offsets, Array.length_toList] at size_le
  have words_le := length_le_extents zs
  simp only [Header.wordCount] at words_le
  rw [Table.size]
  omega

/-- The links to the rows that stay tie the clauses whose rows are not garbage both ways. -/
theorem bothWays (h : Anchored zs limit t) (fits : extents zs < 4294967296)
    (own : ∀ k z, At 0 zs k z → z.Learned → ∃ i row, t.row? i = some row ∧
      row.identity = z.header.identity ∧ row.clause = .ofOffset k ∧ row.seen = true ∧
      row.garbage = false)
    (free : ∀ z ∈ zs, z.header.flags.redundant = false → z.header.row? = none) :
    TiedBothWays (relinked (entries t) zs) t.settled := by
  have lasting := lasting_relinked (entries t) zs
  constructor
  · intro k y at_y learned
    obtain ⟨z, at_z, same⟩ := at_y.of_map_eq lasting.symm
    obtain ⟨i, row, found, identity_eq, place, seen, live⟩ := own k z at_z (learned.of_lasting same)
    obtain ⟨j, entry⟩ := mem_entries_of_mem (Table.mem_surviving found seen live)
    have bounds := at_z.bounds.2
    have extent_pos := z.extent_pos
    have offset_eq : row.clause.offset = k := by rw [place, toNat_ofOffset (by omega)]
    have at_y' := at_relinked (entries_apart h.surviving_apart) entry (z := z) (offset_eq.symm ▸ at_z)
    rw [offset_eq] at at_y'
    have row_at : t.surviving.row? j = some row := mem_entries entry
    have narrow := Nat.lt_trans (Table.lt_size_of_row? row_at) (h.size_surviving_lt fits)
    obtain ⟨row', found', key_eq⟩ := Table.row?_of_map_eq (Table.keys_rank t.surviving) row_at
    simp only [Row.key, Prod.mk.injEq] at key_eq
    refine ⟨j, row', ?_, found', key_eq.1.trans (identity_eq.trans (identity_eq_of_lasting same)),
      key_eq.2.1.trans place, key_eq.2.2.1.trans live⟩
    rw [at_y.unique at_y']
    exact Header.row?_withRow narrow _
  · intro y hy irredundant
    obtain ⟨k, at_y⟩ := exists_at 0 hy
    obtain ⟨z, at_z, same⟩ := at_y.of_map_eq lasting.symm
    have irredundant' : z.header.flags.redundant = false := by
      rw [flags_eq_of_lasting same]
      exact irredundant
    have foreign : ∀ e ∈ entries t, e.1.clause.offset ≠ k := by
      intro e he here
      obtain ⟨j, d, at_d, learned, -, place⟩ := h.surviving (row_mem_of_entries he)
      have := at_d.bounds.2
      have := d.extent_pos
      rw [place, toNat_ofOffset (by omega)] at here
      rw [here] at at_d
      rw [at_d.unique at_z, Learned, irredundant'] at learned
      cases learned.2
    rw [at_y.unique (at_relinked_other foreign at_z)]
    exact free z at_z.mem irredundant'

/-- A clause whose row is garbage loses it. -/
theorem lost (h : Anchored zs limit t) (ascending : (zs.map identity).Pairwise (· < ·))
    (hz : At 0 zs k z) (learned : z.Learned) (found : t.row? i = some row)
    (seen : row.seen = true) (place : row.clause = .ofOffset k) (garbage : row.garbage = true) :
    Lost (relinked (entries t) zs) t.settled := by
  obtain ⟨y, at_y, same⟩ := hz.of_map_eq (lasting_relinked (entries t) zs)
  refine ⟨k, y, at_y, learned.of_lasting same, fun ρ hρ own => ?_⟩
  obtain ⟨row', stays, key_eq⟩ := Table.mem_of_keys (Table.keys_rank t.surviving).symm hρ
  simp only [Row.key, Prod.mk.injEq] at key_eq
  obtain ⟨j, d, at_d, -, identity_eq, place'⟩ := h.surviving stays
  -- the row of that identity would be the one of the same place, which does not stay
  have own' : d.header.identity = z.header.identity :=
    identity_eq.trans (key_eq.1.trans (own.trans (identity_eq_of_lasting same)))
  obtain ⟨rfl, -⟩ := eq_of_identity ascending at_d hz (congrArg UInt32.toNat own')
  obtain ⟨i', found', seen', live⟩ := row_of_mem stays
  have := h.apart i' i row' row found' found seen' seen (place'.trans place.symm)
  rw [this, found] at found'
  cases found'
  rw [garbage] at live
  cases live

end ScanPlan.Anchored

/-! ### Links that are left alone -/

section Frame

variable {cs : List Cell} {t t' : Table} {f : Nat → Header → Header}

theorem TiedBothWays.of_keys (h : TiedBothWays cs t) (keys_eq : t'.keys = t.keys) : TiedBothWays cs t' := by
  refine ⟨fun k c hc learned => ?_, h.free⟩
  obtain ⟨i, row, link, found, own, place, live⟩ := h.own k c hc learned
  obtain ⟨row', found', key_eq⟩ := Table.row?_of_map_eq keys_eq found
  simp only [Row.key, Prod.mk.injEq] at key_eq
  exact ⟨i, row', link, found', key_eq.1.trans own, key_eq.2.1.trans place, key_eq.2.2.1.trans live⟩

theorem Lost.of_keys (h : Lost cs t) (keys_eq : t'.keys = t.keys) : Lost cs t' := by
  obtain ⟨k, c, hc, learned, none⟩ := h
  refine ⟨k, c, hc, learned, fun row hrow own => ?_⟩
  obtain ⟨row', hrow', key_eq⟩ := Table.mem_of_keys keys_eq.symm hrow
  simp only [Row.key, Prod.mk.injEq] at key_eq
  exact none row' hrow' (key_eq.1.trans own)

/-- A revision of headers that leaves links alone keeps clauses tied both ways. -/
theorem TiedBothWays.revised (h : TiedBothWays cs t) (same : ∀ k d, (f k d).tie = d.tie) :
    TiedBothWays (mapAt f 0 cs) t := by
  constructor
  · intro k y hy learned
    obtain ⟨c, hc, rfl⟩ := at_mapAt.1 hy
    have tie_eq : (c.revised (f k)).tie = c.tie := same k c.header
    have learned' : c.tie.Learned := tie_eq ▸ learned
    obtain ⟨i, row, link, found, own, place, live⟩ := h.own k c hc learned'
    exact ⟨i, row, (congrArg Tie.row? tie_eq).trans link, found,
      own.trans (congrArg Tie.identity tie_eq).symm, place, live⟩
  · intro y hy irredundant
    obtain ⟨k, at_y⟩ := exists_at 0 hy
    obtain ⟨c, hc, rfl⟩ := at_mapAt.1 at_y
    have tie_eq : (c.revised (f k)).tie = c.tie := same k c.header
    exact (congrArg Tie.row? tie_eq).trans
      (h.free c hc.mem ((congrArg Tie.redundant tie_eq).symm.trans irredundant))

theorem Lost.revised (h : Lost cs t) (same : ∀ k d, (f k d).tie = d.tie) :
    Lost (mapAt f 0 cs) t := by
  obtain ⟨k, c, hc, learned, none⟩ := h
  have tie_eq : (c.revised (f k)).tie = c.tie := same k c.header
  have learned' : (c.revised (f k)).tie.Learned := tie_eq.symm ▸ learned
  refine ⟨k, c.revised (f k), at_mapAt.2 ⟨c, hc, rfl⟩, learned', fun row hrow own => ?_⟩
  exact none row hrow (own.trans (congrArg Tie.identity tie_eq))

theorem tie_flagged (value : Bool) (ks : List Nat) (k : Nat) (d : Header) :
    (if k ∈ ks then d.withFlag .reason value else d).tie = d.tie := by
  split <;> rfl

end Frame

/-! ### Links of marked clauses -/

section Marked

variable {cs : List Cell} {t : Table} {ms : List Placed}

theorem row?_endedAll {i : Nat} (free : ∀ m ∈ ms, m.2.header.row? ≠ some i) :
    (endedAll ms t).row? i = t.row? i := by
  induction ms generalizing t with
  | nil => rfl
  | cons m ms ih =>
    show (endedAll ms (t.ended m.2.header)).row? i = _
    rw [ih fun n hn => free n (by simp [hn]), Table.row?_ended, if_neg (free m (by simp))]

theorem identity_of_mem_endedAll {row : Row} (h : row ∈ (endedAll ms t).rows.toList) :
    ∃ row' ∈ t.rows.toList, row'.identity = row.identity := by
  induction ms generalizing t with
  | nil => exact ⟨row, h, rfl⟩
  | cons m ms ih =>
    obtain ⟨row₁, h₁, own₁⟩ := ih (t := t.ended m.2.header) h
    obtain ⟨i, found⟩ := Table.exists_row? h₁
    rw [Table.row?_ended] at found
    split at found
    · obtain ⟨row₀, found₀, rfl⟩ := Option.map_eq_some_iff.1 found
      exact ⟨row₀, Table.mem_of_row? found₀, own₁⟩
    · exact ⟨row₁, Table.mem_of_row? found, own₁⟩

/-- The marks end only the rows of the marked clauses. -/
theorem TiedBothWays.markedAll (h : TiedBothWays cs t) (ascending : (cs.map identity).Pairwise (· < ·))
    (markable : Markable ms cs) (learned : ∀ m ∈ ms, m.2.Learned) :
    TiedBothWays (markAll ms cs) (endedAll ms t) := by
  rw [markAll_eq]
  constructor
  · intro k y hy learned_y
    obtain ⟨c, hc, rfl⟩ := at_mapAt.1 hy
    by_cases marked : k ∈ ms.map Prod.fst
    · rw [Cell.revised, if_pos marked] at learned_y
      cases learned_y.1
    rw [Cell.revised, if_neg marked] at learned_y ⊢
    obtain ⟨i, row, link, found, own, place, live⟩ := h.own k c hc learned_y
    refine ⟨i, row, link, ?_, own, place, live⟩
    rw [row?_endedAll, found]
    intro m hm link'
    obtain ⟨j, row', link'', found', own', -⟩ := h.own m.1 m.2 (markable.placed m hm) (learned m hm)
    rw [link'] at link''
    cases link''
    rw [found] at found'
    cases found'
    have same := eq_of_identity ascending (markable.placed m hm) hc
      (congrArg UInt32.toNat (own'.symm.trans own))
    exact marked (same.1 ▸ List.mem_map_of_mem hm)
  · intro y hy irredundant
    obtain ⟨k, at_y⟩ := exists_at 0 hy
    obtain ⟨c, hc, rfl⟩ := at_mapAt.1 at_y
    have link_eq : (c.revised fun d => if k ∈ ms.map Prod.fst then d.withFlag .garbage true
        else d).header.row? = c.header.row? := by
      rw [Cell.revised]
      split <;> rfl
    have redundant_eq : (c.revised fun d => if k ∈ ms.map Prod.fst then d.withFlag .garbage true
        else d).header.flags.redundant = c.header.flags.redundant := by
      rw [Cell.revised]
      split <;> rfl
    exact link_eq.trans (h.free c hc.mem (redundant_eq.symm.trans irredundant))

/-- A clause that has lost its row is not marked, if those that are have theirs. -/
theorem Lost.markedAll (h : Lost cs t) (placed : ∀ m ∈ ms, At 0 cs m.1 m.2)
    (rows : ∀ m ∈ ms, ∃ row ∈ t.rows.toList, row.identity = m.2.header.identity) :
    Lost (markAll ms cs) (endedAll ms t) := by
  obtain ⟨k, c, hc, learned, none⟩ := h
  have unmarked : k ∉ ms.map Prod.fst := by
    intro marked
    obtain ⟨m, hm, rfl⟩ := List.mem_map.1 marked
    obtain ⟨row, hrow, own⟩ := rows m hm
    rw [(placed m hm).unique hc] at own
    exact none row hrow own
  refine ⟨k, c, ?_, learned, fun row hrow own => ?_⟩
  · rw [markAll_eq]
    exact at_mapAt.2 ⟨c, hc, by rw [Cell.revised, if_neg unmarked]⟩
  · obtain ⟨row', hrow', own'⟩ := identity_of_mem_endedAll hrow
    exact none row' hrow' (own'.trans own)

end Marked

/-! ### Links behind the compaction of the arena -/

section Collected

variable {cs : List Cell} {t : Table}

theorem row?_relocate {m : Relocation} {i : Nat} {row : Row} (found : t.row? i = some row) :
    (t.relocate m).row? i = some { row with clause := (m.get? row.clause).getD .invalid } := by
  rw [Table.row?] at found
  rw [Table.row?, Table.relocate, Array.getElem?_map, found]
  rfl

/-- Clauses stay tied both ways when the arena is compacted. -/
theorem TiedBothWays.collected (h : TiedBothWays cs t) (fill : Nat → UInt32)
    (fits : extents cs < 4294967295) :
    TiedBothWays (settle fill 0 cs) (t.relocate (relocationOf [] cs)) := by
  have bound : 0 + extents cs < 4294967296 := by omega
  constructor
  · intro k' y hy learned
    obtain ⟨k, c, w, hc, -, rfl, lookup_eq⟩ := exists_of_at_settle hy bound
    obtain ⟨i, row, link, found, own, place, alive⟩ := h.own k c hc learned
    refine ⟨i, _, link, row?_relocate found, own, ?_, alive⟩
    show ((relocationOf [] cs).get? row.clause).getD .invalid = _
    have moved : (relocationOf [] cs).get? (.ofOffset k) = some (.ofOffset k') :=
      (@get?_behind [] cs k c fits hc).trans lookup_eq
    rw [place, moved]
    rfl
  · intro y hy irredundant
    obtain ⟨k', at_y⟩ := exists_at 0 hy
    obtain ⟨k, c, w, hc, -, rfl, -⟩ := exists_of_at_settle at_y bound
    exact h.free c hc.mem irredundant

theorem Lost.collected (h : Lost cs t) (fill : Nat → UInt32) (fits : extents cs < 4294967295) :
    Lost (settle fill 0 cs) (t.relocate (relocationOf [] cs)) := by
  obtain ⟨k, c, hc, learned, none⟩ := h
  obtain ⟨k', w, -, hk'⟩ := lookup_moves fill 0 hc learned.1 (by omega)
  refine ⟨k', c.moved w, hk', learned, fun row hrow own => ?_⟩
  rw [Table.relocate, Array.toList_map] at hrow
  obtain ⟨row', hrow', rfl⟩ := List.mem_map.1 hrow
  exact none row' hrow' own

end Collected

end ClauseStore
