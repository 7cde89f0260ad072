import ClauseStore.Proofs.Bonding

/-!
Metering of use. What is on record of the use of a clause is the count of the present period in its
header, and the sum over the periods before in its row, if it has one. A row is looked up by identity
here, as a link cannot name every row; a link that can be read is to the row of the clause. A pass over
the cells then folds the counts of the live redundant clauses into their rows and clears them, and what
is on record of each clause stays the same.
-/

namespace ClauseStore

open Cell Database

/-- A kind of use that is counted. -/
inductive Use where
  | propagation
  /-- as the first reason of a conflict -/
  | uip
  deriving DecidableEq

/-- The count of a use in the present period. -/
def Header.used (h : Header) : Use → UInt32
  | .propagation => h.props
  | .uip => h.uips

/-- The sum of a use over the periods before. -/
def Row.sum (row : Row) : Use → UInt64
  | .propagation => row.sumProps
  | .uip => row.sumUips

namespace Table

/-- The row of an identity, if there is one. -/
def rowOf? (t : Table) (identity : UInt32) : Option Row :=
  t.rows.toList.find? fun row => row.identity == identity

/-- The row at an index, if it is that of an identity. -/
def ownAt (t : Table) (identity : UInt32) (i : Nat) : Option Row :=
  (t.row? i).filter fun row => row.identity == identity

/-- The identities of the rows, in order. -/
def identities (t : Table) : List UInt32 := t.rows.toList.map Row.identity

variable {t t' : Table} {identity : UInt32} {i j : Nat} {row : Row}

theorem ownAt_eq_some :
    t.ownAt identity i = some row ↔ t.row? i = some row ∧ row.identity = identity := by
  rw [ownAt, Option.filter_eq_some_iff, beq_iff_eq]

theorem ownAt_eq_none (h : t.row? i = none) : t.ownAt identity i = none := by
  rw [ownAt, h]
  rfl

/-- A row is that of one identity. -/
theorem ownAt_eq_none_of_ne (h : t.row? i = some row) (other : row.identity ≠ identity) :
    t.ownAt identity i = none := by
  rw [ownAt, h]
  simp [other]

theorem ownAt_congr (h : t'.row? i = t.row? i) : t'.ownAt identity i = t.ownAt identity i := by
  rw [ownAt, ownAt, h]

/-- What is done to every row is done to the own one. -/
theorem ownAt_of_map {f : Row → Row} (identity_eq : ∀ row, (f row).identity = row.identity)
    (h : t'.row? i = (t.row? i).map f) : t'.ownAt identity i = (t.ownAt identity i).map f := by
  rw [ownAt, ownAt, h]
  cases t.row? i with
  | none => rfl
  | some row =>
    rw [Option.map_some, Option.filter_some, Option.filter_some, identity_eq]
    split <;> rfl

/-- The row of an identity is at some index. -/
theorem exists_ownAt (h : t.rowOf? identity = some row) : ∃ i, t.ownAt identity i = some row := by
  obtain ⟨i, found⟩ := exists_row? (List.mem_of_find?_eq_some h)
  exact ⟨i, ownAt_eq_some.2 ⟨found, by simpa using List.find?_some h⟩⟩

theorem ownAt_of_rowOf?_eq_none (h : t.rowOf? identity = none) (i : Nat) :
    t.ownAt identity i = none := by
  cases own : t.ownAt identity i with
  | none => rfl
  | some row =>
    obtain ⟨found, identity_eq⟩ := ownAt_eq_some.1 own
    have other := List.find?_eq_none.1 h row (mem_of_row? found)
    simp [identity_eq] at other

/-- Two rows of different identities are different. -/
theorem index_eq (apart : t.identities.Nodup) {row' : Row} (h : t.ownAt identity i = some row)
    (h' : t.ownAt identity j = some row') : i = j := by
  obtain ⟨found, own⟩ := ownAt_eq_some.1 h
  obtain ⟨found', own'⟩ := ownAt_eq_some.1 h'
  exact index_eq_of_view_eq apart found found' (own.trans own'.symm)

/-- The one row of an identity. -/
theorem rowOf?_eq (apart : t.identities.Nodup) (h : t.ownAt identity i = some row) :
    t.rowOf? identity = some row := by
  cases rowOf : t.rowOf? identity with
  | none =>
    rw [ownAt_of_rowOf?_eq_none rowOf i] at h
    cases h
  | some row' =>
    obtain ⟨j, h'⟩ := exists_ownAt rowOf
    rw [index_eq apart h' h, h] at h'
    exact h'.symm

/-- Different identities below a mark are no more than the mark. -/
theorem size_le (apart : t.identities.Nodup) {next : UInt32}
    (below : ∀ identity ∈ t.identities, identity.toNat < next.toNat) : t.size ≤ next.toNat := by
  have numbers : (t.identities.map UInt32.toNat).Nodup := by
    rw [List.nodup_iff_pairwise_ne, List.pairwise_map]
    exact apart.imp fun different same => different (UInt32.toNat_inj.1 same)
  have sub : t.identities.map UInt32.toNat ⊆ List.range next.toNat := by
    intro n hn
    obtain ⟨identity, h, rfl⟩ := List.mem_map.1 hn
    exact List.mem_range.2 (below identity h)
  have := numbers.length_le_of_subset sub
  simpa [identities, size] using this

end Table

namespace Header

variable {h : Header} {i : Nat}

/-- A link that can be read names the index, and else one that no table reaches. -/
theorem row?_cases (link : h.row? = some i) :
    i < 2147483648 ∧ h.link.toNat = i ∨ 18446744069414584320 ≤ i := by
  rw [row?] at link
  split at link
  · cases link
  · split at link
    next narrow =>
      cases link
      exact .inl ⟨narrow, rfl⟩
    next =>
      cases link
      exact .inr (Nat.le_add_left ..)

theorem link_eq_noLink (unlinked : h.row? = none) : h.link = noLink := by
  rw [row?] at unlinked
  split at unlinked
  next none => exact none
  next => split at unlinked <;> cases unlinked

theorem row?_of_link_eq {h' : Header} (link_eq : h'.link = h.link) : h'.row? = h.row? := by
  rw [row?, row?, link_eq]

/-- A header that keeps the counts and the last use of another, and is live or redundant only if that
is. -/
structure Descends (h h' : Header) : Prop where
  identity_eq : h'.identity = h.identity
  used_eq : ∀ u, h'.used u = h.used u
  touched_eq : h'.touched = h.touched
  keep_eq : h'.flags.keep = h.flags.keep
  garbage : h'.flags.garbage = false → h.flags.garbage = false
  redundant : h'.flags.redundant = true → h.flags.redundant = true

/-- A header that also keeps the link, and glue and grace. -/
structure Inherits (h h' : Header) : Prop extends Descends h h' where
  link_eq : h'.link = h.link
  glue_eq : h'.glue = h.glue
  grace_eq : h'.grace = h.grace

theorem Descends.refl (h : Header) : h.Descends h := ⟨rfl, fun _ => rfl, rfl, rfl, id, id⟩

theorem Inherits.refl (h : Header) : h.Inherits h := ⟨.refl h, rfl, rfl, rfl⟩

theorem Descends.learned {h' : Header} (descends : h.Descends h') (learned : h'.tie.Learned) :
    h.tie.Learned :=
  ⟨descends.garbage learned.1, descends.redundant learned.2⟩

end Header

/-! ### What is on record of a clause -/

/-- What is on record of the use of a live redundant clause with a header and some rows, by their
indices, is a tally, and the count of the present period is within a bound. -/
structure Metered (config : Config) (tally period : Use → Nat) (h : Header) (rows : Nat → Option Row) :
    Prop where
  /-- a link that can be read is to a row of the clause -/
  own : ∀ i, h.row? = some i → i < 2147483648 → (rows i).isSome = true
  /-- a row of the clause is linked, and not garbage -/
  linked : h.tie.Learned → ∀ i row, rows i = some row → h.link = UInt32.ofNat i ∧ row.garbage = false
  summed : h.tie.Learned → ∀ i row, rows i = some row → ∀ u,
    (h.used u).toUInt64 + row.sum u = UInt64.ofNat (tally u)
  bare : h.tie.Learned → (∀ i, rows i = none) → ∀ u, (h.used u).toUInt64 = UInt64.ofNat (tally u)
  within : h.tie.Learned → ∀ u, (h.used u).toNat ≤ period u
  /-- by scores alone no redundant clause is kept -/
  unkept : config.predicting.generating.value = false → h.flags.redundant = true → h.flags.keep = false

namespace Metered

variable {config : Config} {tally period : Use → Nat} {h h' : Header} {rows rows' : Nat → Option Row}
  {t : Table}

theorem inherit (m : Metered config tally period h rows) (inherits : h.Inherits h') :
    Metered config tally period h' rows := by
  constructor
  case own =>
    rw [Header.row?_of_link_eq inherits.link_eq]
    exact m.own
  case linked =>
    intro learned
    rw [inherits.link_eq]
    exact m.linked (inherits.learned learned)
  case summed =>
    intro learned i row found u
    rw [inherits.used_eq]
    exact m.summed (inherits.learned learned) i row found u
  case bare =>
    intro learned none u
    rw [inherits.used_eq]
    exact m.bare (inherits.learned learned) none u
  case within =>
    intro learned u
    rw [inherits.used_eq]
    exact m.within (inherits.learned learned) u
  case unkept =>
    intro generating redundant
    rw [inherits.keep_eq]
    exact m.unkept generating (inherits.redundant redundant)

/-- A row may be revised but for its sums, and unless it ends. -/
theorem mapRows (m : Metered config tally period h rows) {f : Row → Row}
    (rows_eq : ∀ i, rows' i = (rows i).map f) (garbage_eq : ∀ row, (f row).garbage = row.garbage)
    (sum_eq : ∀ row u, (f row).sum u = row.sum u) : Metered config tally period h rows' := by
  constructor
  case own =>
    intro i link narrow
    rw [rows_eq, Option.isSome_map]
    exact m.own i link narrow
  case linked =>
    intro learned i row' found
    rw [rows_eq] at found
    obtain ⟨row, before, rfl⟩ := Option.map_eq_some_iff.1 found
    rw [garbage_eq]
    exact m.linked learned i row before
  case summed =>
    intro learned i row' found u
    rw [rows_eq] at found
    obtain ⟨row, before, rfl⟩ := Option.map_eq_some_iff.1 found
    rw [sum_eq]
    exact m.summed learned i row before u
  case bare =>
    intro learned none u
    refine m.bare learned (fun i => ?_) u
    have := none i
    rw [rows_eq] at this
    exact Option.map_eq_none_iff.1 this
  case within => exact m.within
  case unkept => exact m.unkept

/-- A clause that is not live or not redundant only has a link. -/
theorem of_not_learned (other : ¬ h'.tie.Learned)
    (own : ∀ i, h'.row? = some i → i < 2147483648 → (rows' i).isSome = true)
    (unkept : config.predicting.generating.value = false → h'.flags.redundant = true →
      h'.flags.keep = false) : Metered config tally period h' rows' :=
  ⟨own, fun learned => absurd learned other, fun learned => absurd learned other,
    fun learned => absurd learned other, fun learned => absurd learned other, unkept⟩

/-- A header without a link has no row. -/
theorem no_row (m : Metered config tally period h (t.ownAt h.identity)) (learned : h.tie.Learned)
    (unlinked : h.row? = none) (fits : t.size < 4294967296) (i : Nat) : t.ownAt h.identity i = none := by
  cases own : t.ownAt h.identity i with
  | none => rfl
  | some row =>
    have lt := Table.lt_size_of_row? (Table.ownAt_eq_some.1 own).1
    have link_eq := (m.linked learned i row own).1
    rw [Header.link_eq_noLink unlinked] at link_eq
    have index_eq := congrArg UInt32.toNat link_eq
    have greatest : noLink.toNat = 4294967295 := rfl
    rw [greatest, UInt32.toNat_ofNat'] at index_eq
    omega

/-- A row that a header links to is that of its clause. -/
theorem own_of_link (m : Metered config tally period h (t.ownAt h.identity)) (fits : t.size < 4294967296)
    {i : Nat} {row : Row} (link : h.row? = some i) (found : t.row? i = some row) :
    row.identity = h.identity := by
  have lt := Table.lt_size_of_row? found
  rcases Header.row?_cases link with ⟨narrow, -⟩ | wide
  · obtain ⟨row', own⟩ := Option.isSome_iff_exists.1 (m.own i link narrow)
    obtain ⟨found', identity_eq⟩ := Table.ownAt_eq_some.1 own
    rw [found] at found'
    cases found'
    exact identity_eq
  · omega

/-- The count of the present period and the sum in the row of the clause, if there is one, are a tally. -/
theorem word_eq (m : Metered config tally period h (t.ownAt h.identity)) (learned : h.tie.Learned)
    (u : Use) :
    (h.used u).toUInt64 + ((t.rowOf? h.identity).map fun row => row.sum u).getD 0 =
      UInt64.ofNat (tally u) := by
  cases rowOf : t.rowOf? h.identity with
  | none =>
    rw [← m.bare learned (Table.ownAt_of_rowOf?_eq_none rowOf)]
    exact UInt64.add_zero _
  | some row =>
    obtain ⟨i, own⟩ := Table.exists_ownAt rowOf
    exact m.summed learned i row own u

/-- The row that a live redundant clause is linked to is that of its identity, where links can name
all rows. -/
theorem bind_row? (m : Metered config tally period h (t.ownAt h.identity)) (learned : h.tie.Learned)
    (narrow : t.size ≤ 2147483648) : h.row?.bind t.row? = t.rowOf? h.identity := by
  cases rowOf : t.rowOf? h.identity with
  | none =>
    cases link : h.row? with
    | none => rfl
    | some i =>
      cases found : t.row? i with
      | none => exact found
      | some row =>
        have own := Table.ownAt_eq_some.2 ⟨found, m.own_of_link (by omega) link found⟩
        rw [Table.ownAt_of_rowOf?_eq_none rowOf i] at own
        cases own
  | some row =>
    obtain ⟨i, own⟩ := Table.exists_ownAt rowOf
    obtain ⟨found, -⟩ := Table.ownAt_eq_some.1 own
    have lt := Table.lt_size_of_row? found
    have link_eq := (m.linked learned i row own).1
    have named : h.row? = (h.withRow (some i)).row? := Header.row?_of_link_eq link_eq
    rw [named, Header.row?_withRow (by omega)]
    exact found

/-- The end of the row of a clause concerns no other one. -/
theorem ownAt_ended (m : Metered config tally period h (t.ownAt h.identity)) (fits : t.size < 4294967296)
    {identity : UInt32} (other : identity ≠ h.identity) (i : Nat) :
    (t.ended h).ownAt identity i = t.ownAt identity i := by
  by_cases link : h.row? = some i
  · cases found : t.row? i with
    | none => exact Table.ownAt_congr (by rw [Table.row?_ended, if_pos link, found]; rfl)
    | some row =>
      have identity_eq := m.own_of_link fits link found
      have ended : (t.ended h).row? i = some { row with garbage := true } := by
        rw [Table.row?_ended, if_pos link, found]
        rfl
      rw [Table.ownAt_eq_none_of_ne found fun same => other (same.symm.trans identity_eq),
        Table.ownAt_eq_none_of_ne ended fun same => other (same.symm.trans identity_eq)]
  · exact Table.ownAt_congr (by rw [Table.row?_ended, if_neg link])

end Metered

/-- The end of a row leaves it where it is. -/
theorem Table.isSome_ownAt_ended (t : Table) (h : Header) (identity : UInt32) (i : Nat) :
    ((t.ended h).ownAt identity i).isSome = (t.ownAt identity i).isSome := by
  by_cases link : h.row? = some i
  · have rows_eq : (t.ended h).row? i = (t.row? i).map fun row => { row with garbage := true } := by
      rw [row?_ended, if_pos link]
    rw [ownAt_of_map (f := fun row => { row with garbage := true }) (fun _ => rfl) rows_eq,
      Option.isSome_map]
  · have rows_eq : (t.ended h).row? i = t.row? i := by rw [row?_ended, if_neg link]
    rw [ownAt_congr rows_eq]

/-! ### A pass over the cells -/

namespace Table

variable {t : Table} {identity : UInt32} {row : Row}

theorem ownAt_revise {f : Row → Row} (identity_eq : ∀ row, (f row).identity = row.identity) (i j : Nat) :
    (t.revise i f).ownAt identity j =
      if i = j then (t.ownAt identity j).map f else t.ownAt identity j := by
  by_cases here : i = j
  · rw [if_pos here]
    exact ownAt_of_map identity_eq (by rw [row?_revise, if_pos here])
  · rw [if_neg here]
    exact ownAt_congr (by rw [row?_revise, if_neg here])

/-- A row that is added is of no other identity. -/
theorem ownAt_push_other (other : row.identity ≠ identity) (j : Nat) :
    (t.push row).ownAt identity j = t.ownAt identity j := by
  by_cases last : j = t.size
  · have pushed : (t.push row).row? j = some row := by rw [row?_push, if_pos last]
    have missing : t.row? j = none := by
      rw [row?, Array.getElem?_eq_none_iff, last]
      exact Nat.le_refl _
    rw [ownAt_eq_none_of_ne pushed other, ownAt_eq_none missing]
  · exact ownAt_congr (by rw [row?_push, if_neg last])

theorem ownAt_push (j : Nat) : (t.push row).ownAt row.identity j =
    if j = t.size then some row else t.ownAt row.identity j := by
  by_cases last : j = t.size
  · rw [if_pos last, ownAt_eq_some, row?_push, if_pos last]
    exact ⟨rfl, rfl⟩
  · rw [if_neg last]
    exact ownAt_congr (by rw [row?_push, if_neg last])

theorem mem_identities : identity ∈ t.identities ↔ ∃ i row, t.ownAt identity i = some row := by
  constructor
  · intro h
    obtain ⟨row, hrow, own⟩ := List.mem_map.1 h
    obtain ⟨i, found⟩ := exists_row? hrow
    exact ⟨i, row, ownAt_eq_some.2 ⟨found, own⟩⟩
  · rintro ⟨i, row, own⟩
    obtain ⟨found, rfl⟩ := ownAt_eq_some.1 own
    exact List.mem_map_of_mem (mem_of_row? found)

theorem identities_revise {f : Row → Row} (identity_eq : ∀ row, (f row).identity = row.identity)
    (t : Table) (i : Nat) : (t.revise i f).identities = t.identities :=
  map_rows_modify identity_eq t i

theorem identities_ended (t : Table) (h : Header) : (t.ended h).identities = t.identities := by
  rw [ended]
  cases h.row? with
  | none => rfl
  | some i => exact identities_revise (f := fun row => { row with garbage := true }) (fun _ => rfl) t i

theorem identities_push (t : Table) (row : Row) :
    (t.push row).identities = t.identities ++ [row.identity] := by
  simp [identities, push]

end Table

/-- What is on record of the use of every clause is a tally, and no two rows are of one identity. -/
structure Posted (config : Config) (tally period : Use → UInt32 → Nat) (next : UInt32) (cs : List Cell)
    (t : Table) : Prop where
  apart : t.identities.Nodup
  below : ∀ identity ∈ t.identities, identity.toNat < next.toNat
  metered : ∀ c ∈ cs, Metered config (tally · c.header.identity) (period · c.header.identity) c.header
    (t.ownAt c.header.identity)
  unheard : ∀ u identity, next.toNat ≤ identity.toNat → tally u identity = 0

theorem Posted.fits {config : Config} {tally period : Use → UInt32 → Nat} {next : UInt32}
    {cs : List Cell} {t : Table} (h : Posted config tally period next cs t) : t.size < 4294967296 :=
  Nat.lt_of_le_of_lt (Table.size_le h.apart h.below) next.toNat_lt

/-- A clause that the scan has met, and its row. -/
structure Swept (h : Header) (t : Table) : Prop where
  cleared : h.tie.Learned → ∀ u, h.used u = 0
  seen : h.tie.Learned → ∃ i row, t.ownAt h.identity i = some row ∧ row.seen = true ∧
    row.touched = h.touched
  free : h.flags.redundant = false → h.row? = none

theorem Swept.of_ownAt {h : Header} {t t' : Table} (swept : Swept h t)
    (rows_eq : t'.ownAt h.identity = t.ownAt h.identity) : Swept h t' := by
  refine ⟨swept.cleared, fun learned => ?_, swept.free⟩
  rw [rows_eq]
  exact swept.seen learned

/-- A clause whose count is cleared and that has a row. -/
theorem Metered.of_row {config : Config} {tally period : Use → Nat} {h : Header}
    {rows : Nat → Option Row} (i : Nat) (row : Row) (fits : i < 4294967296)
    (only : ∀ j row', rows j = some row' → j = i ∧ row' = row) (found : rows i = some row)
    (link : h.link = UInt32.ofNat i) (live : row.garbage = false) (cleared : ∀ u, h.used u = 0)
    (sum_eq : ∀ u, row.sum u = UInt64.ofNat (tally u))
    (unkept : config.predicting.generating.value = false → h.flags.redundant = true →
      h.flags.keep = false) : Metered config tally period h rows := by
  constructor
  case own =>
    intro j link' narrow
    rcases Header.row?_cases link' with ⟨-, index_eq⟩ | wide
    · rw [link, UInt32.toNat_ofNat'] at index_eq
      have here : j = i := by omega
      rw [here, found]
      rfl
    · omega
  case linked =>
    intro learned j row' found'
    obtain ⟨rfl, rfl⟩ := only j row' found'
    exact ⟨link, live⟩
  case summed =>
    intro learned j row' found' u
    obtain ⟨rfl, rfl⟩ := only j row' found'
    rw [cleared, sum_eq]
    exact UInt64.zero_add _
  case bare =>
    intro learned none
    rw [none i] at found
    cases found
  case within =>
    intro learned u
    rw [cleared]
    exact Nat.zero_le _
  case unkept => exact unkept

namespace ScanPlan

variable {p : ScanPlan} {k : Nat} {h h' : Header} {t t' : Table} {progress progress' : ScanProgress}
  {config : Config}

theorem used_weigh (p : ScanPlan) (h : Header) (u : Use) : (p.weigh h).1.used u = 0 := by
  cases u <;> rfl

theorem flags_weigh (p : ScanPlan) (h : Header) : (p.weigh h).1.flags = h.flags := by
  have := lasting_weigh p h
  simp only [Header.lasting, Header.mk.injEq] at this
  exact this.2.1

theorem identity_weigh (p : ScanPlan) (h : Header) : (p.weigh h).1.identity = h.identity := by
  have := lasting_weigh p h
  simp only [Header.lasting, Header.mk.injEq] at this
  exact this.2.2.2.1

theorem touched_weigh (p : ScanPlan) (h : Header) : (p.weigh h).1.touched = h.touched := by
  have := lasting_weigh p h
  simp only [Header.lasting, Header.mk.injEq] at this
  exact this.2.2.2.2.2.2.2.1

theorem touched_touch (p : ScanPlan) (k : Nat) (h : Header) (row : Row) :
    (p.touch k h row).touched = h.touched := by
  simp only [touch, Row.update]
  split <;> rfl

theorem sum_touch (p : ScanPlan) (k : Nat) (h : Header) (row : Row) (u : Use) :
    (p.touch k h row).sum u = row.sum u + (h.used u).toUInt64 := by
  simp only [touch, Row.update]
  split <;> cases u <;> rfl

theorem Step.identity_eq (step : Step p k h t progress (.ok progress') h' t') :
    h'.identity = h.identity := by
  have := step.lasting
  simp only [Header.lasting, Header.mk.injEq] at this
  exact this.2.2.2.1

section Metered

variable {tally period : Use → Nat}

/-- A step concerns no row of another clause. -/
theorem Step.ownAt_other (step : Step p k h t progress (.ok progress') h' t')
    (m : Metered config tally period h (t.ownAt h.identity)) (fits : t.size < 4294967296)
    {identity : UInt32} (other : identity ≠ h.identity) (i : Nat) :
    t'.ownAt identity i = t.ownAt identity i := by
  cases step with
  | irredundant => exact m.ownAt_ended fits other i
  | early => rfl
  | garbage => exact m.ownAt_ended fits other i
  | untracked => rfl
  | @linked j row redundant counts live link found own =>
    rw [Table.ownAt_revise (identity_touch p k h)]
    split
    next here =>
      subst here
      rw [Table.ownAt_eq_none_of_ne found fun same => other (same.symm.trans own)]
      rfl
    next => rfl
  | fresh redundant counts live unlinked =>
    have foreign : (Row.fresh h.identity (.ofOffset k) p.conflicts).identity ≠ identity := other.symm
    rw [Table.ownAt_revise (identity_touch p k _), Table.ownAt_push_other foreign]
    split
    next here =>
      have missing : t.row? i = none := by
        rw [Table.row?, Array.getElem?_eq_none_iff, ← here]
        exact Nat.le_refl _
      rw [Table.ownAt_eq_none missing]
      rfl
    next => rfl

/-- A clause whose counts are folded into its row. -/
theorem metered_weigh {i : Nat} {row : Row} (k : Nat) (fits : i < 4294967296)
    (only : ∀ j row', t.ownAt h.identity j = some row' → j = i)
    (own : t.ownAt h.identity i = some row) (link : h.link = UInt32.ofNat i)
    (live : row.garbage = false)
    (summed : ∀ u, (h.used u).toUInt64 + row.sum u = UInt64.ofNat (tally u))
    (unkept : config.predicting.generating.value = false → h.flags.redundant = true →
      h.flags.keep = false) :
    Metered config tally period (p.weigh h).1 ((t.revise i (p.touch k h)).ownAt h.identity) := by
  have touched : (t.revise i (p.touch k h)).ownAt h.identity i = some (p.touch k h row) := by
    rw [Table.ownAt_revise (identity_touch p k h), if_pos rfl, own]
    rfl
  refine .of_row i (p.touch k h row) fits (fun j row' own' => ?_) touched ?_ ?_ (used_weigh p h)
    (fun u => ?_) ?_
  · rw [Table.ownAt_revise (identity_touch p k h)] at own'
    split at own'
    next here =>
      subst here
      rw [own] at own'
      exact ⟨rfl, (Option.some.inj own').symm⟩
    next elsewhere => exact absurd (only j row' own').symm elsewhere
  · rw [link_weigh, link]
  · rw [garbage_touch, live]
  · rw [sum_touch, UInt64.add_comm, summed]
  · rw [flags_weigh]
    exact unkept

/-- A step keeps what is on record of its clause. -/
theorem Step.metered (step : Step p k h t progress (.ok progress') h' t')
    (m : Metered config tally period h (t.ownAt h.identity)) (apart : t.identities.Nodup)
    (fits : t.size < 4294967296) (tracked : p.collecting = true) :
    Metered config tally period h' (t'.ownAt h.identity) := by
  cases step with
  | irredundant irredundant =>
    refine .of_not_learned (fun learned => ?_) (fun i link => ?_) m.unkept
    · exact Bool.false_ne_true (irredundant.symm.trans learned.2)
    · rw [Header.row?_withRow_none] at link
      cases link
  | early => exact m
  | garbage redundant counts garbage =>
    refine .of_not_learned (fun learned => ?_) (fun i link narrow => ?_) m.unkept
    · exact Bool.false_ne_true (learned.1.symm.trans garbage)
    · rw [Table.isSome_ownAt_ended]
      exact m.own i link narrow
  | untracked redundant counts live untracked =>
    rw [tracked] at untracked
    cases untracked
  | @linked i row redundant counts live link found own =>
    have learned : h.tie.Learned := ⟨live, redundant⟩
    have own_eq : t.ownAt h.identity i = some row := Table.ownAt_eq_some.2 ⟨found, own⟩
    obtain ⟨link_eq, alive⟩ := m.linked learned i row own_eq
    have lt := Table.lt_size_of_row? found
    exact metered_weigh k (by omega) (fun j row' own' => Table.index_eq apart own' own_eq) own_eq
      link_eq alive (m.summed learned i row own_eq) m.unkept
  | fresh redundant counts live unlinked =>
    have learned : h.tie.Learned := ⟨live, redundant⟩
    have none := m.no_row learned unlinked fits
    have pushed : ∀ j, (t.push (Row.fresh h.identity (.ofOffset k) p.conflicts)).ownAt h.identity j =
        if j = t.size then some (Row.fresh h.identity (.ofOffset k) p.conflicts)
        else t.ownAt h.identity j := Table.ownAt_push
    refine metered_weigh (h := h.withRow (some t.size)) (i := t.size) k fits (fun j row' own' => ?_)
      ((pushed t.size).trans (if_pos rfl)) rfl rfl (fun u => ?_) m.unkept
    · have own' := (pushed j).symm.trans own'
      split at own'
      next here => exact here
      next =>
        rw [none] at own'
        cases own'
    · rw [← m.bare learned none u]
      cases u <;> exact UInt64.add_zero _

/-- A step adds a row of its clause, which is then live and redundant, or none. -/
theorem Step.identities (step : Step p k h t progress (.ok progress') h' t')
    (m : Metered config tally period h (t.ownAt h.identity)) (fits : t.size < 4294967296) :
    t'.identities = t.identities ∨
      t'.identities = t.identities ++ [h.identity] ∧ h.identity ∉ t.identities ∧ h.tie.Learned := by
  cases step with
  | irredundant => exact .inl (Table.identities_ended t h)
  | early => exact .inl rfl
  | garbage => exact .inl (Table.identities_ended t h)
  | untracked => exact .inl rfl
  | linked => exact .inl (Table.identities_revise (identity_touch p k h) t _)
  | fresh redundant counts live unlinked =>
    refine .inr ⟨(Table.identities_revise (identity_touch p k _) _ _).trans (Table.identities_push ..), ?_,
      live, redundant⟩
    intro there
    obtain ⟨i, row, own⟩ := Table.mem_identities.1 there
    rw [m.no_row ⟨live, redundant⟩ unlinked fits i] at own
    cases own

end Metered

theorem swept_weigh {i : Nat} {row : Row} (redundant : h.flags.redundant = true)
    (own : t.ownAt h.identity i = some row) (seen : row.seen = true)
    (touched : row.touched = h.touched) : Swept (p.weigh h).1 t := by
  refine ⟨fun _ => used_weigh p h, fun _ => ⟨i, row, ?_, seen, ?_⟩, fun irredundant => ?_⟩
  · rw [identity_weigh]
    exact own
  · rw [touched_weigh]
    exact touched
  · rw [flags_weigh, redundant] at irredundant
    cases irredundant

/-- A step sweeps its clause. -/
theorem Step.swept (step : Step p k h t progress (.ok progress') h' t') (tracked : p.collecting = true)
    (opens : h.flags.redundant = true → p.opens h = true) : Swept h' t' := by
  cases step with
  | irredundant irredundant =>
    have other : ¬ (h.withRow none).tie.Learned := fun learned =>
      Bool.false_ne_true (irredundant.symm.trans learned.2)
    exact ⟨fun learned => absurd learned other, fun learned => absurd learned other,
      fun _ => Header.row?_withRow_none h⟩
  | early redundant early =>
    rw [counts, opens redundant, Bool.or_true] at early
    cases early
  | garbage redundant counts garbage =>
    have other : ¬ h.tie.Learned := fun learned => Bool.false_ne_true (learned.1.symm.trans garbage)
    refine ⟨fun learned => absurd learned other, fun learned => absurd learned other,
      fun irredundant => ?_⟩
    rw [redundant] at irredundant
    cases irredundant
  | untracked redundant counts live untracked =>
    rw [tracked] at untracked
    cases untracked
  | @linked i row redundant counts live link found own =>
    have own_eq : t.ownAt h.identity i = some row := Table.ownAt_eq_some.2 ⟨found, own⟩
    have touched : (t.revise i (p.touch k h)).ownAt h.identity i = some (p.touch k h row) := by
      rw [Table.ownAt_revise (identity_touch p k h), if_pos rfl, own_eq]
      rfl
    exact swept_weigh redundant touched (seen_touch ..) (touched_touch ..)
  | fresh redundant counts live unlinked =>
    let g := h.withRow (some t.size)
    let row := Row.fresh h.identity (.ofOffset k) p.conflicts
    have pushed : (t.push row).ownAt h.identity t.size = some row :=
      (Table.ownAt_push t.size).trans (if_pos rfl)
    have touched : ((t.push row).revise t.size (p.touch k g)).ownAt g.identity t.size =
        some (p.touch k g row) := by
      rw [Table.ownAt_revise (identity_touch p k g), if_pos rfl]
      exact congrArg (Option.map _) pushed
    exact swept_weigh redundant touched (seen_touch ..) (touched_touch ..)

end ScanPlan

/-! ### The whole pass -/

theorem Cell.identity_ne_of_ascending {xs ys : List Cell} {c d : Cell}
    (ascending : ((xs ++ c :: ys).map identity).Pairwise (· < ·)) (hd : d ∈ xs ++ ys) :
    d.header.identity ≠ c.header.identity := by
  rw [List.map_append, List.map_cons, List.pairwise_append, List.pairwise_cons] at ascending
  obtain ⟨-, ⟨behind, -⟩, across⟩ := ascending
  intro same
  have same : d.identity = c.identity := congrArg UInt32.toNat same
  rcases List.mem_append.1 hd with front | back
  · have := across _ (List.mem_map_of_mem front) c.identity (by simp)
    omega
  · have := behind _ (List.mem_map_of_mem back)
    omega

namespace ScanPlan

variable {p : ScanPlan} {k : Nat} {t t' : Table} {progress progress' : ScanProgress} {config : Config}

variable {tally period : Use → UInt32 → Nat} {next : UInt32}

/-- A step keeps what is on record of every clause. -/
theorem Step.posted {xs ys : List Cell} {c : Cell} {g : Header}
    (step : Step p k c.header t progress (.ok progress') g t') (tracked : p.collecting = true)
    (ascending : ((xs ++ c :: ys).map identity).Pairwise (· < ·)) (below : c.identity < next.toNat)
    (posted : Posted config tally period next (xs ++ c :: ys) t) :
    Posted config tally period next (xs ++ c.withHeader g :: ys) t' := by
  have m := posted.metered c (by simp)
  have fits := posted.fits
  have identities := step.identities m fits
  constructor
  case apart =>
    rcases identities with same | ⟨more, new, -⟩
    · rw [same]
      exact posted.apart
    · rw [more]
      exact List.nodup_append.2 ⟨posted.apart, by simp, by
        rintro a ha b hb rfl
        rw [List.mem_singleton.1 hb] at ha
        exact new ha⟩
  case below =>
    rcases identities with same | ⟨more, -⟩
    · rw [same]
      exact posted.below
    · intro identity hi
      rw [more] at hi
      rcases List.mem_append.1 hi with hi | hi
      · exact posted.below identity hi
      · rw [List.mem_singleton.1 hi]
        exact below
  case metered =>
    have others : ∀ d ∈ xs ++ ys, Metered config (tally · d.header.identity) (period · d.header.identity)
        d.header (t'.ownAt d.header.identity) := by
      intro d hd
      have rows_eq : t'.ownAt d.header.identity = t.ownAt d.header.identity :=
        funext (step.ownAt_other m fits (identity_ne_of_ascending ascending hd))
      rw [rows_eq]
      refine posted.metered d ((List.mem_append.1 hd).elim (List.mem_append_left _) fun behind => ?_)
      exact List.mem_append_right _ (List.mem_cons_of_mem _ behind)
    intro d hd
    rcases List.mem_append.1 hd with front | hd
    · exact others d (List.mem_append_left _ front)
    rcases List.mem_cons.1 hd with rfl | behind
    · show Metered config (tally · g.identity) (period · g.identity) g (t'.ownAt g.identity)
      rw [step.identity_eq]
      exact step.metered m posted.apart fits tracked
    · exact others d (List.mem_append_right _ behind)
  case unheard => exact posted.unheard

/-- What a step keeps, with its cell among those that the pass has come by. -/
theorem Step.posted_behind {xs ys : List Cell} {c : Cell} {g : Header}
    (step : Step p k c.header t progress (.ok progress') g t') (tracked : p.collecting = true)
    (ascending : ((xs ++ c :: ys).map identity).Pairwise (· < ·)) (below : c.identity < next.toNat)
    (posted : Posted config tally period next (xs ++ c :: ys) t) :
    Posted config tally period next ((xs ++ [c.withHeader g]) ++ ys) t' ∧
      (((xs ++ [c.withHeader g]) ++ ys).map identity).Pairwise (· < ·) := by
  have split_eq : xs ++ c.withHeader g :: ys = (xs ++ [c.withHeader g]) ++ ys := by simp
  have same : (c.withHeader g).identity = c.identity := congrArg UInt32.toNat step.identity_eq
  rw [← split_eq]
  exact ⟨step.posted tracked ascending below posted, by simpa [same] using ascending⟩

/-- A pass keeps what is on record of every clause, and sweeps those that it comes by. -/
theorem Pass.posted {xs cs zs : List Cell} (pass : Pass p k cs t progress (.ok progress') zs t')
    (tracked : p.collecting = true)
    (opens : ∀ c ∈ cs, c.header.flags.redundant = true → p.opens c.header = true)
    (ascending : ((xs ++ cs).map identity).Pairwise (· < ·))
    (below : ∀ c ∈ cs, c.identity < next.toNat)
    (posted : Posted config tally period next (xs ++ cs) t) :
    Posted config tally period next (xs ++ zs) t' ∧ (∀ z ∈ zs, Swept z.header t') ∧
      ∀ identity, (∀ c ∈ cs, identity ≠ c.header.identity) → t'.ownAt identity = t.ownAt identity := by
  generalize result_eq : Except.ok progress' = result at pass
  induction pass generalizing xs with
  | nil => exact ⟨posted, by simp, fun _ _ => rfl⟩
  | failed => cases result_eq
  | @cons k c cs zs t t₁ t' progress progress₁ r h step rest ih =>
    have m := posted.metered c (by simp)
    have fits := posted.fits
    obtain ⟨posted₁, ascending₁⟩ := step.posted_behind tracked ascending (below c (by simp)) posted
    obtain ⟨behind, swept, kept⟩ := ih (fun d hd => opens d (by simp [hd])) ascending₁
      (fun d hd => below d (by simp [hd])) posted₁ result_eq
    rw [List.append_assoc] at behind
    refine ⟨behind, fun z hz => ?_, fun identity others => ?_⟩
    · rcases List.mem_cons.1 hz with rfl | hz
      · refine (step.swept tracked (opens c (by simp))).of_ownAt (kept _ fun d hd => ?_)
        rw [step.identity_eq]
        exact (identity_ne_of_ascending ascending (List.mem_append_right _ hd)).symm
      · exact swept z hz
    · rw [kept identity fun d hd => others d (by simp [hd])]
      exact funext (step.ownAt_other m fits (others c (by simp)))

end ScanPlan

end ClauseStore
