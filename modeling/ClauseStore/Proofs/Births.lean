import ClauseStore.Proofs.Export
import ClauseStore.Proofs.Scoring

/-!
When rows are made. The row of a clause begins with the first scan that meets the clause, and no scan,
score or compaction revises when it began: so along a run by scores in which no reduction fails, the row
of a live redundant clause tells after how many conflicts the clause was first scanned.
-/

namespace ClauseStore

open Cell Database

/-! ### Looking up by identity -/

section Lookup

variable {β γ : Type} {xs ys : List (UInt32 × β)} {i : UInt32} {b : β}

/-- In a part of a list the same is found, if anything is. -/
theorem lookup_of_sublist (sub : xs.Sublist ys) (apart : (ys.map Prod.fst).Nodup)
    (there : i ∈ xs.map Prod.fst) : xs.lookup i = ys.lookup i := by
  obtain ⟨⟨i, b⟩, hx, rfl⟩ := List.mem_map.1 there
  rw [lookup_of_mem apart (sub.subset hx), lookup_of_mem ((sub.map _).nodup apart) hx]

theorem lookup_map (f : β → γ) (xs : List (UInt32 × β)) (i : UInt32) :
    (xs.map fun x => (x.1, f x.2)).lookup i = (xs.lookup i).map f := by
  induction xs with
  | nil => rfl
  | cons x xs ih =>
    rw [List.map_cons, List.lookup_cons, List.lookup_cons]
    split
    · rfl
    · exact ih

/-- Behind a list to which one value was added for some keys, it is found only where the list has none. -/
theorem lookup_append_map {made : List UInt32} {v : β}
    (there : i ∈ (xs ++ made.map fun i => (i, v)).map Prod.fst) :
    (xs ++ made.map fun i => (i, v)).lookup i = some ((xs.lookup i).getD v) := by
  rw [List.lookup_append]
  cases found : xs.lookup i with
  | some b => rfl
  | none =>
    have fresh : i ∈ (made.map fun i => (i, v)).map Prod.fst := by
      rw [List.map_append] at there
      refine (List.mem_append.1 there).resolve_left fun old => ?_
      obtain ⟨x, hx, same⟩ := List.mem_map.1 old
      have other := List.lookup_eq_none_iff.1 found x hx
      simp [same] at other
    obtain ⟨⟨j, w⟩, hj, rfl⟩ := List.mem_map.1 fresh
    cases begun : (made.map fun i => (i, v)).lookup j with
    | none =>
      have other := List.lookup_eq_none_iff.1 begun _ hj
      simp at other
    | some w =>
      obtain ⟨before, behind, split, -⟩ := List.lookup_eq_some_iff.1 begun
      have there : (j, w) ∈ made.map fun i => (i, v) := by rw [split]; simp
      obtain ⟨k, -, same⟩ := List.mem_map.1 there
      cases same
      rfl

end Lookup

/-! ### Histories behind a scan -/

namespace Table

variable {t t' : Table} {conflicts : UInt64} {i : UInt32}

/-- The identities of the rows, and when each row was made. -/
def births (t : Table) : List (UInt32 × UInt64) := t.rows.toList.map fun row => (row.identity, row.born)

theorem births_eq_histories (t : Table) : t.births = t.histories.map fun h => (h.1, h.2.1) := by
  rw [histories, List.map_map]
  rfl

theorem identities_eq_births (t : Table) : t.identities = t.births.map Prod.fst := by
  rw [births, List.map_map]
  rfl

theorem births_of_keys (h : t'.keys = t.keys) : t'.births = t.births := by
  have births_eq : ∀ t : Table, t.births = t.keys.map fun key => (key.1, key.2.2.2.2.1) := by
    intro t
    rw [keys, List.map_map]
    rfl
  rw [births_eq, births_eq, h]

theorem histories_endedAll (ms : List Placed) (t : Table) : (endedAll ms t).histories = t.histories := by
  induction ms generalizing t with
  | nil => rfl
  | cons m ms ih => exact (ih (t.ended m.2.header)).trans (histories_ended t m.2.header)

theorem histories_relocate (t : Table) (m : Relocation) : (t.relocate m).histories = t.histories := by
  rw [histories, relocate, Array.toList_map, List.map_map]
  rfl

theorem births_of_histories (h : t'.histories = t.histories) : t'.births = t.births := by
  rw [births_eq_histories, h, ← births_eq_histories]

/-- Every row has its history from before a scan, or one that begins with it. -/
def Continues (t₀ t : Table) (conflicts : UInt64) : Prop :=
  ∀ i ∈ t.identities,
    t.histories.lookup i = some ((t₀.histories.lookup i).getD (conflicts, .zero, .zero))

variable {t₀ : Table}

/-- The rows that stay go on. -/
theorem Continues.settled (h : Continues t₀ t conflicts) (apart : t.identities.Nodup) :
    Continues t₀ t.settled conflicts := by
  intro i hi
  rw [identities_eq_histories] at hi apart
  have sub := histories_settled t
  have there : i ∈ t.identities := by
    rw [identities_eq_histories]
    exact (sub.map _).subset hi
  rw [lookup_of_sublist sub apart hi]
  exact h i there

/-- Where no two rows are of one identity, the histories are those from before the scan, or begin with it. -/
theorem Continues.histories_eq (h : Continues t₀ t conflicts) (apart : t.identities.Nodup) :
    t.histories =
      t.identities.map fun i => (i, (t₀.histories.lookup i).getD (conflicts, .zero, .zero)) := by
  rw [identities_eq_histories, List.map_map]
  refine (List.map_id _).symm.trans (List.map_congr_left fun x hx => ?_)
  rw [identities_eq_histories] at apart
  have found := h x.1 (by rw [identities_eq_histories]; exact List.mem_map_of_mem hx)
  rw [lookup_of_mem apart (show (x.1, x.2) ∈ t.histories from hx)] at found
  exact Prod.ext rfl (Option.some.inj found)

theorem Continues.born (h : Continues t₀ t conflicts) (hi : i ∈ t.identities) :
    t.births.lookup i = some ((t₀.births.lookup i).getD conflicts) := by
  have view : ∀ t : Table, t.births.lookup i = (t.histories.lookup i).map Prod.fst := by
    intro t
    rw [births_eq_histories]
    exact lookup_map Prod.fst t.histories i
  rw [view t, view t₀, h i hi]
  cases t₀.histories.lookup i <;> rfl

end Table

/-- A scan leaves the histories of the rows. -/
theorem ScanPlan.continues_of_pass {plan : ScanPlan} {k : Nat} {cs zs : List Cell} {t₀ t : Table}
    {r : Except Error ScanProgress} (pass : plan.scanCells k cs (tableFor plan t₀) {} = (r, zs, t)) :
    Table.Continues t₀ t plan.conflicts := by
  obtain ⟨made, histories_eq⟩ := histories_of_pass pass
  intro i hi
  rw [Table.identities_eq_histories, histories_eq] at hi
  rw [histories_eq]
  exact lookup_append_map hi

/-! ### Evictions and reductions -/

/-- Behind an eviction that does not fail, the row of a clause was made before it or begins with it. -/
theorem Eviction.born {config : Config} {tally period : Use → UInt32 → Nat} {plan : ScanPlan}
    {fraction : UInt32} {db db' : Database} {ys cs : List Cell} {r : Option Nat}
    (h : Eviction plan fraction [] ys db (.ok r) db' cs) (holds : db.Holds ys)
    (posted : Posted config tally period db.nextIdentity ys db.table) (tracks : Tracks plan config)
    {d : Cell} (hd : d ∈ cs) (learned : d.Learned) : db'.table.births.lookup d.header.identity =
      some ((db.table.births.lookup d.header.identity).getD plan.conflicts) := by
  have there := h.listed holds posted tracks d hd learned
  cases h with
  | idle pass => exact (plan.continues_of_pass pass).born there
  | @removed p cs t t' es ms n settled keys_eq _ _ offers =>
    rw [Eviction.table_removed offers] at there ⊢
    have births_eq : (endedAll ms t').births = t.births :=
      (Table.births_of_histories (Table.histories_endedAll ms t')).trans (Table.births_of_keys keys_eq)
    rw [Table.identities_eq_births, births_eq, ← Table.identities_eq_births] at there
    rw [births_eq]
    cases settled with
    | bare untracked =>
      rw [tracks.collecting] at untracked
      cases untracked
    | linked _ pass =>
      obtain ⟨behind, -⟩ := posted.scanned holds tracks pass
      exact ((plan.continues_of_pass pass).settled behind.apart).born there

/-- Behind a reduction that scans and does not fail, the row of a clause was made before it or begins with
it. -/
theorem Reduction.born {π : Type} {c : Context π} {tally period : Use → UInt32 → Nat} {search : Snapshot}
    {cs ds : List Cell} {result : Report × Snapshot} {db : Database}
    (h : Reduction c search cs (.ok result) db ds) (holds : c.database.Holds cs)
    (collecting : c.config.collecting = true)
    (posted : Posted c.config tally period c.database.nextIdentity cs c.database.table)
    (consistent : search.inconsistent = false) {d : Cell} (hd : d ∈ ds) (learned : d.Learned) :
    db.table.births.lookup d.header.identity =
      some ((c.database.table.births.lookup d.header.identity).getD c.counters.conflicts) := by
  have holds : (c.database.laid (flagged true (c.protects search) cs)).Holds _ :=
    holds.of_core (core_flagged true (c.protects search) cs)
  have flags := posted.inherit (springs_flagged true (c.protects search) cs)
  have whole := c.scanStart_of_collecting collecting (c.whole search)
  have tracks : Tracks c.plan c.config := Reduction.tracks collecting
  -- flags and places of clauses do not concern the rows
  have before : ∀ {ys ds₀ ds₁ : List Cell} {found : Option Nat} {db₀ : Database},
      flagged true (c.protects search) cs = [] ++ ys →
      Eviction c.plan c.config.reducing.fraction.value [] ys (c.database.laid ([] ++ ys)) (.ok found)
        db₀ ds₀ → Springs Header.Descends ds₀ ds₁ → d ∈ ds₁ →
      db₀.table.births.lookup d.header.identity =
        some ((c.database.table.births.lookup d.header.identity).getD c.counters.conflicts) := by
    intro ys ds₀ ds₁ found db₀ split eviction springs hd
    rw [split] at holds flags
    obtain ⟨x, hx, descends⟩ := springs d hd
    rw [descends.identity_eq]
    exact eviction.born holds flags tracks hx (descends.learned learned)
  cases h with
  | unstarted nowhere =>
    rw [whole] at nowhere
    cases nowhere
  | unsatisfiable inconsistent =>
    rw [consistent] at inconsistent
    cases inconsistent
  | @idle xs ys ds db part split start eviction =>
    rw [whole] at start
    obtain rfl := eq_nil_of_extents start.symm
    have born := before split eviction (springs_flagged false (c.protects search) ds).descends hd
    exact born
  | @compacted xs ys ds xs' ys' found db first last asked split start eviction resplit restart =>
    rw [whole] at start
    obtain rfl := eq_nil_of_extents start.symm
    have springs := (springs_flagged false (c.protects search) ds).descends
    rw [resplit] at springs
    have relocated : ((db.laid (xs' ++ ys')).collected xs' ys' first last).table.births = db.table.births :=
      Table.births_of_histories (Table.histories_relocate db.table (relocationOf xs' ys'))
    rw [relocated]
    exact before split eviction
      (springs.trans (springs_settle _ _ xs' ys').descends Header.Descends.trans) hd

/-! ### Calls -/

/-- The identity is that of a live redundant clause, or of one that is not stored yet. -/
def Cell.Pending (cs : List Cell) (next identity : UInt32) : Prop :=
  (∃ d ∈ cs, d.Learned ∧ d.header.identity = identity) ∨ next.toNat ≤ identity.toNat

/-- What is pending behind a call was pending before it. -/
theorem Cell.Pending.of_grows {config : Config} {next next' i : UInt32} {cs ds : List Cell}
    (h : Pending ds next' i) (grows : Grows config next cs ds) (next_le : next.toNat ≤ next'.toNat) :
    Pending cs next i := by
  rcases h with ⟨d, hd, learned, rfl⟩ | unstored
  · rcases grows d hd with ⟨x, hx, stems⟩ | ⟨new, -⟩
    · exact .inl ⟨x, hx, ⟨stems.garbage learned.1, stems.redundant learned.2⟩, stems.identity_eq.symm⟩
    · exact .inr (Nat.le_of_eq (congrArg UInt32.toNat new.symm))
  · exact .inr (Nat.le_trans next_le unstored)

/-- Whether a call is a reduction that comes to scan, with the clause of an identity live and redundant. -/
def Operation.meets {π : Type} (op : Operation) (c : Context π) (identity : UInt32) : Bool :=
  op.scans && (c.database.arena.liveOf true).any fun o => (c.database.arena.header o).identity == identity

theorem Database.Holds.any_learned {db : Database} {cs : List Cell} (holds : db.Holds cs) {i : UInt32} :
    ((db.arena.liveOf true).any fun o => (db.arena.header o).identity == i) = true ↔
      ∃ d ∈ cs, d.Learned ∧ d.header.identity = i := by
  rw [List.any_eq_true]
  constructor
  · rintro ⟨o, ho, own⟩
    obtain ⟨d, hd, learned, header_eq⟩ := holds.exists_learned ho
    exact ⟨d, hd.mem, learned, by rwa [header_eq, beq_iff_eq] at own⟩
  · rintro ⟨d, hd, learned, rfl⟩
    obtain ⟨k, at_d⟩ := exists_at 0 hd
    have header_eq := holds.tiled.header_eq at_d
    refine ⟨k, List.mem_filter.2 ⟨holds.mem_live.2 ⟨d, at_d, learned.1⟩, ?_⟩, ?_⟩
    · rw [header_eq, learned.2]
      rfl
    · rw [header_eq, beq_self_eq_true]

/-- A reduction that does not fail makes the rows of the live redundant clauses that have none, unless its
search is inconsistent. -/
theorem Reduction.births_eq {π : Type} {c : Context π} {tally period : Use → UInt32 → Nat}
    {search : Snapshot} {cs ds : List Cell} {result : Report × Snapshot} {db : Database}
    (h : Reduction c.readied search cs (.ok result) db ds) (holds : c.database.Holds cs)
    (collecting : c.config.collecting = true)
    (posted : Posted c.config tally period c.database.nextIdentity cs c.database.table) {d : Cell}
    (hd : d ∈ ds) (learned : d.Learned) :
    db.table.births.lookup d.header.identity = (c.database.table.births.lookup d.header.identity).or
      (if (Operation.reduce search).meets c d.header.identity then some c.counters.conflicts else none) := by
  cases consistent : search.inconsistent with
  | false =>
    obtain ⟨x, hx, stems⟩ := (h.stems holds).1 d hd
    have met : (Operation.reduce search).meets c d.header.identity = true := by
      rw [Operation.meets, Operation.scans, consistent, Bool.not_false, Bool.true_and, holds.any_learned]
      exact ⟨x, hx, ⟨stems.garbage learned.1, stems.redundant learned.2⟩, stems.identity_eq.symm⟩
    have born : db.table.births.lookup d.header.identity =
        some ((c.database.table.births.lookup d.header.identity).getD c.counters.conflicts) :=
      h.born holds collecting posted consistent hd learned
    rw [born, met, if_pos rfl]
    cases c.database.table.births.lookup d.header.identity <;> rfl
  | true =>
    have unmet : (Operation.reduce search).meets c d.header.identity = false := by
      rw [Operation.meets, Operation.scans, consistent]
      rfl
    rw [unmet, if_neg (by decide), Option.or_none]
    cases h with
    | unstarted => rfl
    | unsatisfiable => rfl
    | idle _ _ _ _ _ proceeds => exact absurd (proceeds.2.symm.trans consistent) (by decide)
    | compacted _ _ _ _ _ _ _ _ _ proceeds => exact absurd (proceeds.2.symm.trans consistent) (by decide)

/-- Only reductions make rows. -/
theorem Effect.births_eq {π : Type} {c c' : Context π} {cs ds : List Cell} {op : Operation}
    {a : Except Error Answer} (h : Effect c cs op a c' ds) (still : op.reduces = false) :
    c'.database.table.births = c.database.table.births := by
  cases h with
  | configured => rfl
  | beside _ _ same => exact congrArg Table.births same.table_eq
  | stored storage =>
    cases storage with
    | refused => rfl
    | binary _ fresh => exact congrArg Table.births (beside_storedBinary _ _ _ fresh).table_eq
    | long => rfl
  | noted => rfl
  | refused => rfl
  | @marked r d =>
    show Table.births (if _ then _ else _) = _
    split
    · exact Table.births_of_histories (Table.histories_ended _ _)
    · rfl
  | promoted => rfl
  | shortened => rfl
  | collected => exact Table.births_of_histories (Table.histories_relocate _ _)
  | reduced => cases still

namespace Context

variable {π : Type} {c c' : Context π} {cs ds : List Cell} {op : Operation} {a : Except Error Answer}
  {i : UInt32}

/-- What is not stored yet has no row. -/
theorem Indexed.unborn (h : c.Indexed cs) (unstored : c.database.nextIdentity.toNat ≤ i.toNat) :
    c.database.table.births.lookup i = none := by
  obtain ⟨tally, period, -, posted⟩ := h.posted
  refine lookup_eq_none fun there => ?_
  rw [← Table.identities_eq_births] at there
  exact absurd (posted.below i there) (Nat.not_lt.2 unstored)

/-- A call that does not scan makes no row; one that does makes those of the live redundant clauses that
have none. -/
theorem Scoring.born_of_effect (h : c.Scoring cs) (effect : Effect c cs op a c' ds) (scores : op.Scores)
    (succeeds : op.reduces = true → ∀ e, a ≠ .error e)
    (pending : Pending ds c'.database.nextIdentity i) : c'.database.table.births.lookup i =
      (c.database.table.births.lookup i).or (if op.meets c i then some c.counters.conflicts else none) := by
  obtain ⟨grows, next_le⟩ := effect.grows h.holds
  rcases pending with ⟨d, hd, learned, rfl⟩ | unstored
  · cases reduces : op.reduces with
    | false =>
      have still : op.scans = false := by cases op <;> first | rfl | cases reduces
      rw [effect.births_eq reduces, Operation.meets, still, Bool.false_and, if_neg (by decide),
        Option.or_none]
    | true =>
      obtain ⟨search, rfl⟩ := op.eq_reduce reduces
      cases effect with
      | beside aside => cases aside
      | noted note => cases note
      | refused single => cases single
      | @reduced search r db ds counters predictor phase reduction =>
        cases r with
        | error e => exact absurd rfl (succeeds rfl e)
        | ok result =>
          obtain ⟨tally, period, -, posted⟩ := h.posted
          exact reduction.births_eq h.holds h.collecting posted hd learned
  · have unmet : op.meets c i = false := by
      rw [Operation.meets, Bool.and_eq_false_iff, Bool.eq_false_iff (b := List.any _ _), ne_eq,
        h.holds.any_learned]
      refine .inr ?_
      rintro ⟨d, hd, -, rfl⟩
      exact absurd (h.holds.below d hd) (Nat.not_lt.2 (Nat.le_trans next_le unstored))
    rw [(h.of_effect effect scores succeeds).unborn unstored, h.unborn (Nat.le_trans next_le unstored), unmet]
    rfl

variable [Predictor π] {ops : List Operation}

/-- After how many conflicts a run first scans the clause of an identity, if it does. -/
def firstScan? (c : Context π) (identity : UInt32) : List Operation → Option UInt64
  | [] => none
  | op :: ops =>
    if op.meets c identity then some c.counters.conflicts else (op.after c).firstScan? identity ops

/-- Along a run by scores in which no reduction fails, the row of a clause that is left was made before it,
or at the first scan of the clause. -/
theorem Scoring.exists_run (h : c.Scoring cs) (follows : c.Follows ops) (scores : ∀ op ∈ ops, op.Scores)
    (succeeds : c.Throughout Succeeds ops) : ∃ ds, (c.run ops).Scoring ds ∧
      ∀ i, Pending ds (c.run ops).database.nextIdentity i → Pending cs c.database.nextIdentity i ∧
        (c.run ops).database.table.births.lookup i =
          (c.database.table.births.lookup i).or (c.firstScan? i ops) := by
  induction ops generalizing c cs with
  | nil => exact ⟨cs, h, fun i pending => ⟨pending, Option.or_none.symm⟩⟩
  | cons op ops ih =>
    obtain ⟨lawful, follows⟩ := follows
    obtain ⟨here, succeeds⟩ := succeeds
    obtain ⟨c', es, ms, after_eq, effect⟩ := exists_effect h.holds lawful
    have next : (op.after c).Scoring es := by
      rw [after_eq]
      exact (h.of_effect effect (scores op (by simp)) here.ne_error).logged ms
    obtain ⟨ds, behind, rest⟩ := ih next follows (fun op hop => scores op (by simp [hop])) succeeds
    refine ⟨ds, behind, fun i pending => ?_⟩
    obtain ⟨pending, later⟩ := rest i pending
    have database_eq : (op.after c).database = Logged.withMessages ms c'.database := by
      rw [after_eq]
      rfl
    have pending : Pending es c'.database.nextIdentity i := by
      rw [database_eq] at pending
      exact pending
    obtain ⟨grows, next_le⟩ := effect.grows h.holds
    have born := h.born_of_effect effect (scores op (by simp)) here.ne_error pending
    refine ⟨pending.of_grows grows next_le, ?_⟩
    have same : (op.after c).database.table = c'.database.table := by
      rw [database_eq]
      rfl
    show ((op.after c).run ops).database.table.births.lookup i = _
    rw [later, same, born, firstScan?, Option.or_assoc]
    split <;> rfl

end Context

end ClauseStore
