import ClauseStore.Proofs.Bonding

/-!
Integrity of links along runs. Under a fixed configuration for which rows of statistics are kept, every
operation keeps the links that scans rely on, as long as no reduction starts where a clause has strayed;
and clauses stray only where the predictor has failed, between the compaction of the table and that of
the arena.
-/

namespace ClauseStore

open Cell Database

namespace Operation

/-- Whether a call puts another configuration in place. -/
def configures : Operation → Bool
  | configure _ => true
  | _ => false

/-- Whether a call is a reduction. -/
def reduces : Operation → Bool
  | reduce _ => true
  | _ => false

theorem eq_reduce (op : Operation) (h : op.reduces = true) : ∃ search, op = reduce search := by
  cases op with
  | reduce search => exact ⟨search, rfl⟩
  | _ => cases h

end Operation

/-! ### Clauses that retire -/

/-- The clause of a tie is no longer a live redundant one, with its link as it was. -/
structure Tie.Retired (b b' : Tie) : Prop where
  live : b.garbage = false
  identity_eq : b'.identity = b.identity
  link_eq : b'.row? = b.row?
  retired : ¬ b'.Learned

namespace Linked

variable {mark : Nat} {bs bs' : List Tie} {t t' : Table}

/-- A clause that is not garbage is linked to no row, or to its own. -/
theorem sits (h : Linked mark bs t) {b : Tie} (hb : b ∈ bs) (live : b.garbage = false) : b.Sits t := by
  cases redundant : b.redundant with
  | false => exact h.promoted b hb redundant
  | true =>
    cases link : b.row? with
    | none => exact .inl link
    | some i =>
      obtain ⟨row, found, own⟩ := h.owns_of_link hb ⟨live, redundant⟩ link
      exact .inr ⟨i, row, link, found, own⟩

theorem sits_retired (h : Linked mark bs t) {b b' : Tie} (hb : b ∈ bs) (retired : b.Retired b')
    (rows : ∀ i row, t.row? i = some row → ∃ row', t'.row? i = some row' ∧ row'.identity = row.identity) :
    b'.Sits t' := by
  refine (h.sits hb retired.live).imp (fun none => retired.link_eq.trans none) ?_
  intro owns
  obtain ⟨i, row, link, found, own⟩ := owns.of_rows rows
  exact ⟨i, row, retired.link_eq.trans link, found, own.trans retired.identity_eq.symm⟩

/-- Links hold on where a clause retires and rows keep their identities. -/
theorem retire (h : Linked mark bs t)
    (rows : ∀ i row, t.row? i = some row → ∃ row', t'.row? i = some row' ∧ row'.identity = row.identity)
    (ties : ∀ b' ∈ bs', b' ∈ bs ∨ ∃ b ∈ bs, b.Retired b') : Linked mark bs' t' := by
  refine ⟨fun b' hb' learned below => ?_, fun b' hb' irredundant => ?_, fun b' hb' above => ?_⟩
  all_goals rcases ties b' hb' with hb' | ⟨b, hb, retired⟩
  · exact (h.own b' hb' learned below).of_rows rows
  · exact absurd learned retired.retired
  · exact (h.promoted b' hb' irredundant).imp_right fun owns => owns.of_rows rows
  · exact h.sits_retired hb retired rows
  · exact h.unlinked b' hb' above
  · rw [retired.link_eq]
    exact h.unlinked b hb (retired.identity_eq ▸ above)

end Linked

theorem Clean.retire {mark : Nat} {bs bs' : List Tie} {t t' : Table} (h : Clean bs t)
    (linked : Linked mark bs t)
    (rows : ∀ i row, t.row? i = some row → ∃ row', t'.row? i = some row' ∧ row'.identity = row.identity)
    (ties : ∀ b' ∈ bs', b' ∈ bs ∨ ∃ b ∈ bs, b.Retired b') : Clean bs' t' := by
  intro b' hb' garbage
  rcases ties b' hb' with hb' | ⟨b, hb, retired⟩
  · exact (h b' hb' garbage).imp_right fun owns => owns.of_rows rows
  · exact linked.sits_retired hb retired rows

section Retiring

variable {config : Config} {db : Database} {cs : List Cell} {k : Nat} {c : Cell} {f : Header → Header}

/-- A revision of one header concerns the links of one cell. -/
theorem mem_ties_only {b : Tie} (hb : b ∈ (mapAt (Arena.only k f) 0 cs).map tie) :
    (∃ d, At 0 cs k d ∧ b = (f d.header).tie) ∨ ∃ j d, At 0 cs j d ∧ j ≠ k ∧ b = d.tie := by
  obtain ⟨y, hy, rfl⟩ := List.mem_map.1 hb
  obtain ⟨j, at_y⟩ := exists_at 0 hy
  obtain ⟨d, hd, rfl⟩ := at_mapAt.1 at_y
  by_cases here : j = k
  · subst here
    refine .inl ⟨d, hd, ?_⟩
    rw [tie, Cell.revised, Arena.only, if_pos rfl]
  · refine .inr ⟨j, d, hd, here, ?_⟩
    rw [tie, Cell.revised, Arena.only, if_neg here]
    rfl

theorem ties_retired (hc : At 0 cs k c) (retired : c.tie.Retired (f c.header).tie) :
    ∀ b' ∈ (mapAt (Arena.only k f) 0 cs).map tie,
      b' ∈ cs.map tie ∨ ∃ b ∈ cs.map tie, b.Retired b' := by
  intro b' hb'
  rcases mem_ties_only hb' with ⟨d, hd, rfl⟩ | ⟨j, d, hd, -, rfl⟩
  · rw [hd.unique hc]
    exact .inr ⟨c.tie, List.mem_map_of_mem hc.mem, retired⟩
  · exact .inl (List.mem_map_of_mem hd.mem)

theorem retired_marked (live : c.isGarbage = false) :
    c.tie.Retired (c.header.withFlag .garbage true).tie :=
  ⟨live, rfl, rfl, fun learned => Bool.false_ne_true learned.1.symm⟩

theorem retired_promoted (live : c.isGarbage = false) :
    c.tie.Retired (c.header.withFlag .redundant false).tie :=
  ⟨live, rfl, rfl, fun learned => Bool.false_ne_true learned.2⟩

/-- A revision of one header that leaves kept flags alone. -/
theorem Unkept.only (h : Unkept config cs)
    (flags : ∀ d : Header, ((f d).flags.redundant = true → d.flags.redundant = true) ∧
      (f d).flags.keep = d.flags.keep) : Unkept config (mapAt (Arena.only k f) 0 cs) := by
  intro generating y hy redundant
  obtain ⟨j, at_y⟩ := exists_at 0 hy
  obtain ⟨d, hd, rfl⟩ := at_mapAt.1 at_y
  rw [Cell.revised, Arena.only] at redundant ⊢
  by_cases here : j = k
  · rw [if_pos here] at redundant ⊢
    exact (flags d.header).2.trans (h generating d hd.mem ((flags d.header).1 redundant))
  · rw [if_neg here] at redundant ⊢
    exact h generating d hd.mem redundant

end Retiring

/-! ### What operations keep -/

namespace TiedToRows

variable {config : Config} {db db' : Database} {cs ds : List Cell} {k : Nat} {c : Cell} {r : Reference}

theorem logged (h : TiedToRows config db cs) (ms : Array Message) :
    TiedToRows config (Logged.withMessages ms db) cs :=
  ⟨h.holds.logged ms, h.linked, h.alive, h.unkept⟩

/-- The same links to the same rows. -/
theorem same (h : TiedToRows config db cs) (holds : db'.Holds ds) (ties_eq : ds.map tie = cs.map tie)
    (table_eq : db'.table = db.table) (next_le : db.nextIdentity.toNat ≤ db'.nextIdentity.toNat) :
    TiedToRows config db' ds := by
  refine h.subset holds ?_ (by rw [table_eq]) next_le
  rw [ties_eq]
  exact List.Subset.refl _

theorem beside (h : TiedToRows config db cs) (same : Beside db db') : TiedToRows config db' cs :=
  h.same (h.holds.beside same) rfl same.table_eq same.next_le

/-- Where garbage is linked to its own rows, no clause has strayed. -/
theorem not_strayed (h : TiedToRows config db cs) (clean : Clean (cs.map tie) db.table) :
    ¬ Strayed (cs.map tie) := by
  obtain ⟨mark, -, linked⟩ := h.linked
  exact linked.not_strayed h.holds.ascending clean

theorem not_strays (h : TiedToRows config db cs) (clean : Clean (cs.map tie) db.table) : ¬ db.Strays := by
  rw [Strays, h.holds.ties_eq]
  exact h.not_strayed clean

/-- The rows keep their identities behind a mark. -/
theorem rows_marked (db : Database) (k : Nat) (c : Cell) (cs : List Cell) (i : Nat) (row : Row)
    (found : db.table.row? i = some row) :
    ∃ row', (db.marked k c cs).table.row? i = some row' ∧ row'.identity = row.identity := by
  simp only [Database.marked]
  split
  · rw [Table.row?_ended, found]
    split
    · exact ⟨_, rfl, rfl⟩
    · exact ⟨row, rfl, rfl⟩
  · exact ⟨row, found, rfl⟩

theorem marked (h : TiedToRows config db cs) (hc : At 0 cs k c) (live : c.isGarbage = false) :
    TiedToRows config (db.marked k c cs) (markAt k cs) := by
  obtain ⟨mark, mark_le, linked⟩ := h.linked
  refine ⟨h.holds.marked hc live, ⟨mark, mark_le, linked.retire (rows_marked db k c cs)
    (ties_retired hc (retired_marked live))⟩, fun b hb learned i row link found => ?_,
    h.unkept.only fun d => ⟨id, rfl⟩⟩
  rcases mem_ties_only hb with ⟨d, hd, rfl⟩ | ⟨j, d, hd, other, rfl⟩
  · exact absurd learned.1.symm Bool.false_ne_true
  have before : ∀ {row}, db.table.row? i = some row → row.garbage = false :=
    fun found => h.alive d.tie (List.mem_map_of_mem hd.mem) learned i _ link found
  simp only [Database.marked] at found
  cases redundant : c.header.flags.redundant with
  | false =>
    rw [redundant] at found
    exact before found
  | true =>
    rw [redundant, if_pos rfl, Table.row?_ended] at found
    -- the row of another clause is not the one that ends
    have foreign : c.header.row? ≠ some i := by
      intro shared
      obtain ⟨row₁, found₁, own₁⟩ :=
        linked.owns_of_link (List.mem_map_of_mem hc.mem) ⟨live, redundant⟩ shared
      obtain ⟨row₂, found₂, own₂⟩ := linked.owns_of_link (List.mem_map_of_mem hd.mem) learned link
      rw [found₁] at found₂
      cases found₂
      exact other (eq_of_identity h.holds.ascending hd hc
        (congrArg UInt32.toNat (own₂.symm.trans own₁))).1
    rw [if_neg foreign] at found
    exact before found

theorem promoted (h : TiedToRows config db cs) (hc : At 0 cs r.offset c) (live : c.isGarbage = false) :
    TiedToRows config (db.promoted r c cs) (promoteAt r.offset cs) := by
  obtain ⟨mark, mark_le, linked⟩ := h.linked
  refine ⟨h.holds.promoted hc live, ⟨mark, mark_le, linked.retire (fun i row found => ⟨row, found, rfl⟩)
    (ties_retired hc (retired_promoted live))⟩, fun b hb learned i row link found => ?_,
    h.unkept.only fun d => ⟨fun redundant => absurd redundant Bool.false_ne_true, rfl⟩⟩
  rcases mem_ties_only hb with ⟨d, hd, rfl⟩ | ⟨j, d, hd, -, rfl⟩
  · exact absurd learned.2 Bool.false_ne_true
  · exact h.alive d.tie (List.mem_map_of_mem hd.mem) learned i row link found

theorem ties_shortened (xs ys : List Cell) (c : Cell) (n : Nat) :
    (xs ++ c.shrunk n :: ys).map tie = (xs ++ c :: ys).map tie := by
  rw [List.map_append, List.map_append, List.map_cons, List.map_cons]
  rfl

/-- The clauses behind a stored one are those before it and one that is linked to no row. -/
theorem mem_ties_stored {identity : UInt32} {source : Source} {glue : UInt32} {keep : Bool}
    {conflicts : UInt64} {ls : Clause} {b : Tie}
    (hb : b ∈ (cs ++ [Cell.stored identity source glue keep conflicts ls]).map tie) :
    b ∈ cs.map tie ∨ b.identity = identity ∧ b.row? = none ∧ b.garbage = false := by
  rw [List.map_append] at hb
  refine (List.mem_append.1 hb).imp_right fun hb => ?_
  rw [List.mem_singleton.1 hb]
  exact ⟨rfl, rfl, rfl⟩

theorem stored (h : TiedToRows config db cs) (collecting : config.collecting = true) {source : Source}
    {glue : UInt32} {conflicts : UInt64} {clause : Clause} {a : Except Error Placement}
    (storage : Storage config source glue conflicts clause cs db a db' ds) : TiedToRows config db' ds := by
  have holds := storage.holds h.holds
  cases storage with
  | refused e next drawn => exact h.beside ⟨rfl, rfl, rfl, rfl, drawn⟩
  | binary literals_eq fresh => exact h.beside (beside_storedBinary _ _ source fresh)
  | @long a b rest literals_eq long accepted fresh room =>
    obtain ⟨mark, mark_le, linked⟩ := h.linked
    refine ⟨holds, ⟨mark, ?_, fun b hb learned below => ?_, fun b hb irredundant => ?_,
      fun b hb above => ?_⟩, fun b hb learned i row link found => ?_, fun generating d hd redundant => ?_⟩
    · rw [storedLong, toNat_succ fresh]
      exact Nat.le_succ_of_le mark_le
    · rcases mem_ties_stored hb with hb | ⟨identity_eq, -⟩
      · exact linked.own b hb learned below
      · rw [identity_eq] at below
        omega
    · rcases mem_ties_stored hb with hb | ⟨-, none, -⟩
      · exact linked.promoted b hb irredundant
      · exact .inl none
    · rcases mem_ties_stored hb with hb | ⟨-, none, -⟩
      · exact linked.unlinked b hb above
      · exact none
    · rcases mem_ties_stored hb with hb | ⟨-, none, -⟩
      · exact h.alive b hb learned i row link found
      · rw [none] at link
        cases link
    · rcases List.mem_append.1 hd with hd | hd
      · exact h.unkept generating d hd redundant
      · rw [List.mem_singleton.1 hd] at redundant ⊢
        exact keeps_eq_false collecting generating redundant

end TiedToRows

/-! ### Effects -/

namespace Effect

variable {π : Type} {c c' : Context π} {cs ds : List Cell} {op : Operation} {a : Except Error Answer}

theorem config_eq (h : Effect c cs op a c' ds) (fixed : op.configures = false) :
    c'.config = c.config := by
  cases h with
  | configured => cases fixed
  | beside _ config_eq => exact config_eq
  | stored => rfl
  | noted => rfl
  | refused => rfl
  | marked => rfl
  | promoted => rfl
  | shortened => rfl
  | collected => rfl
  | reduced => rfl

theorem tie_of_note {op : Operation} {r : Reference} {f : Header → Header}
    (note : op.note? c = some (r, f)) (d : Header) : (f d).tie = d.tie := by
  cases op <;> simp only [Operation.note?, Option.some.injEq, Prod.mk.injEq, reduceCtorEq] at note <;>
    (obtain ⟨-, rfl⟩ := note; rfl)

theorem ties_noted {op : Operation} {r : Reference} {f : Header → Header}
    (note : op.note? c = some (r, f)) (cs : List Cell) :
    (mapAt (Arena.only r.offset f) 0 cs).map tie = cs.map tie := by
  refine map_mapAt fun k d _ => ?_
  rw [tie, Cell.revised, Arena.only]
  split
  · exact tie_of_note note d.header
  · rfl

/-- Every effect keeps clauses tied, if a reduction does not start where one has strayed. -/
theorem tied (h : Effect c cs op a c' ds) (tied : TiedToRows c.config c.database cs)
    (collecting : c.config.collecting = true) (fixed : op.configures = false)
    (clear : op.reduces = true → ¬ Strayed (cs.map tie))
    (narrow : c'.database.table.size ≤ 2147483648) : TiedToRows c.config c'.database ds := by
  have holds := h.holds tied.holds
  cases h with
  | configured => cases fixed
  | beside _ _ same => exact tied.beside same
  | stored storage => exact tied.stored collecting storage
  | noted note found => exact tied.same holds (ties_noted note cs) rfl (Nat.le_refl _)
  | refused => exact tied
  | marked found live => exact tied.marked found live
  | promoted found live => exact tied.promoted found live
  | shortened split start free =>
    subst split
    exact tied.same holds (TiedToRows.ties_shortened ..) rfl (Nat.le_refl _)
  | collected split start first_at =>
    subst split
    exact tied.collected _ first_at
  | reduced reduction => exact reduction.tied tied collecting (clear rfl) narrow

/-- Every effect leaves garbage linked to its own rows, unless the predictor fails. -/
theorem clean (h : Effect c cs op a c' ds) (tied : TiedToRows c.config c.database cs)
    (collecting : c.config.collecting = true)
    (clean : Clean (cs.map tie) c.database.table)
    (scored : op.reduces = true → ∀ cause, a ≠ .error (.predictor cause)) :
    Clean (ds.map tie) c'.database.table := by
  obtain ⟨mark, mark_le, linked⟩ := tied.linked
  cases h with
  | configured => exact clean
  | beside _ _ same =>
    rw [same.table_eq]
    exact clean
  | stored storage =>
    cases storage with
    | refused => exact clean
    | binary literals_eq fresh =>
      rw [(beside_storedBinary _ _ _ fresh).table_eq]
      exact clean
    | long =>
      intro b hb garbage
      rcases TiedToRows.mem_ties_stored hb with hb | ⟨-, none, -⟩
      · exact clean b hb garbage
      · exact .inl none
  | noted note found =>
    rw [ties_noted note]
    exact clean
  | refused => exact clean
  | marked found live =>
    exact clean.retire linked (TiedToRows.rows_marked _ _ _ _) (ties_retired found (retired_marked live))
  | promoted found live =>
    exact clean.retire linked (fun i row found => ⟨row, found, rfl⟩)
      (ties_retired found (retired_promoted live))
  | shortened split start free =>
    subst split
    rw [TiedToRows.ties_shortened]
    exact clean
  | collected split start first_at =>
    subst split
    exact (clean.subset (ties_settle_subset ..)).of_standing (Table.standing_relocate _ _)
  | reduced reduction =>
    refine reduction.clean tied collecting clean fun cause failed => ?_
    subst failed
    exact scored rfl cause rfl

/-- By rank the predictor does not make a reduction fail. -/
theorem unfailing_of_rank (h : Effect c cs op a c' ds) (tied : TiedToRows c.config c.database cs)
    (collecting : c.config.collecting = true) (rank : c.config.predicting.byScore.value = false)
    (reduces : op.reduces = true) (cause : PredictorError) : a ≠ .error (.predictor cause) := by
  obtain ⟨search, rfl⟩ := op.eq_reduce reduces
  cases h with
  | beside aside => cases aside
  | noted note => cases note
  | refused single => cases single
  | @reduced search r db ds counters predictor phase reduction =>
    intro failed
    cases r with
    | ok result => cases failed
    | error e =>
      cases failed
      rcases reduction.cause tied collecting rfl with other | ⟨byScore, -⟩
      · cases other
      · have byScore : c.config.predicting.byScore.value = true := byScore
        rw [rank] at byScore
        cases byScore

end Effect

/-! ### Runs -/

namespace Context

variable {π : Type} [Predictor π]

/-- The call is not a reduction that starts where a clause has strayed. -/
def StartsClear (op : Operation) (c : Context π) : Prop :=
  op.reduces = true → ¬ c.database.Strays

instance (op : Operation) (c : Context π) : Decidable (StartsClear op c) :=
  inferInstanceAs (Decidable (op.reduces = true → ¬ c.database.Strays))

/-- The call is not a reduction that fails because of the predictor. -/
def Unfailing (op : Operation) (c : Context π) : Prop :=
  op.reduces = true → ∀ cause, op.answer c ≠ .error (.predictor cause)

/-- Links can name all rows behind the call: a link is stored as 32 bits and read back as a signed
number. -/
def Narrow (op : Operation) (c : Context π) : Prop := (op.after c).database.table.size ≤ 2147483648

instance (op : Operation) (c : Context π) : Decidable (Narrow op c) :=
  inferInstanceAs (Decidable ((op.after c).database.table.size ≤ 2147483648))

variable {c : Context π} {cs : List Cell}

/-- Clauses are tied behind an operation that does not reduce where one has strayed. Where the predictor
does not fail, garbage stays linked to its own rows. -/
theorem exists_tied_after {op : Operation} (tied : TiedToRows c.config c.database cs)
    (collecting : c.config.collecting = true) (lawful : op.Lawful c) (fixed : op.configures = false)
    (narrow : Narrow op c) (clear : StartsClear op c) :
    ∃ ds, TiedToRows c.config (op.after c).database ds ∧ (op.after c).config = c.config ∧
      (Clean (cs.map tie) c.database.table →
        (c.config.predicting.byScore.value = false ∨ Unfailing op c) →
        Clean (ds.map tie) (op.after c).database.table) := by
  obtain ⟨c', ds, ms, after_eq, effect⟩ := exists_effect tied.holds lawful
  have clear : op.reduces = true → ¬ Strayed (cs.map tie) := by
    intro reduces strayed
    refine clear reduces ?_
    rw [Strays, tied.holds.ties_eq]
    exact strayed
  rw [Narrow, after_eq] at narrow
  rw [after_eq]
  refine ⟨ds, (effect.tied tied collecting fixed clear narrow).logged ms, effect.config_eq fixed,
    fun clean unfailing => effect.clean tied collecting clean ?_⟩
  rcases unfailing with rank | unfailing
  · exact effect.unfailing_of_rank tied collecting rank
  · exact unfailing

/-- Clauses are tied behind a run whose reductions all start where none has strayed. -/
theorem exists_tied_run {ops : List Operation} (tied : TiedToRows c.config c.database cs)
    (collecting : c.config.collecting = true) (follows : c.Follows ops)
    (fixed : ∀ op ∈ ops, op.configures = false) (narrow : c.Throughout Narrow ops)
    (clear : c.Throughout StartsClear ops) :
    ∃ ds, TiedToRows c.config (c.run ops).database ds ∧ (c.run ops).config = c.config := by
  induction ops generalizing c cs with
  | nil => exact ⟨cs, tied, rfl⟩
  | cons op ops ih =>
    obtain ⟨lawful, rest⟩ := follows
    obtain ⟨here, narrow⟩ := narrow
    obtain ⟨starts, clear⟩ := clear
    obtain ⟨ds, next, config_eq, -⟩ :=
      exists_tied_after tied collecting lawful (fixed op (by simp)) here starts
    rw [← config_eq] at next collecting ⊢
    exact ih next collecting rest (fun op hop => fixed op (by simp [hop])) narrow clear

/-- If the predictor does not fail, no reduction of a run starts where a clause has strayed. -/
theorem exists_clean_run {ops : List Operation} (tied : TiedToRows c.config c.database cs)
    (clean : Clean (cs.map tie) c.database.table) (collecting : c.config.collecting = true)
    (follows : c.Follows ops) (fixed : ∀ op ∈ ops, op.configures = false)
    (narrow : c.Throughout Narrow ops)
    (unfailing : c.config.predicting.byScore.value = false ∨ c.Throughout Unfailing ops) :
    c.Throughout StartsClear ops ∧ ¬ (c.run ops).database.Strays := by
  induction ops generalizing c cs with
  | nil => exact ⟨trivial, tied.not_strays clean⟩
  | cons op ops ih =>
    obtain ⟨lawful, rest⟩ := follows
    obtain ⟨here, narrow⟩ := narrow
    have starts : StartsClear op c := fun _ => tied.not_strays clean
    obtain ⟨ds, next, config_eq, clean_after⟩ :=
      exists_tied_after tied collecting lawful (fixed op (by simp)) here starts
    have clean_next := clean_after clean (unfailing.imp_right And.left)
    rw [← config_eq] at next collecting unfailing
    obtain ⟨clear, ends⟩ := ih next clean_next collecting rest (fun op hop => fixed op (by simp [hop]))
      narrow (unfailing.imp_right And.right)
    exact ⟨⟨starts, clear⟩, ends⟩

/-- Behind a lawful run under a fixed configuration for which rows are kept, in which no reduction
starts where a clause has strayed, a reduction does not fail for the table, and if it removes clauses
they are ownRows behind it just where none had strayed before it. No clause ever strays by rank, or where
the predictor did not fail. The table never has more rows than links can name. -/
theorem reduce_ownRows (config : Config) (predictor : π) (ops : List Operation) (search : Snapshot)
    (collecting : config.collecting = true) (follows : (ofConfig config predictor).Follows ops)
    (fixed : ∀ op ∈ ops, op.configures = false)
    (narrow : (ofConfig config predictor).Throughout Narrow ops)
    (addressed : ∀ r ∈ search.reasons,
      ((ofConfig config predictor).run ops).database.Addresses r) :
    ((ofConfig config predictor).Throughout StartsClear ops →
      (∀ cause, (outcome (reduce search) ((ofConfig config predictor).run ops)).1 ≠
        .error (.table cause)) ∧
      ∀ n after, (outcome (reduce search) ((ofConfig config predictor).run ops)).1 =
          .ok (.reduced n, after) →
        ((outcome (reduce search) ((ofConfig config predictor).run ops)).2.database.OwnRows ↔
          ¬ ((ofConfig config predictor).run ops).database.Strays)) ∧
    (config.predicting.byScore.value = false ∨ (ofConfig config predictor).Throughout Unfailing ops →
      (ofConfig config predictor).Throughout StartsClear ops ∧
        ¬ ((ofConfig config predictor).run ops).database.Strays) := by
  have start : TiedToRows (ofConfig config predictor).config (ofConfig config predictor).database [] := .nil
  have unfailing : config.predicting.byScore.value = false ∨
      (ofConfig config predictor).Throughout Unfailing ops →
      (ofConfig config predictor).Throughout StartsClear ops ∧
        ¬ ((ofConfig config predictor).run ops).database.Strays :=
    exists_clean_run start (by simp [Clean]) collecting follows fixed narrow
  refine ⟨fun clear => ?_, unfailing⟩
  obtain ⟨cs, tied, config_eq⟩ := exists_tied_run start collecting follows fixed narrow clear
  have rank : config.predicting.byScore.value = false →
      ¬ ((ofConfig config predictor).run ops).database.Strays := fun rank => (unfailing (.inl rank)).2
  have config_of : (ofConfig config predictor).config = config := rfl
  rw [config_of] at tied config_eq
  generalize (ofConfig config predictor).run ops = c at addressed tied config_eq rank ⊢
  subst config_eq
  obtain ⟨r, db, ds, counters, predictor, phase, reduces, -, reduction⟩ :=
    yields_reduce c tied.holds search addressed
  obtain ⟨ms, outcome_eq⟩ := reduces.outcome_eq
  rw [Strays, tied.holds.ties_eq] at rank ⊢
  rw [outcome_eq]
  refine ⟨fun cause failed => ?_, fun n after ok => ?_⟩
  · rcases reduction.cause tied collecting failed with other | ⟨-, other, eq⟩
    · cases other
    · cases eq
  · have scored : Strayed (cs.map tie) → c.config.predicting.byScore.value = true := by
      intro strayed
      cases byScore : c.config.predicting.byScore.value with
      | true => rfl
      | false => exact absurd strayed (rank byScore)
    have ownRows := reduction.ownRows_iff tied collecting scored ok
    exact ⟨fun h => ownRows.1 ⟨h.own, h.apart⟩, fun h => ⟨(ownRows.2 h).own, (ownRows.2 h).apart⟩⟩

/-- Reductions by scores that retain two clauses. -/
def scoringConfig : Config where
  predicting.byScore := ⟨"usemldata", false, true, true, .configuration⟩
  predicting.retain := ⟨"mlsize", 0, 18446744073709551615, 2, .configuration⟩

/-- The predictor fails in both reductions. The second one has given the row of the first clause, which
is garbage then, to the second clause. -/
def strayRun : List Operation :=
  [.create .redundant 5 [⟨1⟩, ⟨2⟩, ⟨3⟩], .create .redundant 5 [⟨1⟩, ⟨2⟩, ⟨4⟩],
    .create .redundant 5 [⟨1⟩, ⟨2⟩, ⟨5⟩], .create .redundant 5 [⟨1⟩, ⟨2⟩, ⟨6⟩], .reduce {},
    .markGarbage (.ofOffset 0), .reduce {}, .markGarbage (.ofOffset 36)]

/-- A clause has strayed at the end of the run: the next reduction removes clauses and leaves one without
its row, and the one after it fails for the table. -/
theorem reduce_ownRows_strayRun :
    scoringConfig.collecting = true ∧ (ofConfig scoringConfig ({} : Linear)).Follows strayRun ∧
      (∀ op ∈ strayRun, op.configures = false) ∧
      (ofConfig scoringConfig ({} : Linear)).Throughout Narrow strayRun ∧
      (ofConfig scoringConfig ({} : Linear)).Throughout StartsClear strayRun ∧
      ((ofConfig scoringConfig ({} : Linear)).run strayRun).database.Strays ∧
      (outcome (reduce {}) ((ofConfig scoringConfig ({} : Linear)).run strayRun)).1 =
        .ok (.reduced 0, {}) ∧
      ¬ (outcome (reduce {}) ((ofConfig scoringConfig ({} : Linear)).run strayRun)).2.database.OwnRows ∧
      (outcome (reduce {})
          (outcome (reduce {}) ((ofConfig scoringConfig ({} : Linear)).run strayRun)).2).1 =
        .error (.table .identityMismatch) := by
  have collecting : scoringConfig.collecting = true := by decide
  have follows : (ofConfig scoringConfig ({} : Linear)).Follows strayRun := by decide +kernel
  have fixed : ∀ op ∈ strayRun, op.configures = false := by decide
  have narrow : (ofConfig scoringConfig ({} : Linear)).Throughout Narrow strayRun := by
    decide +kernel
  have clear : (ofConfig scoringConfig ({} : Linear)).Throughout StartsClear strayRun := by
    decide +kernel
  have strays : ((ofConfig scoringConfig ({} : Linear)).run strayRun).database.Strays := by
    decide +kernel
  have reduced : (outcome (reduce {}) ((ofConfig scoringConfig ({} : Linear)).run strayRun)).1 =
      .ok (.reduced 0, {}) := by decide +kernel
  have refused : (outcome (reduce {})
      (outcome (reduce {}) ((ofConfig scoringConfig ({} : Linear)).run strayRun)).2).1 =
      .error (.table .identityMismatch) := by decide +kernel
  obtain ⟨ownRows, -⟩ := reduce_ownRows scoringConfig ({} : Linear) strayRun {} collecting follows fixed
    narrow (by simp)
  exact ⟨collecting, follows, fixed, narrow, clear, strays, reduced,
    fun h => ((ownRows clear).2 0 {} reduced).1 h strays, refused⟩

end Context

end ClauseStore
