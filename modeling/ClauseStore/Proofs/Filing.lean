import ClauseStore.Proofs.Usage

/-!
Rows in order. A row is made when a scan first meets a live redundant clause, and a scan meets all of
them in the order of their identities; so the rows of a table stand in the order of the identities of
their clauses, and a clause without a row was stored after all that have one. No bound on the use of a
clause is asked for here: where a count stays at its greatest value, what is on record is still one
word, and that is what its row is led on with.
-/

namespace ClauseStore

open Cell Database

/-! ### What is on record, whatever is noted -/

section Noted

variable {config : Config} {h h' : Header} {rows : Nat → Option Row}

/-- What is on record is read anew where the counts of a header were revised. -/
theorem Metered.renoted {tally period : Use → Nat} (m : Metered config tally period h rows)
    (tie_eq : h'.tie = h.tie) (link_eq : h'.link = h.link) :
    Metered config
      (fun u => (UInt64.ofNat (tally u) - (h.used u).toUInt64 + (h'.used u).toUInt64).toNat)
      (fun u => (h'.used u).toNat) h' rows := by
  have keep_eq : h'.flags.keep = h.flags.keep := congrArg Tie.keep tie_eq
  have redundant_eq : h'.flags.redundant = h.flags.redundant := congrArg Tie.redundant tie_eq
  constructor
  case own =>
    rw [Header.row?_of_link_eq link_eq]
    exact m.own
  case linked =>
    rw [tie_eq, link_eq]
    exact m.linked
  case summed =>
    rw [tie_eq]
    intro learned i row found u
    have before := m.summed learned i row found u
    rw [UInt64.ofNat_toNat]
    grind
  case bare =>
    rw [tie_eq]
    intro learned none u
    have before := m.bare learned none u
    rw [UInt64.ofNat_toNat]
    grind
  case within => exact fun _ u => Nat.le_refl _
  case unkept =>
    rw [keep_eq, redundant_eq]
    exact m.unkept

variable {tally period : Use → UInt32 → Nat} {next : UInt32} {cs : List Cell} {t : Table} {k : Nat}
  {d : Cell} {f : Header → Header}

/-- A note on one clause leaves some record of all. -/
theorem Posted.exists_renoted (posted : Posted config tally period next cs t)
    (ascending : (cs.map identity).Pairwise (· < ·)) (below : d.identity < next.toNat)
    (found : At 0 cs k d) (tie_eq : (f d.header).tie = d.header.tie)
    (link_eq : (f d.header).link = d.header.link) (bounded : ∀ u i, period u i < 4294967296) :
    ∃ tally' period', (∀ u i, period' u i < 4294967296) ∧
      Posted config tally' period' next (mapAt (Arena.only k f) 0 cs) t := by
  let word (u : Use) : UInt64 := UInt64.ofNat (tally u d.header.identity) -
    (d.header.used u).toUInt64 + ((f d.header).used u).toUInt64
  refine ⟨fun u i => if i = d.header.identity then (word u).toNat else tally u i,
    fun u i => if i = d.header.identity then ((f d.header).used u).toNat else period u i,
    fun u i => ?_, posted.apart, posted.below, fun y hy => ?_, fun u i above => ?_⟩
  · dsimp only
    split
    · exact UInt32.toNat_lt _
    · exact bounded u i
  · obtain ⟨j, at_y⟩ := exists_at 0 hy
    obtain ⟨e, he, rfl⟩ := at_mapAt.1 at_y
    by_cases here : j = k
    · subst here
      obtain rfl := he.unique found
      have identity_eq : (f e.header).identity = e.header.identity := congrArg Tie.identity tie_eq
      rw [Cell.revised, Arena.only, if_pos rfl]
      simp only [identity_eq, if_true]
      exact (posted.metered e found.mem).renoted tie_eq link_eq
    · have other : e.header.identity ≠ d.header.identity := fun same =>
        here (eq_of_identity ascending he found (congrArg UInt32.toNat same)).1
      rw [Cell.revised, Arena.only, if_neg here]
      simp only [id, if_neg other]
      exact posted.metered e he.mem
  · have other : i ≠ d.header.identity := by
      rintro rfl
      exact absurd below (Nat.not_lt.2 above)
    rw [if_neg other]
    exact posted.unheard u i above

/-- Every effect of a call that does not fail leaves some record of all clauses. -/
theorem Effect.exists_posted {π : Type} {c c' : Context π} {ds : List Cell} {op : Operation}
    {a : Except Error Answer} (h : Effect c cs op a c' ds) (holds : c.database.Holds cs)
    (collecting : c.config.collecting = true) (fixed : op.configures = false)
    (succeeds : op.reduces = true → ∀ e, a ≠ .error e)
    (posted : Posted c.config tally period c.database.nextIdentity cs c.database.table)
    (bounded : ∀ u i, period u i < 4294967296) :
    ∃ tally' period', (∀ u i, period' u i < 4294967296) ∧
      Posted c.config tally' period' c'.database.nextIdentity ds c'.database.table := by
  by_cases silent : op.use? = none
  · have tally_eq : ∀ n, op.tally c n = n := Operation.tally_of_silent silent
    have room : ∀ u i, op.tally c period u i < 4294967296 := by
      rw [tally_eq]
      exact bounded
    have unheard : ∀ u i, op.notes c u i = false := by
      intro u i
      rw [Operation.notes, silent]
    refine ⟨_, _, fun u i => ?_,
      h.posted holds collecting fixed succeeds (fun _ _ => unheard) posted room⟩
    rw [Operation.period]
    split
    · exact Nat.zero_lt_succ _
    · exact room u i
  · cases h with
    | configured => cases fixed
    | beside aside => exact absurd (by cases op <;> first | rfl | cases aside) silent
    | stored => exact absurd rfl silent
    | @noted op r d f note found =>
      exact posted.exists_renoted holds.ascending (holds.below d found.mem) found (tie_of_note note _)
        (Operation.link_of_note note _) bounded
    | refused => exact ⟨tally, period, bounded, posted⟩
    | marked => exact absurd rfl silent
    | promoted => exact absurd rfl silent
    | shortened => exact absurd rfl silent
    | collected => exact absurd rfl silent
    | reduced => exact absurd rfl silent

end Noted

/-! ### The order of the rows -/

/-- The rows of a table stand in the order of the identities of their clauses, and a live redundant
clause without a row was stored after all that have one. -/
structure Filed (cs : List Cell) (t : Table) : Prop where
  ascending : t.identities.Pairwise (· < ·)
  later : ∀ c ∈ cs, c.Learned → c.header.identity ∉ t.identities →
    ∀ identity ∈ t.identities, identity < c.header.identity

/-- Every live redundant cell comes from one of other cells. -/
def Cell.Leads (cs ds : List Cell) : Prop :=
  ∀ d ∈ ds, d.Learned → ∃ c ∈ cs, c.Learned ∧ c.header.identity = d.header.identity

theorem Cell.Springs.leads {cs ds : List Cell} (springs : Springs Header.Descends cs ds) :
    Leads cs ds := by
  intro d hd learned
  obtain ⟨c, hc, descends⟩ := springs d hd
  exact ⟨c, hc, descends.learned learned, descends.identity_eq.symm⟩

namespace Filed

variable {cs ds : List Cell} {t t' : Table}

theorem of_leads (h : Filed cs t) (leads : Leads cs ds) (same : t'.identities = t.identities) :
    Filed ds t' := by
  refine ⟨same ▸ h.ascending, fun d hd learned fresh => ?_⟩
  obtain ⟨c, hc, learned', identity_eq⟩ := leads d hd learned
  rw [same] at fresh ⊢
  rw [← identity_eq] at fresh ⊢
  exact h.later c hc learned' fresh

theorem of_springs (h : Filed cs t) (springs : Springs Header.Descends cs ds)
    (same : t'.identities = t.identities) : Filed ds t' :=
  h.of_leads springs.leads same

/-- Where every live redundant clause has its row, none is later. -/
theorem of_rows (ascending : t.identities.Pairwise (· < ·))
    (rows : ∀ d ∈ ds, d.Learned → d.header.identity ∈ t.identities) : Filed ds t :=
  ⟨ascending, fun d hd learned fresh => absurd (rows d hd learned) fresh⟩

/-- A clause that is stored is later than all rows. -/
theorem stored (h : Filed cs t) {c : Cell} (below : ∀ identity ∈ t.identities, identity < c.header.identity) :
    Filed (cs ++ [c]) t := by
  refine ⟨h.ascending, fun d hd learned fresh => ?_⟩
  rcases List.mem_append.1 hd with hd | hd
  · exact h.later d hd learned fresh
  · rw [List.mem_singleton.1 hd]
    exact below

end Filed

/-! ### A pass over the cells -/

namespace ScanPlan

variable {p : ScanPlan} {k : Nat} {t t' : Table} {progress progress' : ScanProgress} {config : Config}
  {tally period : Use → UInt32 → Nat} {next : UInt32}

/-- A step puts the row of its clause behind all others, if it makes one. -/
theorem Step.filed {tally period : Use → Nat} {c : Cell} {cs : List Cell} {g : Header}
    (step : Step p k c.header t progress (.ok progress') g t')
    (m : Metered config tally period c.header (t.ownAt c.header.identity)) (fits : t.size < 4294967296)
    (behind : ∀ d ∈ cs, c.header.identity < d.header.identity) (filed : Filed (c :: cs) t) :
    Filed cs t' := by
  rcases step.identities m fits with same | ⟨more, new, learned⟩
  · exact (Filed.of_leads ⟨filed.ascending, fun d hd => filed.later d (by simp [hd])⟩
      (fun d hd learned => ⟨d, hd, learned, rfl⟩) same)
  have least := filed.later c (by simp) learned new
  constructor
  case ascending =>
    rw [more]
    refine List.pairwise_append.2 ⟨filed.ascending, List.pairwise_singleton .., fun identity hi j hj => ?_⟩
    rw [List.mem_singleton.1 hj]
    exact least identity hi
  case later =>
    intro d hd learned' fresh identity hi
    rw [more] at hi
    rcases List.mem_append.1 hi with hi | hi
    · exact UInt32.lt_trans (least identity hi) (behind d hd)
    · rw [List.mem_singleton.1 hi]
      exact behind d hd

/-- A pass leaves the rows in order. -/
theorem Pass.filed {xs cs zs : List Cell} (pass : Pass p k cs t progress (.ok progress') zs t')
    (tracked : p.collecting = true) (ascending : ((xs ++ cs).map identity).Pairwise (· < ·))
    (below : ∀ c ∈ cs, c.identity < next.toNat)
    (posted : Posted config tally period next (xs ++ cs) t) (filed : Filed cs t) : Filed [] t' := by
  generalize result_eq : Except.ok progress' = result at pass
  induction pass generalizing xs with
  | nil => exact filed
  | failed => cases result_eq
  | @cons k c cs zs t t₁ t' progress progress₁ r h step rest ih =>
    obtain ⟨posted₁, ascending₁⟩ := step.posted_behind tracked ascending (below c (by simp)) posted
    have behind : ∀ d ∈ cs, c.header.identity < d.header.identity := by
      intro d hd
      rw [List.map_append, List.map_cons, List.pairwise_append, List.pairwise_cons] at ascending
      exact ascending.2.1.1 _ (List.mem_map_of_mem hd)
    exact ih ascending₁ (fun d hd => below d (by simp [hd])) posted₁
      (step.filed (posted.metered c (by simp)) posted.fits behind filed) result_eq

end ScanPlan

/-! ### Evictions and reductions -/

section Eviction

variable {config : Config} {tally period : Use → UInt32 → Nat} {plan : ScanPlan} {fraction : UInt32}
  {db db' : Database} {ys zs cs : List Cell} {t : Table} {p : ScanProgress}

theorem Table.identities_markUnseen (t : Table) : t.markUnseen.identities = t.identities := by
  rw [identities, markUnseen, Array.toList_map, List.map_map]
  rfl

theorem Table.identities_relocate (t : Table) (m : Relocation) :
    (t.relocate m).identities = t.identities := by
  rw [identities, relocate, Array.toList_map, List.map_map]
  rfl

/-- A scan of the whole arena leaves the rows in order. -/
theorem Filed.scanned (filed : Filed ys db.table) (holds : db.Holds ys)
    (posted : Posted config tally period db.nextIdentity ys db.table) (tracks : Tracks plan config)
    (pass : plan.scanCells 0 ys (tableFor plan db.table) {} = (.ok p, zs, t)) :
    t.identities.Pairwise (· < ·) := by
  have result := ScanPlan.pass_scanCells plan 0 ys (tableFor plan db.table) {}
  rw [pass, tableFor, if_pos tracks.collecting] at result
  have unseen : Posted config tally period db.nextIdentity ([] ++ ys) db.table.markUnseen :=
    posted.mapRows (f := fun row => { row with seen := false }) (fun _ => rfl) (fun _ => rfl)
      fun _ u => by cases u <;> rfl
  have ascending : (([] ++ ys).map identity).Pairwise (· < ·) := holds.ascending
  have ready : Filed ys db.table.markUnseen :=
    filed.of_leads (fun d hd learned => ⟨d, hd, learned, rfl⟩) (Table.identities_markUnseen _)
  exact (result.filed tracks.collecting ascending holds.below unseen ready).ascending

/-- No clause that an eviction leaves is without its row. -/
theorem Eviction.listed {r : Option Nat} (h : Eviction plan fraction [] ys db (.ok r) db' cs)
    (holds : db.Holds ys) (posted : Posted config tally period db.nextIdentity ys db.table)
    (tracks : Tracks plan config) : ∀ d ∈ cs, d.Learned → d.header.identity ∈ db'.table.identities := by
  intro d hd learned
  cases r with
  | none =>
    cases h with
    | idle pass =>
      obtain ⟨-, swept⟩ := posted.scanned holds tracks pass
      obtain ⟨i, row, own, -⟩ := (swept d hd).seen learned
      exact Table.mem_identities.2 ⟨i, row, own⟩
  | some n =>
    obtain ⟨p, zs, t, -, -, -, -, bothWays, -⟩ := h.tiedAgain holds posted tracks
    obtain ⟨k, at_d⟩ := exists_at 0 hd
    obtain ⟨i, row, -, found, own, -⟩ := bothWays.own k d at_d learned
    exact Table.mem_identities.2 ⟨i, row, Table.ownAt_eq_some.2 ⟨found, own⟩⟩

/-- Rows that are in order stay so, and no clause that is left is without its row. -/
theorem Eviction.filed {r : Option Nat} (h : Eviction plan fraction [] ys db (.ok r) db' cs)
    (holds : db.Holds ys) (posted : Posted config tally period db.nextIdentity ys db.table)
    (filed : Filed ys db.table) (tracks : Tracks plan config) : Filed cs db'.table := by
  refine .of_rows ?_ (h.listed holds posted tracks)
  cases r with
  | none =>
    cases h with
    | idle pass => exact filed.scanned holds posted tracks pass
  | some n =>
    obtain ⟨p, zs, t, pass, -, -, -, -, accounts, -⟩ := h.tiedAgain holds posted tracks
    have sub : db'.table.identities.Sublist t.identities := by
      rw [Table.identities_eq_accounts, Table.identities_eq_accounts]
      exact accounts.map Prod.fst
    exact (filed.scanned holds posted tracks pass).sublist sub

end Eviction

/-- A reduction that does not fail leaves the rows in order. -/
theorem Reduction.filed {π : Type} {c : Context π} {tally period : Use → UInt32 → Nat} {search : Snapshot}
    {cs ds : List Cell} {result : Report × Snapshot} {db : Database}
    (h : Reduction c search cs (.ok result) db ds) (holds : c.database.Holds cs)
    (collecting : c.config.collecting = true)
    (posted : Posted c.config tally period c.database.nextIdentity cs c.database.table)
    (filed : Filed cs c.database.table) : Filed ds db.table := by
  have holds : (c.database.laid (flagged true (c.protects search) cs)).Holds _ :=
    holds.of_core (core_flagged true (c.protects search) cs)
  have springs := springs_flagged true (c.protects search) cs
  have flags := posted.inherit springs
  have flagged_filed : Filed (flagged true (c.protects search) cs) c.database.table :=
    filed.of_springs springs.descends rfl
  have whole := c.scanStart_of_collecting collecting (c.whole search)
  have tracks : Tracks c.plan c.config := Reduction.tracks collecting
  cases h with
  | unstarted nowhere =>
    rw [whole] at nowhere
    cases nowhere
  | unsatisfiable => exact filed
  | @idle xs ys ds db part split start eviction =>
    rw [whole] at start
    obtain rfl := eq_nil_of_extents start.symm
    rw [split] at holds flags flagged_filed
    exact (eviction.filed holds flags flagged_filed tracks).of_springs
      (springs_flagged false (c.protects search) ds).descends rfl
  | @compacted xs ys ds xs' ys' found db first last asked split start eviction resplit restart =>
    rw [whole] at start
    obtain rfl := eq_nil_of_extents start.symm
    rw [split] at holds flags flagged_filed
    have left : Filed (flagged false (c.protects search) ds) db.table :=
      (eviction.filed holds flags flagged_filed tracks).of_springs
        (springs_flagged false (c.protects search) ds).descends rfl
    rw [resplit] at left
    exact left.of_springs (springs_settle _ _ xs' ys').descends (Table.identities_relocate ..)

/-! ### Runs -/

namespace Effect

variable {π : Type} {c c' : Context π} {cs ds : List Cell} {op : Operation} {a : Except Error Answer}
  {tally period : Use → UInt32 → Nat}

/-- Every effect of a call that does not fail leaves the rows in order. -/
theorem filed (h : Effect c cs op a c' ds) (holds : c.database.Holds cs)
    (collecting : c.config.collecting = true) (fixed : op.configures = false)
    (succeeds : op.reduces = true → ∀ e, a ≠ .error e)
    (posted : Posted c.config tally period c.database.nextIdentity cs c.database.table)
    (filed : Filed cs c.database.table) : Filed ds c'.database.table := by
  cases h with
  | configured => cases fixed
  | beside aside _ same =>
    rw [same.table_eq]
    exact filed
  | @stored source glue clause r db ds phase storage =>
    cases storage with
    | refused => exact filed
    | @binary a b _ fresh =>
      show Filed cs (storedBinary _ _ _ _).table
      rw [(beside_storedBinary a b source fresh).table_eq]
      exact filed
    | long => exact filed.stored fun identity hi => posted.below identity hi
  | @noted op r d f note found =>
    refine filed.of_leads (fun y hy learned => ?_) rfl
    obtain ⟨k, at_y⟩ := exists_at 0 hy
    obtain ⟨e, he, rfl⟩ := at_mapAt.1 at_y
    have tie_eq : (e.revised (Arena.only r.offset f k)).tie = e.tie := by
      rw [Cell.tie, Cell.revised, Arena.only]
      split
      · exact tie_of_note note e.header
      · rfl
    have learned' : (e.revised (Arena.only r.offset f k)).tie.Learned := learned
    rw [tie_eq] at learned'
    exact ⟨e, he.mem, learned', (congrArg Tie.identity tie_eq).symm⟩
  | refused => exact filed
  | @marked r d found =>
    refine filed.of_springs (springs_markAt r.offset cs).descends ?_
    show Table.identities (if _ then _ else _) = _
    split
    · exact Table.identities_ended _ _
    · rfl
  | promoted =>
    exact filed.of_springs (springs_promoteAt _ cs).descends rfl
  | @shortened r size xs ys d split =>
    subst split
    exact filed.of_springs (springs_shrunk xs ys d size.toNat).descends rfl
  | @collected start xs ys first last split =>
    subst split
    exact filed.of_springs (springs_settle _ _ xs ys).descends (Table.identities_relocate ..)
  | @reduced search r db ds counters predictor phase reduction =>
    cases r with
    | error e => exact absurd rfl (succeeds rfl e)
    | ok result => exact reduction.filed holds collecting posted filed

end Effect

/-- What is on record depends on the configuration only where it asks for no kept clauses. -/
theorem Posted.reconfigured {config config' : Config} {tally period : Use → UInt32 → Nat} {next : UInt32}
    {cs : List Cell} {t : Table} (h : Posted config tally period next cs t) (unkept : Unkept config' cs) :
    Posted config' tally period next cs t :=
  ⟨h.apart, h.below, fun c hc => { h.metered c hc with unkept := fun scored => unkept scored c hc },
    h.unheard⟩

namespace Operation

/-- The call leaves the generation of features on. -/
def Generates : Operation → Prop
  | configure config => config.predicting.generating.value = true
  | _ => True

instance : (op : Operation) → Decidable op.Generates
  | configure config => inferInstanceAs (Decidable (config.predicting.generating.value = true))
  | listen _ | create .. | noteConflict | notePropagation _ | noteUip _ | noteUsed _ | setReason ..
  | shrink .. | markGarbage _ | makeIrredundant _ | deleteBinary .. | setWatching _ | queuePending _
  | takePending | connectPending | collect _ | reduce _ => inferInstanceAs (Decidable True)

end Operation

namespace Context

variable {π : Type} [Predictor π] {c : Context π} {op : Operation} {ops : List Operation}

/-- Rows are kept, and some record is left of all clauses, with the rows in order. -/
structure Indexed (c : Context π) (cs : List Cell) : Prop where
  collecting : c.config.collecting = true
  holds : c.database.Holds cs
  posted : ∃ tally period, (∀ u i, period u i < 4294967296) ∧
    Posted c.config tally period c.database.nextIdentity cs c.database.table
  filed : Filed cs c.database.table

namespace Indexed

variable {cs : List Cell}

omit [Predictor π] in
theorem nil (config : Config) (predictor : π) (collecting : config.collecting = true) :
    (ofConfig config predictor).Indexed [] :=
  ⟨collecting, holds_nil, ⟨_, _, fun _ _ => Nat.zero_lt_succ _, posted_nil config⟩, .nil, by simp⟩

omit [Predictor π] in
/-- Rows stay in order behind the effect of a call that does not fail and does not configure. -/
theorem of_effect (h : c.Indexed cs) {c' : Context π} {ds : List Cell} {a : Except Error Answer}
    (effect : Effect c cs op a c' ds) (fixed : op.configures = false)
    (succeeds : op.reduces = true → ∀ e, a ≠ .error e) : c'.Indexed ds := by
  obtain ⟨tally, period, bounded, posted⟩ := h.posted
  obtain ⟨tally', period', bounded', behind⟩ :=
    effect.exists_posted h.holds h.collecting fixed succeeds posted bounded
  have config_eq := effect.config_eq fixed
  rw [← config_eq] at behind
  exact ⟨(congrArg Config.collecting config_eq).trans h.collecting, effect.holds h.holds,
    ⟨tally', period', bounded', behind⟩, effect.filed h.holds h.collecting fixed succeeds posted h.filed⟩

omit [Predictor π] in
/-- The log does not matter. -/
theorem logged (h : c.Indexed cs) (ms : Array Message) : (Logged.withMessages ms c).Indexed cs :=
  ⟨h.collecting, h.holds.logged ms, h.posted, h.filed⟩

omit [Predictor π] in
/-- Rows stay in order under another configuration for which they are kept. -/
theorem reconfigured (h : c.Indexed cs) {config : Config} (collecting : config.collecting = true)
    (unkept : Unkept config cs) : { c with config }.Indexed cs := by
  obtain ⟨tally, period, bounded, posted⟩ := h.posted
  exact ⟨collecting, h.holds, ⟨tally, period, bounded, posted.reconfigured unkept⟩, h.filed⟩

/-- Rows stay in order behind a call that does not fail and does not configure. -/
theorem exists_after (h : c.Indexed cs) (lawful : op.Lawful c) (fixed : op.configures = false)
    (succeeds : Succeeds op c) : ∃ ds, (op.after c).Indexed ds ∧ (op.after c).config = c.config := by
  obtain ⟨c', ds, ms, after_eq, effect⟩ := exists_effect h.holds lawful
  rw [after_eq]
  exact ⟨ds, (h.of_effect effect fixed succeeds.ne_error).logged ms, effect.config_eq fixed⟩

/-- Rows stay in order along a run in which no reduction fails. -/
theorem exists_run (h : c.Indexed cs) (follows : c.Follows ops)
    (fixed : ∀ op ∈ ops, op.configures = false) (succeeds : c.Throughout Succeeds ops) :
    ∃ ds, (c.run ops).Indexed ds ∧ (c.run ops).config = c.config := by
  induction ops generalizing c cs with
  | nil => exact ⟨cs, h, rfl⟩
  | cons op ops ih =>
    obtain ⟨lawful, follows⟩ := follows
    obtain ⟨here, succeeds⟩ := succeeds
    obtain ⟨ds, next, config_eq⟩ := h.exists_after lawful (fixed op (by simp)) here
    obtain ⟨es, behind, same⟩ := ih next follows (fun op hop => fixed op (by simp [hop])) succeeds
    exact ⟨es, behind, same.trans config_eq⟩

end Indexed

/-- Rows are in order, and features are generated of them. -/
structure IndexedGenerating (c : Context π) (cs : List Cell) : Prop extends c.Indexed cs where
  generating : c.config.predicting.generating.value = true

namespace IndexedGenerating

variable {cs : List Cell}

omit [Predictor π] in
theorem nil (config : Config) (predictor : π) (generating : config.predicting.generating.value = true) :
    (ofConfig config predictor).IndexedGenerating [] :=
  ⟨.nil config predictor (by simp [Config.collecting, generating]), generating⟩

/-- Rows stay in order behind a call that does not fail. -/
theorem exists_after (h : c.IndexedGenerating cs) (lawful : op.Lawful c) (generates : op.Generates)
    (succeeds : Succeeds op c) : ∃ ds, (op.after c).IndexedGenerating ds := by
  by_cases fixed : op.configures = false
  · obtain ⟨ds, behind, config_eq⟩ := h.toIndexed.exists_after lawful fixed succeeds
    refine ⟨ds, behind, ?_⟩
    rw [config_eq]
    exact h.generating
  · cases op with
    | configure config =>
      have generating : config.predicting.generating.value = true := generates
      have collecting : config.collecting = true := by rw [Config.collecting, generating, Bool.or_true]
      have on : ¬ config.predicting.generating.value = false := by simp [generating]
      exact ⟨cs, h.toIndexed.reconfigured collecting fun off => absurd off on, generating⟩
    | _ => exact absurd rfl fixed

/-- Rows stay in order along a run in which no reduction fails. -/
theorem exists_run (h : c.IndexedGenerating cs) (follows : c.Follows ops)
    (generates : ∀ op ∈ ops, op.Generates) (succeeds : c.Throughout Succeeds ops) :
    ∃ ds, (c.run ops).IndexedGenerating ds := by
  induction ops generalizing c cs with
  | nil => exact ⟨cs, h⟩
  | cons op ops ih =>
    obtain ⟨lawful, follows⟩ := follows
    obtain ⟨here, succeeds⟩ := succeeds
    obtain ⟨ds, behind⟩ := h.exists_after lawful (generates op (by simp)) here
    exact ih behind follows (fun op hop => generates op (by simp [hop])) succeeds

end IndexedGenerating

end Context

end ClauseStore
