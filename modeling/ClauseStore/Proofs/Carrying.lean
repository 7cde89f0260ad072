import ClauseStore.Proofs.Integrity
import ClauseStore.Proofs.Metering

/-!
Carrying use over a reduction. A scan has folded the counts of each live redundant clause into its row.
What follows it renumbers rows and moves clauses, and removes some of both, but a clause that stays keeps
its identity and so does its row: what is on record of it is as before, and a new period begins for it.
A reduction that ends before its scan leaves the counts, and the period goes on.
-/

namespace ClauseStore

open Cell Database

/-! ### Headers that lead to others -/

/-- Every header of some cells comes from one of other cells. -/
def Cell.Springs (R : Header → Header → Prop) (cs ds : List Cell) : Prop :=
  ∀ d ∈ ds, ∃ c ∈ cs, R c.header d.header

namespace Header

variable {h h' h'' : Header}

theorem Descends.trans (first : h.Descends h') (second : h'.Descends h'') : h.Descends h'' where
  identity_eq := second.identity_eq.trans first.identity_eq
  used_eq u := (second.used_eq u).trans (first.used_eq u)
  touched_eq := second.touched_eq.trans first.touched_eq
  keep_eq := second.keep_eq.trans first.keep_eq
  garbage live := first.garbage (second.garbage live)
  redundant redundant := first.redundant (second.redundant redundant)

/-- A flag may be set or cleared, but for that of a kept clause, and no clause comes back to life or
becomes redundant again. -/
theorem inherits_withFlag {f : Flag} {value : Bool} (kept : f ≠ .keep)
    (garbage : f = .garbage → value = true) (redundant : f = .redundant → value = false)
    (h : Header) : h.Inherits (h.withFlag f value) := by
  have same : ∀ u, (h.withFlag f value).used u = h.used u := fun u => by cases u <;> rfl
  refine ⟨⟨rfl, same, rfl, ?_, ?_, ?_⟩, rfl, rfl, rfl⟩
  · cases f <;> first | rfl | exact absurd rfl kept
  · cases f with
    | garbage =>
      intro live
      rw [garbage rfl] at live
      cases live
    | _ => exact id
  · cases f with
    | redundant =>
      intro kind
      rw [redundant rfl] at kind
      cases kind
    | _ => exact id

theorem inherits_reason (value : Bool) (h : Header) : h.Inherits (h.withFlag .reason value) :=
  inherits_withFlag (f := .reason) nofun nofun nofun h

theorem inherits_garbage (h : Header) : h.Inherits (h.withFlag .garbage true) :=
  inherits_withFlag (f := .garbage) nofun (fun _ => rfl) nofun h

end Header

/-! ### Cells that come from others -/

namespace Cell

variable {R : Header → Header → Prop} {cs ds es : List Cell}

theorem Springs.trans {R' R'' : Header → Header → Prop} (first : Springs R cs ds)
    (second : Springs R' ds es)
    (both : ∀ {h h' h'' : Header}, R h h' → R' h' h'' → R'' h h'') : Springs R'' cs es := by
  intro e he
  obtain ⟨d, hd, last⟩ := second e he
  obtain ⟨c, hc, before⟩ := first d hd
  exact ⟨c, hc, both before last⟩

theorem Springs.descends (h : Springs Header.Inherits cs ds) : Springs Header.Descends cs ds := by
  intro d hd
  obtain ⟨c, hc, inherits⟩ := h d hd
  exact ⟨c, hc, inherits.toDescends⟩

theorem springs_mapAt {f : Nat → Header → Header} (leads : ∀ k h, R h (f k h)) (cs : List Cell) :
    Springs R cs (mapAt f 0 cs) := by
  intro d hd
  obtain ⟨k, at_d⟩ := exists_at 0 hd
  obtain ⟨c, hc, rfl⟩ := at_mapAt.1 at_d
  exact ⟨c, hc.mem, leads k c.header⟩

theorem springs_only {k : Nat} {f : Header → Header} (leads : ∀ h : Header, h.Inherits (f h))
    (cs : List Cell) : Springs Header.Inherits cs (mapAt (Arena.only k f) 0 cs) := by
  refine springs_mapAt (fun j h => ?_) cs
  rw [Arena.only]
  split
  · exact leads h
  · exact .refl h

theorem springs_flagged (value : Bool) (rs : List Reference) (cs : List Cell) :
    Springs Header.Inherits cs (flagged value rs cs) := by
  refine springs_mapAt (fun k h => ?_) cs
  split
  · exact h.inherits_reason value
  · exact .refl h

theorem springs_markAt (k : Nat) (cs : List Cell) : Springs Header.Inherits cs (markAt k cs) :=
  springs_only Header.inherits_garbage cs

theorem springs_promoteAt (k : Nat) (cs : List Cell) : Springs Header.Inherits cs (promoteAt k cs) :=
  springs_only (fun h => Header.inherits_withFlag (f := .redundant) nofun nofun (fun _ => rfl) h) cs

theorem springs_markAll (ms : List Placed) (cs : List Cell) :
    Springs Header.Inherits cs (markAll ms cs) := by
  rw [markAll_eq]
  refine springs_mapAt (fun k h => ?_) cs
  split
  · exact h.inherits_garbage
  · exact .refl h

theorem springs_settle (fill : Nat → UInt32) (n : Nat) (xs ys : List Cell) :
    Springs Header.Inherits (xs ++ ys) (xs ++ settle fill n ys) := by
  intro d hd
  rcases List.mem_append.1 hd with front | behind
  · exact ⟨d, List.mem_append_left _ front, .refl _⟩
  · have moved : (settle fill n ys).map header =
        (ys.filter fun c => !c.isGarbage).map fun c => c.header.withFlag .shrunken false :=
      map_settle fun _ _ => rfl
    have there : d.header ∈ (settle fill n ys).map header := List.mem_map_of_mem behind
    rw [moved] at there
    obtain ⟨c, hc, header_eq⟩ := List.mem_map.1 there
    refine ⟨c, List.mem_append_right _ (List.mem_filter.1 hc).1, ?_⟩
    rw [← header_eq]
    exact Header.inherits_withFlag (f := .shrunken) nofun nofun nofun _

theorem springs_shrunk (xs ys : List Cell) (c : Cell) (n : Nat) :
    Springs Header.Inherits (xs ++ c :: ys) (xs ++ c.shrunk n :: ys) := by
  have shorter : c.header.Inherits (c.shrunk n).header :=
    { Header.Inherits.refl c.header with used_eq := fun u => by cases u <;> rfl }
  intro d hd
  rcases List.mem_append.1 hd with front | hd
  · exact ⟨d, List.mem_append_left _ front, .refl _⟩
  rcases List.mem_cons.1 hd with rfl | behind
  · exact ⟨c, by simp, shorter⟩
  · exact ⟨d, List.mem_append_right _ (List.mem_cons_of_mem _ behind), .refl _⟩

/-- Links revise no counts. -/
theorem springs_relinked (es : List (Row × Nat)) (cs : List Cell) :
    Springs Header.Descends cs (relinked es cs) := by
  induction es generalizing cs with
  | nil => exact fun d hd => ⟨d, hd, .refl _⟩
  | cons e es ih =>
    refine Springs.trans (springs_mapAt (fun k h => ?_) cs) (ih _) Header.Descends.trans
    rw [Arena.only]
    split
    · exact { Header.Descends.refl h with used_eq := fun u => by cases u <;> rfl }
    · exact .refl h

end Cell

/-! ### What is on record under revisions -/

namespace Posted

variable {config : Config} {tally period : Use → UInt32 → Nat} {next next' : UInt32}
  {cs ds : List Cell} {t : Table}

theorem inherit (h : Posted config tally period next cs t) (springs : Springs Header.Inherits cs ds) :
    Posted config tally period next ds t := by
  refine ⟨h.apart, h.below, fun d hd => ?_, h.unheard⟩
  obtain ⟨c, hc, inherits⟩ := springs d hd
  rw [inherits.identity_eq]
  exact (h.metered c hc).inherit inherits

theorem mapRows (h : Posted config tally period next cs t) {f : Row → Row}
    (identity_eq : ∀ row, (f row).identity = row.identity)
    (garbage_eq : ∀ row, (f row).garbage = row.garbage)
    (sum_eq : ∀ row u, (f row).sum u = row.sum u) :
    Posted config tally period next cs ⟨t.rows.map f⟩ := by
  have identities_eq : Table.identities ⟨t.rows.map f⟩ = t.identities := by
    rw [Table.identities, Array.toList_map, List.map_map]
    exact List.map_congr_left fun row _ => identity_eq row
  refine ⟨identities_eq ▸ h.apart, identities_eq ▸ h.below, fun c hc => ?_, h.unheard⟩
  refine (h.metered c hc).mapRows (fun i => Table.ownAt_of_map identity_eq ?_) garbage_eq sum_eq
  rw [Table.row?, Table.row?, Array.getElem?_map]

theorem later (h : Posted config tally period next cs t) (next_le : next.toNat ≤ next'.toNat) :
    Posted config tally period next' cs t :=
  ⟨h.apart, fun identity hi => Nat.lt_of_lt_of_le (h.below identity hi) next_le, h.metered,
    fun u identity above => h.unheard u identity (Nat.le_trans next_le above)⟩

/-- Where counts are cleared, they are within any bound. -/
theorem cleared (h : Posted config tally period next cs t) (swept : ∀ c ∈ cs, Swept c.header t)
    (period' : Use → UInt32 → Nat) : Posted config tally period' next cs t := by
  refine ⟨h.apart, h.below, fun c hc => { h.metered c hc with within := fun learned u => ?_ }, h.unheard⟩
  rw [(swept c hc).cleared learned]
  exact Nat.zero_le _

end Posted

/-! ### Rows that stay -/

/-- Which clause a row is for, the sums of its use, and when it was last used. -/
def Row.account (row : Row) : UInt32 × UInt64 × UInt64 × UInt64 :=
  (row.identity, row.sumProps, row.sumUips, row.touched)

theorem Row.sum_eq_of_account {row row' : Row} (h : row'.account = row.account) (u : Use) :
    row'.sum u = row.sum u := by
  simp only [account, Prod.mk.injEq] at h
  cases u
  · exact h.2.1
  · exact h.2.2.1

namespace Table

/-- The accounts of the rows, in order. -/
def accounts (t : Table) : List (UInt32 × UInt64 × UInt64 × UInt64) := t.rows.toList.map Row.account

variable {t t' : Table}

theorem identities_eq_accounts (t : Table) : t.identities = t.accounts.map Prod.fst := by
  rw [accounts, List.map_map]
  rfl

theorem accounts_of_keys (h : t'.keys = t.keys) : t'.accounts = t.accounts := by
  have accounts_eq : ∀ t : Table, t.accounts = t.keys.map fun key => (key.1, key.2.2.2.2.2) := by
    intro t
    rw [keys, List.map_map]
    rfl
  rw [accounts_eq, accounts_eq, h]

/-- The rows that stay keep their accounts and their order. -/
theorem accounts_settled (t : Table) : t.settled.accounts.Sublist t.accounts := by
  rw [settled, accounts_of_keys (keys_rank _), accounts, surviving, Array.toList_filter]
  exact List.filter_sublist.map _

theorem accounts_ended (t : Table) (h : Header) : (t.ended h).accounts = t.accounts := by
  rw [ended]
  cases h.row? with
  | none => rfl
  | some i => exact map_rows_modify (f := fun row => { row with garbage := true }) (fun _ => rfl) t i

theorem accounts_endedAll (ms : List Placed) (t : Table) : (endedAll ms t).accounts = t.accounts := by
  induction ms generalizing t with
  | nil => rfl
  | cons m ms ih => exact (ih (t.ended m.2.header)).trans (accounts_ended t m.2.header)

theorem accounts_relocate (t : Table) (m : Relocation) : (t.relocate m).accounts = t.accounts := by
  rw [accounts, relocate, Array.toList_map, List.map_map]
  rfl

end Table

/-- The sum in a row of the account of a swept clause is the tally. -/
theorem Posted.sum_eq {config : Config} {tally period : Use → UInt32 → Nat} {next : UInt32}
    {zs : List Cell} {t : Table} (posted : Posted config tally period next zs t) {z : Cell} (hz : z ∈ zs)
    (swept : Swept z.header t) (learned : z.Learned) {row : Row} (there : row.account ∈ t.accounts)
    (own : row.identity = z.header.identity) (u : Use) :
    row.sum u = UInt64.ofNat (tally u z.header.identity) := by
  obtain ⟨row₀, hrow₀, account_eq⟩ := List.mem_map.1 there
  obtain ⟨j, found₀⟩ := Table.exists_row? hrow₀
  have own₀ : t.ownAt z.header.identity j = some row₀ :=
    Table.ownAt_eq_some.2 ⟨found₀, (congrArg Prod.fst account_eq).trans own⟩
  rw [← (posted.metered z hz).summed learned j row₀ own₀ u, swept.cleared learned,
    Row.sum_eq_of_account account_eq]
  exact (UInt64.zero_add _).symm

/-- What is on record of swept clauses stays so where they are tied both ways to rows of the same
accounts. -/
theorem Posted.of_bothWays {config : Config} {tally period : Use → UInt32 → Nat} {next : UInt32}
    {zs ds : List Cell} {t t' : Table} (posted : Posted config tally period next zs t)
    (swept : ∀ z ∈ zs, Swept z.header t) (springs : Springs Header.Descends zs ds)
    (bothWays : TiedBothWays ds t') (live : ∀ d ∈ ds, d.isGarbage = false)
    (accounts : t'.accounts.Sublist t.accounts) (period' : Use → UInt32 → Nat) :
    Posted config tally period' next ds t' := by
  have sub : t'.identities.Sublist t.identities := by
    rw [Table.identities_eq_accounts, Table.identities_eq_accounts]
    exact accounts.map Prod.fst
  have apart := sub.nodup posted.apart
  have below : ∀ identity ∈ t'.identities, identity.toNat < next.toNat :=
    fun identity hi => posted.below identity (sub.subset hi)
  refine ⟨apart, below, fun d hd => ?_, posted.unheard⟩
  obtain ⟨z, hz, descends⟩ := springs d hd
  have m := posted.metered z hz
  have unkept : config.predicting.generating.value = false → d.header.flags.redundant = true →
      d.header.flags.keep = false := by
    intro generating redundant
    rw [descends.keep_eq]
    exact m.unkept generating (descends.redundant redundant)
  cases redundant : d.header.flags.redundant with
  | false =>
    refine .of_not_learned (fun learned => ?_) (fun i link => ?_) unkept
    · exact Bool.false_ne_true (redundant.symm.trans learned.2)
    · rw [bothWays.free d hd redundant] at link
      cases link
  | true =>
    -- the row is found through its new link, and its sum through the account that it kept
    have learned : d.Learned := ⟨live d hd, redundant⟩
    obtain ⟨k, at_d⟩ := exists_at 0 hd
    obtain ⟨i, row, link, found, own, -, alive⟩ := bothWays.own k d at_d learned
    have own_eq : t'.ownAt d.header.identity i = some row := Table.ownAt_eq_some.2 ⟨found, own⟩
    have lt := Table.lt_size_of_row? found
    have fits := Nat.lt_of_le_of_lt (Table.size_le apart below) next.toNat_lt
    refine .of_row i row (by omega) (fun j row' own' => ?_) own_eq ?_ alive
      (fun u => ?_) (fun u => ?_) unkept
    · obtain rfl := Table.index_eq apart own' own_eq
      rw [own_eq] at own'
      exact ⟨rfl, (Option.some.inj own').symm⟩
    · rcases Header.row?_cases link with ⟨-, link_eq⟩ | wide
      · rw [← link_eq, UInt32.ofNat_toNat]
      · omega
    · rw [descends.used_eq]
      exact (swept z hz).cleared (descends.learned learned) u
    · rw [descends.identity_eq]
      exact posted.sum_eq hz (swept z hz) (descends.learned learned)
        (accounts.subset (List.mem_map_of_mem (Table.mem_of_row? found)))
        (own.trans descends.identity_eq) u

/-! ### Evictions -/

section Eviction

variable {config : Config} {tally period : Use → UInt32 → Nat} {plan : ScanPlan} {fraction : UInt32}
  {db db' : Database} {ys zs cs : List Cell} {t : Table} {p : ScanProgress} {n : Nat}

/-- A scan of the whole arena keeps what is on record, and sweeps every clause. -/
theorem Posted.scanned (posted : Posted config tally period db.nextIdentity ys db.table)
    (holds : db.Holds ys) (tracks : Tracks plan config)
    (pass : plan.scanCells 0 ys (tableFor plan db.table) {} = (.ok p, zs, t)) :
    Posted config tally period db.nextIdentity zs t ∧ ∀ z ∈ zs, Swept z.header t := by
  have result := ScanPlan.pass_scanCells plan 0 ys (tableFor plan db.table) {}
  rw [pass, tableFor, if_pos tracks.collecting] at result
  have opens : ∀ c ∈ ys, c.header.flags.redundant = true → plan.opens c.header = true :=
    fun c hc redundant => tracks.opens fun scored => (posted.metered c hc).unkept scored redundant
  have unseen : Posted config tally period db.nextIdentity ([] ++ ys) db.table.markUnseen :=
    posted.mapRows (f := fun row => { row with seen := false }) (fun _ => rfl) (fun _ => rfl)
      fun _ u => by cases u <;> rfl
  have ascending : (([] ++ ys).map identity).Pairwise (· < ·) := holds.ascending
  obtain ⟨behind, swept, -⟩ := result.posted tracks.collecting opens ascending holds.below unseen
  exact ⟨behind, swept⟩

/-- Behind a scan, the clauses are tied both ways to the rows that stay. -/
theorem Posted.bothWays (posted : Posted config tally period db.nextIdentity zs t)
    (swept : ∀ z ∈ zs, Swept z.header t) (holds : db.Holds ys) (tracks : Tracks plan config)
    (pass : plan.scanCells 0 ys (tableFor plan db.table) {} = (.ok p, zs, t)) :
    TiedBothWays (relinked (entries t) zs) t.settled := by
  have fits := holds.fits'
  have lasting : zs.map (revised Header.lasting) = ys.map (revised Header.lasting) := by
    have lasting := (ScanPlan.pass_scanCells plan 0 ys (tableFor plan db.table) {}).lasting
    rwa [pass] at lasting
  have extents_eq : extents zs = extents ys := extents_eq_of_map_eq lasting
  have ascending := ascending_of_lasting lasting holds.ascending
  have anchored : ScanPlan.Anchored ([] ++ ys) (extents ([] ++ ys)) t :=
    anchored_pass tracks.collecting (by rw [List.nil_append]; omega) pass
  have anchored := anchored.of_lasting lasting
  refine anchored.bothWays (by omega) (fun k z at_z learned => ?_) fun z hz => (swept z hz).free
  obtain ⟨i, row, own, seen, -⟩ := (swept z at_z.mem).seen learned
  obtain ⟨found, identity_eq⟩ := Table.ownAt_eq_some.1 own
  obtain ⟨j, d, at_d, -, own_d, place, -⟩ := anchored.own i row found seen
  obtain ⟨rfl, -⟩ := eq_of_identity ascending at_d at_z
    (congrArg UInt32.toNat (own_d.trans identity_eq))
  have alive := ((posted.metered z at_z.mem).linked learned i row own).2
  exact ⟨i, row, found, identity_eq, place, seen, alive⟩

/-- Where an eviction finds no candidate, what is on record stays, and all counts are cleared. -/
theorem Eviction.posted_idle (h : Eviction plan fraction [] ys db (.ok none) db' cs)
    (holds : db.Holds ys) (posted : Posted config tally period db.nextIdentity ys db.table)
    (tracks : Tracks plan config) (period' : Use → UInt32 → Nat) :
    Posted config tally period' db'.nextIdentity cs db'.table := by
  cases h with
  | idle pass =>
    obtain ⟨behind, swept⟩ := posted.scanned holds tracks pass
    exact behind.cleared swept period'

/-- Where an eviction removes clauses, all but the garbage is tied both ways, and they come from the
clauses behind the scan. -/
theorem Eviction.tiedAgain (h : Eviction plan fraction [] ys db (.ok (some n)) db' cs)
    (holds : db.Holds ys) (posted : Posted config tally period db.nextIdentity ys db.table)
    (tracks : Tracks plan config) :
    ∃ p zs t, plan.scanCells 0 ys (tableFor plan db.table) {} = (.ok p, zs, t) ∧
      Posted config tally period db.nextIdentity zs t ∧ (∀ z ∈ zs, Swept z.header t) ∧
      Springs Header.Descends zs cs ∧ TiedBothWays cs db'.table ∧
      db'.table.accounts.Sublist t.accounts ∧ db'.nextIdentity = db.nextIdentity := by
  cases h with
  | @removed p cs t t' es ms n settled keys_eq told markable offers rows behind count =>
    have ascending := ascending_of_lasting settled.lasting holds.ascending
    rw [Eviction.table_removed offers]
    cases settled with
    | bare untracked =>
      rw [tracks.collecting] at untracked
      cases untracked
    | @linked zs t tracked pass =>
      obtain ⟨behind, swept⟩ := posted.scanned holds tracks pass
      have bothWays := (behind.bothWays swept holds tracks pass).of_keys keys_eq
      refine ⟨p, zs, t, pass, behind, swept, ?_, ?_, ?_, ?_⟩
      · exact (springs_relinked (entries t) zs).trans (springs_markAll ms _).descends
          Header.Descends.trans
      · exact bothWays.markedAll ascending markable fun m hm => (offers m hm).learned
      · rw [Table.accounts_endedAll, Table.accounts_of_keys keys_eq]
        exact Table.accounts_settled t
      · exact (markedAll_frame ms _ _).2.1

end Eviction

/-! ### Reductions -/

section Reduction

variable {π : Type} {c : Context π} {tally period : Use → UInt32 → Nat} {search : Snapshot}
  {cs ds : List Cell} {result : Report × Snapshot} {db : Database}

/-- A compaction of the whole arena keeps what is on record. -/
theorem Posted.collected {config : Config} {xs ys : List Cell}
    (posted : Posted config tally period db.nextIdentity (xs ++ ys) db.table) (first last : Reference) :
    Posted config tally period (db.collected xs ys first last).nextIdentity
      (xs ++ settle db.arena.word (extents xs) ys) (db.collected xs ys first last).table :=
  (posted.mapRows
    (f := fun row => { row with clause := ((relocationOf xs ys).get? row.clause).getD .invalid })
    (fun _ => rfl) (fun _ => rfl) fun _ u => by cases u <;> rfl).inherit (springs_settle _ _ xs ys)

/-- A reduction that does not fail keeps what is on record, and clears all counts unless the search is
inconsistent. -/
theorem Reduction.posted (h : Reduction c search cs (.ok result) db ds) (holds : c.database.Holds cs)
    (collecting : c.config.collecting = true)
    (posted : Posted c.config tally period c.database.nextIdentity cs c.database.table)
    {period' : Use → UInt32 → Nat} (early : search.inconsistent = true → period' = period) :
    Posted c.config tally period' db.nextIdentity ds db.table := by
  have holds : (c.database.laid (flagged true (c.protects search) cs)).Holds _ :=
    holds.of_core (core_flagged true (c.protects search) cs)
  have flags := posted.inherit (springs_flagged true (c.protects search) cs)
  have whole := c.scanStart_of_collecting collecting (c.whole search)
  have tracks : Tracks c.plan c.config := Reduction.tracks collecting
  cases h with
  | unstarted nowhere =>
    rw [whole] at nowhere
    cases nowhere
  | unsatisfiable inconsistent =>
    rw [early inconsistent]
    exact posted
  | @idle xs ys ds db part split start eviction =>
    rw [whole] at start
    obtain rfl := eq_nil_of_extents start.symm
    rw [split] at holds flags
    exact (eviction.posted_idle holds flags tracks period').inherit
      (springs_flagged false (c.protects search) ds)
  | @compacted xs ys ds xs' ys' found db first last asked split start eviction resplit restart =>
    rw [whole] at start
    obtain rfl := eq_nil_of_extents start.symm
    obtain rfl := eq_nil_of_extents restart
    rw [split] at holds flags
    cases found with
    | none =>
      have idle : Posted c.config tally period' (db.laid ([] ++ ys')).nextIdentity
          (flagged false (c.protects search) ds) (db.laid ([] ++ ys')).table :=
        (eviction.posted_idle holds flags tracks period').inherit
          (springs_flagged false (c.protects search) ds)
      rw [resplit] at idle
      exact idle.collected first last
    | some n =>
      -- links and places of rows are new here, so the clauses are compared with those behind the scan
      obtain ⟨-, zs, t, -, behind, swept, springs, bothWays, accounts, next_eq⟩ :=
        eviction.tiedAgain holds flags tracks
      have cleared : TiedBothWays (flagged false (c.protects search) ds) db.table :=
        bothWays.revised (tie_flagged false ((c.protects search).map Reference.offset))
      have left := springs.trans (springs_flagged false (c.protects search) ds).descends
        Header.Descends.trans
      have fits := (eviction.holds holds).fits'
      rw [← extents_eq (extent_flagged false (c.protects search) ds)] at fits
      rw [resplit] at cleared left fits
      rw [← next_eq] at behind
      refine behind.of_bothWays swept (left.trans (springs_settle _ _ [] ys').descends
        Header.Descends.trans) (cleared.collected _ fits) (fun d hd => isGarbage_of_mem_settle hd) ?_ period'
      rw [← Table.accounts_relocate db.table (relocationOf [] ys')] at accounts
      exact accounts

end Reduction

end ClauseStore
