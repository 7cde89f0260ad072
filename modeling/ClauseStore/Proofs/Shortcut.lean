import ClauseStore.Proofs.Traversal

/-!
The shortcut of reductions by rank, which scan from the cached reference and not from the start of the
arena. Where no rows are kept, no record is linked to one; and if explicit collections start at the start
of the arena, no redundant record that is not kept stands before the cached reference, not even a garbage
one. A scan leaves no trace on the records that then stand there, so a scan from the cached reference
comes to what a scan of the whole arena comes to.
-/

namespace ClauseStore

open Cell Database

/-! ### Rows headed by a reference -/

namespace Cell

/-- The clause of a cell is redundant and not kept, be it live or garbage. -/
def isLoose (c : Cell) : Bool := c.header.flags.redundant && !c.header.flags.keep

/-- No loose cell stands before a reference, and no cell is linked to a row. -/
structure Headed (first : Reference) (cs : List Cell) : Prop where
  front : ∀ k c, At 0 cs k c → c.isLoose = true → first.offset ≤ k
  unlinked : ∀ c ∈ cs, c.header.link = noLink

variable {first start : Reference} {c d : Cell} {cs ds xs ys zs : List Cell} {f : Nat → Header → Header}

theorem isLoose_eq_of_core (h : d.core = c.core) : d.isLoose = c.isLoose := by
  obtain ⟨flags_eq, -⟩ := revised_eq_iff.1 h
  simp only [Header.core, Header.mk.injEq, Flags.mk.injEq] at flags_eq
  simp only [isLoose, flags_eq]

namespace Headed

theorem weaken (h : Headed first cs) (fewer : ∀ k d, At 0 ds k d →
    ∃ c, At 0 cs k c ∧ (d.isLoose = true → c.isLoose = true) ∧
      (c.header.link = noLink → d.header.link = noLink)) : Headed first ds := by
  constructor
  · intro k d hd loose
    obtain ⟨c, hc, was, -⟩ := fewer k d hd
    exact h.front k c hc (was loose)
  · intro d hd
    obtain ⟨k, at_d⟩ := exists_at 0 hd
    obtain ⟨c, hc, -, link⟩ := fewer k d at_d
    exact link (h.unlinked c hc.mem)

theorem mapAt (h : Headed first cs)
    (fewer : ∀ k (c : Cell), (c.revised (f k)).isLoose = true → c.isLoose = true)
    (link : ∀ k (d : Header), (f k d).link = d.link) : Headed first (mapAt f 0 cs) := by
  refine h.weaken fun k d hd => ?_
  obtain ⟨c, hc, rfl⟩ := at_mapAt.1 hd
  exact ⟨c, hc, fewer k c, fun none => (link k c.header).trans none⟩

theorem only (h : Headed first cs) {g : Header → Header}
    (fewer : ∀ c : Cell, (c.revised g).isLoose = true → c.isLoose = true)
    (link : ∀ d : Header, (g d).link = d.link) (k : Nat) :
    Headed first (Cell.mapAt (Arena.only k g) 0 cs) := by
  refine h.mapAt (fun j c loose => ?_) fun j d => ?_
  · rw [Arena.only] at loose
    split at loose
    · exact fewer c loose
    · exact loose
  · rw [Arena.only]
    split
    · exact link d
    · rfl

theorem flagged (h : Headed first cs) (value : Bool) (rs : List Reference) :
    Headed first (flagged value rs cs) := by
  refine h.mapAt (fun k c loose => ?_) fun k d => ?_
  · rw [revised] at loose
    split at loose
    · exact loose
    · exact loose
  · split <;> rfl

theorem markAll (h : Headed first cs) (ms : List Placed) : Headed first (markAll ms cs) := by
  rw [markAll_eq]
  refine h.mapAt (fun k c loose => ?_) fun k d => ?_
  · split at loose
    · exact loose
    · exact loose
  · split <;> rfl

/-- What is found behind a boundary heads a row, if no loose cell stands before the boundary. -/
theorem behind (front : Headed start (xs ++ ys)) (start_eq : start.offset = extents xs)
    (least : ∀ k c, At (extents xs) zs k c → c.isLoose = true → first.offset ≤ k)
    (unlinked : ∀ z ∈ zs, z.header.link = noLink) : Headed first (xs ++ zs) := by
  constructor
  · intro k c hc loose
    rcases at_append.1 hc with hc | hc
    · have := front.front k c (at_append.2 (.inl hc)) loose
      have := hc.bounds.2
      have := c.extent_pos
      omega
    · rw [Nat.zero_add] at hc
      exact least k c hc loose
  · intro c hc
    rcases List.mem_append.1 hc with hc | hc
    · exact front.unlinked c (by simp [hc])
    · exact unlinked c hc

/-- What a compaction caches heads the row that it leaves. -/
theorem settled (front : Headed start (xs ++ ys)) (start_eq : start.offset = extents xs)
    {fill : Nat → UInt32} (least : NoneBefore first (extents xs) (settle fill (extents xs) ys)) :
    Headed first (xs ++ settle fill (extents xs) ys) := by
  refine front.behind start_eq (fun k c hc loose => least k c hc ?_) fun z hz => ?_
  · rw [isReducible_of_live (isGarbage_of_mem_settle hc.mem)]
    exact loose
  · have links_eq : (settle fill (extents xs) ys).map (fun c => c.header.link) =
        (ys.filter fun c => !c.isGarbage).map fun c => c.header.link := map_settle fun _ _ => rfl
    have : z.header.link ∈ (ys.filter fun c => !c.isGarbage).map fun c => c.header.link :=
      links_eq ▸ List.mem_map_of_mem hz
    obtain ⟨c, hc, link_eq⟩ := List.mem_map.1 this
    rw [← link_eq]
    exact front.unlinked c (by simp [(List.mem_filter.1 hc).1])

/-- The cells before the head of a row are not loose. -/
theorem firm_before (h : Headed first (xs ++ ys)) (place : extents xs ≤ first.offset) :
    ∀ x ∈ xs, x.isLoose = false ∧ x.header.link = noLink := by
  intro x hx
  refine ⟨Bool.eq_false_iff.2 fun loose => ?_, h.unlinked x (by simp [hx])⟩
  obtain ⟨k, hk⟩ := exists_at 0 hx
  have := h.front k x (at_append.2 (.inl hk)) loose
  have := hk.bounds.2
  have := x.extent_pos
  omega

end Headed

end Cell

/-! ### Scans without rows -/

namespace Header

variable {h : Header}

theorem withRow_none_of_unlinked (unlinked : h.link = noLink) : h.withRow none = h := by
  rw [withRow, ← unlinked]

theorem ended_of_unlinked (unlinked : h.link = noLink) (t : Table) : t.ended h = t := by
  have none : h.row? = none := by rw [row?, if_pos unlinked]
  rw [Table.ended, none]

end Header

namespace ScanPlan

variable {plan : ScanPlan} {h : Header} {cs xs ys zs : List Cell} {c : Cell}

/-- Where no rows are kept, a scan of a record that has no link does not fail, and makes none. -/
theorem exists_scanCell_of_unlinked (untracked : plan.collecting = false) (unlinked : h.link = noLink)
    (k : Nat) (t : Table) (p : ScanProgress) :
    ∃ p' h', plan.scanCell k h t p = (.ok p', h', t) ∧ h'.link = noLink := by
  rw [scanCell]
  split
  · split
    · dsimp only
      split
      · exact ⟨_, h, by rw [Header.ended_of_unlinked unlinked], unlinked⟩
      · rw [accountIf, if_neg (by simp [untracked])]
        exact ⟨_, _, rfl, (link_weigh ..).trans unlinked⟩
    · exact ⟨p, h, rfl, unlinked⟩
  · exact ⟨p, _, by rw [Header.ended_of_unlinked unlinked], rfl⟩

theorem exists_scanCells_of_unlinked (untracked : plan.collecting = false)
    (unlinked : ∀ c ∈ cs, c.header.link = noLink) (k : Nat) (t : Table) (p : ScanProgress) :
    ∃ p' zs, plan.scanCells k cs t p = (.ok p', zs, t) ∧ ∀ z ∈ zs, z.header.link = noLink := by
  induction cs generalizing k p with
  | nil => exact ⟨p, [], rfl, by simp⟩
  | cons c cs ih =>
    obtain ⟨p₁, h, step, link⟩ :=
      exists_scanCell_of_unlinked untracked (unlinked c (by simp)) k t p
    obtain ⟨p', zs, rest, links⟩ := ih (fun d hd => unlinked d (by simp [hd])) (k + c.extent) p₁
    refine ⟨p', c.withHeader h :: zs, ?_, fun z hz => ?_⟩
    · simp only [scanCells, step, rest]
    · rcases List.mem_cons.1 hz with rfl | hz
      · exact link
      · exact links z hz

/-- A scan by rank leaves no trace on a record that is not loose, as long as none counts. -/
theorem scanCell_of_firm (unfeatured : plan.generating = false) (firm : c.isLoose = false)
    (unlinked : c.header.link = noLink) (k : Nat) (t : Table) :
    plan.scanCell k c.header t {} = (.ok {}, c.header, t) := by
  rw [scanCell]
  cases redundant : c.header.flags.redundant with
  | false =>
    rw [if_neg (by decide), Header.withRow_none_of_unlinked unlinked, Header.ended_of_unlinked unlinked]
  | true =>
    rw [isLoose, redundant, Bool.true_and] at firm
    have passed : ((({} : ScanProgress).first.isValid) || plan.opens c.header) = false := by
      rw [opens, unfeatured, firm]
      rfl
    rw [if_pos rfl, if_neg (by simp [passed])]

/-- A scan by rank begins at the first loose record, wherever it starts before it. -/
theorem scanCells_append_of_firm (unfeatured : plan.generating = false)
    (firm : ∀ c ∈ xs, c.isLoose = false ∧ c.header.link = noLink) (k : Nat) (t : Table) :
    plan.scanCells k (xs ++ ys) t {} =
      ((plan.scanCells (k + extents xs) ys t {}).1,
        xs ++ (plan.scanCells (k + extents xs) ys t {}).2.1,
        (plan.scanCells (k + extents xs) ys t {}).2.2) := by
  induction xs generalizing k with
  | nil => rfl
  | cons c cs ih =>
    obtain ⟨here, link⟩ := firm c (by simp)
    have rest := ih (fun d hd => firm d (by simp [hd])) (k + c.extent)
    rw [List.cons_append, scanCells, scanCell_of_firm unfeatured here link]
    simp only [rest, extents_cons, Nat.add_assoc]
    rfl

end ScanPlan

/-! ### Evictions and reductions -/

namespace Eviction

variable {plan : ScanPlan} {fraction : UInt32} {xs ys cs : List Cell} {db db' : Database}
  {r : Except Error (Option Nat)} {start : Reference}

/-- A scan by rank caches a reference that heads the row it leaves. -/
theorem headed_of_pass (untracked : plan.collecting = false) (holds : db.Holds (xs ++ ys))
    (start_eq : start.offset = extents xs) (headed : Headed start (xs ++ ys)) {t₀ t : Table}
    {p : ScanProgress} {zs : List Cell} (pass : plan.scanCells (extents xs) ys t₀ {} = (.ok p, zs, t)) :
    Headed p.first (xs ++ zs) ∧ Headed start (xs ++ zs) := by
  have passed := ScanPlan.pass_scanCells plan (extents xs) ys t₀ {}
  rw [pass] at passed
  have unlinked : ∀ c ∈ ys, c.header.link = noLink := fun c hc => headed.unlinked c (by simp [hc])
  obtain ⟨p', zs', pass', links⟩ :=
    ScanPlan.exists_scanCells_of_unlinked untracked unlinked (extents xs) t₀ {}
  obtain ⟨-, rfl, -⟩ : p = p' ∧ zs = zs' ∧ t = t₀ := by simpa using pass.symm.trans pass'
  have fits := holds.fits'
  rw [extents_append] at fits
  have was : ∀ {k c}, At (extents xs) zs k c → c.isLoose = true →
      ∃ d, At (extents xs) ys k d ∧ d.isLoose = true := by
    intro k c hc loose
    obtain ⟨d, hd, same⟩ := hc.of_map_eq passed.lasting.symm
    rw [isLoose, ← flags_eq_of_lasting same] at loose
    exact ⟨d, hd, loose⟩
  constructor
  · refine headed.behind start_eq (fun k c hc loose => ?_) links
    obtain ⟨d, hd, loose⟩ := was hc loose
    simp only [isLoose, Bool.and_eq_true] at loose
    refine passed.first_le fits hd ?_
    rw [ScanPlan.sights, ScanPlan.opens, loose.1, loose.2, Bool.or_true, Bool.and_self]
  · refine headed.behind start_eq (fun k c hc loose => ?_) links
    obtain ⟨d, hd, loose⟩ := was hc loose
    exact headed.front k d hd.behind loose

/-- An eviction by rank keeps a row headed. -/
theorem headed (h : Eviction plan fraction xs ys db r db' cs) (untracked : plan.collecting = false)
    (holds : db.Holds (xs ++ ys)) (start_eq : start.offset = extents xs)
    (headed : Headed start (xs ++ ys)) : Headed db'.firstReducible cs ∧ Headed start cs := by
  have settlement : ∀ {p cs t}, Settlement plan xs ys db.table p cs t →
      Headed p.first cs ∧ Headed start cs := by
    intro p cs t settled
    cases settled with
    | bare _ pass => exact headed_of_pass untracked holds start_eq headed pass
    | linked tracked => rw [untracked] at tracked; cases tracked
  cases h with
  | failed pass =>
    have unlinked : ∀ c ∈ ys, c.header.link = noLink := fun c hc => headed.unlinked c (by simp [hc])
    obtain ⟨p, zs, pass', -⟩ := ScanPlan.exists_scanCells_of_unlinked untracked unlinked (extents xs)
      (tableFor plan db.table) {}
    rw [pass] at pass'
    cases pass'
  | idle pass => exact headed_of_pass untracked holds start_eq headed pass
  | unscored settled => exact settlement settled
  | @removed p zs t t' es ms n settled =>
    obtain ⟨first, front⟩ := settlement settled
    have frame := markedAll_frame ms zs (db.settledBehind zs t' p.first es)
    refine ⟨?_, front.markAll ms⟩
    show Headed (markedAll ms zs _).firstReducible _
    rw [frame.2.2.1]
    exact first.markAll ms

end Eviction

namespace Reduction

variable {π : Type} {c : Context π} {search : Snapshot} {cs ds : List Cell}
  {r : Except Error (Report × Snapshot)} {db : Database}

/-- A reduction by rank keeps the cached reference at the head. -/
theorem headed (h : Reduction c search cs r db ds) (plain : c.config.collecting = false)
    (holds : c.database.Holds cs) (headed : Headed c.database.firstReducible cs) :
    Headed db.firstReducible ds := by
  have front : Headed (c.scanStart (c.whole search)) cs := by
    rw [Context.scanStart]
    split
    · exact ⟨fun k _ _ _ => Nat.zero_le k, headed.unlinked⟩
    · exact headed
  have flags := holds.of_core (core_flagged true (c.protects search) cs)
  have flagged := front.flagged true (c.protects search)
  cases h with
  | unstarted => exact headed
  | unsatisfiable => exact headed
  | barred => exact headed.flagged ..
  | failed split start eviction =>
    rw [split] at flags flagged
    exact (eviction.headed plain flags start flagged).1.flagged ..
  | idle part split start eviction =>
    rw [split] at flags flagged
    exact (eviction.headed plain flags start flagged).1.flagged ..
  | @compacted xs ys zs xs' ys' found db first last asked split start eviction resplit restart first_at
      first_least =>
    rw [split] at flags flagged
    have left := (eviction.headed plain flags start flagged).2.flagged false (c.protects search)
    rw [resplit] at left
    exact left.settled (start.trans restart.symm) first_least

end Reduction

/-! ### Effects and runs -/

/-- Storing caches a fresh loose clause if none was cached. -/
theorem Database.Storage.headed {config : Config} {source : Source} {glue : UInt32} {conflicts : UInt64}
    {clause : Clause} {cs ds : List Cell} {db db' : Database} {r : Except Error Placement}
    (h : Storage config source glue conflicts clause cs db r db' ds) (holds : db.Holds cs)
    (headed : Headed db.firstReducible cs) : Headed db'.firstReducible ds := by
  cases h with
  | refused => exact headed
  | @binary a b literals_eq fresh =>
    rw [(beside_storedBinary a b source fresh).first_eq]
    exact headed
  | @long a b rest literals_eq =>
    have fits := holds.fits'
    have loose_eq : (Cell.stored db.nextIdentity source glue (keeps config source glue) conflicts
        (a :: b :: rest)).isLoose = (source == .redundant && !keeps config source glue) := rfl
    constructor
    · intro k c hc loose
      simp only [storedLong]
      rcases at_append.1 hc with hc | hc
      · have least := headed.front k c hc loose
        have := hc.bounds.2
        have := c.extent_pos
        split
        next opens =>
          -- nothing was cached, so no cell before the fresh one is loose
          simp only [Bool.and_eq_true, Bool.not_eq_true'] at opens
          rw [offset_eq_of_not_isValid opens.2] at least
          omega
        next => exact least
      · obtain ⟨rfl, rfl⟩ := (at_cons.1 hc).resolve_right not_at_nil
        rw [loose_eq] at loose
        rw [Nat.zero_add]
        split
        next => exact Nat.le_of_eq (toNat_ofOffset (by omega))
        next cached =>
          have valid : db.firstReducible.isValid = true := by simpa [loose] using cached
          obtain ⟨d, hd⟩ := holds.first_eq valid
          have := hd.bounds.2
          omega
    · intro c hc
      rcases List.mem_append.1 hc with hc | hc
      · exact headed.unlinked c hc
      · rw [List.mem_singleton.1 hc]
        rfl

/-- The call does not turn on statistics, and if it is a collection, it starts at the start of the
arena. -/
def Operation.Plain {π : Type} (op : Operation) (_ : Context π) : Prop :=
  match op with
  | .configure config => config.collecting = false
  | .collect start => start = .start
  | _ => True

instance {π : Type} (op : Operation) (c : Context π) : Decidable (op.Plain c) :=
  match op with
  | .configure config => inferInstanceAs (Decidable (config.collecting = false))
  | .collect start => inferInstanceAs (Decidable (start = .start))
  | .listen _ | .create .. | .noteConflict | .notePropagation _ | .noteUip _ | .noteUsed _
  | .setReason .. | .shrink .. | .markGarbage _ | .makeIrredundant _ | .deleteBinary ..
  | .setWatching _ | .queuePending _ | .takePending | .connectPending | .reduce _ =>
    inferInstanceAs (Decidable True)

namespace Effect

variable {π : Type} {c c' : Context π} {cs ds : List Cell} {op : Operation} {r : Except Error Answer}

/-- Every plain effect keeps the cached reference at the head. -/
theorem headed (h : Effect c cs op r c' ds) (holds : c.database.Holds cs) (plain : op.Plain c)
    (untracked : c.config.collecting = false) (headed : Headed c.database.firstReducible cs) :
    c'.config.collecting = false ∧ Headed c'.database.firstReducible ds := by
  cases h with
  | configured => exact ⟨plain, headed⟩
  | beside _ config_eq same =>
    rw [config_eq, same.first_eq]
    exact ⟨untracked, headed⟩
  | stored storage => exact ⟨untracked, storage.headed holds headed⟩
  | noted note found =>
    refine ⟨untracked, headed.only (fun d loose => ?_) (Operation.link_of_note note) _⟩
    have core_eq : (d.revised _).core = d.core :=
      revised_eq_iff.2 ⟨Operation.core_of_note note d.header, rfl, rfl⟩
    exact (isLoose_eq_of_core core_eq).symm.trans loose
  | refused => exact ⟨untracked, headed⟩
  | marked =>
    have same : ∀ c : Cell, (c.revised (Header.withFlag .garbage true)).isLoose = c.isLoose := fun _ => rfl
    exact ⟨untracked, headed.only (fun c loose => (same c).symm.trans loose) (fun _ => rfl) _⟩
  | promoted =>
    have firm : ∀ c : Cell, (c.revised (Header.withFlag .redundant false)).isLoose = false := fun c => by
      simp [isLoose, revised, Header.withFlag, Flags.set]
    have link : ∀ d : Header, (d.withFlag .redundant false).link = d.link := fun _ => rfl
    exact ⟨untracked, headed.only (fun c loose => absurd ((firm c).symm.trans loose) (by decide)) link _⟩
  | @shortened r size xs ys d split start free =>
    subst split
    obtain ⟨-, -, shorter⟩ := Database.barsShrink_eq_false (holds.sound d (by simp)) free
    refine ⟨untracked, headed.weaken fun k e he => ?_⟩
    rcases at_append.1 he with he | he
    · exact ⟨e, at_append.2 (.inl he), id, id⟩
    · rcases at_cons.1 he with ⟨rfl, rfl⟩ | he
      · exact ⟨d, at_append.2 (.inr (at_cons.2 (.inl ⟨rfl, rfl⟩))), id, id⟩
      · rw [extent_shrunk d shorter] at he
        exact ⟨e, at_append.2 (.inr (at_cons.2 (.inr he))), id, id⟩
  | @collected start xs ys first last split start_eq first_at first_least =>
    subst split
    have front : Headed .start (xs ++ ys) := ⟨fun k _ _ _ => Nat.zero_le k, headed.unlinked⟩
    have start_at : Reference.start.offset = extents xs := by
      rw [show start = .start from plain] at start_eq
      rw [start_eq]
      exact holds.start_eq
    exact ⟨untracked, front.settled start_at first_least⟩
  | reduced reduction => exact ⟨untracked, reduction.headed untracked holds headed⟩

end Effect

namespace Context

variable {π : Type} [Predictor π]

/-- Along a plain run the cached reference stays at the head. -/
theorem exists_headed_run {c : Context π} {cs : List Cell} {ops : List Operation}
    (h : c.database.Holds cs) (untracked : c.config.collecting = false)
    (headed : Headed c.database.firstReducible cs) (follows : c.Follows ops)
    (plain : c.Throughout Operation.Plain ops) :
    (c.run ops).config.collecting = false ∧
      ∃ ds, (c.run ops).database.Holds ds ∧ Headed (c.run ops).database.firstReducible ds := by
  induction ops generalizing c cs with
  | nil => exact ⟨untracked, cs, h, headed⟩
  | cons op ops ih =>
    obtain ⟨lawful, rest⟩ := follows
    obtain ⟨here, behind⟩ := plain
    obtain ⟨c', ds, ms, after_eq, effect⟩ := exists_effect h lawful
    have next : (op.after c).database.Holds ds := holds_after after_eq (effect.holds h)
    obtain ⟨untracked', headed'⟩ := effect.headed h here untracked headed
    have untracked_next : (op.after c).config.collecting = false := by
      rw [after_eq]
      exact untracked'
    have headed_next : Headed (op.after c).database.firstReducible ds := by
      rw [after_eq]
      exact headed'
    exact ih next untracked_next headed_next rest behind

end Context

/-! ### The shortcut -/

namespace Database

/-- A database whose clauses are flagged as reasons, or not, by the places of their records. -/
def withReasons (reasons : Nat → Bool) (db : Database) : Database :=
  { db with
    arena := (db.arena.walkFrom 0).1.foldl
      (fun a o => a.revise o (Header.withFlag .reason (reasons o))) db.arena }

variable {db : Database} {cs : List Cell}

theorem foldl_revise_ofCells (f : Nat → Header → Header) (xs ys : List Cell) :
    (offsets (extents xs) ys).foldl (fun a o => a.revise o (f o)) (Arena.ofCells (xs ++ ys)) =
      .ofCells (xs ++ mapAt f (extents xs) ys) := by
  induction ys generalizing xs with
  | nil => rfl
  | cons c cs ih =>
    have rest := ih (xs ++ [c.withHeader (f (extents xs) c.header)])
    have next : extents (xs ++ [c.withHeader (f (extents xs) c.header)]) = extents xs + c.extent := by
      simp [Cell.withHeader]
    rw [next, List.append_assoc, List.append_assoc] at rest
    rw [offsets_cons, List.foldl_cons, Arena.revise_ofCells_append]
    exact rest

theorem Holds.withReasons (h : db.Holds cs) (reasons : Nat → Bool) : (db.withReasons reasons).Holds
    (mapAt (fun k => Header.withFlag .reason (reasons k)) 0 cs) := by
  have arena_eq := foldl_revise_ofCells (fun k => Header.withFlag .reason (reasons k)) [] cs
  have core_eq : (mapAt (fun k => Header.withFlag .reason (reasons k)) 0 cs).map core = cs.map core :=
    map_revised_mapAt (fun k d => core_withFlag_reason (reasons k) d) 0 cs
  have held := h.of_core core_eq
  rw [Database.withReasons, h.tiled.walkFrom_zero, h.arena_eq]
  rw [extents_nil, List.nil_append, List.nil_append] at arena_eq
  exact arena_eq ▸ held

/-- A scan by rank from behind some records that are not loose, and one of the whole arena, come to the
same. -/
theorem Holds.yields_scan_both {xs ys : List Cell} (h : db.Holds (xs ++ ys)) {plan : ScanPlan}
    (untracked : plan.collecting = false)
    (firm : ∀ c ∈ xs, c.isLoose = false ∧ c.header.link = noLink)
    (unlinked : ∀ c ∈ ys, c.header.link = noLink) {start : Reference} (start_eq : start.offset = extents xs) :
    ∃ p zs t, plan.scanCells (extents xs) ys (tableFor plan db.table) {} = (.ok p, zs, t) ∧
      Yields (scan plan start) db (.ok p.candidates.toList) (db.settledBehind (xs ++ zs) t p.first []) ∧
      Yields (scan plan .start) db (.ok p.candidates.toList) (db.settledBehind (xs ++ zs) t p.first []) := by
  have unfeatured : plan.generating = false := (Bool.or_eq_false_iff.1 untracked).2
  obtain ⟨p, zs, pass, -⟩ := ScanPlan.exists_scanCells_of_unlinked untracked unlinked (extents xs)
    (tableFor plan db.table) {}
  have all : plan.scanCells 0 (xs ++ ys) (tableFor plan db.table) {} =
      (.ok p, xs ++ zs, tableFor plan db.table) := by
    rw [ScanPlan.scanCells_append_of_firm unfeatured firm, Nat.zero_add, pass]
  refine ⟨p, zs, tableFor plan db.table, pass, ?_, ?_⟩
  · rw [settledBehind, telling_nil]
    exact yields_scan plan h.tiled start_eq pass
  · have whole : db.Holds ([] ++ (xs ++ ys)) := h
    rw [settledBehind, telling_nil]
    exact yields_scan plan whole.tiled rfl all

/-- A scan by rank of an arena without loose records changes nothing where no reference is cached. -/
theorem Holds.yields_scan_firm (h : db.Holds cs) {plan : ScanPlan} (untracked : plan.collecting = false)
    (firm : ∀ c ∈ cs, c.isLoose = false ∧ c.header.link = noLink)
    (none_cached : db.firstReducible = .invalid) : Yields (scan plan .start) db (.ok []) db := by
  have whole : db.Holds ([] ++ cs) := h
  have pass : plan.scanCells 0 (cs ++ []) (tableFor plan db.table) {} = (.ok {}, cs ++ [], db.table) := by
    rw [ScanPlan.scanCells_append_of_firm (Bool.or_eq_false_iff.1 untracked).2 firm, tableFor,
      if_neg (by simp [untracked])]
    rfl
  rw [List.append_nil] at pass
  have scan := yields_scan plan (r := .start) whole.tiled rfl pass
  have same : (db.scanned [] (.ok {}, cs, db.table)).2 = db := by
    show { db.placed ([] ++ cs) db.table with firstReducible := .invalid } = db
    rw [placed, List.nil_append, ← h.arena_eq, ← none_cached]
  rw [same] at scan
  exact scan

end Database

namespace Context

variable {π : Type} [Predictor π] {c : Context π} {cs : List Cell}

/-- A context whose clauses are flagged as reasons, or not, by the places of their records. -/
def withReasons (reasons : Nat → Bool) (c : Context π) : Context π :=
  { c with database := c.database.withReasons reasons }

/-- What a scan decides about an eviction by rank. -/
theorem yields_evict_of_scan {xs ys zs : List Cell} {t : Table} {p : ScanProgress}
    (h : c.database.Holds (xs ++ ys)) (untracked : c.config.collecting = false)
    (pass : c.plan.scanCells (extents xs) ys (tableFor c.plan c.database.table) {} = (.ok p, zs, t)) :
    ∃ found c', ∀ start, Yields (Database.scan c.plan start) c.database (.ok p.candidates.toList)
      (c.database.settledBehind (xs ++ zs) t p.first []) → Yields (evict start) c (.ok found) c' := by
  have byRank : c.plan.byScore = false := (Bool.or_eq_false_iff.1 untracked).1
  by_cases fruitless : p.candidates.toList = []
  · refine ⟨none, { c with database := c.database.settledBehind (xs ++ zs) t p.first [] },
      fun start scan => Yields.get_bind (fun _ => rfl) ((yields_onDatabase scan).bind ?_)⟩
    rw [fruitless]
    exact (yields_log _).bind (yields_pure _ _)
  · obtain ⟨r, db', cs', predictor, rest, eviction, -⟩ := yields_evictCandidates c h pass fruitless
    cases r with
    | error e =>
      change Eviction _ _ _ _ _ (.error e) _ _ at eviction
      cases eviction with
      | failed failing => cases pass.symm.trans failing
      | unscored _ byScore => rw [byRank] at byScore; cases byScore
    | ok n =>
      refine ⟨some n, { c with predictor, database := db' }, fun start scan =>
        Yields.get_bind (fun _ => rfl) ((yields_onDatabase scan).bind ?_)⟩
      rw [if_neg (by simpa using fruitless)]
      exact rest.bind (yields_pure _ _)

/-- Behind every lawful run of an empty context without statistics, the explicit collections of which
start at the start of the arena, and for every choice of reasons: scans by rank from the cached reference
and from the start of the arena come to the same candidates and the same database, and so do evictions;
and where no reference is cached, a scan from the start of the arena finds no candidate and changes
nothing. -/
theorem scan_shortcut (config : Config) (predictor : π) (ops : List Operation)
    (untracked : config.collecting = false) (follows : (ofConfig config predictor).Follows ops)
    (plain : (ofConfig config predictor).Throughout Operation.Plain ops) (reasons : Nat → Bool)
    (plan : ScanPlan) (byRank : plan.collecting = false) :
    let c := ((ofConfig config predictor).run ops).withReasons reasons
    if c.database.firstReducible.isValid then
      (∃ candidates db, Yields (Database.scan plan c.database.firstReducible) c.database (.ok candidates) db ∧
        Yields (Database.scan plan .start) c.database (.ok candidates) db) ∧
      ∃ found c', Yields (evict c.database.firstReducible) c (.ok found) c' ∧
        Yields (evict .start) c (.ok found) c'
    else Yields (Database.scan plan .start) c.database (.ok []) c.database := by
  intro c
  have begins : (ofConfig config predictor).database.Holds [] := holds_nil
  have headed_nil : Headed (ofConfig config predictor).database.firstReducible [] :=
    ⟨fun _ _ hc => absurd hc not_at_nil, by simp⟩
  obtain ⟨untracked', cs, holds, headed⟩ :=
    exists_headed_run begins untracked headed_nil follows plain
  obtain ⟨cs', holds, headed⟩ : ∃ cs', c.database.Holds cs' ∧ Headed c.database.firstReducible cs' :=
    ⟨_, holds.withReasons reasons, headed.mapAt (fun _ _ loose => loose) fun _ _ => rfl⟩
  have untracked : c.config.collecting = false := untracked'
  split
  next valid =>
    obtain ⟨d, xs, ys, rfl, place⟩ := holds.first_eq valid
    rw [Nat.zero_add] at place
    have firm := headed.firm_before (Nat.le_of_eq place.symm)
    have unlinked : ∀ y ∈ d :: ys, y.header.link = noLink :=
      fun y hy => headed.unlinked y (List.mem_append_right xs hy)
    constructor
    · obtain ⟨p, zs, t, -, cached, all⟩ := holds.yields_scan_both byRank firm unlinked place
      exact ⟨_, _, cached, all⟩
    · obtain ⟨p, zs, t, pass, cached, all⟩ :=
        holds.yields_scan_both (show c.plan.collecting = false from untracked) firm unlinked place
      obtain ⟨found, c', evicts⟩ := yields_evict_of_scan holds untracked pass
      exact ⟨found, c', evicts _ cached, evicts _ all⟩
  next invalid =>
    rw [Bool.not_eq_true] at invalid
    have none_cached : c.database.firstReducible = .invalid := by
      simpa [Reference.isValid] using invalid
    have behind_all : extents cs' ≤ c.database.firstReducible.offset := by
      rw [offset_eq_of_not_isValid invalid]
      exact Nat.le_of_lt holds.fits'
    rw [← List.append_nil cs'] at headed
    exact holds.yields_scan_firm byRank (headed.firm_before behind_all) none_cached

/-- A reduction behind an irredundant and a kept clause, and a clause stored after it. -/
def reducedRun : List Operation :=
  [.create .original 0 [⟨2⟩, ⟨4⟩, ⟨6⟩], .create .redundant 1 [⟨2⟩, ⟨4⟩, ⟨7⟩],
    .create .redundant 5 [⟨2⟩, ⟨4⟩, ⟨9⟩], .create .redundant 9 [⟨2⟩, ⟨4⟩, ⟨11⟩],
    .create .redundant 8 [⟨2⟩, ⟨4⟩, ⟨13⟩], .noteUsed (.ofOffset 24), .reduce {},
    .create .redundant 7 [⟨2⟩, ⟨4⟩, ⟨15⟩], .collect .start]

/-- The reduction caches the third clause, and scans go on to begin there. -/
theorem scan_shortcut_reducedRun :
    let c := ((ofConfig {} ({} : Linear)).run reducedRun).withReasons fun o => o == 36
    (ofConfig {} ({} : Linear)).Follows reducedRun ∧
      (ofConfig {} ({} : Linear)).Throughout Operation.Plain reducedRun ∧
      c.database.firstReducible = .ofOffset 24 ∧
      ∃ candidates db, Yields (Database.scan ⟨false, false, 6, 0, 0⟩ c.database.firstReducible) c.database
          (.ok candidates) db ∧
        Yields (Database.scan ⟨false, false, 6, 0, 0⟩ .start) c.database (.ok candidates) db := by
  intro c
  have follows : (ofConfig {} ({} : Linear)).Follows reducedRun := by decide +kernel
  have plain : (ofConfig {} ({} : Linear)).Throughout Operation.Plain reducedRun := by decide +kernel
  have cached : c.database.firstReducible = .ofOffset 24 := by decide +kernel
  have valid : c.database.firstReducible.isValid = true := by rw [cached]; rfl
  have both := scan_shortcut ({} : Config) ({} : Linear) reducedRun rfl follows plain (fun o => o == 36)
    ⟨false, false, 6, 0, 0⟩ rfl
  exact ⟨follows, plain, cached, (if_pos valid ▸ both).1⟩

end Context

end ClauseStore
