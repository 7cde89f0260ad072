import ClauseStore.Proofs.Consultation
import ClauseStore.Proofs.Marking

/-!
Eviction on a row of cells. The rows that stay behind a scan are those of different live redundant
cells, so what either way of reducing picks for removal can be marked: different live redundant clauses
that are no reasons, and by rank none that is kept. An eviction that fails has marked nothing.
-/

namespace ClauseStore

open Cell Database

/-! ### The rows that stay -/

namespace ScanPlan.Anchored

variable {cs : List Cell} {limit : Nat} {t : Table}

theorem row_of_mem {row : Row} (h : row ∈ t.surviving.rows.toList) :
    ∃ i, t.row? i = some row ∧ row.seen = true ∧ row.garbage = false := by
  simp only [Table.surviving, Array.toList_filter, List.mem_filter, Table.stays, Bool.and_eq_true,
    Bool.not_eq_true'] at h
  obtain ⟨hmem, seen, live⟩ := h
  obtain ⟨i, found⟩ := Table.exists_row? hmem
  exact ⟨i, found, seen, live⟩

/-- A row that stays is that of a live redundant cell. -/
theorem surviving (h : Anchored cs limit t) {row : Row} (hrow : row ∈ t.surviving.rows.toList) :
    ∃ k c, At 0 cs k c ∧ c.Learned ∧ c.header.identity = row.identity ∧ row.clause = .ofOffset k := by
  obtain ⟨i, hi, seen, -⟩ := row_of_mem hrow
  obtain ⟨k, c, hc, learned, own, place, -⟩ := h.own i row hi seen
  exact ⟨k, c, hc, learned, own, place⟩

/-- No two rows that stay are those of one cell. -/
theorem surviving_apart (h : Anchored cs limit t) :
    (t.surviving.rows.toList.map Row.clause).Nodup := by
  have all : t.rows.toList.Pairwise fun a b =>
      a.seen = true → b.seen = true → a.clause ≠ b.clause := by
    rw [List.pairwise_iff_getElem]
    intro i j hi hj hij seen seen' clause_eq
    have := h.apart i j _ _ (t.row?_getElem hi) (t.row?_getElem hj) seen seen' clause_eq
    omega
  rw [List.nodup_iff_pairwise_ne, List.pairwise_map, Table.surviving, Array.toList_filter]
  refine ((all.filter _).imp_of_mem ?_)
  intro a b ha hb apart
  simp only [List.mem_filter, Table.stays, Bool.and_eq_true] at ha hb
  exact apart ha.2.1 hb.2.1

end ScanPlan.Anchored

/-! ### Behind the scan -/

/-- The cells and the table behind a scan that found a candidate, once the table is up to date. -/
inductive Settlement (plan : ScanPlan) (xs ys : List Cell) (t₀ : Table) (p : ScanProgress) :
    List Cell → Table → Prop where
  /-- no rows are kept -/
  | bare {zs : List Cell} {t : Table} (untracked : plan.collecting = false)
    (pass : plan.scanCells (extents xs) ys (tableFor plan t₀) {} = (.ok p, zs, t)) :
    Settlement plan xs ys t₀ p (xs ++ zs) t
  /-- the rows that stay are linked to their cells -/
  | linked {zs : List Cell} {t : Table} (tracked : plan.collecting = true)
    (pass : plan.scanCells (extents xs) ys (tableFor plan t₀) {} = (.ok p, zs, t)) :
    Settlement plan xs ys t₀ p (relinked (entries t) (xs ++ zs)) t.settled

namespace Settlement

variable {plan : ScanPlan} {xs ys cs : List Cell} {t₀ t : Table} {p : ScanProgress}

theorem lasting_pass {r : Except Error ScanProgress} {zs : List Cell}
    (pass : plan.scanCells (extents xs) ys (tableFor plan t₀) {} = (r, zs, t)) :
    (xs ++ zs).map (revised Header.lasting) = (xs ++ ys).map (revised Header.lasting) := by
  have := (ScanPlan.pass_scanCells plan (extents xs) ys (tableFor plan t₀) {}).lasting
  rw [pass] at this
  rw [List.map_append, List.map_append, this]

theorem lasting (h : Settlement plan xs ys t₀ p cs t) :
    cs.map (revised Header.lasting) = (xs ++ ys).map (revised Header.lasting) := by
  cases h with
  | bare _ pass => exact lasting_pass pass
  | linked _ pass => rw [lasting_relinked, lasting_pass pass]

end Settlement

/-- Behind a scan for which rows are kept, those that were seen are anchored. -/
theorem anchored_pass {plan : ScanPlan} {xs ys zs : List Cell} {t₀ t : Table}
    {r : Except Error ScanProgress} (tracked : plan.collecting = true)
    (fits : extents (xs ++ ys) < 4294967296)
    (pass : plan.scanCells (extents xs) ys (tableFor plan t₀) {} = (r, zs, t)) :
    ScanPlan.Anchored (xs ++ ys) (extents (xs ++ ys)) t := by
  have result := ScanPlan.pass_scanCells plan (extents xs) ys (tableFor plan t₀) {}
  rw [pass] at result
  refine result.anchored rfl rfl fits ?_
  rw [tableFor, if_pos tracked]
  exact ScanPlan.anchored_markUnseen ..

/-! ### What is picked -/

/-- Places at which there are cells of some kind are those of a list of such cells. -/
theorem exists_placed {cs : List Cell} {P : Cell → Prop} {ks : List Nat}
    (h : ∀ k ∈ ks, ∃ c, At 0 cs k c ∧ P c) :
    ∃ ms : List Placed, ms.map Prod.fst = ks ∧ ∀ m ∈ ms, At 0 cs m.1 m.2 ∧ P m.2 := by
  induction ks with
  | nil => exact ⟨[], rfl, by simp⟩
  | cons k ks ih =>
    obtain ⟨c, hc⟩ := h k (by simp)
    obtain ⟨ms, hms, all⟩ := ih fun j hj => h j (by simp [hj])
    refine ⟨(k, c) :: ms, by simp [hms], fun m hm => ?_⟩
    rcases List.mem_cons.1 hm with rfl | hm
    · exact hc
    · exact all m hm

theorem flags_eq_of_lasting {c d : Cell} (h : d.revised Header.lasting = c.revised Header.lasting) :
    d.header.flags = c.header.flags := by
  obtain ⟨hp, -⟩ := revised_eq_iff.1 h
  simp only [Header.lasting, Header.mk.injEq] at hp
  exact hp.2.1

theorem Cell.Learned.of_lasting {c d : Cell} (h : d.revised Header.lasting = c.revised Header.lasting)
    (learned : c.Learned) : d.Learned := by
  rw [Learned, isGarbage, flags_eq_of_lasting h]
  exact learned

theorem ScanPlan.Offers.of_lasting {plan : ScanPlan} {c d : Cell}
    (h : d.revised Header.lasting = c.revised Header.lasting) (offers : plan.Offers c) :
    plan.Offers d := by
  refine ⟨offers.learned.of_lasting h, ?_, ?_⟩
  · rw [flags_eq_of_lasting h]
    exact offers.free
  · rw [flags_eq_of_lasting h]
    exact offers.unkept

/-- Different places of cells that may be offered are those of cells that can be marked. -/
theorem exists_markable {plan : ScanPlan} {cs : List Cell} {ks : List Nat} (apart : ks.Nodup)
    (h : ∀ k ∈ ks, ∃ c, At 0 cs k c ∧ plan.Offers c) :
    ∃ ms : List Placed, ms.map Prod.fst = ks ∧ Markable ms cs ∧ ∀ m ∈ ms, plan.Offers m.2 := by
  obtain ⟨ms, hms, all⟩ := exists_placed h
  refine ⟨ms, hms, ⟨by rwa [hms], fun m hm => (all m hm).1, fun m hm => ?_, fun m hm => ?_⟩,
    fun m hm => (all m hm).2⟩
  · exact (all m hm).2.learned.1
  · exact (all m hm).2.free

theorem offset_nodup {ks : List Nat} (h : (ks.map Reference.ofOffset).Nodup) : ks.Nodup := by
  rw [List.nodup_iff_pairwise_ne, List.pairwise_map] at h
  exact h.imp fun hne heq => hne (congrArg _ heq)

/-! ### Slots -/

/-- The total order tells numbers apart. -/
theorem Binary64.rank_inj {a b : Binary64} : a.rank = b.rank ↔ a = b := by
  refine ⟨fun same => ?_, fun same => same ▸ rfl⟩
  have := a.bits.toNat_lt
  have := b.bits.toNat_lt
  have bits_eq : a.bits.toNat = b.bits.toNat := by
    simp only [rank, negative, magnitude, signBit] at same
    by_cases na : 9223372036854775808 ≤ a.bits.toNat <;>
      by_cases nb : 9223372036854775808 ≤ b.bits.toNat <;>
      simp only [na, nb, decide_true, decide_false, if_true, Bool.false_eq_true, if_false] at same <;>
      omega
  cases a
  cases b
  exact congrArg mk (UInt64.toNat_inj.1 bits_eq)

theorem comparing_atMost : Comparing fun a b : Binary64 × Nat => b.1.atMost a.1 where
  total a b := by simpa [Binary64.atMost] using Int.le_total b.1.rank a.1.rank
  trans ab bc := by
    simp only [Binary64.atMost, decide_eq_true_eq] at ab bc ⊢
    exact Int.le_trans bc ab

/-- The indices of a list ascend. -/
theorem zipIdx_pairwise {α : Type} (xs : List α) : xs.zipIdx.Pairwise fun p q => p.2 < q.2 := by
  rw [← List.pairwise_map (f := Prod.snd) (R := (· < ·)), List.zipIdx_map_snd]
  exact List.pairwise_lt_range'

theorem map_some_filterMap {α β : Type} {g : α → Option β} {xs : List α}
    (h : ∀ x ∈ xs, ∃ y, g x = some y) : (xs.filterMap g).map some = xs.map g := by
  induction xs with
  | nil => rfl
  | cons x xs ih =>
    obtain ⟨y, found⟩ := h x (by simp)
    rw [List.filterMap_cons_some found, List.map_cons, List.map_cons,
      ih fun z hz => h z (by simp [hz]), found]

theorem drop_filterMap {α β : Type} {g : α → Option β} {xs : List α} (h : ∀ x ∈ xs, ∃ y, g x = some y)
    (n : Nat) : (xs.filterMap g).drop n = (xs.drop n).filterMap g := by
  refine (List.map_inj_right fun _ _ => Option.some.inj).1 ?_
  rw [List.map_drop, map_some_filterMap h, map_some_filterMap fun x hx => h x (List.mem_of_mem_drop hx),
    List.map_drop]

namespace Table

variable {t : Table}

/-- The scores of the rows, each with its index. -/
def keyed (t : Table) : List (Binary64 × Nat) := (t.rows.toList.map Row.latest).zipIdx

theorem exists_row_of_keyed {p : Binary64 × Nat} (hp : p ∈ t.keyed) :
    ∃ row, t.row? p.2 = some row ∧ row.latest = p.1 := by
  have at_p := List.mem_zipIdx_iff_getElem?.1 hp
  rw [List.getElem?_map, Array.getElem?_toList] at at_p
  exact Option.map_eq_some_iff.1 at_p

theorem filterMap_keyed (t : Table) : (t.keyed.filterMap fun p => t.row? p.2) = t.rows.toList := by
  refine (List.map_inj_right fun _ _ => Option.some.inj).1 ?_
  rw [map_some_filterMap fun p hp => (exists_row_of_keyed hp).imp fun _ => And.left]
  apply List.ext_getElem?
  intro i
  simp only [keyed, List.getElem?_map, List.getElem?_zipIdx, Option.map_map, Nat.zero_add]
  cases at_i : t.rows.toList[i]? with
  | none => rfl
  | some row =>
    rw [Array.getElem?_toList] at at_i
    exact congrArg some at_i

end Table

namespace Context

/-- Rows from the best score on: of equal scores, those that stand first. -/
theorem exists_ranking (t : Table) {R : Row → Row → Prop} (ordered : t.rows.toList.Pairwise R) :
    ∃ order : List Row, order.Perm t.rows.toList ∧
      order.Pairwise (fun a b => b.latest.rank < a.latest.rank ∨ a.latest = b.latest ∧ R a b) ∧
      ∀ retain, slots t retain = (order.drop retain).reverse := by
  let sorted := stableSort (fun a b : Binary64 × Nat => b.1.atMost a.1) t.keyed
  let row (p : Binary64 × Nat) : Option Row := t.row? p.2
  have perm : sorted.Perm t.keyed := stableSort_perm ..
  have found : ∀ p ∈ sorted, ∃ r, row p = some r ∧ r.latest = p.1 :=
    fun p hp => Table.exists_row_of_keyed (perm.mem_iff.1 hp)
  refine ⟨sorted.filterMap row, t.filterMap_keyed ▸ perm.filterMap row, ?_, fun retain => ?_⟩
  · rw [List.pairwise_filterMap]
    refine (comparing_atMost.pairwise_stableSort t.keyed (zipIdx_pairwise _)).imp_of_mem ?_
    rintro p q hp hq ⟨le, lt⟩ a ha b hb
    obtain ⟨a, ha', latest_a⟩ := found p hp
    obtain ⟨b, hb', latest_b⟩ := found q hq
    cases ha.symm.trans ha'
    cases hb.symm.trans hb'
    simp only [Binary64.atMost, decide_eq_true_eq, decide_eq_false_iff_not, ← latest_a, ← latest_b] at le lt
    by_cases same : a.latest = b.latest
    · have first : p.2 < q.2 := lt.resolve_left (by simp [same])
      refine .inr ⟨same, ?_⟩
      obtain ⟨hi, rfl⟩ := Array.getElem?_eq_some_iff.1 ha
      obtain ⟨hj, rfl⟩ := Array.getElem?_eq_some_iff.1 hb
      exact List.pairwise_iff_getElem.1 ordered p.2 q.2 (by simpa using hi) (by simpa using hj) first
    · have apart := mt Binary64.rank_inj.1 same
      exact .inl (by omega)
  · have length_eq : sorted.length = t.size := by simp [perm.length_eq, Table.keyed, Table.size]
    have drop_eq : sorted.drop (t.size - (t.size - retain)) = sorted.drop retain := by
      by_cases many : retain ≤ t.size
      · rw [Nat.sub_sub_self many]
      · rw [List.drop_eq_nil_of_le (by omega), List.drop_eq_nil_of_le (by omega)]
    show List.filterMap t.row? ((sorted.map Prod.snd).reverse.take (t.size - retain)) = _
    rw [← List.map_reverse, ← List.map_take, List.filterMap_map, List.take_reverse, length_eq, drop_eq,
      drop_filterMap fun p hp => (found p hp).imp fun _ => And.left]
    exact List.filterMap_reverse ..

/-- The slots of a table are different rows of it. -/
theorem slots_apart {t : Table} (apart : (t.rows.toList.map Row.clause).Nodup) (retain : Nat) :
    ((slots t retain).map Row.clause).Nodup ∧ ∀ row ∈ slots t retain, row ∈ t.rows.toList := by
  obtain ⟨order, perm, -, slots_eq⟩ := exists_ranking t (R := fun _ _ => True)
    (List.pairwise_of_forall fun _ _ => trivial)
  rw [slots_eq]
  constructor
  · rw [List.map_reverse, List.map_drop]
    exact (List.reverse_perm _).nodup_iff.2 ((List.drop_sublist ..).nodup ((perm.map _).nodup_iff.2 apart))
  · intro row hrow
    exact perm.mem_iff.1 (List.mem_of_mem_drop (List.mem_reverse.1 hrow))

end Context

/-- Whether the clause of a row may go: it is no reason, and the row is old enough. -/
def Database.releases (db : Database) (leastAge conflicts : UInt64) (row : Row) : Bool :=
  !((db.arena.header row.clause.offset).flags.reason || decide (elapsed conflicts row.born < leastAge))

namespace Context

/-! ### Scores -/

variable {π : Type}

/-- The rows are scored, or the predictor fails; in either case the batch is released. -/
theorem yields_scoreRows [Predictor π] (c : Context π) {matrix : List (List Binary64)}
    (features : Yields (Database.featureMatrix c.counters.conflicts) c.database (.ok matrix)
      c.database) : ∃ p',
    (∃ e, Consultation c.predictor matrix.flatten matrix.length c.config.predicting.context.value.toNat
          (.error e) p' ∧
        Yields scoreRows c (.error (.predictor e)) { c with predictor := Predictor.finish p' }) ∨
      ∃ scores, Consultation c.predictor matrix.flatten matrix.length
          c.config.predicting.context.value.toNat (.ok scores) p' ∧
        Yields scoreRows c (.ok ()) { c with
          predictor := Predictor.finish p'
          database := { c.database with table := c.database.table.score scores } } := by
  obtain ⟨r, p', consultation, hbatch⟩ := yields_predictBatch c matrix.flatten matrix.length
  have batch := yields_observing hbatch
  refine ⟨p', ?_⟩
  cases r with
  | error e =>
    refine .inl ⟨e, consultation,
      Yields.get_bind (fun _ => rfl) ((yields_onDatabase features).bind (batch.bind ?_))⟩
    exact (yields_modify fun _ => rfl).bind (yields_throw _ _)
  | ok scores =>
    refine .inr ⟨scores, consultation,
      Yields.get_bind (fun _ => rfl) ((yields_onDatabase features).bind (batch.bind ?_))⟩
    exact (yields_modify fun _ => rfl).bind (yields_modify fun _ => rfl)

/-! ### Marking what is picked -/

/-- Whether the clause of a row goes is read off its header. -/
theorem yields_goes {db : Database} {cs : List Cell} (h : db.Holds cs) {row : Row} {k : Nat} {c : Cell}
    (hc : At 0 cs k c) (place : row.clause = .ofOffset k) (leastAge conflicts : UInt64) :
    Yields (goes leastAge conflicts row) db (.ok (db.releases leastAge conflicts row)) db := by
  have hc' : At 0 cs row.clause.offset c := by rwa [place, h.offset_ofOffset hc]
  exact (yields_offsetOf (h.resolve?_eq hc') _).bind (Yields.get_bind (fun _ => rfl)
    ((yields_logIf _ _).bind (yields_pure _ _)))

/-- The clauses that some items refer to are marked, if they are different and may be removed. -/
theorem yields_forM_marked {γ : Type} (c : Context π) {cs : List Cell} (h : c.database.Holds cs)
    {plan : ScanPlan} {ref : γ → Reference} {xs : List γ} (apart : (xs.map ref).Nodup)
    (offered : ∀ x ∈ xs, ∃ k d, At 0 cs k d ∧ plan.Offers d ∧ ref x = .ofOffset k) :
    ∃ ms, ms.map Prod.fst = (xs.map fun x => (ref x).offset) ∧ Markable ms cs ∧
      (∀ m ∈ ms, plan.Offers m.2) ∧ (∀ m ∈ ms, ∃ x ∈ xs, ref x = .ofOffset m.1) ∧
      Yields (xs.forM fun x => onDatabase (Database.markGarbage (ref x))) c (.ok ())
        { c with database := c.database.markedAll ms cs } := by
  have refs_eq : xs.map ref = (xs.map fun x => (ref x).offset).map Reference.ofOffset := by
    rw [List.map_map]
    exact List.map_congr_left fun x _ => (ofOffset_offset (ref x)).symm
  have found : ∀ k ∈ xs.map fun x => (ref x).offset, ∃ d, At 0 cs k d ∧ plan.Offers d := by
    intro k hk
    obtain ⟨x, hx, rfl⟩ := List.mem_map.1 hk
    obtain ⟨k, d, hd, offers, place⟩ := offered x hx
    exact ⟨d, by rwa [place, h.offset_ofOffset hd], offers⟩
  obtain ⟨ms, hms, markable, offers⟩ := exists_markable (offset_nodup (refs_eq ▸ apart)) found
  have marks := yields_forM_markGarbage h markable
  have marked_eq : (ms.map fun m => Reference.ofOffset m.1) = xs.map ref := by
    rw [refs_eq, ← hms, List.map_map]
    rfl
  rw [marked_eq, forM_map_eq] at marks
  refine ⟨ms, hms, markable, offers, fun m hm => ?_, ?_⟩
  · have : Reference.ofOffset m.1 ∈ xs.map ref := marked_eq ▸ List.mem_map_of_mem hm
    exact List.mem_map.1 this
  · rw [forM_onDatabase]
    exact yields_onDatabase marks

/-- The clauses of the slots that go are marked. -/
theorem yields_emptySlots (c : Context π) {cs : List Cell} (h : c.database.Holds cs)
    {plan : ScanPlan} (byScore : plan.byScore = true)
    (apart : (c.database.table.rows.toList.map Row.clause).Nodup)
    (rows : ∀ row ∈ c.database.table.rows.toList,
      ∃ k d, At 0 cs k d ∧ d.Learned ∧ row.clause = .ofOffset k) (retain : Nat) :
    ∃ ms, Markable ms cs ∧ (∀ m ∈ ms, plan.Offers m.2) ∧
      (∀ m ∈ ms, ∃ row ∈ c.database.table.rows.toList, row.clause = .ofOffset m.1) ∧
      Yields (emptySlots retain) c (.ok ms.length)
        { c with database := c.database.markedAll ms cs } ∧
      ms.map Prod.fst = ((slots c.database.table retain).filter (c.database.releases
        c.config.predicting.leastAge.value c.counters.conflicts)).map fun row => row.clause.offset := by
  obtain ⟨distinct, among⟩ := slots_apart apart retain
  let test := c.database.releases c.config.predicting.leastAge.value c.counters.conflicts
  let kept := (slots c.database.table retain).filter test
  have sub : kept.Sublist (slots c.database.table retain) := List.filter_sublist
  have filtered : Yields ((slots c.database.table retain).filterM
      (goes c.config.predicting.leastAge.value c.counters.conflicts)) c.database (.ok kept) c.database :=
    yields_filterM_same fun row hrow => by
      obtain ⟨k, d, hd, -, place⟩ := rows row (among row hrow)
      exact yields_goes h hd place _ _
  have going : ∀ row ∈ kept, ∃ k d, At 0 cs k d ∧ plan.Offers d ∧ row.clause = .ofOffset k := by
    intro row hrow
    obtain ⟨hrow, released⟩ := List.mem_filter.1 hrow
    obtain ⟨k, d, hd, learned, place⟩ := rows row (among row hrow)
    refine ⟨k, d, hd, ⟨learned, ?_, fun _ => byScore⟩, place⟩
    simp only [test, Database.releases, Bool.not_eq_true', Bool.or_eq_false_iff] at released
    rw [place, h.offset_ofOffset hd, h.tiled.header_eq hd] at released
    exact released.1
  obtain ⟨ms, places_eq, markable, offers, from_kept, marks⟩ :=
    yields_forM_marked c h ((sub.map Row.clause).nodup distinct) going
  have length_eq : ms.length = kept.length := by simpa using congrArg List.length places_eq
  refine ⟨ms, markable, offers, fun m hm => ?_, ?_, places_eq⟩
  · obtain ⟨row, hrow, place⟩ := from_kept m hm
    exact ⟨row, among row (sub.subset hrow), place⟩
  · refine Yields.get_bind (fun _ => rfl) ((yields_onDatabase filtered).bind ((yields_log _).bind ?_))
    rw [length_eq]
    exact marks.bind (yields_pure _ _)

/-- A percentage of the candidates is marked. -/
theorem yields_evictByRank (c : Context π) {cs : List Cell} (h : c.database.Holds cs) {plan : ScanPlan}
    {candidates : List Candidate} {ks : List Nat} (apart : ks.Nodup)
    (refs_eq : candidates.map Candidate.reference = ks.map Reference.ofOffset)
    (offered : ∀ k ∈ ks, ∃ d, At 0 cs k d ∧ plan.Offers d) :
    ∃ ms n, Markable ms cs ∧ (∀ m ∈ ms, plan.Offers m.2 ∧ m.1 ∈ ks) ∧
      (c.config.reducing.fraction.value.toNat ≤ 100 → n = ms.length) ∧
      Yields (evictByRank candidates) c (.ok n)
        { c with database := c.database.markedAll ms cs } ∧
      n = Candidate.quota candidates.length c.config.reducing.fraction.value ∧
      ms.map Prod.fst =
        ((Candidate.leastUsefulFirst candidates).take n).map fun x => x.reference.offset := by
  let quota := Candidate.quota candidates.length c.config.reducing.fraction.value
  let picked := (Candidate.leastUsefulFirst candidates).take quota
  have perm : (Candidate.leastUsefulFirst candidates).Perm candidates := stableSort_perm ..
  have picked_sub : ∀ x ∈ picked, x ∈ candidates :=
    fun x hx => perm.mem_iff.1 ((List.take_sublist ..).subset hx)
  have place_eq : ∀ k ∈ ks, (Reference.ofOffset k).offset = k := by
    intro k hk
    obtain ⟨d, hd, -⟩ := offered k hk
    exact h.offset_ofOffset hd
  have candidate : ∀ x ∈ candidates, ∃ k ∈ ks, x.reference = .ofOffset k := by
    intro x hx
    have : x.reference ∈ ks.map Reference.ofOffset := refs_eq ▸ List.mem_map_of_mem hx
    obtain ⟨k, hk, place⟩ := List.mem_map.1 this
    exact ⟨k, hk, place.symm⟩
  have distinct : (picked.map Candidate.reference).Nodup := by
    refine ((List.take_sublist ..).map _).nodup ((perm.map _).nodup_iff.2 ?_)
    rw [refs_eq, List.nodup_iff_pairwise_ne, List.pairwise_map]
    refine List.Pairwise.imp_of_mem (fun {j k} hj hk apart same => apart ?_) apart
    rw [← place_eq j hj, ← place_eq k hk, same]
  obtain ⟨ms, places_eq, markable, offers, from_picked, marks⟩ :=
    yields_forM_marked c h distinct fun x hx => by
      obtain ⟨k, hk, place⟩ := candidate x (picked_sub x hx)
      obtain ⟨d, hd, offers⟩ := offered k hk
      exact ⟨k, d, hd, offers, place⟩
  refine ⟨ms, quota, markable, fun m hm => ⟨offers m hm, ?_⟩, fun percentage => ?_, ?_, rfl, places_eq⟩
  · obtain ⟨x, hx, place⟩ := from_picked m hm
    obtain ⟨k, hk, place'⟩ := candidate x (picked_sub x hx)
    have same := congrArg Reference.offset (place.symm.trans place')
    rw [h.offset_ofOffset (markable.placed m hm), place_eq k hk] at same
    rwa [same]
  · have count_eq : ms.length = min quota candidates.length := by
      rw [← List.length_map Prod.fst, places_eq, List.length_map, List.length_take, perm.length_eq]
    have : quota ≤ candidates.length := by
      show candidates.length * _ / 100 ≤ _
      have := Nat.mul_le_mul_left candidates.length percentage
      omega
    omega
  · exact Yields.get_bind (fun _ => rfl) ((yields_log _).bind (marks.bind (yields_pure _ _)))

end Context

/-! ### What an eviction comes to -/

namespace Database

/-- A database whose cells and table are up to date behind a scan. -/
def settledBehind (cs : List Cell) (t : Table) (first : Reference) (es : List Event)
    (db : Database) : Database :=
  ({ db.placed cs t with firstReducible := first } : Database).telling es

/-- A database after some cells were picked, marked and counted. -/
def evicted (ms : List Placed) (cs : List Cell) (n : Nat) (db : Database) : Database :=
  { db.markedAll ms cs with
    counts := { (db.markedAll ms cs).counts with
      reduced := (db.markedAll ms cs).counts.reduced + n } }

end Database

/-- What an eviction from behind some cells comes to, with the database and the cells it leaves. -/
inductive Eviction (plan : ScanPlan) (fraction : UInt32) (xs ys : List Cell) (db : Database) :
    Except Error (Option Nat) → Database → List Cell → Prop where
  /-- the scan fails -/
  | failed {e : Error} {zs : List Cell} {t : Table}
    (pass : plan.scanCells (extents xs) ys (tableFor plan db.table) {} = (.error e, zs, t)) :
    Eviction plan fraction xs ys db (.error e) (db.placed (xs ++ zs) t) (xs ++ zs)
  /-- the scan finds no candidate -/
  | idle {p : ScanProgress} {zs : List Cell} {t : Table}
    (pass : plan.scanCells (extents xs) ys (tableFor plan db.table) {} = (.ok p, zs, t))
    (fruitless : p.candidates.toList = []) :
    Eviction plan fraction xs ys db (.ok none)
      (db.settledBehind (xs ++ zs) t p.first []) (xs ++ zs)
  /-- the predictor fails -/
  | unscored {p : ScanProgress} {cs : List Cell} {t : Table} {es : List Event} {cause : PredictorError}
    (settled : Settlement plan xs ys db.table p cs t) (byScore : plan.byScore = true)
    (told : es = plan.exports db.exporting cs t) (found : p.candidates.toList ≠ []) :
    Eviction plan fraction xs ys db (.error (.predictor cause))
      (db.settledBehind cs t p.first es) cs
  /-- some clauses are marked, perhaps none -/
  | removed {p : ScanProgress} {cs : List Cell} {t t' : Table} {es : List Event} {ms : List Placed}
    {n : Nat} (settled : Settlement plan xs ys db.table p cs t) (keys_eq : t'.keys = t.keys)
    (told : es = plan.exports db.exporting cs t) (markable : Markable ms cs)
    (offers : ∀ m ∈ ms, plan.Offers m.2)
    (rows : plan.byScore = true → ∀ m ∈ ms, ∃ row ∈ t'.rows.toList, row.clause = .ofOffset m.1)
    (behind : plan.byScore = false →
      ∀ m ∈ ms, ∃ d, At (extents xs) ys m.1 d ∧ (plan.weigh d.header).2 = true)
    (count : (plan.byScore = false → fraction.toNat ≤ 100) → n = ms.length)
    (found : p.candidates.toList ≠ []) :
    Eviction plan fraction xs ys db (.ok (some n))
      ((db.settledBehind cs t' p.first es).evicted ms cs n) (markAll ms cs)

namespace Database

variable {db : Database} {plan : ScanPlan} {xs ys zs cs : List Cell} {t : Table} {p : ScanProgress}
  {first : Reference}

/-- A database goes on to hold cells of which a scan has revised the headers. -/
theorem Holds.behind (h : db.Holds (xs ++ ys))
    (lasting : cs.map (revised Header.lasting) = (xs ++ ys).map (revised Header.lasting))
    (place : first = .invalid ∨ ∃ k c, At 0 (xs ++ ys) k c ∧ first = .ofOffset k) (t : Table)
    (es : List Event) : (db.settledBehind cs t first es).Holds cs := by
  have kept := h.of_core (core_of_lasting lasting)
  refine ⟨rfl, kept.sound, kept.fits, kept.ascending, kept.below, kept.garbage_eq, fun valid => ?_⟩
  show ∃ c, At 0 cs first.offset c
  rcases place with rfl | ⟨k, c, hc, rfl⟩
  · exact absurd valid Bool.false_ne_true
  · rw [h.offset_ofOffset hc]
    obtain ⟨d, hd, -⟩ := hc.of_map_eq lasting
    exact ⟨d, hd⟩

/-- The first clause that counts behind a pass is one of the cells, if there is one. -/
theorem place_of_pass {t₀ : Table}
    (pass : plan.scanCells (extents xs) ys t₀ {} = (.ok p, zs, t)) :
    p.first = .invalid ∨ ∃ k c, At 0 (xs ++ ys) k c ∧ p.first = .ofOffset k := by
  have result := ScanPlan.pass_scanCells plan (extents xs) ys t₀ {}
  rw [pass] at result
  refine result.first.imp id ?_
  rintro ⟨k, c, hc, first_eq⟩
  exact ⟨k, c, at_append.2 (.inr (by rwa [Nat.zero_add])), first_eq⟩

/-- The candidates of a pass are different cells that may be removed. -/
theorem offered_of_pass {t₀ : Table} (pass : plan.scanCells (extents xs) ys t₀ {} = (.ok p, zs, t)) :
    ∃ ks : List Nat, p.candidates.toList.map Candidate.reference = ks.map Reference.ofOffset ∧
      ks.Nodup ∧
      ∀ k ∈ ks, ∃ d, At (extents xs) ys k d ∧ plan.Offers d ∧ (plan.weigh d.header).2 = true := by
  have result := ScanPlan.pass_scanCells plan (extents xs) ys t₀ {}
  rw [pass] at result
  obtain ⟨ks, refs_eq, sub, offered⟩ := result.candidates
  exact ⟨ks, refs_eq, sub.nodup ((offsets_pairwise _ ys).imp fun hlt => Nat.ne_of_lt hlt), offered⟩

end Database

namespace Settlement

variable {plan : ScanPlan} {xs ys cs : List Cell} {t₀ t : Table} {p : ScanProgress}

theorem place (h : Settlement plan xs ys t₀ p cs t) :
    p.first = .invalid ∨ ∃ k c, At 0 (xs ++ ys) k c ∧ p.first = .ofOffset k := by
  cases h with
  | bare _ pass => exact place_of_pass pass
  | linked _ pass => exact place_of_pass pass

theorem pass (h : Settlement plan xs ys t₀ p cs t) :
    ∃ zs t₁, plan.scanCells (extents xs) ys (tableFor plan t₀) {} = (.ok p, zs, t₁) := by
  cases h with
  | bare _ pass => exact ⟨_, _, pass⟩
  | linked _ pass => exact ⟨_, _, pass⟩

/-- The candidates are still there once the table is up to date. -/
theorem offered (h : Settlement plan xs ys t₀ p cs t) : ∃ ks : List Nat,
    p.candidates.toList.map Candidate.reference = ks.map Reference.ofOffset ∧ ks.Nodup ∧
      ∀ k ∈ ks, (∃ d, At (extents xs) ys k d ∧ (plan.weigh d.header).2 = true) ∧
        ∃ d, At 0 cs k d ∧ plan.Offers d := by
  obtain ⟨ks, refs_eq, apart, offered⟩ : ∃ ks : List Nat,
      p.candidates.toList.map Candidate.reference = ks.map Reference.ofOffset ∧ ks.Nodup ∧
        ∀ k ∈ ks, ∃ d, At (extents xs) ys k d ∧ plan.Offers d ∧ (plan.weigh d.header).2 = true := by
    cases h with
    | bare _ pass => exact offered_of_pass pass
    | linked _ pass => exact offered_of_pass pass
  refine ⟨ks, refs_eq, apart, fun k hk => ?_⟩
  obtain ⟨d, hd, offers, weighed⟩ := offered k hk
  obtain ⟨d', hd', same⟩ := At.of_map_eq h.lasting (at_append.2 (.inr (by rwa [Nat.zero_add])))
  exact ⟨⟨d, hd, weighed⟩, d', hd', offers.of_lasting same⟩

end Settlement

namespace Eviction

variable {plan : ScanPlan} {fraction : UInt32} {xs ys : List Cell} {db db' : Database}
  {r : Except Error (Option Nat)} {cs : List Cell}

/-- An eviction keeps what a database holds, also if it fails. -/
theorem holds (h : Eviction plan fraction xs ys db r db' cs) (holds : db.Holds (xs ++ ys)) :
    db'.Holds cs := by
  cases h with
  | @failed e zs t pass =>
    have kept := holds.of_core (core_of_lasting (Settlement.lasting_pass pass))
    exact ⟨rfl, kept.sound, kept.fits, kept.ascending, kept.below, kept.garbage_eq, kept.first_eq⟩
  | idle pass => exact holds.behind (Settlement.lasting_pass pass) (place_of_pass pass) _ []
  | unscored settled => exact holds.behind settled.lasting settled.place _ _
  | @removed p cs t t' es ms n settled keys_eq features markable =>
    have marked := (holds.behind settled.lasting settled.place t' es).markedAll markable
    exact ⟨marked.arena_eq, marked.sound, marked.fits, marked.ascending, marked.below,
      marked.garbage_eq, marked.first_eq⟩

/-- The cells stay where they are. -/
theorem extent_eq (h : Eviction plan fraction xs ys db r db' cs) :
    cs.map extent = (xs ++ ys).map extent := by
  cases h with
  | failed pass => exact extent_eq_of_map_eq (Settlement.lasting_pass pass)
  | idle pass => exact extent_eq_of_map_eq (Settlement.lasting_pass pass)
  | unscored settled => exact extent_eq_of_map_eq settled.lasting
  | removed settled =>
    rw [markAll_eq, extent_mapAt]
    exact extent_eq_of_map_eq settled.lasting

end Eviction

/-! ### An eviction, step by step -/

/-- The rows of a table are those of different live redundant cells. -/
structure RowsOfLearned (cs : List Cell) (t : Table) : Prop where
  rows : ∀ row ∈ t.rows.toList, ∃ k c, At 0 cs k c ∧ c.Learned ∧ c.header.identity = row.identity ∧
    row.clause = .ofOffset k
  apart : (t.rows.toList.map Row.clause).Nodup

namespace RowsOfLearned

variable {cs ds : List Cell} {t t' : Table}

theorem of_keys (h : RowsOfLearned cs t) (keys_eq : t'.keys = t.keys) : RowsOfLearned cs t' := by
  constructor
  · intro row hrow
    obtain ⟨row', hrow', key_eq⟩ := Table.mem_of_keys keys_eq.symm hrow
    obtain ⟨k, c, hc, learned, own, place⟩ := h.rows row' hrow'
    simp only [Row.key, Prod.mk.injEq] at key_eq
    exact ⟨k, c, hc, learned, own.trans key_eq.1, key_eq.2.1 ▸ place⟩
  · have clauses_eq : ∀ u : Table, u.rows.toList.map Row.clause = u.keys.map fun key => key.2.1 := by
      intro u
      rw [Table.keys, List.map_map]
      rfl
    rw [clauses_eq, keys_eq, ← clauses_eq]
    exact h.apart

theorem of_lasting (h : RowsOfLearned cs t)
    (lasting : ds.map (revised Header.lasting) = cs.map (revised Header.lasting)) : RowsOfLearned ds t := by
  refine ⟨fun row hrow => ?_, h.apart⟩
  obtain ⟨k, c, hc, learned, own, place⟩ := h.rows row hrow
  obtain ⟨d, hd, hp⟩ := hc.of_map_eq lasting
  exact ⟨k, d, hd, learned.of_lasting hp, (identity_eq_of_lasting hp).trans own, place⟩

theorem owned (h : RowsOfLearned cs t) (fits : extents cs < 4294967296) :
    ∀ row ∈ t.rows.toList, Owned cs row := by
  intro row hrow
  obtain ⟨k, c, hc, -, own, place⟩ := h.rows row hrow
  refine ⟨c, ?_, own⟩
  have := hc.bounds.2
  have := c.extent_pos
  rwa [place, toNat_ofOffset (by omega)]

end RowsOfLearned

/-- The rows that stay behind a pass are those of different live redundant cells. -/
theorem rowsOfLearned_surviving {plan : ScanPlan} {xs ys zs : List Cell} {t₀ t : Table}
    {r : Except Error ScanProgress} (tracked : plan.collecting = true)
    (fits : extents (xs ++ ys) < 4294967296)
    (pass : plan.scanCells (extents xs) ys (tableFor plan t₀) {} = (r, zs, t)) :
    RowsOfLearned (xs ++ zs) t.surviving :=
  have anchored := anchored_pass tracked fits pass
  .of_lasting ⟨fun _ hrow => anchored.surviving hrow, anchored.surviving_apart⟩
    (Settlement.lasting_pass pass)

theorem Settlement.rowsOfLearned {plan : ScanPlan} {xs ys cs : List Cell} {t₀ t : Table} {p : ScanProgress}
    (h : Settlement plan xs ys t₀ p cs t) (tracked : plan.collecting = true)
    (fits : extents (xs ++ ys) < 4294967296) : RowsOfLearned cs t := by
  cases h with
  | bare untracked => rw [tracked] at untracked; cases untracked
  | @linked zs t _ pass =>
    have surviving := rowsOfLearned_surviving tracked fits pass
    exact (surviving.of_lasting (lasting_relinked _ _)).of_keys (Table.keys_rank _)

namespace Database

variable {db : Database} {plan : ScanPlan} {xs ys zs : List Cell} {t : Table} {p : ScanProgress}

/-- The table is brought up to date without a failure. -/
theorem yields_settle (h : db.Holds (xs ++ ys))
    (pass : plan.scanCells (extents xs) ys (tableFor plan db.table) {} = (.ok p, zs, t)) :
    ∃ cs t', Yields (settleTable plan) (db.settledBehind (xs ++ zs) t p.first []) (.ok ())
        (db.settledBehind cs t' p.first (plan.exports db.exporting cs t')) ∧
      Settlement plan xs ys db.table p cs t' := by
  have fits := h.fits'
  have lasting := Settlement.lasting_pass pass
  have kept := h.of_core (core_of_lasting lasting)
  cases tracked : plan.collecting with
  | false =>
    have generates : (plan.generating && db.exporting) = false := by
      rw [(Bool.or_eq_false_iff.1 tracked).2, Bool.false_and]
    refine ⟨xs ++ zs, t, ?_, .bare tracked pass⟩
    rw [settleTable, if_neg (by simp [tracked]), ScanPlan.exports, if_neg (by simp [generates])]
    exact yields_pure _ _
  | true =>
    have owned := (rowsOfLearned_surviving tracked (by omega) pass).owned kept.fits_word
    have settles := yields_settleTable { db with firstReducible := p.first } plan kept.sound kept.fits
      tracked owned
    refine ⟨_, _, ?_, .linked tracked pass⟩
    rw [settledBehind, telling_nil]
    exact settles

end Database

namespace Context

variable {π : Type} [Predictor π] {plan : ScanPlan} {cs : List Cell}

omit [Predictor π] in
/-- There are more rows than are retained, or not. -/
theorem yields_exceeds (c : Context π) : Yields exceeds c
    (.ok (decide (c.config.predicting.retain.value.toNat < c.database.table.size))) c :=
  Yields.get_bind (fun _ => rfl) (yields_pure _ _)

/-- Where no more rows are left than are retained, nothing is done. -/
theorem yields_evictByScore_of_le (c : Context π)
    (few : c.database.table.size ≤ c.config.predicting.retain.value.toNat) :
    Yields evictByScore c (.ok 0) c := by
  refine Yields.get_bind (fun _ => rfl) ?_
  dsimp only
  rw [if_pos few]
  exact (yields_log _).bind (yields_pure _ _)

/-- Where more rows are left than are retained, the predictor fails, or the rows are scored and the clauses
of the slots that go are marked. -/
theorem yields_evictByScore_of_lt (c : Context π) (h : c.database.Holds cs) (byScore : plan.byScore = true)
    (rowsOfLearned : RowsOfLearned cs c.database.table)
    (many : c.config.predicting.retain.value.toNat < c.database.table.size) :
    let matrix := c.database.table.rows.toList.map (featureRow c.counters.conflicts cs)
    Yields (Database.featureMatrix c.counters.conflicts) c.database (.ok matrix) c.database ∧ ∃ p',
      (∃ cause, Consultation c.predictor matrix.flatten matrix.length
            c.config.predicting.context.value.toNat (.error cause) p' ∧
          Yields evictByScore c (.error (.predictor cause)) { c with predictor := Predictor.finish p' }) ∨
        ∃ scores ms, Consultation c.predictor matrix.flatten matrix.length
            c.config.predicting.context.value.toNat (.ok scores) p' ∧
          Markable ms cs ∧ (∀ m ∈ ms, plan.Offers m.2) ∧
          (∀ m ∈ ms, ∃ row ∈ (c.database.table.score scores).rows.toList, row.clause = .ofOffset m.1) ∧
          ms.map Prod.fst = ((slots (c.database.table.score scores)
              c.config.predicting.retain.value.toNat).filter (c.database.releases
                c.config.predicting.leastAge.value c.counters.conflicts)).map
              (fun row => row.clause.offset) ∧
          Yields evictByScore c (.ok ms.length) { c with
            predictor := Predictor.finish p'
            database := ({ c.database with table := c.database.table.score scores }).markedAll ms cs } := by
  have features := yields_featureMatrix c.database ⟨rfl, h.sound⟩ h.fits (rowsOfLearned.owned h.fits_word)
    c.counters.conflicts
  have placed_eq : c.database.placed cs c.database.table = c.database := by
    rw [Database.placed, ← h.arena_eq]
  rw [placed_eq] at features
  have start : ∀ {r c'}, Yields (do
      scoreRows
      emptySlots c.config.predicting.retain.value.toNat) c r c' → Yields evictByScore c r c' := by
    intro r c' body
    refine Yields.get_bind (fun _ => rfl) ?_
    dsimp only
    rw [if_neg (Nat.not_le.2 many)]
    exact body
  refine ⟨features, ?_⟩
  obtain ⟨p', ⟨cause, consultation, failed⟩ | ⟨scores, consultation, scored⟩⟩ :=
    yields_scoreRows c features
  · exact ⟨p', .inl ⟨cause, consultation, start failed.bind_error⟩⟩
  · have rows := rowsOfLearned.of_keys (Table.keys_score c.database.table scores)
    obtain ⟨ms, markable, offers, among, marks, places_eq⟩ := yields_emptySlots
      { c with
        predictor := Predictor.finish p'
        database := { c.database with table := c.database.table.score scores } }
      ⟨h.arena_eq, h.sound, h.fits, h.ascending, h.below, h.garbage_eq, h.first_eq⟩ byScore rows.apart
      (fun row hrow => by
        obtain ⟨k, d, hd, learned, -, place⟩ := rows.rows row hrow
        exact ⟨k, d, hd, learned, place⟩) c.config.predicting.retain.value.toNat
    exact ⟨p', .inr ⟨scores, ms, consultation, markable, offers, among, places_eq,
      start (scored.bind marks)⟩⟩

/-- The predictor fails, or the clauses of some rows are marked. -/
theorem yields_evictByScore (c : Context π) (h : c.database.Holds cs) (byScore : plan.byScore = true)
    (rowsOfLearned : RowsOfLearned cs c.database.table) : ∃ predictor,
    (∃ cause, Consulting exceeds c (.error (.predictor cause) : Except Error Nat) predictor ∧
        Yields evictByScore c (.error (.predictor cause)) { c with predictor }) ∨
      ∃ t' ms, Consulting exceeds c (.ok ms.length : Except Error Nat) predictor ∧
        t'.keys = c.database.table.keys ∧ Markable ms cs ∧ (∀ m ∈ ms, plan.Offers m.2) ∧
        (∀ m ∈ ms, ∃ row ∈ t'.rows.toList, row.clause = .ofOffset m.1) ∧
        Yields evictByScore c (.ok ms.length)
          { c with predictor, database := ({ c.database with table := t' }).markedAll ms cs } := by
  have unfailing : ∀ n cause, (.ok n : Except Error Nat) ≠ .error (.predictor cause) := by
    intro n cause failed
    cases failed
  have told := c.yields_exceeds
  by_cases few : c.database.table.size ≤ c.config.predicting.retain.value.toNat
  · rw [decide_eq_false (Nat.not_lt.2 few)] at told
    exact ⟨c.predictor, .inr ⟨c.database.table, [], .unasked told (by simp) (unfailing _), rfl,
      ⟨by simp, by simp, by simp, by simp⟩, by simp, by simp, yields_evictByScore_of_le c few⟩⟩
  · have many := Nat.not_le.1 few
    rw [decide_eq_true many] at told
    have length_eq : (c.database.table.rows.toList.map
        (featureRow c.counters.conflicts cs)).length = c.database.table.size := by
      rw [List.length_map, Array.length_toList, Table.size]
    obtain ⟨features, p', ⟨cause, consultation, failed⟩ |
      ⟨scores, ms, consultation, markable, offers, among, -, done⟩⟩ :=
        yields_evictByScore_of_lt c h byScore rowsOfLearned many
    · exact ⟨_, .inl ⟨cause, .failed told features length_eq many consultation, failed⟩⟩
    · exact ⟨_, .inr ⟨_, ms, .scored told features length_eq many consultation (unfailing _),
        Table.keys_score _ scores, markable, offers, among, done⟩⟩

/-- An eviction behind a scan that found some candidates. -/
theorem yields_evictCandidates (c : Context π) {xs ys zs : List Cell} {t : Table} {p : ScanProgress}
    (h : c.database.Holds (xs ++ ys))
    (pass : plan.scanCells (extents xs) ys (tableFor plan c.database.table) {} = (.ok p, zs, t))
    (found : p.candidates.toList ≠ []) :
    ∃ (r : Except Error Nat) (db' : Database) (cs' : List Cell) (predictor : π),
      Yields (evictCandidates plan p.candidates.toList)
        { c with database := c.database.settledBehind (xs ++ zs) t p.first [] } r
        { c with predictor, database := db' } ∧
      Eviction plan c.config.reducing.fraction.value xs ys c.database (r.map some) db' cs' ∧
      Consulting (asksBehind plan)
        { c with database := c.database.settledBehind (xs ++ zs) t p.first [] } r predictor := by
  obtain ⟨cs, t', settle, settled⟩ := Database.yields_settle h pass
  let es := plan.exports c.database.exporting cs t'
  have behind := h.behind settled.lasting settled.place t' es
  let c₁ := { c with database := c.database.settledBehind cs t' p.first es }
  have settles : Yields (onDatabase (Database.settleTable plan))
      { c with database := c.database.settledBehind (xs ++ zs) t p.first [] } (.ok ()) c₁ :=
    yields_onDatabase settle
  have counted : ∀ (c : Context π) (n : Nat), Yields (do
      onDatabase (Database.recount fun m => { m with reduced := m.reduced + n })
      return n) c (.ok n) _ := fun c n =>
    (yields_onDatabase (Database.yields_recount _)).bind (yields_pure n _)
  by_cases byScore : plan.byScore = true
  · have tracked : plan.collecting = true := by rw [ScanPlan.collecting, byScore, Bool.true_or]
    have rowsOfLearned := settled.rowsOfLearned tracked h.fits_word
    have leads : ∀ {b d}, Yields exceeds c₁ b d → Yields (asksBehind plan) _ b d := fun reached =>
      settles.bind (by rw [if_pos byScore]; exact reached)
    obtain ⟨predictor, ⟨cause, consulting, failed⟩ |
      ⟨t'', ms, consulting, keys_eq, markable, offers, among, done⟩⟩ :=
        yields_evictByScore c₁ behind byScore rowsOfLearned
    · refine ⟨.error (.predictor cause), _, _, predictor, settles.bind ?_,
        .unscored settled byScore rfl found, consulting.within rfl rfl rfl leads (fun _ => id) id⟩
      rw [if_pos byScore]
      exact failed.bind_error
    · refine ⟨.ok ms.length, _, _, predictor, settles.bind ?_,
        .removed settled keys_eq rfl markable offers (fun _ => among)
          (fun rank => absurd (byScore.symm.trans rank) (by decide)) (fun _ => rfl) found,
        consulting.within rfl rfl rfl leads (fun _ => id) id⟩
      rw [if_pos byScore]
      exact done.bind (counted _ _)
  · obtain ⟨ks, refs_eq, apart, offered⟩ := settled.offered
    obtain ⟨ms, n, markable, offers, count, done, -⟩ := yields_evictByRank c₁ behind apart refs_eq
      fun k hk => (offered k hk).2
    have away : Yields (asksBehind plan) _ (.ok false) c₁ :=
      settles.bind (by rw [if_neg byScore]; exact yields_pure _ _)
    refine ⟨.ok n, _, _, c.predictor, settles.bind ?_,
      .removed settled rfl rfl markable (fun m hm => (offers m hm).1)
        (fun score => absurd score byScore) (fun _ m hm => (offered m.1 (offers m hm).2).1)
        (fun percentage => count (percentage (by simpa using byScore))) found,
      .unasked away (by simp) nofun⟩
    rw [if_neg byScore]
    exact done.bind (counted _ _)

section Found

variable {c : Context π} {xs ys zs : List Cell} {start : Reference} {t : Table} {p : ScanProgress}

omit [Predictor π] in
/-- A scan that comes to its end tells the candidates. -/
theorem yields_scan_behind {plan : ScanPlan} (h : c.database.Holds (xs ++ ys))
    (hs : start.offset = extents xs)
    (pass : plan.scanCells (extents xs) ys (tableFor plan c.database.table) {} = (.ok p, zs, t)) :
    Yields (onDatabase (Database.scan plan start)) c (.ok p.candidates.toList)
      { c with database := c.database.settledBehind (xs ++ zs) t p.first [] } := by
  have scan := yields_onDatabase (Database.yields_scan plan h.tiled hs pass)
  rw [Database.settledBehind, Database.telling_nil]
  exact scan

/-- Without a candidate an eviction ends behind its scan, and asks nothing. -/
theorem yields_evict_of_none (h : c.database.Holds (xs ++ ys)) (hs : start.offset = extents xs)
    (pass : (ScanPlan.ofConfig c.config c.counters.conflicts c.counters.lastReduction).scanCells
      (extents xs) ys (tableFor (.ofConfig c.config c.counters.conflicts c.counters.lastReduction)
        c.database.table) {} = (.ok p, zs, t)) (fruitless : p.candidates.toList = []) :
    Yields (evict start) c (.ok none)
        { c with database := c.database.settledBehind (xs ++ zs) t p.first [] } ∧
      Yields (asksFrom start) c (.ok false)
        { c with database := c.database.settledBehind (xs ++ zs) t p.first [] } := by
  have scan := yields_scan_behind h hs pass
  rw [fruitless] at scan
  exact ⟨Yields.get_bind (fun _ => rfl) (scan.bind ((yields_log _).bind (yields_pure _ _))),
    Yields.get_bind (fun _ => rfl) (scan.bind (yields_pure _ _))⟩

/-- With a candidate an eviction goes on behind its scan. -/
theorem yields_evict_of_some (h : c.database.Holds (xs ++ ys)) (hs : start.offset = extents xs)
    (pass : (ScanPlan.ofConfig c.config c.counters.conflicts c.counters.lastReduction).scanCells
      (extents xs) ys (tableFor (.ofConfig c.config c.counters.conflicts c.counters.lastReduction)
        c.database.table) {} = (.ok p, zs, t)) (found : p.candidates.toList ≠ []) {r : Except Error Nat}
    {c' : Context π} (rest : Yields (evictCandidates
        (.ofConfig c.config c.counters.conflicts c.counters.lastReduction) p.candidates.toList)
      { c with database := c.database.settledBehind (xs ++ zs) t p.first [] } r c') :
    Yields (evict start) c (r.map some) c' := by
  have scan := yields_scan_behind h hs pass
  refine Yields.get_bind (fun _ => rfl) (scan.bind ?_)
  rw [if_neg (by simpa using found)]
  cases r with
  | error e => exact rest.bind_error
  | ok n => exact rest.bind (yields_pure _ _)

omit [Predictor π] in
/-- With a candidate the way to the question for scores goes on behind the scan. -/
theorem yields_asksFrom_of_some (h : c.database.Holds (xs ++ ys)) (hs : start.offset = extents xs)
    (pass : (ScanPlan.ofConfig c.config c.counters.conflicts c.counters.lastReduction).scanCells
      (extents xs) ys (tableFor (.ofConfig c.config c.counters.conflicts c.counters.lastReduction)
        c.database.table) {} = (.ok p, zs, t)) (found : p.candidates.toList ≠ []) {b : Except Error Bool}
    {d : Context π} (rest : Yields (asksBehind
        (.ofConfig c.config c.counters.conflicts c.counters.lastReduction))
      { c with database := c.database.settledBehind (xs ++ zs) t p.first [] } b d) :
    Yields (asksFrom start) c b d := by
  have scan := yields_scan_behind h hs pass
  refine Yields.get_bind (fun _ => rfl) (scan.bind ?_)
  rw [if_neg (by simpa using found)]
  exact rest

end Found

/-- An eviction from a boundary between cells, whatever it comes to. -/
theorem yields_evict (c : Context π) {xs ys : List Cell} {start : Reference}
    (h : c.database.Holds (xs ++ ys)) (hs : start.offset = extents xs) :
    ∃ r db' cs' predictor, Yields (evict start) c r { c with predictor, database := db' } ∧
      Eviction (.ofConfig c.config c.counters.conflicts c.counters.lastReduction)
        c.config.reducing.fraction.value xs ys c.database r db' cs' ∧
      Consulting (asksFrom start) c r predictor := by
  let plan := ScanPlan.ofConfig c.config c.counters.conflicts c.counters.lastReduction
  rcases pass : plan.scanCells (extents xs) ys (tableFor plan c.database.table) {} with ⟨e | p, zs, t⟩
  · have scan := yields_onDatabase (Database.yields_scan plan h.tiled hs pass)
    have quiet : Quiet (.error e : Except Error (Option Nat)) := by
      intro cause same
      have result := ScanPlan.pass_scanCells plan (extents xs) ys (tableFor plan c.database.table) {}
      rw [pass] at result
      obtain ⟨fault, rfl⟩ := result.table_of_error
      cases same
    exact ⟨_, _, _, c.predictor, Yields.get_bind (fun _ => rfl) scan.bind_error, .failed pass,
      .unasked (Yields.get_bind (fun _ => rfl) scan.bind_error) (by simp) quiet⟩
  · by_cases fruitless : p.candidates.toList = []
    · obtain ⟨done, away⟩ := yields_evict_of_none h hs pass fruitless
      exact ⟨_, _, _, c.predictor, done, .idle pass fruitless, .unasked away (by simp) nofun⟩
    · obtain ⟨r, db', cs', predictor, rest, eviction, consulting⟩ :=
        yields_evictCandidates c h pass fruitless
      refine ⟨_, _, _, predictor, yields_evict_of_some h hs pass fruitless rest, eviction,
        consulting.within rfl rfl rfl (yields_asksFrom_of_some h hs pass fruitless)
          (fun cause failed => by rw [failed]; rfl) fun quiet => ?_⟩
      cases r with
      | error e =>
        rintro cause ⟨⟩
        exact quiet cause rfl
      | ok n => exact fun _ => nofun

end Context

end ClauseStore
