import ClauseStore.Proofs.Bookkeeping
import ClauseStore.Proofs.Staging

/-!
The cached reference to the last irredundant clause. No live irredundant clause lies behind it, but the
clause that it is to may be garbage: marking a clause does not move the cache. A compaction that starts at
or before it looks for the last one anew, among the clauses that it has moved or else among those before
its start, and then the cache is exact.
-/

namespace ClauseStore

open Cell Database

/-- The last record of an arena that is live and irredundant, or the invalid reference if there is none. -/
def Arena.lastLive (a : Arena) : Reference := (a.liveOf false).getLast?.elim .invalid .ofOffset

/-- What is trusted of the cached reference to the last irredundant clause. -/
structure Database.LastSound (db : Database) : Prop where
  record : db.lastIrredundant.isValid = true →
    db.lastIrredundant.offset ∈ (db.arena.walkFrom 0).1 ∧
      (db.arena.header db.lastIrredundant.offset).flags.redundant = false
  none_behind : ∀ o ∈ db.arena.liveOf false, o ≤ db.lastIrredundant.offset
  none_left : db.lastIrredundant.isValid = false → db.arena.liveOf false = []

/-! ### Rows without a live irredundant cell behind a reference -/

namespace Cell

/-- The clause of a cell is irredundant, be it live or not. -/
def isIrredundant (c : Cell) : Bool := !c.header.flags.redundant

/-- A reference is to a cell of some kind, and no live irredundant cell of the row lies behind it. If it
is invalid, there is none in the row. -/
structure Tops (p : Cell → Bool) (last : Reference) (o : Nat) (cs : List Cell) : Prop where
  place : last.isValid = true → ∃ d, At o cs last.offset d ∧ p d = true
  above : ∀ k d, At o cs k d → d.standsAs false = true → last.isValid = true ∧ k ≤ last.offset

variable {p q : Cell → Bool} {last r : Reference} {o k : Nat} {d e f : Cell} {cs ds xs ys zs : List Cell}

theorem isIrredundant_of_standsAs (h : d.standsAs false = true) : d.isIrredundant = true := by
  simp only [standsAs, Bool.and_eq_true, beq_iff_eq] at h
  rw [isIrredundant, h.2, Bool.not_false]

theorem isIrredundant_eq_of_core (h : d.core = e.core) : d.isIrredundant = e.isIrredundant := by
  have essence_eq := essence_eq_of_core h
  simp only [essence, Prod.mk.injEq] at essence_eq
  rw [isIrredundant, isIrredundant, essence_eq.2.2.2.1]

/-- What starts in a row of which one cell is replaced by one of the same extent. -/
theorem at_replaced (extent_eq : e.extent = d.extent) (hf : At o (xs ++ e :: ys) k f) :
    (k = o + extents xs ∧ f = e) ∨ At o (xs ++ d :: ys) k f := by
  rcases at_append.1 hf with hf | hf
  · exact .inr (at_append.2 (.inl hf))
  rcases at_cons.1 hf with here | hf
  · exact .inl here
  · rw [extent_eq] at hf
    exact .inr (at_append.2 (.inr (at_cons.2 (.inr hf))))

namespace Tops

theorem imp (h : Tops p last o cs) (weaker : ∀ d, p d = true → q d = true) : Tops q last o cs := by
  refine ⟨fun valid => ?_, h.above⟩
  obtain ⟨d, hd, kind⟩ := h.place valid
  exact ⟨d, hd, weaker d kind⟩

/-- Only one reference is to the last live irredundant cell. -/
theorem unique (h : Tops (standsAs false) last o cs) (h' : Tops (standsAs false) r o cs) : last = r := by
  have same : last.isValid = true → r.isValid = true ∧ last.offset ≤ r.offset := fun valid => by
    obtain ⟨d, hd, stands⟩ := h.place valid
    exact h'.above _ d hd stands
  have same' : r.isValid = true → last.isValid = true ∧ r.offset ≤ last.offset := fun valid => by
    obtain ⟨d, hd, stands⟩ := h'.place valid
    exact h.above _ d hd stands
  rw [← ofOffset_offset last, ← ofOffset_offset r]
  congr 1
  cases valid : last.isValid with
  | true =>
    obtain ⟨valid', le⟩ := same valid
    exact Nat.le_antisymm le (same' valid').2
  | false =>
    have invalid : r.isValid = false := Bool.eq_false_iff.2 fun valid' => by
      rw [(same' valid').1] at valid
      cases valid
    rw [offset_eq_of_not_isValid valid, offset_eq_of_not_isValid invalid]

/-- The last place of those where live irredundant cells start. -/
theorem of_getLast? {ks : List Nat} (ascending : ks.Pairwise (· < ·))
    (mem : ∀ k, k ∈ ks ↔ ∃ d, At o cs k d ∧ d.standsAs false = true)
    (fits : o + extents cs < 4294967295) :
    Tops (standsAs false) (ks.getLast?.elim .invalid .ofOffset) o cs := by
  cases last_eq : ks.getLast? with
  | none =>
    rw [List.getLast?_eq_none_iff] at last_eq
    subst last_eq
    exact ⟨fun valid => absurd valid (by decide), fun k d hd stands =>
      absurd ((mem k).2 ⟨d, hd, stands⟩) List.not_mem_nil⟩
  | some k =>
    obtain ⟨js, rfl⟩ := List.getLast?_eq_some_iff.1 last_eq
    obtain ⟨d, hd, stands⟩ := (mem k).1 (by simp)
    have := hd.bounds.2
    have := d.extent_pos
    have offset_eq : (Reference.ofOffset k).offset = k := toNat_ofOffset (by omega)
    refine ⟨fun _ => ⟨d, by rwa [Option.elim_some, offset_eq], stands⟩, fun j e he stands => ?_⟩
    refine ⟨isValid_ofOffset (by omega), ?_⟩
    rw [Option.elim_some, offset_eq]
    rcases List.mem_append.1 ((mem j).2 ⟨e, he, stands⟩) with hj | hj
    · exact Nat.le_of_lt ((List.pairwise_append.1 ascending).2.2 j hj k (by simp))
    · exact Nat.le_of_eq (List.mem_singleton.1 hj)

/-- What is the last one behind a boundary is the last one of the whole row. -/
theorem behind (h : Tops p last (extents xs) zs) (valid : last.isValid = true) :
    Tops p last 0 (xs ++ zs) := by
  obtain ⟨d, hd, kind⟩ := h.place valid
  refine ⟨fun _ => ⟨d, hd.behind, kind⟩, fun k e he stands => ?_⟩
  rcases at_append.1 he with he | he
  · have := he.bounds.2
    have := hd.bounds.1
    have := e.extent_pos
    exact ⟨valid, by omega⟩
  · rw [Nat.zero_add] at he
    exact h.above k e he stands

/-- What is the last one before a boundary is the last one of the whole row, if there is none behind. -/
theorem front (h : Tops p last 0 xs) (none_behind : ∀ d ∈ zs, d.standsAs false = false) :
    Tops p last 0 (xs ++ zs) := by
  refine ⟨fun valid => ?_, fun k e he stands => ?_⟩
  · obtain ⟨d, hd, kind⟩ := h.place valid
    exact ⟨d, at_append.2 (.inl hd), kind⟩
  · rcases at_append.1 he with he | he
    · exact h.above k e he stands
    · rw [none_behind e he.mem] at stands
      cases stands

/-- What stands before a boundary is the last one before it. -/
theorem before (h : Tops isIrredundant last 0 (xs ++ zs))
    (early : last.isValid = true → last.offset < extents xs) : Tops isIrredundant last 0 xs := by
  refine ⟨fun valid => ?_, fun k d hd => h.above k d (at_append.2 (.inl hd))⟩
  obtain ⟨d, hd, kind⟩ := h.place valid
  rcases at_append.1 hd with hd | hd
  · exact ⟨d, hd, kind⟩
  · have := hd.bounds.1
    have := early valid
    omega

theorem of_core (h : Tops isIrredundant last o cs) (core_eq : ds.map core = cs.map core) :
    Tops isIrredundant last o ds := by
  refine ⟨fun valid => ?_, fun k d hd stands => ?_⟩
  · obtain ⟨d, hd, kind⟩ := h.place valid
    obtain ⟨e, he, same⟩ := hd.of_map_eq core_eq
    exact ⟨e, he, (isIrredundant_eq_of_core same).trans kind⟩
  · obtain ⟨e, he, same⟩ := hd.of_map_eq core_eq.symm
    exact h.above k e he ((standsAs_eq_of_core same).trans stands)

/-- A cell may be replaced by one of its kind that is not live anew. -/
theorem replace (h : Tops isIrredundant last o (xs ++ d :: ys)) (extent_eq : e.extent = d.extent)
    (kind_eq : e.isIrredundant = d.isIrredundant)
    (fewer : e.standsAs false = true → d.standsAs false = true) :
    Tops isIrredundant last o (xs ++ e :: ys) := by
  refine ⟨fun valid => ?_, fun k f hf stands => ?_⟩
  · obtain ⟨f, hf, kind⟩ := h.place valid
    rcases at_replaced extent_eq.symm hf with ⟨here, rfl⟩ | hf
    · exact ⟨e, ⟨xs, ys, rfl, here⟩, kind_eq.trans kind⟩
    · exact ⟨f, hf, kind⟩
  · rcases at_replaced extent_eq hf with ⟨here, rfl⟩ | hf
    · exact h.above k d ⟨xs, ys, rfl, here⟩ (fewer stands)
    · exact h.above k f hf stands

/-- Where a cell becomes irredundant, the reference to it is cached if it is behind the cached one. -/
theorem raise (h : Tops isIrredundant last 0 (xs ++ d :: ys)) (extent_eq : e.extent = d.extent)
    (kind : d.isIrredundant = false) (promoted : e.isIrredundant = true) (valid : r.isValid = true)
    (start : r.offset = extents xs) :
    Tops isIrredundant (if !last.isValid || last < r then r else last) 0 (xs ++ e :: ys) := by
  have here : At 0 (xs ++ e :: ys) r.offset e := ⟨xs, ys, rfl, by omega⟩
  split
  next raised =>
    refine ⟨fun _ => ⟨e, here, promoted⟩, fun k f hf stands => ⟨valid, ?_⟩⟩
    rcases at_replaced extent_eq hf with ⟨place, -⟩ | hf
    · omega
    · obtain ⟨cached, le⟩ := h.above k f hf stands
      have before : last < r := by simpa [cached] using raised
      have : last.offset < r.offset := before
      omega
  next stays =>
    simp only [Bool.or_eq_true, Bool.not_eq_true', decide_eq_true_eq, not_or, Bool.not_eq_false] at stays
    refine ⟨fun cached => ?_, fun k f hf stands => ?_⟩
    · obtain ⟨f, hf, was⟩ := h.place cached
      rcases at_replaced extent_eq.symm hf with ⟨-, rfl⟩ | hf
      · rw [kind] at was
        cases was
      · exact ⟨f, hf, was⟩
    · rcases at_replaced extent_eq hf with ⟨place, -⟩ | hf
      · have le : ¬ last.offset < r.offset := stays.2
        exact ⟨stays.1, by omega⟩
      · exact h.above k f hf stands

end Tops

theorem mem_flagsAt {fs : Flags} :
    (k, fs) ∈ flagsAt o cs ↔ ∃ d, At o cs k d ∧ fs = d.header.flags := by
  induction cs generalizing o with
  | nil => simp [flagsAt, not_at_nil]
  | cons c cs ih =>
    have next : flagsAt o (c :: cs) = (o, c.header.flags) :: flagsAt (o + c.extent) cs := rfl
    simp only [next, List.mem_cons, Prod.mk.injEq, ih, at_cons, or_and_right, exists_or]
    refine or_congr_left ⟨?_, ?_⟩
    · rintro ⟨rfl, rfl⟩
      exact ⟨c, ⟨rfl, rfl⟩, rfl⟩
    · rintro ⟨d, ⟨rfl, rfl⟩, rfl⟩
      exact ⟨rfl, rfl⟩

/-- Among live cells, what a compaction caches is the last irredundant one. -/
theorem tops_lastOf (live : ∀ d ∈ cs, d.isGarbage = false) (fits : o + extents cs < 4294967295) :
    Tops (standsAs false) (lastOf (flagsAt o cs)) o cs := by
  let ks := ((flagsAt o cs).filter fun f => !f.2.redundant).map Prod.fst
  have last_eq : lastOf (flagsAt o cs) = ks.getLast?.elim .invalid .ofOffset := by
    rw [List.getLast?_map, lastOf, Option.elim_map]
    rfl
  have fst_eq : (flagsAt o cs).map Prod.fst = offsets o cs :=
    List.map_fst_zip (by simp)
  have ascending : ks.Pairwise (· < ·) := by
    refine (offsets_pairwise o cs).sublist ?_
    rw [← fst_eq]
    exact List.filter_sublist.map _
  rw [last_eq]
  refine .of_getLast? ascending (fun k => ?_) fits
  simp only [ks, List.mem_map, List.mem_filter, Prod.exists, exists_and_right, exists_eq_right, mem_flagsAt]
  constructor
  · rintro ⟨fs, ⟨d, hd, rfl⟩, kind⟩
    exact ⟨d, hd, by simpa [standsAs_of_live (live d hd.mem)] using kind⟩
  · rintro ⟨d, hd, stands⟩
    exact ⟨_, ⟨d, hd, rfl⟩, isIrredundant_of_standsAs stands⟩

end Cell

/-! ### Collections -/

namespace Database

variable {db : Database} {xs ys zs cs : List Cell}

theorem Holds.mem_liveOf (h : db.Holds cs) {k : Nat} :
    k ∈ db.arena.liveOf false ↔ ∃ d, At 0 cs k d ∧ d.standsAs false = true := by
  rw [Arena.liveOf, List.mem_filter, h.mem_live]
  constructor
  · rintro ⟨⟨d, hd, live⟩, kind⟩
    rw [h.tiled.header_eq hd] at kind
    exact ⟨d, hd, (standsAs_of_live live).trans kind⟩
  · rintro ⟨d, hd, stands⟩
    simp only [standsAs, Bool.and_eq_true, Bool.not_eq_true'] at stands
    exact ⟨⟨d, hd, stands.1⟩, by rw [h.tiled.header_eq hd, stands.2]⟩

/-- The last live irredundant clause is found where an arena holds cells. -/
theorem tops_lastLive (h : db.Holds cs) : Tops (standsAs false) db.arena.lastLive 0 cs := by
  refine .of_getLast? ?_ (fun _ => h.mem_liveOf) (by rw [Nat.zero_add]; exact h.fits')
  rw [Arena.liveOf, Arena.live, h.tiled.walkFrom_zero]
  exact (offsets_pairwise 0 cs).sublist (List.filter_sublist.trans List.filter_sublist)

/-- Before a boundary between cells, the last live irredundant clause is found. -/
theorem tops_lastBefore (h : (Arena.ofCells (xs ++ zs)).Tiled (xs ++ zs))
    (fits : extents xs < 4294967295) :
    Tops (standsAs false) (lastBefore (.ofCells (xs ++ zs)) (.ofOffset (extents xs))) 0 xs := by
  have start_eq : (Reference.ofOffset (extents xs)).offset = extents xs := toNat_ofOffset (by omega)
  have until_eq : ((Arena.ofCells (xs ++ zs)).walkFrom 0).1.takeWhile
      (fun o => !decide (extents xs ≤ o)) = offsets 0 xs := by
    rw [h.walkFrom_zero, offsets_append, Nat.zero_add, List.takeWhile_append_of_pos]
    · cases zs <;> simp
    · intro k hk
      obtain ⟨d, hd⟩ := mem_offsets.1 hk
      have := hd.bounds.2
      have := d.extent_pos
      simp only [Bool.not_eq_true', decide_eq_false_iff_not]
      omega
  rw [lastBefore, start_eq, until_eq]
  refine .of_getLast? ((offsets_pairwise 0 xs).sublist List.filter_sublist) (fun k => ?_)
    (by rwa [Nat.zero_add])
  rw [List.mem_filter, mem_offsets]
  constructor
  · rintro ⟨⟨d, hd⟩, stands⟩
    rw [h.header_eq (at_append.2 (.inl hd))] at stands
    exact ⟨d, hd, by simpa [standsAs, isGarbage] using stands⟩
  · rintro ⟨d, hd, stands⟩
    rw [h.header_eq (at_append.2 (.inl hd))]
    exact ⟨⟨d, hd⟩, by simpa [standsAs, isGarbage] using stands⟩

/-- What a collection caches. It is exact where the collection starts at or before the clause that was
cached. -/
theorem tops_relast (h : db.Holds (xs ++ ys))
    (cached : Tops isIrredundant db.lastIrredundant 0 (xs ++ ys)) :
    Tops isIrredundant (db.relast xs ys) 0 (xs ++ settle db.arena.word (extents xs) ys) ∧
      (Reference.ofOffset (extents xs) ≤ db.lastIrredundant →
        Tops (standsAs false) (db.relast xs ys) 0 (xs ++ settle db.arena.word (extents xs) ys)) := by
  have fits := h.fits'
  rw [extents_append] at fits
  have settled_le := extents_settle_le db.arena.word (extents xs)
    fun c hc => h.sound c (List.mem_append_right xs hc)
  have moved : Tops (standsAs false) (db.compactionOf xs).lastIrredundant (extents xs)
      (settle db.arena.word (extents xs) ys) := by
    rw [h.caches.last_eq]
    exact tops_lastOf (fun d hd => isGarbage_of_mem_settle hd) (by omega)
  have exact_imp : ∀ {r : Reference} {zs : List Cell}, Tops (standsAs false) r 0 zs →
      Tops isIrredundant r 0 zs := fun h => h.imp fun _ => isIrredundant_of_standsAs
  rw [relast, recached]
  split
  next valid =>
    have last := moved.behind valid
    exact ⟨exact_imp last, fun _ => last⟩
  next lost =>
    have none_moved : ∀ d ∈ settle db.arena.word (extents xs) ys, d.standsAs false = false := by
      intro d hd
      obtain ⟨k, hk⟩ := exists_at (extents xs) hd
      exact Bool.eq_false_iff.2 fun stands => lost (moved.above k d hk stands).1
    split
    next behind =>
      have left := h.collected .invalid fun valid : Reference.invalid.isValid = true =>
        absurd valid (by decide)
      have last := (tops_lastBefore left.tiled (by omega)).front none_moved
      exact ⟨exact_imp last, fun _ => last⟩
    next before =>
      have start_eq : (Reference.ofOffset (extents xs)).offset = extents xs := toNat_ofOffset (by omega)
      simp only [Bool.and_eq_true, decide_eq_true_eq, not_and] at before
      have early : db.lastIrredundant.isValid = true → db.lastIrredundant.offset < extents xs := by
        intro valid
        have : ¬ (Reference.ofOffset (extents xs)).offset ≤ db.lastIrredundant.offset := before valid
        omega
      have last := (cached.before early).front none_moved
      exact ⟨last, fun le => ⟨fun valid => absurd le (before valid), last.above⟩⟩

/-- Storing caches a fresh irredundant clause. -/
theorem tops_storedLong {a b : Literal} {rest : Clause}
    (h : Tops isIrredundant db.lastIrredundant 0 cs) (holds : db.Holds cs) (source : Source)
    (glue : UInt32) (keep : Bool) (conflicts : UInt64) :
    Tops isIrredundant (db.storedLong a b rest source glue keep conflicts cs).lastIrredundant 0
      (cs ++ [Cell.stored db.nextIdentity source glue keep conflicts (a :: b :: rest)]) := by
  have fits := holds.fits'
  have kind_eq : (Cell.stored db.nextIdentity source glue keep conflicts
      (a :: b :: rest)).header.flags.redundant = (source == .redundant) := rfl
  simp only [storedLong]
  cases redundant : source == .redundant with
  | true =>
    refine h.front fun d hd => ?_
    rw [List.mem_singleton.1 hd, standsAs, kind_eq, redundant]
    exact Bool.and_false _
  | false =>
    have end_eq : (Reference.ofOffset (extents cs)).offset = extents cs := toNat_ofOffset (by omega)
    have valid : (Reference.ofOffset (extents cs)).isValid = true := isValid_ofOffset (by omega)
    refine Tops.behind ⟨fun _ => ⟨_, at_cons.2 (.inl ⟨end_eq, rfl⟩), ?_⟩, fun k d hd _ => ?_⟩ valid
    · rw [isIrredundant, kind_eq, redundant, Bool.not_false]
    · rcases at_cons.1 hd with ⟨rfl, -⟩ | hd
      · exact ⟨valid, Nat.le_of_eq end_eq.symm⟩
      · exact absurd hd not_at_nil

/-- Every way to revise the books keeps the reference. -/
theorem keeps_tops :
    Bookkeeping fun db _ cs => Tops isIrredundant db.lastIrredundant 0 cs where
  relaid h same core_eq := by
    rw [same.last_eq]
    exact h.of_core core_eq
  storedBinary h _ _ _ := by
    simp only [storedBinary]
    exact h
  storedLong h source glue keep conflicts _ holds _ := tops_storedLong h holds source glue keep conflicts
  marked h _ := h.replace rfl rfl fun stands => by
    rw [standsAs_garbage] at stands
    cases stands
  promoted {db _ xs ys d r} h _ redundant start holds := by
    have fits := holds.fits'
    have := d.extent_pos
    simp only [extents_append, extents_cons] at fits
    have valid : r.isValid = true := by
      rw [← ofOffset_offset r, start]
      exact isValid_ofOffset (by omega)
    refine h.raise rfl ?_ ?_ valid start
    · rw [isIrredundant, redundant, Bool.not_true]
    · simp [isIrredundant, revised, Header.withFlag, Flags.set]
  shortened _ h _ shorter := h.replace (extent_shrunk _ shorter) rfl id
  collected h holds _ := (tops_relast holds h).1
  deletedBinary h _ _ _ _ := h

/-- What holds of the cells is trusted of the database. -/
theorem lastSound_of_tops (h : db.Holds cs) (cached : Tops isIrredundant db.lastIrredundant 0 cs) :
    db.LastSound where
  record valid := by
    obtain ⟨d, hd, kind⟩ := cached.place valid
    rw [h.tiled.mem_walk, h.tiled.header_eq hd]
    exact ⟨⟨d, hd⟩, by simpa [isIrredundant] using kind⟩
  none_behind o ho := by
    obtain ⟨d, hd, stands⟩ := h.mem_liveOf.1 ho
    exact (cached.above o d hd stands).2
  none_left invalid := by
    refine List.eq_nil_iff_forall_not_mem.2 fun o ho => ?_
    obtain ⟨d, hd, stands⟩ := h.mem_liveOf.1 ho
    rw [(cached.above o d hd stands).1] at invalid
    cases invalid

end Database

/-! ### Runs -/

theorem Sideline.last_eq {db db' : Database} {op : Operation} {r : Except Error Answer}
    (h : Sideline db op r db') : db'.lastIrredundant = db.lastIrredundant := by
  cases h <;> rfl

namespace Context

variable {π : Type} [Predictor π] {c : Context π} {cs : List Cell}

/-- One step of a run keeps the reference, deletions of any binary clause included. -/
theorem tops_step (holds : c.database.Holds cs) (cached : Tops isIrredundant c.database.lastIrredundant 0 cs)
    {op : Operation} (lawful : op.Lawful c) : ∃ ds, (op.after c).database.Holds ds ∧
      Tops isIrredundant (op.after c).database.lastIrredundant 0 ds := by
  cases aside : op.aside with
  | true =>
    obtain ⟨db, ms, after_eq, sideline⟩ := exists_sideline holds aside
    rw [after_eq]
    refine ⟨cs, (holds.beside sideline.beside).logged ms, ?_⟩
    show Tops _ db.lastIrredundant 0 cs
    rwa [sideline.last_eq]
  | false =>
    obtain ⟨c', ds, ms, after_eq, effect⟩ := exists_effect holds lawful
    rw [after_eq]
    have kept := @Bookkeeping.effect _ [] _ _ keeps_tops _ _ _ cached _ _ effect holds aside
    exact ⟨ds, (effect.holds holds).logged ms, kept⟩

/-- A run keeps the reference. -/
theorem tops_run {ops : List Operation} (holds : c.database.Holds cs)
    (cached : Tops isIrredundant c.database.lastIrredundant 0 cs) (follows : c.Follows ops) :
    ∃ ds, (c.run ops).database.Holds ds ∧
      Tops isIrredundant (c.run ops).database.lastIrredundant 0 ds := by
  induction ops generalizing c cs with
  | nil => exact ⟨cs, holds, cached⟩
  | cons op ops ih =>
    obtain ⟨ds, next, kept⟩ := tops_step holds cached follows.1
    exact ih next kept follows.2

/-- A collection that starts at or before the cached reference succeeds, and leaves the last live
irredundant clause of the arena cached. -/
def RecachesLast (c : Context π) (start : Reference) : Prop :=
  ∃ moved, (Operation.collect start).answer c = .ok (.relocated moved) ∧
    ((Operation.collect start).after c).database.lastIrredundant =
      ((Operation.collect start).after c).database.arena.lastLive

theorem recachesLast (holds : c.database.Holds cs)
    (cached : Tops isIrredundant c.database.lastIrredundant 0 cs) {start : Reference}
    (boundary : c.database.Boundary start) (le : start ≤ c.database.lastIrredundant) :
    c.RecachesLast start := by
  obtain ⟨xs, ys, rfl, rfl⟩ := Operation.exists_split_of_boundary holds boundary
  obtain ⟨first, last, collects, first_at, -, last_eq⟩ := yields_collect_cached holds
  obtain ⟨answer, ms, after_eq⟩ := exists_collect collects
  have left := holds.collected last first_at
  have found := tops_lastLive left
  refine ⟨_, answer, ?_⟩
  rw [after_eq]
  subst last_eq
  exact ((tops_relast holds cached).2 le).unique found

/-- Along every lawful run of an empty context, the cached reference to the last irredundant clause is
sound, and a collection that starts at or before it leaves it exact. -/
theorem lastIrredundant_sound (config : Config) (predictor : π) (ops : List Operation)
    (follows : (ofConfig config predictor).Follows ops) :
    ((ofConfig config predictor).run ops).database.LastSound ∧
      ∀ start, ((ofConfig config predictor).run ops).database.Boundary start →
        start ≤ ((ofConfig config predictor).run ops).database.lastIrredundant →
        ((ofConfig config predictor).run ops).RecachesLast start := by
  have start : (ofConfig config predictor).database.Holds [] := holds_nil
  obtain ⟨cs, holds, cached⟩ := tops_run start
    ⟨fun valid => absurd valid Bool.false_ne_true, fun _ _ hd => absurd hd not_at_nil⟩ follows
  exact ⟨lastSound_of_tops holds cached, fun _ => recachesLast holds cached⟩

/-- Irredundant clauses around a redundant one, of which the last one is garbage. -/
def forgottenRun : List Operation :=
  [.create .original 0 [⟨1⟩, ⟨2⟩, ⟨3⟩], .create .redundant 5 [⟨1⟩, ⟨-2⟩, ⟨4⟩],
    .create .original 0 [⟨-1⟩, ⟨2⟩, ⟨4⟩], .markGarbage (.ofOffset 24)]

/-- The cached reference stays at the garbage, and a collection from behind the first clause goes back
to that one. -/
theorem lastIrredundant_sound_forgottenRun :
    (ofConfig {} ({} : Linear)).Follows forgottenRun ∧
      ((ofConfig {} ({} : Linear)).run forgottenRun).database.lastIrredundant = .ofOffset 24 ∧
      ((ofConfig {} ({} : Linear)).run forgottenRun).database.LastSound ∧
      ((ofConfig {} ({} : Linear)).run forgottenRun).RecachesLast (.ofOffset 12) ∧
      ((Operation.collect (.ofOffset 12)).after
        ((ofConfig {} ({} : Linear)).run forgottenRun)).database.lastIrredundant = .ofOffset 0 := by
  have follows : (ofConfig {} ({} : Linear)).Follows forgottenRun := by decide +kernel
  have boundary : ((ofConfig {} ({} : Linear)).run forgottenRun).database.Boundary (.ofOffset 12) := by
    decide +kernel
  obtain ⟨sound, recaches⟩ := lastIrredundant_sound ({} : Config) ({} : Linear) forgottenRun follows
  exact ⟨follows, by decide +kernel, sound, recaches _ boundary (by decide +kernel), by decide +kernel⟩

end Context

end ClauseStore
