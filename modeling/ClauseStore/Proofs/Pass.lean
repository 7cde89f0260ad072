import ClauseStore.Proofs.Scan

/-!
What a pass over the cells keeps. A pass revises nothing of a header but grace, link and counts of use.
Its candidates are live redundant clauses that are no reasons, in the order of their places, and a row
that it has seen is that of a live redundant cell with the identity of the row, no two rows being those
of one cell.
-/

namespace ClauseStore

open Cell

/-- A header without what scans revise: grace, link, and the counts of use. -/
def Header.lasting (h : Header) : Header := { h with grace := 0, link := 0, props := 0, uips := 0 }

/-! ### Rows of the table -/

namespace Table

@[simp] theorem row?_markGarbage (t : Table) (i j : Nat) : (t.markGarbage i).row? j =
    if i = j then (t.row? j).map fun row => { row with garbage := true } else t.row? j := by
  simp only [row?, markGarbage, Array.getElem?_modify]

@[simp] theorem row?_revise (t : Table) (i j : Nat) (f : Row → Row) :
    (t.revise i f).row? j = if i = j then (t.row? j).map f else t.row? j := by
  simp only [row?, revise, Array.getElem?_modify]

@[simp] theorem row?_push (t : Table) (row : Row) (j : Nat) :
    (t.push row).row? j = if j = t.size then some row else t.row? j := by
  simp only [row?, push, size, Array.getElem?_push]
  rfl

@[simp] theorem row?_markUnseen (t : Table) (j : Nat) :
    t.markUnseen.row? j = (t.row? j).map fun row => { row with seen := false } := by
  simp only [row?, markUnseen, Array.getElem?_map]

theorem row?_ended (t : Table) (h : Header) (j : Nat) : (t.ended h).row? j =
    if h.row? = some j then (t.row? j).map fun row => { row with garbage := true }
    else t.row? j := by
  rw [ended]
  cases h.row? with
  | none => simp
  | some i => simp

theorem lt_size_of_row? {t : Table} {i : Nat} {row : Row} (h : t.row? i = some row) : i < t.size :=
  (Array.getElem?_eq_some_iff.1 h).1

theorem row?_getElem (t : Table) {i : Nat} (h : i < t.rows.toList.length) :
    t.row? i = some t.rows.toList[i] := by
  rw [row?, ← Array.getElem?_toList, List.getElem?_eq_getElem h]

theorem mem_of_row? {t : Table} {i : Nat} {row : Row} (h : t.row? i = some row) :
    row ∈ t.rows.toList := by
  rw [row?, ← Array.getElem?_toList] at h
  exact List.mem_of_getElem? h

theorem exists_row? {t : Table} {row : Row} (h : row ∈ t.rows.toList) : ∃ i, t.row? i = some row := by
  obtain ⟨i, hi, rfl⟩ := List.getElem_of_mem h
  exact ⟨i, t.row?_getElem hi⟩

/-- A view of the rows that the revision of one of them keeps. -/
theorem map_rows_modify {β : Type} {view : Row → β} {f : Row → Row}
    (h : ∀ row, view (f row) = view row) (t : Table) (i : Nat) :
    (t.rows.modify i f).toList.map view = t.rows.toList.map view := by
  apply List.ext_getElem?
  intro j
  simp only [List.getElem?_map, Array.getElem?_toList, Array.getElem?_modify]
  split
  · rw [Option.map_map]
    congr 1
    funext row
    exact h row
  · rfl

end Table

namespace Row

variable (row : Row) (use : Usage) (now last : UInt64)

@[simp] theorem identity_update : (row.update use now last).identity = row.identity := by
  simp only [update]
  split <;> rfl

@[simp] theorem clause_update : (row.update use now last).clause = row.clause := by
  simp only [update]
  split <;> rfl

@[simp] theorem garbage_update : (row.update use now last).garbage = row.garbage := by
  simp only [update]
  split <;> rfl

@[simp] theorem seen_update : (row.update use now last).seen = true := by
  simp only [update]
  split <;> rfl

end Row

namespace ScanPlan

variable (p : ScanPlan) (k : Nat) (h : Header) (row : Row)

@[simp] theorem identity_touch : (p.touch k h row).identity = row.identity := by simp [touch]

@[simp] theorem clause_touch : (p.touch k h row).clause = .ofOffset k := by simp [touch]

@[simp] theorem garbage_touch : (p.touch k h row).garbage = row.garbage := by simp [touch]

@[simp] theorem seen_touch : (p.touch k h row).seen = true := by simp [touch]

theorem lasting_weigh : (p.weigh h).1.lasting = h.lasting := by
  simp only [weigh, consider, Header.spent, Header.resetUsage, Header.lasting]
  split
  · rfl
  · split
    · split <;> rfl
    · split
      · rfl
      · split <;> rfl

/-! ### What a step of a pass does -/

/-- Whether a redundant clause counts. -/
def counts (p : ScanPlan) (progress : ScanProgress) (h : Header) : Bool :=
  progress.first.isValid || p.opens h

/-- The progress behind a live redundant clause, with its header when it is weighed. -/
def advance (p : ScanPlan) (k : Nat) (h weighed : Header) (progress : ScanProgress) : ScanProgress :=
  if (p.weigh weighed).2 then (progress.opened (.ofOffset k)).push (.ofHeader (.ofOffset k) h)
  else progress.opened (.ofOffset k)

/-- The things that a pass can do to a record: the progress, header and table behind it. -/
inductive Step (p : ScanPlan) (k : Nat) (h : Header) (t : Table) (progress : ScanProgress) :
    Except Error ScanProgress → Header → Table → Prop where
  /-- an irredundant clause loses its row -/
  | irredundant (irredundant : h.flags.redundant = false) :
    Step p k h t progress (.ok progress) (h.withRow none) (t.ended h)
  /-- a redundant clause before the first that counts is passed over -/
  | early (redundant : h.flags.redundant = true) (early : p.counts progress h = false) :
    Step p k h t progress (.ok progress) h t
  /-- the row of a redundant clause that is garbage ends -/
  | garbage (redundant : h.flags.redundant = true) (counts : p.counts progress h = true)
    (garbage : h.flags.garbage = true) :
    Step p k h t progress (.ok (progress.opened (.ofOffset k))) h (t.ended h)
  /-- a live redundant clause is weighed where no rows are kept -/
  | untracked (redundant : h.flags.redundant = true) (counts : p.counts progress h = true)
    (live : h.flags.garbage = false) (untracked : p.collecting = false) :
    Step p k h t progress (.ok (p.advance k h h progress)) (p.weigh h).1 t
  /-- the use of a live redundant clause is folded into its row -/
  | linked {i : Nat} {row : Row} (redundant : h.flags.redundant = true)
    (counts : p.counts progress h = true) (live : h.flags.garbage = false)
    (link : h.row? = some i) (found : t.row? i = some row) (own : row.identity = h.identity) :
    Step p k h t progress (.ok (p.advance k h h progress)) (p.weigh h).1 (t.revise i (p.touch k h))
  /-- a row is made for a live redundant clause without one -/
  | fresh (redundant : h.flags.redundant = true) (counts : p.counts progress h = true)
    (live : h.flags.garbage = false) (unlinked : h.row? = none) :
    Step p k h t progress (.ok (p.advance k h (h.withRow (some t.size)) progress))
      (p.weigh (h.withRow (some t.size))).1
      ((t.push (Row.fresh h.identity (.ofOffset k) p.conflicts)).revise t.size
        (p.touch k (h.withRow (some t.size))))
  /-- the row of a live redundant clause is not there -/
  | missing {i : Nat} (redundant : h.flags.redundant = true) (live : h.flags.garbage = false)
    (link : h.row? = some i) (missing : t.row? i = none) :
    Step p k h t progress (.error (.table .missingRow)) h t
  /-- the row of a live redundant clause is that of another clause -/
  | mismatch {i : Nat} {row : Row} (redundant : h.flags.redundant = true)
    (live : h.flags.garbage = false) (link : h.row? = some i) (found : t.row? i = some row)
    (other : row.identity ≠ h.identity) :
    Step p k h t progress (.error (.table .identityMismatch)) h t

theorem step_scanCell (p : ScanPlan) (k : Nat) (h : Header) (t : Table) (progress : ScanProgress) :
    Step p k h t progress (p.scanCell k h t progress).1 (p.scanCell k h t progress).2.1
      (p.scanCell k h t progress).2.2 := by
  rw [scanCell]
  split
  next redundant =>
    split
    next counts =>
      dsimp only
      split
      next garbage => exact .garbage redundant counts garbage
      next live =>
        have live : h.flags.garbage = false := by simpa using live
        rw [accountIf]
        by_cases collecting : p.collecting = true
        · rw [if_pos collecting, account]
          cases link : h.row? with
          | none =>
            have pushed : (t.push (Row.fresh h.identity (.ofOffset k) p.conflicts)).row? t.size =
                some (Row.fresh h.identity (.ofOffset k) p.conflicts) := by simp
            have identity_eq : (Row.fresh h.identity (.ofOffset k) p.conflicts).identity =
                h.identity := rfl
            simp only [ScanPlan.link, link, pushed, identity_eq, if_true]
            exact .fresh redundant counts live link
          | some i =>
            simp only [ScanPlan.link, link]
            cases found : t.row? i with
            | none => exact .missing redundant live link found
            | some row =>
              by_cases own : row.identity = h.identity
              · simp only [if_pos own]
                exact .linked redundant counts live link found own
              · simp only [if_neg own]
                exact .mismatch redundant live link found own
        · rw [if_neg collecting]
          exact .untracked redundant counts live (by simpa using collecting)
    next early => exact .early redundant (by simpa [ScanPlan.counts] using early)
  next irredundant => exact .irredundant (by simpa using irredundant)

/-- A pass over the cells of a row, the first of which starts at a place: one step for each cell, up
to the first that fails. -/
inductive Pass (p : ScanPlan) : Nat → List Cell → Table → ScanProgress →
    Except Error ScanProgress → List Cell → Table → Prop where
  | nil {k : Nat} {t : Table} {progress : ScanProgress} :
    Pass p k [] t progress (.ok progress) [] t
  | failed {k : Nat} {c : Cell} {cs : List Cell} {t t' : Table} {progress : ScanProgress} {e : Error}
    {h : Header} (step : Step p k c.header t progress (.error e) h t') :
    Pass p k (c :: cs) t progress (.error e) (c.withHeader h :: cs) t'
  | cons {k : Nat} {c : Cell} {cs zs : List Cell} {t t₁ t' : Table} {progress progress₁ : ScanProgress}
    {r : Except Error ScanProgress} {h : Header}
    (step : Step p k c.header t progress (.ok progress₁) h t₁)
    (rest : Pass p (k + c.extent) cs t₁ progress₁ r zs t') :
    Pass p k (c :: cs) t progress r (c.withHeader h :: zs) t'

theorem pass_scanCells (p : ScanPlan) (k : Nat) (cs : List Cell) (t : Table)
    (progress : ScanProgress) : Pass p k cs t progress (p.scanCells k cs t progress).1
      (p.scanCells k cs t progress).2.1 (p.scanCells k cs t progress).2.2 := by
  induction cs generalizing k t progress with
  | nil => exact .nil
  | cons c cs ih =>
    have step := step_scanCell p k c.header t progress
    rw [scanCells]
    split
    next e h t' scanned =>
      rw [scanned] at step
      exact .failed step
    next progress₁ h t₁ scanned =>
      rw [scanned] at step
      exact .cons step (ih _ _ _)

/-! ### What a pass keeps -/

variable {p : ScanPlan} {k : Nat} {cs zs : List Cell} {t t' : Table} {progress progress' : ScanProgress}
  {r : Except Error ScanProgress}

theorem Step.lasting {h h' : Header} (step : Step p k h t progress r h' t') :
    h'.lasting = h.lasting := by
  cases step with
  | irredundant => rfl
  | early => rfl
  | garbage => rfl
  | untracked => exact lasting_weigh ..
  | linked => exact lasting_weigh ..
  | fresh => exact (lasting_weigh ..).trans rfl
  | missing => rfl
  | mismatch => rfl

theorem Step.lasting_cell {c : Cell} {h' : Header} (step : Step p k c.header t progress r h' t') :
    (c.withHeader h').revised Header.lasting = c.revised Header.lasting := by
  rw [revised_eq_iff]
  exact ⟨step.lasting, rfl, rfl⟩

/-- A pass revises nothing of a cell but grace, link and counts of use of its header. -/
theorem Pass.lasting (pass : Pass p k cs t progress r zs t') :
    zs.map (revised Header.lasting) = cs.map (revised Header.lasting) := by
  induction pass with
  | nil => rfl
  | failed step =>
    rw [List.map_cons, List.map_cons, step.lasting_cell]
  | cons step rest ih =>
    rw [List.map_cons, List.map_cons, step.lasting_cell, ih]

/-- A pass fails for a row that is not there, or not that of its clause. -/
theorem Pass.table_of_error {e : Error} (pass : Pass p k cs t progress (.error e) zs t') :
    ∃ fault, e = .table fault := by
  generalize result_eq : Except.error e = result at pass
  induction pass with
  | nil => cases result_eq
  | failed step =>
    cases result_eq
    cases step with
    | missing => exact ⟨_, rfl⟩
    | mismatch => exact ⟨_, rfl⟩
  | cons _ _ ih => exact ih result_eq

/-! ### Parts of a pass -/

/-- A pass over two parts of a row is one over the first and then one over the second. -/
theorem Pass.of_append {xs ys : List Cell} (pass : Pass p k (xs ++ ys) t progress (.ok progress') zs t') :
    ∃ xs' ys' t₁ progress₁, zs = xs' ++ ys' ∧ Pass p k xs t progress (.ok progress₁) xs' t₁ ∧
      Pass p (k + extents xs) ys t₁ progress₁ (.ok progress') ys' t' := by
  induction xs generalizing k t progress zs with
  | nil => exact ⟨[], zs, t, progress, rfl, .nil, pass⟩
  | cons c cs ih =>
    rw [List.cons_append] at pass
    cases pass with
    | cons step rest =>
      obtain ⟨xs', ys', t₁, progress₁, rfl, before, behind⟩ := ih rest
      rw [Nat.add_assoc] at behind
      exact ⟨_ :: xs', ys', t₁, progress₁, rfl, .cons step before, behind⟩

/-- A pass makes a step at each of its cells, between the passes over the cells before and behind. -/
theorem Pass.exists_split (pass : Pass p k cs t progress (.ok progress') zs t') {j : Nat} {c : Cell}
    (hc : At k cs j c) :
    ∃ xs ys xs' ys' t₁ t₂ progress₁ progress₂ h, cs = xs ++ c :: ys ∧ j = k + extents xs ∧
      zs = xs' ++ c.withHeader h :: ys' ∧ Pass p k xs t progress (.ok progress₁) xs' t₁ ∧
      Step p j c.header t₁ progress₁ (.ok progress₂) h t₂ ∧
      Pass p (j + c.extent) ys t₂ progress₂ (.ok progress') ys' t' := by
  obtain ⟨xs, ys, rfl, rfl⟩ := hc
  obtain ⟨xs', zs', t₁, progress₁, rfl, before, rest⟩ := pass.of_append
  cases rest with
  | cons step behind => exact ⟨xs, ys, xs', _, t₁, _, progress₁, _, _, rfl, rfl, rfl, before, step, behind⟩

/-- A step leaves a row alone that its clause is not linked to. -/
theorem Step.row?_of_foreign {h h' : Header} {i : Nat} {row : Row}
    (step : Step p k h t progress r h' t') (foreign : h.row? ≠ some i)
    (found : t.row? i = some row) : t'.row? i = some row := by
  have ended : (t.ended h).row? i = some row := by rw [Table.row?_ended, if_neg foreign, found]
  cases step with
  | irredundant => exact ended
  | early => exact found
  | garbage => exact ended
  | untracked => exact found
  | linked redundant counts live link =>
    have other : _ ≠ i := fun same => foreign (link.trans (congrArg some same))
    rw [Table.row?_revise, if_neg other, found]
  | fresh =>
    have := Table.lt_size_of_row? found
    rw [Table.row?_revise, if_neg (by omega), Table.row?_push, if_neg (by omega), found]
  | missing => exact found
  | mismatch => exact found

/-- A pass leaves a row alone that none of its clauses is linked to. -/
theorem Pass.row?_of_foreign {i : Nat} {row : Row} (pass : Pass p k cs t progress r zs t')
    (foreign : ∀ c ∈ cs, c.header.row? ≠ some i) (found : t.row? i = some row) :
    t'.row? i = some row := by
  induction pass with
  | nil => exact found
  | failed step => exact step.row?_of_foreign (foreign _ (by simp)) found
  | cons step _ ih =>
    exact ih (fun d hd => foreign d (by simp [hd]))
      (step.row?_of_foreign (foreign _ (by simp)) found)

end ScanPlan

namespace Cell

/-- The clause of a cell is live and redundant. -/
def Learned (c : Cell) : Prop := c.isGarbage = false ∧ c.header.flags.redundant = true

instance (c : Cell) : Decidable c.Learned := inferInstanceAs (Decidable (_ ∧ _))

end Cell

namespace ScanPlan

variable {p : ScanPlan} {k : Nat} {cs zs : List Cell} {t t' : Table} {progress progress' : ScanProgress}
  {r : Except Error ScanProgress}

/-! ### Candidates -/

/-- A scan may offer the clause of a cell for removal. -/
structure Offers (p : ScanPlan) (c : Cell) : Prop where
  learned : c.Learned
  free : c.header.flags.reason = false
  unkept : c.header.flags.keep = true → p.byScore = true

theorem weigh_offers {h : Header} (weighed : (p.weigh h).2 = true) :
    h.flags.reason = false ∧ (h.flags.keep = true → p.byScore = true) := by
  simp only [weigh, consider] at weighed
  split at weighed
  · cases weighed
  next free =>
    refine ⟨by simpa using free, fun keep => ?_⟩
    cases score : p.byScore with
    | true => rfl
    | false =>
      rw [if_neg (by simp [score]), if_pos keep] at weighed
      cases weighed

/-- What a clause is weighed as does not depend on its link. -/
theorem weigh_withRow (p : ScanPlan) (h : Header) (row : Option Nat) :
    (p.weigh (h.withRow row)).2 = (p.weigh h).2 := by
  have flags_eq : (h.withRow row).flags = h.flags := rfl
  have same : (p.consider (h.withRow row)).2 = (p.consider h).2 := by
    simp only [consider, flags_eq]
    split
    · rfl
    · split <;> rfl
  simp only [weigh, flags_eq]
  split
  · rfl
  · exact same

/-- A step adds the place of a cell that may be offered and is a candidate by its weight, or no place. -/
theorem Step.candidates {c : Cell} {h : Header}
    (step : Step p k c.header t progress (.ok progress') h t') :
    (progress'.candidates.toList = progress.candidates.toList) ∨
      (progress'.candidates.toList = progress.candidates.toList ++ [.ofHeader (.ofOffset k) c.header] ∧
        p.Offers c ∧ (p.weigh c.header).2 = true) := by
  have opened : ∀ q : ScanProgress, (q.opened (.ofOffset k)).candidates = q.candidates := by
    intro q
    rw [ScanProgress.opened]
    split <;> rfl
  have advanced : ∀ w : Header, c.Learned → (p.weigh w).2 = (p.weigh c.header).2 →
      ((p.advance k c.header w progress).candidates.toList = progress.candidates.toList) ∨
        ((p.advance k c.header w progress).candidates.toList =
            progress.candidates.toList ++ [.ofHeader (.ofOffset k) c.header] ∧
          p.Offers c ∧ (p.weigh c.header).2 = true) := by
    intro w learned weigh_eq
    rw [advance, weigh_eq]
    split
    next weighed =>
      obtain ⟨free, unkept⟩ := weigh_offers weighed
      exact .inr ⟨by simp [ScanProgress.push, opened], ⟨learned, free, unkept⟩, weighed⟩
    next => exact .inl (by rw [opened])
  cases step with
  | irredundant => exact .inl rfl
  | early => exact .inl rfl
  | garbage => exact .inl (by rw [opened])
  | untracked redundant counts live => exact advanced _ ⟨live, redundant⟩ rfl
  | linked redundant counts live => exact advanced _ ⟨live, redundant⟩ rfl
  | fresh redundant counts live => exact advanced _ ⟨live, redundant⟩ (weigh_withRow ..)

/-- The candidates of a pass are at places of cells that may be offered, in the order of the row. -/
theorem Pass.candidates (pass : Pass p k cs t progress (.ok progress') zs t') :
    ∃ ks : List Nat, progress'.candidates.toList.map Candidate.reference =
        progress.candidates.toList.map Candidate.reference ++ ks.map Reference.ofOffset ∧
      ks.Sublist (offsets k cs) ∧
      ∀ j ∈ ks, ∃ c, At k cs j c ∧ p.Offers c ∧ (p.weigh c.header).2 = true := by
  generalize result_eq : Except.ok progress' = result at pass
  induction pass with
  | nil =>
    cases result_eq
    exact ⟨[], by simp, List.nil_sublist _, by simp⟩
  | failed => cases result_eq
  | @cons k c cs zs t t₁ t' progress progress₁ r h step rest ih =>
    obtain ⟨ks, refs_eq, sub, offered⟩ := ih result_eq
    have further : ∀ j ∈ ks,
        ∃ d, At k (c :: cs) j d ∧ p.Offers d ∧ (p.weigh d.header).2 = true := by
      intro j hj
      obtain ⟨d, hd, offers⟩ := offered j hj
      exact ⟨d, at_cons.2 (.inr hd), offers⟩
    rcases step.candidates with same | ⟨added, offers⟩
    · rw [same] at refs_eq
      exact ⟨ks, refs_eq, sub.trans (List.sublist_cons_self ..), further⟩
    · rw [added] at refs_eq
      refine ⟨k :: ks, ?_, sub.cons_cons k, fun j hj => ?_⟩
      · rw [refs_eq]
        simp [Candidate.ofHeader]
      · rcases List.mem_cons.1 hj with rfl | hj
        · exact ⟨c, at_cons.2 (.inl ⟨rfl, rfl⟩), offers⟩
        · exact further j hj

/-! ### The first clause that counts -/

theorem Step.first {h h' : Header} (step : Step p k h t progress (.ok progress') h' t') :
    progress'.first = progress.first ∨ progress'.first = .ofOffset k := by
  have opened : (progress.opened (.ofOffset k)).first = progress.first ∨
      (progress.opened (.ofOffset k)).first = .ofOffset k := by
    rw [ScanProgress.opened]
    split
    · exact .inl rfl
    · exact .inr rfl
  have advanced : ∀ w : Header, (p.advance k h w progress).first =
      (progress.opened (.ofOffset k)).first := by
    intro w
    rw [advance]
    split <;> rfl
  cases step with
  | irredundant => exact .inl rfl
  | early => exact .inl rfl
  | garbage => exact opened
  | untracked => rwa [advanced]
  | linked => rwa [advanced]
  | fresh => rwa [advanced]

/-- The first clause that counts behind a pass is the one before it, or one of the cells. -/
theorem Pass.first (pass : Pass p k cs t progress (.ok progress') zs t') :
    progress'.first = progress.first ∨ ∃ j c, At k cs j c ∧ progress'.first = .ofOffset j := by
  generalize result_eq : Except.ok progress' = result at pass
  induction pass with
  | nil =>
    cases result_eq
    exact .inl rfl
  | failed => cases result_eq
  | @cons k c cs zs t t₁ t' progress progress₁ r h step rest ih =>
    rcases ih result_eq with same | ⟨j, d, hd, first_eq⟩
    · rcases step.first with same' | here
      · exact .inl (same.trans same')
      · exact .inr ⟨k, c, at_cons.2 (.inl ⟨rfl, rfl⟩), same.trans here⟩
    · exact .inr ⟨j, d, at_cons.2 (.inr hd), first_eq⟩

/-- A step notes its place as the first that counts, unless there is one or its clause does not count. -/
theorem Step.opened {h h' : Header} (step : Step p k h t progress (.ok progress') h' t') :
    progress'.first = (progress.opened (.ofOffset k)).first ∨
      progress'.first = progress.first ∧ (h.flags.redundant && !h.flags.keep) = false := by
  have advanced : ∀ w : Header, (p.advance k h w progress).first =
      (progress.opened (.ofOffset k)).first := by
    intro w
    rw [advance]
    split <;> rfl
  cases step with
  | irredundant irredundant => exact .inr ⟨rfl, by rw [irredundant, Bool.false_and]⟩
  | early redundant early =>
    simp only [counts, opens, Bool.or_eq_false_iff] at early
    exact .inr ⟨rfl, by rw [early.2.2, Bool.and_false]⟩
  | garbage => exact .inl rfl
  | untracked => exact .inl (advanced _)
  | linked => exact .inl (advanced _)
  | fresh => exact .inl (advanced _)

/-- No reducible cell of a pass starts before the first that counts behind it. -/
theorem Pass.first_least (pass : Pass p k cs t progress (.ok progress') zs t')
    (fits : k + extents cs < 4294967295)
    (place : progress.first.isValid = true → progress.first.offset ≤ k) :
    NoneBefore progress'.first k cs ∧ progress'.first.offset ≤ progress.first.offset := by
  generalize result_eq : Except.ok progress' = result at pass
  induction pass with
  | nil =>
    cases result_eq
    exact ⟨fun _ _ hc => absurd hc not_at_nil, Nat.le_refl _⟩
  | failed => cases result_eq
  | @cons k c cs zs t t₁ t' progress progress₁ r h step rest ih =>
    rw [extents_cons] at fits
    have here : (Reference.ofOffset k).offset = k := toNat_ofOffset (by omega)
    have opened : (progress.opened (.ofOffset k)).first.offset ≤ k ∧
        (progress.opened (.ofOffset k)).first.offset ≤ progress.first.offset := by
      rw [ScanProgress.opened]
      split
      next valid => exact ⟨place valid, Nat.le_refl _⟩
      next invalid =>
        have greatest := offset_eq_of_not_isValid (Bool.not_eq_true _ ▸ invalid)
        dsimp only
        omega
    have reached : progress₁.first.offset ≤ progress.first.offset ∧
        (progress₁.first.isValid = true → progress₁.first.offset ≤ k) ∧
        (c.isReducible = true → progress₁.first.offset ≤ k) := by
      rcases step.opened with opens | ⟨same, passed⟩
      · rw [opens]
        exact ⟨opened.2, fun _ => opened.1, fun _ => opened.1⟩
      · rw [same]
        refine ⟨Nat.le_refl _, place, fun reducible => ?_⟩
        rw [isReducible, passed, Bool.and_false] at reducible
        cases reducible
    have placed : progress₁.first.isValid = true → progress₁.first.offset ≤ k + c.extent :=
      fun valid => Nat.le_trans (reached.2.1 valid) (Nat.le_add_right ..)
    obtain ⟨behind, descends⟩ := ih (by omega) placed result_eq
    refine ⟨fun j d hd reducible => ?_, Nat.le_trans descends reached.1⟩
    rcases at_cons.1 hd with ⟨rfl, rfl⟩ | hd
    · exact Nat.le_trans descends (reached.2.2 reducible)
    · exact behind j d hd reducible

/-! ### Rows that were seen -/

/-- The rows of a table that were seen are those of live redundant cells before a place, with their
identities, and no two of them those of one cell. -/
structure Anchored (cs : List Cell) (limit : Nat) (t : Table) : Prop where
  own : ∀ i row, t.row? i = some row → row.seen = true → ∃ k c, At 0 cs k c ∧ c.Learned ∧
    c.header.identity = row.identity ∧ row.clause = .ofOffset k ∧ k < limit
  apart : ∀ i j row row', t.row? i = some row → t.row? j = some row' → row.seen = true →
    row'.seen = true → row.clause = row'.clause → i = j

variable {limit : Nat}

theorem Anchored.mono (h : Anchored cs limit t) {limit' : Nat} (hle : limit ≤ limit') :
    Anchored cs limit' t := by
  refine ⟨fun i row hi seen => ?_, h.apart⟩
  obtain ⟨k, c, hc, learned, own, place, before⟩ := h.own i row hi seen
  exact ⟨k, c, hc, learned, own, place, Nat.lt_of_lt_of_le before hle⟩

theorem anchored_markUnseen (cs : List Cell) (limit : Nat) (t : Table) :
    Anchored cs limit t.markUnseen := by
  have unseen : ∀ {i row}, t.markUnseen.row? i = some row → row.seen = false := by
    intro i row hi
    rw [Table.row?_markUnseen] at hi
    obtain ⟨row', -, rfl⟩ := Option.map_eq_some_iff.1 hi
    rfl
  constructor
  · intro i row hi seen
    rw [unseen hi] at seen
    cases seen
  · intro i j row row' hi _ seen
    rw [unseen hi] at seen
    cases seen

/-- The end of a row does not touch what was seen. -/
theorem Anchored.ended (h : Anchored cs limit t) (header : Header) :
    Anchored cs limit (t.ended header) := by
  have same : ∀ {i row}, (t.ended header).row? i = some row → ∃ row', t.row? i = some row' ∧
      row'.seen = row.seen ∧ row'.identity = row.identity ∧ row'.clause = row.clause := by
    intro i row hi
    rw [Table.row?_ended] at hi
    split at hi
    · obtain ⟨row', hi', rfl⟩ := Option.map_eq_some_iff.1 hi
      exact ⟨row', hi', rfl, rfl, rfl⟩
    · exact ⟨row, hi, rfl, rfl, rfl⟩
  constructor
  · intro i row hi seen
    obtain ⟨row', hi', seen_eq, identity_eq, clause_eq⟩ := same hi
    rw [← identity_eq, ← clause_eq]
    exact h.own i row' hi' (seen_eq.trans seen)
  · intro i j row₁ row₂ hi hj seen₁ seen₂ clause_eq
    obtain ⟨row₁', hi', seen_eq₁, -, clause_eq₁⟩ := same hi
    obtain ⟨row₂', hj', seen_eq₂, -, clause_eq₂⟩ := same hj
    exact h.apart i j row₁' row₂' hi' hj' (seen_eq₁.trans seen₁) (seen_eq₂.trans seen₂)
      (by rw [clause_eq₁, clause_eq₂, clause_eq])

/-- The row of the next cell is seen beside the others. -/
theorem Anchored.touched {c : Cell} {i : Nat} (h : Anchored cs k t) (hk : k < 4294967296)
    (hc : At 0 cs k c) (learned : c.Learned)
    (others : ∀ j row, j ≠ i → t'.row? j = some row → t.row? j = some row)
    (here : ∀ row, t'.row? i = some row →
      row.identity = c.header.identity ∧ row.clause = .ofOffset k) :
    Anchored cs (k + c.extent) t' := by
  have extent_pos := c.extent_pos
  have ne_place : ∀ {j row}, t.row? j = some row → row.seen = true → row.clause ≠ .ofOffset k := by
    intro j row hj seen clause_eq
    obtain ⟨k', c', hc', -, -, place, before⟩ := h.own j row hj seen
    have := congrArg Reference.offset (place.symm.trans clause_eq)
    rw [toNat_ofOffset (by omega), toNat_ofOffset hk] at this
    omega
  constructor
  · intro j row hj seen
    by_cases hji : j = i
    · rw [hji] at hj
      obtain ⟨identity_eq, clause_eq⟩ := here row hj
      exact ⟨k, c, hc, learned, identity_eq.symm, clause_eq, by omega⟩
    · obtain ⟨k', c', hc', learned', own, place, before⟩ := h.own j row (others j row hji hj) seen
      exact ⟨k', c', hc', learned', own, place, by omega⟩
  · intro j j' row row' hj hj' seen seen' clause_eq
    by_cases hji : j = i
    · by_cases hji' : j' = i
      · rw [hji, hji']
      · rw [hji] at hj
        exact absurd (clause_eq.symm.trans (here row hj).2) (ne_place (others j' row' hji' hj') seen')
    · by_cases hji' : j' = i
      · rw [hji'] at hj'
        exact absurd (clause_eq.trans (here row' hj').2) (ne_place (others j row hji hj) seen)
      · exact h.apart j j' row row' (others j row hji hj) (others j' row' hji' hj') seen seen' clause_eq

theorem Step.anchored {c : Cell} {h : Header} (step : Step p k c.header t progress r h t')
    (anchored : Anchored cs k t) (hk : k < 4294967296) (hc : At 0 cs k c) :
    Anchored cs (k + c.extent) t' := by
  cases step with
  | irredundant => exact (anchored.ended _).mono (Nat.le_add_right ..)
  | early => exact anchored.mono (Nat.le_add_right ..)
  | garbage => exact (anchored.ended _).mono (Nat.le_add_right ..)
  | untracked => exact anchored.mono (Nat.le_add_right ..)
  | @linked i row redundant counts live link found own =>
    refine anchored.touched (i := i) hk hc ⟨live, redundant⟩ (fun j row hji hj => ?_) fun row' hi => ?_
    · rwa [Table.row?_revise, if_neg (Ne.symm hji)] at hj
    · rw [Table.row?_revise, if_pos rfl, found] at hi
      cases hi
      exact ⟨by simpa using own, by simp⟩
  | fresh redundant counts live unlinked =>
    refine anchored.touched (i := t.size) hk hc ⟨live, redundant⟩ (fun j row hji hj => ?_)
      fun row' hi => ?_
    · rwa [Table.row?_revise, if_neg (Ne.symm hji), Table.row?_push, if_neg hji] at hj
    · rw [Table.row?_revise, if_pos rfl, Table.row?_push, if_pos rfl] at hi
      cases hi
      exact ⟨by simp [Row.fresh], by simp⟩
  | missing => exact anchored.mono (Nat.le_add_right ..)
  | mismatch => exact anchored.mono (Nat.le_add_right ..)

/-- Behind a pass the rows that were seen are anchored, also if it fails. -/
theorem Pass.anchored {whole done : List Cell} (pass : Pass p k cs t progress r zs t')
    (split : whole = done ++ cs) (hk : k = extents done) (fits : extents whole < 4294967296)
    (anchored : Anchored whole k t) : Anchored whole (extents whole) t' := by
  induction pass generalizing done with
  | @nil k t progress => exact anchored.mono (Nat.le_of_eq (by rw [hk, split, List.append_nil]))
  | @failed k c cs t t' progress e h step =>
    have at_c : At 0 whole k c := ⟨done, cs, split, by omega⟩
    have := at_c.bounds
    have := c.extent_pos
    exact (step.anchored anchored (by omega) at_c).mono (by omega)
  | @cons k c cs zs t t₁ t' progress progress₁ r h step rest ih =>
    have at_c : At 0 whole k c := ⟨done, cs, split, by omega⟩
    have := at_c.bounds
    have := c.extent_pos
    refine @ih (done ++ [c]) (by simpa using split) ?_
      (step.anchored anchored (by omega) at_c)
    rw [extents_append, extents_cons, extents_nil, hk]
    omega

end ScanPlan

end ClauseStore
