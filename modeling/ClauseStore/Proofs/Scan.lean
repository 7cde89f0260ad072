import ClauseStore.Proofs.Revision
import ClauseStore.Reduction.Scan

/-!
The scan on a row of cells. What a scan does to a record is a function of its header, its place, the
table and the progress made so far, so a scan is a pass over the cells that carries the table along
and revises one header after the other. The pass is the scan up to the log, errors included.
-/

namespace ClauseStore

open Cell

/-- A cell with another header. -/
def Cell.withHeader (h : Header) (c : Cell) : Cell := c.revised fun _ => h

namespace ScanPlan

/-- The row of a clause after its use is folded in. -/
def touch (p : ScanPlan) (k : Nat) (h : Header) (row : Row) : Row :=
  { row with clause := Reference.ofOffset k }.update ⟨h.props, h.uips, h.touched⟩ p.conflicts
    p.lastReduction

/-- The index of the row of a clause, made and linked if the header at a place has none. -/
def link (p : ScanPlan) (k : Nat) (h : Header) (t : Table) : Nat × Header × Table :=
  match h.row? with
  | some index => (index, h, t)
  | none => (t.size, h.withRow (some t.size),
      t.push (Row.fresh h.identity (.ofOffset k) p.conflicts))

/-- Folds the use of the clause with a header at a place into its row. -/
def account (p : ScanPlan) (k : Nat) (h : Header) (t : Table) :
    Except Error Unit × Header × Table :=
  let linked := p.link k h t
  match linked.2.2.row? linked.1 with
  | none => (.error (.table .missingRow), linked.2)
  | some row =>
    if row.identity = h.identity then
      (.ok (), linked.2.1, linked.2.2.revise linked.1 (p.touch k linked.2.1))
    else (.error (.table .identityMismatch), linked.2)

/-- Accounts for a live redundant clause where rows are kept. -/
def accountIf (p : ScanPlan) (k : Nat) (h : Header) (t : Table) :
    Except Error Unit × Header × Table :=
  if p.collecting then p.account k h t else (.ok (), h, t)

/-- What becomes of the header of a live redundant clause, and whether it is a candidate. -/
def weigh (p : ScanPlan) (h : Header) : Header × Bool :=
  let considered := if h.flags.reason then (h, false) else p.consider h
  (considered.1.resetUsage, considered.2)

/-- Scans the record with a header at a place. -/
def scanCell (plan : ScanPlan) (k : Nat) (h : Header) (t : Table) (p : ScanProgress) :
    Except Error ScanProgress × Header × Table :=
  if h.flags.redundant then
    if p.first.isValid || plan.opens h then
      let p := p.opened (.ofOffset k)
      if h.flags.garbage then (.ok p, h, t.ended h)
      else
        match plan.accountIf k h t with
        | (.error e, h', t') => (.error e, h', t')
        | (.ok (), h', t') =>
          (.ok (if (plan.weigh h').2 then p.push (.ofHeader (.ofOffset k) h) else p),
            (plan.weigh h').1, t')
    else (.ok p, h, t)
  else (.ok p, h.withRow none, t.ended h)

/-- Scans the cells of a row, the first of which starts at a place. -/
def scanCells (plan : ScanPlan) :
    Nat → List Cell → Table → ScanProgress → Except Error ScanProgress × List Cell × Table
  | _, [], t, p => (.ok p, [], t)
  | k, c :: cs, t, p =>
    match plan.scanCell k c.header t p with
    | (.error e, h, t) => (.error e, c.withHeader h :: cs, t)
    | (.ok p, h, t) =>
      let rest := scanCells plan (k + c.extent) cs t p
      (rest.1, c.withHeader h :: rest.2.1, rest.2.2)

end ScanPlan

namespace Arena

theorem header_ofCells (xs : List Cell) (c : Cell) (ys : List Cell) :
    (ofCells (xs ++ c :: ys)).header (extents xs) = c.header := by
  rw [← length_flatMap_words]
  exact header_of_toList (toList_ofCells_append xs c ys)

theorem revise_ofCells_append (xs : List Cell) (c : Cell) (ys : List Cell) (f : Header → Header) :
    (ofCells (xs ++ c :: ys)).revise (extents xs) f =
      ofCells (xs ++ c.withHeader (f c.header) :: ys) := by
  have at_c : At 0 (xs ++ c :: ys) (extents xs) c := ⟨xs, ys, rfl, (Nat.zero_add _).symm⟩
  rw [revise_ofCells at_c, mapAt_only]
  rfl

end Arena

namespace Database

/-- A database with other cells and another table. -/
def placed (cs : List Cell) (t : Table) (db : Database) : Database :=
  { db with arena := .ofCells cs, table := t }

variable {db : Database} {xs ys : List Cell} {c : Cell} {t : Table}

@[simp] theorem arena_placed (cs : List Cell) (t : Table) (db : Database) :
    (db.placed cs t).arena = .ofCells cs := rfl

@[simp] theorem table_placed (cs : List Cell) (t : Table) (db : Database) :
    (db.placed cs t).table = t := rfl

/-- The header of a cell of a row is set. -/
theorem yields_setHeader (f : Header → Header) :
    Yields (reviseHeader (extents xs) f) (db.placed (xs ++ c :: ys) t) (.ok ())
      (db.placed (xs ++ c.withHeader (f c.header) :: ys) t) := by
  have step : Yields _ (db.placed (xs ++ c :: ys) t) _ _ := yields_reviseHeader (extents xs) f
  rw [arena_placed, Arena.revise_ofCells_append] at step
  exact step

theorem yields_rowFor (plan : ScanPlan) :
    Yields (rowFor (extents xs) plan.conflicts) (db.placed (xs ++ c :: ys) t)
      (.ok (plan.link (extents xs) c.header t).1)
      (db.placed (xs ++ c.withHeader (plan.link (extents xs) c.header t).2.1 :: ys)
        (plan.link (extents xs) c.header t).2.2) := by
  refine Yields.get_bind (fun _ => rfl) ?_
  simp only [arena_placed, table_placed, Arena.header_ofCells, ScanPlan.link]
  cases c.header.row? with
  | some index => exact yields_pure index _
  | none =>
    dsimp only
    refine Yields.bind (yields_modify fun _ => rfl) ?_
    have linked : Yields _ (db.placed (xs ++ c :: ys) (t.push
        (Row.fresh c.header.identity (.ofOffset (extents xs)) plan.conflicts))) _ _ :=
      yields_setHeader (Header.withRow (some t.size))
    exact linked.bind ((yields_log _).bind (yields_pure _ _))

theorem yields_updateRow (plan : ScanPlan) :
    Yields (updateRow plan (extents xs)) (db.placed (xs ++ c :: ys) t)
      (plan.account (extents xs) c.header t).1
      (db.placed (xs ++ c.withHeader (plan.account (extents xs) c.header t).2.1 :: ys)
        (plan.account (extents xs) c.header t).2.2) := by
  have identity_eq : (plan.link (extents xs) c.header t).2.1.identity = c.header.identity := by
    rw [ScanPlan.link]
    cases c.header.row? <;> rfl
  have header_eq : ∀ h, (c.withHeader h).header = h := fun _ => rfl
  refine (yields_rowFor plan).bind (Yields.get_bind (fun _ => rfl) ?_)
  simp only [arena_placed, table_placed, Arena.header_ofCells, header_eq, identity_eq,
    ScanPlan.account]
  generalize plan.link (extents xs) c.header t = linked
  cases linked.2.2.row? linked.1 with
  | none => exact yields_throw _ _
  | some row =>
    dsimp only
    by_cases own : row.identity = c.header.identity
    · rw [if_pos own, own, bne_self_eq_false]
      exact (yields_refuseIf false _ _).bind (yields_modify fun _ => rfl)
    · have other : (row.identity != c.header.identity) = true := by simpa using own
      rw [if_neg own, other]
      exact (yields_refuseIf true _ _).bind_error

theorem yields_unlinkRow :
    Yields (unlinkRow (extents xs)) (db.placed (xs ++ c :: ys) t) (.ok ())
      (db.placed (xs ++ c.withHeader (c.header.withRow none) :: ys) (t.ended c.header)) := by
  refine Yields.get_bind (fun _ => rfl) ?_
  simp only [arena_placed, Arena.header_ofCells]
  have ended : Yields _ (db.placed (xs ++ c :: ys) t) _ _ := yields_endRow c.header
  exact ended.bind (yields_setHeader (t := t.ended c.header) _)

theorem yields_accountIf (plan : ScanPlan) :
    Yields (if plan.collecting then updateRow plan (extents xs) else pure ())
      (db.placed (xs ++ c :: ys) t) (plan.accountIf (extents xs) c.header t).1
      (db.placed (xs ++ c.withHeader (plan.accountIf (extents xs) c.header t).2.1 :: ys)
        (plan.accountIf (extents xs) c.header t).2.2) := by
  rw [ScanPlan.accountIf]
  split
  · exact yields_updateRow plan
  · exact yields_pure () _

/-- A live redundant clause that could be accounted for is weighed. -/
theorem yields_scanLive (plan : ScanPlan) {h : Header} {t' : Table}
    (accounted : plan.accountIf (extents xs) c.header t = (.ok (), h, t')) :
    Yields (scanLive plan (extents xs)) (db.placed (xs ++ c :: ys) t) (.ok (plan.weigh h).2)
      (db.placed (xs ++ c.withHeader (plan.weigh h).1 :: ys) t') := by
  have first : Yields _ (db.placed (xs ++ c :: ys) t) _ _ := yields_accountIf plan
  rw [accounted] at first
  refine first.bind (Yields.get_bind (fun _ => rfl) ?_)
  simp only [arena_placed, Arena.header_ofCells]
  have set_eq : Yields _ (db.placed (xs ++ c.withHeader h :: ys) t') _ _ :=
    yields_setHeader fun _ => (plan.weigh h).1
  exact set_eq.bind (yields_pure _ _)

/-- A clause that could not be accounted for ends the scan. -/
theorem yields_scanLive_error (plan : ScanPlan) {e : Error} {h : Header} {t' : Table}
    (accounted : plan.accountIf (extents xs) c.header t = (.error e, h, t')) :
    Yields (scanLive plan (extents xs)) (db.placed (xs ++ c :: ys) t) (.error e)
      (db.placed (xs ++ c.withHeader h :: ys) t') := by
  have first : Yields _ (db.placed (xs ++ c :: ys) t) _ _ := yields_accountIf plan
  rw [accounted] at first
  exact first.bind_error

theorem yields_scanRecord (plan : ScanPlan) (p : ScanProgress) :
    Yields (scanRecord plan p (extents xs)) (db.placed (xs ++ c :: ys) t)
      (plan.scanCell (extents xs) c.header t p).1
      (db.placed (xs ++ c.withHeader (plan.scanCell (extents xs) c.header t p).2.1 :: ys)
        (plan.scanCell (extents xs) c.header t p).2.2) := by
  refine Yields.get_bind (fun _ => rfl) ?_
  simp only [arena_placed, Arena.header_ofCells, ScanPlan.scanCell]
  by_cases redundant : c.header.flags.redundant = true
  · rw [if_pos redundant, if_pos redundant]
    by_cases counts : (p.first.isValid || plan.opens c.header) = true
    · rw [if_pos counts, if_pos counts, scanRedundant]
      by_cases garbage : c.header.flags.garbage = true
      · rw [if_pos garbage, if_pos garbage]
        have ended : Yields _ (db.placed (xs ++ c :: ys) t) _ _ := yields_endRow c.header
        exact ended.bind (yields_pure _ _)
      · rw [if_neg garbage, if_neg garbage]
        rcases accounted : plan.accountIf (extents xs) c.header t with ⟨e | ⟨⟩, h, t'⟩
        · exact (yields_scanLive_error plan accounted).bind_error
        · exact (yields_scanLive plan accounted).bind (yields_pure _ _)
    · rw [if_neg counts, if_neg counts]
      exact yields_pure p _
  · rw [if_neg redundant, if_neg redundant]
    exact yields_unlinkRow.bind (yields_pure p _)

/-- The pass over the cells is the pass over the records. -/
theorem yields_scanCells (plan : ScanPlan) (p : ScanProgress) :
    Yields ((offsets (extents xs) ys).foldlM (scanRecord plan) p) (db.placed (xs ++ ys) t)
      (plan.scanCells (extents xs) ys t p).1
      (db.placed (xs ++ (plan.scanCells (extents xs) ys t p).2.1)
        (plan.scanCells (extents xs) ys t p).2.2) := by
  induction ys generalizing xs t p with
  | nil => exact yields_pure p _
  | cons c cs ih =>
    have step : Yields _ (db.placed (xs ++ c :: cs) t) _ _ := yields_scanRecord plan p
    rw [offsets_cons, List.foldlM_cons, ScanPlan.scanCells]
    rcases scanned : plan.scanCell (extents xs) c.header t p with ⟨e | p', h, t'⟩
    · rw [scanned] at step
      exact step.bind_error
    · rw [scanned] at step
      have rest := @ih (xs ++ [c.withHeader h]) t' p'
      simp only [List.append_assoc, List.singleton_append] at rest
      have next : extents (xs ++ [c.withHeader h]) = extents xs + c.extent := by
        simp [Cell.withHeader]
      rw [next] at rest
      exact step.bind rest

/-- The table as a scan finds it. -/
def tableFor (plan : ScanPlan) (t : Table) : Table := if plan.collecting then t.markUnseen else t

/-- What a scan comes to, from what the pass over the cells behind the start comes to. -/
def scanned (xs : List Cell) (pass : Except Error ScanProgress × List Cell × Table)
    (db : Database) : Except Error (List Candidate) × Database :=
  let reached := db.placed (xs ++ pass.2.1) pass.2.2
  match pass.1 with
  | .ok p => (.ok p.candidates.toList, { reached with firstReducible := p.first })
  | .error e => (.error e, reached)

/-- A scan from a boundary between cells is the pass over the cells behind it. -/
theorem yields_scan (plan : ScanPlan) {r : Reference} (h : db.arena.Tiled (xs ++ ys))
    (hr : r.offset = extents xs) {pass : Except Error ScanProgress × List Cell × Table}
    (hpass : plan.scanCells (extents xs) ys (tableFor plan db.table) {} = pass) :
    Yields (scan plan r) db (db.scanned xs pass).1 (db.scanned xs pass).2 := by
  have walk_eq := h.walkFrom_eq xs
  have body : Yields _ (db.placed (xs ++ ys) (tableFor plan db.table)) _ _ :=
    yields_scanCells plan {}
  have ready_eq : (if plan.collecting then { db with table := db.table.markUnseen } else db) =
      db.placed (xs ++ ys) (tableFor plan db.table) := by
    rw [placed, tableFor, ← h.eq]
    split <;> rfl
  have ready : Yields (modify fun db => if plan.collecting then { db with table := db.table.markUnseen }
      else db : Action PUnit) db (.ok ⟨⟩) (db.placed (xs ++ ys) (tableFor plan db.table)) := by
    rw [← ready_eq]
    refine yields_modify fun ms => ?_
    dsimp only [Logged.withMessages]
    split <;> rfl
  rw [h.eq] at walk_eq
  refine ready.bind (Yields.get_bind (fun _ => rfl) ?_)
  dsimp only [arena_placed]
  rw [hr, walk_eq]
  rw [hpass] at body
  obtain ⟨_ | p, zs, t⟩ := pass
  · exact body.bind_error
  · refine body.bind ((yields_refuseIf false _ _).bind ?_)
    have revised : Yields (reviseFirst p.first) (db.placed (xs ++ zs) t) (.ok ())
        { db.placed (xs ++ zs) t with firstReducible := p.first } :=
      Yields.get_bind (fun _ => rfl) ((yields_logIf _ _).bind (yields_modify fun _ => rfl))
    exact revised.bind ((yields_logIf _ _).bind (yields_pure _ _))

end Database

end ClauseStore
