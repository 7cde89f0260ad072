import ClauseStore.Proofs.Caching
import ClauseStore.Proofs.Linkage

/-!
What a scan does, record by record. A pass over the cells splits at each of them, so what becomes of a
record is what one step makes of it: where it stands behind the first record that counts is known from
the headers alone, and a row that was seen or ended stays so to the end of the pass. So the first
reference, the candidates and the header of every record behind a scan can be read off the arena before
it, and all else stays as it was.
-/

namespace ClauseStore

open Cell Database

/-! ### What is read off the headers -/

namespace ScanPlan

/-- Whether a record can be the first that counts. -/
def sights (p : ScanPlan) (h : Header) : Bool := h.flags.redundant && p.opens h

/-- Whether the clause of a record is a candidate, if it counts. -/
def elects (p : ScanPlan) (h : Header) : Bool :=
  !h.flags.garbage && (h.flags.redundant && (p.weigh h).2)

end ScanPlan

/-- The first record from a reference on that counts. -/
def Database.firstSight (db : Database) (plan : ScanPlan) (start : Reference) : Reference :=
  ((db.arena.walkFrom start.offset).1.find? fun o => plan.sights (db.arena.header o)).elim .invalid
    .ofOffset

/-- The clause at an offset has a row that the scan has seen, and is linked to it. -/
def Database.Rowed (db : Database) (o : Nat) : Prop :=
  ∃ i row, db.table.row? i = some row ∧ (db.arena.header o).link = UInt32.ofNat i ∧
    row.identity = (db.arena.header o).identity ∧ row.clause = .ofOffset o ∧ row.seen = true

/-- What a scan makes of the header of a live redundant record that counts. -/
structure Header.Weighed (h h' : Header) : Prop where
  props_eq : h'.props = 0
  uips_eq : h'.uips = 0
  /-- grace is kept, or one is taken from it where there is some and the clause is no reason -/
  grace_eq : h'.grace = h.grace ∨ h'.grace.toNat + 1 = h.grace.toNat ∧ h.flags.reason = false

/-- What a scan from a start on leaves of a database. -/
structure Database.Traversed (plan : ScanPlan) (start : Reference) (db db' : Database) : Prop where
  walk_eq : db'.arena.walkFrom 0 = db.arena.walkFrom 0
  size_eq : db'.arena.size = db.arena.size
  first_eq : db'.firstReducible = db.firstSight plan start
  weighed : ∀ o ∈ (db.arena.walkFrom start.offset).1, (db.firstSight plan start).offset ≤ o →
    (db.arena.header o).flags.redundant = true → (db.arena.header o).flags.garbage = false →
    (db.arena.header o).Weighed (db'.arena.header o) ∧ (plan.collecting = true → db'.Rowed o)
  unlinked : ∀ o ∈ (db.arena.walkFrom start.offset).1, (db.arena.header o).flags.redundant = false →
    db'.arena.header o = (db.arena.header o).withRow none ∧
      ∀ i, (db.arena.header o).row? = some i → i < db.table.size →
        ∃ row, db'.table.row? i = some row ∧ row.garbage = true
  /-- nothing of a record is revised but grace, link and the counts of use -/
  lasting : ∀ o ∈ (db.arena.walkFrom 0).1,
    (db'.arena.header o).lasting = (db.arena.header o).lasting ∧
      db'.arena.literals o = db.arena.literals o ∧
        ∀ i, Header.wordCount ≤ i → i < db.arena.span o →
          db'.arena.word (o + i) = db.arena.word (o + i)
  /-- redundant records that are garbage, or stand before the first, keep all their words -/
  spared : ∀ o ∈ (db.arena.walkFrom 0).1, (db.arena.header o).flags.redundant = true →
    ((db.arena.header o).flags.garbage = true ∨ o < (db.firstSight plan start).offset) →
    ∀ i, i < db.arena.span o → db'.arena.word (o + i) = db.arena.word (o + i)
  words_before : ∀ i, i < start.offset → db'.arena.word i = db.arena.word i
  /-- counts, occurrences, watch lists and all else beside the records stay -/
  frame : { db' with
    arena := db.arena, table := db.table, firstReducible := db.firstReducible, messages := db.messages } = db

/-! ### Steps -/

namespace ScanPlan

variable {p : ScanPlan} {k j : Nat} {h h' : Header} {t t' : Table} {progress progress' : ScanProgress}
  {c : Cell} {cs zs : List Cell}

@[simp] theorem first_advance (p : ScanPlan) (k : Nat) (h w : Header) (progress : ScanProgress) :
    (p.advance k h w progress).first = (progress.opened (.ofOffset k)).first := by
  rw [advance]
  split <;> rfl

/-- One is taken from grace where there is some. -/
theorem toNat_grace_spent (h : Header) : h.spent.grace.toNat = h.grace.toNat - 1 := by
  rw [Header.spent]
  split
  next none =>
    rw [none]
    rfl
  next some =>
    have : h.grace.toNat ≠ 0 := fun none => some (BitVec.eq_of_toNat_eq none)
    have := h.grace.isLt
    rw [BitVec.toNat_sub]
    simp
    omega

theorem weighed_weigh (p : ScanPlan) (h : Header) : h.Weighed (p.weigh h).1 := by
  have spent : h.spent.grace = h.grace ∨ h.spent.grace.toNat + 1 = h.grace.toNat := by
    have := toNat_grace_spent h
    by_cases none : h.grace = 0
    · exact .inl (by rw [Header.spent, if_pos none])
    · have : h.grace.toNat ≠ 0 := fun zero => none (BitVec.eq_of_toNat_eq zero)
      omega
  refine ⟨rfl, rfl, ?_⟩
  simp only [weigh, consider, Header.resetUsage]
  split
  · exact .inl rfl
  next free =>
    have free : h.flags.reason = false := by simpa using free
    split
    · exact spent.imp id fun less => ⟨less, free⟩
    · split
      · exact .inl rfl
      · exact spent.imp id fun less => ⟨less, free⟩

theorem weighed_of_withRow {w : Header} {row : Option Nat} (weighed : (h.withRow row).Weighed w) :
    h.Weighed w := ⟨weighed.props_eq, weighed.uips_eq, weighed.grace_eq⟩

/-- A step notes its place as the first, if its record is the first that counts. -/
theorem Step.first_eq (step : Step p k h t progress (.ok progress') h' t') :
    progress'.first = if progress.first.isValid then progress.first
      else if p.sights h then .ofOffset k else progress.first := by
  have opened : p.counts progress h = true → h.flags.redundant = true →
      (progress.opened (.ofOffset k)).first = if progress.first.isValid then progress.first
        else if p.sights h then .ofOffset k else progress.first := by
    intro counts redundant
    rw [ScanProgress.opened]
    by_cases valid : progress.first.isValid = true
    · rw [if_pos valid, if_pos valid]
    · have opens := (Bool.or_eq_true _ _ ▸ counts).resolve_left valid
      rw [if_neg valid, if_neg valid, if_pos (by simp [sights, redundant, opens])]
  cases step with
  | irredundant irredundant => simp [sights, irredundant]
  | early redundant early =>
    simp only [ScanPlan.counts, Bool.or_eq_false_iff] at early
    simp [sights, early]
  | garbage redundant counts => exact opened counts redundant
  | untracked redundant counts => exact (first_advance ..).trans (opened counts redundant)
  | linked redundant counts => exact (first_advance ..).trans (opened counts redundant)
  | fresh redundant counts => exact (first_advance ..).trans (opened counts redundant)

/-- A step adds the clause of its record to the candidates, if it counts and is elected. -/
theorem Step.candidates_eq (step : Step p k h t progress (.ok progress') h' t')
    (opening : p.elects h = true → p.opens h = true) :
    progress'.candidates.toList = progress.candidates.toList ++
      if p.elects h then [.ofHeader (.ofOffset k) h] else [] := by
  have opened : (progress.opened (.ofOffset k)).candidates = progress.candidates := by
    rw [ScanProgress.opened]
    split <;> rfl
  have advanced : ∀ w : Header, h.flags.redundant = true → h.flags.garbage = false →
      (p.weigh w).2 = (p.weigh h).2 → (p.advance k h w progress).candidates.toList =
        progress.candidates.toList ++ if p.elects h then [.ofHeader (.ofOffset k) h] else [] := by
    intro w redundant live same
    have elects : p.elects h = (p.weigh h).2 := by simp [ScanPlan.elects, redundant, live]
    rw [advance, elects, same]
    split
    · simp [ScanProgress.push, opened]
    · simp [opened]
  cases step with
  | irredundant irredundant => simp [elects, irredundant]
  | early redundant early =>
    simp only [ScanPlan.counts, Bool.or_eq_false_iff] at early
    have passed : ¬ p.elects h = true := fun elected => by simp [opening elected] at early
    rw [if_neg passed, List.append_nil]
  | garbage redundant counts garbage => simp [elects, garbage, opened]
  | untracked redundant counts live => exact advanced h redundant live rfl
  | linked redundant counts live => exact advanced h redundant live rfl
  | fresh redundant counts live => exact advanced _ redundant live (weigh_withRow ..)

/-- A step leaves the rows of other clauses, and no row that has ended comes back. -/
theorem Step.exists_row {r : Except Error ScanProgress} (step : Step p k h t progress r h' t') {i : Nat}
    {row : Row} (found : t.row? i = some row) : ∃ row', t'.row? i = some row' ∧
      row'.identity = row.identity ∧ (row.garbage = true → row'.garbage = true) ∧
      (row.identity ≠ h.identity → row'.clause = row.clause ∧ row'.seen = row.seen) := by
  have same : ∃ row', t.row? i = some row' ∧ row'.identity = row.identity ∧
      (row.garbage = true → row'.garbage = true) ∧
      (row.identity ≠ h.identity → row'.clause = row.clause ∧ row'.seen = row.seen) :=
    ⟨row, found, rfl, id, fun _ => ⟨rfl, rfl⟩⟩
  have ended : ∃ row', (t.ended h).row? i = some row' ∧ row'.identity = row.identity ∧
      (row.garbage = true → row'.garbage = true) ∧
      (row.identity ≠ h.identity → row'.clause = row.clause ∧ row'.seen = row.seen) := by
    rw [Table.row?_ended, found]
    split
    · exact ⟨_, rfl, rfl, fun _ => rfl, fun _ => ⟨rfl, rfl⟩⟩
    · exact ⟨_, rfl, rfl, id, fun _ => ⟨rfl, rfl⟩⟩
  cases step with
  | irredundant => exact ended
  | early => exact same
  | garbage => exact ended
  | untracked => exact same
  | @linked i' row' redundant counts live link found' own =>
    rw [Table.row?_revise]
    split
    next here =>
      subst here
      cases found.symm.trans found'
      rw [found]
      refine ⟨_, rfl, by simp, fun garbage => by simpa using garbage, fun other => absurd own other⟩
    next => exact same
  | fresh redundant counts live unlinked =>
    have before := Table.lt_size_of_row? found
    rw [Table.row?_revise, if_neg (by omega), Table.row?_push, if_neg (by omega)]
    exact same
  | missing => exact same
  | mismatch => exact same

/-- A row that can be read off a link is the one that the link names. -/
theorem link_eq_of_row? {i : Nat} (link : h.row? = some i) : h.link = UInt32.ofNat i := by
  apply UInt32.toNat_inj.1
  have := h.link.toNat_lt
  rw [UInt32.toNat_ofNat']
  rw [Header.row?] at link
  split at link
  · cases link
  · split at link <;> cases link <;> omega

/-- A step that counts a live redundant clause, for which rows are kept, leaves it with its row. -/
theorem Step.exists_own (step : Step p k h t progress (.ok progress') h' t')
    (tracked : p.collecting = true) (redundant : h.flags.redundant = true)
    (live : h.flags.garbage = false) (counts : p.counts progress h = true) :
    ∃ i row, t'.row? i = some row ∧ h'.link = UInt32.ofNat i ∧ row.identity = h.identity ∧
      row.clause = .ofOffset k ∧ row.seen = true := by
  cases step with
  | irredundant irredundant => rw [redundant] at irredundant; cases irredundant
  | early _ early => rw [counts] at early; cases early
  | garbage _ _ garbage => rw [live] at garbage; cases garbage
  | untracked _ _ _ untracked => rw [tracked] at untracked; cases untracked
  | @linked i row _ _ _ link found own =>
    refine ⟨i, p.touch k h row, ?_, (link_weigh ..).trans (link_eq_of_row? link), ?_, ?_, ?_⟩
    · rw [Table.row?_revise, if_pos rfl, found]
      rfl
    · simpa using own
    · simp
    · simp
  | fresh _ _ _ unlinked =>
    refine ⟨t.size, p.touch k (h.withRow (some t.size)) (Row.fresh h.identity (.ofOffset k) p.conflicts),
      ?_, link_weigh .., ?_, ?_, ?_⟩
    · rw [Table.row?_revise, if_pos rfl, Table.row?_push, if_pos rfl]
      rfl
    · simp [Row.fresh]
    · simp
    · simp

/-! ### Passes -/

section Reading

variable {header : Nat → Header}

/-- The first record that counts behind a pass. -/
theorem Pass.first_eq (pass : Pass p k cs t progress (.ok progress') zs t')
    (fits : k + extents cs < 4294967295) (read : ∀ j c, At k cs j c → header j = c.header) :
    progress'.first = if progress.first.isValid then progress.first
      else ((offsets k cs).find? fun j => p.sights (header j)).elim .invalid .ofOffset := by
  generalize result_eq : Except.ok progress' = result at pass
  induction pass with
  | nil =>
    cases result_eq
    split
    · rfl
    next invalid => simpa [Reference.isValid] using invalid
  | failed => cases result_eq
  | @cons k c cs zs t t₁ t' progress progress₁ r h step rest ih =>
    rw [extents_cons] at fits
    rw [ih (by omega) (fun j d hd => read j d (at_cons.2 (.inr hd))) result_eq, step.first_eq,
      offsets_cons, List.find?_cons, read k c (at_cons.2 (.inl ⟨rfl, rfl⟩))]
    by_cases valid : progress.first.isValid = true
    · simp [valid]
    · cases sights : p.sights c.header with
      | true => simp [valid, isValid_ofOffset (show k < 4294967295 by omega)]
      | false => simp [valid]

/-- The candidates of a pass are the clauses that are elected, in the order of the row. -/
theorem Pass.candidates_eq (pass : Pass p k cs t progress (.ok progress') zs t')
    (opening : ∀ c ∈ cs, p.elects c.header = true → p.opens c.header = true)
    (read : ∀ j c, At k cs j c → header j = c.header) :
    progress'.candidates.toList = progress.candidates.toList ++
      ((offsets k cs).filter fun j => p.elects (header j)).map
        fun j => .ofHeader (.ofOffset j) (header j) := by
  generalize result_eq : Except.ok progress' = result at pass
  induction pass with
  | nil =>
    cases result_eq
    simp
  | failed => cases result_eq
  | @cons k c cs zs t t₁ t' progress progress₁ r h step rest ih =>
    rw [ih (fun d hd => opening d (by simp [hd])) (fun j d hd => read j d (at_cons.2 (.inr hd)))
      result_eq, step.candidates_eq (opening c (by simp)), offsets_cons, List.filter_cons,
      read k c (at_cons.2 (.inl ⟨rfl, rfl⟩))]
    split
    · simp [read k c (at_cons.2 (.inl ⟨rfl, rfl⟩))]
    · simp

end Reading

/-- A first record that counts stays the first. -/
theorem Pass.first_of_isValid (pass : Pass p k cs t progress (.ok progress') zs t')
    (valid : progress.first.isValid = true) : progress'.first = progress.first := by
  generalize result_eq : Except.ok progress' = result at pass
  induction pass with
  | nil =>
    cases result_eq
    rfl
  | failed => cases result_eq
  | cons step rest ih =>
    have same := step.first_eq
    rw [if_pos valid] at same
    rw [ih (by rwa [same]) result_eq, same]

/-- A redundant record counts just if it does not stand before the first one that does in the end. -/
theorem counts_iff {xs ys xs' ys' : List Cell} {t₁ t₂ : Table} {progress₁ progress₂ : ScanProgress}
    (before : Pass p k xs t {} (.ok progress₁) xs' t₁)
    (step : Step p (k + extents xs) h t₁ progress₁ (.ok progress₂) h' t₂)
    (behind : Pass p j ys t₂ progress₂ (.ok progress') ys' t') (further : k + extents xs < j)
    (fits : j + extents ys < 4294967295) (redundant : h.flags.redundant = true) :
    p.counts progress₁ h = true ↔ progress'.first.offset ≤ k + extents xs := by
  have first_eq := step.first_eq
  have here : (Reference.ofOffset (k + extents xs)).offset = k + extents xs := toNat_ofOffset (by omega)
  by_cases valid : progress₁.first.isValid = true
  · rw [if_pos valid] at first_eq
    have same : progress'.first = progress₁.first :=
      (behind.first_of_isValid (by rwa [first_eq])).trans first_eq
    obtain ⟨i, d, hd, place⟩ := before.first.resolve_left fun none => by rw [none] at valid; cases valid
    have := hd.bounds.2
    have := d.extent_pos
    rw [same, place, toNat_ofOffset (by omega)]
    exact ⟨fun _ => by omega, fun _ => by rw [ScanPlan.counts, valid, Bool.true_or]⟩
  · rw [if_neg valid] at first_eq
    rw [Bool.not_eq_true] at valid
    have counts_eq : p.counts progress₁ h = p.sights h := by
      rw [ScanPlan.counts, sights, redundant, valid, Bool.true_and, Bool.false_or]
    cases sights : p.sights h with
    | true =>
      rw [sights, if_pos rfl] at first_eq
      have same : progress'.first = .ofOffset (k + extents xs) :=
        (behind.first_of_isValid (by rw [first_eq]; exact isValid_ofOffset (by omega))).trans first_eq
      rw [same, here]
      exact ⟨fun _ => Nat.le_refl _, fun _ => counts_eq.trans sights⟩
    | false =>
      rw [sights, if_neg Bool.false_ne_true] at first_eq
      have last := offset_eq_of_not_isValid valid
      have passed : ¬ p.counts progress₁ h = true := by simp [counts_eq, sights]
      refine ⟨fun counted => absurd counted passed, fun before_here => ?_⟩
      rcases behind.first with same | ⟨i, d, hd, place⟩
      · rw [same, first_eq] at before_here
        omega
      · have := hd.bounds
        have := d.extent_pos
        rw [place, toNat_ofOffset (by omega)] at before_here
        omega

/-- The first record that counts behind a pass is none behind one that may be it. -/
theorem Pass.first_le (pass : Pass p k cs t {} (.ok progress') zs t') (fits : k + extents cs < 4294967295)
    (hc : At k cs j c) (sights : p.sights c.header = true) : progress'.first.offset ≤ j := by
  obtain ⟨xs, ys, xs', ys', t₁, t₂, progress₁, progress₂, h, rfl, rfl, -, before, step, behind⟩ :=
    pass.exists_split hc
  have extent_pos := c.extent_pos
  rw [extents_append, extents_cons] at fits
  simp only [ScanPlan.sights, Bool.and_eq_true] at sights
  refine (counts_iff before step behind (by omega) (by omega) sights.1).1 ?_
  rw [ScanPlan.counts, sights.2, Bool.or_true]

/-- Rows stay over a pass: those that have ended do not come back, and those of clauses that the pass
does not meet keep their clause. -/
theorem Pass.exists_row {r : Except Error ScanProgress} (pass : Pass p k cs t progress r zs t') {i : Nat}
    {row : Row} (found : t.row? i = some row) : ∃ row', t'.row? i = some row' ∧
      row'.identity = row.identity ∧ (row.garbage = true → row'.garbage = true) ∧
      ((∀ c ∈ cs, row.identity ≠ c.header.identity) → row'.clause = row.clause ∧ row'.seen = row.seen) := by
  induction pass generalizing row with
  | nil => exact ⟨row, found, rfl, id, fun _ => ⟨rfl, rfl⟩⟩
  | failed step =>
    obtain ⟨row', found', own, ended, apart⟩ := step.exists_row found
    exact ⟨row', found', own, ended, fun foreign => apart (foreign _ (by simp))⟩
  | cons step rest ih =>
    obtain ⟨row₁, found₁, own₁, ended₁, apart₁⟩ := step.exists_row found
    obtain ⟨row₂, found₂, own₂, ended₂, apart₂⟩ := ih found₁
    refine ⟨row₂, found₂, own₂.trans own₁, fun garbage => ended₂ (ended₁ garbage), fun foreign => ?_⟩
    have here := apart₁ (foreign _ (by simp))
    have behind := apart₂ fun d hd => own₁ ▸ foreign d (by simp [hd])
    exact ⟨behind.1.trans here.1, behind.2.trans here.2⟩

/-- A pass weighs each live redundant clause from the first on that counts, and links it to its row
where rows are kept. -/
theorem Pass.weighed (pass : Pass p k cs t {} (.ok progress') zs t') (fits : k + extents cs < 4294967295)
    (ascending : (cs.map identity).Pairwise (· < ·)) (hc : At k cs j c)
    (redundant : c.header.flags.redundant = true) (live : c.header.flags.garbage = false)
    (counted : progress'.first.offset ≤ j) :
    ∃ h, At k zs j (c.withHeader h) ∧ c.header.Weighed h ∧ (p.collecting = true →
      ∃ i row, t'.row? i = some row ∧ h.link = UInt32.ofNat i ∧ row.identity = c.header.identity ∧
        row.clause = .ofOffset j ∧ row.seen = true) := by
  obtain ⟨xs, ys, xs', ys', t₁, t₂, progress₁, progress₂, h, rfl, rfl, rfl, before, step, behind⟩ :=
    pass.exists_split hc
  have extent_pos := c.extent_pos
  rw [extents_append, extents_cons] at fits
  have counts := (counts_iff before step behind (by omega) (by omega) redundant).2 counted
  have there : At k (xs' ++ c.withHeader h :: ys') (k + extents xs) (c.withHeader h) :=
    ⟨xs', ys', rfl, by rw [extents_eq_of_map_eq before.lasting]⟩
  refine ⟨h, there, ?_, fun tracked => ?_⟩
  · cases step with
    | irredundant irredundant => rw [redundant] at irredundant; cases irredundant
    | early _ early => rw [counts] at early; cases early
    | garbage _ _ garbage => rw [live] at garbage; cases garbage
    | untracked => exact weighed_weigh p c.header
    | linked => exact weighed_weigh p c.header
    | fresh => exact weighed_of_withRow (weighed_weigh p (c.header.withRow (some t₁.size)))
  · obtain ⟨i, row, found, link, own, place, seen⟩ := step.exists_own tracked redundant live counts
    obtain ⟨row', found', own', -, apart⟩ := behind.exists_row found
    have foreign : ∀ d ∈ ys, row.identity ≠ d.header.identity := by
      intro d hd same
      rw [List.map_append, List.map_cons, List.pairwise_append, List.pairwise_cons] at ascending
      have := ascending.2.1.1 _ (List.mem_map_of_mem hd)
      simp only [identity, ← same, own] at this
      omega
    obtain ⟨clause_eq, seen_eq⟩ := apart foreign
    exact ⟨i, row', found', link, own'.trans own, clause_eq.trans place, seen_eq.trans seen⟩

/-- A pass unlinks each irredundant clause, and its row has ended behind the pass. -/
theorem Pass.unlinked (pass : Pass p k cs t progress (.ok progress') zs t') (hc : At k cs j c)
    (irredundant : c.header.flags.redundant = false) :
    At k zs j (c.withHeader (c.header.withRow none)) ∧ ∀ i, c.header.row? = some i → i < t.size →
      ∃ row, t'.row? i = some row ∧ row.garbage = true := by
  obtain ⟨xs, ys, xs', ys', t₁, t₂, progress₁, progress₂, h, rfl, rfl, rfl, before, step, behind⟩ :=
    pass.exists_split hc
  have stepped : h = c.header.withRow none ∧ t₂ = t₁.ended c.header := by
    cases step with
    | irredundant => exact ⟨rfl, rfl⟩
    | early redundant => rw [redundant] at irredundant; cases irredundant
    | garbage redundant => rw [redundant] at irredundant; cases irredundant
    | untracked redundant => rw [redundant] at irredundant; cases irredundant
    | linked redundant => rw [redundant] at irredundant; cases irredundant
    | fresh redundant => rw [redundant] at irredundant; cases irredundant
  obtain ⟨rfl, rfl⟩ := stepped
  refine ⟨⟨xs', ys', rfl, by rw [extents_eq_of_map_eq before.lasting]⟩, fun i link inside => ?_⟩
  obtain ⟨row₁, found₁, -⟩ := before.exists_row (t.row?_getElem inside)
  have ended : (t₁.ended c.header).row? i = some { row₁ with garbage := true } := by
    rw [Table.row?_ended, if_pos link, found₁]
    rfl
  obtain ⟨row₂, found₂, -, garbage, -⟩ := behind.exists_row ended
  exact ⟨row₂, found₂, garbage rfl⟩

/-- A pass leaves redundant records alone that are garbage, or stand before the first that counts. -/
theorem Pass.spared (pass : Pass p k cs t {} (.ok progress') zs t') (fits : k + extents cs < 4294967295)
    (hc : At k cs j c) (redundant : c.header.flags.redundant = true)
    (spared : c.header.flags.garbage = true ∨ j < progress'.first.offset) : At k zs j c := by
  obtain ⟨xs, ys, xs', ys', t₁, t₂, progress₁, progress₂, h, rfl, rfl, rfl, before, step, behind⟩ :=
    pass.exists_split hc
  have extent_pos := c.extent_pos
  rw [extents_append, extents_cons] at fits
  have counts := counts_iff before step behind (by omega) (by omega) redundant
  have live_early : p.counts progress₁ c.header = true → c.header.flags.garbage = false → False :=
    fun counted live => absurd (counts.1 counted) (Nat.not_le.2 (spared.resolve_left (by simp [live])))
  have same : h = c.header := by
    cases step with
    | irredundant irredundant => rw [redundant] at irredundant; cases irredundant
    | early => rfl
    | garbage => rfl
    | untracked _ counted live => exact (live_early counted live).elim
    | linked _ counted live => exact (live_early counted live).elim
    | fresh _ counted live => exact (live_early counted live).elim
  subst same
  exact ⟨xs', ys', rfl, by rw [extents_eq_of_map_eq before.lasting]⟩

end ScanPlan

/-! ### Words of cells -/

namespace Arena

variable {cs : List Cell} {c : Cell} {k i : Nat}

/-- The words of a cell are read at its place. -/
theorem word_of_at (hc : At 0 cs k c) (inside : i < c.extent) :
    (ofCells cs).word (k + i) = c.words.getD i 0 := by
  obtain ⟨xs, ys, rfl, rfl⟩ := hc
  have words_eq : (ofCells (xs ++ c :: ys)).words.toList =
      xs.flatMap Cell.words ++ (c.words ++ ys.flatMap Cell.words) := by
    rw [toList_ofCells, List.flatMap_append, List.flatMap_cons]
  rw [Nat.zero_add, ← length_flatMap_words, word_append words_eq, List.getD_eq_getElem?_getD,
    List.getD_eq_getElem?_getD, List.getElem?_append_left (by rwa [length_words])]

end Arena

namespace Database

variable {db : Database} {xs ys zs : List Cell} {plan : ScanPlan} {start : Reference}
  {p : ScanProgress} {t : Table}

/-- Where cells last, what is read behind their headers stays. -/
theorem Holds.read_of_lasting {cs ds : List Cell} (h : db.Holds cs)
    (lasting : ds.map (revised Header.lasting) = cs.map (revised Header.lasting)) {o : Nat}
    (ho : o ∈ (db.arena.walkFrom 0).1) :
    ((Arena.ofCells ds).header o).lasting = (db.arena.header o).lasting ∧
      (Arena.ofCells ds).literals o = db.arena.literals o ∧
        ∀ i, Header.wordCount ≤ i → i < db.arena.span o →
          (Arena.ofCells ds).word (o + i) = db.arena.word (o + i) := by
  have tiled := h.tiled
  have tiled' := tiled_of_lasting h.sound lasting
  obtain ⟨c, hc⟩ := tiled.mem_walk.1 ho
  obtain ⟨d, hd, same⟩ := hc.of_map_eq lasting
  obtain ⟨header_eq, literals_eq, rest_eq⟩ := revised_eq_iff.1 same
  rw [tiled'.header_eq hd, tiled.header_eq hc, tiled'.literals_eq hd, tiled.literals_eq hc, tiled.span_eq hc]
  refine ⟨header_eq, literals_eq, fun i past inside => ?_⟩
  have behind_header : ∀ (w : Header) (ws : List UInt32),
      (w.words ++ ws)[i]? = ws[i - Header.wordCount]? := fun _ _ => List.getElem?_append_right past
  rw [h.arena_eq, Arena.word_of_at hd (by rwa [extent_eq_of_revised same]), Arena.word_of_at hc inside, words,
    words, literals_eq, rest_eq, List.getD_eq_getElem?_getD, List.getD_eq_getElem?_getD, behind_header,
    behind_header]

/-- A scan that comes to its end leaves what is read off the cells behind its start. -/
theorem Holds.traversed (h : db.Holds (xs ++ ys)) (start_eq : start.offset = extents xs)
    (pass : plan.scanCells (extents xs) ys (tableFor plan db.table) {} = (.ok p, zs, t)) :
    db.Traversed plan start { db.placed (xs ++ zs) t with firstReducible := p.first } := by
  have passed := ScanPlan.pass_scanCells plan (extents xs) ys (tableFor plan db.table) {}
  rw [pass] at passed
  have fits := h.fits'
  rw [extents_append] at fits
  have ascending := h.ascending
  rw [List.map_append, List.pairwise_append] at ascending
  have lasting : (xs ++ zs).map (revised Header.lasting) = (xs ++ ys).map (revised Header.lasting) := by
    rw [List.map_append, List.map_append, passed.lasting]
  have tiled := h.tiled
  have tiled' := tiled_of_lasting h.sound lasting
  have extents_same := extents_eq_of_map_eq lasting
  have walk_behind : (db.arena.walkFrom start.offset).1 = offsets (extents xs) ys := by
    rw [start_eq, tiled.walkFrom_eq]
  have first_eq : p.first = db.firstSight plan start := by
    rw [passed.first_eq fits fun j c hc => tiled.header_eq hc.behind, firstSight, walk_behind]
    rfl
  have split : ∀ {o}, o ∈ (db.arena.walkFrom start.offset).1 → ∃ c, At (extents xs) ys o c ∧
      db.arena.header o = c.header := by
    intro o ho
    rw [walk_behind] at ho
    obtain ⟨c, hc⟩ := mem_offsets.1 ho
    exact ⟨c, hc, tiled.header_eq hc.behind⟩
  have lands : ∀ {o} {c : Cell}, At (extents xs) zs o c → (Arena.ofCells (xs ++ zs)).header o = c.header :=
    fun hc => tiled'.header_eq hc.behind
  constructor
  case walk_eq =>
    rw [arena_placed, tiled'.walkFrom_zero, tiled.walkFrom_zero, offsets_eq (extent_eq_of_map_eq lasting)]
  case size_eq => exact tiled'.size_eq.trans (extents_same.trans tiled.size_eq.symm)
  case first_eq => exact first_eq
  case weighed =>
    intro o ho behind redundant live
    obtain ⟨c, hc, header_eq⟩ := split ho
    rw [header_eq] at redundant live ⊢
    obtain ⟨w, there, weighed, rowed⟩ :=
      passed.weighed fits ascending.2.1 hc redundant live (first_eq ▸ behind)
    refine ⟨by rwa [arena_placed, lands there], fun tracked => ?_⟩
    obtain ⟨i, row, found, link, own, place, seen⟩ := rowed tracked
    have identity_eq : w.identity = c.header.identity := by
      obtain ⟨d, hd, same⟩ := hc.of_map_eq passed.lasting
      cases hd.unique there
      exact identity_eq_of_lasting same
    refine ⟨i, row, found, ?_, ?_, place, seen⟩
    · rw [arena_placed, lands there]
      exact link
    · rw [arena_placed, lands there]
      exact own.trans identity_eq.symm
  case unlinked =>
    intro o ho irredundant
    obtain ⟨c, hc, header_eq⟩ := split ho
    rw [header_eq] at irredundant ⊢
    obtain ⟨there, ended⟩ := passed.unlinked hc irredundant
    refine ⟨by rw [arena_placed, lands there]; rfl, fun i link inside => ended i link ?_⟩
    rw [tableFor]
    split
    · simpa [Table.size, Table.markUnseen] using inside
    · exact inside
  case lasting =>
    intro o ho
    exact h.read_of_lasting lasting ho
  case spared =>
    intro o ho redundant spared i inside
    obtain ⟨c, hc⟩ := tiled.mem_walk.1 ho
    rw [tiled.header_eq hc] at redundant spared
    rw [tiled.span_eq hc] at inside
    have there : At 0 (xs ++ zs) o c := by
      rcases at_append.1 hc with hc | hc
      · exact at_append.2 (.inl hc)
      · rw [Nat.zero_add] at hc
        exact (passed.spared fits hc redundant (first_eq ▸ spared)).behind
    rw [h.arena_eq, arena_placed, Arena.word_of_at there inside, Arena.word_of_at hc inside]
  case words_before =>
    intro i before
    rw [start_eq] at before
    rw [h.arena_eq, arena_placed, word_ofCells_append xs _ before, word_ofCells_append xs _ before]
  case frame => rfl

end Database

namespace Context

variable {π : Type} [Predictor π]

/-- Behind every lawful run of an empty context, a scan from a boundary between records that does not
fail revises what it is about and nothing else. -/
theorem scan_traversed (config : Config) (predictor : π) (ops : List Operation)
    (follows : (ofConfig config predictor).Follows ops) (plan : ScanPlan) (start : Reference)
    (boundary : ((ofConfig config predictor).run ops).database.Boundary start)
    (candidates : List Candidate)
    (succeeds : (outcome (Database.scan plan start)
      ((ofConfig config predictor).run ops).database).1 = .ok candidates) :
    ((ofConfig config predictor).run ops).database.Traversed plan start
      (outcome (Database.scan plan start) ((ofConfig config predictor).run ops).database).2 := by
  obtain ⟨cs, holds⟩ := exists_holds config predictor follows
  revert boundary succeeds holds
  generalize ((ofConfig config predictor).run ops) = c
  intro boundary succeeds holds
  obtain ⟨xs, ys, rfl, rfl⟩ := Operation.exists_split_of_boundary holds boundary
  obtain ⟨ms, outcome_eq⟩ := (Database.yields_scan plan holds.tiled holds.start_eq rfl).outcome_eq
  rw [outcome_eq] at succeeds ⊢
  rcases pass : plan.scanCells (extents xs) ys (tableFor plan c.database.table) {} with ⟨_ | p, zs, t⟩
  · rw [pass] at succeeds
    cases succeeds
  · have done := holds.traversed holds.start_eq pass
    exact ⟨done.walk_eq, done.size_eq, done.first_eq, done.weighed, done.unlinked, done.lasting,
      done.spared, done.words_before, done.frame⟩

/-- An irredundant clause, a kept one, and behind it a reason, a clause with grace, a garbage clause, and
one that is a candidate. -/
def mixedRun : List Operation :=
  [.create .original 0 [⟨2⟩, ⟨4⟩, ⟨6⟩], .create .redundant 1 [⟨2⟩, ⟨4⟩, ⟨7⟩],
    .create .redundant 8 [⟨2⟩, ⟨4⟩, ⟨9⟩], .create .redundant 5 [⟨2⟩, ⟨4⟩, ⟨11⟩],
    .create .redundant 7 [⟨2⟩, ⟨4⟩, ⟨13⟩], .create .redundant 9 [⟨2⟩, ⟨4⟩, ⟨15⟩, ⟨16⟩],
    .setReason (.ofOffset 24) true, .noteUsed (.ofOffset 36), .noteConflict,
    .notePropagation (.ofOffset 60), .markGarbage (.ofOffset 48)]

/-- A scan by scores passes over the kept clause, and offers the two that are neither garbage nor a
reason. -/
theorem scan_traversed_mixedRun :
    (ofConfig {} ({} : Linear)).Follows mixedRun ∧
      ((ofConfig {} ({} : Linear)).run mixedRun).database.firstSight ⟨true, false, 6, 1, 0⟩ .start =
        .ofOffset 24 ∧
      ((ofConfig {} ({} : Linear)).run mixedRun).database.Traversed ⟨true, false, 6, 1, 0⟩ .start
        (outcome (Database.scan ⟨true, false, 6, 1, 0⟩ .start)
          ((ofConfig {} ({} : Linear)).run mixedRun).database).2 := by
  have follows : (ofConfig {} ({} : Linear)).Follows mixedRun := by decide +kernel
  have boundary : ((ofConfig {} ({} : Linear)).run mixedRun).database.Boundary .start := by
    decide +kernel
  have succeeds : (outcome (Database.scan ⟨true, false, 6, 1, 0⟩ .start)
      ((ofConfig {} ({} : Linear)).run mixedRun).database).1 =
      .ok [⟨.ofOffset 36, 5, 3⟩, ⟨.ofOffset 60, 9, 4⟩] := by decide +kernel
  exact ⟨follows, by decide +kernel,
    scan_traversed ({} : Config) ({} : Linear) mixedRun follows _ .start boundary _ succeeds⟩

end Context

end ClauseStore
