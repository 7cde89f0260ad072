import ClauseStore.Proofs.Fields
import ClauseStore.Proofs.Operation

/-!
Links between clauses and rows of statistics. What a scan needs is that every live redundant clause
which was scanned before owns the row that it is linked to, and that no other clause stored since is
linked at all; then no step of a pass fails, and behind the pass every live redundant clause owns a row
that was seen. Which rows are garbage then depends on the links of the clauses that are not live or not
redundant.
-/

namespace ClauseStore

open Cell Database

/-- What a record has to do with the table of statistics. -/
structure Tie where
  identity : UInt32
  row? : Option Nat
  garbage : Bool
  redundant : Bool
  keep : Bool
  deriving DecidableEq

/-- What a header has to do with the table. -/
def Header.tie (h : Header) : Tie :=
  ⟨h.identity, h.row?, h.flags.garbage, h.flags.redundant, h.flags.keep⟩

/-- What a cell has to do with the table. -/
def Cell.tie (c : Cell) : Tie := c.header.tie

/-- The identity of a row, and whether it is garbage. -/
def Row.standing (row : Row) : UInt32 × Bool := (row.identity, row.garbage)

/-- The identities of the rows, and which of them are garbage. -/
def Table.standing (t : Table) : List (UInt32 × Bool) := t.rows.toList.map Row.standing

namespace Tie

/-- The clause is live and redundant. -/
def Learned (b : Tie) : Prop := b.garbage = false ∧ b.redundant = true

instance (b : Tie) : Decidable b.Learned := inferInstanceAs (Decidable (_ ∧ _))

/-- The clause is linked to a row of its identity. -/
def Owns (t : Table) (b : Tie) : Prop :=
  ∃ i row, b.row? = some i ∧ t.row? i = some row ∧ row.identity = b.identity

/-- The clause is linked to no row, or to its own. -/
def Sits (t : Table) (b : Tie) : Prop := b.row? = none ∨ b.Owns t

/-- A scan that meets the clause marks a row as garbage. -/
def ends (b : Tie) (i : Nat) : Bool := (b.garbage || !b.redundant) && b.row? == some i

end Tie

section Standing

variable {b : Tie} {t t' : Table}

theorem Tie.Owns.of_rows (h : b.Owns t) (rows : ∀ i row, t.row? i = some row →
    ∃ row', t'.row? i = some row' ∧ row'.identity = row.identity) : b.Owns t' := by
  obtain ⟨i, row, link, found, own⟩ := h
  obtain ⟨row', found', own'⟩ := rows i row found
  exact ⟨i, row', link, found', own'.trans own⟩

theorem Tie.Owns.of_standing (h : b.Owns t) (standing_eq : t'.standing = t.standing) : b.Owns t' :=
  h.of_rows fun _ _ found => by
    obtain ⟨row', found', same⟩ := Table.row?_of_map_eq standing_eq found
    exact ⟨row', found', congrArg Prod.fst same⟩

theorem Tie.Sits.of_standing (h : b.Sits t) (standing_eq : t'.standing = t.standing) : b.Sits t' :=
  h.imp_right fun owns => owns.of_standing standing_eq

end Standing

/-- What a pass relies on: the clauses below a mark were scanned before. -/
structure Linked (mark : Nat) (bs : List Tie) (t : Table) : Prop where
  own : ∀ b ∈ bs, b.Learned → b.identity.toNat < mark → b.Owns t
  promoted : ∀ b ∈ bs, b.redundant = false → b.Sits t
  unlinked : ∀ b ∈ bs, mark ≤ b.identity.toNat → b.row? = none

/-- A live redundant clause that is linked at all owns its row. -/
theorem Linked.owns_of_link {mark : Nat} {bs : List Tie} {t : Table} (h : Linked mark bs t) {b : Tie}
    (hb : b ∈ bs) (learned : b.Learned) {i : Nat} (link : b.row? = some i) :
    ∃ row, t.row? i = some row ∧ row.identity = b.identity := by
  have below : b.identity.toNat < mark := by
    refine Nat.lt_of_not_le fun above => ?_
    rw [h.unlinked b hb above] at link
    cases link
  obtain ⟨j, row, link', found, own⟩ := h.own b hb learned below
  rw [link] at link'
  cases link'
  exact ⟨row, found, own⟩

/-- The rows of the live redundant clauses are not garbage. -/
def Alive (bs : List Tie) (t : Table) : Prop :=
  ∀ b ∈ bs, b.Learned → ∀ i row, b.row? = some i → t.row? i = some row → row.garbage = false

theorem Alive.of_standing {bs : List Tie} {t t' : Table} (h : Alive bs t)
    (standing_eq : t'.standing = t.standing) : Alive bs t' := by
  intro b hb learned i row' link found'
  obtain ⟨row, found, same⟩ := Table.row?_of_map_eq standing_eq.symm found'
  exact (congrArg Prod.snd same).symm.trans (h b hb learned i row link found)

theorem Alive.subset {bs bs' : List Tie} {t : Table} (h : Alive bs t) (sub : bs' ⊆ bs) : Alive bs' t :=
  fun b hb => h b (sub hb)

/-- A redundant clause that is garbage is linked to the row of a live redundant one. -/
def Strayed (bs : List Tie) : Prop :=
  ∃ a ∈ bs, ∃ b ∈ bs, a.garbage = true ∧ a.redundant = true ∧ b.Learned ∧ a.row?.isSome = true ∧
    a.row? = b.row?

/-- Garbage is linked to no row, or to its own. -/
def Clean (bs : List Tie) (t : Table) : Prop := ∀ b ∈ bs, b.garbage = true → b.Sits t

theorem Clean.of_standing {bs : List Tie} {t t' : Table} (h : Clean bs t)
    (standing_eq : t'.standing = t.standing) : Clean bs t' :=
  fun b hb garbage => (h b hb garbage).of_standing standing_eq

theorem Clean.subset {bs bs' : List Tie} {t : Table} (h : Clean bs t) (sub : bs' ⊆ bs) : Clean bs' t :=
  fun b hb => h b (sub hb)

instance (bs : List Tie) : Decidable (Strayed bs) :=
  inferInstanceAs (Decidable (∃ a ∈ bs, ∃ b ∈ bs, _ ∧ _ ∧ _ ∧ _ ∧ _))

namespace Table

theorem standing_map {t : Table} {f : Row → Row} (h : ∀ row, (f row).standing = row.standing) :
    standing ⟨t.rows.map f⟩ = t.standing := by
  rw [standing, standing, Array.toList_map, List.map_map]
  exact List.map_congr_left fun row _ => h row

@[simp] theorem standing_markUnseen (t : Table) : t.markUnseen.standing = t.standing :=
  standing_map fun _ => rfl

@[simp] theorem standing_relocate (t : Table) (m : Relocation) :
    (t.relocate m).standing = t.standing :=
  standing_map fun _ => rfl

@[simp] theorem size_relocate (t : Table) (m : Relocation) : (t.relocate m).size = t.size := by
  simp [size, relocate]

end Table

/-! ### One step of a pass -/

namespace ScanPlan

variable {p : ScanPlan} {k : Nat} {h h' : Header} {t t' : Table} {progress : ScanProgress}
  {r : Except Error ScanProgress}

theorem link_weigh (p : ScanPlan) (h : Header) : (p.weigh h).1.link = h.link := by
  simp only [weigh, consider, Header.spent, Header.resetUsage]
  split
  · rfl
  · split
    · split <;> rfl
    · split
      · rfl
      · split <;> rfl

@[simp] theorem row?_weigh (p : ScanPlan) (h : Header) : (p.weigh h).1.row? = h.row? := by
  rw [Header.row?, Header.row?, link_weigh]

/-- What a step does to the rows that were there before, and to the header. -/
structure Visited (mark k : Nat) (h : Header) (t : Table) (h' : Header) (t' : Table) : Prop where
  rows : ∀ i row, t.row? i = some row → ∃ row', t'.row? i = some row' ∧ row'.identity = row.identity ∧
    row'.garbage = (row.garbage || h.tie.ends i) ∧
    (row.identity ≠ h.identity → row'.clause = row.clause ∧ row'.seen = row.seen)
  learned : h.tie.Learned → ∃ i row, (i < 2147483648 → h'.row? = some i) ∧ t'.row? i = some row ∧
    row.identity = h.identity ∧ row.clause = .ofOffset k ∧ row.seen = true ∧
    (h.row? = some i ∨ (h.row? = none ∧ mark ≤ h.identity.toNat ∧ row.garbage = false))
  other : ¬ h.tie.Learned → h'.row? = if h.flags.redundant then h.row? else none

theorem ends_of_learned {b : Tie} (learned : b.Learned) (i : Nat) : b.ends i = false := by
  rw [Tie.ends, learned.1, learned.2]
  rfl

theorem ends_of_not_learned {b : Tie} (other : ¬ b.Learned) (i : Nat) :
    b.ends i = (b.row? == some i) := by
  have retired : (b.garbage || !b.redundant) = true := by
    cases garbage : b.garbage <;> cases redundant : b.redundant <;>
      first | rfl | exact absurd ⟨garbage, redundant⟩ other
  rw [Tie.ends, retired, Bool.true_and]

/-- The end of the row of a clause that is not live or not redundant. -/
theorem rows_ended (other : ¬ h.tie.Learned) {i : Nat} {row : Row} (hi : t.row? i = some row) :
    ∃ row', (t.ended h).row? i = some row' ∧ row'.identity = row.identity ∧
      row'.garbage = (row.garbage || h.tie.ends i) ∧
      (row.identity ≠ h.identity → row'.clause = row.clause ∧ row'.seen = row.seen) := by
  have ends_eq : h.tie.ends i = decide (h.row? = some i) := by
    rw [ends_of_not_learned other, Bool.eq_iff_iff, beq_iff_eq, decide_eq_true_iff]
    rfl
  rw [Table.row?_ended, hi, ends_eq]
  by_cases here : h.row? = some i
  · rw [if_pos here]
    exact ⟨_, rfl, rfl, by simp [here], fun _ => ⟨rfl, rfl⟩⟩
  · rw [if_neg here]
    exact ⟨row, rfl, rfl, by simp [here], fun _ => ⟨rfl, rfl⟩⟩

theorem visited_ended {mark : Nat} (other : ¬ h.tie.Learned)
    (link : h'.row? = if h.flags.redundant then h.row? else none) :
    Visited mark k h t h' (t.ended h) :=
  ⟨fun _ _ found => rows_ended other found, fun learned => absurd learned other, fun _ => link⟩

theorem visited_linked {mark i : Nat} {row : Row} (learned : h.tie.Learned) (link : h.row? = some i)
    (found : t.row? i = some row) (own : row.identity = h.identity) :
    Visited mark k h t (p.weigh h).1 (t.revise i (p.touch k h)) := by
  refine ⟨fun j row' hj => ?_, fun _ => ?_, fun other => absurd learned other⟩
  · rw [ends_of_learned learned, Bool.or_false, Table.row?_revise, hj]
    by_cases here : i = j
    · rw [if_pos here]
      refine ⟨_, rfl, by simp, by simp, fun foreign => ?_⟩
      rw [here, hj] at found
      cases found
      exact absurd own foreign
    · rw [if_neg here]
      exact ⟨row', rfl, rfl, rfl, fun _ => ⟨rfl, rfl⟩⟩
  · refine ⟨i, p.touch k h row, fun _ => by rw [row?_weigh, link], ?_, by simpa using own, by simp,
      by simp, .inl link⟩
    rw [Table.row?_revise, if_pos rfl, found]
    rfl

theorem visited_fresh {mark : Nat} (above : mark ≤ h.identity.toNat) (learned : h.tie.Learned)
    (unlinked : h.row? = none) :
    Visited mark k h t (p.weigh (h.withRow (some t.size))).1
      ((t.push (Row.fresh h.identity (.ofOffset k) p.conflicts)).revise t.size
        (p.touch k (h.withRow (some t.size)))) := by
  refine ⟨fun j row hj => ?_, fun _ => ?_, fun other => absurd learned other⟩
  · have := Table.lt_size_of_row? hj
    rw [ends_of_learned learned, Bool.or_false, Table.row?_revise, if_neg (by omega), Table.row?_push,
      if_neg (by omega)]
    exact ⟨row, hj, rfl, rfl, fun _ => ⟨rfl, rfl⟩⟩
  · refine ⟨t.size, p.touch k (h.withRow (some t.size)) (Row.fresh h.identity (.ofOffset k) p.conflicts),
      fun narrow => ?_, ?_, by simp [Row.fresh], by simp, by simp,
      .inr ⟨unlinked, above, by simp [Row.fresh]⟩⟩
    · rw [row?_weigh, Header.row?_withRow narrow]
    · rw [Table.row?_revise, if_pos rfl, Table.row?_push, if_pos rfl]
      rfl

/-- A step does what it says, and does not fail. -/
theorem Step.visited {mark : Nat} {bs : List Tie} (step : Step p k h t progress r h' t')
    (linked : Linked mark (h.tie :: bs) t) (tracked : p.collecting = true)
    (opens : h.flags.redundant = true → p.opens h = true) :
    (∃ progress', r = .ok progress') ∧ Visited mark k h t h' t' := by
  have here : h.tie ∈ h.tie :: bs := List.mem_cons_self ..
  have counted : h.flags.redundant = true → p.counts progress h = true := by
    intro redundant
    rw [counts, opens redundant, Bool.or_true]
  cases step with
  | irredundant irredundant =>
    have other : ¬ h.tie.Learned := fun learned => by
      have : h.flags.redundant = true := learned.2
      rw [irredundant] at this
      cases this
    refine ⟨⟨_, rfl⟩, visited_ended other ?_⟩
    rw [irredundant]
    exact Header.row?_withRow_none h
  | early redundant early =>
    rw [counted redundant] at early
    cases early
  | garbage redundant counts garbage =>
    have other : ¬ h.tie.Learned := fun learned => by
      have : h.flags.garbage = false := learned.1
      rw [garbage] at this
      cases this
    refine ⟨⟨_, rfl⟩, visited_ended other ?_⟩
    rw [redundant]
    rfl
  | untracked redundant counts live untracked =>
    rw [tracked] at untracked
    cases untracked
  | linked redundant counts live link found own =>
    exact ⟨⟨_, rfl⟩, visited_linked ⟨live, redundant⟩ link found own⟩
  | fresh redundant counts live unlinked =>
    have above : mark ≤ h.identity.toNat := by
      refine Nat.le_of_not_lt fun below => ?_
      obtain ⟨i, row, link, -⟩ := linked.own h.tie here ⟨live, redundant⟩ below
      have : h.row? = some i := link
      rw [unlinked] at this
      cases this
    exact ⟨⟨_, rfl⟩, visited_fresh above ⟨live, redundant⟩ unlinked⟩
  | missing redundant live link missing =>
    obtain ⟨row, found, -⟩ := linked.owns_of_link here ⟨live, redundant⟩ link
    rw [missing] at found
    cases found
  | mismatch redundant live link found other =>
    obtain ⟨row, found', own⟩ := linked.owns_of_link here ⟨live, redundant⟩ link
    rw [found] at found'
    cases found'
    exact absurd own other

/-- What a pass relies on holds behind a step of the clauses to come. -/
theorem Visited.linked {mark : Nat} {bs : List Tie} (visited : Visited mark k h t h' t')
    (linked : Linked mark (h.tie :: bs) t)
    (later : ∀ b ∈ bs, h.identity.toNat < b.identity.toNat) :
    Linked (max mark (h.identity.toNat + 1)) bs t' := by
  have owns : ∀ {b : Tie}, b.Owns t → b.Owns t' := fun owns => owns.of_rows fun i row found => by
    obtain ⟨row', found', own', -⟩ := visited.rows i row found
    exact ⟨row', found', own'⟩
  constructor
  case own =>
    intro b hb learned below
    have := later b hb
    exact owns (linked.own b (by simp [hb]) learned (by omega))
  case promoted =>
    intro b hb irredundant
    exact (linked.promoted b (by simp [hb]) irredundant).imp_right owns
  case unlinked =>
    intro b hb above
    exact linked.unlinked b (by simp [hb]) (by omega)

/-! ### A whole pass -/

/-- What a pass over the cells from a place on does to the rows that were there before, and to the
links of the cells. -/
structure Passed (k : Nat) (cs : List Cell) (t : Table) (zs : List Cell) (t' : Table) : Prop where
  rows : ∀ i row, t.row? i = some row → ∃ row', t'.row? i = some row' ∧ row'.identity = row.identity ∧
    row'.garbage = (row.garbage || (cs.map tie).any fun b => b.ends i) ∧
    ((∀ c ∈ cs, row.identity ≠ c.header.identity) → row'.clause = row.clause ∧ row'.seen = row.seen)
  learned : ∀ j c z, At k cs j c → At k zs j z → c.Learned → ∃ i row,
    (i < 2147483648 → z.header.row? = some i) ∧ t'.row? i = some row ∧
    row.identity = c.header.identity ∧ row.clause = .ofOffset j ∧ row.seen = true ∧
    (c.header.row? = some i ∨ (c.header.row? = none ∧ row.garbage = false))
  other : ∀ j c z, At k cs j c → At k zs j z → ¬ c.Learned →
    z.header.row? = if c.header.flags.redundant then c.header.row? else none

/-- A step and the pass over the cells behind it are a pass over all of them. -/
theorem Visited.passed {c : Cell} {cs zs : List Cell} {t₁ : Table} {mark : Nat}
    (visited : Visited mark k c.header t h t₁) (linked : Linked mark ((c :: cs).map tie) t)
    (later : ∀ d ∈ cs, c.identity < d.identity) (passed : Passed (k + c.extent) cs t₁ zs t') :
    Passed k (c :: cs) t (c.withHeader h :: zs) t' := by
  have first : At k (c.withHeader h :: zs) k (c.withHeader h) := at_cons.2 (.inl ⟨rfl, rfl⟩)
  have behind : ∀ {j d z}, At (k + c.extent) cs j d → At k (c.withHeader h :: zs) j z →
      At (k + c.extent) zs j z := by
    intro j d z hd hz
    have := hd.bounds.1
    have := c.extent_pos
    rcases at_cons.1 hz with ⟨rfl, -⟩ | hz
    · omega
    · exact hz
  refine ⟨fun i row hi => ?_, fun j d z hd hz learned => ?_, fun j d z hd hz other => ?_⟩
  · obtain ⟨row₁, found₁, own₁, garbage₁, keep₁⟩ := visited.rows i row hi
    obtain ⟨row', found', own', garbage', keep'⟩ := passed.rows i row₁ found₁
    refine ⟨row', found', own'.trans own₁, ?_, fun foreign => ?_⟩
    · rw [garbage', garbage₁, List.map_cons, List.any_cons, Bool.or_assoc]
      rfl
    · obtain ⟨clause₁, seen₁⟩ := keep₁ (foreign c (by simp))
      obtain ⟨clause', seen'⟩ := keep' fun d hd => own₁ ▸ foreign d (by simp [hd])
      exact ⟨clause'.trans clause₁, seen'.trans seen₁⟩
  · rcases at_cons.1 hd with ⟨rfl, rfl⟩ | hd
    · obtain ⟨i, row₁, link, found₁, own₁, place, seen, origin⟩ := visited.learned learned
      obtain ⟨row', found', own', garbage', keep⟩ := passed.rows i row₁ found₁
      -- the row is that of no later cell, and a fresh one is the link of none
      obtain ⟨clause', seen'⟩ := keep fun e he same => by
        have := later e he
        rw [identity, identity, ← own₁, same] at this
        omega
      refine ⟨i, row', by rw [hz.unique first]; exact link, found', own'.trans own₁, clause'.trans place,
        seen'.trans seen, origin.imp_right ?_⟩
      rintro ⟨fresh, above, live⟩
      refine ⟨fresh, ?_⟩
      rw [garbage', live, Bool.false_or, List.any_eq_false]
      intro b hb
      obtain ⟨e, he, rfl⟩ := List.mem_map.1 hb
      have unlinked : e.tie.row? = none :=
        linked.unlinked e.tie (List.mem_cons_of_mem _ hb)
          (Nat.le_of_lt (Nat.lt_of_le_of_lt above (later e he)))
      simp [Tie.ends, unlinked]
    · exact passed.learned j d z hd (behind hd hz) learned
  · rcases at_cons.1 hd with ⟨rfl, rfl⟩ | hd
    · rw [hz.unique first]
      exact visited.other other
    · exact passed.other j d z hd (behind hd hz) other

/-- A pass does what it says, and does not fail. -/
theorem Pass.passed {cs zs : List Cell} {mark : Nat} (pass : Pass p k cs t progress r zs t')
    (linked : Linked mark (cs.map tie) t) (tracked : p.collecting = true)
    (opens : ∀ c ∈ cs, c.header.flags.redundant = true → p.opens c.header = true)
    (ascending : (cs.map identity).Pairwise (· < ·)) :
    (∃ progress', r = .ok progress') ∧ Passed k cs t zs t' := by
  induction pass generalizing mark with
  | nil =>
    refine ⟨⟨_, rfl⟩, fun i row hi => ?_, fun j c z hc => ?_, fun j c z hc => ?_⟩
    · exact ⟨row, hi, rfl, by simp, fun _ => ⟨rfl, rfl⟩⟩
    · exact absurd hc not_at_nil
    · exact absurd hc not_at_nil
  | @failed k c cs t t' progress e h step =>
    obtain ⟨⟨_, ok⟩, -⟩ := step.visited linked tracked (opens c (by simp))
    cases ok
  | @cons k c cs zs t t₁ t' progress progress₁ r h step rest ih =>
    rw [List.map_cons, List.pairwise_cons] at ascending
    obtain ⟨after, ascending⟩ := ascending
    have after : ∀ d ∈ cs, c.identity < d.identity := fun d hd => after _ (List.mem_map_of_mem hd)
    have ties_after : ∀ b ∈ cs.map tie, c.header.identity.toNat < b.identity.toNat := by
      intro b hb
      obtain ⟨d, hd, rfl⟩ := List.mem_map.1 hb
      exact after d hd
    obtain ⟨-, visited⟩ := step.visited linked tracked (opens c (by simp))
    obtain ⟨ok, passed⟩ := ih (visited.linked linked ties_after)
      (fun d hd => opens d (by simp [hd])) ascending
    exact ⟨ok, visited.passed linked after passed⟩

end ScanPlan

/-! ### Behind a pass -/

theorem Cell.eq_of_ascending {cs : List Cell} (ascending : (cs.map identity).Pairwise (· < ·))
    {c d : Cell} (hc : c ∈ cs) (hd : d ∈ cs) (same : c.header.identity = d.header.identity) : c = d := by
  obtain ⟨k, at_c⟩ := exists_at 0 hc
  obtain ⟨j, at_d⟩ := exists_at 0 hd
  exact (eq_of_identity ascending at_c at_d (congrArg UInt32.toNat same)).2

/-- What every cell of a row that a pass leaves was before it. -/
theorem ScanPlan.Pass.origin {p : ScanPlan} {k j : Nat} {cs zs : List Cell} {t t' : Table}
    {progress : ScanProgress} {r : Except Error ScanProgress} {z : Cell}
    (pass : ScanPlan.Pass p k cs t progress r zs t') (hz : At k zs j z) :
    ∃ c, At k cs j c ∧ c.header.identity = z.header.identity ∧ c.header.flags = z.header.flags := by
  obtain ⟨c, hc, same⟩ := hz.of_map_eq pass.lasting.symm
  exact ⟨c, hc, identity_eq_of_lasting same, flags_eq_of_lasting same⟩

namespace Linked

variable {mark limit : Nat} {bs : List Tie} {cs zs : List Cell} {t t' : Table}

theorem of_standing (h : Linked mark bs t) (standing_eq : t'.standing = t.standing) :
    Linked mark bs t' :=
  ⟨fun b hb learned below => (h.own b hb learned below).of_standing standing_eq,
    fun b hb irredundant => (h.promoted b hb irredundant).of_standing standing_eq, h.unlinked⟩

/-- What is linked stays so among fewer clauses. -/
theorem subset {bs' : List Tie} (h : Linked mark bs t) (sub : bs' ⊆ bs) : Linked mark bs' t :=
  ⟨fun b hb => h.own b (sub hb), fun b hb => h.promoted b (sub hb), fun b hb => h.unlinked b (sub hb)⟩

/-- Where garbage is linked to its own rows, no clause has strayed. -/
theorem not_strayed (h : Linked mark (cs.map tie) t)
    (ascending : (cs.map identity).Pairwise (· < ·)) (clean : Clean (cs.map tie) t) :
    ¬ Strayed (cs.map tie) := by
  rintro ⟨a, ha, b, hb, garbage, -, learned, some_link, same⟩
  rcases clean a ha garbage with none | ⟨i, row, link, found, own⟩
  · rw [none] at some_link
    cases some_link
  · obtain ⟨row', found', own'⟩ := h.owns_of_link hb learned (same.symm.trans link)
    rw [found] at found'
    cases found'
    obtain ⟨c, hc, rfl⟩ := List.mem_map.1 ha
    obtain ⟨d, hd, rfl⟩ := List.mem_map.1 hb
    have := eq_of_ascending ascending hc hd (own.symm.trans own')
    rw [← this, Tie.Learned, garbage] at learned
    cases learned.1

/-- The rows of live redundant clauses are marked by a pass only where a clause has strayed. -/
theorem not_ended (h : Linked mark (cs.map tie) t) (ascending : (cs.map identity).Pairwise (· < ·))
    (clear : ¬ Strayed (cs.map tie)) {c : Cell} (hc : c ∈ cs) (learned : c.Learned) {i : Nat}
    (link : c.header.row? = some i) : ((cs.map tie).any fun b => b.ends i) = false := by
  obtain ⟨row, found, own⟩ := h.owns_of_link (List.mem_map_of_mem hc) learned link
  rw [List.any_eq_false]
  intro b hb ends
  obtain ⟨d, hd, rfl⟩ := List.mem_map.1 hb
  rw [Tie.ends, Bool.and_eq_true, beq_iff_eq, Bool.or_eq_true, Bool.not_eq_true'] at ends
  obtain ⟨retired, link'⟩ := ends
  by_cases irredundant : d.tie.redundant = false
  · rcases h.promoted d.tie hb irredundant with unlinked | ⟨j, row', link'', found', own'⟩
    · rw [unlinked] at link'
      cases link'
    · rw [link'] at link''
      cases link''
      rw [found] at found'
      cases found'
      have := eq_of_ascending ascending hc hd (own.symm.trans own')
      have redundant : c.tie.redundant = true := learned.2
      rw [this, irredundant] at redundant
      cases redundant
  · have redundant : d.tie.redundant = true := by simpa using irredundant
    have garbage : d.tie.garbage = true := retired.resolve_right irredundant
    exact clear ⟨d.tie, hb, c.tie, List.mem_map_of_mem hc, garbage, redundant, learned,
      by rw [link']; rfl, link'.trans link.symm⟩

end Linked

namespace ScanPlan.Passed

variable {mark limit : Nat} {p : ScanPlan} {cs zs : List Cell} {t t' : Table} {progress : ScanProgress}
  {r : Except Error ScanProgress}

/-- Every clause behind a pass was scanned. -/
theorem linked (h : Passed 0 cs t zs t') (pass : Pass p 0 cs t progress r zs t')
    (narrow : t'.size ≤ 2147483648) (below : ∀ c ∈ cs, c.identity < limit) :
    Linked limit (zs.map tie) t' := by
  refine ⟨fun b hb learned _ => ?_, fun b hb irredundant => ?_, fun b hb above => ?_⟩
  all_goals
    obtain ⟨z, hz, rfl⟩ := List.mem_map.1 hb
    obtain ⟨k, at_z⟩ := exists_at 0 hz
    obtain ⟨c, at_c, identity_eq, flags_eq⟩ := pass.origin at_z
  · have learned' : c.Learned := by
      rw [Learned, isGarbage, flags_eq]
      exact learned
    obtain ⟨i, row, link, found, own, -⟩ := h.learned k c z at_c at_z learned'
    have := Table.lt_size_of_row? found
    exact ⟨i, row, link (by omega), found, own.trans identity_eq⟩
  · have irredundant : z.header.flags.redundant = false := irredundant
    have other := h.other k c z at_c at_z fun learned => by
      rw [Learned, flags_eq, irredundant] at learned
      cases learned.2
    rw [flags_eq, irredundant] at other
    exact .inl other
  · have : c.header.identity.toNat < limit := below c at_c.mem
    have above : limit ≤ z.header.identity.toNat := above
    rw [identity_eq] at this
    omega

/-- Where no clause has strayed, a pass marks no row of a live redundant clause. -/
theorem owns (h : Passed 0 cs t zs t') (pass : Pass p 0 cs t progress r zs t')
    (linked : Linked mark (cs.map tie) t) (ascending : (cs.map identity).Pairwise (· < ·))
    (alive : Alive (cs.map tie) t) (clear : ¬ Strayed (cs.map tie)) {k : Nat} {z : Cell}
    (at_z : At 0 zs k z) (learned : z.Learned) : ∃ i row,
      (i < 2147483648 → z.header.row? = some i) ∧ t'.row? i = some row ∧
      row.identity = z.header.identity ∧ row.clause = .ofOffset k ∧ row.seen = true ∧
      row.garbage = false := by
  obtain ⟨c, at_c, identity_eq, flags_eq⟩ := pass.origin at_z
  have learned' : c.Learned := by
    rw [Learned, isGarbage, flags_eq]
    exact learned
  obtain ⟨i, row, link, found, own, place, seen, origin⟩ := h.learned k c z at_c at_z learned'
  refine ⟨i, row, link, found, own.trans identity_eq, place, seen, ?_⟩
  rcases origin with link₀ | fresh
  · obtain ⟨row₀, found₀, -⟩ := linked.owns_of_link (List.mem_map_of_mem at_c.mem) learned' link₀
    obtain ⟨row₁, found₁, -, garbage_eq, -⟩ := h.rows i row₀ found₀
    rw [found] at found₁
    cases found₁
    rw [garbage_eq, alive _ (List.mem_map_of_mem at_c.mem) learned' i row₀ link₀ found₀,
      linked.not_ended ascending clear at_c.mem learned' link₀]
    rfl
  · exact fresh.2

theorem alive (h : Passed 0 cs t zs t') (pass : Pass p 0 cs t progress r zs t')
    (linked : Linked mark (cs.map tie) t) (ascending : (cs.map identity).Pairwise (· < ·))
    (alive : Alive (cs.map tie) t) (clear : ¬ Strayed (cs.map tie)) (narrow : t'.size ≤ 2147483648) :
    Alive (zs.map tie) t' := by
  intro b hb learned i row link found
  obtain ⟨z, hz, rfl⟩ := List.mem_map.1 hb
  obtain ⟨k, at_z⟩ := exists_at 0 hz
  obtain ⟨j, row', link', found', -, -, -, live⟩ :=
    h.owns pass linked ascending alive clear at_z learned
  have := Table.lt_size_of_row? found'
  have same : some i = some j :=
    (show z.header.row? = some i from link).symm.trans (link' (by omega))
  cases same
  rw [found] at found'
  cases found'
  exact live

/-- Where a clause has strayed, a pass marks a row of a live redundant clause. -/
theorem dead (h : Passed 0 cs t zs t') (pass : Pass p 0 cs t progress r zs t')
    (linked : Linked mark (cs.map tie) t) (strayed : Strayed (cs.map tie)) :
    ∃ k z i row, At 0 zs k z ∧ z.Learned ∧ t'.row? i = some row ∧ row.clause = .ofOffset k ∧
      row.seen = true ∧ row.garbage = true := by
  obtain ⟨a, ha, b, hb, garbage, redundant, learned, some_link, same⟩ := strayed
  obtain ⟨i, link_a⟩ := Option.isSome_iff_exists.1 some_link
  have link_b : b.row? = some i := same.symm.trans link_a
  obtain ⟨c, hc, rfl⟩ := List.mem_map.1 hb
  obtain ⟨k, at_c⟩ := exists_at 0 hc
  obtain ⟨z, at_z, same⟩ := at_c.of_map_eq pass.lasting
  have link_c : c.header.row? = some i := link_b
  obtain ⟨j, row, -, found, -, place, seen, origin⟩ := h.learned k c z at_c at_z learned
  have i_eq : j = i := by
    rcases origin with link' | ⟨none, -⟩
    · rw [link_c] at link'
      cases link'
      rfl
    · rw [link_c] at none
      cases none
  rw [i_eq] at found
  obtain ⟨row₀, found₀, -⟩ := linked.owns_of_link hb learned link_b
  obtain ⟨row₁, found₁, -, garbage_eq, -⟩ := h.rows i row₀ found₀
  rw [found] at found₁
  cases found₁
  have ended : ((cs.map tie).any fun b => b.ends i) = true := by
    refine List.any_eq_true.2 ⟨a, ha, ?_⟩
    rw [Tie.ends, garbage, link_a]
    simp
  have learned' : c.Learned := learned
  refine ⟨k, z, i, row, at_z, learned'.of_lasting same, found, place, seen, ?_⟩
  rw [garbage_eq, ended, Bool.or_true]

/-- A pass leaves the links of garbage alone. -/
theorem clean (h : Passed 0 cs t zs t') (pass : Pass p 0 cs t progress r zs t')
    (clean : Clean (cs.map tie) t) : Clean (zs.map tie) t' := by
  intro b hb garbage
  obtain ⟨z, hz, rfl⟩ := List.mem_map.1 hb
  obtain ⟨k, at_z⟩ := exists_at 0 hz
  obtain ⟨c, at_c, identity_eq, flags_eq⟩ := pass.origin at_z
  have garbage' : c.tie.garbage = true := (congrArg Flags.garbage flags_eq).trans garbage
  have other := h.other k c z at_c at_z fun learned => by
    exact Bool.false_ne_true (learned.1.symm.trans garbage')
  cases redundant : c.header.flags.redundant with
  | false =>
    rw [redundant] at other
    exact .inl other
  | true =>
    rw [redundant] at other
    have link_eq : z.tie.row? = c.tie.row? := other
    refine (clean c.tie (List.mem_map_of_mem at_c.mem) garbage').imp (fun none => link_eq.trans none) ?_
    rintro ⟨i, row, link, found, own⟩
    obtain ⟨row', found', own', -⟩ := h.rows i row found
    exact ⟨i, row', link_eq.trans link, found', own'.trans (own.trans identity_eq)⟩

end ScanPlan.Passed

end ClauseStore
