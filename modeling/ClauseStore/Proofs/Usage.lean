import ClauseStore.Proofs.Bookkeeping
import ClauseStore.Proofs.Carrying
import Mathlib.Logic.Function.Iterate

/-!
Use along runs. Under a fixed configuration for which rows of statistics are kept, what is on record of
the use of every live redundant clause is the count of the calls that noted it, whatever reductions,
compactions, evictions and shortenings came in between. A count of a period is a word that stays at its
greatest value, so no use may be noted more often from one scan to the next than a word can tell.
-/

namespace ClauseStore

open Cell Database

/-! ### Notes -/

/-- What is on record grows with the tally where a count has room. -/
theorem Metered.noted {config : Config} {tally period : Use → Nat} {h h' : Header}
    {rows : Nat → Option Row} (m : Metered config tally period h rows) (tie_eq : h'.tie = h.tie)
    (link_eq : h'.link = h.link) (count : Use → Bool)
    (used_eq : ∀ u, h'.used u = if count u then Header.bump (h.used u) else h.used u)
    (room : ∀ u, period u + (count u).toNat < 4294967296) :
    Metered config (fun u => tally u + (count u).toNat) (fun u => period u + (count u).toNat) h' rows := by
  have number : h.tie.Learned → ∀ u, (h'.used u).toNat = (h.used u).toNat + (count u).toNat := by
    intro learned u
    have within := m.within learned u
    have room := room u
    rw [used_eq]
    cases counts : count u with
    | false => rfl
    | true =>
      rw [counts, Bool.toNat_true] at room
      rw [if_pos rfl, Header.toNat_bump, Bool.toNat_true]
      omega
  have word : h.tie.Learned → ∀ u,
      (h'.used u).toUInt64 = (h.used u).toUInt64 + UInt64.ofNat (count u).toNat := by
    intro learned u
    rw [← UInt64.ofNat_uInt32ToNat, ← UInt64.ofNat_uInt32ToNat, number learned u, UInt64.ofNat_add]
  constructor
  case own =>
    rw [Header.row?_of_link_eq link_eq]
    exact m.own
  case linked =>
    rw [tie_eq, link_eq]
    exact m.linked
  case summed =>
    rw [tie_eq]
    intro learned i row found u
    rw [word learned, UInt64.ofNat_add, ← m.summed learned i row found u, UInt64.add_assoc,
      UInt64.add_assoc, UInt64.add_comm (UInt64.ofNat _)]
  case bare =>
    rw [tie_eq]
    intro learned none u
    rw [word learned, UInt64.ofNat_add, ← m.bare learned none u]
  case within =>
    rw [tie_eq]
    intro learned u
    rw [number learned u]
    exact Nat.add_le_add_right (m.within learned u) _
  case unkept =>
    have keep_eq : h'.flags.keep = h.flags.keep := congrArg Tie.keep tie_eq
    have redundant_eq : h'.flags.redundant = h.flags.redundant := congrArg Tie.redundant tie_eq
    rw [keep_eq, redundant_eq]
    exact m.unkept

namespace Operation

variable {π : Type}

/-- The use that a call notes, and the clause of which. -/
def use? : Operation → Option (Use × Reference)
  | notePropagation r => some (.propagation, r)
  | noteUip r => some (.uip, r)
  | _ => none

/-- Whether a call is a reduction that comes to scan: one for an inconsistent search does not. -/
def scans : Operation → Bool
  | reduce search => !search.inconsistent
  | _ => false

/-- Whether the call notes a use of the clause of an identity. -/
def notes (op : Operation) (c : Context π) (u : Use) (identity : UInt32) : Bool :=
  match op.use? with
  | some (v, r) => v == u && decide (r.offset ∈ (c.database.arena.walkFrom 0).1) &&
      (c.database.arena.header r.offset).identity == identity
  | none => false

/-- A tally of notes behind the call. -/
def tally (op : Operation) (c : Context π) (n : Use → UInt32 → Nat) : Use → UInt32 → Nat :=
  fun u identity => n u identity + (op.notes c u identity).toNat

/-- The tally of a period behind the call: a reduction that scans begins a new period. -/
def period (op : Operation) (c : Context π) (n : Use → UInt32 → Nat) : Use → UInt32 → Nat :=
  if op.scans then fun _ _ => 0 else op.tally c n

variable {c : Context π} {op : Operation} {n n' : Use → UInt32 → Nat} {r : Reference}
  {f : Header → Header}

theorem tally_of_unheard (unheard : ∀ u identity, op.notes c u identity = false)
    (n : Use → UInt32 → Nat) : op.tally c n = n := by
  funext u identity
  rw [tally, unheard]
  rfl

theorem tally_of_silent (silent : op.use? = none) (n : Use → UInt32 → Nat) : op.tally c n = n := by
  refine tally_of_unheard (fun u identity => ?_) n
  rw [notes, silent]

theorem period_of_still (still : op.scans = false) (n : Use → UInt32 → Nat) :
    op.period c n = op.tally c n := by
  rw [period, still]
  rfl

/-- A reduction that scans notes no use. -/
theorem tally_of_scans (scans : op.scans = true) (n : Use → UInt32 → Nat) : op.tally c n = n :=
  tally_of_silent (by cases op <;> first | rfl | cases scans) n

/-- A period has no more notes than all periods. -/
theorem period_le_tally (le : ∀ u identity, n u identity ≤ n' u identity) (u : Use) (identity : UInt32) :
    op.period c n u identity ≤ op.tally c n' u identity := by
  rw [period]
  split
  · exact Nat.zero_le _
  · exact Nat.add_le_add_right (le u identity) _

theorem used_of_note (note : op.note? c = some (r, f)) (h : Header) (u : Use) :
    (f h).used u = if op.use? = some (u, r) then Header.bump (h.used u) else h.used u := by
  cases op <;> simp only [note?, Option.some.injEq, Prod.mk.injEq, reduceCtorEq] at note <;>
    (obtain ⟨rfl, rfl⟩ := note
     cases u <;>
       simp [use?, Header.used, Header.countProp, Header.countUip, graced, Header.withFlag])

/-- A call notes a use of the clause of the cell that its reference is to. -/
theorem notes_eq {cs : List Cell} {d : Cell} (holds : c.database.Holds cs)
    (note : op.note? c = some (r, f)) (found : At 0 cs r.offset d) (u : Use) (identity : UInt32) :
    op.notes c u identity = (decide (op.use? = some (u, r)) && d.header.identity == identity) := by
  have there : r.offset ∈ (c.database.arena.walkFrom 0).1 := holds.tiled.mem_walk.2 ⟨d, found⟩
  cases op <;> simp only [note?, Option.some.injEq, Prod.mk.injEq, reduceCtorEq] at note <;>
    (obtain ⟨rfl, -⟩ := note
     cases u <;> simp [notes, use?, there, holds.tiled.header_eq found])

end Operation

/-! ### Effects -/

namespace Posted

variable {π : Type} {config : Config} {tally period : Use → UInt32 → Nat} {next : UInt32}
  {cs : List Cell} {t : Table} {k : Nat} {d : Cell}

/-- A clause that is stored has no row, and no use of it was noted. -/
theorem stored (h : Posted config tally period next cs t) (collecting : config.collecting = true)
    (fresh : next ≠ 4294967295) (source : Source) (glue : UInt32) (conflicts : UInt64) (ls : Clause) :
    Posted config tally period (next + 1)
      (cs ++ [Cell.stored next source glue (keeps config source glue) conflicts ls]) t := by
  have next_eq := Database.toNat_succ fresh
  refine ⟨h.apart, fun identity hi => ?_, fun c hc => ?_, fun u identity above => ?_⟩
  · have := h.below identity hi
    omega
  · rcases List.mem_append.1 hc with hc | hc
    · exact h.metered c hc
    rw [List.mem_singleton.1 hc]
    have rowless : ∀ i row, t.ownAt next i ≠ some row := by
      intro i row own
      have := h.below next (Table.mem_identities.2 ⟨i, row, own⟩)
      omega
    constructor
    case own =>
      intro i link
      cases link
    case linked => exact fun _ i row own => absurd own (rowless i row)
    case summed => exact fun _ i row own => absurd own (rowless i row)
    case bare =>
      intro _ _ u
      show _ = UInt64.ofNat (tally u next)
      rw [h.unheard u next (Nat.le_refl _)]
      cases u <;> rfl
    case within =>
      intro _ u
      cases u <;> exact Nat.zero_le _
    case unkept => exact fun generating redundant => keeps_eq_false collecting generating redundant
  · exact h.unheard u identity (by omega)

/-- A clause that is marked ends its row, and no other one. -/
theorem marked (h : Posted config tally period next cs t) (ascending : (cs.map identity).Pairwise (· < ·))
    (found : At 0 cs k d) :
    Posted config tally period next (markAt k cs)
      (if d.header.flags.redundant then t.ended d.header else t) := by
  have plain : Posted config tally period next (markAt k cs) t :=
    h.inherit (springs_markAt k cs)
  split
  next =>
    refine ⟨?_, ?_, fun y hy => ?_, h.unheard⟩
    · rw [Table.identities_ended]
      exact h.apart
    · rw [Table.identities_ended]
      exact h.below
    have before := plain.metered y hy
    obtain ⟨j, at_y⟩ := exists_at 0 hy
    obtain ⟨e, he, rfl⟩ := at_mapAt.1 at_y
    by_cases here : j = k
    · subst here
      refine .of_not_learned (fun learned => ?_) (fun i link narrow => ?_) before.unkept
      · rw [Cell.revised, Arena.only, if_pos rfl] at learned
        cases learned.1
      · rw [Table.isSome_ownAt_ended]
        exact before.own i link narrow
    · have other : (e.revised (Arena.only k (Header.withFlag .garbage true) j)).header.identity ≠
          d.header.identity := by
        rw [Cell.revised, Arena.only, if_neg here]
        exact fun same => here (eq_of_identity ascending he found (congrArg UInt32.toNat same)).1
      rw [funext ((h.metered d found.mem).ownAt_ended h.fits other)]
      exact before
  next => exact plain

end Posted

namespace Effect

variable {π : Type} {c c' : Context π} {cs ds : List Cell} {op : Operation} {a : Except Error Answer}
  {tally period : Use → UInt32 → Nat}

/-- A note counts for the clause that it is about, and for no other one. -/
theorem posted_noted {r : Reference} {d : Cell} {f : Header → Header}
    (posted : Posted c.config tally period c.database.nextIdentity cs c.database.table)
    (holds : c.database.Holds cs) (note : op.note? c = some (r, f)) (found : At 0 cs r.offset d)
    (room : ∀ u identity, op.tally c period u identity < 4294967296) :
    Posted c.config (op.tally c tally) (op.tally c period) c.database.nextIdentity
      (mapAt (Arena.only r.offset f) 0 cs) c.database.table := by
  have notes_eq := Operation.notes_eq holds note found
  refine ⟨posted.apart, posted.below, fun y hy => ?_, fun u identity above => ?_⟩
  · obtain ⟨j, at_y⟩ := exists_at 0 hy
    obtain ⟨e, he, rfl⟩ := at_mapAt.1 at_y
    by_cases here : j = r.offset
    · subst here
      obtain rfl := he.unique found
      have tie_eq := tie_of_note note e.header
      have identity_eq : (f e.header).identity = e.header.identity := congrArg Tie.identity tie_eq
      rw [Cell.revised, Arena.only, if_pos rfl, identity_eq]
      refine (posted.metered e found.mem).noted tie_eq (Operation.link_of_note note e.header)
        (fun u => op.notes c u e.header.identity) (fun u => ?_) (fun u => room u _)
      rw [Operation.used_of_note note, notes_eq, beq_self_eq_true, Bool.and_true]
      simp only [decide_eq_true_eq]
    · have other : d.header.identity ≠ e.header.identity := fun same =>
        here (eq_of_identity holds.ascending he found (congrArg UInt32.toNat same.symm)).1
      have still : ∀ n : Use → UInt32 → Nat,
          (op.tally c n · e.header.identity) = (n · e.header.identity) := by
        intro n
        funext u
        rw [Operation.tally, notes_eq, beq_eq_false_iff_ne.2 other, Bool.and_false]
        rfl
      rw [Cell.revised, Arena.only, if_neg here]
      show Metered c.config (op.tally c tally · e.header.identity)
        (op.tally c period · e.header.identity) _ _
      rw [still, still]
      exact posted.metered e he.mem
  · have below := holds.below d found.mem
    have other : d.header.identity ≠ identity := by
      rintro rfl
      exact absurd below (Nat.not_lt.2 above)
    rw [Operation.tally, notes_eq, beq_eq_false_iff_ne.2 other, Bool.and_false,
      posted.unheard u identity above]
    rfl

/-- Every effect of a call that does not fail keeps what is on record in step with a tally of the notes. -/
theorem posted (h : Effect c cs op a c' ds) (holds : c.database.Holds cs)
    (collecting : c.config.collecting = true) (fixed : op.configures = false)
    (succeeds : op.reduces = true → ∀ e, a ≠ .error e)
    (accepted : ∀ e, a = .error e → ∀ u identity, op.notes c u identity = false)
    (posted : Posted c.config tally period c.database.nextIdentity cs c.database.table)
    (room : ∀ u identity, op.tally c period u identity < 4294967296) :
    Posted c.config (op.tally c tally) (op.period c period) c'.database.nextIdentity ds
      c'.database.table := by
  -- what does not note a use, and does not scan, leaves the tallies
  have silent : op.use? = none → op.scans = false →
      op.tally c tally = tally ∧ op.period c period = period := by
    intro none still
    rw [Operation.period_of_still still, Operation.tally_of_silent none, Operation.tally_of_silent none]
    exact ⟨rfl, rfl⟩
  cases h with
  | configured => cases fixed
  | beside aside _ same =>
    obtain ⟨tally_eq, period_eq⟩ := silent (by cases op <;> first | rfl | cases aside)
      (by cases op <;> first | rfl | cases aside)
    rw [tally_eq, period_eq, same.table_eq]
    exact posted.later same.next_le
  | @stored source glue clause r db ds phase storage =>
    obtain ⟨tally_eq, period_eq⟩ := silent rfl rfl
    rw [tally_eq, period_eq]
    cases storage with
    | refused e next drawn => exact posted.later drawn
    | @binary a b _ fresh =>
      have same := beside_storedBinary a b source fresh
      rw [same.table_eq]
      exact posted.later same.next_le
    | @long a b rest _ _ _ fresh => exact posted.stored collecting fresh _ _ _ _
  | noted note found =>
    rw [Operation.period_of_still (by cases op <;> first | rfl | cases note)]
    exact posted_noted posted holds note found room
  | refused single =>
    have unheard := accepted _ rfl
    rw [Operation.period_of_still (by cases op <;> first | rfl | cases single),
      Operation.tally_of_unheard unheard, Operation.tally_of_unheard unheard]
    exact posted
  | marked found live =>
    obtain ⟨tally_eq, period_eq⟩ := silent rfl rfl
    rw [tally_eq, period_eq]
    exact posted.marked holds.ascending found
  | promoted found live =>
    obtain ⟨tally_eq, period_eq⟩ := silent rfl rfl
    rw [tally_eq, period_eq]
    exact posted.inherit (springs_promoteAt _ cs)
  | @shortened r size xs ys d split start free =>
    obtain ⟨tally_eq, period_eq⟩ := silent rfl rfl
    rw [tally_eq, period_eq]
    subst split
    exact posted.inherit (springs_shrunk xs ys d size.toNat)
  | @collected start xs ys first last split start_eq =>
    obtain ⟨tally_eq, period_eq⟩ := silent rfl rfl
    rw [tally_eq, period_eq]
    subst split
    exact posted.collected first last
  | @reduced search r db ds counters predictor phase reduction =>
    have tally_eq : ∀ n, (Operation.reduce search).tally c n = n := Operation.tally_of_silent rfl
    rw [tally_eq]
    cases r with
    | error e => exact absurd rfl (succeeds rfl e)
    | ok result =>
      refine reduction.posted holds collecting posted fun inconsistent => ?_
      rw [Operation.period_of_still (by rw [Operation.scans, inconsistent]; rfl), tally_eq]

end Effect

/-! ### Runs -/

namespace Database

/-- The sum of a use over the periods before, in the row of an identity if there is one. -/
def sumOf (db : Database) (u : Use) (identity : UInt32) : UInt64 :=
  ((db.table.rowOf? identity).map fun row => row.sum u).getD 0

/-- What is on record of the use of every live redundant clause is the count of its notes. -/
structure Recorded (db : Database) (noted : Use → UInt32 → Nat) : Prop where
  /-- as a word, like the sums in the rows -/
  word_eq : ∀ o ∈ db.arena.liveOf true, ∀ u,
    ((db.arena.header o).used u).toUInt64 + db.sumOf u (db.arena.header o).identity =
      UInt64.ofNat (noted u (db.arena.header o).identity)
  /-- as a number, as long as a word holds it -/
  number_eq : ∀ o ∈ db.arena.liveOf true, ∀ u,
    noted u (db.arena.header o).identity < 18446744073709551616 →
    ((db.arena.header o).used u).toNat + (db.sumOf u (db.arena.header o).identity).toNat =
      noted u (db.arena.header o).identity
  /-- the row of a clause is the one that it is linked to, as long as links can name all rows -/
  linked : db.table.size ≤ 2147483648 → ∀ o ∈ db.arena.liveOf true,
    (db.arena.header o).row?.bind db.table.row? = db.table.rowOf? (db.arena.header o).identity
  /-- no two rows are of one identity -/
  apart : ∀ row ∈ db.table.rows.toList, db.table.rowOf? row.identity = some row

end Database

/-- A word that adds up with a part of a number to the number is the rest of it. -/
theorem toNat_add_toNat {x : UInt32} {y : UInt64} {n : Nat} (sum : x.toUInt64 + y = UInt64.ofNat n)
    (part : x.toNat ≤ n) (fits : n < 18446744073709551616) : x.toNat + y.toNat = n := by
  have sum := congrArg UInt64.toNat sum
  rw [UInt64.toNat_add, UInt32.toNat_toUInt64, UInt64.toNat_ofNat'] at sum
  have := y.toNat_lt
  omega

/-- What is on record of clauses is a tally of their notes, where the clauses of a database are metered. -/
theorem Database.Holds.recorded {config : Config} {tally period : Use → UInt32 → Nat} {db : Database}
    {cs : List Cell} (holds : db.Holds cs)
    (posted : Posted config tally period db.nextIdentity cs db.table)
    (modest : ∀ u identity, period u identity ≤ tally u identity) : db.Recorded tally := by
  constructor
  case word_eq =>
    intro o ho u
    obtain ⟨d, found, learned, header_eq⟩ := holds.exists_learned ho
    rw [header_eq]
    exact (posted.metered d found.mem).word_eq learned u
  case number_eq =>
    intro o ho u fits
    obtain ⟨d, found, learned, header_eq⟩ := holds.exists_learned ho
    rw [header_eq] at fits ⊢
    have m := posted.metered d found.mem
    exact toNat_add_toNat (m.word_eq learned u) (Nat.le_trans (m.within learned u) (modest u _)) fits
  case linked =>
    intro narrow o ho
    obtain ⟨d, found, learned, header_eq⟩ := holds.exists_learned ho
    rw [header_eq]
    exact (posted.metered d found.mem).bind_row? learned narrow
  case apart =>
    intro row hrow
    obtain ⟨i, found⟩ := Table.exists_row? hrow
    exact Table.rowOf?_eq posted.apart (Table.ownAt_eq_some.2 ⟨found, rfl⟩)

/-- A call that notes a use of a clause is not refused. -/
theorem Operation.answer_of_notes {π : Type} [Predictor π] {c : Context π} {cs : List Cell}
    {op : Operation} {u : Use} {identity : UInt32} (holds : c.database.Holds cs)
    (notes : op.notes c u identity = true) : op.answer c = .ok .done := by
  have noted : ∀ {v r}, op.use? = some (v, r) → ∃ d, At 0 cs r.offset d := by
    intro v r use
    rw [Operation.notes, use] at notes
    simp only [Bool.and_eq_true, decide_eq_true_eq] at notes
    exact holds.tiled.mem_walk.1 notes.1.2
  have answered : ∀ {run : Run π Unit} {c' : Context π}, op.perform = (do
      run
      return Answer.done) → Yields run c (.ok ()) c' → op.answer c = .ok .done := by
    intro run c' perform_eq ran
    obtain ⟨ms, outcome_eq⟩ := (Operation.yields_answered ran fun _ => .done).outcome_eq
    rw [Operation.answer, perform_eq]
    exact congrArg Prod.fst outcome_eq
  cases op with
  | notePropagation r =>
    obtain ⟨d, found⟩ := noted rfl
    exact answered rfl
      (Yields.get_bind (fun _ => rfl) (Context.yields_onDatabase (yields_note holds found _)))
  | noteUip r =>
    obtain ⟨d, found⟩ := noted rfl
    exact answered rfl
      (Yields.get_bind (fun _ => rfl) (Context.yields_onDatabase (yields_note holds found _)))
  | _ => cases notes

namespace Context

variable {π : Type} [Predictor π]

/-- The count of notes of a use of the clause of an identity in a run. -/
def noted (c : Context π) (u : Use) (identity : UInt32) : List Operation → Nat
  | [] => 0
  | op :: ops => (op.notes c u identity).toNat + (op.after c).noted u identity ops

/-- In every stretch of a run in which no reduction scans, each use of a clause is noted less often than
a count of a period can hold. A reduction that ends before its scan clears no counts, so a stretch goes
on behind it. -/
def Sparse (c : Context π) (ops : List Operation) : Prop :=
  ∀ earlier stretch later, ops = earlier ++ stretch ++ later → (∀ op ∈ stretch, op.scans = false) →
    ∀ u identity, (c.run earlier).noted u identity stretch < 4294967296

/-- The stretch at the head of a run has room in a period that has begun before it. -/
def Room (c : Context π) (period : Use → UInt32 → Nat) (ops : List Operation) : Prop :=
  ∀ stretch later, ops = stretch ++ later → (∀ op ∈ stretch, op.scans = false) →
    ∀ u identity, period u identity + c.noted u identity stretch < 4294967296

/-- The call is not a reduction that fails. -/
def Succeeds (op : Operation) (c : Context π) : Prop := op.reduces = true → (op.answer c).isOk = true

instance (op : Operation) (c : Context π) : Decidable (Succeeds op c) :=
  inferInstanceAs (Decidable (op.reduces = true → (op.answer c).isOk = true))

variable {c : Context π} {cs : List Cell} {op : Operation} {ops : List Operation}
  {tally period : Use → UInt32 → Nat}

theorem Succeeds.ne_error (h : Succeeds op c) (reduces : op.reduces = true) (e : Error) :
    op.answer c ≠ .error e := by
  intro failed
  have ok := h reduces
  rw [failed] at ok
  cases ok

theorem Sparse.room (h : c.Sparse ops) : c.Room (fun _ _ => 0) ops := by
  intro stretch later whole quiet u identity
  rw [Nat.zero_add]
  exact h [] stretch later whole quiet u identity

theorem Sparse.tail (h : c.Sparse (op :: ops)) : (op.after c).Sparse ops := by
  rintro earlier stretch later rfl quiet
  exact h (op :: earlier) stretch later rfl quiet

theorem Room.here (h : c.Room period (op :: ops)) (u : Use) (identity : UInt32) :
    op.tally c period u identity < 4294967296 := by
  cases scans : op.scans with
  | true =>
    rw [Operation.tally_of_scans scans]
    exact h [] (op :: ops) rfl (by simp) u identity
  | false => exact h [op] ops rfl (by simpa using scans) u identity

/-- Behind a reduction that scans there is the room of a new period. -/
theorem Room.tail (h : c.Room period (op :: ops)) (sparse : c.Sparse (op :: ops)) :
    (op.after c).Room (op.period c period) ops := by
  cases scans : op.scans with
  | true =>
    rw [Operation.period, if_pos scans]
    exact sparse.tail.room
  | false =>
    rintro stretch later rfl quiet u identity
    rw [Operation.period_of_still scans, Operation.tally, Nat.add_assoc]
    exact h (op :: stretch) later rfl (by simpa [scans] using quiet) u identity

/-- What is on record is in step with the notes behind a call that does not fail. -/
theorem exists_posted_after (holds : c.database.Holds cs)
    (posted : Posted c.config tally period c.database.nextIdentity cs c.database.table)
    (collecting : c.config.collecting = true) (lawful : op.Lawful c) (fixed : op.configures = false)
    (succeeds : Succeeds op c) (room : ∀ u identity, op.tally c period u identity < 4294967296) :
    ∃ ds, (op.after c).config = c.config ∧ (op.after c).database.Holds ds ∧
      Posted c.config (op.tally c tally) (op.period c period) (op.after c).database.nextIdentity ds
        (op.after c).database.table := by
  obtain ⟨c', ds, ms, after_eq, effect⟩ := exists_effect holds lawful
  have accepted : ∀ e, op.answer c = .error e → ∀ u identity, op.notes c u identity = false := by
    intro e failed u identity
    rw [← Bool.not_eq_true]
    intro notes
    rw [Operation.answer_of_notes holds notes] at failed
    cases failed
  have behind := effect.posted holds collecting fixed succeeds.ne_error accepted posted room
  refine ⟨ds, ?_, holds_after after_eq (effect.holds holds), ?_⟩
  · rw [after_eq]
    exact effect.config_eq fixed
  · rw [after_eq]
    exact behind

/-- What is on record is in step with the notes behind a run in which no reduction fails. -/
theorem exists_posted_run (holds : c.database.Holds cs)
    (posted : Posted c.config tally period c.database.nextIdentity cs c.database.table)
    (modest : ∀ u identity, period u identity ≤ tally u identity)
    (collecting : c.config.collecting = true) (follows : c.Follows ops)
    (fixed : ∀ op ∈ ops, op.configures = false) (succeeds : c.Throughout Succeeds ops)
    (room : c.Room period ops) (sparse : c.Sparse ops) :
    ∃ period' ds, (c.run ops).database.Holds ds ∧
      Posted c.config (fun u identity => tally u identity + c.noted u identity ops) period'
        (c.run ops).database.nextIdentity ds (c.run ops).database.table ∧
      ∀ u identity, period' u identity ≤ tally u identity + c.noted u identity ops := by
  induction ops generalizing c cs tally period with
  | nil => exact ⟨period, cs, holds, posted, modest⟩
  | cons op ops ih =>
    obtain ⟨lawful, follows⟩ := follows
    obtain ⟨here, succeeds⟩ := succeeds
    obtain ⟨ds, config_eq, left, behind⟩ :=
      exists_posted_after holds posted collecting lawful (fixed op (by simp)) here room.here
    rw [← config_eq] at behind collecting
    obtain ⟨last, es, holds', posted', modest'⟩ := ih left behind (Operation.period_le_tally modest)
      collecting follows (fun op hop => fixed op (by simp [hop])) succeeds (room.tail sparse) sparse.tail
    rw [config_eq] at posted'
    simp only [Operation.tally, Nat.add_assoc] at posted' modest'
    exact ⟨last, es, holds', posted', modest'⟩

/-- A run notes a use no more often than it has calls that note one. -/
theorem noted_le_countP (c : Context π) (u : Use) (identity : UInt32) (ops : List Operation) :
    c.noted u identity ops ≤ ops.countP fun op => op.use?.isSome := by
  induction ops generalizing c with
  | nil => exact Nat.le_refl _
  | cons op ops ih =>
    have behind := ih (op.after c)
    rw [noted, List.countP_cons]
    cases use : op.use? with
    | none =>
      rw [Operation.notes, use]
      simpa using behind
    | some _ =>
      have := (op.notes c u identity).toNat_le
      simp only [Option.isSome_some, if_true]
      omega

theorem sparse_of_length (short : ops.length < 4294967296) : c.Sparse ops := by
  rintro earlier stretch later rfl - u identity
  have := (c.run earlier).noted_le_countP u identity stretch
  have := stretch.countP_le_length (p := fun op => op.use?.isSome)
  simp only [List.length_append] at short
  omega

omit [Predictor π] in
/-- Nothing is on record at the start. -/
theorem posted_nil (config : Config) : Posted config (fun _ _ => 0) (fun _ _ => 0)
    ({} : Database).nextIdentity [] ({} : Database).table :=
  ⟨.nil, by simp [Table.identities], by simp, fun _ _ _ => rfl⟩

/-- Reductions by rank that collect statistics. -/
def generatingConfig : Config where
  predicting.generating := ⟨"genmldata", false, true, true, .configuration⟩

/-- One live redundant clause is held, with a count of propagations, and there is no row. -/
def Lone (c : Context π) (props : UInt32) : Prop :=
  ∃ d, c.database.Holds [d] ∧ d.Learned ∧ d.header.identity = 1 ∧ d.header.props = props ∧
    c.database.table.rows = #[]

namespace Lone

variable {props : UInt32}

omit [Predictor π] in
theorem lawful (h : c.Lone props) : (Operation.notePropagation .start).Lawful c := by
  obtain ⟨d, holds, -⟩ := h
  exact .inl (holds.tiled.mem_walk.2 ⟨d, at_start d⟩)

omit [Predictor π] in
theorem notes (h : c.Lone props) : (Operation.notePropagation .start).notes c .propagation 1 = true := by
  obtain ⟨d, holds, -, identity_eq, -⟩ := h
  rw [Operation.notes_eq holds rfl (at_start d), identity_eq]
  rfl

/-- A note of a propagation is one more on record, if the count has room. -/
theorem note (h : c.Lone props) :
    ((Operation.notePropagation .start).after c).Lone (Header.bump props) := by
  have notes := h.notes
  have lawful := h.lawful
  obtain ⟨d, holds, learned, identity_eq, props_eq, rows_eq⟩ := h
  obtain ⟨c', ds, ms, after_eq, effect⟩ := exists_effect holds lawful
  have held := holds_after after_eq (effect.holds holds)
  rw [Operation.answer_of_notes holds notes] at effect
  rw [after_eq] at held ⊢
  cases effect with
  | beside aside => cases aside
  | noted note found =>
    cases note
    have cell_eq : ∀ f, mapAt (Arena.only Reference.start.offset f) 0 [d] = [d.revised f] := fun _ => rfl
    rw [cell_eq] at held
    exact ⟨_, held, learned, identity_eq, congrArg Header.bump props_eq, rows_eq⟩

/-- A reduction of an inconsistent search does not fail, and clears no count. -/
theorem unsatisfiable (h : c.Lone props) :
    Succeeds (.reduce { inconsistent := true }) c ∧
      ((Operation.reduce { inconsistent := true }).after c).Lone props := by
  obtain ⟨d, holds, learned, identity_eq, props_eq, rows_eq⟩ := h
  have lawful : (Operation.reduce { inconsistent := true }).Lawful c := by simp [Operation.Lawful]
  obtain ⟨c', ds, ms, after_eq, effect⟩ := exists_effect holds lawful
  have held := holds_after after_eq (effect.holds holds)
  rw [Succeeds]
  generalize (Operation.reduce { inconsistent := true }).answer c = answer at effect
  rw [after_eq] at held ⊢
  cases effect with
  | beside aside => cases aside
  | noted note => cases note
  | refused single => cases single
  | reduced reduction =>
    cases reduction with
    | unstarted => exact ⟨fun _ => rfl, d, held, learned, identity_eq, props_eq, rows_eq⟩
    | unsatisfiable => exact ⟨fun _ => rfl, d, held, learned, identity_eq, props_eq, rows_eq⟩
    | barred _ _ consistent => cases consistent
    | failed _ _ _ _ proceeds => cases proceeds.2
    | idle _ _ _ _ _ proceeds => cases proceeds.2
    | compacted _ _ _ _ _ _ _ _ _ proceeds => cases proceeds.2

/-- Propagations that are noted one after another are all noted, and on record as far as a count goes. -/
theorem replicate (h : c.Lone props) (k : Nat) :
    c.Follows (List.replicate k (.notePropagation .start)) ∧
      c.noted .propagation 1 (List.replicate k (.notePropagation .start)) = k ∧
      (c.run (List.replicate k (.notePropagation .start))).Lone (Header.bump^[k] props) := by
  induction k generalizing c props with
  | zero => exact ⟨trivial, rfl, h⟩
  | succ k ih =>
    obtain ⟨follows, noted_eq, behind⟩ := ih h.note
    refine ⟨⟨h.lawful, follows⟩, ?_, behind⟩
    rw [List.replicate_succ, Context.noted, h.notes, noted_eq, Bool.toNat_true, Nat.add_comm]

end Lone

end Context

end ClauseStore
