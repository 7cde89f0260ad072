import ClauseStore.Proofs.Aging
import ClauseStore.Proofs.Scoring

/-!
Grace along runs. The note of a use in an analysis grants two reductions to a clause of the second tier.
A reduction takes at most one from its grace and spares a clause that has some, so neither of the next two
reductions removes it, whatever calls come in between. A reduction that considers it takes one, so behind
two of these nothing is left of the grace, unless another use was noted.
-/

namespace ClauseStore

open Cell Database

/-! ### The clause of an identity -/

/-- A note keeps grace, but for that of a use in an analysis: it grants two reductions to a clause of the
second tier, and else one. -/
theorem Operation.grace_of_note {π : Type} {c : Context π} {op : Operation} {r : Reference}
    {f : Header → Header} (note : op.note? c = some (r, f)) (h : Header) :
    (f h).identity = h.identity ∧ (f h).glue = h.glue ∧ ((f h).grace = h.grace ∨ op = .noteUsed r ∧
      (f h).grace.toNat = if h.glue.toNat ≤ c.config.retention.tier2.value.toNat then 2 else 1) := by
  cases op <;> simp only [note?, Option.some.injEq, Prod.mk.injEq, reduceCtorEq] at note <;>
    obtain ⟨rfl, rfl⟩ := note
  case noteUsed r =>
    refine ⟨rfl, rfl, .inr ⟨rfl, ?_⟩⟩
    simp only [graced]
    split <;> rfl
  all_goals exact ⟨rfl, rfl, .inl rfl⟩

namespace Cell

/-- The clause of an identity is of the second tier, and its grace is within bounds. -/
def Granted (i tier2 : UInt32) (lo hi : Nat) (cs : List Cell) : Prop :=
  ∀ d ∈ cs, d.header.identity = i →
    d.header.glue.toNat ≤ tier2.toNat ∧ lo ≤ d.header.grace.toNat ∧ d.header.grace.toNat ≤ hi

/-- The clause of an identity is live. -/
def Lives (i : UInt32) (cs : List Cell) : Prop :=
  ∃ d ∈ cs, d.isGarbage = false ∧ d.header.identity = i

variable {i tier2 : UInt32} {lo hi lo' hi' k : Nat} {cs ds xs ys : List Cell} {c d : Cell}

namespace Granted

theorem mono (h : Granted i tier2 lo hi cs) (lower : lo' ≤ lo) (higher : hi ≤ hi') :
    Granted i tier2 lo' hi' cs := by
  intro d hd own
  obtain ⟨glue, least, most⟩ := h d hd own
  exact ⟨glue, Nat.le_trans lower least, Nat.le_trans most higher⟩

theorem inherit (h : Granted i tier2 lo hi cs) (springs : Springs Header.Inherits cs ds) :
    Granted i tier2 lo hi ds := by
  intro d hd own
  obtain ⟨c, hc, inherits⟩ := springs d hd
  rw [inherits.glue_eq, inherits.grace_eq]
  exact h c hc (inherits.identity_eq.symm.trans own)

/-- A note may grant two reductions of grace. -/
theorem noted {π : Type} {c : Context π} {op : Operation} {r : Reference} {f : Header → Header}
    (h : Granted i tier2 lo hi cs) (grants : c.config.Grants tier2) (note : op.note? c = some (r, f))
    (found : At 0 cs r.offset d)
    (used : op = .noteUsed r → d.header.identity = i → lo ≤ 2 ∧ 2 ≤ hi) :
    Granted i tier2 lo hi (mapAt (Arena.only r.offset f) 0 cs) := by
  intro e he own
  obtain ⟨k, at_e⟩ := exists_at 0 he
  obtain ⟨d', hd', rfl⟩ := at_mapAt.1 at_e
  simp only [revised, Arena.only] at own ⊢
  split
  next here =>
    subst here
    obtain rfl := hd'.unique found
    rw [if_pos rfl] at own
    obtain ⟨identity_eq, glue_eq, grace_eq⟩ := Operation.grace_of_note note d'.header
    have bounds := h d' found.mem (identity_eq.symm.trans own)
    rw [glue_eq]
    rcases grace_eq with same | ⟨rfl, granted⟩
    · rw [same]
      exact bounds
    · rw [grants.tier2_eq, if_pos bounds.1] at granted
      rw [granted]
      exact ⟨bounds.1, used rfl (identity_eq.symm.trans own)⟩
  next away =>
    rw [if_neg away] at own
    exact h d' hd'.mem own

end Granted

/-- A clause of the second tier that was used is granted two reductions. -/
theorem granted_graced (ascending : (cs.map identity).Pairwise (· < ·)) (hd : At 0 cs k d)
    (live : d.isGarbage = false) (low : d.header.glue.toNat ≤ tier2.toNat) :
    Granted d.header.identity tier2 2 2 (mapAt (Arena.only k (Database.graced tier2)) 0 cs) ∧
      Lives d.header.identity (mapAt (Arena.only k (Database.graced tier2)) 0 cs) := by
  have there : At 0 (mapAt (Arena.only k (Database.graced tier2)) 0 cs) k
      (d.revised (Arena.only k (Database.graced tier2) k)) := at_mapAt.2 ⟨d, hd, rfl⟩
  rw [Arena.only, if_pos rfl] at there
  refine ⟨fun e he own => ?_, _, there.mem, live, rfl⟩
  obtain ⟨j, at_e⟩ := exists_at 0 he
  obtain ⟨d', hd', rfl⟩ := at_mapAt.1 at_e
  have own : d'.header.identity = d.header.identity := by
    rw [← own]
    simp only [revised, Arena.only]
    split <;> rfl
  obtain ⟨rfl, rfl⟩ := eq_of_identity ascending hd hd' (congrArg UInt32.toNat own.symm)
  simp [revised, Arena.only, Database.graced, low]

namespace Lives

theorem of_core (h : Lives i cs) (core_eq : ds.map core = cs.map core) : Lives i ds := by
  obtain ⟨d, hd, live, own⟩ := h
  obtain ⟨k, at_d⟩ := exists_at 0 hd
  obtain ⟨e, he, same⟩ := at_d.of_map_eq core_eq
  exact ⟨e, he.mem, (isGarbage_eq_of_core same).trans live,
    (UInt32.toNat_inj.1 (identity_eq_of_core same)).trans own⟩

/-- Another clause may be marked. -/
theorem marked (h : Lives i cs) (found : At 0 cs k d) (other : d.header.identity ≠ i) :
    Lives i (markAt k cs) := by
  obtain ⟨e, he, live, own⟩ := h
  obtain ⟨j, at_e⟩ := exists_at 0 he
  have apart : j ≠ k := by
    rintro rfl
    obtain rfl := at_e.unique found
    exact other own
  exact ⟨e, (at_e.markAt apart).mem, live, own⟩

theorem promoted (h : Lives i cs) (k : Nat) : Lives i (promoteAt k cs) := by
  obtain ⟨e, he, live, own⟩ := h
  obtain ⟨j, at_e⟩ := exists_at 0 he
  refine ⟨_, (at_mapAt.2 ⟨e, at_e, rfl⟩).mem, ?_⟩
  simp only [isGarbage, revised, Arena.only]
  split
  · exact ⟨live, own⟩
  · exact ⟨live, own⟩

theorem shortened (h : Lives i (xs ++ d :: ys)) (n : Nat) : Lives i (xs ++ d.shrunk n :: ys) := by
  obtain ⟨e, he, live, own⟩ := h
  rcases List.mem_append.1 he with front | he
  · exact ⟨e, List.mem_append_left _ front, live, own⟩
  rcases List.mem_cons.1 he with rfl | behind
  · exact ⟨e.shrunk n, by simp, live, own⟩
  · exact ⟨e, List.mem_append_right _ (List.mem_cons_of_mem _ behind), live, own⟩

theorem settled (h : Lives i (xs ++ ys)) (fill : Nat → UInt32) (n : Nat) :
    Lives i (xs ++ settle fill n ys) := by
  obtain ⟨d, hd, live, own⟩ := h
  obtain ⟨e, he, alive, identity_eq⟩ := exists_live_settle fill n hd live
  exact ⟨e, he, alive, identity_eq.trans own⟩

end Lives

end Cell

namespace Context.Aged

variable {π : Type} {c : Context π} {search : Snapshot} {cs ds : List Cell} {i tier2 : UInt32}
  {lo hi k : Nat} {d : Cell}

/-- At most one is taken from the grace of a clause. -/
theorem granted (h : c.Aged search cs ds) (before : Granted i tier2 lo hi cs) :
    Granted i tier2 (lo - 1) hi ds := by
  intro e he own
  obtain ⟨k, d, hd, ages⟩ := h.springs e he
  obtain ⟨glue, least, most⟩ := before d hd.mem (ages.identity_eq.symm.trans own)
  have := ages.le
  have := ages.ge
  rw [ages.glue_eq]
  omega

/-- One is taken from the grace of a clause that the scan considers. -/
theorem spent (h : c.Aged search cs ds) (holds : c.database.Holds cs) (considers : c.Considers search k)
    (own : (c.database.arena.header k).identity = i) (before : Granted i tier2 lo hi cs) :
    Granted i tier2 (lo - 1) (hi - 1) ds := by
  obtain ⟨d, hd⟩ := holds.tiled.mem_walk.1 considers.record
  have loose := considers.loose
  rw [holds.tiled.header_eq hd] at own loose
  intro e he own'
  obtain ⟨k', d', hd', ages⟩ := h.springs e he
  have own' := ages.identity_eq.symm.trans own'
  obtain ⟨rfl, rfl⟩ := eq_of_identity holds.ascending hd hd' (congrArg UInt32.toNat (own.trans own'.symm))
  obtain ⟨glue, least, most⟩ := before d hd.mem own
  have := ages.spent ⟨considers.toScans, considers.unlisted, loose⟩
  rw [ages.glue_eq]
  omega

/-- A clause in grace is not removed. -/
theorem lives (h : c.Aged search cs ds) (grants : c.config.Grants tier2) (granted : Granted i tier2 lo hi cs)
    (some : 0 < lo) (alive : Lives i cs) : Lives i ds := by
  obtain ⟨d, hd, live, own⟩ := alive
  obtain ⟨glue, least, -⟩ := granted d hd own
  obtain ⟨e, he, live', identity_eq⟩ := h.survives d hd live fun _ =>
    (graced_iff grants).2 ⟨Nat.lt_of_lt_of_le some least, glue⟩
  exact ⟨e, he, live', identity_eq.trans own⟩

end Context.Aged

/-! ### Calls -/

/-- A reference is to the clause of an identity. -/
def Database.identifies (db : Database) (r : Reference) (i : UInt32) : Bool :=
  decide (r.offset ∈ (db.arena.walkFrom 0).1) && (db.arena.header r.offset).identity == i

theorem Database.Holds.identifies_eq {db : Database} {cs : List Cell} (holds : db.Holds cs) {r : Reference}
    {d : Cell} (found : At 0 cs r.offset d) (i : UInt32) :
    db.identifies r i = (d.header.identity == i) := by
  rw [identifies, holds.tiled.header_eq found, decide_eq_true (holds.tiled.mem_walk.2 ⟨d, found⟩),
    Bool.true_and]

namespace Operation

variable {π : Type}

/-- The call notes that the clause of an identity was used in an analysis. -/
def grants (op : Operation) (c : Context π) (i : UInt32) : Bool :=
  match op with
  | noteUsed r => c.database.identifies r i
  | _ => false

/-- The call marks the clause of an identity. -/
def marks (op : Operation) (c : Context π) (i : UInt32) : Bool :=
  match op with
  | markGarbage r => c.database.identifies r i
  | _ => false

/-- The call is a reduction that considers the clause of an identity. -/
def weighs (op : Operation) (c : Context π) (i : UInt32) : Bool :=
  match op with
  | reduce search => (c.database.arena.walkFrom 0).1.any fun o =>
      (c.database.arena.header o).identity == i && decide (c.Considers search o)
  | _ => false

/-- The call leaves clauses ranked, and the second tier as it is. -/
def Fixes (tier2 : UInt32) : Operation → Prop
  | configure config => config.Grants tier2
  | _ => True

instance (tier2 : UInt32) : (op : Operation) → Decidable (op.Fixes tier2)
  | configure config => inferInstanceAs (Decidable (config.Grants tier2))
  | listen _ | create .. | noteConflict | notePropagation _ | noteUip _ | noteUsed _ | setReason ..
  | shrink .. | markGarbage _ | makeIrredundant _ | deleteBinary .. | setWatching _ | queuePending _
  | takePending | connectPending | collect _ | reduce _ => inferInstanceAs (Decidable True)

end Operation

namespace Effect

variable {π : Type} {c c' : Context π} {cs ds : List Cell} {op : Operation} {a : Except Error Answer}
  {i tier2 : UInt32} {lo hi : Nat}

theorem fixes (h : Effect c cs op a c' ds) (grants : c.config.Grants tier2) (fixes : op.Fixes tier2) :
    c'.config.Grants tier2 := by
  cases h with
  | configured => exact fixes
  | beside _ config_eq =>
    rw [config_eq]
    exact grants
  | _ => exact grants

/-- No call but a reduction takes grace, and a note of use grants two. -/
theorem granted (h : Effect c cs op a c' ds) (holds : c.database.Holds cs) (grants : c.config.Grants tier2)
    (known : i.toNat < c.database.nextIdentity.toNat) (still : op.reduces = false)
    (used : op.grants c i = true → lo ≤ 2 ∧ 2 ≤ hi) (before : Granted i tier2 lo hi cs) :
    Granted i tier2 lo hi ds := by
  cases h with
  | configured => exact before
  | beside => exact before
  | refused => exact before
  | stored storage =>
    cases storage with
    | refused => exact before
    | binary => exact before
    | long =>
      intro d hd own
      rcases List.mem_append.1 hd with hd | new
      · exact before d hd own
      · rw [List.mem_singleton.1 new] at own
        exact absurd (congrArg UInt32.toNat own) (Nat.ne_of_gt known)
  | noted note found =>
    refine before.noted grants note found ?_
    rintro rfl own
    refine used ?_
    rw [Operation.grants, holds.identifies_eq found, own]
    exact beq_self_eq_true i
  | @marked r => exact before.inherit (springs_markAt r.offset cs)
  | @promoted r => exact before.inherit (springs_promoteAt r.offset cs)
  | @shortened r size xs ys d split =>
    subst split
    exact before.inherit (springs_shrunk xs ys d size.toNat)
  | @collected start xs ys _ _ split =>
    subst split
    exact before.inherit (springs_settle _ _ xs ys)
  | reduced => cases still

/-- No call but a reduction, or one that marks it, removes a clause. -/
theorem lives (h : Effect c cs op a c' ds) (holds : c.database.Holds cs) (still : op.reduces = false)
    (unmarked : op.marks c i = false) (alive : Lives i cs) : Lives i ds := by
  cases h with
  | configured => exact alive
  | beside => exact alive
  | refused => exact alive
  | stored storage =>
    cases storage with
    | refused => exact alive
    | binary => exact alive
    | long =>
      obtain ⟨d, hd, live, own⟩ := alive
      exact ⟨d, List.mem_append_left _ hd, live, own⟩
  | noted note =>
    refine alive.of_core (map_revised_mapAt (fun k h => ?_) 0 cs)
    rw [Arena.only]
    split
    · exact Operation.core_of_note note h
    · rfl
  | marked found =>
    rw [Operation.marks, holds.identifies_eq found, beq_eq_false_iff_ne] at unmarked
    exact alive.marked found unmarked
  | @promoted r => exact alive.promoted r.offset
  | shortened split =>
    subst split
    exact alive.shortened _
  | collected split =>
    subst split
    exact alive.settled _ _
  | reduced => cases still

/-- A reduction by rank ages clauses. -/
theorem aged {search : Snapshot} (h : Effect c cs (.reduce search) a c' ds) (holds : c.database.Holds cs)
    (untracked : c.config.collecting = false) : c.Aged search cs ds := by
  cases h with
  | beside aside => cases aside
  | noted note => cases note
  | refused single => cases single
  | reduced reduction =>
    have aged := Context.Aged.of_reduction reduction untracked holds
    refine ⟨fun e he => ?_, aged.survives⟩
    obtain ⟨k, d, hd, ages⟩ := aged.springs e he
    exact ⟨k, d, hd, ages.imp fun ⟨scans, rest⟩ => ⟨⟨scans.proceeds, scans.named, scans.behind⟩, rest⟩⟩

end Effect

/-! ### Runs -/

namespace Context

variable {π : Type} [Predictor π]

/-- The clause of an identity has been stored, and its grace is within bounds. -/
structure Granting (c : Context π) (i tier2 : UInt32) (lo hi : Nat) (cs : List Cell) : Prop where
  holds : c.database.Holds cs
  grants : c.config.Grants tier2
  known : i.toNat < c.database.nextIdentity.toNat
  granted : Granted i tier2 lo hi cs

variable {c : Context π} {cs : List Cell} {op : Operation} {ops : List Operation} {i tier2 : UInt32}
  {lo hi lo' hi' : Nat}

omit [Predictor π] in
theorem Granting.mono (h : c.Granting i tier2 lo hi cs) (lower : lo' ≤ lo) (higher : hi ≤ hi') :
    c.Granting i tier2 lo' hi' cs :=
  ⟨h.holds, h.grants, h.known, h.granted.mono lower higher⟩

/-- A reduction takes at most one from the grace of a clause, and one if it considers it; no other call
takes any. What has some grace stays live unless it is marked. -/
theorem Granting.exists_after (h : c.Granting i tier2 lo hi cs) (lawful : op.Lawful c)
    (fixes : op.Fixes tier2) (used : op.grants c i = true → lo ≤ 2 ∧ 2 ≤ hi) :
    ∃ ds, (op.after c).Granting i tier2 (lo - op.reduces.toNat) (hi - (op.weighs c i).toNat) ds ∧
      (op.marks c i = false → (op.reduces = true → 0 < lo) → Lives i cs → Lives i ds) := by
  obtain ⟨c', ds, ms, after_eq, effect⟩ := exists_effect h.holds lawful
  have left := holds_after after_eq (effect.holds h.holds)
  have grants : (op.after c).config.Grants tier2 := by
    rw [after_eq]
    exact effect.fixes h.grants fixes
  have known : i.toNat < (op.after c).database.nextIdentity.toNat := by
    rw [after_eq]
    exact Nat.lt_of_lt_of_le h.known (effect.grows h.holds).2
  cases reduces : op.reduces with
  | false =>
    have unweighed : op.weighs c i = false := by
      cases op <;> first | rfl | cases reduces
    rw [unweighed]
    exact ⟨ds, ⟨left, grants, known, effect.granted h.holds h.grants h.known reduces used h.granted⟩,
      fun unmarked _ => effect.lives h.holds reduces unmarked⟩
  | true =>
    obtain ⟨search, rfl⟩ : ∃ search, op = .reduce search := by
      cases op with
      | reduce search => exact ⟨search, rfl⟩
      | _ => cases reduces
    have aged := effect.aged h.holds h.grants.collecting
    refine ⟨ds, ⟨left, grants, known, ?_⟩, fun _ some => aged.lives h.grants h.granted (some rfl)⟩
    cases weighed : (Operation.reduce search).weighs c i with
    | false => exact aged.granted h.granted
    | true =>
      obtain ⟨o, -, considered⟩ := List.any_eq_true.1 weighed
      rw [Bool.and_eq_true, beq_iff_eq, decide_eq_true_eq] at considered
      exact aged.spent h.holds considered.2 considered.1 h.granted

/-- The count of reductions in a run that consider the clause of an identity. -/
def weighings (c : Context π) (i : UInt32) : List Operation → Nat
  | [] => 0
  | op :: ops => (op.weighs c i).toNat + (op.after c).weighings i ops

/-- A clause is not removed by as many reductions as it has grace. -/
theorem Granting.exists_live (h : c.Granting i tier2 lo 3 cs) (alive : Lives i cs) (two : lo ≤ 2)
    (follows : c.Follows ops) (fixed : ∀ op ∈ ops, op.Fixes tier2)
    (unmarked : c.Throughout (fun op d => op.marks d i = false) ops)
    (few : ops.countP Operation.reduces ≤ lo) :
    ∃ o ∈ (c.run ops).database.arena.live, ((c.run ops).database.arena.header o).identity = i := by
  induction ops generalizing c cs lo with
  | nil =>
    obtain ⟨d, hd, live, own⟩ := alive
    obtain ⟨k, at_d⟩ := exists_at 0 hd
    refine ⟨k, h.holds.mem_live.2 ⟨d, at_d, live⟩, ?_⟩
    rw [run, List.foldl_nil, h.holds.tiled.header_eq at_d, own]
  | cons op ops ih =>
    obtain ⟨lawful, follows⟩ := follows
    obtain ⟨here, unmarked⟩ := unmarked
    have few : ops.countP Operation.reduces + op.reduces.toNat ≤ lo := by
      rw [List.countP_cons] at few
      cases reduces : op.reduces <;> simpa [reduces] using few
    obtain ⟨ds, next, lives⟩ := h.exists_after lawful (fixed op (by simp)) fun _ => ⟨two, by decide⟩
    have some : op.reduces = true → 0 < lo := by
      intro reduces
      rw [reduces, Bool.toNat_true] at few
      omega
    exact ih (next.mono (Nat.le_refl _) (Nat.sub_le _ _)) (lives here some alive)
      (Nat.le_trans (Nat.sub_le _ _) two) follows (fun op hop => fixed op (by simp [hop])) unmarked
      (Nat.le_sub_of_add_le few)

/-- Reductions that consider a clause of which no use is noted exhaust its grace. -/
theorem Granting.exists_spent (h : c.Granting i tier2 0 hi cs) (follows : c.Follows ops)
    (fixed : ∀ op ∈ ops, op.Fixes tier2) (unused : c.Throughout (fun op d => op.grants d i = false) ops) :
    ∃ ds, (c.run ops).Granting i tier2 0 (hi - c.weighings i ops) ds := by
  induction ops generalizing c cs hi with
  | nil => exact ⟨cs, h⟩
  | cons op ops ih =>
    obtain ⟨lawful, follows⟩ := follows
    obtain ⟨here, unused⟩ := unused
    obtain ⟨ds, next, -⟩ := h.exists_after lawful (fixed op (by simp)) fun grants =>
      absurd (here.symm.trans grants) Bool.false_ne_true
    rw [Nat.zero_sub] at next
    obtain ⟨es, last⟩ := ih next follows (fun op hop => fixed op (by simp [hop])) unused
    exact ⟨es, by rwa [weighings, ← Nat.sub_sub]⟩

/-- The grace of a clause of the second tier, since a use of it in an analysis was noted. -/
structure Lasts (c : Context π) (i : UInt32) (ops : List Operation) : Prop where
  /-- two reductions do not remove the clause, unless it is marked -/
  spared : c.Throughout (fun op d => op.marks d i = false) ops → ops.countP Operation.reduces ≤ 2 →
    ∃ o ∈ (c.run ops).database.arena.live, ((c.run ops).database.arena.header o).identity = i
  /-- behind two reductions that considered it, it is a candidate of every one that does, unless another
  use was noted -/
  spent : c.Throughout (fun op d => op.grants d i = false) ops → 2 ≤ c.weighings i ops →
    ∀ search o, (c.run ops).Considers search o →
      ((c.run ops).database.arena.header o).identity = i → (c.run ops).Nominates search o

/-- Clauses stay ranked, with the second tier as it is, along a run that fixes both. -/
theorem exists_fixed (holds : c.database.Holds cs) (grants : c.config.Grants tier2)
    (follows : c.Follows ops) (fixed : ∀ op ∈ ops, op.Fixes tier2) :
    ∃ ds, (c.run ops).database.Holds ds ∧ (c.run ops).config.Grants tier2 := by
  induction ops generalizing c cs with
  | nil => exact ⟨cs, holds, grants⟩
  | cons op ops ih =>
    obtain ⟨lawful, follows⟩ := follows
    obtain ⟨c', ds, ms, after_eq, effect⟩ := exists_effect holds lawful
    have left : (op.after c).config.Grants tier2 := by
      rw [after_eq]
      exact effect.fixes grants (fixed op (by simp))
    exact ih (holds_after after_eq (effect.holds holds)) left follows fun op hop => fixed op (by simp [hop])

/-- A note of the use of a clause of the second tier grants it two reductions. -/
theorem exists_granting {r : Reference} (holds : c.database.Holds cs) (grants : c.config.Grants tier2)
    (live : r.offset ∈ c.database.arena.live)
    (low : (c.database.arena.header r.offset).glue.toNat ≤ tier2.toNat) :
    ∃ ds, ((Operation.noteUsed r).after c).Granting (c.database.arena.header r.offset).identity tier2 2 2 ds ∧
      Lives (c.database.arena.header r.offset).identity ds := by
  obtain ⟨d, hd, live⟩ := holds.mem_live.1 live
  rw [holds.tiled.header_eq hd] at low ⊢
  obtain rfl := grants.tier2_eq
  have noted : Yields (Operation.noteUsed r).perform c _ _ := Operation.yields_answered
    (Yields.get_bind (fun _ => rfl) (yields_onDatabase (yields_note holds hd _))) fun _ => .done
  obtain ⟨ms, outcome_eq⟩ := noted.outcome_eq
  rw [show (Operation.noteUsed r).after c = _ from congrArg Prod.snd outcome_eq]
  obtain ⟨granted, alive⟩ := granted_graced holds.ascending hd live low
  have left := holds.noted (f := Database.graced c.config.retention.tier2.value) (fun _ => rfl) r.offset
  exact ⟨_, ⟨left.logged ms, grants, holds.below d hd.mem, granted⟩, alive⟩

/-- The grace of a clause lasts from the note that granted it on. -/
theorem Granting.lasts (h : c.Granting i tier2 2 2 cs) (alive : Lives i cs) (follows : c.Follows ops)
    (fixed : ∀ op ∈ ops, op.Fixes tier2) : c.Lasts i ops := by
  constructor
  case spared =>
    exact (h.mono (Nat.le_refl 2) (by decide)).exists_live alive (Nat.le_refl 2) follows fixed
  case spent =>
    intro unused twice search o considers own
    obtain ⟨ds, holds, grants, -, granted⟩ :=
      (h.mono (Nat.zero_le 2) (Nat.le_refl 2)).exists_spent follows fixed unused
    refine considers.nominates holds grants (Bool.eq_false_iff.2 fun graced => ?_)
    obtain ⟨d, hd⟩ := holds.tiled.mem_walk.1 considers.record
    rw [graced_iff grants, holds.tiled.header_eq hd] at graced
    rw [holds.tiled.header_eq hd] at own
    obtain ⟨-, -, most⟩ := granted d hd.mem own
    omega

/-- Behind every lawful run by rank with a fixed second tier, and without features, grace lasts exactly two
reductions: once the use of a clause of the second tier was noted, neither of the next two reductions
removes it, whatever calls come in between; and if no other use is noted, it is a candidate of every scan
that considers it behind two that did. A clause beyond the second tier is a candidate of every scan that
considers it. -/
theorem grace_lasts (config : Config) (predictor : π) (tier2 : UInt32) (ops : List Operation)
    (grants : config.Grants tier2) (follows : (ofConfig config predictor).Follows ops)
    (fixed : ∀ op ∈ ops, op.Fixes tier2) :
    (∀ before r after, ops = before ++ .noteUsed r :: after →
      r.offset ∈ ((ofConfig config predictor).run before).database.arena.liveOf true →
      (((ofConfig config predictor).run before).database.arena.header r.offset).glue.toNat ≤ tier2.toNat →
      ((ofConfig config predictor).run (before ++ [.noteUsed r])).Lasts
        (((ofConfig config predictor).run before).database.arena.header r.offset).identity after) ∧
    ∀ search o, ((ofConfig config predictor).run ops).Considers search o →
      tier2.toNat < (((ofConfig config predictor).run ops).database.arena.header o).glue.toNat →
      ((ofConfig config predictor).run ops).Nominates search o := by
  have start : (ofConfig config predictor).database.Holds [] := holds_nil
  constructor
  · rintro before r after rfl live low
    obtain ⟨first, -, rest⟩ := follows_append.1 follows
    obtain ⟨cs, holds, grants⟩ := exists_fixed start grants first fun op hop => fixed op (by simp [hop])
    obtain ⟨ds, granting, alive⟩ := exists_granting holds grants (List.mem_filter.1 live).1 low
    rw [run_append]
    exact granting.lasts alive rest fun op hop => fixed op (by simp [hop])
  · intro search o considers beyond
    obtain ⟨cs, holds, grants⟩ := exists_fixed start grants follows fixed
    refine considers.nominates holds grants (Bool.eq_false_iff.2 fun graced => ?_)
    have := ((graced_iff grants).1 graced).2
    omega

/-- A clause of the second tier, and one beyond it that is used. -/
def usingRun : List Operation :=
  [.create .redundant 4 [⟨1⟩, ⟨2⟩, ⟨3⟩, ⟨5⟩], .create .redundant 9 [⟨1⟩, ⟨2⟩, ⟨4⟩], .noteUsed (.ofOffset 12)]

/-- Two reductions for which the clause beyond is a reason, and the other one is shortened in between. -/
def agingRun : List Operation :=
  [.reduce { reasons := [.ofOffset 12] }, .shrink (.ofOffset 0) 3, .reduce { reasons := [.ofOffset 12] }]

/-- The clause stays for two reductions, and the third one may remove it, like the one beyond. -/
theorem grace_lasts_agingRun :
    (({} : Config).Grants 6 ∧
      (ofConfig {} ({} : Linear)).Follows (usingRun ++ .noteUsed (.ofOffset 0) :: agingRun) ∧
      ∀ op ∈ usingRun ++ .noteUsed (.ofOffset 0) :: agingRun, op.Fixes 6) ∧
    (∃ o ∈ (((ofConfig {} ({} : Linear)).run (usingRun ++ [.noteUsed (.ofOffset 0)])).run
        agingRun).database.arena.live,
      ((((ofConfig {} ({} : Linear)).run (usingRun ++ [.noteUsed (.ofOffset 0)])).run
        agingRun).database.arena.header o).identity = 1) ∧
    (((ofConfig {} ({} : Linear)).run (usingRun ++ [.noteUsed (.ofOffset 0)])).run agingRun).Nominates {} 0 ∧
    ((ofConfig {} ({} : Linear)).run (usingRun ++ .noteUsed (.ofOffset 0) :: agingRun)).Nominates {} 12 := by
  have grants : ({} : Config).Grants 6 := ⟨rfl, rfl⟩
  have follows : (ofConfig {} ({} : Linear)).Follows
      (usingRun ++ .noteUsed (.ofOffset 0) :: agingRun) := by decide +kernel
  have fixed : ∀ op ∈ usingRun ++ .noteUsed (.ofOffset 0) :: agingRun, op.Fixes 6 := by decide
  obtain ⟨lasting, beyond⟩ := grace_lasts {} ({} : Linear) 6
    (usingRun ++ .noteUsed (.ofOffset 0) :: agingRun) grants follows fixed
  have own : (((ofConfig {} ({} : Linear)).run usingRun).database.arena.header
      (Reference.ofOffset 0).offset).identity = 1 := by decide +kernel
  have lasts := lasting usingRun (.ofOffset 0) agingRun rfl (by decide +kernel) (by decide +kernel)
  rw [own] at lasts
  refine ⟨⟨grants, follows, fixed⟩, lasts.spared (by decide +kernel) (by decide),
    lasts.spent (by decide +kernel) (by decide +kernel) {} 0 (by decide +kernel) (by decide +kernel),
    beyond {} 12 (by decide +kernel) (by decide +kernel)⟩

end Context

end ClauseStore
