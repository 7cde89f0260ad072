import ClauseStore.Proofs.Conservation
import ClauseStore.Proofs.Crowding
import ClauseStore.Proofs.Integrity
import ClauseStore.Proofs.Traversal

/-!
Reductions by rank, exactly. The rank of a clause packs the complements of its glue and its size into one
word, so ranks ascend just where glue descends, and size where glue is equal; as the sort is stable, the
clauses of one rank stay in the order of the arena. So what a reduction by rank removes can be read off
the arena before it: the worst clauses of those that are neither kept, nor reasons, nor in grace.
-/

namespace ClauseStore

open Cell Database

/-! ### The order of ranks -/

/-- The clause at an offset is worse than the one at another: it has the greater glue, or the same and it
is larger, or the same and it stands before. -/
def Worse (header : Nat → Header) (o o' : Nat) : Prop :=
  (header o').glue.toNat < (header o).glue.toNat ∨ (header o).glue = (header o').glue ∧
    ((header o').size.toNat < (header o).size.toNat ∨ (header o).size = (header o').size ∧ o < o')

instance (header : Nat → Header) (o o' : Nat) : Decidable (Worse header o o') :=
  inferInstanceAs (Decidable (_ ∨ _))

namespace Candidate

variable {a b c : Candidate} {ks : List Nat}

end Candidate

/-! ### Evictions by rank -/

namespace ScanPlan

variable {plan : ScanPlan} {h : Header}

/-- By rank, what can be a candidate can be the first clause that counts. -/
theorem opens_of_elects (byRank : plan.byScore = false) (elected : plan.elects h = true) :
    plan.opens h = true := by
  simp only [elects, weigh, consider, byRank, Bool.and_eq_true] at elected
  obtain ⟨-, -, weighed⟩ := elected
  split at weighed
  · cases weighed
  · rw [if_neg (by decide)] at weighed
    split at weighed
    · cases weighed
    next unkept => simp [opens, unkept]

/-- A pass fails only where rows are kept. -/
theorem exists_scanCells_of_untracked (untracked : plan.collecting = false) (k : Nat) (cs : List Cell)
    (t : Table) (p : ScanProgress) : ∃ p' zs t', plan.scanCells k cs t p = (.ok p', zs, t') := by
  have step : ∀ k h t p, ∃ p' h' t', plan.scanCell k h t p = (.ok p', h', t') := by
    intro k h t p
    rw [scanCell]
    split
    · split
      · dsimp only
        split
        · exact ⟨_, _, _, rfl⟩
        · rw [accountIf, if_neg (by simp [untracked])]
          exact ⟨_, _, _, rfl⟩
      · exact ⟨_, _, _, rfl⟩
    · exact ⟨_, _, _, rfl⟩
  induction cs generalizing k t p with
  | nil => exact ⟨_, _, _, rfl⟩
  | cons c cs ih =>
    obtain ⟨p₁, h, t₁, stepped⟩ := step k c.header t p
    obtain ⟨p', zs, t', rest⟩ := ih (k + c.extent) t₁ p₁
    exact ⟨p', c.withHeader h :: zs, t', by simp only [scanCells, stepped, rest]⟩

end ScanPlan

/-- The event that tells the end of the clause at an offset. -/
def Arena.deletion (a : Arena) (o : Nat) : Event := .deletion (a.header o).identity (a.literals o)

namespace Context

variable {π : Type} [Predictor π]

section Passed

variable {c : Context π} {xs ys zs : List Cell} {start : Reference} {p : ScanProgress} {t : Table}
  (h : c.database.Holds (xs ++ ys)) (byRank : c.config.predicting.byScore.value = false)
  (pass : c.plan.scanCells (extents xs) ys (tableFor c.plan c.database.table) {} = (.ok p, zs, t))
include h byRank pass

variable (hs : start.offset = extents xs)
include hs

end Passed

/-! ### Reductions by rank -/

/-- Whether a clause is in grace: it was used, and is of the second tier. While features are generated,
none is. -/
def graced (c : Context π) (h : Header) : Bool :=
  !c.config.predicting.generating.value && decide (0 < h.grace.toNat) &&
    decide (h.glue.toNat ≤ c.config.retention.tier2.value.toNat)

/-- Whether a reduction by rank may choose the clause at an offset: it is live and redundant, neither
kept nor a reason, and not in grace. -/
def chooses (c : Context π) (search : Snapshot) (o : Nat) : Bool :=
  let h := c.database.arena.header o
  !h.flags.garbage && h.flags.redundant && !h.flags.keep && !h.flags.reason &&
    !(search.reasons.map Reference.offset).contains o && !c.graced h

/-- The clauses that a reduction by rank may choose, from the start of its scan on. -/
def eligible (c : Context π) (search : Snapshot) : List Nat :=
  let start := c.scanStart (c.whole search)
  if start.isValid then (c.database.arena.walkFrom start.offset).1.filter (c.chooses search) else []

end Context

/-- A reduction by rank has removed a percentage of some clauses, the worst first, and no other clause. -/
def Culled (search : Snapshot) (fraction : UInt32) (eligible : List Nat) (db : Database)
    (result : Report × Snapshot) (db' : Database) : Prop :=
  ∃ (order : List Nat) (moved : Relocation), order.Perm eligible ∧ order.Pairwise (Worse db.arena.header) ∧
    result.1 = (if eligible = [] then .nothingToReduce
      else .reduced (Candidate.quota eligible.length fraction)) ∧
    Conserved false search db (.ok result) db' moved
      (order.take (Candidate.quota eligible.length fraction))

/-- A walk from a place between two cells visits those behind it, whatever their headers have become. -/
theorem Arena.Tiled.walkFrom_behind {a : Arena} {cs xs ys : List Cell} (h : a.Tiled cs)
    (same : (xs ++ ys).map extent = cs.map extent) :
    (a.walkFrom (extents xs)).1 = offsets (extents xs) ys := by
  rw [List.map_append] at same
  obtain ⟨xs', ys', rfl, before, behind⟩ := List.map_eq_append_iff.1 same.symm
  rw [← extents_eq before, h.walkFrom_eq, offsets_eq behind]

namespace Database.Holds

variable {db : Database} {cs : List Cell} {k : Nat}

/-- Flags of reasons change nothing else of a clause. -/
theorem view_flagged (h : db.Holds cs) (rs : List Reference) (hk : ∃ d, At 0 cs k d) :
    (Arena.ofCells (flagged true rs cs)).header k =
        (if k ∈ rs.map Reference.offset then (db.arena.header k).withFlag .reason true
          else db.arena.header k) ∧
      (Arena.ofCells (flagged true rs cs)).literals k = db.arena.literals k := by
  obtain ⟨d, hd⟩ := hk
  have tiled := (h.of_core (core_flagged true rs cs)).tiled
  have there : At 0 (flagged true rs cs) k _ := at_mapAt.2 ⟨d, hd, rfl⟩
  rw [tiled.header_eq there, tiled.literals_eq there, h.tiled.header_eq hd, h.tiled.literals_eq hd]
  exact ⟨rfl, rfl⟩

/-- Live clauses are told apart by what is told of their end. -/
theorem ends_eq (h : db.Holds cs) {js ks : List Nat} (hjs : ∀ j ∈ js, j ∈ db.arena.live)
    (hks : ∀ k ∈ ks, k ∈ db.arena.live) (same : js.map db.arena.deletion = ks.map db.arena.deletion) :
    js = ks := by
  induction js generalizing ks with
  | nil => exact (List.map_eq_nil_iff.1 same.symm).symm
  | cons j js ih =>
    obtain ⟨k, ks, rfl, here, rest⟩ := List.map_eq_cons_iff.1 same.symm
    obtain ⟨c, hc, -⟩ := h.mem_live.1 (hjs j (by simp))
    obtain ⟨d, hd, -⟩ := h.mem_live.1 (hks k (by simp))
    rw [Arena.deletion, Arena.deletion, h.tiled.header_eq hc, h.tiled.header_eq hd] at here
    have identity_eq := congrArg UInt32.toNat (Event.deletion.inj here).1
    rw [(eq_of_identity h.ascending hd hc identity_eq).1,
      ih (fun j hj => hjs j (by simp [hj])) (fun k hk => hks k (by simp [hk])) rest.symm]

end Database.Holds

namespace Context

variable {π : Type} {c : Context π} {search : Snapshot} {cs xs ys : List Cell} {o : Nat}

theorem elects_of_rank (byRank : c.config.predicting.byScore.value = false) (d : Header) :
    c.plan.elects d = (!d.flags.garbage && d.flags.redundant && !d.flags.keep && !d.flags.reason &&
      !c.graced d) := by
  have ungraced : (d.grace == 0 || c.config.predicting.generating.value ||
      decide (c.config.retention.tier2.value.toNat < d.glue.toNat)) = !c.graced d := by
    have unused : (d.grace == 0) = !decide (0 < d.grace.toNat) := by
      rw [Bool.eq_iff_iff]
      simp [← BitVec.toNat_inj]
    have beyond : decide (c.config.retention.tier2.value.toNat < d.glue.toNat) =
        !decide (d.glue.toNat ≤ c.config.retention.tier2.value.toNat) := by
      rw [← decide_not, decide_eq_decide]
      omega
    rw [graced, unused, beyond]
    cases c.config.predicting.generating.value <;> simp
  have weighed : (c.plan.weigh d).2 = (!d.flags.keep && !d.flags.reason && !c.graced d) := by
    rw [← ungraced]
    simp only [ScanPlan.weigh, ScanPlan.consider, plan, ScanPlan.ofConfig, byRank]
    cases d.flags.reason <;> cases d.flags.keep <;> rfl
  rw [ScanPlan.elects, weighed]
  simp only [Bool.and_assoc]

/-- Behind the start of the scan all reasons are flagged. -/
theorem mem_protects_iff (behind : (c.scanStart (c.whole search)).offset ≤ o) :
    o ∈ (c.protects search).map Reference.offset ↔ o ∈ search.reasons.map Reference.offset := by
  simp only [protects, List.mem_map, List.mem_filter, decide_eq_true_eq]
  constructor
  · rintro ⟨r, ⟨hr, -⟩, rfl⟩
    exact ⟨r, hr, rfl⟩
  · rintro ⟨r, hr, rfl⟩
    exact ⟨r, ⟨hr, behind⟩, rfl⟩

/-- By rank, a clause is chosen if it is elected with the flags of the reasons set. -/
theorem elects_flagged (h : c.database.Holds cs) (byRank : c.config.predicting.byScore.value = false)
    (ho : ∃ d, At 0 cs o d) (behind : (c.scanStart (c.whole search)).offset ≤ o) :
    c.plan.elects ((Arena.ofCells (flagged true (c.protects search) cs)).header o) =
      c.chooses search o := by
  rw [(h.view_flagged _ ho).1, elects_of_rank byRank, chooses]
  by_cases listed : o ∈ search.reasons.map Reference.offset
  · rw [if_pos ((mem_protects_iff behind).2 listed), List.contains_iff_mem.2 listed]
    simp [Header.withFlag, Flags.set]
  · rw [if_neg (mt (mem_protects_iff behind).1 listed),
      Bool.eq_false_iff.2 (mt List.contains_iff_mem.1 listed)]
    simp

/-- The clauses that may be chosen are those that a scan with the flags of the reasons set elects. -/
theorem eligible_eq (h : c.database.Holds cs) (byRank : c.config.predicting.byScore.value = false)
    (valid : (c.scanStart (c.whole search)).isValid = true)
    (split : flagged true (c.protects search) cs = xs ++ ys)
    (start : (c.scanStart (c.whole search)).offset = extents xs) :
    c.eligible search = (offsets (extents xs) ys).filter fun o =>
      c.plan.elects ((Arena.ofCells (xs ++ ys)).header o) := by
  have same := split ▸ extent_flagged true (c.protects search) cs
  simp only [eligible]
  rw [if_pos valid, start, h.tiled.walkFrom_behind same]
  refine List.filter_congr fun o ho => ?_
  obtain ⟨d, hd⟩ := mem_offsets.1 ho
  have found : ∃ d, At 0 cs o d := by
    rw [← mem_offsets, ← offsets_eq same, mem_offsets]
    exact ⟨d, hd.behind⟩
  rw [← split, elects_flagged h byRank found (start ▸ hd.bounds.1)]

variable [Predictor π]

end Context

namespace Reduction

variable {π : Type} {c : Context π} {search : Snapshot} {cs ds : List Cell} {db : Database}
  {r : Except Error (Report × Snapshot)}

end Reduction

theorem Culled.logged {search : Snapshot} {fraction : UInt32} {eligible : List Nat} {db db' : Database}
    {result : Report × Snapshot} (h : Culled search fraction eligible db result db') (ms : Array Message) :
    Culled search fraction eligible db result (Logged.withMessages ms db') := by
  obtain ⟨order, moved, perm, ranked, report_eq, conserved⟩ := h
  exact ⟨order, moved, perm, ranked, report_eq, conserved.logged ms⟩

namespace Context

variable {π : Type} [Predictor π]

end Context

end ClauseStore
