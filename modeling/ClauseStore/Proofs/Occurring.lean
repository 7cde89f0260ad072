import Mathlib.Data.List.Perm.Subperm
import ClauseStore.Proofs.Bookkeeping

/-!
Occurrences. Behind every lawful run the count of a literal is that of the live irredundant clauses that
have it, long and binary, whatever became of them since they were stored. So what a call takes from the
counts when such a clause ends, or is shortened, is there to be taken.
-/

namespace ClauseStore

open Cell Database

/-! ### Counts of literals -/

namespace Occurrences

variable {o : Occurrences} {c d : Clause} {l : Literal}

/-- Each literal of a clause is taken from a count that is not zero. -/
def Affords (o : Occurrences) : Clause → Prop
  | [] => True
  | l :: c => 0 < o.count l ∧ (o.removeOne l).Affords c

theorem count_addOne (o : Occurrences) (l m : Literal) :
    (o.addOne l).count m = o.count m + if l = m then 1 else 0 := by
  have before := getD_widened o.counts l.index m.index 0
  rw [count, count, addOne, Array.getD_eq_getD_getElem?, Array.getElem?_modify]
  rw [Array.getD_eq_getD_getElem?] at before
  by_cases same : l = m
  · subst same
    rw [if_pos rfl, if_pos rfl, ← before, Array.getElem?_eq_getElem (lt_size_widened ..)]
    rfl
  · rw [if_neg fun index_eq => same (Literal.index_injective index_eq), if_neg same, before]
    rfl

theorem count_removeOne (o : Occurrences) (l m : Literal) :
    (o.removeOne l).count m = o.count m - if l = m then 1 else 0 := by
  rw [count, count, removeOne, Array.getD_eq_getD_getElem?, Array.getElem?_modify,
    Array.getD_eq_getD_getElem?]
  by_cases same : l = m
  · subst same
    rw [if_pos rfl, if_pos rfl]
    cases o.counts[l.index]? <;> rfl
  · rw [if_neg fun index_eq => same (Literal.index_injective index_eq), if_neg same]
    rfl

theorem count_add (o : Occurrences) (c : Clause) (l : Literal) :
    (o.add c).count l = o.count l + c.count l := by
  induction c generalizing o with
  | nil => rfl
  | cons m c ih =>
    refine (ih (o.addOne m)).trans ?_
    rw [count_addOne, List.count_cons]
    simp only [beq_iff_eq]
    omega

theorem count_remove (o : Occurrences) (c : Clause) (l : Literal) :
    (o.remove c).count l = o.count l - c.count l := by
  induction c generalizing o with
  | nil => rfl
  | cons m c ih =>
    refine (ih (o.removeOne m)).trans ?_
    rw [count_removeOne, List.count_cons]
    simp only [beq_iff_eq]
    omega

/-- What is counted can be taken, literal by literal. -/
theorem affords_of_count_le (h : ∀ l, c.count l ≤ o.count l) : o.Affords c := by
  induction c generalizing o with
  | nil => trivial
  | cons m c ih =>
    have here := h m
    rw [List.count_cons_self] at here
    refine ⟨by omega, ih fun l => ?_⟩
    have there := h l
    rw [List.count_cons] at there
    simp only [beq_iff_eq] at there
    rw [count_removeOne]
    omega

end Occurrences

/-! ### The clauses that are counted -/

/-- The literals of a binary clause. -/
def BinaryClause.literals (b : BinaryClause) : Clause := [b.first, b.second]

/-- The literals of a binary clause that are counted: none if it is redundant. -/
def BinaryClause.counted (b : BinaryClause) : Clause := if b.redundant then [] else b.literals

/-- The literals of a cell that are counted: those of a live irredundant clause. -/
def Cell.counted (c : Cell) : Clause := if c.standsAs false then c.literals else []

theorem flatMap_eq_of_map_eq {α β : Type} {f : α → List β} {as bs : List α} (h : as.map f = bs.map f) :
    as.flatMap f = bs.flatMap f := by
  rw [List.flatMap_def, List.flatMap_def, h]

theorem flatMap_filter {α β : Type} (p : α → Bool) (f : α → List β) (as : List α) :
    (as.flatMap fun a => if p a then f a else []) = (as.filter p).flatMap f := by
  induction as with
  | nil => rfl
  | cons a as ih =>
    rw [List.flatMap_cons, ih, List.filter_cons]
    split <;> rfl

namespace Cell

variable {c d : Cell}

theorem literals_eq_of_core (h : d.core = c.core) : d.literals = c.literals := (revised_eq_iff.1 h).2.1

theorem counted_eq_of_core (h : d.core = c.core) : d.counted = c.counted := by
  rw [counted, counted, standsAs_eq_of_core h, literals_eq_of_core h]

theorem counted_of_live (live : c.isGarbage = false) :
    c.counted = if c.header.flags.redundant then [] else c.literals := by
  rw [counted, standsAs_of_live live]
  cases c.header.flags.redundant <;> rfl

@[simp] theorem counted_garbage (c : Cell) :
    (c.revised (Header.withFlag .garbage true)).counted = [] := rfl

/-- Settling changes nothing of what is counted. -/
theorem flatMap_counted_settle (fill : Nat → UInt32) (n : Nat) (cs : List Cell) :
    (settle fill n cs).flatMap counted = cs.flatMap counted := by
  have left : (settle fill n cs).map counted = (cs.filter fun c => !c.isGarbage).map counted :=
    map_settle fun w c => rfl
  rw [flatMap_eq_of_map_eq left]
  have forms : counted = fun c => if c.standsAs false then c.literals else [] := rfl
  rw [forms, flatMap_filter, flatMap_filter, filter_standsAs_live]

end Cell

namespace Database

/-- The live irredundant clauses, the long ones first. -/
def irredundants (db : Database) (bs : List BinaryClause) : List Clause :=
  (db.arena.liveOf false).map db.arena.literals ++
    (BinaryClause.ofKind false bs).map BinaryClause.literals

/-- The occurrences are those of the clauses, in which no literal occurs twice. -/
structure Tallied (db : Database) (bs : List BinaryClause) (cs : List Cell) : Prop where
  count_eq : ∀ l, db.occurrences.count l =
    (cs.flatMap Cell.counted).count l + (bs.flatMap BinaryClause.counted).count l
  distinct : ∀ ls ∈ cs.map Cell.literals, ls.Nodup

namespace Tallied

variable {db db' : Database} {bs : List BinaryClause} {cs ds xs ys : List Cell} {d e : Cell}

theorem relaid (h : db.Tallied bs cs) (same : SameBooks db db') (core_eq : ds.map core = cs.map core) :
    db'.Tallied bs ds := by
  refine ⟨fun l => ?_, ?_⟩
  · rw [same.occurrences_eq, h.count_eq,
      flatMap_eq_of_map_eq (map_eq_of_core counted_eq_of_core core_eq)]
  · rw [map_eq_of_core literals_eq_of_core core_eq]
    exact h.distinct

/-- One cell is revised: what it counted before is taken, and what it counts then is added. -/
theorem revise (h : db.Tallied bs (xs ++ d :: ys)) (e : Cell) (sub : e.literals.Sublist d.literals)
    (count_eq : ∀ l, d.counted.count l ≤ db.occurrences.count l →
      db'.occurrences.count l + d.counted.count l = db.occurrences.count l + e.counted.count l) :
    db'.Tallied bs (xs ++ e :: ys) := by
  refine ⟨fun l => ?_, ?_⟩
  · have before := h.count_eq l
    simp only [List.flatMap_append, List.flatMap_cons, List.count_append] at before ⊢
    have here := count_eq l (by omega)
    omega
  · have distinct := h.distinct
    simp only [List.map_append, List.map_cons, List.forall_mem_append, List.forall_mem_cons]
      at distinct ⊢
    exact ⟨distinct.1, sub.nodup distinct.2.1, distinct.2.2⟩

theorem storedBinary (h : db.Tallied bs cs) (a b : Literal) (source : Source) :
    (db.storedBinary a b source).Tallied (bs ++ [⟨db.nextIdentity, a, b, source == .redundant⟩]) cs := by
  refine ⟨fun l => ?_, h.distinct⟩
  have before := h.count_eq l
  simp only [List.flatMap_append, List.flatMap_singleton, List.count_append, BinaryClause.counted,
    Database.storedBinary]
  split
  · rw [List.count_nil]
    omega
  · rw [Occurrences.count_add]
    show _ = _ + (_ + [a, b].count l)
    omega

theorem storedLong (h : db.Tallied bs cs) (a b : Literal) (rest : Clause) (source : Source)
    (glue : UInt32) (keep : Bool) (conflicts : UInt64) (distinct : (a :: b :: rest).Nodup) :
    (db.storedLong a b rest source glue keep conflicts cs).Tallied bs
      (cs ++ [Cell.stored db.nextIdentity source glue keep conflicts (a :: b :: rest)]) := by
  refine ⟨fun l => ?_, ?_⟩
  · have before := h.count_eq l
    have counted_eq : (Cell.stored db.nextIdentity source glue keep conflicts (a :: b :: rest)).counted =
        if source == .redundant then [] else a :: b :: rest := counted_of_live rfl
    simp only [List.flatMap_append, List.flatMap_singleton, List.count_append, counted_eq,
      Database.storedLong]
    split
    · rw [List.count_nil]
      omega
    · rw [Occurrences.count_add]
      omega
  · rw [List.map_append, List.forall_mem_append]
    refine ⟨h.distinct, fun ls hls => ?_⟩
    rw [List.map_singleton, List.mem_singleton] at hls
    rw [hls]
    exact distinct

theorem marked (h : db.Tallied bs (xs ++ d :: ys)) (live : d.isGarbage = false) :
    (db.marked (extents xs) d (xs ++ d :: ys)).Tallied bs
      (xs ++ d.revised (Header.withFlag .garbage true) :: ys) := by
  refine h.revise _ (.refl _) fun l counted => ?_
  rw [counted_of_live live] at counted ⊢
  rw [counted_garbage, Database.marked]
  dsimp only
  split at counted
  next redundant => rw [if_pos redundant, if_pos redundant]
  next irredundant =>
    rw [if_neg irredundant, if_neg irredundant, Occurrences.count_remove, List.count_nil]
    omega

theorem promoted (h : db.Tallied bs (xs ++ d :: ys)) (live : d.isGarbage = false)
    (redundant : d.header.flags.redundant = true) (r : Reference) :
    (db.promoted r d (xs ++ d :: ys)).Tallied bs
      (xs ++ d.revised (Header.withFlag .redundant false) :: ys) := by
  refine h.revise _ (.refl _) fun l _ => ?_
  have live' : (d.revised (Header.withFlag .redundant false)).isGarbage = false := live
  rw [counted_of_live live, counted_of_live live', if_pos redundant, List.count_nil]
  exact Occurrences.count_add ..

theorem shortened (h : db.Tallied bs (xs ++ d :: ys)) (n : Nat) (live : d.isGarbage = false) :
    (db.shortened n d (xs ++ d.shrunk n :: ys)).Tallied bs (xs ++ d.shrunk n :: ys) := by
  refine h.revise _ (List.take_sublist n _) fun l counted => ?_
  have live' : (d.shrunk n).isGarbage = false := live
  have kind_eq : (d.shrunk n).header.flags.redundant = d.header.flags.redundant := rfl
  have parts : d.literals.count l = (d.literals.take n).count l + (d.literals.drop n).count l := by
    rw [← List.count_append, List.take_append_drop]
  rw [counted_of_live live] at counted ⊢
  rw [counted_of_live live', kind_eq, Database.shortened]
  dsimp only
  split at counted
  next redundant => rw [if_pos redundant, if_pos redundant, if_pos redundant]
  next irredundant =>
    rw [if_neg irredundant, if_neg irredundant, if_neg irredundant, Occurrences.count_remove]
    show _ = _ + (d.literals.take n).count l
    omega

theorem collected (h : db.Tallied bs (xs ++ ys)) (first last : Reference) :
    (db.collected xs ys first last).Tallied bs (xs ++ settle db.arena.word (extents xs) ys) := by
  refine ⟨fun l => ?_, ?_⟩
  · rw [List.flatMap_append, flatMap_counted_settle, ← List.flatMap_append]
    exact h.count_eq l
  · have distinct := h.distinct
    have left : (settle db.arena.word (extents xs) ys).map Cell.literals =
        (ys.filter fun c => !c.isGarbage).map Cell.literals := map_settle fun _ _ => rfl
    rw [List.map_append, List.forall_mem_append] at distinct ⊢
    refine ⟨distinct.1, fun ls hls => distinct.2 ls ?_⟩
    rw [left] at hls
    exact (List.filter_sublist.map _).subset hls

theorem deletedBinary (h : db.Tallied bs cs) {x : BinaryClause} {a b : Literal} {identity : UInt32}
    (w : Watches) (binds : db.Binds bs) (held : x ∈ bs) (own : x.Matches a b identity) :
    (db.deletedBinary a b x.redundant identity w).Tallied
      (bs.filter fun y => y.identity ≠ identity) cs := by
  refine ⟨fun l => ?_, h.distinct⟩
  have before := h.count_eq l
  have split := BinaryClause.perm_cons_filter binds.apart held
  rw [own.1] at split
  rw [(split.flatMap_right _).count_eq, List.flatMap_cons, List.count_append] at before
  have literals_perm : x.literals.Perm [a, b] := by
    rcases own.2 with ⟨rfl, rfl⟩ | ⟨rfl, rfl⟩
    · exact .refl _
    · exact .swap ..
  rw [BinaryClause.counted] at before
  rw [Database.deletedBinary]
  dsimp only
  split at before
  next redundant =>
    rw [if_pos redundant, before, List.count_nil, Nat.zero_add]
  next irredundant =>
    rw [if_neg irredundant, Occurrences.count_remove, ← literals_perm.count_eq, before]
    omega

/-- Every way to revise the books keeps the tally. -/
theorem keeps : Bookkeeping Tallied where
  relaid := relaid
  storedBinary h source _ _ := h.storedBinary _ _ source
  storedLong h source glue keep conflicts distinct _ _ :=
    h.storedLong _ _ _ source glue keep conflicts distinct
  marked := marked
  promoted h live redundant _ _ := h.promoted live redundant _
  shortened n h live _ := h.shortened n live
  collected h _ first := h.collected first _
  deletedBinary h w binds held own := h.deletedBinary w binds held own

end Tallied

/-! ### Reading the tally -/

variable {db : Database} {bs : List BinaryClause} {cs : List Cell}

theorem Holds.irredundants_eq (h : db.Holds cs) (bs : List BinaryClause) : db.irredundants bs =
    (cs.filter (standsAs false)).map Cell.literals ++
      (BinaryClause.ofKind false bs).map BinaryClause.literals := by
  rw [irredundants, h.map_liveOf false fun k c hc => h.tiled.literals_eq hc]

/-- The occurrences are counted clause by clause. -/
theorem Tallied.count_flatten (h : db.Tallied bs cs) (holds : db.Holds cs) (l : Literal) :
    db.occurrences.count l = (db.irredundants bs).flatten.count l := by
  have long : cs.flatMap Cell.counted = (cs.filter (standsAs false)).flatMap Cell.literals :=
    flatMap_filter ..
  have binary : bs.flatMap BinaryClause.counted =
      (BinaryClause.ofKind false bs).flatMap BinaryClause.literals := by
    rw [BinaryClause.ofKind, ← flatMap_filter]
    refine congrArg bs.flatMap (funext fun b => ?_)
    rw [BinaryClause.counted]
    cases b.redundant <;> rfl
  rw [h.count_eq, long, binary, holds.irredundants_eq, List.flatten_append, List.count_append,
    List.flatMap_def, List.flatMap_def]

/-- No literal occurs twice in a clause that is counted. -/
theorem Tallied.nodup (h : db.Tallied bs cs) (holds : db.Holds cs) (binds : db.Binds bs) :
    ∀ c ∈ db.irredundants bs, c.Nodup := by
  rw [holds.irredundants_eq, List.forall_mem_append]
  refine ⟨fun c hc => h.distinct c ((List.filter_sublist.map _).subset hc), fun c hc => ?_⟩
  obtain ⟨x, hx, rfl⟩ := List.mem_map.1 hc
  have proper := binds.proper x (List.mem_filter.1 hx).1
  simpa [BinaryClause.literals] using proper

end Database

/-- Where no literal occurs twice in a clause, its occurrences are the clauses that have it. -/
theorem Clause.count_flatten_of_nodup {cs : List Clause} (h : ∀ c ∈ cs, c.Nodup) (l : Literal) :
    cs.flatten.count l = cs.countP fun c => decide (l ∈ c) := by
  induction cs with
  | nil => rfl
  | cons c cs ih =>
    obtain ⟨apart, rest⟩ := List.forall_mem_cons.1 h
    rw [List.flatten_cons, List.count_append, ih rest, List.countP_cons, List.Nodup.count apart]
    simp only [decide_eq_true_eq]
    omega

namespace Context

variable {π : Type} [Predictor π]

/-- Behind every lawful run whose deletions tell the kind of their binary clause, the count of each
literal is that of the live irredundant clauses that have it, and the literals of such a clause, or of a
part of it, can be taken from the counts one by one. -/
theorem occurrences_exact (config : Config) (predictor : π) (ops : List Operation)
    (follows : (ofConfig config predictor).Follows ops)
    (candid : (ofConfig config predictor).Candid [] ops) :
    ((ofConfig config predictor).run ops).database.Binds
        (BinaryClause.keep (ofConfig config predictor) ops []) ∧
      (∀ l, ((ofConfig config predictor).run ops).database.occurrences.count l =
        (((ofConfig config predictor).run ops).database.irredundants
          (BinaryClause.keep (ofConfig config predictor) ops [])).countP fun c => decide (l ∈ c)) ∧
      ∀ c ∈ ((ofConfig config predictor).run ops).database.irredundants
          (BinaryClause.keep (ofConfig config predictor) ops []),
        ∀ part, part.Subperm c →
          ((ofConfig config predictor).run ops).database.occurrences.Affords part := by
  have start : (ofConfig config predictor).database.Holds [] := holds_nil
  have unbound : (ofConfig config predictor).database.Binds [] := binds_nil
  have empty : (ofConfig config predictor).database.Tallied [] [] := ⟨fun _ => rfl, by simp⟩
  obtain ⟨cs, holds, tallied⟩ := Tallied.keeps.run start unbound empty follows candid
  have binds := binds_run start unbound follows
  refine ⟨binds, fun l => ?_, fun c hc part sub => Occurrences.affords_of_count_le fun l => ?_⟩
  · rw [tallied.count_flatten holds, Clause.count_flatten_of_nodup (tallied.nodup holds binds)]
  · rw [tallied.count_flatten holds]
    exact Nat.le_trans (sub.count_le l) ((List.sublist_flatten_of_mem hc).count_le l)

/-- Clauses that are promoted and shortened, in either order, moved, deleted and marked. -/
def occurringRun : List Operation :=
  [.create .original 0 [⟨1⟩, ⟨2⟩, ⟨3⟩], .create .redundant 9 [⟨-1⟩, ⟨2⟩, ⟨4⟩, ⟨5⟩],
    .create .redundant 9 [⟨3⟩, ⟨2⟩, ⟨6⟩, ⟨1⟩], .create .irredundant 0 [⟨2⟩, ⟨-6⟩],
    .create .irredundant 0 [⟨2⟩, ⟨5⟩], .makeIrredundant (.ofOffset 12), .shrink (.ofOffset 12) 3,
    .shrink (.ofOffset 24) 3, .makeIrredundant (.ofOffset 24), .deleteBinary ⟨5⟩ ⟨2⟩ false 5,
    .markGarbage (.ofOffset 0), .collect .start]

/-- The second literal occurs in three clauses of the five, and the fifth in none. -/
theorem occurrences_exact_occurringRun :
    (ofConfig {} ({} : Linear)).Follows occurringRun ∧
      (ofConfig {} ({} : Linear)).Candid [] occurringRun ∧
      ((ofConfig {} ({} : Linear)).run occurringRun).database.occurrences.count ⟨2⟩ = 3 ∧
      ((ofConfig {} ({} : Linear)).run occurringRun).database.occurrences.count ⟨5⟩ = 0 ∧
      ((ofConfig {} ({} : Linear)).run occurringRun).database.Binds
          (BinaryClause.keep (ofConfig {} ({} : Linear)) occurringRun []) ∧
      (∀ l, ((ofConfig {} ({} : Linear)).run occurringRun).database.occurrences.count l =
        (((ofConfig {} ({} : Linear)).run occurringRun).database.irredundants
          (BinaryClause.keep (ofConfig {} ({} : Linear)) occurringRun [])).countP
            fun c => decide (l ∈ c)) ∧
      ∀ c ∈ ((ofConfig {} ({} : Linear)).run occurringRun).database.irredundants
          (BinaryClause.keep (ofConfig {} ({} : Linear)) occurringRun []),
        ∀ part, part.Subperm c →
          ((ofConfig {} ({} : Linear)).run occurringRun).database.occurrences.Affords part := by
  have follows : (ofConfig {} ({} : Linear)).Follows occurringRun := by decide +kernel
  have candid : (ofConfig {} ({} : Linear)).Candid [] occurringRun := by decide +kernel
  have shared : ((ofConfig {} ({} : Linear)).run occurringRun).database.occurrences.count ⟨2⟩ = 3 := by
    decide +kernel
  have gone : ((ofConfig {} ({} : Linear)).run occurringRun).database.occurrences.count ⟨5⟩ = 0 := by
    decide +kernel
  exact ⟨follows, candid, shared, gone,
    occurrences_exact ({} : Config) ({} : Linear) occurringRun follows candid⟩

end Context

end ClauseStore
