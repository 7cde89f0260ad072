import ClauseStore.Listeners
import ClauseStore.Proofs.Binding
import Mathlib.Data.List.Basic

/-!
The journal of a run. Replayed event by event, births add a clause and deletions take one out that must
be there. What is left are the live clauses, long and binary, with their identities and the literals that
they have now; and a clause that is shortened is never away in between.
-/

namespace ClauseStore

open Cell Database

/-- A clause and its identity, as a journal tells them. -/
abbrev Numbered := UInt32 × Clause

/-- Whether two clauses have one identity and the same literals, in any order. -/
def Numbered.same (x y : Numbered) : Bool := x.1 == y.1 && x.2.isPerm y.2

namespace Event

/-- Replays one event. A deletion takes out a clause of its identity and its literals, which must be
there. -/
def replay? (held : List Numbered) : Event → Option (List Numbered)
  | .original identity c | .addition identity c _ => some (held ++ [(identity, c)])
  | .deletion identity c =>
    if held.any (Numbered.same (identity, c)) then some (held.eraseP (Numbered.same (identity, c)))
    else none
  | .features .. => some held

/-- Replays events in order. -/
def replayAll? (held : List Numbered) (es : List Event) : Option (List Numbered) :=
  es.foldlM replay? held

/-- Events that tell nothing, or the shorter of two clauses and then the end of the longer. -/
def Shortens (es : List Event) : Prop :=
  es = [] ∨ ∃ identity whole n source, n < whole.length ∧
    es = [.addition identity (whole.take n) source, .deletion identity whole]

/-- Events that turn some clauses into others, when they are replayed in order. -/
def Turns (es : List Event) (s t : List Numbered) : Prop :=
  ∀ held, held.Perm s → ∃ held', replayAll? held es = some held' ∧ held'.Perm t

/-! ### Replaying -/

variable {es fs : List Event} {s t u : List Numbered} {identity : UInt32} {c d : Clause}

theorem replayAll?_cons (held : List Numbered) (e : Event) (es : List Event) :
    replayAll? held (e :: es) = (replay? held e).bind fun s => replayAll? s es := by
  rw [replayAll?, List.foldlM_cons]
  rfl

theorem replayAll?_append (held : List Numbered) (es fs : List Event) :
    replayAll? held (es ++ fs) = (replayAll? held es).bind fun s => replayAll? s fs := by
  rw [replayAll?, List.foldlM_append]
  rfl

theorem turns_nil (h : s.Perm t) : Turns [] s t := fun held perm => ⟨held, rfl, perm.trans h⟩

theorem Turns.append (h : Turns es s t) (k : Turns fs t u) : Turns (es ++ fs) s u := by
  intro held perm
  obtain ⟨mid, first, perm⟩ := h held perm
  obtain ⟨held', second, perm⟩ := k mid perm
  exact ⟨held', by rw [replayAll?_append, first, Option.bind_some, second], perm⟩

/-- A birth adds a clause. -/
theorem turns_born {e : Event} {x : Numbered} (h : ∀ held, replay? held e = some (held ++ [x])) :
    Turns [e] s (s ++ [x]) := by
  intro held perm
  refine ⟨held ++ [x], ?_, perm.append_right _⟩
  rw [replayAll?_cons, h, Option.bind_some]
  rfl

/-- A deletion takes out the one clause that it can be about. -/
theorem turns_deletion (split : s.Perm ((identity, d) :: t)) (own : d.Perm c)
    (others : ∀ x ∈ t, Numbered.same (identity, c) x = false) : Turns [.deletion identity c] s t := by
  intro held perm
  have whole := perm.trans split
  have found : Numbered.same (identity, c) (identity, d) = true := by
    rw [Numbered.same, beq_self_eq_true, Bool.true_and, List.isPerm_iff]
    exact own.symm
  have among : held.any (Numbered.same (identity, c)) = true := by
    rw [whole.any_eq, List.any_cons, found, Bool.true_or]
  refine ⟨held.eraseP (Numbered.same (identity, c)), ?_, ?_⟩
  · rw [replayAll?_cons, replay?, if_pos among, Option.bind_some]
    rfl
  · -- no two of the clauses could be taken out
    have one : ((identity, d) :: t).Pairwise fun x y =>
        Numbered.same (identity, c) x = true → Numbered.same (identity, c) y = true → False := by
      refine List.pairwise_cons.2 ⟨fun y hy _ same => ?_, ?_⟩
      · rw [others y hy] at same
        cases same
      · refine (List.pairwise_of_forall (R := fun _ _ => True) fun _ _ => trivial).imp_of_mem ?_
        intro x y hx _ _ same
        rw [others x hx] at same
        cases same
    have left := (List.Perm.eraseP (Numbered.same (identity, c)) one whole.symm).symm
    rwa [List.eraseP_cons_of_pos found] at left

theorem turns_features (h : ∀ e ∈ es, e.isFeatures = true) : Turns es s s := by
  induction es with
  | nil => exact turns_nil (.refl s)
  | cons e es ih =>
    have first : Turns [e] s s := by
      intro held perm
      cases e with
      | features => exact ⟨held, rfl, perm⟩
      | _ => cases h _ (List.mem_cons_self ..)
    exact first.append (ih fun f hf => h f (List.mem_cons_of_mem e hf))

theorem same_of_ne {x : Numbered} (h : x.1 ≠ identity) : Numbered.same (identity, c) x = false := by
  rw [Numbered.same, beq_eq_false_iff_ne.2 h.symm, Bool.false_and]

/-- Clauses of different identities are taken out one after the other. -/
theorem turns_deletions (apart : ((s ++ t).map Prod.fst).Nodup) :
    Turns (s.map fun x => .deletion x.1 x.2) (s ++ t) t := by
  induction s with
  | nil => exact turns_nil (.refl t)
  | cons x s ih =>
    rw [List.cons_append, List.map_cons, List.nodup_cons] at apart
    have first : Turns [.deletion x.1 x.2] (x :: (s ++ t)) (s ++ t) := by
      refine turns_deletion (.refl _) (.refl _) fun y hy => same_of_ne fun same => apart.1 ?_
      exact same ▸ List.mem_map_of_mem hy
    exact first.append (ih apart.2)

end Event

/-- A deletion that finds nothing is not replayed. -/
example : Event.replayAll? [(1, [⟨1⟩, ⟨2⟩])] [.deletion 1 [⟨2⟩, ⟨1⟩], .deletion 1 [⟨1⟩, ⟨2⟩]] = none := rfl

/-! ### Live clauses -/

/-- A binary clause and its identity. -/
def BinaryClause.numbered (b : BinaryClause) : Numbered := (b.identity, [b.first, b.second])

namespace Arena

/-- The clause of a record and its identity. -/
def numbered (a : Arena) (o : Nat) : Numbered := ((a.header o).identity, a.literals o)

/-- The live clauses of an arena and their identities. -/
def stock (a : Arena) : List Numbered := a.live.map a.numbered

end Arena

/-- The live clauses of a database, where its binary clauses are some clauses. -/
def Database.stock (db : Database) (bs : List BinaryClause) : List Numbered :=
  db.arena.stock ++ bs.map BinaryClause.numbered

namespace Cell

/-- The clause of a cell and its identity, unless it is garbage. -/
def survivor? (c : Cell) : Option Numbered :=
  if c.isGarbage then none else some (c.header.identity, c.literals)

/-- The live clauses of a row of cells. -/
def living (cs : List Cell) : List Numbered := cs.filterMap survivor?

variable {cs ds xs ys : List Cell} {c d : Cell}

theorem living_cons_live (h : c.isGarbage = false) (cs : List Cell) :
    living (c :: cs) = (c.header.identity, c.literals) :: living cs :=
  List.filterMap_cons_some (by rw [survivor?, h, if_neg Bool.false_ne_true])

theorem living_cons_garbage (h : c.isGarbage = true) (cs : List Cell) : living (c :: cs) = living cs :=
  List.filterMap_cons_none (by rw [survivor?, h, if_pos rfl])

theorem survivor?_eq_of_core (h : d.core = c.core) : d.survivor? = c.survivor? := by
  have essence_eq := essence_eq_of_core h
  simp only [essence, Prod.mk.injEq] at essence_eq
  rw [survivor?, survivor?, isGarbage_eq_of_core h, essence_eq.1, essence_eq.2.1]

theorem living_eq_of_map_eq (h : ds.map survivor? = cs.map survivor?) : living ds = living cs := by
  have : ∀ es : List Cell, living es = (es.map survivor?).filterMap id := by
    intro es
    rw [List.filterMap_map]
    rfl
  rw [this, this, h]

theorem living_append (xs ys : List Cell) : living (xs ++ ys) = living xs ++ living ys :=
  List.filterMap_append ..

/-- The live cells of a row are found by their places. -/
theorem map_liveOffsets {o : Nat} {f : Nat → Numbered}
    (h : ∀ k c, At o cs k c → f k = (c.header.identity, c.literals)) :
    (liveOffsets o cs).map f = living cs := by
  induction cs generalizing o with
  | nil => rfl
  | cons c cs ih =>
    have rest := ih fun k d hd => h k d (at_cons.2 (.inr hd))
    rw [liveOffsets]
    split
    next garbage => rw [rest, living_cons_garbage garbage]
    next live =>
      rw [Bool.not_eq_true] at live
      rw [List.map_cons, rest, living_cons_live live, h o c (at_cons.2 (.inl ⟨rfl, rfl⟩))]

end Cell

namespace Database

variable {db db' : Database} {bs : List BinaryClause} {cs ds : List Cell}

theorem Holds.stock_eq (h : db.Holds cs) : db.arena.stock = living cs := by
  rw [Arena.stock, h.live_eq]
  refine map_liveOffsets fun k c hc => ?_
  rw [Arena.numbered, h.tiled.header_eq hc, h.tiled.literals_eq hc]

/-- Every live clause has an identity that was drawn. -/
theorem Holds.stock_below (h : db.Holds cs) (binds : db.Binds bs) {x : Numbered} (hx : x ∈ db.stock bs) :
    x.1.toNat < db.nextIdentity.toNat := by
  rw [stock, h.stock_eq] at hx
  rcases List.mem_append.1 hx with hx | hx
  · obtain ⟨c, hc, own⟩ := List.mem_filterMap.1 hx
    have below := h.below c hc
    rw [survivor?] at own
    split at own
    · cases own
    · rw [← Option.some.inj own]
      exact below
  · obtain ⟨b, hb, rfl⟩ := List.mem_map.1 hx
    exact binds.below b hb

/-- A journal that starts with no clause leads to the live clauses of a database, which have different
identities. -/
structure Journaled (db : Database) (bs : List BinaryClause) : Prop where
  turns : Event.Turns db.events.toList [] (db.stock bs)
  apart : ((db.stock bs).map Prod.fst).Nodup

namespace Journaled

variable {bs' : List BinaryClause} {es : List Event} {x : Numbered}

theorem step (h : db.Journaled bs) (told : db'.events.toList = db.events.toList ++ es)
    (turns : Event.Turns es (db.stock bs) (db'.stock bs'))
    (apart : ((db'.stock bs').map Prod.fst).Nodup) : db'.Journaled bs' := by
  refine ⟨?_, apart⟩
  rw [told]
  exact h.turns.append turns

/-- The live clauses stay, and nothing is told. -/
theorem silent (h : db.Journaled bs) (told : db'.events = db.events)
    (stock_eq : db'.stock bs' = db.stock bs) : db'.Journaled bs' := by
  have nothing : db'.events.toList = db.events.toList ++ [] := by rw [told, List.append_nil]
  refine h.step nothing ?_ ?_
  · rw [stock_eq]
    exact Event.turns_nil (.refl _)
  · rw [stock_eq]
    exact h.apart

/-- A clause with a fresh identity is born. -/
theorem born (h : db.Journaled bs) {e : Event} (told : db'.events = db.events.push e)
    (birth : ∀ held, Event.replay? held e = some (held ++ [x]))
    (perm : (db.stock bs ++ [x]).Perm (db'.stock bs')) (fresh : ∀ y ∈ db.stock bs, y.1 ≠ x.1) :
    db'.Journaled bs' := by
  have pushed : db'.events.toList = db.events.toList ++ ([e] ++ []) := by rw [told, Array.toList_push]; rfl
  refine h.step pushed ?_ ?_
  · exact (Event.turns_born birth).append (Event.turns_nil perm)
  · rw [← (perm.map Prod.fst).nodup_iff, List.map_append, List.map_singleton, List.nodup_append]
    refine ⟨h.apart, List.pairwise_singleton .., fun i hi j hj => ?_⟩
    obtain ⟨y, hy, rfl⟩ := List.mem_map.1 hi
    rw [List.mem_singleton.1 hj]
    exact fresh y hy

/-- A clause dies, of which some order of the literals is told. -/
theorem died (h : db.Journaled bs) {c : Clause}
    (told : db'.events = db.events.push (.deletion x.1 c)) (own : x.2.Perm c)
    (perm : (db.stock bs).Perm (x :: db'.stock bs')) : db'.Journaled bs' := by
  have apart := h.apart
  rw [(perm.map Prod.fst).nodup_iff, List.map_cons, List.nodup_cons] at apart
  have pushed : db'.events.toList = db.events.toList ++ [.deletion x.1 c] := by
    rw [told, Array.toList_push]
  refine h.step pushed (Event.turns_deletion perm own fun y hy => ?_) apart.2
  exact Event.same_of_ne fun same => apart.1 (List.mem_map.2 ⟨y, hy, same⟩)

/-- A clause is cut, of which the shorter one is told first. -/
theorem cut (h : db.Journaled bs) {identity : UInt32} {short whole : Clause} {source : Source}
    {t : List Numbered}
    (told : db'.events =
      (db.events.push (.addition identity short source)).push (.deletion identity whole))
    (perm : (db.stock bs).Perm ((identity, whole) :: t))
    (perm' : (db'.stock bs').Perm ((identity, short) :: t)) (shorter : short.length < whole.length) :
    db'.Journaled bs' := by
  have apart := h.apart
  rw [(perm.map Prod.fst).nodup_iff, List.map_cons, List.nodup_cons] at apart
  have born : Event.Turns [.addition identity short source] (db.stock bs)
      (db.stock bs ++ [(identity, short)]) := Event.turns_born fun _ => rfl
  have died : Event.Turns [.deletion identity whole] (db.stock bs ++ [(identity, short)])
      (t ++ [(identity, short)]) := by
    refine Event.turns_deletion (perm.append_right _) (.refl whole) fun y hy => ?_
    rcases List.mem_append.1 hy with hy | hy
    · exact Event.same_of_ne fun same => apart.1 (List.mem_map.2 ⟨y, hy, same⟩)
    · -- the two have one identity, but not one length
      rw [List.mem_singleton.1 hy, Numbered.same, Bool.and_eq_false_iff]
      refine .inr (Bool.eq_false_iff.2 fun same => ?_)
      have length_eq : whole.length = short.length := (List.isPerm_iff.1 same).length_eq
      omega
  have turned : Event.Turns [] (t ++ [(identity, short)]) (db'.stock bs') :=
    Event.turns_nil ((List.perm_append_singleton _ t).trans perm'.symm)
  have pushed : db'.events.toList = db.events.toList ++
      ([.addition identity short source] ++ [.deletion identity whole] ++ []) := by
    rw [told, Array.toList_push, Array.toList_push, List.append_assoc, List.append_nil]
  refine h.step pushed ((born.append died).append turned) ?_
  rw [(perm'.map Prod.fst).nodup_iff, List.map_cons, List.nodup_cons]
  exact apart

end Journaled

/-! ### Steps -/

/-- The live clauses of a database through a compaction. -/
theorem Holds.stock_collected {xs ys : List Cell} {first : Reference} (h : db.Holds (xs ++ ys))
    (last : Reference) (first_at : first.isValid = true →
      ∃ d, At (extents xs) (settle db.arena.word (extents xs) ys) first.offset d) :
    (db.collected xs ys first last).arena.stock = db.arena.stock := by
  have clauses_eq := congrArg (List.map fun x => (x.1, x.2.1)) (h.clauses_collected last first_at)
  rw [List.map_map, List.map_map] at clauses_eq
  exact clauses_eq.symm

namespace Journaled

variable {π : Type} {c c' : Context π} {op : Operation} {r : Except Error Answer}

/-- What an operation beside the long clauses tells. -/
theorem sideline (h : db.Journaled bs) (binds : db.Binds bs) (step : Sideline db op r db') :
    db'.Journaled (BinaryClause.record op r bs) := by
  cases step with
  | @deleted a b redundant identity w found =>
    have unwatching := Watches.unwatching binds.lists binds.proper binds.apart a b identity
    rw [found] at unwatching
    cases unwatching with
    | @found x w held own =>
      obtain ⟨rfl, ordered⟩ := own
      have perm : x.numbered.2.Perm [a, b] := by
        rcases ordered with ⟨rfl, rfl⟩ | ⟨rfl, rfl⟩
        · exact .refl _
        · exact .swap ..
      refine h.died (x := x.numbered) rfl perm ?_
      have split := (BinaryClause.perm_cons_filter binds.apart held).map BinaryClause.numbered
      exact (split.append_left _).trans List.perm_middle
  | _ => exact h.silent rfl rfl

/-- What storing tells. -/
theorem storage (h : db.Journaled bs) (holds : db.Holds cs) (binds : db.Binds bs) {config : Config}
    {source : Source} {glue : UInt32} {conflicts : UInt64} {c : Clause} {r : Except Error Placement}
    (step : Storage config source glue conflicts c cs db r db' ds) :
    db'.Journaled (BinaryClause.record (.create source glue c) (r.map .placed) bs) := by
  have left := step.holds holds
  have unseen : ∀ y ∈ db.stock bs, y.1 ≠ db.nextIdentity := by
    intro y hy same
    have below := holds.stock_below binds hy
    rw [same] at below
    exact Nat.lt_irrefl _ below
  cases step with
  | refused => exact h.silent rfl rfl
  | @binary a b literals_eq fresh =>
    have arena_eq := (beside_storedBinary a b source fresh).arena_eq
    refine h.born (x := (db.nextIdentity, [a, b])) rfl (fun _ => by cases source <;> rfl) ?_ unseen
    simp only [BinaryClause.record, Except.map, literals_eq]
    rw [stock, stock, arena_eq, List.map_append, List.append_assoc]
    exact .refl _
  | @long a b rest =>
    refine h.born (x := (db.nextIdentity, a :: b :: rest)) rfl (fun _ => by cases source <;> rfl) ?_
      unseen
    rw [stock, holds.stock_eq, stock, left.stock_eq, living_append, List.append_assoc,
      List.append_assoc]
    exact List.perm_append_comm.append_left _

/-- The live clauses stay where what a row of cells tells of them does. -/
theorem relaid (h : db.Journaled bs) (holds : db.Holds cs) (holds' : db'.Holds ds)
    (told : db'.events = db.events) (survivors_eq : ds.map survivor? = cs.map survivor?) :
    db'.Journaled bs := by
  refine h.silent told ?_
  rw [stock, stock, holds.stock_eq, holds'.stock_eq, living_eq_of_map_eq survivors_eq]

/-- The end of the clause of a cell is told. -/
theorem marked (h : db.Journaled bs) (holds : db.Holds cs) {k : Nat} {d : Cell} (found : At 0 cs k d)
    (live : d.isGarbage = false) : (db.marked k d cs).Journaled bs := by
  have left := holds.marked found live
  refine h.died (x := (d.header.identity, d.literals)) rfl (.refl _) ?_
  obtain ⟨xs, ys, rfl, rfl⟩ := found
  rw [Nat.zero_add, markAt_append] at left
  have gone : (d.revised (Header.withFlag .garbage true)).isGarbage = true := rfl
  rw [stock, stock, holds.stock_eq, Nat.zero_add, left.stock_eq, living_append, living_append,
    living_cons_live live, living_cons_garbage gone, List.append_assoc, List.append_assoc]
  exact List.perm_middle

/-- A clause that is shortened is told to be, the shorter one first. -/
theorem shortened {xs ys : List Cell} {d : Cell} (h : db.Journaled bs) (holds : db.Holds (xs ++ d :: ys))
    {size : UInt64} (free : barsShrink d size = false) :
    (db.shortened size.toNat d (xs ++ d.shrunk size.toNat :: ys)).Journaled bs := by
  have left := holds.shortened free
  obtain ⟨live, -, less⟩ := barsShrink_eq_false (holds.sound d (by simp)) free
  have live' : (d.shrunk size.toNat).isGarbage = false := live
  have shorter : (d.literals.take size.toNat).length < d.literals.length := by
    rw [List.length_take]
    omega
  have others : ∀ x : Numbered, (living xs ++ x :: living ys ++ bs.map BinaryClause.numbered).Perm
      (x :: (living xs ++ living ys ++ bs.map BinaryClause.numbered)) := by
    intro x
    rw [List.append_assoc, List.append_assoc]
    exact List.perm_middle
  refine h.cut (t := living xs ++ living ys ++ bs.map BinaryClause.numbered) rfl ?_ ?_ shorter
  · rw [stock, holds.stock_eq, living_append, living_cons_live live]
    exact others _
  · rw [stock, left.stock_eq, living_append, living_cons_live live']
    exact others _

end Journaled

end Database

/-- Some elements of a list without repetitions, and the others. -/
theorem perm_append_filter {xs ys : List Nat} (hx : xs.Nodup) (hy : ys.Nodup) (sub : ∀ y ∈ ys, y ∈ xs) :
    xs.Perm (ys ++ xs.filter fun x => !ys.contains x) := by
  have picked : (xs.filter fun x => ys.contains x).Perm ys := by
    rw [List.perm_ext_iff_of_nodup (hx.sublist List.filter_sublist) hy]
    intro x
    rw [List.mem_filter, List.contains_iff_mem]
    exact ⟨fun h => h.2, fun h => ⟨sub x h, h⟩⟩
  exact (List.filter_append_perm (fun x => ys.contains x) xs).symm.trans (picked.append_right _)

/-- The clauses that a reduction has left, but for a compaction. -/
theorem Thinned.stock_eq {byScore : Bool} {search : Snapshot} {db db₁ : Database} {cs zs : List Cell}
    {gone : List Nat} (h : Thinned byScore search db db₁ cs zs gone) (holds : db.Holds cs) :
    db₁.arena.stock = (db.arena.live.filter fun o => !gone.contains o).map db.arena.numbered := by
  rw [Arena.stock, ← h.live_eq holds]
  refine List.map_congr_left fun o ho => ?_
  exact congrArg (fun x => (x.1, x.2.1)) (h.clause_eq holds ho)

namespace Database

variable {db db' : Database} {bs : List BinaryClause} {cs ds : List Cell}

/-- No place is listed twice. -/
theorem Holds.nodup_live (h : db.Holds cs) : db.arena.live.Nodup := by
  have ascending : (offsets 0 cs).Nodup := (offsets_pairwise 0 cs).imp Nat.ne_of_lt
  rw [Arena.live, h.tiled.walkFrom_zero]
  exact ascending.sublist List.filter_sublist

namespace Journaled

/-- What a reduction tells, but for a compaction. -/
theorem thinned (h : db.Journaled bs) (holds : db.Holds cs) {byScore : Bool} {search : Snapshot}
    {gone : List Nat} (step : Thinned byScore search db db' cs ds gone) : db'.Journaled bs := by
  obtain ⟨features, quiet, told⟩ := step.told
  have split : (db.stock bs).Perm (gone.map db.arena.numbered ++ db'.stock bs) := by
    rw [stock, stock, step.stock_eq holds, ← List.append_assoc, ← List.map_append]
    refine ((perm_append_filter holds.nodup_live step.apart fun o ho => ?_).map _).append_right _
    exact (step.gone_eq holds ho).1
  have apart := h.apart
  rw [(split.map Prod.fst).nodup_iff] at apart
  have gone_told := Event.turns_deletions apart
  rw [List.map_map] at gone_told
  refine h.step (told.trans (List.append_assoc ..)) ?_ ?_
  · have turned := (Event.turns_nil split).append gone_told
    exact (Event.turns_features quiet).append turned
  · rw [List.map_append] at apart
    exact apart.sublist (List.sublist_append_right ..)

/-- What a reduction tells. -/
theorem thinning (h : db.Journaled bs) (holds : db.Holds cs) {byScore : Bool}
    {search search' : Snapshot} {gone : List Nat}
    (step : Thinning byScore search db cs gone search' db' ds) : db'.Journaled bs := by
  cases step with
  | still thinned => exact h.thinned holds thinned
  | @compacted db₁ xs ys first last thinned first_at =>
    refine (h.thinned holds thinned).silent rfl ?_
    rw [stock, stock, thinned.holds.stock_collected last first_at]

/-- What any other operation tells. -/
theorem effect {π : Type} {c c' : Context π} {op : Operation} {r : Except Error Answer}
    (h : c.database.Journaled bs) (holds : c.database.Holds cs) (binds : c.database.Binds bs)
    (step : Effect c cs op r c' ds) (apart : op.aside = false) :
    c'.database.Journaled (BinaryClause.record op r bs) := by
  have left := step.holds holds
  cases step with
  | configured => exact h
  | beside aside =>
    rw [aside] at apart
    cases apart
  | stored storage => exact h.storage holds binds storage
  | @noted _ r d f note found =>
    rw [BinaryClause.record_done apart]
    have core_eq := core_mapAt_only (Operation.core_of_note note) r.offset cs
    exact h.relaid holds left rfl (map_eq_of_core survivor?_eq_of_core core_eq)
  | refused =>
    rw [BinaryClause.record_error]
    exact h
  | marked found live => exact h.marked holds found live
  | @promoted r d found live =>
    refine h.relaid holds left rfl (map_mapAt fun k e _ => ?_)
    rw [Arena.only]
    split <;> rfl
  | shortened split start free =>
    subst split
    exact h.shortened holds free
  | @collected start xs ys first last split start_eq first_at =>
    subst split
    refine h.silent rfl ?_
    rw [stock, stock, holds.stock_collected last first_at]
    rfl
  | reduced reduction =>
    obtain ⟨gone, thinning, -⟩ := reduction.thinning holds
    exact h.thinning holds thinning

/-- The log does not matter. -/
theorem logged (h : db.Journaled bs) (ms : Array Message) :
    Database.Journaled (Logged.withMessages ms db) bs :=
  ⟨h.turns, h.apart⟩

end Journaled

end Database

namespace Listeners

variable {σ : Type}

/-- Fresh listeners that write births and deaths into a journal. -/
def journaling (features : Bool) (transcript : Transcript σ) : Listeners σ :=
  { originals := true, additions := .journal, deletions := .journal, features, transcript }

/-- Births and deaths go into the journal. -/
structure Journaling (l : Listeners σ) : Prop where
  originals : l.originals = true
  additions : l.additions = .journal
  deletions : l.deletions = .journal

variable [Sink σ] {l : Listeners σ}

/-- What is heard of an event is replayed like the event. -/
theorem Journaling.hear (h : l.Journaling) (e : Event) : (l.hear e).Journaling ∧
    ∃ heard, (l.hear e).journal = l.journal ++ heard ∧
      ∀ held, Event.replayAll? held heard = Event.replay? held e := by
  have written : l.hearing e = .journal → (l.hear e).Journaling ∧
      ∃ heard, (l.hear e).journal = l.journal ++ heard ∧
        ∀ held, Event.replayAll? held heard = Event.replay? held e := by
    intro hears
    rw [Listeners.hear, hears]
    refine ⟨⟨h.originals, h.additions, h.deletions⟩, [e], rfl, fun held => ?_⟩
    rw [Event.replayAll?_cons]
    cases Event.replay? held e <;> rfl
  cases e with
  | original => exact written (if_pos h.originals)
  | addition => exact written h.additions
  | deletion => exact written h.deletions
  | features identity row =>
    cases exported : l.features with
    | true => exact written (if_pos exported)
    | false =>
      have unheard : l.hearing (.features identity row) = .nowhere := if_neg (by simp [exported])
      rw [Listeners.hear, unheard]
      exact ⟨h, [], (List.append_nil _).symm, fun held => rfl⟩

/-- A journal is replayed like the events that were heard. -/
theorem Journaling.replay_hearAll (h : l.Journaling) (es : List Event) (held : List Numbered) :
    Event.replayAll? held (l.hearAll es).journal =
      (Event.replayAll? held l.journal).bind fun s => Event.replayAll? s es := by
  induction es generalizing l with
  | nil =>
    show Event.replayAll? held l.journal = _
    cases Event.replayAll? held l.journal <;> rfl
  | cons e es ih =>
    obtain ⟨next, heard, journal_eq, heard_eq⟩ := h.hear e
    have rest := ih next
    rw [journal_eq, Event.replayAll?_append, Option.bind_assoc] at rest
    refine rest.trans ?_
    simp only [heard_eq, Event.replayAll?_cons]

end Listeners

namespace Context

variable {π : Type} [Predictor π] {c : Context π} {cs : List Cell} {bs : List BinaryClause}

/-- One step of a run keeps the journal. -/
theorem journaled_step (holds : c.database.Holds cs) (binds : c.database.Binds bs)
    (h : c.database.Journaled bs) {op : Operation} (lawful : op.Lawful c) :
    (op.after c).database.Journaled (BinaryClause.record op (op.answer c) bs) := by
  cases aside : op.aside with
  | true =>
    obtain ⟨db, ms, after_eq, sideline⟩ := exists_sideline holds aside
    rw [after_eq]
    exact (h.sideline binds sideline).logged ms
  | false =>
    obtain ⟨c', ds, ms, after_eq, effect⟩ := exists_effect holds lawful
    rw [after_eq]
    exact (h.effect holds binds effect aside).logged ms

/-- A run keeps the journal. -/
theorem journaled_run {ops : List Operation} (holds : c.database.Holds cs) (binds : c.database.Binds bs)
    (h : c.database.Journaled bs) (follows : c.Follows ops) :
    (c.run ops).database.Journaled (BinaryClause.keep c ops bs) := by
  induction ops generalizing c cs bs with
  | nil => exact h
  | cons op ops ih =>
    obtain ⟨lawful, rest⟩ := follows
    obtain ⟨ds, next⟩ := exists_holds_step holds lawful
    exact ih next (binds_step holds binds lawful) (journaled_step holds binds h lawful) rest

/-- Nothing is told of an empty database. -/
theorem journaled_nil : Database.Journaled {} [] := by
  have stock_eq : Database.stock {} [] = [] := by
    rw [Database.stock, holds_nil.stock_eq]
    rfl
  refine ⟨?_, ?_⟩
  · rw [stock_eq]
    exact Event.turns_nil (.refl [])
  · rw [stock_eq]
    exact .nil

/-- A call to shorten a clause tells the shorter one before the end of the longer, or nothing. -/
theorem shortens_told (holds : c.database.Holds cs) {r : Reference} (size : UInt64)
    (addressed : c.database.Addresses r) :
    Event.Shortens ((Operation.shrink r size).told c) := by
  have lawful : (Operation.shrink r size).Lawful c := addressed
  obtain ⟨c', ds, ms, after_eq, effect⟩ := exists_effect holds lawful
  rw [told_eq_drop after_eq]
  generalize (Operation.shrink r size).answer c = answer at effect
  cases effect with
  | beside aside => cases aside
  | noted note => cases note
  | refused =>
    left
    rw [← Array.length_toList]
    exact List.drop_length
  | @shortened _ _ xs ys d split start free =>
    subst split
    obtain ⟨-, -, less⟩ := Database.barsShrink_eq_false (holds.sound d (by simp)) free
    refine .inr ⟨d.header.identity, d.literals, size.toNat,
      if d.header.flags.redundant then .redundant else .irredundant, by omega, ?_⟩
    rw [Database.shortened, Array.toList_push, Array.toList_push, ← Array.length_toList,
      List.append_assoc, List.drop_left]
    rfl

/-- Behind every lawful run, the journal of all births and deaths is replayed without a deletion that
finds nothing, and leaves the live clauses, long and binary; and a clause that is then shortened is told
anew before its end is told. -/
theorem journal_faithful (config : Config) (predictor : π) (ops : List Operation) {σ : Type} [Sink σ]
    (features : Bool) (transcript : Transcript σ) (follows : (ofConfig config predictor).Follows ops) :
    (∃ held, Event.replayAll? [] ((Listeners.journaling features transcript).hearAll
          ((ofConfig config predictor).run ops).database.events.toList).journal = some held ∧
        held.Perm (((ofConfig config predictor).run ops).database.stock
          (BinaryClause.keep (ofConfig config predictor) ops []))) ∧
      ((ofConfig config predictor).run ops).database.Binds
        (BinaryClause.keep (ofConfig config predictor) ops []) ∧
      ∀ r size, ((ofConfig config predictor).run ops).database.Addresses r →
        Event.Shortens ((Operation.shrink r size).told ((ofConfig config predictor).run ops)) := by
  have holds : (ofConfig config predictor).database.Holds [] := holds_nil
  have binds : (ofConfig config predictor).database.Binds [] := binds_nil
  have start : (ofConfig config predictor).database.Journaled [] := journaled_nil
  have journaled := journaled_run holds binds start follows
  obtain ⟨cs, left⟩ := exists_holds_run holds follows
  have fresh : (Listeners.journaling features transcript).Journaling := ⟨rfl, rfl, rfl⟩
  refine ⟨?_, binds_run holds binds follows, fun r size addressed => shortens_told left size addressed⟩
  obtain ⟨held, replayed, perm⟩ := journaled.turns [] (.refl [])
  exact ⟨held, (fresh.replay_hearAll _ []).trans replayed, perm⟩

/-- Clauses that are stored, shortened, deleted and reduced. -/
def journalRun : List Operation :=
  [.create .original 0 [⟨4⟩, ⟨-1⟩], .create .original 0 [⟨3⟩, ⟨1⟩, ⟨2⟩],
    .create .redundant 9 [⟨-1⟩, ⟨2⟩, ⟨4⟩], .create .redundant 8 [⟨5⟩, ⟨-2⟩, ⟨3⟩, ⟨4⟩],
    .create .redundant 3 [⟨6⟩, ⟨5⟩], .shrink (.ofOffset 24) 3, .deleteBinary ⟨-1⟩ ⟨4⟩ false 1,
    .noteConflict, .reduce { variableCount := 6, activeCount := 6 }]

/-- A sink that keeps nothing. -/
instance : Sink Unit where
  write _ := pure ()
  flush := pure ()

/-- Two long clauses and a binary one are left of five. -/
theorem journal_faithful_journalRun :
    (ofConfig {} ({} : Linear)).Follows journalRun ∧
      ((ofConfig {} ({} : Linear)).run journalRun).database.stock
          (BinaryClause.keep (ofConfig {} ({} : Linear)) journalRun []) =
        [(2, [⟨1⟩, ⟨2⟩, ⟨3⟩]), (4, [⟨5⟩, ⟨-2⟩, ⟨3⟩]), (5, [⟨6⟩, ⟨5⟩])] ∧
      (∃ held, Event.replayAll? [] ((Listeners.journaling true (⟨(), []⟩ : Transcript Unit)).hearAll
            ((ofConfig {} ({} : Linear)).run journalRun).database.events.toList).journal = some held ∧
          held.Perm (((ofConfig {} ({} : Linear)).run journalRun).database.stock
            (BinaryClause.keep (ofConfig {} ({} : Linear)) journalRun []))) ∧
      ((ofConfig {} ({} : Linear)).run journalRun).database.Binds
          (BinaryClause.keep (ofConfig {} ({} : Linear)) journalRun []) ∧
      ∀ r size, ((ofConfig {} ({} : Linear)).run journalRun).database.Addresses r →
        Event.Shortens
          ((Operation.shrink r size).told ((ofConfig {} ({} : Linear)).run journalRun)) := by
  have follows : (ofConfig {} ({} : Linear)).Follows journalRun := by decide +kernel
  have left : ((ofConfig {} ({} : Linear)).run journalRun).database.stock
      (BinaryClause.keep (ofConfig {} ({} : Linear)) journalRun []) =
    [(2, [⟨1⟩, ⟨2⟩, ⟨3⟩]), (4, [⟨5⟩, ⟨-2⟩, ⟨3⟩]), (5, [⟨6⟩, ⟨5⟩])] := by decide +kernel
  exact ⟨follows, left,
    journal_faithful ({} : Config) ({} : Linear) journalRun true ⟨(), []⟩ follows⟩

end Context

end ClauseStore
