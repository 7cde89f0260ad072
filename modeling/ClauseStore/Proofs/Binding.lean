import ClauseStore.Proofs.Conservation
import ClauseStore.Proofs.Sideline
import ClauseStore.Proofs.Watching

/-!
Binary clauses. They are held by the watch lists alone, so what is stored is told by a list that is kept
beside a run from its calls and answers: a clause comes with the answer that places it, and goes with the
deletion of its identity. The watch lists hold these clauses, each by one watch on each literal, and no
other binary watch. A deletion finds both watches of its clause, or none of them.
-/

namespace ClauseStore

open Cell Database

/-- A binary clause. -/
structure BinaryClause where
  identity : UInt32
  first : Literal
  second : Literal
  redundant : Bool
  deriving DecidableEq

namespace BinaryClause

/-- The watches of a binary clause in the list of a literal. -/
def watchesOn (l : Literal) (b : BinaryClause) : List BinaryWatch :=
  if l = b.first then [⟨b.second, b.redundant, b.identity⟩]
  else if l = b.second then [⟨b.first, b.redundant, b.identity⟩]
  else []

/-- Whether a clause is the one of two literals, in either order, with an identity. -/
def Matches (a b : Literal) (identity : UInt32) (x : BinaryClause) : Prop :=
  x.identity = identity ∧ (x.first = a ∧ x.second = b ∨ x.first = b ∧ x.second = a)

/-- The binary clauses behind a call, by its answer. -/
def record (op : Operation) (r : Except Error Answer) (bs : List BinaryClause) : List BinaryClause :=
  match op, r with
  | .create source _ clause, .ok (.placed (.binary identity)) =>
    match clause.filed source with
    | [a, b] => bs ++ [⟨identity, a, b, source == .redundant⟩]
    | _ => bs
  | .deleteBinary _ _ _ identity, .ok _ => bs.filter fun x => x.identity ≠ identity
  | _, _ => bs

/-- The binary clauses behind a run. -/
def keep {π : Type} [Predictor π] (c : Context π) : List Operation → List BinaryClause → List BinaryClause
  | [], bs => bs
  | op :: ops, bs => keep (op.after c) ops (record op (op.answer c) bs)

end BinaryClause

/-- The watch lists hold some binary clauses: the list of each literal has the watches of these clauses on
it, each once, and no other. -/
def Watches.Binds (w : Watches) (bs : List BinaryClause) : Prop :=
  ∀ l, (w.binary l).toList.Perm (bs.flatMap fun x => x.watchesOn l)

/-- The binary clauses of a database are some clauses of different literals and different identities. -/
structure Database.Binds (db : Database) (bs : List BinaryClause) : Prop where
  lists : db.watches.Binds bs
  proper : ∀ x ∈ bs, x.first ≠ x.second
  apart : (bs.map BinaryClause.identity).Nodup
  below : ∀ x ∈ bs, x.identity.toNat < db.nextIdentity.toNat

/-! ### Watches of one clause -/

namespace BinaryClause

variable {a b l : Literal} {identity : UInt32} {x y : BinaryClause} {bs : List BinaryClause}
  {v : BinaryWatch}

theorem Matches.swap (h : x.Matches a b identity) : x.Matches b a identity := ⟨h.1, h.2.symm⟩

/-- A watch of a clause tells the clause. -/
theorem matches_of_watch (h : v ∈ x.watchesOn l) : x.Matches l v.other v.identity := by
  rw [watchesOn] at h
  split at h
  next first =>
    obtain rfl := List.mem_singleton.1 h
    exact ⟨rfl, .inl ⟨first.symm, rfl⟩⟩
  next =>
    split at h
    next second =>
      obtain rfl := List.mem_singleton.1 h
      exact ⟨rfl, .inr ⟨rfl, second.symm⟩⟩
    next => cases h

/-- Each literal of a clause has one watch of it. -/
theorem watchesOn_of_matches (h : x.Matches a b identity) (proper : x.first ≠ x.second) :
    x.watchesOn a = [⟨b, x.redundant, identity⟩] := by
  obtain ⟨rfl, ⟨rfl, rfl⟩ | ⟨rfl, rfl⟩⟩ := h
  · rw [watchesOn, if_pos rfl]
  · rw [watchesOn, if_neg proper.symm, if_pos rfl]

theorem watchesOn_of_not_matches (h : x.Matches a b identity) (first : l ≠ a) (second : l ≠ b) :
    x.watchesOn l = [] := by
  obtain ⟨rfl, ⟨rfl, rfl⟩ | ⟨rfl, rfl⟩⟩ := h
  · rw [watchesOn, if_neg first, if_neg second]
  · rw [watchesOn, if_neg second, if_neg first]

/-- A clause of a list of clauses with different identities, and the others. -/
theorem perm_cons_filter (apart : (bs.map BinaryClause.identity).Nodup) (hx : x ∈ bs) :
    bs.Perm (x :: bs.filter fun y => y.identity ≠ x.identity) := by
  obtain ⟨us, vs, rfl⟩ := List.append_of_mem hx
  rw [(List.perm_middle.map _).nodup_iff, List.map_cons, List.nodup_cons] at apart
  have others : ∀ y ∈ us ++ vs, y.identity ≠ x.identity := by
    intro y hy same
    exact apart.1 (same ▸ List.mem_map_of_mem hy)
  have kept : (us ++ x :: vs).filter (fun y => decide (y.identity ≠ x.identity)) = us ++ vs := by
    rw [List.filter_append, List.filter_cons_of_neg (by simp), ← List.filter_append]
    exact List.filter_eq_self.2 fun y hy => decide_eq_true (others y hy)
  rw [kept]
  exact List.perm_middle

theorem eq_of_identity (apart : (bs.map BinaryClause.identity).Nodup) (hx : x ∈ bs) (hy : y ∈ bs)
    (same : x.identity = y.identity) : x = y := by
  rcases List.mem_cons.1 ((perm_cons_filter apart hx).mem_iff.1 hy) with rfl | other
  · rfl
  · simp [same] at other

/-- A call that is refused concerns no binary clause. -/
theorem record_error (op : Operation) (e : Error) : record op (.error e) bs = bs := by
  cases op <;> rfl

theorem record_done {op : Operation} (apart : op.aside = false) : record op (.ok .done) bs = bs := by
  cases op with
  | deleteBinary => cases apart
  | _ => rfl

end BinaryClause

open BinaryClause

/-! ### Storing and deleting binary clauses -/

namespace Watches.Binds

variable {w w' : Watches} {bs : List BinaryClause} {a b : Literal} {identity : UInt32}

theorem watchBinary (h : w.Binds bs) (a b : Literal) (redundant : Bool) (identity : UInt32)
    (proper : a ≠ b) :
    (w.watchBinary a b redundant identity).Binds (bs ++ [⟨identity, a, b, redundant⟩]) := by
  intro l
  have pushed : ((w.watchBinary a b redundant identity).binary l).toList =
      (w.binary l).toList ++ watchesOn l ⟨identity, a, b, redundant⟩ := by
    simp only [Watches.watchBinary, binary_pushBinary, watchesOn]
    by_cases first : l = a
    · subst first
      simp [proper]
    · by_cases second : l = b
      · subst second
        simp [first]
      · simp [first, second]
  rw [pushed, List.flatMap_append, List.flatMap_singleton]
  exact (h l).append_right _

/-- A watch in the list of a literal is one of a clause that is held. -/
theorem exists_matches (h : w.Binds bs) {l : Literal} {v : BinaryWatch}
    (hv : v ∈ (w.binary l).toList) : ∃ x ∈ bs, v ∈ x.watchesOn l :=
  List.mem_flatMap.1 ((h l).mem_iff.1 hv)

/-- The lists without one of the clauses. -/
theorem without (h : w.Binds bs) (apart : (bs.map BinaryClause.identity).Nodup) {x : BinaryClause}
    (hx : x ∈ bs) (l : Literal) : (w.binary l).toList.Perm
      (x.watchesOn l ++ (bs.filter fun y => y.identity ≠ x.identity).flatMap fun y => y.watchesOn l) :=
  (h l).trans ((perm_cons_filter apart hx).flatMap_right _)

end Watches.Binds

/-- What is left of a list when one watch of a clause is taken out of it. -/
theorem WatchList.removeBinary?_of_watch {u : WatchList} {other : Literal} {identity : UInt32}
    {rest : List BinaryWatch} {v : BinaryWatch} (held : u.binary.toList.Perm (v :: rest))
    (own : v.identity = identity ∧ v.other = other) (others : ∀ y ∈ rest, y.identity ≠ identity) :
    ∃ u', u.removeBinary? other identity = some u' ∧ u'.binary.toList.Perm rest ∧ u'.long = u.long := by
  cases found : u.removeBinary? other identity with
  | none =>
    exact absurd own (WatchList.removeBinary?_eq_none found v (held.mem_iff.2 (List.mem_cons_self ..)))
  | some u' =>
    obtain ⟨y, identity_eq, -, taken, long_eq⟩ := WatchList.removeBinary?_eq_some found
    have among : y ∈ v :: rest := (taken.trans held).mem_iff.1 (List.mem_cons_self ..)
    rcases List.mem_cons.1 among with rfl | hy
    · exact ⟨u', rfl, (taken.trans held).cons_inv, long_eq⟩
    · exact absurd identity_eq (others y hy)

namespace Watches

variable {w w' : Watches} {bs : List BinaryClause} {a b : Literal} {identity : UInt32}

/-- What one revision of a list leaves of the others. -/
theorem dropBinary?_eq {l other : Literal} {u : WatchList}
    (h : (w.list l).removeBinary? other identity = some u) :
    w.dropBinary? l other identity = some (w.revise l fun _ => u) := by
  rw [dropBinary?, h]
  rfl

/-- The watch lists after both watches of a clause are taken out, or after none is found. -/
inductive Unwatching (w : Watches) (a b : Literal) (identity : UInt32) (bs : List BinaryClause) :
    Option Literal × Watches → Prop where
  | found {x : BinaryClause} {w' : Watches} (held : x ∈ bs) (own : x.Matches a b identity)
    (left : w'.Binds (bs.filter fun y => y.identity ≠ identity))
    (long_eq : ∀ l, w'.long l = w.long l) (pending_eq : w'.pending = w.pending) :
    Unwatching w a b identity bs (none, w')
  | missing (unheld : ∀ x ∈ bs, ¬ x.Matches a b identity) : Unwatching w a b identity bs (some a, w)

/-- A clause that is held is taken out of the lists of both its literals. -/
theorem unwatchBinary_of_matches (h : w.Binds bs) (proper : ∀ x ∈ bs, x.first ≠ x.second)
    (apart : (bs.map BinaryClause.identity).Nodup) {x : BinaryClause} (hx : x ∈ bs)
    (own : x.Matches a b identity) :
    ∃ w', w.unwatchBinary a b identity = (none, w') ∧
      w'.Binds (bs.filter fun y => y.identity ≠ identity) ∧ (∀ l, w'.long l = w.long l) ∧
      w'.pending = w.pending := by
  have on_a := watchesOn_of_matches own (proper x hx)
  have on_b := watchesOn_of_matches own.swap (proper x hx)
  have apart_ab : b ≠ a := by
    obtain ⟨-, ⟨rfl, rfl⟩ | ⟨rfl, rfl⟩⟩ := own
    · exact (proper x hx).symm
    · exact proper x hx
  have split := h.without apart hx
  rw [own.1] at split
  have others : ∀ l, ∀ y ∈ (bs.filter fun y => y.identity ≠ identity).flatMap fun y => y.watchesOn l,
      y.identity ≠ identity := by
    intro l y hy
    obtain ⟨z, hz, watch⟩ := List.mem_flatMap.1 hy
    rw [← (matches_of_watch watch).1]
    simpa using (List.mem_filter.1 hz).2
  obtain ⟨u, first, left_a, long_a⟩ := WatchList.removeBinary?_of_watch (u := w.list a)
    (on_a ▸ split a) ⟨rfl, rfl⟩ (others a)
  obtain ⟨v, second, left_b, long_b⟩ := WatchList.removeBinary?_of_watch (u := w.list b)
    (on_b ▸ split b) ⟨rfl, rfl⟩ (others b)
  have list_b : (w.revise a fun _ => u).list b = w.list b := by rw [list_revise, if_neg apart_ab]
  refine ⟨(w.revise a fun _ => u).revise b fun _ => v, ?_, fun l => ?_, fun l => ?_, ?_⟩
  · rw [unwatchBinary, dropBinary?_eq first]
    dsimp only
    rw [dropBinary?_eq (list_b.symm ▸ second)]
  · rw [binary, list_revise, list_revise]
    by_cases at_b : l = b
    · subst at_b
      rw [if_pos rfl]
      exact left_b
    · rw [if_neg at_b]
      by_cases at_a : l = a
      · subst at_a
        rw [if_pos rfl]
        exact left_a
      · -- the clause has no watch in any other list
        have none_here := split l
        rw [watchesOn_of_not_matches own at_a at_b] at none_here
        rw [if_neg at_a]
        exact none_here
  · rw [long, list_revise, list_revise]
    split
    next at_b => rw [at_b, long_b, long]
    next =>
      split
      next at_a => rw [at_a, long_a, long]
      next => rfl
  · rw [pending_revise, pending_revise]

/-- No clause is taken out where none is held. -/
theorem unwatchBinary_of_unheld (h : w.Binds bs) (unheld : ∀ x ∈ bs, ¬ x.Matches a b identity) :
    w.unwatchBinary a b identity = (some a, w) := by
  rw [unwatchBinary, dropBinary?]
  cases found : (w.list a).removeBinary? b identity with
  | none => rfl
  | some u =>
    obtain ⟨v, identity_eq, other_eq, taken, -⟩ := WatchList.removeBinary?_eq_some found
    obtain ⟨x, hx, watch⟩ := h.exists_matches (taken.mem_iff.1 (List.mem_cons_self ..))
    have own := matches_of_watch watch
    rw [identity_eq, other_eq] at own
    exact absurd own (unheld x hx)

/-- A clause is taken out of both lists, or of none. -/
theorem unwatching (h : w.Binds bs) (proper : ∀ x ∈ bs, x.first ≠ x.second)
    (apart : (bs.map BinaryClause.identity).Nodup) (a b : Literal) (identity : UInt32) :
    Unwatching w a b identity bs (w.unwatchBinary a b identity) := by
  by_cases held : ∃ x ∈ bs, x.Matches a b identity
  · obtain ⟨x, hx, own⟩ := held
    obtain ⟨w', result, left, long_eq, pending_eq⟩ := unwatchBinary_of_matches h proper apart hx own
    rw [result]
    exact .found hx own left long_eq pending_eq
  · have unheld : ∀ x ∈ bs, ¬ x.Matches a b identity := fun x hx own => held ⟨x, hx, own⟩
    rw [unwatchBinary_of_unheld h unheld]
    exact .missing unheld

end Watches

/-! ### Operations and runs -/

@[simp] theorem Watches.binary_joined (arena : Arena) (w : Watches) (r : Reference) (l : Literal) :
    (w.joined arena r).binary l = w.binary l := by
  rw [joined]
  split
  · rfl
  · split
    · exact binary_watchLong w l r _ _
    · rfl

theorem Watches.binary_foldl_joined (arena : Arena) (rs : List Reference) (w : Watches) (l : Literal) :
    (rs.foldl (joined arena) w).binary l = w.binary l := by
  induction rs generalizing w with
  | nil => rfl
  | cons r rs ih => rw [List.foldl_cons, ih, binary_joined]

namespace Database.Binds

variable {db db' : Database} {bs : List BinaryClause}

/-- Where the binary watches stay, binary clauses do. -/
theorem of_binary_eq (h : db.Binds bs) (binary_eq : ∀ l, db'.watches.binary l = db.watches.binary l)
    (next_le : db.nextIdentity.toNat ≤ db'.nextIdentity.toNat) : db'.Binds bs := by
  refine ⟨fun l => ?_, h.proper, h.apart, fun x hx => Nat.lt_of_lt_of_le (h.below x hx) next_le⟩
  rw [binary_eq]
  exact h.lists l

/-- The log does not matter. -/
theorem logged (h : db.Binds bs) (ms : Array Message) : Database.Binds (Logged.withMessages ms db) bs :=
  ⟨h.lists, h.proper, h.apart, h.below⟩

theorem storedBinary (h : db.Binds bs) {a b : Literal} (source : Source) (proper : a ≠ b)
    (fresh : db.nextIdentity ≠ 4294967295) :
    (db.storedBinary a b source).Binds
      (bs ++ [⟨db.nextIdentity, a, b, source == .redundant⟩]) := by
  have next_eq : (db.storedBinary a b source).nextIdentity.toNat = db.nextIdentity.toNat + 1 :=
    toNat_succ fresh
  refine ⟨h.lists.watchBinary a b _ _ proper, fun x hx => ?_, ?_, fun x hx => ?_⟩
  · rcases List.mem_append.1 hx with hx | hx
    · exact h.proper x hx
    · rw [List.mem_singleton.1 hx]
      exact proper
  · rw [List.map_append, List.map_singleton, List.nodup_append]
    refine ⟨h.apart, List.pairwise_singleton .., fun i hi j hj same => ?_⟩
    obtain ⟨x, hx, rfl⟩ := List.mem_map.1 hi
    have below := h.below x hx
    rw [same, List.mem_singleton.1 hj] at below
    exact Nat.lt_irrefl _ below
  · rw [next_eq]
    rcases List.mem_append.1 hx with hx | hx
    · exact Nat.lt_succ_of_lt (h.below x hx)
    · rw [List.mem_singleton.1 hx]
      exact Nat.lt_succ_self _

theorem deletedBinary (h : db.Binds bs) (a b : Literal) (redundant : Bool) {identity : UInt32} {w : Watches}
    (left : w.Binds (bs.filter fun y => y.identity ≠ identity)) :
    (db.deletedBinary a b redundant identity w).Binds
      (bs.filter fun y => y.identity ≠ identity) :=
  ⟨left, fun x hx => h.proper x (List.mem_filter.1 hx).1,
    h.apart.sublist (List.filter_sublist.map _), fun x hx => h.below x (List.mem_filter.1 hx).1⟩

/-- What an operation beside the long clauses does to the binary ones. -/
theorem sideline (h : db.Binds bs) {op : Operation} {r : Except Error Answer} (step : Sideline db op r db') :
    db'.Binds (BinaryClause.record op r bs) := by
  cases step with
  | listened => exact h.of_binary_eq (fun _ => rfl) (Nat.le_refl _)
  | counted => exact h
  | @deleted a b redundant identity w found =>
    have unwatching := Watches.unwatching h.lists h.proper h.apart a b identity
    rw [found] at unwatching
    cases unwatching with
    | found _ _ left => exact h.deletedBinary a b redundant left
  | @missing a b l redundant identity w missing =>
    have unwatching := Watches.unwatching h.lists h.proper h.apart a b identity
    rw [missing] at unwatching
    cases unwatching
    exact h
  | watching => exact h.of_binary_eq (fun _ => rfl) (Nat.le_refl _)
  | queued => exact h.of_binary_eq (fun _ => rfl) (Nat.le_refl _)
  | taken => exact h.of_binary_eq (fun _ => rfl) (Nat.le_refl _)
  | connected =>
    exact h.of_binary_eq (fun l => Watches.binary_foldl_joined db.arena _ _ l) (Nat.le_refl _)
  | halted => exact h.of_binary_eq (fun l => Watches.binary_foldl_joined db.arena _ _ l) (Nat.le_refl _)

/-- What storing does to the binary clauses. -/
theorem storage (h : db.Binds bs) {config : Config} {source : Source} {glue : UInt32}
    {conflicts : UInt64} {c : Clause} {cs cs' : List Cell} {r : Except Error Placement}
    (step : Storage config source glue conflicts c cs db r db' cs') :
    db'.Binds (BinaryClause.record (.create source glue c) (r.map .placed) bs) := by
  cases step with
  | refused e next drawn => exact h.of_binary_eq (fun _ => rfl) drawn
  | @binary a b literals_eq fresh accepted =>
    have apart := Clause.nodup_filed accepted source
    have proper : a ≠ b := by
      rw [literals_eq] at apart
      simpa using apart
    have kept := h.storedBinary source proper fresh
    simpa only [BinaryClause.record, Except.map, literals_eq] using kept
  | @long a b rest literals_eq long accepted fresh =>
    refine h.of_binary_eq (fun l => Watches.binary_attach db.watches l _ a b) ?_
    rw [storedLong, toNat_succ fresh]
    exact Nat.le_succ _

/-- What any other operation does to the binary clauses. -/
theorem effect {π : Type} {c c' : Context π} {cs ds : List Cell} {op : Operation}
    {r : Except Error Answer} (h : c.database.Binds bs) (holds : c.database.Holds cs)
    (step : Effect c cs op r c' ds) (apart : op.aside = false) :
    c'.database.Binds (BinaryClause.record op r bs) := by
  cases step with
  | configured => exact h
  | beside aside =>
    rw [aside] at apart
    cases apart
  | stored storage => exact h.storage storage
  | noted note =>
    rw [record_done apart]
    exact h.of_binary_eq (fun _ => rfl) (Nat.le_refl _)
  | refused =>
    rw [record_error]
    exact h
  | marked => exact h.of_binary_eq (fun _ => rfl) (Nat.le_refl _)
  | promoted => exact h.of_binary_eq (fun _ => rfl) (Nat.le_refl _)
  | shortened => exact h.of_binary_eq (fun _ => rfl) (Nat.le_refl _)
  | @collected _ xs ys =>
    exact h.of_binary_eq (binary_relocate c.database.watches (relocationOf xs ys)) (Nat.le_refl _)
  | reduced reduction =>
    obtain ⟨gone, thinning, -⟩ := reduction.thinning holds
    refine h.of_binary_eq thinning.binary_eq ?_
    rw [thinning.next_eq]
    exact Nat.le_refl _

end Database.Binds

namespace Context

variable {π : Type} [Predictor π] {c : Context π} {cs : List Cell} {bs : List BinaryClause}

/-- One step of a run keeps the binary clauses. -/
theorem binds_step (holds : c.database.Holds cs) (h : c.database.Binds bs) {op : Operation}
    (lawful : op.Lawful c) : (op.after c).database.Binds (BinaryClause.record op (op.answer c) bs) := by
  cases aside : op.aside with
  | true =>
    obtain ⟨db, ms, after_eq, sideline⟩ := exists_sideline holds aside
    rw [after_eq]
    exact (h.sideline sideline).logged ms
  | false =>
    obtain ⟨c', ds, ms, after_eq, effect⟩ := exists_effect holds lawful
    rw [after_eq]
    exact (h.effect holds effect aside).logged ms

/-- A run keeps the binary clauses. -/
theorem binds_run {ops : List Operation} (holds : c.database.Holds cs) (h : c.database.Binds bs)
    (follows : c.Follows ops) : (c.run ops).database.Binds (BinaryClause.keep c ops bs) := by
  induction ops generalizing c cs bs with
  | nil => exact h
  | cons op ops ih =>
    obtain ⟨lawful, rest⟩ := follows
    obtain ⟨ds, next⟩ := exists_holds_step holds lawful
    exact ih next (binds_step holds h lawful) rest

/-- An empty database has no binary clauses. -/
theorem binds_nil : Database.Binds {} [] :=
  ⟨fun _ => .refl _, by simp, .nil, by simp⟩

end Context

end ClauseStore
