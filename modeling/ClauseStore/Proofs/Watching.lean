import ClauseStore.Proofs.Storing

/-!
Watch lists, literal by literal. What is done to the list of one literal does not touch that of another,
binary watches and long watches do not touch each other, and the queue stands apart. The order of the
binary watches of a literal is lost when one is taken out, so they are known up to a permutation.
-/

namespace ClauseStore

/-! ### Lists of single literals -/

theorem getD_widened {α : Type} (xs : Array α) (i j : Nat) (fill : α) :
    (widened xs i fill).getD j fill = xs.getD j fill := by
  simp only [widened, Array.getD_eq_getD_getElem?, Array.getElem?_append]
  split
  · rfl
  next outside =>
    rw [Array.getElem?_eq_none (Nat.not_lt.1 outside), Array.getElem?_replicate]
    split <;> rfl

theorem lt_size_widened {α : Type} (xs : Array α) (i : Nat) (fill : α) :
    i < (widened xs i fill).size := by
  simp only [widened, Array.size_append, Array.size_replicate]
  omega

namespace Watches

variable (w : Watches) (l m : Literal)

theorem list_revise (f : WatchList → WatchList) :
    (w.revise l f).list m = if m = l then f (w.list l) else w.list m := by
  have before := getD_widened w.lists l.index m.index {}
  rw [list, list, list, revise, Array.getD_eq_getD_getElem?, Array.getElem?_modify]
  rw [Array.getD_eq_getD_getElem?] at before
  by_cases same : m = l
  · subst same
    rw [if_pos rfl, if_pos rfl, ← before, Array.getElem?_eq_getElem (lt_size_widened ..)]
    rfl
  · rw [if_neg fun index_eq => same (Literal.index_injective index_eq).symm, if_neg same, before]

@[simp] theorem pending_revise (f : WatchList → WatchList) : (w.revise l f).pending = w.pending := rfl

theorem list_relocate (r : Relocation) : (w.relocate r).list l = (w.list l).relocate r := by
  simp only [list, relocate, Array.getD_eq_getD_getElem?, Array.getElem?_map]
  cases w.lists[l.index]? with
  | none => simp [WatchList.relocate]
  | some x => rfl

theorem binary_pushBinary (b : BinaryWatch) : (w.pushBinary l b).binary m =
    if m = l then (w.binary l).push b else w.binary m := by
  simp only [binary, pushBinary, list_revise]
  split <;> rfl

@[simp] theorem long_pushBinary (b : BinaryWatch) : (w.pushBinary l b).long m = w.long m := by
  simp only [long, pushBinary, list_revise]
  split
  next same => rw [same]
  next => rfl

theorem long_pushLong (x : LongWatch) : (w.pushLong l x).long m =
    if m = l then (w.long l).push x else w.long m := by
  simp only [long, pushLong, list_revise]
  split <;> rfl

@[simp] theorem binary_pushLong (x : LongWatch) : (w.pushLong l x).binary m = w.binary m := by
  simp only [binary, pushLong, list_revise]
  split
  next same => rw [same]
  next => rfl

@[simp] theorem pending_watchLong (r : Reference) (a b : Literal) :
    (w.watchLong r a b).pending = w.pending := by
  rw [watchLong, pushLong, pending_revise, pushLong, pending_revise]

@[simp] theorem binary_watchLong (r : Reference) (a b : Literal) :
    (w.watchLong r a b).binary m = w.binary m := by
  rw [watchLong, binary_pushLong, binary_pushLong]

@[simp] theorem long_watchBinary (a b : Literal) (redundant : Bool) (identity : UInt32) :
    (w.watchBinary a b redundant identity).long m = w.long m := by
  rw [watchBinary, long_pushBinary, long_pushBinary]

@[simp] theorem pending_watchBinary (a b : Literal) (redundant : Bool) (identity : UInt32) :
    (w.watchBinary a b redundant identity).pending = w.pending := by
  rw [watchBinary, pushBinary, pending_revise, pushBinary, pending_revise]

theorem long_relocate (r : Relocation) : (w.relocate r).long l =
    (w.long l).filterMap fun x => (r.get? x.clause).map fun s => { x with clause := s } := by
  rw [long, list_relocate]
  rfl

/-- A fresh long clause concerns no binary watch, watched or queued. -/
theorem binary_attach (r : Reference) (a b : Literal) :
    (Database.attach r a b w).binary m = w.binary m := by
  rw [Database.attach]
  split
  · rw [binary_watchLong]
  · rfl

end Watches

/-! ### Taking out a binary watch -/

/-- Where an element of an array is replaced by the last one and the last one is taken off, the element
is taken out. -/
theorem pop_setIfInBounds_back_perm {α : Type} [Inhabited α] {xs : Array α} {i : Nat} (h : i < xs.size) :
    (xs[i] :: ((xs.setIfInBounds i (xs.back?.getD default)).pop).toList).Perm xs.toList := by
  obtain ⟨ys, z, xs_eq⟩ : ∃ ys z, xs.toList = ys ++ [z] :=
    ⟨_, _, (List.dropLast_concat_getLast (l := xs.toList) (by
      intro none
      rw [← Array.length_toList, none] at h
      cases h)).symm⟩
  have back_eq : xs.back?.getD default = z := by
    rw [← Array.getLast?_toList, xs_eq, List.getLast?_concat]
    rfl
  have size_eq : xs.size = ys.length + 1 := by rw [← Array.length_toList, xs_eq]; simp
  rw [back_eq, Array.toList_pop, Array.toList_setIfInBounds, ← Array.getElem_toList h]
  simp only [xs_eq]
  by_cases last : i = ys.length
  · subst last
    simpa using (List.perm_append_singleton z ys).symm
  · have inside : i < ys.length := by omega
    rw [List.set_append_left _ _ inside, List.dropLast_concat, List.getElem_append_left inside]
    obtain ⟨us, vs, ys_eq, -, set_eq⟩ : ∃ us vs, ys = us ++ ys[i] :: vs ∧ us.length = i ∧
        ys.set i z = us ++ z :: vs := List.exists_of_set inside
    rw [set_eq]
    generalize ys[i] = y at ys_eq
    -- the last one comes to stand where the element stood
    have first : (y :: (us ++ z :: vs)).Perm (z :: y :: (us ++ vs)) :=
      (List.perm_middle.cons y).trans (.swap z y _)
    have back : (y :: (us ++ vs)).Perm ys := by
      rw [ys_eq]
      exact List.perm_middle.symm
    exact first.trans ((back.cons z).trans (List.perm_append_singleton z ys).symm)

namespace WatchList

variable {w w' : WatchList} {other : Literal} {identity : UInt32}

/-- A binary watch that is taken out was there, and the others stay. -/
theorem removeBinary?_eq_some (h : w.removeBinary? other identity = some w') :
    ∃ x, x.identity = identity ∧ x.other = other ∧ (x :: w'.binary.toList).Perm w.binary.toList ∧
      w'.long = w.long := by
  rw [removeBinary?, Option.map_eq_some_iff] at h
  obtain ⟨i, found, rfl⟩ := h
  obtain ⟨inside, picked, -⟩ := Array.findIdx?_eq_some_iff_getElem.1 found
  simp only [Bool.and_eq_true, beq_iff_eq] at picked
  exact ⟨w.binary[i], picked.1, picked.2, pop_setIfInBounds_back_perm inside, rfl⟩

/-- Where no binary watch is taken out, there is none of the clause. -/
theorem removeBinary?_eq_none (h : w.removeBinary? other identity = none) :
    ∀ x ∈ w.binary.toList, ¬ (x.identity = identity ∧ x.other = other) := by
  rw [removeBinary?, Option.map_eq_none_iff, Array.findIdx?_eq_none_iff] at h
  intro x hx
  simpa using h x (Array.mem_toList_iff.1 hx)

end WatchList

end ClauseStore
