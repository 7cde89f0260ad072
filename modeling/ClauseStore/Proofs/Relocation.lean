import ClauseStore.Relocation

/-!
Looking up a move. The moves of a relocation ascend in their old references, so halving finds the move of
a reference just where there is one, and comes to what a lookup from the first move on comes to.
-/

namespace ClauseStore

/-! ### Lookup in a list -/

section Lookup

variable {α β : Type} [BEq α] [LawfulBEq α] {xs : List (α × β)} {a : α} {b : β}

/-- What has a key is found by it, where no two have one. -/
theorem lookup_of_mem (apart : (xs.map Prod.fst).Nodup) (there : (a, b) ∈ xs) : xs.lookup a = some b := by
  induction xs with
  | nil => cases there
  | cons x xs ih =>
    rw [List.map_cons, List.nodup_cons] at apart
    rcases List.mem_cons.1 there with rfl | there
    · exact List.lookup_cons_self
    · have other : (a == x.1) = false := by
        rw [beq_eq_false_iff_ne]
        intro same
        exact apart.1 (List.mem_map.2 ⟨(a, b), there, same⟩)
      rw [List.lookup_cons, other]
      exact ih apart.2 there

theorem lookup_eq_none (missing : a ∉ xs.map Prod.fst) : xs.lookup a = none := by
  rw [List.lookup_eq_none_iff]
  intro x hx
  rw [bne_iff_ne]
  rintro rfl
  exact missing (List.mem_map_of_mem hx)

end Lookup

/-! ### Search by halving -/

namespace Relocation

variable {moves : Array (Reference × Reference)} {r s : Reference} {low high k : Nat}
  {inside : high ≤ moves.size}

theorem eq_of_not_lt (least : ¬ s < r) (greatest : ¬ r < s) : s = r := by
  cases s
  cases r
  exact congrArg Reference.mk (UInt32.toNat_inj.1 (Nat.le_antisymm (Nat.le_of_not_lt greatest)
    (Nat.le_of_not_lt least)))

/-- What is found is there. -/
theorem mem_of_search (found : search moves r low high inside = some s) : (r, s) ∈ moves := by
  fun_induction search moves r low high inside with
  | case1 low high inside stretch middle fits less ih => exact ih found
  | case2 low high inside stretch middle fits least less ih => exact ih found
  | case3 low high inside stretch middle fits least greatest =>
    rw [← eq_of_not_lt least greatest, ← Option.some.inj found]
    exact Array.getElem_mem fits
  | case4 => cases found

/-- What is among the moves of the stretch is found, if the moves ascend. -/
theorem exists_search (ascending : moves.toList.Pairwise fun m m' => m.1 < m'.1) (there : k < moves.size)
    (above : low ≤ k) (below : k < high) : ∃ s, search moves moves[k].1 low high inside = some s := by
  have in_order : ∀ i j (hi : i < moves.size) (hj : j < moves.size), i < j → moves[i].1 < moves[j].1 := by
    intro i j hi hj less
    exact List.pairwise_iff_getElem.1 ascending i j hi hj less
  generalize key_eq : moves[k].1 = r
  fun_induction search moves r low high inside with
  | case1 low high inside stretch middle fits less ih =>
    -- the move in the middle is before the one that is looked for
    refine ih (Nat.lt_of_not_le fun not_behind => ?_) below
    rcases Nat.lt_or_eq_of_le not_behind with before | rfl
    · have := in_order k middle there fits before
      rw [key_eq] at this
      exact absurd this (Nat.lt_asymm less)
    · rw [key_eq] at less
      exact Nat.lt_irrefl _ less
  | case2 low high inside stretch middle fits least less ih =>
    refine ih above (Nat.lt_of_not_le fun not_before => ?_)
    rcases Nat.lt_or_eq_of_le not_before with behind | rfl
    · have := in_order middle k fits there behind
      rw [key_eq] at this
      exact least this
    · rw [key_eq] at less
      exact Nat.lt_irrefl _ less
  | case3 => exact ⟨_, rfl⟩
  | case4 low high inside empty => omega

/-- Halving finds what a lookup finds, if the moves ascend. -/
theorem search_eq_lookup (ascending : moves.toList.Pairwise fun m m' => m.1 < m'.1) (r : Reference) :
    search moves r 0 moves.size (Nat.le_refl _) = moves.toList.lookup r := by
  cases found : search moves r 0 moves.size (Nat.le_refl _) with
  | some s =>
    have apart : (moves.toList.map Prod.fst).Nodup := by
      rw [List.Nodup, List.pairwise_map]
      refine ascending.imp fun {m m'} less same => ?_
      rw [same] at less
      exact Nat.lt_irrefl _ less
    exact (lookup_of_mem apart (Array.mem_def.1 (mem_of_search found))).symm
  | none =>
    refine (lookup_eq_none fun there => ?_).symm
    obtain ⟨m, hm, rfl⟩ := List.mem_map.1 there
    obtain ⟨k, hk, rfl⟩ := Array.mem_iff_getElem.1 (Array.mem_def.2 hm)
    obtain ⟨s, search_eq⟩ := exists_search ascending hk (Nat.zero_le k) hk
    cases found.symm.trans search_eq

end Relocation

end ClauseStore
