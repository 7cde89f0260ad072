/-!
A stable sort by merging halves. What is sorted is a permutation of what was given, and two elements
that the order cannot tell apart keep the order in which they were given.
-/

namespace ClauseStore

variable {α : Type}

/-- Puts the list that starts with `x` and goes on as `rest` into a list: `x` stands before the first
element that it may precede. -/
def mergeFront (le : α → α → Bool) (x : α) (rest : List α → List α) : List α → List α
  | [] => x :: rest []
  | y :: ys => if le x y then x :: rest (y :: ys) else y :: mergeFront le x rest ys

/-- Merges two sorted lists; of equal elements those of the first list come first. -/
def merge (le : α → α → Bool) : List α → List α → List α
  | [], ys => ys
  | x :: xs, ys => mergeFront le x (merge le xs) ys

/-- Sorts a list whose length is at most `2 ^ depth`. -/
def sortWithin (le : α → α → Bool) : Nat → List α → List α
  | 0, xs => xs
  | depth + 1, xs =>
    let half := xs.length / 2
    if half = 0 then xs
    else merge le (sortWithin le depth (xs.take half)) (sortWithin le depth (xs.drop half))

/-- Sorts a list; equal elements keep their order. -/
def stableSort (le : α → α → Bool) (xs : List α) : List α := sortWithin le (xs.length.log2 + 1) xs

theorem mergeFront_perm (le : α → α → Bool) (x : α) (xs : List α) (rest : List α → List α)
    (h : ∀ ys, (rest ys).Perm (xs ++ ys)) (ys : List α) :
    (mergeFront le x rest ys).Perm (x :: xs ++ ys) := by
  induction ys with
  | nil => exact (h []).cons x
  | cons y ys ih =>
    unfold mergeFront
    split
    · exact (h (y :: ys)).cons x
    · have middle : (x :: xs ++ y :: ys).Perm (y :: (x :: xs ++ ys)) := List.perm_middle
      exact (ih.cons y).trans middle.symm

theorem merge_perm (le : α → α → Bool) (xs ys : List α) : (merge le xs ys).Perm (xs ++ ys) := by
  induction xs generalizing ys with
  | nil => exact .refl ys
  | cons x xs ih => exact mergeFront_perm le x xs (merge le xs) ih ys

theorem sortWithin_perm (le : α → α → Bool) (depth : Nat) (xs : List α) :
    (sortWithin le depth xs).Perm xs := by
  induction depth generalizing xs with
  | zero => exact .refl xs
  | succ depth ih =>
    simp only [sortWithin]
    split
    · exact .refl xs
    · refine (merge_perm ..).trans ?_
      exact ((ih _).append (ih _)).trans (List.take_append_drop .. ▸ .refl xs)

theorem stableSort_perm (le : α → α → Bool) (xs : List α) : (stableSort le xs).Perm xs :=
  sortWithin_perm ..

/-- Comes before in a stable sort: before in the order, or not after it and before in the list. -/
def Precedes (le : α → α → Bool) (R : α → α → Prop) (a b : α) : Prop :=
  le a b = true ∧ (le b a = false ∨ R a b)

/-- What a comparison must be to sort by: any two elements compare, and comparing is transitive. -/
structure Comparing (le : α → α → Bool) : Prop where
  total : ∀ a b, le a b = true ∨ le b a = true
  trans : ∀ {a b c}, le a b = true → le b c = true → le a c = true

namespace Comparing

variable {le : α → α → Bool} {R : α → α → Prop}

theorem precedes_of_not (hle : Comparing le) {a b c : α} (hba : le b a = false)
    (hbc : le b c = true) : Precedes le R a c := by
  have hab : le a b = true := (hle.total a b).resolve_right (by simp [hba])
  refine ⟨hle.trans hab hbc, .inl ?_⟩
  cases hca : le c a with
  | false => rfl
  | true => simp [hle.trans hbc hca] at hba

theorem pairwise_mergeFront (hle : Comparing le) (x : α) (xs : List α) (rest : List α → List α)
    (hperm : ∀ ys, (rest ys).Perm (xs ++ ys))
    (hrest : ∀ ys, ys.Pairwise (Precedes le R) → (∀ a ∈ xs, ∀ b ∈ ys, R a b) →
      (rest ys).Pairwise (Precedes le R))
    (hx : ∀ b ∈ xs, Precedes le R x b) (ys : List α) (hys : ys.Pairwise (Precedes le R))
    (hR : ∀ a ∈ x :: xs, ∀ b ∈ ys, R a b) :
    (mergeFront le x rest ys).Pairwise (Precedes le R) := by
  induction ys with
  | nil =>
    refine List.pairwise_cons.2 ⟨fun b hb => hx b ?_, hrest [] .nil (by simp)⟩
    simpa using (hperm []).mem_iff.1 hb
  | cons y ys ih =>
    obtain ⟨hy, hys'⟩ := List.pairwise_cons.1 hys
    unfold mergeFront
    split
    next hxy =>
      refine List.pairwise_cons.2 ⟨fun b hb => ?_, hrest _ hys fun a ha => hR a (by simp [ha])⟩
      rcases List.mem_append.1 ((hperm _).mem_iff.1 hb) with hb | hb
      · exact hx b hb
      · refine ⟨?_, .inr (hR x (by simp) b hb)⟩
        rcases List.mem_cons.1 hb with rfl | hb
        · exact hxy
        · exact hle.trans hxy (hy b hb).1
    next hxy =>
      have hxy : le x y = false := by simpa using hxy
      refine List.pairwise_cons.2
        ⟨fun b hb => ?_, ih hys' fun a ha b hb => hR a ha b (by simp [hb])⟩
      rcases List.mem_append.1 ((mergeFront_perm le x xs rest hperm ys).mem_iff.1 hb) with hb | hb
      · rcases List.mem_cons.1 hb with rfl | hb
        · exact ⟨(hle.total y b).resolve_right (by simp [hxy]), .inl hxy⟩
        · exact hle.precedes_of_not hxy (hx b hb).1
      · exact hy b hb

theorem pairwise_merge (hle : Comparing le) (xs ys : List α) (hxs : xs.Pairwise (Precedes le R))
    (hys : ys.Pairwise (Precedes le R)) (hR : ∀ a ∈ xs, ∀ b ∈ ys, R a b) :
    (merge le xs ys).Pairwise (Precedes le R) := by
  induction xs generalizing ys with
  | nil => exact hys
  | cons x xs ih =>
    obtain ⟨hx, hxs⟩ := List.pairwise_cons.1 hxs
    exact hle.pairwise_mergeFront x xs (merge le xs) (merge_perm le xs)
      (fun ys hys hR => ih ys hxs hys hR) hx ys hys hR

theorem pairwise_sortWithin (hle : Comparing le) (depth : Nat) (xs : List α)
    (hlen : xs.length ≤ Nat.pow 2 depth) (hxs : xs.Pairwise R) :
    (sortWithin le depth xs).Pairwise (Precedes le R) := by
  induction depth generalizing xs with
  | zero =>
    match xs, hlen with
    | [], _ => exact .nil
    | [x], _ => exact List.pairwise_singleton ..
  | succ depth ih =>
    replace hlen : xs.length ≤ Nat.pow 2 depth * 2 := hlen
    simp only [sortWithin]
    split
    next h =>
      match xs, h with
      | [], _ => exact .nil
      | [x], _ => exact List.pairwise_singleton ..
      | _ :: _ :: _, h => simp only [List.length_cons] at h; omega
    next h =>
      have hsplit := hxs
      rw [← List.take_append_drop (xs.length / 2) xs, List.pairwise_append] at hsplit
      refine hle.pairwise_merge _ _ (ih _ ?_ hsplit.1) (ih _ ?_ hsplit.2.1) fun a ha b hb => ?_
      · simp only [List.length_take]; omega
      · simp only [List.length_drop]; omega
      · exact hsplit.2.2 a ((sortWithin_perm ..).mem_iff.1 ha) b ((sortWithin_perm ..).mem_iff.1 hb)

/-- A stable sort puts each element before those that it precedes in the order, or that it equals in
the order and precedes in the list. -/
theorem pairwise_stableSort (hle : Comparing le) (xs : List α) (hxs : xs.Pairwise R) :
    (stableSort le xs).Pairwise (Precedes le R) :=
  hle.pairwise_sortWithin _ xs (Nat.le_of_lt Nat.lt_log2_self) hxs

end Comparing

end ClauseStore
