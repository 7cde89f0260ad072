/-!
Sums and products of machine counts. A machine that checks its arithmetic stops where a result does not
fit its words of 64 bits; one that does not goes on with the result modulo `2 ^ 64`.
-/

namespace ClauseStore

/-- What a machine does where a count does not fit its words. -/
inductive Arithmetic where
  /-- it stops -/
  | checked
  /-- it goes on modulo `2 ^ 64` -/
  | wrapping
  deriving DecidableEq

namespace Arithmetic

variable {m : Arithmetic} {x y : UInt64} {n : Nat}

/-- A number as a machine count, unless the machine stops. -/
def count? (m : Arithmetic) (n : Nat) : Option UInt64 :=
  if m = .checked ∧ UInt64.size ≤ n then none else some (UInt64.ofNat n)

/-- The sum of two counts. -/
def add? (m : Arithmetic) (x y : UInt64) : Option UInt64 := m.count? (x.toNat + y.toNat)

/-- The product of two counts. -/
def mul? (m : Arithmetic) (x y : UInt64) : Option UInt64 := m.count? (x.toNat * y.toNat)

theorem count?_of_lt (m : Arithmetic) (fits : n < UInt64.size) : m.count? n = some (UInt64.ofNat n) :=
  if_neg fun h => Nat.not_le.2 fits h.2

theorem count?_eq_none_iff : m.count? n = none ↔ m = .checked ∧ UInt64.size ≤ n := by
  rw [count?]
  split <;> simp_all

theorem isSome_count?_iff : (m.count? n).isSome = true ↔ (m = .checked → n < UInt64.size) := by
  rw [count?]
  split <;> simp_all

@[simp] theorem add?_wrapping (x y : UInt64) : wrapping.add? x y = some (x + y) := by
  rw [add?, count?, if_neg (by simp), UInt64.ofNat_add, UInt64.ofNat_toNat, UInt64.ofNat_toNat]

/-- Where a sum fits, every machine counts it. -/
theorem add?_of_lt (m : Arithmetic) (fits : x.toNat + y.toNat < UInt64.size) :
    m.add? x y = some (x + y) := by
  rw [add?, count?_of_lt m fits, UInt64.ofNat_add, UInt64.ofNat_toNat, UInt64.ofNat_toNat]

end Arithmetic

end ClauseStore
