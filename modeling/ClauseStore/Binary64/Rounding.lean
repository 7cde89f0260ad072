import ClauseStore.Binary64

/-!
Rounding of exact quotients: to the nearest integer, and to the nearest number of the 64-bit binary
format. A tie goes to the even neighbour.
-/

namespace ClauseStore

/-- The integer nearest to a quotient; a tie goes to the even one. -/
def roundQuotient (num den : Nat) : Nat :=
  let q := num / den
  let r := num % den
  if 2 * r < den then q
  else if den < 2 * r then q + 1
  else if q % 2 = 0 then q else q + 1

namespace Binary64

/-- The exponent `k` of the greatest power `2 ^ k` that is not above a positive quotient. -/
def quotientLog (num den : Nat) : Int :=
  let k : Int := (num.log2 : Int) - den.log2
  if num * power 2 (-k) < den * power 2 k then k - 1 else k

/-- The bits below the sign of the number nearest to a positive quotient. -/
def nearestMagnitude (num den : Nat) : Nat :=
  let q := max (quotientLog num den - 52) (-1074)
  let m := roundQuotient (num * power 2 (-q)) (den * power 2 q)
  min infinityBits ((q + 1074).toNat * leadingBit + m)

/-- The number nearest to `digits * 10 ^ exponent`, with a sign. Beyond the exponents of the format
the answer is zero or an infinity. -/
def ofDecimal (negative : Bool) (digits : Nat) (exponent : Int) : Binary64 :=
  let lead : Int := (Nat.toDigits 10 digits).length + exponent
  if digits = 0 || lead < -400 then ofMagnitude negative 0
  else if 400 < lead then infinity negative
  else ofMagnitude negative
    (nearestMagnitude (digits * power 10 exponent) (power 10 (-exponent)))

end Binary64

end ClauseStore
