import ClauseStore.Binary64

/-!
The shortest decimal of a number: among the decimals that read back to the number, the ones with the
fewest digits, and of these the nearest; of two equally near ones the greater. It is found by exact
arithmetic on the bits: the decimals of a grid `10 ^ t` that can read back are the two neighbours of
the number on the grid, so the coarsest grid with such a neighbour gives the digits.
-/

namespace ClauseStore

/-- The decimal `digits * 10 ^ exponent`. -/
structure Decimal where
  digits : Nat
  exponent : Int
  deriving DecidableEq

namespace Decimal

/-- Moves the zeros at the end of the digits into the exponent; `fuel` bounds their number. -/
def strip : Nat → Decimal → Decimal
  | 0, d => d
  | fuel + 1, d => if d.digits % 10 = 0 then strip fuel ⟨d.digits / 10, d.exponent + 1⟩ else d

end Decimal

namespace Binary64

/-- The decimal on the grid `10 ^ t` that reads back to `m * 2 ^ q`, if there is one: the nearer of
the two neighbours, and the greater of two equally near ones. `narrow` says that the gap below the
number is half the gap above. -/
def onGrid? (m : Nat) (q : Int) (narrow : Bool) (t : Int) : Option Decimal :=
  let grid := power 10 t * power 2 (2 - q)
  let unit := power 10 (-t) * power 2 (q - 2)
  let low := (4 * m - if narrow then 1 else 2) * unit
  let high := (4 * m + 2) * unit
  let inside (c : Nat) : Bool :=
    if m % 2 = 0 then decide (low ≤ c * grid) && decide (c * grid ≤ high)
    else decide (low < c * grid) && decide (c * grid < high)
  let c := 4 * m * unit / grid
  match inside c, inside (c + 1) with
  | true, true => some ⟨if 8 * m * unit < (2 * c + 1) * grid then c else c + 1, t⟩
  | true, false => some ⟨c, t⟩
  | false, true => some ⟨c + 1, t⟩
  | false, false => none

/-- A bound `k` with `m * 2 ^ q < 10 ^ k`, at most one above the least: a binary exponent counts
for `30103 / 100000` of a decimal one. -/
def decimalBound (m : Nat) (q : Int) : Int := ((m.log2 : Int) + q + 1) * 30103 / 100000 + 1

/-- The exact decimal of `m * 2 ^ q`. -/
def exactDecimal (m : Nat) (q : Int) : Decimal :=
  ⟨m * power 2 q * power 5 (-q), min q 0⟩

/-- The shortest decimal of a finite number other than zero, without its sign. -/
def shortest (x : Binary64) : Decimal :=
  let (m, q) := x.significand
  let narrow := m == leadingBit && decide (-1074 < q)
  let k := decimalBound m q
  let found := (List.range 20).findSome? fun (i : Nat) => onGrid? m q narrow (k - i)
  Decimal.strip 400 (found.getD (exactDecimal m q))

end Binary64

end ClauseStore
