import ClauseStore.Binary64.Shortest
import ClauseStore.Binary64.Rounding

/-!
The two texts of a number: with the fewest digits that read back, and with a fixed count of places.
-/

namespace ClauseStore.Binary64

/-- The decimal digits of a count, as text. -/
def digitText (n : Nat) : List Char := Nat.toDigits 10 n

/-- A decimal in positions: a point is always there, with a digit on both sides. -/
def positional (d : Decimal) : List Char :=
  let digits := digitText d.digits
  let places := (-d.exponent).toNat
  if places = 0 then digits ++ List.replicate d.exponent.toNat '0' ++ ['.', '0']
  else if places < digits.length then
    digits.take (digits.length - places) ++ ['.'] ++ digits.drop (digits.length - places)
  else ['0', '.'] ++ List.replicate (places - digits.length) '0' ++ digits

/-- A decimal with the exponent of its leading digit. -/
def exponential (d : Decimal) : List Char :=
  let digits := digitText d.digits
  let lead : Int := d.exponent + digits.length - 1
  let rest := digits.drop 1
  digits.take 1 ++ (if rest.isEmpty then [] else '.' :: rest) ++ ['e'] ++ (toString lead).toList

/-- The text of a number with the fewest digits that read back: in positions where the leading
digit stands from `10 ^ -4` to `10 ^ 15`, otherwise with an exponent. -/
def text (x : Binary64) : String :=
  if x.isNaN then "NaN"
  else
    let sign := if x.negative then ['-'] else []
    let body :=
      if x.isInfinite then ['i', 'n', 'f']
      else if x.magnitude = 0 then ['0', '.', '0']
      else
        let d := x.shortest
        let lead : Int := d.exponent + (digitText d.digits).length - 1
        if -4 ≤ lead && lead < 16 then positional d else exponential d
    String.ofList (sign ++ body)

/-- The text of a number with exactly `places` places after the point, `places` at least one. The
exact value is rounded to nearest, a tie to the even neighbour. -/
def fixedText (places : Nat) (x : Binary64) : String :=
  if x.isNaN then "NaN"
  else
    let sign := if x.negative then ['-'] else []
    let body :=
      if x.isInfinite then ['i', 'n', 'f']
      else
        let (m, q) := x.significand
        let scale := power 10 places
        let units := roundQuotient (m * power 2 q * scale) (power 2 (-q))
        let tail := digitText (units % scale)
        digitText (units / scale) ++ ['.'] ++
          List.replicate (places - tail.length) '0' ++ tail
    String.ofList (sign ++ body)

/-- The text of a pair of numbers. -/
def pairText (a b : Binary64) : String := "[" ++ a.text ++ ", " ++ b.text ++ "]"

end ClauseStore.Binary64
