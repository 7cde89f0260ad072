import ClauseStore.Binary64.Rounding

/-!
Reading a number from text. A number is an optional sign and either a name (`inf`, `infinity` or
`nan`, in letters of any case) or digits with at most one point among them and at least one digit,
then perhaps an exponent: `e` or `E`, an optional sign, and at least one digit. The value is the
number nearest to the decimal.
-/

namespace ClauseStore.Binary64

/-- Whether a character is one of the ten digits. -/
def isDigit (c : Char) : Bool := decide ('0' ≤ c) && decide (c ≤ '9')

/-- The digits at the front of a text, and the rest. -/
def digitsFront (cs : List Char) : List Char × List Char :=
  (cs.takeWhile isDigit, cs.dropWhile isDigit)

/-- The count that some digits write. -/
def countOf (digits : List Char) : Nat :=
  digits.foldl (fun n c => 10 * n + (c.toNat - '0'.toNat)) 0

/-- Takes a sign off the front of a text; true stands for a minus. -/
def signFront : List Char → Bool × List Char
  | '-' :: cs => (true, cs)
  | '+' :: cs => (false, cs)
  | cs => (false, cs)

/-- The exponent that a text consists of; no text at all is the exponent zero. -/
def exponent? : List Char → Option Int
  | [] => some 0
  | c :: cs =>
    if c = 'e' || c = 'E' then
      let (minus, rest) := signFront cs
      let (digits, junk) := digitsFront rest
      if digits.isEmpty || !junk.isEmpty then none
      else some (if minus then -(countOf digits : Int) else countOf digits)
    else none

/-- The digits before and after the point at the front of a text, and the rest. -/
def mantissaFront (cs : List Char) : List Char × List Char × List Char :=
  let (whole, rest) := digitsFront cs
  match rest with
  | '.' :: rest =>
    let (part, rest) := digitsFront rest
    (whole, part, rest)
  | _ => (whole, [], rest)

/-- The number with a sign that an unsigned decimal text writes. -/
def decimal? (negative : Bool) (cs : List Char) : Option Binary64 :=
  let (whole, part, rest) := mantissaFront cs
  if whole.isEmpty && part.isEmpty then none
  else (exponent? rest).map fun e =>
    ofDecimal negative (countOf (whole ++ part)) (e - part.length)

/-- The number with a sign that a name stands for. -/
def named? (negative : Bool) (cs : List Char) : Option Binary64 :=
  let name := String.ofList (cs.map Char.toLower)
  if name = "inf" || name = "infinity" then some (infinity negative)
  else if name = "nan" then some (nan negative)
  else none

/-- The number that a text writes. -/
def read? (cs : List Char) : Option Binary64 :=
  let (negative, body) := signFront cs
  match decimal? negative body with
  | some x => some x
  | none => named? negative body

end ClauseStore.Binary64
