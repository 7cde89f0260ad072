/-!
Numbers of the 64-bit binary format, held by their bits so that equality, the sign of a NaN and the
total order are exact. Arithmetic rounds each operation to nearest; a NaN operand is the result, the
left one first, and an invalid operation gives the negative quiet NaN.
-/

namespace ClauseStore

/-- A number of the 64-bit binary format. -/
structure Binary64 where
  bits : UInt64
  deriving DecidableEq

namespace Binary64

/-- The bit in front of the fraction of a number: `2 ^ 52`. -/
def leadingBit : Nat := 0x10000000000000

/-- The bits of positive infinity. -/
def infinityBits : Nat := 0x7FF0000000000000

/-- The bit of the sign. -/
def signBit : Nat := 0x8000000000000000

/-- The bits without the sign. -/
def magnitude (x : Binary64) : Nat := x.bits.toNat % signBit

/-- Whether the sign bit is set. -/
def negative (x : Binary64) : Bool := decide (signBit ≤ x.bits.toNat)

/-- Whether a number is a NaN. -/
def isNaN (x : Binary64) : Bool := decide (infinityBits < x.magnitude)

/-- Whether a number is an infinity. -/
def isInfinite (x : Binary64) : Bool := decide (x.magnitude = infinityBits)

/-- The number with a sign and bits below the sign. -/
def ofMagnitude (negative : Bool) (m : Nat) : Binary64 :=
  ⟨UInt64.ofNat (if negative then m + signBit else m)⟩

/-- Positive zero. -/
def zero : Binary64 := ⟨0⟩

instance : Inhabited Binary64 := ⟨zero⟩

/-- One. -/
def one : Binary64 := ⟨0x3FF0000000000000⟩

/-- The NaN with the sign `negative`. -/
def nan (negative : Bool) : Binary64 := ofMagnitude negative 0x7FF8000000000000

/-- The infinity with the sign `negative`. -/
def infinity (negative : Bool) : Binary64 := ofMagnitude negative infinityBits

/-- The result of an operation whose operands are numbers. -/
def ofResult (f : Float) : Binary64 := if f.isNaN then nan true else ⟨f.toBits⟩

/-- The machine number of the same bits. -/
def toFloat (x : Binary64) : Float := Float.ofBits x.bits

/-- An operation on two operands: a NaN operand is the result, the left one first. -/
def combine (op : Float → Float → Float) (a b : Binary64) : Binary64 :=
  if a.isNaN then a else if b.isNaN then b else ofResult (op a.toFloat b.toFloat)

instance : Add Binary64 := ⟨combine fun a b => a + b⟩

instance : Sub Binary64 := ⟨combine fun a b => a - b⟩

instance : Mul Binary64 := ⟨combine fun a b => a * b⟩

instance : Div Binary64 := ⟨combine fun a b => a / b⟩

/-- The square root. -/
def sqrt (x : Binary64) : Binary64 := if x.isNaN then x else ofResult x.toFloat.sqrt

/-- The number nearest to a count. -/
def ofCount (n : UInt64) : Binary64 := ofResult n.toFloat

/-- The greatest count not above a number, within the counts of 64 bits; a NaN gives zero. -/
def toCount (x : Binary64) : UInt64 := x.toFloat.toUInt64

/-- The place of a number in the total order: negative NaNs, then the numbers from negative to
positive infinity with negative zero before positive zero, then positive NaNs. -/
def rank (x : Binary64) : Int :=
  if x.negative then -(x.magnitude : Int) - 1 else x.magnitude

/-- The total order, as a test. -/
def atMost (a b : Binary64) : Bool := decide (a.rank ≤ b.rank)

/-- A power of a base; a negative exponent gives one. -/
def power (base : Nat) (exponent : Int) : Nat := base.pow exponent.toNat

/-- The fraction and the exponent field of a finite number, as `m * 2 ^ q`. -/
def significand (x : Binary64) : Nat × Int :=
  let e : Nat := x.magnitude / leadingBit
  let f : Nat := x.magnitude % leadingBit
  if e = 0 then (f, -1074) else (leadingBit + f, (e : Int) - 1075)

end Binary64

end ClauseStore
