/-!
References to long clauses. A reference is the offset in words of a record in the arena, and the
greatest word is the reference to no clause.
-/

namespace ClauseStore

/-- A reference to the record at an offset of the arena. -/
structure Reference where
  word : UInt32
  deriving DecidableEq

namespace Reference

/-- The reference to no clause. -/
def invalid : Reference := ⟨4294967295⟩

/-- The reference to the start of the arena. -/
def start : Reference := ⟨0⟩

instance : Inhabited Reference := ⟨invalid⟩

/-- The reference to an offset; an offset of more than 32 bits loses its high bits. -/
def ofOffset (n : Nat) : Reference := ⟨UInt32.ofNat n⟩

/-- The offset of a reference, in words. -/
def offset (r : Reference) : Nat := r.word.toNat

/-- Whether a reference is something other than `invalid`. -/
def isValid (r : Reference) : Bool := r != invalid

/-- References are ordered by offset, so `invalid` is the greatest. -/
instance : LE Reference := ⟨fun a b => a.offset ≤ b.offset⟩

instance : LT Reference := ⟨fun a b => a.offset < b.offset⟩

instance (a b : Reference) : Decidable (a ≤ b) := inferInstanceAs (Decidable (a.offset ≤ b.offset))

instance (a b : Reference) : Decidable (a < b) := inferInstanceAs (Decidable (a.offset < b.offset))

/-- The order of two references. -/
def order (a b : Reference) : Ordering := compare a.offset b.offset

/-- The text of a reference. -/
def text (r : Reference) : String :=
  if r.isValid then "@" ++ toString r.offset else "@INVALID"

end Reference

end ClauseStore
