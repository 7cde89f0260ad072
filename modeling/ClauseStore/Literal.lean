/-!
Literals: an atom with a polarity. A literal is held as a signed 32-bit code whose sign is the
polarity, and is stored in the arena as the same 32 bits read as a word, so the word zero is never
the word of a literal with an atom.
-/

namespace ClauseStore

/-- A literal, by its signed code. -/
structure Literal where
  code : Int32
  deriving DecidableEq, Inhabited

namespace Literal

/-- The greatest atom whose literals both have a code. -/
def maxAtom : Nat := 2147483647

/-- The literal of an atom with a polarity. -/
def ofAtom (atom : UInt32) (positive : Bool) : Literal :=
  if positive then ⟨atom.toInt32⟩ else ⟨-atom.toInt32⟩

/-- The literal as an integer, negative for a negative polarity. -/
def toInt (l : Literal) : Int := l.code.toInt

/-- The atom of a literal; the least code has the atom `2 ^ 31`. -/
def atom (l : Literal) : Nat := l.toInt.natAbs

/-- Whether the atom occurs positively. -/
def positive (l : Literal) : Bool := decide (0 < l.toInt)

/-- The literal of the same atom and the other polarity; the least code has none. -/
def negate? (l : Literal) : Option Literal :=
  if l.code = Int32.minValue then none else some ⟨-l.code⟩

/-- A dense index: the two literals of an atom are neighbours, the negative one first. -/
def index (l : Literal) : Nat := 2 * l.atom + l.positive.toNat

/-- The arena word of a literal: its code, bit for bit. -/
def word (l : Literal) : UInt32 := l.code.toUInt32

/-- The literal stored in an arena word. -/
def ofWord (w : UInt32) : Literal := ⟨w.toInt32⟩

@[simp] theorem ofWord_word (l : Literal) : ofWord l.word = l := by
  simp [ofWord, word]

@[simp] theorem word_ofWord (w : UInt32) : (ofWord w).word = w := by
  simp [ofWord, word]

/-- The decimal text of a literal. -/
def text (l : Literal) : String := toString l.toInt

end Literal

end ClauseStore
