import ClauseStore.Literal

/-!
The header of a record: eight words in front of the literals of a clause. The first word packs the
glue (22 bits), eight flags and the grace of a clause (2 bits); the last use is split over two words.
Packing and unpacking are inverse to each other, so a header may be revised field by field.
-/

namespace ClauseStore

/-- The marks that a clause can carry. -/
inductive Flag where
  /-- unreachable, to be reclaimed by the next compaction -/
  | garbage
  /-- protected from reduction by rank -/
  | keep
  /-- the reason for an assignment -/
  | reason
  /-- learned -/
  | redundant
  /-- the literals were shortened in place -/
  | shrunken
  /-- scratch mark of subsumption -/
  | subsume
  /-- scratch mark of sweeping -/
  | sweeped
  /-- scratch mark of vivification -/
  | vivify
  deriving DecidableEq

/-- The flags in the order of their bits. -/
def Flag.all : List Flag :=
  [.garbage, .keep, .reason, .redundant, .shrunken, .subsume, .sweeped, .vivify]

/-- The letter of a flag. -/
def Flag.letter : Flag → Char
  | .garbage => 'g'
  | .keep => 'k'
  | .reason => 'r'
  | .redundant => 'l'
  | .shrunken => 's'
  | .subsume => 'u'
  | .sweeped => 'w'
  | .vivify => 'v'

/-- Which flags are set. -/
structure Flags where
  garbage : Bool := false
  keep : Bool := false
  reason : Bool := false
  redundant : Bool := false
  shrunken : Bool := false
  subsume : Bool := false
  sweeped : Bool := false
  vivify : Bool := false
  deriving DecidableEq

namespace Flags

/-- Whether a flag is set. -/
def get (fs : Flags) : Flag → Bool
  | .garbage => fs.garbage
  | .keep => fs.keep
  | .reason => fs.reason
  | .redundant => fs.redundant
  | .shrunken => fs.shrunken
  | .subsume => fs.subsume
  | .sweeped => fs.sweeped
  | .vivify => fs.vivify

/-- Sets or clears a flag. -/
def set (fs : Flags) (f : Flag) (value : Bool) : Flags :=
  match f with
  | .garbage => { fs with garbage := value }
  | .keep => { fs with keep := value }
  | .reason => { fs with reason := value }
  | .redundant => { fs with redundant := value }
  | .shrunken => { fs with shrunken := value }
  | .subsume => { fs with subsume := value }
  | .sweeped => { fs with sweeped := value }
  | .vivify => { fs with vivify := value }

/-- The flags as eight bits, the garbage flag lowest. -/
def toBits (fs : Flags) : BitVec 8 :=
  BitVec.ofBool fs.vivify ++ BitVec.ofBool fs.sweeped ++ BitVec.ofBool fs.subsume ++
    BitVec.ofBool fs.shrunken ++ BitVec.ofBool fs.redundant ++ BitVec.ofBool fs.reason ++
    BitVec.ofBool fs.keep ++ BitVec.ofBool fs.garbage

/-- The flags of eight bits. -/
def ofBits (b : BitVec 8) : Flags where
  garbage := b.getLsbD 0
  keep := b.getLsbD 1
  reason := b.getLsbD 2
  redundant := b.getLsbD 3
  shrunken := b.getLsbD 4
  subsume := b.getLsbD 5
  sweeped := b.getLsbD 6
  vivify := b.getLsbD 7

theorem ofBits_toBits (fs : Flags) : ofBits fs.toBits = fs := by
  rcases fs with ⟨_ | _, _ | _, _ | _, _ | _, _ | _, _ | _, _ | _, _ | _⟩ <;> rfl

theorem toBits_ofBits (b : BitVec 8) : (ofBits b).toBits = b := by
  revert b
  decide

/-- The letters of the flags that are set, of some flags. -/
def letters (fs : Flags) (among : List Flag) : String :=
  String.ofList ((among.filter fs.get).map Flag.letter)

end Flags

/-- The greatest glue that a header holds; greater glue is cut to it. -/
def maxGlue : Nat := 4194303

/-- The greatest grace that a header holds; greater grace is cut to it. -/
def maxGrace : Nat := 3

/-- The link word of a record without a row. -/
def noLink : UInt32 := 4294967295

/-- What a record holds in front of its literals. -/
structure Header where
  glue : BitVec 22 := 0
  flags : Flags := {}
  /-- how many reductions the clause is still granted -/
  grace : BitVec 2 := 0
  identity : UInt32 := 0
  /-- the word that links the clause to its row of statistics -/
  link : UInt32 := 0
  /-- propagations since the last reduction -/
  props : UInt32 := 0
  /-- uses as a first reason since the last reduction -/
  uips : UInt32 := 0
  /-- the count of conflicts at the last use -/
  touched : UInt64 := 0
  size : UInt32 := 0
  deriving DecidableEq

namespace Header

/-- The count of words of a header. -/
def wordCount : Nat := 8

/-- The first word: glue lowest, then the flags, then the grace. -/
def packed (h : Header) : UInt32 :=
  ⟨h.grace ++ h.flags.toBits ++ h.glue⟩

/-- Two words as one of 64 bits. -/
def joined (low high : UInt32) : UInt64 := low.toUInt64 ||| (high.toUInt64 <<< 32)

/-- The words of a header. -/
def words (h : Header) : List UInt32 :=
  [h.packed, h.identity, h.link, h.props, h.uips, h.touched.toUInt32,
    (h.touched >>> 32).toUInt32, h.size]

/-- The header that eight words hold, the words given by their place. -/
def ofWords (w : Nat → UInt32) : Header where
  glue := (w 0).toBitVec.extractLsb' 0 22
  flags := Flags.ofBits ((w 0).toBitVec.extractLsb' 22 8)
  grace := (w 0).toBitVec.extractLsb' 30 2
  identity := w 1
  link := w 2
  props := w 3
  uips := w 4
  touched := joined (w 5) (w 6)
  size := w 7

theorem ofWords_congr {v w : Nat → UInt32} (h : ∀ i < wordCount, v i = w i) :
    ofWords v = ofWords w := by
  simp only [ofWords, h 0 (by decide), h 1 (by decide), h 2 (by decide), h 3 (by decide),
    h 4 (by decide), h 5 (by decide), h 6 (by decide), h 7 (by decide)]

theorem glue_packed (h : Header) : h.packed.toBitVec.extractLsb' 0 22 = h.glue :=
  (BitVec.extractLsb'_append_eq_of_add_le (by decide)).trans BitVec.extractLsb'_eq_self

theorem flags_packed (h : Header) : h.packed.toBitVec.extractLsb' 22 8 = h.flags.toBits :=
  (BitVec.extractLsb'_append_eq_of_le (by decide)).trans <|
    (BitVec.extractLsb'_append_eq_of_add_le (by decide)).trans BitVec.extractLsb'_eq_self

theorem grace_packed (h : Header) : h.packed.toBitVec.extractLsb' 30 2 = h.grace :=
  (BitVec.extractLsb'_append_eq_of_le (by decide)).trans <|
    (BitVec.extractLsb'_append_eq_of_le (by decide)).trans BitVec.extractLsb'_eq_self

/-- The three fields of the first word are all of it. -/
theorem append_extractLsb' (w : BitVec 32) :
    w.extractLsb' 30 2 ++ w.extractLsb' 22 8 ++ w.extractLsb' 0 22 = w := by
  have upper : w.extractLsb' 30 2 ++ w.extractLsb' 22 8 = w.extractLsb' 22 10 :=
    BitVec.extractLsb'_append_extractLsb'_eq_extractLsb' rfl
  rw [upper]
  exact (BitVec.extractLsb'_append_extractLsb'_eq_extractLsb' rfl).trans BitVec.extractLsb'_eq_self

theorem toNat_joined (low high : UInt32) :
    (joined low high).toNat = high.toNat * 4294967296 + low.toNat := by
  have hl := low.toNat_lt
  have hh := high.toNat_lt
  have : high.toNat <<< 32 < 2 ^ 64 := by rw [Nat.shiftLeft_eq]; omega
  rw [joined, UInt64.toNat_or, UInt64.toNat_shiftLeft, UInt32.toNat_toUInt64,
    UInt32.toNat_toUInt64, show (32 : UInt64).toNat % 64 = 32 from rfl, Nat.mod_eq_of_lt this,
    Nat.or_comm, ← Nat.shiftLeft_add_eq_or_of_lt hl, Nat.shiftLeft_eq]

theorem joined_halves (n : UInt64) : joined n.toUInt32 (n >>> 32).toUInt32 = n := by
  apply UInt64.toNat_inj.1
  have := n.toNat_lt
  rw [toNat_joined, UInt64.toNat_toUInt32, UInt64.toNat_toUInt32, UInt64.toNat_shiftRight,
    show (32 : UInt64).toNat % 64 = 32 from rfl, Nat.shiftRight_eq_div_pow]
  omega

theorem low_joined (low high : UInt32) : (joined low high).toUInt32 = low := by
  apply UInt32.toNat_inj.1
  have := low.toNat_lt
  rw [UInt64.toNat_toUInt32, toNat_joined]
  omega

theorem high_joined (low high : UInt32) : (joined low high >>> 32).toUInt32 = high := by
  apply UInt32.toNat_inj.1
  have := low.toNat_lt
  have := high.toNat_lt
  rw [UInt64.toNat_toUInt32, UInt64.toNat_shiftRight, toNat_joined,
    show (32 : UInt64).toNat % 64 = 32 from rfl, Nat.shiftRight_eq_div_pow]
  omega

theorem packed_ofWords (w : Nat → UInt32) : (ofWords w).packed = w 0 := by
  apply UInt32.toBitVec_inj.1
  simp only [packed, ofWords, Flags.toBits_ofBits]
  exact append_extractLsb' _

/-- A header is read back from its words. -/
theorem ofWords_words (h : Header) : ofWords (fun i => h.words.getD i 0) = h := by
  simp only [ofWords, words, List.getD_cons_zero, List.getD_cons_succ, glue_packed, flags_packed,
    grace_packed, Flags.ofBits_toBits, joined_halves]

/-- Any eight words are the words of a header. -/
theorem words_ofWords (w : Nat → UInt32) : (ofWords w).words = (List.range wordCount).map w := by
  rw [words, packed_ofWords]
  simp only [ofWords, low_joined, high_joined]
  rfl

/-- The row of statistics that a clause is linked to, if any. A link is a signed word: the one of
minus one is no link, and another negative one is the index of 64 bits with the same low bits. -/
def row? (h : Header) : Option Nat :=
  if h.link = noLink then none
  else if h.link.toNat < 2147483648 then some h.link.toNat
  else some (h.link.toNat + 18446744069414584320)

/-- Links a clause to a row, by the low 32 bits of its index, or to none. -/
def withRow (row : Option Nat) (h : Header) : Header :=
  { h with link := match row with
      | none => noLink
      | some index => UInt32.ofNat index }

/-- Sets the glue, at most `maxGlue`. -/
def withGlue (glue : UInt32) (h : Header) : Header :=
  { h with glue := BitVec.ofNat 22 (min glue.toNat maxGlue) }

/-- Sets the grace, at most `maxGrace`. -/
def withGrace (grace : UInt8) (h : Header) : Header :=
  { h with grace := BitVec.ofNat 2 (min grace.toNat maxGrace) }

/-- Sets or clears a flag. -/
def withFlag (f : Flag) (value : Bool) (h : Header) : Header :=
  { h with flags := h.flags.set f value }

/-- Takes one from the grace of a clause, if it has any. -/
def spent (h : Header) : Header :=
  if h.grace = 0 then h else { h with grace := h.grace - 1 }

/-- One more than a word, up to the greatest word. -/
def bump (n : UInt32) : UInt32 := if n = 4294967295 then n else n + 1

/-- Counts a propagation. -/
def countProp (h : Header) : Header := { h with props := bump h.props }

/-- Counts a use as a first reason. -/
def countUip (h : Header) : Header := { h with uips := bump h.uips }

/-- Clears the counters of the period between two reductions. -/
def resetUsage (h : Header) : Header := { h with props := 0, uips := 0 }

end Header

end ClauseStore
