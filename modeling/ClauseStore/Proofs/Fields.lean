import ClauseStore.Arena
import Mathlib.Logic.Function.Basic

/-!
The fields of a record. A header packs glue, flags and grace into its first word and splits the last
use over two words. Every field can be read off the words by masks and shifts, and every setter is a
revision of the words in place. Main statement: a setter has its effect on its own fields, cut to what
they can hold, and leaves alone all other fields, the literals, and every other word of the arena.
-/

namespace ClauseStore

/-! ### The bits of the first word -/

/-- The place of the bit of a flag among those of all flags. -/
def Flag.bit : Flag → Nat
  | .garbage => 0
  | .keep => 1
  | .reason => 2
  | .redundant => 3
  | .shrunken => 4
  | .subsume => 5
  | .sweeped => 6
  | .vivify => 7

/-- The bit of a flag in the first word. -/
def Flag.mask (f : Flag) : UInt32 := 1 <<< UInt32.ofNat (22 + f.bit)

/-- The bits of the glue in the first word. -/
def glueMask : UInt32 := 4194303

/-- The bits of the grace in the first word. -/
def graceMask : UInt32 := (3 : UInt32) <<< (30 : UInt32)

theorem Flag.bit_inj {f g : Flag} : f.bit = g.bit ↔ f = g := by
  cases f <;> cases g <;> decide

theorem Flag.bit_lt (f : Flag) : f.bit < 8 := by
  cases f <;> decide

theorem Flag.exists_bit : ∀ i < 8, ∃ f ∈ Flag.all, f.bit = i := by decide

theorem Flag.toBitVec_mask (f : Flag) : f.mask.toBitVec = BitVec.twoPow 32 (22 + f.bit) := by
  cases f <;> rfl

theorem Flag.getLsbD_mask (f : Flag) (i : Nat) :
    f.mask.toBitVec.getLsbD i = decide (22 + f.bit = i) := by
  have := f.bit_lt
  rw [toBitVec_mask, BitVec.getLsbD_twoPow, decide_eq_true (by omega), Bool.true_and]

/-- A word and a mask have a bit in common if the word has the bit of the flag. -/
theorem Flag.and_mask_bne_zero (f : Flag) (w : UInt32) :
    (w &&& f.mask != 0) = w.toBitVec.getLsbD (22 + f.bit) := by
  have masked : (w &&& f.mask).toBitVec =
      if w.toBitVec.getLsbD (22 + f.bit) then BitVec.twoPow 32 (22 + f.bit) else 0 := by
    rw [UInt32.toBitVec_and, toBitVec_mask, BitVec.and_twoPow]
    rfl
  cases set : w.toBitVec.getLsbD (22 + f.bit) with
  | false =>
    rw [set] at masked
    exact bne_eq_false_iff_eq.2 (UInt32.toBitVec_inj.1 masked)
  | true =>
    rw [set, if_pos rfl, ← f.toBitVec_mask] at masked
    rw [UInt32.toBitVec_inj.1 masked]
    cases f <;> rfl

theorem getLsbD_glueMask : ∀ i < 32, glueMask.toBitVec.getLsbD i = decide (i < 22) := by decide

theorem getLsbD_graceMask : ∀ i < 32, graceMask.toBitVec.getLsbD i = decide (30 ≤ i) := by decide

namespace Flags

theorem get_ofBits (b : BitVec 8) (f : Flag) : (ofBits b).get f = b.getLsbD f.bit := by
  cases f <;> rfl

theorem getLsbD_toBits (fs : Flags) (f : Flag) : fs.toBits.getLsbD f.bit = fs.get f := by
  rw [← get_ofBits, ofBits_toBits]

theorem get_set (fs : Flags) (f g : Flag) (value : Bool) :
    (fs.set f value).get g = if g = f then value else fs.get g := by
  cases f <;> cases g <;> rfl

end Flags

namespace Header

/-- The bits of the first word, by place. -/
theorem getLsbD_packed (h : Header) (i : Nat) :
    h.packed.toBitVec.getLsbD i =
      if i < 22 then h.glue.getLsbD i
      else if i < 30 then h.flags.toBits.getLsbD (i - 22)
      else h.grace.getLsbD (i - 30) := by
  have within : ¬i < 22 → (i - 22 < 8 ↔ i < 30) := by omega
  rw [packed, BitVec.getLsbD_append, BitVec.getLsbD_append]
  split
  next => rfl
  next behind => simp only [within behind, Nat.sub_sub]

/-- What is put in the place of the bits of a mask. -/
theorem getLsbD_put {w m v : UInt32} {i : Nat} (hi : i < 32)
    (within : m.toBitVec.getLsbD i = false → v.toBitVec.getLsbD i = false) :
    ((w &&& ~~~m) ||| v).toBitVec.getLsbD i =
      if m.toBitVec.getLsbD i then v.toBitVec.getLsbD i else w.toBitVec.getLsbD i := by
  rw [UInt32.toBitVec_or, UInt32.toBitVec_and, UInt32.toBitVec_not, BitVec.getLsbD_or,
    BitVec.getLsbD_and, BitVec.getLsbD_not, decide_eq_true hi]
  cases masked : m.toBitVec.getLsbD i
  · simp [within masked]
  · simp

theorem packed_withGlue (n : UInt32) (h : Header) :
    (h.withGlue n).packed =
      (h.packed &&& ~~~glueMask) ||| UInt32.ofNat (min n.toNat maxGlue) := by
  have few : min n.toNat maxGlue < 4194304 := by rw [maxGlue]; omega
  apply UInt32.toBitVec_inj.1
  refine BitVec.eq_of_getLsbD_eq fun i hi => ?_
  have glue_bit : (UInt32.ofNat (min n.toNat maxGlue)).toBitVec.getLsbD i =
      (min n.toNat maxGlue).testBit i := by
    rw [UInt32.toBitVec_ofNat', BitVec.getLsbD_ofNat, decide_eq_true hi, Bool.true_and]
  rw [getLsbD_put hi, getLsbD_glueMask i hi, glue_bit, getLsbD_packed, getLsbD_packed]
  · by_cases low : i < 22
    · simp only [withGlue, BitVec.getLsbD_ofNat, low, decide_true, Bool.true_and, if_true]
    · simp only [withGlue, low, decide_false, Bool.false_eq_true, if_false]
  · intro beyond
    rw [getLsbD_glueMask i hi] at beyond
    have := Nat.pow_le_pow_right (show 0 < 2 by decide) (Nat.not_lt.1 (of_decide_eq_false beyond))
    rw [glue_bit]
    exact Nat.testBit_lt_two_pow (by omega)

theorem packed_withGrace (n : UInt8) (h : Header) :
    (h.withGrace n).packed =
      (h.packed &&& ~~~graceMask) ||| UInt32.ofNat (min n.toNat maxGrace) <<< 30 := by
  apply UInt32.toBitVec_inj.1
  refine BitVec.eq_of_getLsbD_eq fun i hi => ?_
  have grace_bit : (UInt32.ofNat (min n.toNat maxGrace) <<< 30).toBitVec.getLsbD i =
      (decide (30 ≤ i) && (min n.toNat maxGrace).testBit (i - 30)) := by
    have shifted : (UInt32.ofNat (min n.toNat maxGrace) <<< 30).toBitVec =
        BitVec.ofNat 32 (min n.toNat maxGrace) <<< 30 := rfl
    rw [shifted, BitVec.getLsbD_shiftLeft, BitVec.getLsbD_ofNat, decide_eq_true hi,
      decide_eq_true (show i - 30 < 32 by omega), Bool.true_and, Bool.true_and, ← decide_not]
    simp only [Nat.not_lt]
  rw [getLsbD_put hi, getLsbD_graceMask i hi, grace_bit, getLsbD_packed, getLsbD_packed]
  · by_cases high : 30 ≤ i
    · have within : i - 30 < 2 := by omega
      simp only [withGrace, BitVec.getLsbD_ofNat, within, high, decide_true, Bool.true_and, if_true]
      rw [if_neg (by omega), if_neg (by omega)]
    · simp only [withGrace, Nat.not_le.1 high, high, decide_false, Bool.false_eq_true, if_true, if_false]
  · intro before
    rw [getLsbD_graceMask i hi] at before
    rw [grace_bit, before, Bool.false_and]

theorem packed_withFlag (f : Flag) (value : Bool) (h : Header) :
    (h.withFlag f value).packed = if value then h.packed ||| f.mask else h.packed &&& ~~~f.mask := by
  have bit_lt := f.bit_lt
  apply UInt32.toBitVec_inj.1
  refine BitVec.eq_of_getLsbD_eq fun i hi => ?_
  have masked : (if value then h.packed ||| f.mask else h.packed &&& ~~~f.mask).toBitVec.getLsbD i =
      if 22 + f.bit = i then value else h.packed.toBitVec.getLsbD i := by
    cases value with
    | false =>
      rw [if_neg Bool.false_ne_true, UInt32.toBitVec_and, UInt32.toBitVec_not, BitVec.getLsbD_and,
        BitVec.getLsbD_not, f.getLsbD_mask, decide_eq_true hi]
      by_cases here : 22 + f.bit = i <;> simp [here]
    | true =>
      rw [if_pos rfl, UInt32.toBitVec_or, BitVec.getLsbD_or, f.getLsbD_mask]
      by_cases here : 22 + f.bit = i <;> simp [here]
  rw [masked, getLsbD_packed, getLsbD_packed]
  by_cases among : 22 ≤ i ∧ i < 30
  · -- a bit of the middle part is the bit of some flag, so the two flags can be compared
    obtain ⟨g, -, place⟩ := Flag.exists_bit (i - 22) (by omega)
    have same : 22 + f.bit = i ↔ g = f := by rw [← Flag.bit_inj]; omega
    simp only [among, Nat.not_lt.2 among.1, if_true, if_false, ← place, Flags.getLsbD_toBits,
      withFlag, Flags.get_set, same]
  · rw [if_neg (show 22 + f.bit ≠ i by omega)]
    split
    next => rfl
    next => rw [if_neg (by omega), if_neg (by omega)]; rfl

/-- Reading a row through a link is sign extension, and minus one is no row. -/
theorem row?_ofWords (w : Nat → UInt32) :
    (ofWords w).row? =
      if (w 2).toInt32 = -1 then none else some (w 2).toInt32.toInt64.toUInt64.toNat := by
  have none_iff : (w 2).toInt32 = -1 ↔ w 2 = noLink :=
    ⟨fun h => congrArg Int32.toUInt32 h, fun h => congrArg UInt32.toInt32 h⟩
  have extended : (w 2).toInt32.toInt64.toUInt64.toNat =
      if (w 2).toNat < 2147483648 then (w 2).toNat else (w 2).toNat + 18446744069414584320 := by
    have := (w 2).toNat_lt
    show ((w 2).toBitVec.signExtend 64).toNat = _
    rw [BitVec.toNat_signExtend, BitVec.msb_eq_decide, BitVec.toNat_setWidth, UInt32.toNat_toBitVec]
    simp only [decide_eq_true_eq]
    split <;> split <;> omega
  have link_eq : (ofWords w).link = w 2 := rfl
  simp only [row?, link_eq, none_iff, extended, apply_ite some]

end Header

/-! ### Reading -/

/-- What can be read off a header. -/
inductive Field where
  | glue
  | flag (f : Flag)
  | grace
  | identity
  | row
  | props
  | uips
  | touched
  | size
  deriving DecidableEq

/-- What a field holds. -/
abbrev Field.Value : Field → Type
  | .flag _ => Bool
  | .row => Option Nat
  | _ => Nat

/-- Reads a field of a header. -/
def Header.get (h : Header) : (f : Field) → f.Value
  | .glue => h.glue.toNat
  | .flag f => h.flags.get f
  | .grace => h.grace.toNat
  | .identity => h.identity.toNat
  | .row => h.row?
  | .props => h.props.toNat
  | .uips => h.uips.toNat
  | .touched => h.touched.toNat
  | .size => h.size.toNat

/-- Reads a field straight off the words of a record, by masks and shifts. -/
def Field.ofWords (w : Nat → UInt32) : (f : Field) → f.Value
  | .glue => (w 0 &&& glueMask).toNat
  | .flag f => w 0 &&& f.mask != 0
  | .grace => (w 0 >>> 30).toNat
  | .identity => (w 1).toNat
  | .row => if (w 2).toInt32 = -1 then none else some (w 2).toInt32.toInt64.toUInt64.toNat
  | .props => (w 3).toNat
  | .uips => (w 4).toNat
  | .touched => ((w 5).toUInt64 ||| (w 6).toUInt64 <<< 32).toNat
  | .size => (w 7).toNat

theorem Header.get_ofWords (w : Nat → UInt32) (f : Field) : (ofWords w).get f = f.ofWords w := by
  cases f with
  | glue =>
    show ((w 0).toBitVec.extractLsb' 0 22).toNat = (w 0 &&& glueMask).toNat
    rw [BitVec.extractLsb'_toNat, UInt32.toNat_toBitVec, UInt32.toNat_and]
    exact (Nat.and_two_pow_sub_one_eq_mod _ 22).symm
  | flag f =>
    show (Flags.ofBits ((w 0).toBitVec.extractLsb' 22 8)).get f = (w 0 &&& f.mask != 0)
    rw [Flags.get_ofBits, BitVec.getLsbD_extractLsb', decide_eq_true f.bit_lt, Bool.true_and,
      f.and_mask_bne_zero]
  | grace =>
    show ((w 0).toBitVec.extractLsb' 30 2).toNat = (w 0 >>> 30).toNat
    have := (w 0).toNat_lt
    have shift : (30 : UInt32).toNat % 32 = 30 := rfl
    rw [BitVec.extractLsb'_toNat, UInt32.toNat_toBitVec, UInt32.toNat_shiftRight, shift,
      Nat.shiftRight_eq_div_pow]
    omega
  | row => exact Header.row?_ofWords w
  | identity | props | uips | touched | size => rfl

/-! ### Setting -/

/-- The ways of revising a field of a header, with their arguments. -/
inductive Setter where
  | glue (n : UInt32)
  | flag (f : Flag) (value : Bool)
  | grace (n : UInt8)
  | identity (n : UInt32)
  | row (index : Option Nat)
  | props (n : UInt32)
  | uips (n : UInt32)
  | countProp
  | countUip
  | touched (n : UInt64)
  | size (n : UInt64)
  | resetUsage

namespace Setter

/-- Revises a header. -/
def apply : Setter → Header → Header
  | .glue n, h => h.withGlue n
  | .flag f value, h => h.withFlag f value
  | .grace n, h => h.withGrace n
  | .identity n, h => { h with identity := n }
  | .row index, h => h.withRow index
  | .props n, h => { h with props := n }
  | .uips n, h => { h with uips := n }
  | .countProp, h => h.countProp
  | .countUip, h => h.countUip
  | .touched n, h => { h with touched := n }
  | .size n, h => { h with size := n.toUInt32 }
  | .resetUsage, h => h.resetUsage

/-- An index fits into a link that is not negative, and a size into a word. -/
def Fits : Setter → Prop
  | .row (some index) => index < 2147483648
  | .size n => n.toNat < 4294967296
  | _ => True

/-- What a field holds behind a setter: the argument, cut to what the field can hold, or a count that
stops at the greatest word. Any other field holds what it held. -/
def effect : Setter → (f : Field) → f.Value → f.Value
  | .glue n, .glue, _ => min n.toNat maxGlue
  | .flag f value, .flag g, old => if g = f then value else old
  | .grace n, .grace, _ => min n.toNat maxGrace
  | .identity n, .identity, _ => n.toNat
  | .row index, .row, _ => index
  | .props n, .props, _ => n.toNat
  | .uips n, .uips, _ => n.toNat
  | .countProp, .props, old => min (old + 1) 4294967295
  | .countUip, .uips, old => min (old + 1) 4294967295
  | .touched n, .touched, _ => n.toNat
  | .size n, .size, _ => n.toNat
  | .resetUsage, .props, _ => 0
  | .resetUsage, .uips, _ => 0
  | _, _, old => old

/-- Revises the words of a record in place, by masks and shifts. -/
def onWords : Setter → (Nat → UInt32) → Nat → UInt32
  | .glue n, w =>
    Function.update w 0 ((w 0 &&& ~~~glueMask) ||| UInt32.ofNat (min n.toNat maxGlue))
  | .flag f value, w =>
    Function.update w 0 (if value then w 0 ||| f.mask else w 0 &&& ~~~f.mask)
  | .grace n, w =>
    Function.update w 0 ((w 0 &&& ~~~graceMask) ||| UInt32.ofNat (min n.toNat maxGrace) <<< 30)
  | .identity n, w => Function.update w 1 n
  | .row none, w => Function.update w 2 (-1 : Int32).toUInt32
  | .row (some index), w => Function.update w 2 (UInt32.ofNat index)
  | .props n, w => Function.update w 3 n
  | .uips n, w => Function.update w 4 n
  | .countProp, w => Function.update w 3 (Header.bump (w 3))
  | .countUip, w => Function.update w 4 (Header.bump (w 4))
  | .touched n, w => Function.update (Function.update w 5 n.toUInt32) 6 (n >>> 32).toUInt32
  | .size n, w => Function.update w 7 n.toUInt32
  | .resetUsage, w => Function.update (Function.update w 3 0) 4 0

end Setter

namespace Header

theorem toNat_glue_cut (n : UInt32) :
    (BitVec.ofNat 22 (min n.toNat maxGlue)).toNat = min n.toNat maxGlue := by
  rw [BitVec.toNat_ofNat]
  exact Nat.mod_eq_of_lt (Nat.lt_of_le_of_lt (Nat.min_le_right ..) (by decide))

theorem toNat_grace_cut (n : UInt8) :
    (BitVec.ofNat 2 (min n.toNat maxGrace)).toNat = min n.toNat maxGrace := by
  rw [BitVec.toNat_ofNat]
  exact Nat.mod_eq_of_lt (Nat.lt_of_le_of_lt (Nat.min_le_right ..) (by decide))

theorem toNat_bump (n : UInt32) : (bump n).toNat = min (n.toNat + 1) 4294967295 := by
  have := n.toNat_lt
  rw [bump]
  split
  next greatest => rw [greatest]; rfl
  next free =>
    have : n.toNat ≠ 4294967295 := fun same => free (UInt32.toNat_inj.1 same)
    rw [UInt32.toNat_add, show (1 : UInt32).toNat = 1 from rfl]
    omega

@[simp] theorem row?_withRow_none (h : Header) : (h.withRow none).row? = none := by
  have none_eq : (h.withRow none).link = noLink := rfl
  rw [row?, if_pos none_eq]

/-- An index that fits into a link is read back. -/
theorem row?_withRow {i : Nat} (narrow : i < 2147483648) (h : Header) :
    (h.withRow (some i)).row? = some i := by
  have link_eq : (h.withRow (some i)).link.toNat = i := by
    show (UInt32.ofNat i).toNat = i
    rw [UInt32.toNat_ofNat']
    omega
  have linked : (h.withRow (some i)).link ≠ noLink := by
    intro none
    have := congrArg UInt32.toNat none
    rw [link_eq] at this
    have : noLink.toNat = 4294967295 := rfl
    omega
  rw [row?, if_neg linked, if_pos (by omega), link_eq]

/-- A setter has its effect on its own fields and on no other. -/
theorem get_apply (h : Header) (s : Setter) (fits : s.Fits) (f : Field) :
    (s.apply h).get f = s.effect f (h.get f) := by
  cases s with
  | glue n =>
    cases f with
    | glue => exact toNat_glue_cut n
    | _ => rfl
  | flag f' value =>
    cases f with
    | flag f => exact Flags.get_set h.flags f' f value
    | _ => rfl
  | grace n =>
    cases f with
    | grace => exact toNat_grace_cut n
    | _ => rfl
  | row index =>
    cases f with
    | row =>
      cases index with
      | none => exact row?_withRow_none h
      | some i => exact row?_withRow fits h
    | _ => rfl
  | countProp =>
    cases f with
    | props => exact toNat_bump h.props
    | _ => rfl
  | countUip =>
    cases f with
    | uips => exact toNat_bump h.uips
    | _ => rfl
  | size n =>
    cases f with
    | size => exact (UInt64.toNat_toUInt32 n).trans (Nat.mod_eq_of_lt fits)
    | _ => rfl
  | identity n | props n | uips n | touched n | resetUsage => cases f <;> rfl

/-- The words of a header, place by place. -/
theorem words_eq_map {h : Header} {v : Nat → UInt32} (first : h.packed = v 0)
    (identity : h.identity = v 1) (link : h.link = v 2) (props : h.props = v 3) (uips : h.uips = v 4)
    (low : h.touched.toUInt32 = v 5) (high : (h.touched >>> 32).toUInt32 = v 6)
    (size : h.size = v 7) : h.words = (List.range wordCount).map v := by
  rw [words, first, identity, link, props, uips, low, high, size]
  rfl

/-- Revising a header is revising its words in place. -/
theorem words_apply (s : Setter) (w : Nat → UInt32) :
    (s.apply (ofWords w)).words = (List.range wordCount).map (s.onWords w) := by
  -- packing what was unpacked gives back the words that a setter leaves alone
  have first := packed_ofWords w
  have low := low_joined (w 5) (w 6)
  have high := high_joined (w 5) (w 6)
  cases s with
  | glue n =>
    have masked := packed_withGlue n (ofWords w)
    rw [first] at masked
    exact words_eq_map masked rfl rfl rfl rfl low high rfl
  | flag f value =>
    have masked := packed_withFlag f value (ofWords w)
    rw [first] at masked
    exact words_eq_map masked rfl rfl rfl rfl low high rfl
  | grace n =>
    have masked := packed_withGrace n (ofWords w)
    rw [first] at masked
    exact words_eq_map masked rfl rfl rfl rfl low high rfl
  | row index => cases index <;> exact words_eq_map first rfl rfl rfl rfl low high rfl
  | touched n => exact words_eq_map first rfl rfl rfl rfl rfl rfl rfl
  | identity n | props n | uips n | countProp | countUip | size n | resetUsage =>
    exact words_eq_map first rfl rfl rfl rfl low high rfl

end Header

/-- A setter revises no word behind the header. -/
theorem Setter.onWords_of_le (s : Setter) (w : Nat → UInt32) {i : Nat} (behind : Header.wordCount ≤ i) :
    s.onWords w i = w i := by
  rw [Header.wordCount] at behind
  cases s with
  | row index =>
    cases index <;> exact Function.update_of_ne (by omega) ..
  | touched n | resetUsage =>
    exact (Function.update_of_ne (by omega) ..).trans (Function.update_of_ne (by omega) ..)
  | _ => exact Function.update_of_ne (by omega) ..

namespace Arena

/-- What a setter does to an arena with a record at an offset: to the fields, as they are read from
the header and as they are read off the words, to each word of the record, and to all other words. -/
structure SetsAlone (s : Setter) (offset : Nat) (a b : Arena) : Prop where
  size_eq : b.size = a.size
  fields : ∀ f, (b.header offset).get f = s.effect f ((a.header offset).get f)
  read : ∀ f, f.ofWords (fun i => b.word (offset + i)) =
    s.effect f (f.ofWords fun i => a.word (offset + i))
  words : ∀ i, b.word (offset + i) = s.onWords (fun j => a.word (offset + j)) i
  frame : ∀ i, i < offset ∨ offset + Header.wordCount ≤ i → b.word i = a.word i

theorem word_revise_of_lt {a : Arena} {offset : Nat} (fits : offset + Header.wordCount ≤ a.size)
    (f : Header → Header) {i : Nat} (within : i < Header.wordCount) :
    (a.revise offset f).word (offset + i) = (f (a.header offset)).words.getD i 0 := by
  have length_eq : (f (a.header offset)).words.length = Header.wordCount := rfl
  rw [revise, setHeader, word_write, if_pos ⟨by omega, by omega, by omega⟩, Nat.add_sub_cancel_left]

theorem word_revise_of_outside (a : Arena) (offset : Nat) (f : Header → Header) {i : Nat}
    (outside : i < offset ∨ offset + Header.wordCount ≤ i) :
    (a.revise offset f).word i = a.word i := by
  have length_eq : (f (a.header offset)).words.length = Header.wordCount := rfl
  rw [revise, setHeader, word_write, if_neg (by omega)]

/-- A setter has its documented effect on its own fields, and revises no other field of the record
and no other word of the arena. -/
theorem revise_setsAlone (a : Arena) (offset : Nat) (fits : offset + Header.wordCount ≤ a.size)
    (s : Setter) (proper : s.Fits) : SetsAlone s offset a (a.revise offset s.apply) := by
  have fields : ∀ f, ((a.revise offset s.apply).header offset).get f =
      s.effect f ((a.header offset).get f) := by
    intro f
    rw [revise, header_setHeader _ _ _ fits, Header.get_apply _ _ proper]
  constructor
  case size_eq => exact size_write ..
  case fields => exact fields
  case read =>
    intro f
    rw [← Header.get_ofWords, ← Header.get_ofWords]
    exact fields f
  case words =>
    intro i
    rcases Nat.lt_or_ge i Header.wordCount with within | behind
    · rw [word_revise_of_lt fits _ within, header, Header.words_apply]
      simp [within]
    · rw [word_revise_of_outside a offset _ (.inr (by omega)), s.onWords_of_le _ behind]
  case frame =>
    intro i outside
    exact word_revise_of_outside a offset _ outside

/-- Twelve words with all bits set. -/
def filled : Arena := ⟨Array.replicate 12 4294967295⟩

theorem revise_setsAlone_filled :
    2 + Header.wordCount ≤ filled.size ∧ (Setter.row (some 4)).Fits ∧
      SetsAlone (.row (some 4)) 2 filled (filled.revise 2 (Setter.row (some 4)).apply) := by
  have fits : 2 + Header.wordCount ≤ filled.size := by decide
  have proper : (Setter.row (some 4)).Fits := show 4 < 2147483648 by decide
  exact ⟨fits, proper, revise_setsAlone filled 2 fits (.row (some 4)) proper⟩

end Arena

end ClauseStore
