import Mathlib
import ClauseStore.Binary64

/-!
Counts as numbers of the 64-bit format. The machine's arithmetic is followed on its own readings of the
bits: a number that is no zero, infinity or NaN is a significand of 53 bits with an exponent, and
rounding cuts longer significands, which a carry may take up by one exponent. So a count below
`2 ^ 53` is held exactly, and exact counts are in the order of the numbers that hold them. A quotient
of counts is never rounded to zero, as its exponent stays far above the least one.
-/

namespace ClauseStore.Binary64

open Float.Model Float.Model.UnpackedFloat

/-! ### Normal numbers -/

/-- A significand of 53 bits and an exponent field of a number that is no zero, infinity or NaN. -/
structure Normal (m e : Nat) : Prop where
  lead : leadingBit ≤ m
  last : m < 2 * leadingBit
  least : 1 ≤ e
  most : e ≤ 2046

/-- The positive number with a significand and an exponent field. -/
def ofParts (m e : Nat) : Binary64 := ⟨UInt64.ofNat (e * leadingBit + (m - leadingBit))⟩

variable {m e : Nat}

/-- Bits behind each other add up. -/
theorem toNat_append_add {v w : Nat} (x : BitVec v) (y : BitVec w) :
    (x ++ y).toNat = x.toNat <<< w + y.toNat := by
  rw [BitVec.toNat_append, Nat.shiftLeft_add_eq_or_of_lt y.isLt]

namespace Normal

theorem pos (h : Normal m e) : 0 < m := Nat.lt_of_lt_of_le (by decide) h.lead

/-- The machine's reading of the number: `m * 2 ^ (e - 1075)`. -/
def reading (h : Normal m e) : UnpackedFloat := .finite .positive m (e - 1075) h.pos

theorem toNat_bits (h : Normal m e) :
    (ofParts m e).bits.toNat = e * leadingBit + (m - leadingBit) := by
  obtain ⟨lead, last, least, most⟩ := h
  simp only [leadingBit] at lead last
  simp only [ofParts, leadingBit, UInt64.toNat_ofNat']
  omega

theorem log2_eq (h : Normal m e) : m.log2 = 52 := by
  obtain ⟨lead, last, -, -⟩ := h
  simp only [leadingBit] at lead last
  exact (Nat.log2_eq_iff (by omega)).2 ⟨by omega, by omega⟩

/-- The bits are those of the sign, the exponent field and the significand without its first bit. -/
theorem packComponents_eq (h : Normal m e) :
    packComponents Format.binary64 .positive (BitVec.ofNat 11 e) (BitVec.ofNat 52 m) =
      (ofParts m e).bits.toBitVec := by
  apply BitVec.eq_of_toNat_eq
  refine Eq.trans ?_ h.toNat_bits.symm
  obtain ⟨lead, last, least, most⟩ := h
  simp only [leadingBit] at lead last ⊢
  simp only [packComponents, Sign.toBitVec, toNat_append_add, BitVec.toNat_ofNat, Nat.shiftLeft_eq]
  omega

theorem pack_reading (h : Normal m e) :
    UnpackedFloat.pack Format.binary64 h.reading = (ofParts m e).bits.toBitVec := by
  have most := h.most
  have field : ((e : Int) - 1075 + (Format.binary64.exponentBias : Nat) +
      (Format.binary64.mantissaBitsWithoutImplicit : Nat)).toNat = e := by
    simp only [Format.exponentBias]
    omega
  have finite : ¬ Nat.pow 2 Format.binary64.exponentBits ≤ e + 1 := by
    simp only [Nat.reducePow, Nat.pow_eq]
    omega
  have full : m.log2 + 1 = Format.binary64.mantissaBits := by rw [h.log2_eq]; rfl
  rw [← h.packComponents_eq]
  simp only [reading, UnpackedFloat.pack, field]
  exact (if_neg finite).trans (if_pos full)

theorem unpack_ofParts (h : Normal m e) :
    UnpackedFloat.unpack Format.binary64 (ofParts m e).bits.toBitVec = h.reading := by
  rw [← h.packComponents_eq]
  obtain ⟨lead, last, least, most⟩ := h
  have field : (BitVec.ofNat 11 e).toNat = e := by
    rw [BitVec.toNat_ofNat]
    exact Nat.mod_eq_of_lt (by omega)
  have finite : BitVec.ofNat 11 e ≠ -1#11 := by
    intro same
    have := field.symm.trans (congrArg BitVec.toNat same)
    simp at this
    omega
  have normal : BitVec.ofNat 11 e ≠ 0#11 := by
    intro same
    have := field.symm.trans (congrArg BitVec.toNat same)
    simp at this
    omega
  have significand : (1#1 ++ BitVec.ofNat 52 m).toNat = m := by
    simp only [leadingBit] at lead last
    simp only [toNat_append_add, BitVec.toNat_ofNat, Nat.shiftLeft_eq]
    omega
  simp only [UnpackedFloat.unpack, unpackMantissa_packComponents, unpackExponent_packComponents,
    unpackSign_packComponents, finite, normal, if_false, field, significand]
  rfl

/-- What the machine computes is held by its bits. -/
theorem ofResult_pack (h : Normal m e) :
    ofResult (.ofModel (Float.Model.pack h.reading)) = ofParts m e := by
  have bits_eq : (Float.Model.pack h.reading).toBits = (ofParts m e).bits := by
    simp only [Float.Model.pack, h.pack_reading]
  have number : (Float.ofModel (Float.Model.pack h.reading)).isNaN = false := by
    simp only [Float.isNaN, Float.Model.isNaN, Float.Model.unpack, bits_eq, h.unpack_ofParts]
    rfl
  rw [ofResult, number]
  exact congrArg Binary64.mk bits_eq

theorem unpack_toFloat (h : Normal m e) : (ofParts m e).toFloat.toModel.unpack = h.reading := by
  simp only [toFloat, Float.ofBits, Float.Model.ofBits, Float.Model.unpack, Float.Model.pack,
    h.unpack_ofParts, h.pack_reading]

theorem isNaN_ofParts (h : Normal m e) : (ofParts m e).isNaN = false := by
  have bits := h.toNat_bits
  obtain ⟨lead, last, least, most⟩ := h
  simp only [leadingBit] at bits lead last
  simp only [isNaN, magnitude, bits, signBit, infinityBits]
  exact decide_eq_false (by omega)

end Normal

/-! ### Rounding -/

/-- Shifting drops bits. -/
theorem mantissa_shiftRight (em : ExtendedMantissa) (k : Nat) :
    (em >>> k).mantissa = em.mantissa / Nat.pow 2 k := by
  induction k with
  | zero => exact (Nat.div_one _).symm
  | succ k ih =>
    show (em >>> k).mantissa / 2 = _
    rw [ih, Nat.div_div_eq_div_mul]
    rfl

/-- Rounding stays, or goes up by one. -/
theorem roundedMantissa_cases (em : ExtendedMantissa) :
    em.roundedMantissa = em.mantissa ∨ em.roundedMantissa = em.mantissa + 1 := by
  rcases em with ⟨m, _ | _, _ | _⟩
  · exact .inl rfl
  · exact .inl rfl
  · show m + m % 2 = m ∨ m + m % 2 = m + 1
    omega
  · exact .inr rfl

theorem targetExponent_eq (m : Nat) (e : Int) :
    Format.binary64.targetExponent (totalExponent m e) = max ((m.log2 : Int) + e - 52) (-1074) := by
  have low : Format.binary64.minExponent = -1074 := rfl
  have bits : (Format.binary64.mantissaBits : Int) = 53 := rfl
  simp only [Format.targetExponent, totalExponent, low, bits]
  omega

/-- A number that is as small as its format wants it is not shifted. -/
theorem shiftToTargetExponent_of_le {m : Nat} {e : Int}
    (h : max ((m.log2 : Int) + e - 52) (-1074) ≤ e) :
    shiftToTargetExponent Format.binary64 m e .exact = (⟨m, false, false⟩, e) := by
  have none : (Format.binary64.targetExponent (totalExponent m e) - e).toNat = 0 := by
    rw [targetExponent_eq]
    omega
  simp only [shiftToTargetExponent, shiftToExponent, none]
  exact congrArg (Prod.mk _) (Int.add_zero e)

/-- A significand that rounding has carried to 54 bits is shifted once. -/
theorem shiftToTargetExponent_carried {e : Int} (least : -1074 ≤ e) :
    shiftToTargetExponent Format.binary64 (2 * leadingBit) e .exact =
      (⟨leadingBit, false, false⟩, e + 1) := by
  have once :
      (Format.binary64.targetExponent (totalExponent (2 * leadingBit) e) - e).toNat = 1 := by
    have log2_eq : (2 * leadingBit).log2 = 53 := by decide
    rw [targetExponent_eq, log2_eq]
    omega
  simp only [shiftToTargetExponent, shiftToExponent, once]
  rfl

/-- A significand without the bits behind the first 53. -/
theorem div_pow_bounds {m k : Nat} (h : m.log2 = 52 + k) :
    leadingBit ≤ m / Nat.pow 2 k ∧ m / Nat.pow 2 k < 2 * leadingBit := by
  have nonzero : m ≠ 0 := by
    rintro rfl
    exact absurd h (by rw [Nat.log2_zero]; omega)
  have positive : 0 < Nat.pow 2 k := Nat.two_pow_pos k
  have lower := Nat.log2_self_le nonzero
  have upper := Nat.lt_log2_self (n := m)
  rw [h, Nat.pow_add] at lower
  rw [h, Nat.add_right_comm, Nat.pow_add] at upper
  exact ⟨(Nat.le_div_iff_mul_le positive).2 lower, (Nat.div_lt_iff_lt_mul positive).2 upper⟩

/-- Rounding by two shifts, the second one behind a carry. -/
theorem roundWithAccuracy_of_shifts {m m' e' : Nat} {e e₁ : Int} {a : Accuracy}
    {em : ExtendedMantissa} (h : Normal m' e')
    (first : shiftToTargetExponent Format.binary64 m e a = (em, e₁))
    (second : shiftToTargetExponent Format.binary64 em.roundedMantissa e₁ .exact =
      (⟨m', false, false⟩, (e' : Int) - 1075)) :
    roundWithAccuracy Format.binary64 .positive m e a = h.reading := by
  simp only [roundWithAccuracy, first, second]
  exact dif_neg (Nat.ne_of_gt h.pos)

/-- Significands of 53 bits are kept. -/
theorem roundWithAccuracy_exact (h : Normal m e) :
    roundWithAccuracy Format.binary64 .positive m (e - 1075) .exact = h.reading := by
  have kept : shiftToTargetExponent Format.binary64 m (e - 1075) .exact =
      (⟨m, false, false⟩, (e : Int) - 1075) := by
    have least := h.least
    exact shiftToTargetExponent_of_le (by rw [h.log2_eq]; omega)
  exact roundWithAccuracy_of_shifts h kept kept

/-- Longer significands are cut to 53 bits and rounded; a carry takes the exponent up by one. -/
theorem exists_roundWithAccuracy {m : Nat} {e : Int} (a : Accuracy) (long : 52 ≤ m.log2)
    (least : -1022 ≤ (m.log2 : Int) + e) (most : (m.log2 : Int) + e ≤ 1022) :
    ∃ m' e', ∃ h : Normal m' e',
      roundWithAccuracy Format.binary64 .positive m e a = h.reading ∧
        ((e' : Int) = m.log2 + e + 1023 ∨ (e' : Int) = m.log2 + e + 1024) := by
  obtain ⟨k, log2_eq⟩ := Nat.exists_eq_add_of_le long
  obtain ⟨lower, upper⟩ := div_pow_bounds log2_eq
  have shift : (Format.binary64.targetExponent (totalExponent m e) - e).toNat = k := by
    rw [targetExponent_eq]
    omega
  have cut : ((ExtendedMantissa.ofMantissaAndAccuracy m a) >>> k).mantissa = m / Nat.pow 2 k := by
    rw [mantissa_shiftRight]
    rcases a with _ | (_ | _ | _) <;> rfl
  have first : shiftToTargetExponent Format.binary64 m e a =
      (ExtendedMantissa.ofMantissaAndAccuracy m a >>> k, e + k) := by
    simp only [shiftToTargetExponent, shiftToExponent, shift]
  have rounded := roundedMantissa_cases (ExtendedMantissa.ofMantissaAndAccuracy m a >>> k)
  rw [cut] at rounded
  obtain ⟨e', field⟩ := Int.eq_ofNat_of_zero_le (a := e + k + 1075) (by omega)
  by_cases carried :
      (ExtendedMantissa.ofMantissaAndAccuracy m a >>> k).roundedMantissa = 2 * leadingBit
  · have normal : Normal leadingBit (e' + 1) := ⟨Nat.le_refl _, by decide, by omega, by omega⟩
    refine ⟨_, _, normal, roundWithAccuracy_of_shifts normal first ?_, .inr (by omega)⟩
    rw [carried, shiftToTargetExponent_carried (by omega)]
    exact congrArg (Prod.mk _) (by omega)
  · have normal : Normal (ExtendedMantissa.ofMantissaAndAccuracy m a >>> k).roundedMantissa e' :=
      ⟨by omega, by omega, by omega, by omega⟩
    refine ⟨_, _, normal, roundWithAccuracy_of_shifts normal first ?_, .inl (by omega)⟩
    rw [shiftToTargetExponent_of_le (by rw [normal.log2_eq]; omega)]
    exact congrArg (Prod.mk _) (by omega)

/-! ### Counts -/

theorem ofCount_eq (n : UInt64) : ofCount n =
    ofResult (.ofModel (Float.Model.pack (UnpackedFloat.ofNat Format.binary64 n.toNat))) := rfl

theorem ofCount_zero : ofCount 0 = zero := by decide

/-- A positive count is shifted to the exponent that its format wants, and rounded. -/
theorem ofNat_eq {n : Nat} (positive : 0 < n) : UnpackedFloat.ofNat Format.binary64 n =
    roundWithAccuracy Format.binary64 .positive (n <<< (52 - n.log2)) (-(52 - n.log2 : Nat))
      .exact := by
  have sign : compare (n : Int) 0 = .gt := Int.compare_eq_gt.2 (by omega)
  have shift : (-Format.binary64.targetExponent (totalExponent n 0)).toNat = 52 - n.log2 := by
    rw [targetExponent_eq]
    omega
  simp only [UnpackedFloat.ofNat, UnpackedFloat.ofInt, UnpackedFloat.normalize, sign,
    UnpackedFloat.round, UnpackedFloat.decreaseExponent, Int.toNat_natCast, Int.zero_sub, shift]

/-- A count below `2 ^ 53` is held exactly. -/
theorem ofCount_of_lt {n : UInt64} (positive : n ≠ 0) (small : n.toNat < 2 * leadingBit) :
    Normal (n.toNat <<< (52 - n.toNat.log2)) (n.toNat.log2 + 1023) ∧
      ofCount n = ofParts (n.toNat <<< (52 - n.toNat.log2)) (n.toNat.log2 + 1023) := by
  have nonzero : n.toNat ≠ 0 := fun zero => positive (UInt64.toNat_inj.1 zero)
  have short : n.toNat.log2 < 53 := (Nat.log2_lt nonzero).2 small
  have normal : Normal (n.toNat <<< (52 - n.toNat.log2)) (n.toNat.log2 + 1023) := by
    obtain ⟨k, rest⟩ := Nat.exists_eq_add_of_le (Nat.le_of_lt_succ short)
    have positive : 0 < Nat.pow 2 k := Nat.two_pow_pos k
    have whole : Nat.pow 2 n.toNat.log2 * Nat.pow 2 k = leadingBit := by
      have split := Nat.pow_add 2 n.toNat.log2 k
      rw [← rest] at split
      exact split.symm
    have lower := Nat.mul_le_mul_right (Nat.pow 2 k) (Nat.log2_self_le nonzero)
    have upper := Nat.mul_lt_mul_of_pos_right (Nat.lt_log2_self (n := n.toNat)) positive
    have shift : 52 - n.toNat.log2 = k := by omega
    rw [shift, Nat.shiftLeft_eq]
    refine ⟨whole ▸ lower, ?_, by omega, by omega⟩
    rw [← whole, ← Nat.mul_assoc, Nat.mul_comm 2]
    exact upper
  refine ⟨normal, ?_⟩
  have exponent : (-(52 - n.toNat.log2 : Nat) : Int) = (n.toNat.log2 + 1023 : Nat) - 1075 := by omega
  rw [ofCount_eq, ofNat_eq (Nat.pos_of_ne_zero nonzero), exponent, roundWithAccuracy_exact normal,
    normal.ofResult_pack]

/-- A positive count is held by a number with an exponent of at most 64 bits. -/
theorem exists_ofCount {n : UInt64} (positive : n ≠ 0) :
    ∃ m e, Normal m e ∧ 1023 ≤ e ∧ e ≤ 1087 ∧ ofCount n = ofParts m e := by
  have nonzero : n.toNat ≠ 0 := fun zero => positive (UInt64.toNat_inj.1 zero)
  by_cases small : n.toNat < 2 * leadingBit
  · have short : n.toNat.log2 < 53 := (Nat.log2_lt nonzero).2 small
    obtain ⟨normal, held⟩ := ofCount_of_lt positive small
    exact ⟨_, _, normal, by omega, by omega, held⟩
  · have long : 53 ≤ n.toNat.log2 := (Nat.le_log2 nonzero).2 (Nat.le_of_not_lt small)
    have bits : n.toNat.log2 < 64 := (Nat.log2_lt nonzero).2 n.toNat_lt
    have none : 52 - n.toNat.log2 = 0 := by omega
    obtain ⟨m, e, normal, rounded, field⟩ :=
      exists_roundWithAccuracy (e := 0) .exact (m := n.toNat) (by omega) (by omega) (by omega)
    refine ⟨m, e, normal, by omega, by omega, ?_⟩
    rw [ofCount_eq, ofNat_eq (Nat.pos_of_ne_zero nonzero), none]
    exact (congrArg _ (congrArg _ (congrArg _ rounded))).trans normal.ofResult_pack

/-! ### Quotients -/

theorem Normal.ne_zero (h : Normal m e) : ofParts m e ≠ zero := by
  intro same
  have bits := h.toNat_bits
  have least := h.least
  rw [same] at bits
  have : (zero.bits).toNat = 0 := rfl
  simp only [leadingBit] at bits
  omega

/-- Machine division, on the readings. -/
theorem ofParts_div {m' e' : Nat} (h : Normal m e) (h' : Normal m' e') :
    ofParts m e / ofParts m' e' = ofResult
      (.ofModel (Float.Model.pack (UnpackedFloat.div Format.binary64 h.reading h'.reading))) := by
  show combine (fun a b => a / b) _ _ = _
  rw [combine, if_neg (by simp [h.isNaN_ofParts]), if_neg (by simp [h'.isNaN_ofParts]),
    ← h.unpack_toFloat, ← h'.unpack_toFloat]
  rfl

/-- The quotient of two normal numbers whose exponents are not too far apart is a normal one. -/
theorem exists_div {m' e' : Nat} (h : Normal m e) (h' : Normal m' e') (near : e < e' + 960)
    (near' : e' < e + 960) :
    ∃ m₁ e₁, Normal m₁ e₁ ∧ ofParts m e / ofParts m' e' = ofParts m₁ e₁ := by
  have target : Format.binary64.targetExponent
      (totalExponent m (e - 1075) - totalExponent m' (e' - 1075)) = (e : Int) - e' - 53 := by
    have low : Format.binary64.minExponent = -1074 := rfl
    have bits : (Format.binary64.mantissaBits : Int) = 53 := rfl
    simp only [Format.targetExponent, totalExponent, h.log2_eq, h'.log2_eq, low, bits]
    omega
  have core : divCore Format.binary64 m (e - 1075) m' (e' - 1075) =
      ((m <<< 53) / m', (e : Int) - e' - 53, accuracyOfFraction ((m <<< 53) % m') m') := by
    have shift : ((e : Int) - 1075 - (e' - 1075) - (e - e' - 53)).toNat = 53 := by omega
    have least : min ((e : Int) - 1075 - (e' - 1075)) (e - e' - 53) = e - e' - 53 := by omega
    simp only [divCore, target, least, shift]
  have lower : leadingBit ≤ (m <<< 53) / m' := by
    rw [Nat.le_div_iff_mul_le h'.pos, Nat.shiftLeft_eq]
    exact Nat.mul_le_mul h.lead (Nat.le_of_lt h'.last)
  have upper : (m <<< 53) / m' < 4 * leadingBit := by
    rw [Nat.div_lt_iff_lt_mul h'.pos, Nat.shiftLeft_eq]
    have lead := h'.lead
    have last := h.last
    simp only [leadingBit] at lead last ⊢
    omega
  have nonzero : (m <<< 53) / m' ≠ 0 := Nat.ne_of_gt (Nat.lt_of_lt_of_le (by decide) lower)
  have long : 52 ≤ ((m <<< 53) / m').log2 := (Nat.le_log2 nonzero).2 lower
  have short : ((m <<< 53) / m').log2 < 54 := (Nat.log2_lt nonzero).2 upper
  obtain ⟨m₁, e₁, normal, rounded, -⟩ := exists_roundWithAccuracy
    (accuracyOfFraction ((m <<< 53) % m') m') (e := (e : Int) - e' - 53) long (by omega) (by omega)
  refine ⟨m₁, e₁, normal, ?_⟩
  rw [ofParts_div h h', ← normal.ofResult_pack, ← rounded]
  simp only [Normal.reading, UnpackedFloat.div, core]
  rfl

/-- Zero is read as zero. -/
theorem unpack_toFloat_zero : zero.toFloat.toModel.unpack = .zero .positive := by
  have held : zero.toFloat = .ofModel (Float.Model.pack (.zero .positive)) := by decide
  have bits : (Float.Model.pack (.zero .positive)).toBits = 0 := by decide
  rw [held, Float.Model.unpack, bits]
  rfl

theorem zero_div_ofParts (h : Normal m e) : zero / ofParts m e = zero := by
  show combine (fun a b => a / b) _ _ = _
  rw [combine, if_neg (by decide), if_neg (by simp [h.isNaN_ofParts])]
  have quotient : (zero.toFloat / (ofParts m e).toFloat) =
      .ofModel (Float.Model.pack (.zero .positive)) := by
    show Float.ofModel (Float.Model.pack (UnpackedFloat.div Format.binary64
      zero.toFloat.toModel.unpack (ofParts m e).toFloat.toModel.unpack)) = _
    rw [unpack_toFloat_zero, h.unpack_toFloat]
    rfl
  rw [quotient]
  decide

/-- A count divided by a positive one is zero for zero only. -/
theorem ofCount_div_eq_zero {p n : UInt64} (positive : n ≠ 0) :
    ofCount p / ofCount n = zero ↔ p = 0 := by
  obtain ⟨m', e', normal', least', most', held'⟩ := exists_ofCount positive
  rw [held']
  constructor
  · intro quotient
    refine Decidable.byContradiction fun nonzero => ?_
    obtain ⟨m, e, normal, least, most, held⟩ := exists_ofCount nonzero
    obtain ⟨m₁, e₁, normal₁, held₁⟩ := exists_div normal normal' (by omega) (by omega)
    exact normal₁.ne_zero (by rw [← held₁, ← held, quotient])
  · rintro rfl
    rw [ofCount_zero]
    exact zero_div_ofParts normal'

/-! ### Order -/

theorem Normal.rank_eq (h : Normal m e) :
    (ofParts m e).rank = ((e * leadingBit + (m - leadingBit) : Nat) : Int) := by
  have bits := h.toNat_bits
  obtain ⟨lead, last, least, most⟩ := h
  simp only [leadingBit] at bits lead last ⊢
  simp only [rank, negative, magnitude, signBit, bits]
  rw [if_neg (by simp; omega)]
  omega

/-- Counts below `2 ^ 53` are ordered as they are held. -/
theorem rank_ofCount_lt {a b : UInt64} (less : a.toNat < b.toNat)
    (small : b.toNat < 2 * leadingBit) : (ofCount a).rank < (ofCount b).rank := by
  have positive : b ≠ 0 := by
    rintro rfl
    exact absurd less (Nat.not_lt_zero _)
  obtain ⟨normal, held⟩ := ofCount_of_lt positive small
  rw [held, normal.rank_eq]
  by_cases zero : a = 0
  · have least : (ofCount a).rank = 0 := by rw [zero, ofCount_zero]; rfl
    rw [least]
    have := normal.least
    simp only [leadingBit]
    omega
  · obtain ⟨normal', held'⟩ := ofCount_of_lt zero (Nat.lt_trans less small)
    rw [held', normal'.rank_eq]
    have nonzero : a.toNat ≠ 0 := fun same => zero (UInt64.toNat_inj.1 same)
    have logs : a.toNat.log2 ≤ b.toNat.log2 := (Nat.le_log2 (by omega)).2
      (Nat.le_trans (Nat.log2_self_le nonzero) (Nat.le_of_lt less))
    have lead := normal.lead
    have last' := normal'.last
    rcases Nat.lt_or_eq_of_le logs with apart | same
    · simp only [leadingBit] at *
      omega
    · have lead' := normal'.lead
      rw [same] at lead' ⊢
      have shifted : a.toNat <<< (52 - b.toNat.log2) < b.toNat <<< (52 - b.toNat.log2) := by
        rw [Nat.shiftLeft_eq, Nat.shiftLeft_eq]
        exact Nat.mul_lt_mul_of_pos_right less (Nat.two_pow_pos _)
      omega

/-- Exact counts are in the order of the numbers that hold them. -/
theorem rank_ofCount_lt_iff {a b : UInt64} (ha : a.toNat < 2 * leadingBit)
    (hb : b.toNat < 2 * leadingBit) :
    (ofCount a).rank < (ofCount b).rank ↔ a.toNat < b.toNat := by
  refine ⟨fun less => ?_, fun less => rank_ofCount_lt less hb⟩
  rcases Nat.lt_trichotomy a.toNat b.toNat with below | same | above
  · exact below
  · rw [UInt64.toNat_inj.1 same] at less
    exact absurd less (Int.lt_irrefl _)
  · exact absurd less (Int.not_lt.2 (Int.le_of_lt (rank_ofCount_lt above ha)))

end ClauseStore.Binary64
