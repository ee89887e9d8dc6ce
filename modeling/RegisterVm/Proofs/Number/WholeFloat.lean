import Mathlib
import RegisterVm.Number.Binary64

/-!
# Floats that are integers

`Binary64.scaled?` reads the value of a float off its bits (`scaled?_eq`). A float whose value is a
word is the one that the word is made into (`ofWord_beq`): rounding an integer that is a float
changes nothing (`round_exact`).
-/

namespace RegisterVm.Binary64

open Float.Model UnpackedFloat

/-! ## Values -/

namespace Scaled

/-- The significand with its sign. -/
def signed (s : Scaled) : Int := if s.negative then -s.significand else s.significand

/-- The value, a rational number. -/
def value (s : Scaled) : ℚ := s.signed * 2 ^ s.exponent

/-- The value is an integer when the number is whole, and it is the floor then. -/
theorem value_eq_iff (s : Scaled) (n : Int) :
    s.value = n ↔ s.isWhole = true ∧ s.floor = n := by
  unfold value isWhole floor
  change _ ↔ _ ∧ (if 0 ≤ s.exponent then s.signed * Int.pow 2 s.exponent.toNat
    else s.signed.fdiv (Int.pow 2 (-s.exponent).toNat)) = n
  by_cases natural : 0 ≤ s.exponent
  · obtain ⟨k, hk⟩ := Int.eq_ofNat_of_zero_le natural
    rw [hk]
    simp only [Int.natCast_nonneg, decide_true, Bool.true_or, true_and, if_true, Int.toNat_natCast,
      zpow_natCast]
    norm_cast
  · obtain ⟨k, hk⟩ := Int.eq_ofNat_of_zero_le (show 0 ≤ -s.exponent by omega)
    have exponent : s.exponent = -k := by omega
    rw [exponent]
    have negative : ¬0 ≤ -(k : Int) := by omega
    have power : (0 : Int) < 2 ^ k := by positivity
    have whole : s.significand % 2 ^ k = 0 ↔ (2 ^ k : Int) ∣ s.signed := by
      rw [← Nat.dvd_iff_mod_eq_zero, ← Int.natCast_dvd_natCast]
      unfold signed
      split <;> simp
    simp only [negative, decide_false, Bool.false_or, if_false, decide_eq_true_eq, Int.neg_neg,
      Int.toNat_natCast, zpow_neg, zpow_natCast]
    change _ ↔ s.significand % 2 ^ k = 0 ∧ s.signed.fdiv (2 ^ k) = n
    rw [whole, ← div_eq_mul_inv, div_eq_iff (by positivity)]
    constructor
    · intro product
      have product : s.signed = n * 2 ^ k := by exact_mod_cast product
      exact ⟨⟨n, by rw [product, mul_comm]⟩, by rw [product, Int.mul_fdiv_cancel _ power.ne']⟩
    · rintro ⟨divides, rfl⟩
      exact_mod_cast (Int.fdiv_mul_cancel divides).symm

end Scaled

/-- The value of a float is an integer. -/
def IsInteger (x : Float) (n : Int) : Prop := ∃ s, scaled? x = some s ∧ s.value = n

/-! ## Bits -/

/-- The value of an unpacked float. -/
def ofUnpacked : UnpackedFloat → Option Scaled
  | .finite s m e _ => some ⟨s == .negative, m, e⟩
  | .zero s => some ⟨s == .negative, 0, -1074⟩
  | .infinity _ | .notANumber => none

section Fields

variable (b : BitVec Format.binary64.numBits)

theorem toNat_unpackMantissa : (unpackMantissa b).toNat = b.toNat % 2 ^ 52 := by
  rw [unpackMantissa_def]
  simp

theorem toNat_normalMantissa :
    (1#1 ++ unpackMantissa b).toNat = b.toNat % 2 ^ 52 + hiddenBit := by
  have bound : b.toNat % 2 ^ 52 < 2 ^ 52 := Nat.mod_lt _ (by decide)
  rw [BitVec.toNat_append, toNat_unpackMantissa, ← Nat.shiftLeft_add_eq_or_of_lt bound]
  simp [Nat.shiftLeft_eq, hiddenBit]
  omega

theorem toNat_unpackExponent : (unpackExponent b).toNat = b.toNat / 2 ^ 52 % 2 ^ 11 := by
  rw [unpackExponent_def]
  simp [Nat.shiftRight_eq_div_pow]

theorem unpackSign_eq_zero_iff : unpackSign b = 0#1 ↔ b.toNat < 2 ^ 63 := by
  have bound : b.toNat < 2 ^ 64 := b.isLt
  have bit : (unpackSign b).toNat = b.toNat / 2 ^ 63 % 2 := by
    rw [unpackSign_def]
    simp [Nat.shiftRight_eq_div_pow]
  rw [← BitVec.toNat_inj, bit]
  simp only [BitVec.toNat_ofNat]
  omega

end Fields

theorem toNat_magnitude (b : UInt64) : (b &&& magnitudeMask).toNat = b.toNat % 2 ^ 63 := by
  rw [UInt64.toNat_and]
  exact Nat.and_two_pow_sub_one_eq_mod b.toNat 63

theorem sign_ne_zero_iff (b : UInt64) : (b &&& signMask != 0) = true ↔ ¬b.toNat < 2 ^ 63 := by
  have bound := b.toNat_lt
  have bit : (b &&& signMask).toNat = b.toNat / 2 ^ 63 % 2 * 2 ^ 63 := by
    rw [UInt64.toNat_and, show signMask.toNat = 2 ^ 63 from rfl, Nat.and_two_pow, Nat.toNat_testBit]
  rw [bne_iff_ne, ne_eq, ← UInt64.toNat_inj, bit]
  simp only [UInt64.toNat_zero]
  omega

/-- **The value read off the bits is that of the unpacked float.** -/
theorem scaled?_eq (x : Float) : scaled? x = ofUnpacked x.toModel.unpack := by
  let b : BitVec Format.binary64.numBits := x.toBits.toBitVec
  have size : x.toBits.toNat = b.toNat := rfl
  have field : b.toNat % 2 ^ 63 / hiddenBit = b.toNat / 2 ^ 52 % 2 ^ 11 := by
    unfold hiddenBit
    omega
  have fraction : b.toNat % 2 ^ 63 % hiddenBit = b.toNat % 2 ^ 52 := by
    unfold hiddenBit
    omega
  have negative : isNegative x = (Sign.ofBitVec (unpackSign b) == .negative) := by
    rw [Bool.eq_iff_iff, isNegative, sign_ne_zero_iff, size, Sign.ofBitVec,
      ← unpackSign_eq_zero_iff b]
    split <;> rename_i positive <;> simp [positive]
  have exponent : ∀ k < 2 ^ 11, unpackExponent b = BitVec.ofNat _ k ↔
      b.toNat / 2 ^ 52 % 2 ^ 11 = k := by
    intro k hk
    rw [← BitVec.toNat_inj, toNat_unpackExponent, BitVec.toNat_ofNat, Nat.mod_eq_of_lt hk]
  have mantissa : unpackMantissa b = 0#_ ↔ b.toNat % 2 ^ 52 = 0 := by
    rw [← BitVec.toNat_inj, toNat_unpackMantissa, BitVec.toNat_ofNat, Nat.zero_mod]
  have special : unpackExponent b = -1#11 ↔ b.toNat / 2 ^ 52 % 2 ^ 11 = 2047 :=
    exponent 2047 (by decide)
  have small := exponent 0 (by decide)
  have joined : (1#1 ++ unpackMantissa b).toNat = b.toNat % 2 ^ 52 + hiddenBit :=
    toNat_normalMantissa b
  simp only [scaled?, toNat_magnitude, size, field, fraction, negative]
  change _ = ofUnpacked (UnpackedFloat.unpack Format.binary64 b)
  unfold UnpackedFloat.unpack
  simp only [special, small, mantissa]
  by_cases last : b.toNat / 2 ^ 52 % 2 ^ 11 = 2047
  · rw [if_pos last, if_pos last]
    split <;> rfl
  · rw [if_neg last, if_neg last]
    by_cases first : b.toNat / 2 ^ 52 % 2 ^ 11 = 0
    · rw [if_pos first, if_pos first]
      split
      · rename_i zero
        rw [zero]
        rfl
      · simp only [ofUnpacked, toNat_unpackMantissa, toNat_unpackExponent, first]
        rfl
    · rw [if_neg first, if_neg first]
      simp only [ofUnpacked, joined, toNat_unpackExponent]
      rfl

/-! ## Rounding -/

/-- A mantissa and an exponent as a float has them. -/
def Canonical (m : Nat) (e : Int) : Prop :=
  0 < m ∧ Format.binary64.targetExponent (totalExponent m e) = e

/-- The floats that come from bits are canonical. -/
theorem canonical_unpack {b : BitVec Format.binary64.numBits} {s : Sign} {m : Nat} {e : Int}
    {pos : 0 < m} (h : UnpackedFloat.unpack Format.binary64 b = .finite s m e pos) :
    Canonical m e := by
  have fraction := toNat_unpackMantissa b
  have field := toNat_unpackExponent b
  have bound : b.toNat % 2 ^ 52 < 2 ^ 52 := Nat.mod_lt _ (by decide)
  refine ⟨pos, ?_⟩
  have target : Format.binary64.targetExponent (totalExponent m e) =
      max ((m.log2 : Int) + 1 + e - 53) (-1074) := rfl
  rw [target]
  unfold UnpackedFloat.unpack at h
  simp only at h
  split at h
  · split at h <;> cases h
  · split at h
    · rename_i subnormal
      split at h
      · cases h
      · injection h with _ mantissa exponent
        have short : m.log2 < 52 := (Nat.log2_lt pos.ne').mpr (by omega)
        have zero : (unpackExponent b).toNat = 0 := by rw [subnormal]; rfl
        have bias : (Format.binary64.exponentBias : Int) = 1023 := rfl
        rw [zero, bias] at exponent
        omega
    · rename_i normal
      injection h with _ mantissa exponent
      rw [toNat_normalMantissa, hiddenBit] at mantissa
      have length : m.log2 = 52 := (Nat.log2_eq_iff pos.ne').mpr (by omega)
      have nonzero : (unpackExponent b).toNat ≠ 0 := fun zero =>
        normal (BitVec.eq_of_toNat_eq zero)
      have bias : (Format.binary64.exponentBias : Int) = 1023 := rfl
      rw [bias] at exponent
      omega

/-- Shifting out zeros is exact. -/
theorem shiftRight_exact (m k : Nat) :
    (ExtendedMantissa.mk (m * 2 ^ k) false false) >>> k = ⟨m, false, false⟩ := by
  change Nat.repeat ExtendedMantissa.shiftRightOne k ⟨m * 2 ^ k, false, false⟩ = _
  induction k generalizing m with
  | zero => simp [Nat.repeat]
  | succ k ih =>
    have product : m * 2 ^ (k + 1) = (m * 2) * 2 ^ k := by ring
    rw [Nat.repeat, product, ih]
    simp [ExtendedMantissa.shiftRightOne]

theorem log2_mul_two_pow {m : Nat} (h : m ≠ 0) (k : Nat) : (m * 2 ^ k).log2 = m.log2 + k := by
  induction k with
  | zero => simp
  | succ k ih =>
    have product : m * 2 ^ (k + 1) = 2 * (m * 2 ^ k) := by ring
    rw [product, Nat.log2_two_mul (by positivity), ih]
    rfl

/-- Shifting a canonical mantissa to its exponent. -/
theorem shiftToTargetExponent_exact {m : Nat} {e : Int} (h : Canonical m e) (k : Nat) :
    shiftToTargetExponent Format.binary64 (m * 2 ^ k) (e - k) .exact = (⟨m, false, false⟩, e) := by
  have total : totalExponent (m * 2 ^ k) (e - k) = totalExponent m e := by
    rw [totalExponent, totalExponent, log2_mul_two_pow h.1.ne']
    push_cast
    ring
  have distance : (e - (e - k)).toNat = k := by omega
  simp only [shiftToTargetExponent, shiftToExponent, total, h.2, distance,
    ExtendedMantissa.ofMantissaAndAccuracy, shiftRight_exact, Int.sub_add_cancel]

/-- Rounding a float changes nothing, when zeros are added to its mantissa. -/
theorem roundWithAccuracy_exact {m : Nat} {e : Int} (h : Canonical m e) (k : Nat) (s : Sign) :
    roundWithAccuracy Format.binary64 s (m * 2 ^ k) (e - k) .exact = .finite s m e h.1 := by
  have shifted := shiftToTargetExponent_exact h k
  have settled := shiftToTargetExponent_exact h 0
  simp only [Nat.pow_zero, Nat.mul_one, Int.natCast_zero, Int.sub_zero] at settled
  have rounded : (ExtendedMantissa.mk m false false).roundedMantissa = m := rfl
  simp only [roundWithAccuracy, shifted, rounded, settled, dif_neg h.1.ne']

/-- **Rounding an integer that is a float is exact.** -/
theorem round_exact {m n : Nat} {e : Int} (h : Canonical m e)
    (whole : n * 2 ^ (-e).toNat = m * 2 ^ e.toNat) (s : Sign) :
    UnpackedFloat.round Format.binary64 s n 0 = .finite s m e h.1 := by
  have nonzero : n ≠ 0 := by
    rintro rfl
    have : 0 < m * 2 ^ e.toNat := Nat.mul_pos h.1 (by positivity)
    omega
  have total : totalExponent n 0 = totalExponent m e := by
    have length := congrArg Nat.log2 whole
    rw [log2_mul_two_pow nonzero, log2_mul_two_pow h.1.ne'] at length
    simp only [totalExponent]
    omega
  have lowered : decreaseExponent n 0 e = (m * 2 ^ e.toNat, e - e.toNat) := by
    rw [decreaseExponent, ← whole, Nat.shiftLeft_eq]
    refine Prod.ext ?_ ?_
    · simp only [Int.zero_sub]
    · simp only
      omega
  simp only [UnpackedFloat.round, total, h.2, lowered, roundWithAccuracy_exact h]

/-! ## Words -/

theorem unpack_pack_unpack (b : BitVec Format.binary64.numBits) :
    UnpackedFloat.unpack Format.binary64
        (UnpackedFloat.pack Format.binary64 (UnpackedFloat.unpack Format.binary64 b)) =
      UnpackedFloat.unpack Format.binary64 b := by
  rw [pack_unpack]
  split
  · rename_i nan
    obtain ⟨exponent, mantissa⟩ := of_decide_eq_true nan
    rw [unpack_packedNaN, UnpackedFloat.unpack]
    simp only [exponent, mantissa, if_true, if_false]
  · rfl

/-- Changing the sign of a float changes that of the unpacked one. -/
theorem unpack_neg (x : Float) : (-x).toModel.unpack = x.toModel.unpack.neg := by
  let b : BitVec Format.binary64.numBits := x.toModel.toBits.toBitVec
  let flipped := packComponents Format.binary64 (-Sign.ofBitVec (unpackSign b))
    (unpackExponent b) (unpackMantissa b)
  have other : UnpackedFloat.unpack Format.binary64 flipped =
      (UnpackedFloat.unpack Format.binary64 b).neg := by
    simp only [UnpackedFloat.unpack, flipped, unpackSign_packComponents,
      unpackExponent_packComponents, unpackMantissa_packComponents, Sign.ofBitVec_toBitVec]
    split
    · split <;> rfl
    · split
      · split <;> rfl
      · rfl
  change UnpackedFloat.unpack Format.binary64
    (UnpackedFloat.pack Format.binary64 (UnpackedFloat.unpack Format.binary64 b).neg) = _
  rw [← other, unpack_pack_unpack, other]
  rfl

theorem eq_of_unpack {x y : Float} (h : x.toModel.unpack = y.toModel.unpack) : x = y :=
  Float.toBits_inj.mp (UInt64.toBitVec_inj.mp
    ((unpack_inj_of_valid x.toModel.valid y.toModel.valid).mp h))

/-- The float of an unpacked float that came from bits. -/
theorem eq_of_pack {x : Float} {u : UnpackedFloat} (h : x.toModel.unpack = u) :
    Float.ofModel (Float.Model.pack u) = x := by
  refine Float.toBits_inj.mp (UInt64.toBitVec_inj.mp ?_)
  subst h
  exact pack_unpack_of_valid x.toModel.valid

/-- The integer that a finite float is, as a product without fractions. -/
theorem isInteger_finite {x : Float} {n : Int} (h : IsInteger x n) {s : Sign} {m : Nat} {e : Int}
    {pos : 0 < m} (hx : x.toModel.unpack = .finite s m e pos) :
    n * 2 ^ (-e).toNat = s.apply m * 2 ^ e.toNat := by
  obtain ⟨scaled, found, value⟩ := h
  rw [scaled?_eq, hx] at found
  cases found
  have signed : Scaled.signed ⟨s == .negative, m, e⟩ = s.apply m := by cases s <;> rfl
  rw [Scaled.value, signed] at value
  simp only at value
  have power : (2 : ℚ) ^ e = 2 ^ e.toNat / 2 ^ (-e).toNat := by
    rw [← zpow_natCast, ← zpow_natCast, ← zpow_sub₀ (by norm_num)]
    congr 1
    omega
  rw [power, ← mul_div_assoc, div_eq_iff (by positivity)] at value
  exact_mod_cast value.symm

theorem toFloat_eq {x : Float} {n : UInt64} {m : Nat} {e : Int} {pos : 0 < m}
    (hx : x.toModel.unpack = .finite .positive m e pos)
    (whole : n.toNat * 2 ^ (-e).toNat = m * 2 ^ e.toNat) : n.toFloat = x := by
  have canonical := canonical_unpack hx
  have positive : 0 < n.toNat := by
    refine Nat.pos_of_ne_zero fun zero => ?_
    have : 0 < m * 2 ^ e.toNat := Nat.mul_pos pos (by positivity)
    rw [← whole, zero] at this
    omega
  have rounded : UnpackedFloat.ofUInt64 Format.binary64 n = .finite .positive m e pos := by
    have order : compare (n.toNat : Int) 0 = .gt := Int.compare_eq_gt.mpr (by omega)
    simp only [UnpackedFloat.ofUInt64, UnpackedFloat.ofNat, UnpackedFloat.ofInt,
      UnpackedFloat.normalize, order]
    exact round_exact canonical whole .positive
  change Float.ofModel (Float.Model.pack (UnpackedFloat.ofUInt64 Format.binary64 n)) = x
  rw [rounded]
  exact eq_of_pack hx

/-- A word and its bits. -/
theorem toInt_eq_toUInt64 (i : Int64) :
    i.toInt = if i < 0 then (i.toUInt64.toNat : Int) - 2 ^ 64 else (i.toUInt64.toNat : Int) := by
  have bound : i.toUInt64.toNat < 2 ^ 64 := i.toUInt64.toNat_lt
  have signed : i.toInt = if 2 * i.toUInt64.toNat < 2 ^ 64 then (i.toUInt64.toNat : Int)
      else (i.toUInt64.toNat : Int) - (2 ^ 64 : Nat) := i.toBitVec.toInt_eq_toNat_cond
  have zero : (0 : Int64).toInt = 0 := rfl
  have negative : i < 0 ↔ i.toInt < 0 := Int64.lt_iff_toInt_lt
  by_cases back : i < 0
  · have := negative.mp back
    rw [if_pos back]
    split at signed <;> omega
  · have := mt negative.mpr back
    rw [if_neg back]
    split at signed <;> omega

theorem toNat_negated {i : Int64} (h : i < 0) : ((0 - i).toUInt64.toNat : Int) = -i.toInt := by
  have least := Int64.le_toInt i
  have bits := toInt_eq_toUInt64 i
  have bound : i.toUInt64.toNat < 2 ^ 64 := i.toUInt64.toNat_lt
  have zero : (0 : Int64).toInt = 0 := rfl
  rw [if_pos h] at bits
  rw [Int64.lt_iff_toInt_lt, zero] at h
  have difference : (0 - i.toUInt64).toNat = 2 ^ 64 - i.toUInt64.toNat := by
    rw [UInt64.toNat_sub, UInt64.toNat_zero]
    omega
  change ((0 - i.toUInt64).toNat : Int) = _
  rw [difference]
  omega

/-- What a word of the size of a float is made into is the float. -/
theorem ofWord_eq {x : Float} {i : Int64} {s : Sign} {m : Nat} {e : Int} {pos : 0 < m}
    (hx : x.toModel.unpack = .finite s m e pos)
    (whole : i.toInt * 2 ^ (-e).toNat = s.apply m * 2 ^ e.toNat) : ofWord i = x := by
  have negative : i < 0 ↔ i.toInt < 0 := Int64.lt_iff_toInt_lt
  have power : (0 : Int) < 2 ^ (-e).toNat := by positivity
  have product : (0 : Int) < m * 2 ^ e.toNat := by positivity
  cases s with
  | positive =>
    simp only [Sign.apply] at whole
    have forward : ¬i < 0 := fun back => by
      have : i.toInt * 2 ^ (-e).toNat < 0 := mul_neg_of_neg_of_pos (negative.mp back) power
      omega
    rw [ofWord, if_neg forward]
    refine toFloat_eq hx ?_
    rw [toInt_eq_toUInt64 i, if_neg forward] at whole
    exact_mod_cast whole
  | negative =>
    simp only [Sign.apply, neg_mul] at whole
    have back : i < 0 := by
      refine negative.mpr (not_le.mp fun forward => ?_)
      have : 0 ≤ i.toInt * 2 ^ (-e).toNat := mul_nonneg forward power.le
      omega
    have flipped : (-x).toModel.unpack = .finite .positive m e pos := by
      rw [unpack_neg, hx]
      rfl
    have converted : (0 - i).toUInt64.toFloat = -x := by
      refine toFloat_eq flipped ?_
      have : -i.toInt * 2 ^ (-e).toNat = m * 2 ^ e.toNat := by linarith
      rw [← toNat_negated back] at this
      exact_mod_cast this
    rw [ofWord, if_pos back, converted]
    refine eq_of_unpack ?_
    rw [unpack_neg, flipped, hx]
    rfl

/-- **A float whose value is a word is what the word is made into**, up to the sign of zero. -/
theorem ofWord_beq {x : Float} {i : Int64} (h : IsInteger x i.toInt) : (ofWord i == x) = true := by
  cases hx : x.toModel.unpack with
  | infinity | notANumber =>
    obtain ⟨scaled, found, -⟩ := h
    rw [scaled?_eq, hx] at found
    cases found
  | zero s =>
    have none : i = 0 := by
      obtain ⟨scaled, found, value⟩ := h
      rw [scaled?_eq, hx] at found
      cases found
      refine Int64.toInt_inj.mp ?_
      have : ((i.toInt : Int) : ℚ) = 0 := by
        rw [← value]
        simp [Scaled.value, Scaled.signed]
      exact_mod_cast this
    rw [none]
    change UnpackedFloat.beq (ofWord 0).toModel.unpack x.toModel.unpack = true
    rw [hx]
    cases s <;> rfl
  | finite s m e pos =>
    rw [ofWord_eq hx (isInteger_finite h hx)]
    refine (beq_iff_ne_notANumber_and_eq x.toModel.unpack x.toModel.unpack).mpr ?_
    rw [hx]
    exact ⟨nofun, nofun, .inl rfl⟩

end RegisterVm.Binary64
