import RegisterVm.Proofs.Number.FloatOrder
import RegisterVm.Proofs.Number.WholeFloat

/-!
# Rounding keeps the order of integers

The floats in their order are numbered by their ranks (`Binary64.Ranks.compare?_eq`). The float of
an integer is the nearest one (`Binary64.Nearest`), so a larger integer does not get a lower rank
(`Binary64.wholeRank_mono`), although different integers may get the same.
-/

namespace RegisterVm.Binary64

open Float.Model UnpackedFloat

/-! ## The nearest integer -/

/-- `q` is the integer nearest to `a / d`, and the even one if two are equally near. -/
structure Nearest (a d q : Nat) : Prop where
  above : 2 * (q * d) ≤ 2 * a + d
  below : 2 * a ≤ 2 * (q * d) + d
  tie : 2 * (q * d) = 2 * a + d ∨ 2 * a = 2 * (q * d) + d → q % 2 = 0

namespace Nearest

variable {a a' d q q' : Nat}

theorem exact (q d : Nat) (pos : 0 < d) : Nearest (q * d) d q :=
  ⟨by omega, by omega, fun tie => by omega⟩

/-- **The nearest integer does not become smaller when the number becomes larger.** -/
theorem mono (h : Nearest a d q) (h' : Nearest a' d q') (pos : 0 < d) (le : a ≤ a') : q ≤ q' := by
  by_contra greater
  have step : (q' + 1) * d ≤ q * d := Nat.mul_le_mul_right d (by omega)
  rw [Nat.succ_mul] at step
  have above := h.above
  have below := h'.below
  -- Only one number is as near to two integers, and both of them would have to be even.
  have next : q * d = (q' + 1) * d := by rw [Nat.succ_mul]; omega
  have one : q = q' + 1 := Nat.eq_of_mul_eq_mul_right pos next
  have even := h.tie (.inl (by omega))
  have even' := h'.tie (.inr (by omega))
  omega

theorem unique (h : Nearest a d q) (h' : Nearest a d q') (pos : 0 < d) : q = q' :=
  Nat.le_antisymm (h.mono h' pos (Nat.le_refl a)) (h'.mono h pos (Nat.le_refl a))

/-- Only the quotient counts. -/
theorem scale_iff {c : Nat} (pos : 0 < c) : Nearest (a * c) (d * c) q ↔ Nearest a d q := by
  have le : ∀ {m n : Nat}, m * c ≤ n * c ↔ m ≤ n := fun {m n} => Nat.mul_le_mul_right_iff pos
  have eq : ∀ {m n : Nat}, m * c = n * c ↔ m = n := fun {m n} =>
    Nat.mul_left_inj (Nat.ne_of_gt pos)
  have product : 2 * (q * (d * c)) = 2 * (q * d) * c := by ring
  have numerator : 2 * (a * c) = 2 * a * c := by ring
  constructor
  · rintro ⟨above, below, tie⟩
    simp only [product, numerator, ← Nat.add_mul, le, eq] at above below tie
    exact ⟨above, below, tie⟩
  · rintro ⟨above, below, tie⟩
    constructor
    all_goals simp only [product, numerator, ← Nat.add_mul, le, eq]
    · exact above
    · exact below
    · exact tie

end Nearest

/-! ## Shifting -/

/-- What is left of `a` when it is shifted by `s`: the quotient, and how the rest compares to one
half. -/
def Shifted (a s : Nat) (em : ExtendedMantissa) : Prop :=
  ∃ r < 2 ^ s, a = em.mantissa * 2 ^ s + r ∧ (em.roundBit = true ↔ 2 ^ s ≤ 2 * r) ∧
    (em.stickyBit = true ↔ r ≠ 0 ∧ 2 * r ≠ 2 ^ s)

theorem shifted (a s : Nat) : Shifted a s (ExtendedMantissa.mk a false false >>> s) := by
  change Shifted a s (Nat.repeat ExtendedMantissa.shiftRightOne s ⟨a, false, false⟩)
  induction s with
  | zero => exact ⟨0, by simp [Nat.repeat]⟩
  | succ s ih =>
    obtain ⟨r, rest, value, round, sticky⟩ := ih
    rw [Nat.repeat]
    generalize Nat.repeat ExtendedMantissa.shiftRightOne s ⟨a, false, false⟩ = em at *
    have power : 2 ^ (s + 1) = 2 * 2 ^ s := Nat.pow_succ'
    have digit : em.mantissa % 2 = 0 ∨ em.mantissa % 2 = 1 := Nat.mod_two_eq_zero_or_one _
    have split : em.mantissa * 2 ^ s = em.mantissa / 2 * 2 ^ (s + 1) + em.mantissa % 2 * 2 ^ s := by
      rw [power, ← Nat.mul_assoc, Nat.mul_comm _ 2, ← Nat.add_mul, Nat.div_add_mod]
    refine ⟨em.mantissa % 2 * 2 ^ s + r, ?_, ?_, ?_, ?_⟩
    · rcases digit with zero | one
      · rw [zero]; omega
      · rw [one]; omega
    · rw [value, split]
      exact Nat.add_assoc _ _ _
    · simp only [ExtendedMantissa.shiftRightOne, bne_iff_ne]
      rcases digit with zero | one
      · rw [zero]; omega
      · rw [one]; omega
    · simp only [ExtendedMantissa.shiftRightOne, Bool.or_eq_true, round, sticky]
      rcases digit with zero | one
      · rw [zero]; omega
      · rw [one]; omega

/-- The mantissa is rounded to the nearest. -/
theorem Shifted.nearest {a s : Nat} {em : ExtendedMantissa} (h : Shifted a s em) :
    Nearest a (2 ^ s) em.roundedMantissa := by
  obtain ⟨r, rest, value, round, sticky⟩ := h
  obtain ⟨m, roundBit, stickyBit⟩ := em
  simp only at value round sticky
  have next : (m + 1) * 2 ^ s = m * 2 ^ s + 2 ^ s := Nat.succ_mul _ _
  cases roundBit with
  | false =>
    have below : ¬2 ^ s ≤ 2 * r := fun up => Bool.noConfusion (round.mpr up)
    have rounded : ExtendedMantissa.roundedMantissa ⟨m, false, stickyBit⟩ = m := by
      cases stickyBit <;> rfl
    rw [rounded]
    exact ⟨by omega, by omega, fun tie => by omega⟩
  | true =>
    have above : 2 ^ s ≤ 2 * r := round.mp rfl
    cases stickyBit with
    | true =>
      have apart : 2 * r ≠ 2 ^ s := (sticky.mp rfl).2
      change Nearest a (2 ^ s) (m + 1)
      exact ⟨by omega, by omega, fun tie => by omega⟩
    | false =>
      have half : 2 * r = 2 ^ s := by
        by_contra apart
        exact Bool.noConfusion (sticky.mpr ⟨by omega, apart⟩)
      change Nearest a (2 ^ s) (m + m % 2)
      rcases Nat.mod_two_eq_zero_or_one m with even | odd
      · rw [even, Nat.add_zero]
        exact ⟨by omega, by omega, fun _ => even⟩
      · rw [odd]
        exact ⟨by omega, by omega, fun _ => by omega⟩

/-! ## Ranks -/

/-- The rank of an unpacked float. Positive floats are numbered by their bits. -/
def rank : UnpackedFloat → Int
  | .notANumber | .zero _ => 0
  | .infinity s => s.apply (2047 * 2 ^ 52)
  | .finite s m e _ => s.apply ((e + 1074) * 2 ^ 52 + m)

/-- A mantissa and an exponent in the range of floats. -/
structure Proper (m : Nat) (e : Int) : Prop where
  pos : 0 < m
  short : m < 2 ^ 53
  low : -1074 ≤ e
  high : e ≤ 971
  normal : e = -1074 ∨ 2 ^ 52 ≤ m

theorem proper_unpack {b : BitVec Format.binary64.numBits} {s : Sign} {m : Nat} {e : Int}
    {pos : 0 < m} (h : UnpackedFloat.unpack Format.binary64 b = .finite s m e pos) :
    Proper m e := by
  have fraction := toNat_unpackMantissa b
  have field := toNat_unpackExponent b
  have bound : b.toNat % 2 ^ 52 < 2 ^ 52 := Nat.mod_lt _ (by decide)
  have range : b.toNat / 2 ^ 52 % 2 ^ 11 < 2 ^ 11 := Nat.mod_lt _ (by decide)
  have bias : (Format.binary64.exponentBias : Int) = 1023 := rfl
  have width : (Format.binary64.mantissaBitsWithoutImplicit : Int) = 52 := rfl
  unfold UnpackedFloat.unpack at h
  simp only at h
  split at h
  · split at h <;> cases h
  · rename_i finite
    have last : (unpackExponent b).toNat ≠ 2047 := fun last =>
      finite (BitVec.eq_of_toNat_eq (last.trans rfl))
    split at h
    · rename_i subnormal
      have zero : (unpackExponent b).toNat = 0 := by rw [subnormal]; rfl
      split at h
      · cases h
      · injection h with _ mantissa exponent
        rw [zero, bias, width] at exponent
        exact ⟨pos, by omega, by omega, by omega, .inl (by omega)⟩
    · rename_i normal
      have nonzero : (unpackExponent b).toNat ≠ 0 := fun zero =>
        normal (BitVec.eq_of_toNat_eq zero)
      injection h with _ mantissa exponent
      rw [toNat_normalMantissa, hiddenBit] at mantissa
      rw [bias, width] at exponent
      exact ⟨pos, by omega, by omega, by omega, .inr (by omega)⟩

/-- Exponents decide before mantissas. -/
theorem Proper.compare_eq {m m' : Nat} {e e' : Int} (h : Proper m e) (h' : Proper m' e') :
    (compare e e').then (compare m m') =
      compare ((e + 1074) * 2 ^ 52 + (m : Int)) ((e' + 1074) * 2 ^ 52 + m') := by
  have normal := h.normal
  have normal' := h'.normal
  have short := h.short
  have short' := h'.short
  have low := h.low
  have low' := h'.low
  rcases Int.lt_trichotomy e e' with less | rfl | greater
  · rw [Int.compare_eq_lt.mpr less]
    exact (Int.compare_eq_lt.mpr (by omega)).symm
  · rw [Int.compare_eq_eq.mpr rfl]
    change compare m m' = _
    rcases Nat.lt_trichotomy m m' with less | rfl | greater
    · rw [Nat.compare_eq_lt.mpr less]
      exact (Int.compare_eq_lt.mpr (by omega)).symm
    · rw [Nat.compare_eq_eq.mpr rfl]
      exact (Int.compare_eq_eq.mpr rfl).symm
    · rw [Nat.compare_eq_gt.mpr greater]
      exact (Int.compare_eq_gt.mpr (by omega)).symm
  · rw [Int.compare_eq_gt.mpr greater]
    exact (Int.compare_eq_gt.mpr (by omega)).symm

theorem Proper.range {m : Nat} {e : Int} (h : Proper m e) :
    0 < (e + 1074) * 2 ^ 52 + (m : Int) ∧ (e + 1074) * 2 ^ 52 + (m : Int) < 2047 * 2 ^ 52 := by
  have pos := h.pos
  have short := h.short
  have low := h.low
  have high := h.high
  omega

/-- A number with its rank. -/
def Ranks (x : Float) (r : Int) : Prop :=
  x.toModel.unpack ≠ .notANumber ∧ rank x.toModel.unpack = r

theorem compare_neg {i j : Int} : compare (-i) (-j) = (compare i j).swap := by
  rw [Int.compare_swap]
  rcases Int.lt_trichotomy j i with less | rfl | greater
  · rw [Int.compare_eq_lt.mpr less, Int.compare_eq_lt.mpr (Int.neg_lt_neg less)]
  · rw [Int.compare_eq_eq.mpr rfl, Int.compare_eq_eq.mpr rfl]
  · rw [Int.compare_eq_gt.mpr greater, Int.compare_eq_gt.mpr (Int.neg_lt_neg greater)]

/-- **Floats are compared by their ranks.** -/
theorem Ranks.compare?_eq {x y : Float} {r r' : Int} (hx : Ranks x r) (hy : Ranks y r') :
    compare? x y = some (compare r r') := by
  obtain ⟨number, rfl⟩ := hx
  obtain ⟨number', rfl⟩ := hy
  have proper : ∀ {z : Float} {s : Sign} {m : Nat} {e : Int} {pos : 0 < m},
      z.toModel.unpack = .finite s m e pos → Proper m e := fun h => proper_unpack h
  have lt : ∀ {i j : Int}, i < j → some Ordering.lt = some (compare i j) := fun less =>
    congrArg some (Int.compare_eq_lt.mpr less).symm
  have gt : ∀ {i j : Int}, j < i → some Ordering.gt = some (compare i j) := fun less =>
    congrArg some (Int.compare_eq_gt.mpr less).symm
  rw [Binary64.compare?_eq, order?, Float.Model.compare]
  cases ux : x.toModel.unpack with
  | notANumber => exact absurd ux number
  | zero s =>
    cases uy : y.toModel.unpack with
    | notANumber => exact absurd uy number'
    | zero t => rfl
    | infinity t => cases t <;> rfl
    | finite t m e pos =>
      have range := (proper uy).range
      cases t with
      | positive => exact lt range.1
      | negative => exact gt (Int.neg_neg_of_pos range.1)
  | infinity s =>
    cases uy : y.toModel.unpack with
    | notANumber => exact absurd uy number'
    | zero t => cases s <;> rfl
    | infinity t => cases s <;> cases t <;> rfl
    | finite t m e pos =>
      have range := (proper uy).range
      cases s <;> cases t <;> simp only [UnpackedFloat.compare, rank, Sign.apply] <;>
        first | exact lt (by omega) | exact gt (by omega)
  | finite s m e pos =>
    have range := (proper ux).range
    cases uy : y.toModel.unpack with
    | notANumber => exact absurd uy number'
    | zero t =>
      cases s with
      | positive => exact gt range.1
      | negative => exact lt (Int.neg_neg_of_pos range.1)
    | infinity t =>
      cases s <;> cases t <;> simp only [UnpackedFloat.compare, rank, Sign.apply] <;>
        first | exact lt (by omega) | exact gt (by omega)
    | finite t m' e' pos' =>
      have range' := (proper uy).range
      have same := (proper ux).compare_eq (proper uy)
      cases s <;> cases t <;> simp only [UnpackedFloat.compare, rank, Sign.apply, same]
      · exact congrArg some compare_neg.symm
      · exact lt (by omega)
      · exact gt (by omega)

/-- Every number has a rank. -/
theorem exists_ranks {x : Float} (number : x.isNaN = false) : ∃ r, Ranks x r := by
  refine ⟨_, fun nan => ?_, rfl⟩
  have : x.toModel.unpack.isNaN = false := number
  rw [nan] at this
  cases this

theorem Ranks.neg {x : Float} {r : Int} (h : Ranks x r) : Ranks (-x) (-r) := by
  obtain ⟨number, rfl⟩ := h
  rw [Ranks, unpack_neg]
  cases u : x.toModel.unpack with
  | notANumber => exact absurd u number
  | zero s => exact ⟨nofun, rfl⟩
  | infinity s => cases s <;> exact ⟨nofun, rfl⟩
  | finite s m e pos =>
    refine ⟨nofun, ?_⟩
    cases s with
    | positive => rfl
    | negative => exact (Int.neg_neg _).symm

/-! ## Packing -/

theorem unpack_packedInfinity (s : Sign) :
    UnpackedFloat.unpack Format.binary64 (packedInfinity Format.binary64 s) = .infinity s := by
  rw [UnpackedFloat.unpack, packedInfinity]
  simp only [unpackSign_packComponents, unpackExponent_packComponents,
    unpackMantissa_packComponents, Sign.ofBitVec_toBitVec, if_true]
  rfl

/-- The bits of a float with all digits in its mantissa. -/
theorem unpack_packComponents {s : Sign} {m : Nat} {e : Int} (pos : 0 < m) (least : 2 ^ 52 ≤ m)
    (short : m < 2 ^ 53) (low : -1074 ≤ e) (high : e ≤ 971) :
    UnpackedFloat.unpack Format.binary64 (packComponents Format.binary64 s
        (BitVec.ofNat _ (e + 1075).toNat) (BitVec.ofNat _ m)) = .finite s m e pos := by
  generalize hb : packComponents Format.binary64 s
    (BitVec.ofNat _ (e + 1075).toNat) (BitVec.ofNat _ m) = b
  have bias : (Format.binary64.exponentBias : Int) = 1023 := rfl
  have width : (Format.binary64.mantissaBitsWithoutImplicit : Int) = 52 := rfl
  have sign : unpackSign b = s.toBitVec := by
    rw [← hb, unpackSign_packComponents]
  have exponent : (unpackExponent b).toNat = (e + 1075).toNat := by
    rw [← hb, unpackExponent_packComponents, BitVec.toNat_ofNat]
    exact Nat.mod_eq_of_lt (by change _ < 2 ^ 11; omega)
  have fraction : (unpackMantissa b).toNat = m % 2 ^ 52 := by
    rw [← hb, unpackMantissa_packComponents, BitVec.toNat_ofNat]
  have mantissa : (1#1 ++ unpackMantissa b).toNat = m := by
    rw [toNat_normalMantissa, ← toNat_unpackMantissa, fraction, hiddenBit]
    omega
  have finite : unpackExponent b ≠ -1#_ := fun last => by
    have : (unpackExponent b).toNat = 2047 := by rw [last]; rfl
    omega
  have normal : unpackExponent b ≠ 0#_ := fun first => by
    have : (unpackExponent b).toNat = 0 := by rw [first]; rfl
    omega
  have shift : ((e + 1075).toNat : Int) - (1023 + 52) = e := by omega
  rw [UnpackedFloat.unpack]
  simp only [if_neg finite, if_neg normal, sign, Sign.ofBitVec_toBitVec, mantissa, exponent, bias,
    width, shift]

/-- The rank does not get beyond that of infinity when a float is packed. -/
theorem ranks_pack {s : Sign} {m : Nat} {e : Int} (pos : 0 < m) (least : 2 ^ 52 ≤ m)
    (short : m < 2 ^ 53) (low : -1074 ≤ e) :
    Ranks (Float.ofModel (Float.Model.pack (.finite s m e pos)))
      (s.apply (min (2047 * 2 ^ 52) ((e + 1074) * 2 ^ 52 + m))) := by
  have length : m.log2 + 1 = Format.binary64.mantissaBits :=
    congrArg (· + 1) ((Nat.log2_eq_iff pos.ne').mpr ⟨least, short⟩)
  have field : (e + Format.binary64.exponentBias
      + Format.binary64.mantissaBitsWithoutImplicit).toNat = (e + 1075).toNat := by
    rw [Int.add_assoc]
    rfl
  change UnpackedFloat.unpack Format.binary64 (UnpackedFloat.pack Format.binary64 _) ≠ _ ∧
    rank (UnpackedFloat.unpack Format.binary64 (UnpackedFloat.pack Format.binary64 _)) = _
  rw [UnpackedFloat.pack]
  simp only [field, length, if_true]
  by_cases large : 2 ^ 11 ≤ (e + 1075).toNat + 1
  · rw [if_pos large, unpack_packedInfinity]
    refine ⟨nofun, congrArg s.apply ?_⟩
    omega
  · rw [if_neg large, unpack_packComponents pos least short low (by omega)]
    refine ⟨nofun, congrArg s.apply ?_⟩
    omega

/-! ## Integers -/

/-- The first 53 digits of an integer, with what follows them rounded off. -/
def significand (n : Nat) : Nat :=
  (ExtendedMantissa.mk (n * 2 ^ 52) false false >>> n.log2).roundedMantissa

theorem significand_nearest (n : Nat) : Nearest (n * 2 ^ 52) (2 ^ n.log2) (significand n) :=
  (shifted _ _).nearest

theorem significand_bounds {n : Nat} (pos : 0 < n) :
    2 ^ 52 ≤ significand n ∧ significand n ≤ 2 ^ 53 := by
  have least : 2 ^ n.log2 ≤ n := Nat.log2_self_le pos.ne'
  have most : n < 2 ^ (n.log2 + 1) := Nat.lt_log2_self
  have unit : 0 < 2 ^ n.log2 := Nat.two_pow_pos _
  rw [Nat.pow_succ'] at most
  refine ⟨(Nearest.exact (2 ^ 52) _ unit).mono (significand_nearest n) unit ?_,
    (significand_nearest n).mono (Nearest.exact (2 ^ 53) _ unit) unit ?_⟩
  · rw [Nat.mul_comm]
    exact Nat.mul_le_mul_right _ least
  · omega

/-- The rank of the float nearest to a positive integer, `n`. -/
def magnitudeRank (n : Nat) : Nat :=
  if n = 0 then 0 else min (2047 * 2 ^ 52) ((n.log2 + 1022) * 2 ^ 52 + significand n)

theorem magnitudeRank_mono {n n' : Nat} (le : n ≤ n') : magnitudeRank n ≤ magnitudeRank n' := by
  rcases Nat.eq_zero_or_pos n with rfl | pos
  · exact Nat.zero_le _
  have pos' : 0 < n' := Nat.lt_of_lt_of_le pos le
  rw [magnitudeRank, magnitudeRank, if_neg pos.ne', if_neg pos'.ne']
  suffices (n.log2 + 1022) * 2 ^ 52 + significand n ≤ (n'.log2 + 1022) * 2 ^ 52 + significand n' by
    omega
  have length : n.log2 ≤ n'.log2 :=
    (Nat.le_log2 pos'.ne').mpr ((Nat.log2_self_le pos.ne').trans le)
  rcases Nat.eq_or_lt_of_le length with same | longer
  · have digits := significand_nearest n
    rw [same] at digits ⊢
    have := digits.mono (significand_nearest n') (Nat.two_pow_pos _) (Nat.mul_le_mul_right _ le)
    omega
  · have bounds := significand_bounds pos
    have bounds' := significand_bounds pos'
    omega

/-- Shifting an integer with zeros after the point to 53 digits. -/
theorem shiftToTargetExponent_eq {n j : Nat} (pos : 0 < n) (wide : 52 ≤ n.log2 + j) :
    ∃ em : ExtendedMantissa,
      shiftToTargetExponent Format.binary64 (n * 2 ^ j) (-j) .exact = (em, (n.log2 : Int) - 52) ∧
        em.roundedMantissa = significand n := by
  obtain ⟨k, distance⟩ := Nat.exists_eq_add_of_le' wide
  have total : totalExponent (n * 2 ^ j) (-j) = n.log2 + 1 := by
    rw [totalExponent, log2_mul_two_pow pos.ne']
    omega
  have target : Format.binary64.targetExponent (n.log2 + 1) = n.log2 - 52 := by
    change max ((n.log2 : Int) + 1 - 53) (-1074) = _
    omega
  have amount : ((n.log2 : Int) - 52 - -j).toNat = k := by omega
  refine ⟨ExtendedMantissa.mk (n * 2 ^ j) false false >>> k, ?_, ?_⟩
  · simp only [shiftToTargetExponent, shiftToExponent, total, target, amount,
      ExtendedMantissa.ofMantissaAndAccuracy, Prod.mk.injEq, true_and]
    omega
  · -- Both are the integer nearest to the same quotient.
    have near := (Nearest.scale_iff (Nat.two_pow_pos 52)).mpr (shifted (n * 2 ^ j) k).nearest
    have near' := (Nearest.scale_iff (Nat.two_pow_pos j)).mpr (significand_nearest n)
    rw [Nat.mul_right_comm, ← Nat.pow_add, ← distance, Nat.pow_add] at near
    exact near.unique near' (by positivity)

/-- **Rounding an integer.** -/
theorem roundWithAccuracy_eq {n j : Nat} (pos : 0 < n) (wide : 52 ≤ n.log2 + j) (s : Sign) :
    ∃ m e, ∃ nonzero : 0 < m,
      roundWithAccuracy Format.binary64 s (n * 2 ^ j) (-j) .exact = .finite s m e nonzero ∧
        2 ^ 52 ≤ m ∧ m < 2 ^ 53 ∧
        (e + 1074) * 2 ^ 52 + (m : Int) = (n.log2 + 1022) * 2 ^ 52 + significand n := by
  obtain ⟨em, first, digits⟩ := shiftToTargetExponent_eq pos wide
  have bounds := significand_bounds pos
  have canonical : ∀ {m : Nat} {e : Int}, 2 ^ 52 ≤ m → m < 2 ^ 53 → -1074 ≤ e → Canonical m e := by
    intro m e least short low
    have length : m.log2 = 52 := (Nat.log2_eq_iff (by omega)).mpr ⟨least, short⟩
    refine ⟨by omega, ?_⟩
    change max ((m.log2 : Int) + 1 + e - 53) (-1074) = e
    omega
  -- Rounding up to a power of two makes one more digit, which is shifted out again.
  obtain ⟨m, k, product, least, short, k_le⟩ : ∃ m k, significand n = m * 2 ^ k ∧ 2 ^ 52 ≤ m ∧
      m < 2 ^ 53 ∧ (k = 0 ∨ k = 1 ∧ m = 2 ^ 52) := by
    rcases Nat.eq_or_lt_of_le bounds.2 with most | less
    · exact ⟨2 ^ 52, 1, most, by decide, by decide, .inr ⟨rfl, rfl⟩⟩
    · exact ⟨significand n, 0, (Nat.mul_one _).symm, bounds.1, less, .inl rfl⟩
  have last := shiftToTargetExponent_exact
    (canonical (e := n.log2 - 52 + k) least short (by omega)) k
  rw [Int.add_sub_cancel, ← product] at last
  have nonzero : 0 < m := by omega
  refine ⟨m, n.log2 - 52 + k, nonzero, ?_, least, short, ?_⟩
  · simp only [roundWithAccuracy, first, digits, last, dif_neg nonzero.ne']
  · rcases k_le with rfl | ⟨rfl, rfl⟩ <;> omega

/-- The rank of what an integer is rounded to. -/
theorem ranks_roundWithAccuracy {n j : Nat} (pos : 0 < n) (wide : 52 ≤ n.log2 + j) :
    Ranks (Float.ofModel (Float.Model.pack
        (roundWithAccuracy Format.binary64 .positive (n * 2 ^ j) (-j) .exact)))
      (magnitudeRank n) := by
  obtain ⟨m, e, nonzero, rounded, least, short, same⟩ := roundWithAccuracy_eq pos wide .positive
  have packed := ranks_pack (s := .positive) nonzero least short
    (show -1074 ≤ e by omega)
  rw [same] at packed
  rw [rounded, magnitudeRank, if_neg pos.ne']
  exact_mod_cast packed

theorem ranks_zero {x : Float} {s : Sign} (zero : x.toModel.unpack = .zero s) : Ranks x 0 := by
  rw [Ranks, zero]
  exact ⟨nofun, rfl⟩

theorem ranks_toFloat (n : UInt64) : Ranks n.toFloat (magnitudeRank n.toNat) := by
  rcases Nat.eq_zero_or_pos n.toNat with zero | pos
  · rw [show n = 0 from UInt64.toNat_inj.mp zero]
    exact ranks_zero rfl
  · have order : compare (n.toNat : Int) 0 = .gt := Int.compare_eq_gt.mpr (by omega)
    have target : Format.binary64.targetExponent (totalExponent n.toNat 0) =
        (n.toNat.log2 : Int) - 52 := by
      change max ((n.toNat.log2 : Int) + 1 + 0 - 53) (-1074) = _
      omega
    have lowered : decreaseExponent n.toNat 0 (n.toNat.log2 - 52) =
        (n.toNat * 2 ^ (52 - n.toNat.log2), -((52 - n.toNat.log2 : Nat) : Int)) := by
      have amount : ((0 : Int) - (n.toNat.log2 - 52)).toNat = 52 - n.toNat.log2 := by omega
      simp only [decreaseExponent, amount, Nat.shiftLeft_eq]
      rw [Int.zero_sub]
    have rounded := ranks_roundWithAccuracy (j := 52 - n.toNat.log2) pos (by omega)
    change Ranks (Float.ofModel (Float.Model.pack (UnpackedFloat.ofUInt64 Format.binary64 n))) _
    simpa only [UnpackedFloat.ofUInt64, UnpackedFloat.ofNat, UnpackedFloat.ofInt,
      UnpackedFloat.normalize, order, Int.toNat_natCast, UnpackedFloat.round, target, lowered]
      using rounded

/-- Multiplying by one is exact. -/
theorem mul_one_eq (x : Float) : x * Float.ofBits 0x3FF0000000000000 = x := by
  have one : (Float.ofBits 0x3FF0000000000000).toModel.unpack =
      .finite .positive (2 ^ 52) (-52) (by decide) := rfl
  have product : UnpackedFloat.mul Format.binary64 x.toModel.unpack
      (Float.ofBits 0x3FF0000000000000).toModel.unpack = x.toModel.unpack := by
    rw [one]
    cases u : x.toModel.unpack with
    | notANumber => rfl
    | zero s => cases s <;> rfl
    | infinity s => cases s <;> rfl
    | finite s m e pos =>
      have sign : s * .positive = s := by cases s <;> rfl
      rw [UnpackedFloat.mul, sign]
      exact roundWithAccuracy_exact (canonical_unpack u) 52 s
  exact (congrArg (fun u => Float.ofModel (Float.Model.pack u)) product).trans (eq_of_pack rfl)

theorem ranks_ofNat (n : Nat) : Ranks (Float.ofNat n) (magnitudeRank n) := by
  change Ranks (Float.ofScientific n false 0) _
  unfold Float.ofScientific
  split
  · rename_i small
    have word : n.toUInt64.toNat = n := UInt64.toNat_ofNat_of_lt (by
      change n < 2 ^ 64
      omega)
    have converted := ranks_toFloat n.toUInt64
    rw [word, ← mul_one_eq n.toUInt64.toFloat] at converted
    exact converted
  · rename_i large
    have pos : 0 < n := by omega
    have rounded := ranks_roundWithAccuracy (j := 53) pos (by omega)
    change Ranks (Float.ofModel (Float.Model.pack
      (UnpackedFloat.ofScientific Format.binary64 n 0))) _
    have modest : ¬(0 : Int) > 2 ^ Format.binary64.exponentBits := by decide
    have length : ¬(0 : Int) < -((2 ^ Format.binary64.exponentBits : Int) + n.log2) := by
      change ¬(0 : Int) < -((2 ^ 11 : Int) + n.log2)
      omega
    simp only [UnpackedFloat.ofScientific, dif_neg pos.ne', if_neg modest, if_neg length,
      if_pos (Int.le_refl 0), UnpackedFloat.mul, Int.toNat_zero, Nat.pow_zero, Nat.mul_one,
      Int.add_zero, Nat.shiftLeft_eq]
    exact rounded

/-- The rank of the float that an integer is made into. -/
def wholeRank (i : Int) : Int := if 0 ≤ i then magnitudeRank i.natAbs else -magnitudeRank i.natAbs

/-- **A larger integer does not get a lower rank.** -/
theorem wholeRank_mono {i j : Int} (le : i ≤ j) : wholeRank i ≤ wholeRank j := by
  unfold wholeRank
  split
  · rename_i nonneg
    have := magnitudeRank_mono (show i.natAbs ≤ j.natAbs by omega)
    rw [if_pos (by omega)]
    omega
  · split
    · omega
    · have := magnitudeRank_mono (show j.natAbs ≤ i.natAbs by omega)
      omega

theorem ranks_ofInt (i : Int) : Ranks (Float.ofInt i) (wholeRank i) := by
  cases i with
  | ofNat n =>
    have forward : (0 : Int) ≤ .ofNat n := Int.natCast_nonneg n
    rw [wholeRank, if_pos forward]
    exact ranks_ofNat n
  | negSucc n =>
    have back : ¬(0 : Int) ≤ .negSucc n := Int.not_le.mpr (Int.negSucc_lt_zero n)
    rw [wholeRank, if_neg back]
    exact (ranks_ofNat (n + 1)).neg

theorem ranks_ofWord (i : Int64) : Ranks (ofWord i) (wholeRank i.toInt) := by
  have negative : i < 0 ↔ i.toInt < 0 := Int64.lt_iff_toInt_lt
  have bits := toInt_eq_toUInt64 i
  unfold ofWord wholeRank
  by_cases back : i < 0
  · have magnitude : i.toInt.natAbs = (0 - i).toUInt64.toNat := by
      have := toNat_negated back
      omega
    have below := negative.mp back
    rw [if_pos back, if_neg (Int.not_le.mpr below), magnitude]
    exact (ranks_toFloat _).neg
  · rw [if_neg back] at bits
    rw [if_neg back, if_pos (by omega), bits, Int.natAbs_natCast]
    exact ranks_toFloat _

end RegisterVm.Binary64
