import Mathlib
import RegisterVm.Loop.WordArithmetic

/-!
# Word arithmetic of compiled loops is checked arithmetic

The bit tests of `WordForm.overflows` tell exactly whether a sum, difference or product is a word
(`overflows_add`, `overflows_sub`, `overflows_mul`), so a compiled loop has a result on words
exactly when the checked operation has, and the same one (`add?_eq`, `sub?_eq`, `mul?_eq`).
Negation has no result on the least word only (`neg?_eq`).
-/

namespace RegisterVm

namespace Word

/-! ## Signs of words -/

theorem neg_iff_msb (a : Int64) : a < 0 ↔ a.toBitVec.msb = true :=
  BitVec.slt_zero_iff_msb_cond

theorem and_neg_iff (a b : Int64) : a &&& b < 0 ↔ a < 0 ∧ b < 0 := by
  simp only [neg_iff_msb, Int64.toBitVec_and, BitVec.msb_and, Bool.and_eq_true]

theorem xor_neg_iff (a b : Int64) : a ^^^ b < 0 ↔ ¬(a < 0 ↔ b < 0) := by
  simp only [neg_iff_msb, Int64.toBitVec_xor, BitVec.msb_xor]
  cases a.toBitVec.msb <;> cases b.toBitVec.msb <;> decide

theorem fits_iff (i : Int) : fits i = true ↔ -2 ^ 63 ≤ i ∧ i < 2 ^ 63 := by
  simp only [fits, Bool.and_eq_true, decide_eq_true_eq]
  omega

/-- Shifting out all other bits leaves a word with all bits like the sign. -/
theorem shiftRight_63 (a : Int64) : a >>> 63 = if a < 0 then -1 else 0 := by
  have bound := And.intro (Int64.le_toInt a) (Int64.toInt_lt a)
  have shift : (a >>> 63).toInt = a.toInt / 2 ^ 63 := by
    change (a.toBitVec.sshiftRight' ((63#64).smod 64#64)).toInt = a.toBitVec.toInt / 2 ^ 63
    rw [show (63#64).smod 64#64 = 63#64 by decide, BitVec.sshiftRight_eq', BitVec.toInt_sshiftRight,
      Int.shiftRight_eq_div_pow]
    rfl
  have zero : (0 : Int64).toInt = 0 := rfl
  apply Int64.toInt_inj.mp
  rw [shift]
  split <;> rename_i negative <;> rw [Int64.lt_iff_toInt_lt, zero] at negative
  · rw [show (-1 : Int64).toInt = -1 from rfl]
    omega
  · rw [zero]
    omega

end Word

namespace WordForm

open Word

/-! ## Overflow tests -/

theorem overflows_add (a b : Int64) :
    add.overflows a b = !fits (a.toInt + b.toInt) := by
  have ha := And.intro (Int64.le_toInt a) (Int64.toInt_lt a)
  have hb := And.intro (Int64.le_toInt b) (Int64.toInt_lt b)
  have zero : (0 : Int64).toInt = 0 := rfl
  rw [Bool.eq_iff_iff, Bool.not_eq_true', ← Bool.not_eq_true, fits_iff]
  simp only [overflows, decide_eq_true_eq, and_neg_iff, xor_neg_iff]
  simp only [Int64.lt_iff_toInt_lt, Int64.toInt_add, zero, Int.bmod_def]
  omega

theorem overflows_sub (a b : Int64) :
    sub.overflows a b = !fits (a.toInt - b.toInt) := by
  have ha := And.intro (Int64.le_toInt a) (Int64.toInt_lt a)
  have hb := And.intro (Int64.le_toInt b) (Int64.toInt_lt b)
  have zero : (0 : Int64).toInt = 0 := rfl
  rw [Bool.eq_iff_iff, Bool.not_eq_true', ← Bool.not_eq_true, fits_iff]
  simp only [overflows, decide_eq_true_eq, and_neg_iff, xor_neg_iff]
  simp only [Int64.lt_iff_toInt_lt, Int64.toInt_sub, zero, Int.bmod_def]
  omega

/-- A product of words has at most 127 bits. -/
theorem product_bounds (a b : Int64) :
    -2 ^ 126 ≤ a.toInt * b.toInt ∧ a.toInt * b.toInt ≤ 2 ^ 126 := by
  have ha := And.intro (Int64.le_toInt a) (Int64.toInt_lt a)
  have hb := And.intro (Int64.le_toInt b) (Int64.toInt_lt b)
  have bound : (a.toInt * b.toInt).natAbs ≤ 2 ^ 63 * 2 ^ 63 := by
    rw [Int.natAbs_mul]
    exact Nat.mul_le_mul (by omega) (by omega)
  omega

theorem toInt_mulHigh (a b : Int64) : (mulHigh a b).toInt = a.toInt * b.toInt / 2 ^ 64 := by
  have := product_bounds a b
  rw [mulHigh, Int.shiftRight_eq_div_pow]
  exact Int64.toInt_ofInt_of_le (by omega) (by omega)

theorem overflows_mul (a b : Int64) :
    mul.overflows a b = !fits (a.toInt * b.toInt) := by
  have bounds := product_bounds a b
  have high := toInt_mulHigh a b
  have zero : (0 : Int64).toInt = 0 := rfl
  have minusOne : (-1 : Int64).toInt = -1 := rfl
  have low : (a * b).toInt = (a.toInt * b.toInt).bmod (2 ^ 64) := Int64.toInt_mul a b
  generalize a.toInt * b.toInt = product at *
  rw [Bool.eq_iff_iff, Bool.not_eq_true', ← Bool.not_eq_true, fits_iff]
  simp only [overflows, bne_iff_ne, ne_eq, shiftRight_63, ← Int64.toInt_inj, high]
  split <;> rename_i negative <;> rw [Int64.lt_iff_toInt_lt, zero, low, Int.bmod_def] at negative
  · rw [minusOne]
    omega
  · rw [zero]
    omega

/-! ## Results -/

theorem add?_eq (a b : Int64) :
    Word.add? a b = if add.overflows a b then none else some (a + b) := by
  rw [overflows_add, add?, ofInt?, Int64.ofInt_add, Int64.ofInt_toInt, Int64.ofInt_toInt]
  cases fits (a.toInt + b.toInt) <;> rfl

theorem sub?_eq (a b : Int64) :
    Word.sub? a b = if sub.overflows a b then none else some (a - b) := by
  rw [overflows_sub, sub?, ofInt?, Int64.ofInt_sub, Int64.ofInt_toInt, Int64.ofInt_toInt]
  cases fits (a.toInt - b.toInt) <;> rfl

theorem mul?_eq (a b : Int64) :
    Word.mul? a b = if mul.overflows a b then none else some (a * b) := by
  rw [overflows_mul, mul?, ofInt?, Int64.ofInt_mul, Int64.ofInt_toInt, Int64.ofInt_toInt]
  cases fits (a.toInt * b.toInt) <;> rfl

theorem neg?_eq (a : Int64) :
    Word.neg? a = if a = Int64.minValue then none else some (-a) := by
  have ha := And.intro (Int64.le_toInt a) (Int64.toInt_lt a)
  have least : a = Int64.minValue ↔ a.toInt = -2 ^ 63 := by
    rw [← Int64.toInt_inj]
    rfl
  have fitting : fits (-a.toInt) = true ↔ a ≠ Int64.minValue := by
    rw [fits_iff, ne_eq, least]
    omega
  rw [neg?, ofInt?, Int64.ofInt_neg, Int64.ofInt_toInt]
  by_cases h : a = Int64.minValue
  · rw [if_pos h, if_neg (by rw [fitting]; exact fun ne => ne h)]
  · rw [if_neg h, if_pos (fitting.2 h)]

end WordForm

end RegisterVm
