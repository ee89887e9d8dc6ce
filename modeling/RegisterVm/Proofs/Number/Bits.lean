import Mathlib.Data.Int.Bitwise
import RegisterVm.Number.Bits

/-!
# Integers as infinite words

An integer is determined by its bits in two's complement (`Bits.eq_of_testBit_eq`), and the bits of
a word are those of its integer (`Bits.testBit_toInt`). So the bitwise operations on words are those
on integers (`Bits.toInt_and`, `Bits.toInt_or`, `Bits.toInt_xor`, `Bits.toInt_not`). The length of
an integer is the least width of a magnitude that holds it (`Bits.length_le_iff`).
-/

namespace RegisterVm.Bits

/-! ## Bits of results -/

theorem testBit_without (m n i : Nat) :
    (without m n).testBit i = (m.testBit i && !n.testBit i) := by
  rw [without, Nat.testBit_xor, Nat.testBit_and]
  cases m.testBit i <;> cases n.testBit i <;> rfl

theorem testBit_and (x y : Int) (i : Nat) :
    (and x y).testBit i = (x.testBit i && y.testBit i) := by
  cases x <;> cases y <;> simp only [and, Int.testBit, testBit_without, Nat.testBit_and,
    Nat.testBit_or, Bool.not_or, Bool.and_comm]

theorem testBit_or (x y : Int) (i : Nat) :
    (or x y).testBit i = (x.testBit i || y.testBit i) := by
  cases x <;> cases y <;> simp only [or, Int.testBit, testBit_without, Nat.testBit_and,
    Nat.testBit_or, Bool.not_and, Bool.not_not, Bool.or_comm]

theorem testBit_xor (x y : Int) (i : Nat) :
    (xor x y).testBit i = (x.testBit i ^^ y.testBit i) := by
  cases x <;> cases y <;> simp only [xor, Int.testBit, Nat.testBit_xor, Bool.not_xor,
    Bool.xor_not, Bool.not_not]

theorem testBit_not (x : Int) (i : Nat) : (not x).testBit i = !x.testBit i := by
  cases x <;> simp only [not, Int.testBit, Bool.not_not]

/-! ## Extensionality -/

/-- Beyond all its binary digits an integer has bits like its sign. -/
theorem testBit_beyond (m : Nat) {i : Nat} (h : m ≤ i) : m.testBit i = false :=
  Nat.testBit_lt_two_pow
    (Nat.lt_of_lt_of_le Nat.lt_two_pow_self (Nat.pow_le_pow_right Nat.zero_lt_two h))

/-- **An integer is determined by its bits.** -/
theorem eq_of_testBit_eq {x y : Int} (h : ∀ i, x.testBit i = y.testBit i) : x = y := by
  cases x with
  | ofNat m =>
    cases y with
    | ofNat n => exact congrArg Int.ofNat (Nat.eq_of_testBit_eq h)
    | negSucc n =>
      have far := h (m + n)
      simp only [Int.testBit, testBit_beyond m (Nat.le_add_right m n),
        testBit_beyond n (Nat.le_add_left n m)] at far
      cases far
  | negSucc m =>
    cases y with
    | ofNat n =>
      have far := h (m + n)
      simp only [Int.testBit, testBit_beyond m (Nat.le_add_right m n),
        testBit_beyond n (Nat.le_add_left n m)] at far
      cases far
    | negSucc n =>
      exact congrArg Int.negSucc (Nat.eq_of_testBit_eq fun i => Bool.not_inj (h i))

/-! ## Words -/

/-- The bits of a word as an integer: its own, then its sign for ever. -/
theorem testBit_toInt {w : Nat} (a : BitVec w) (i : Nat) :
    a.toInt.testBit i = if i < w then a.getLsbD i else a.msb := by
  have bound := a.isLt
  rw [BitVec.toInt_eq_msb_cond]
  cases sign : a.msb with
  | false =>
    change a.toNat.testBit i = if i < w then a.getLsbD i else false
    rw [BitVec.testBit_toNat]
    split
    · rfl
    · exact BitVec.getLsbD_of_ge a i (by omega)
  | true =>
    have negative : (a.toNat : Int) - (2 ^ w : Nat) = .negSucc (2 ^ w - (a.toNat + 1)) := by
      rw [Int.negSucc_eq]
      omega
    simp only [if_true]
    rw [negative, Int.testBit, Nat.testBit_two_pow_sub_succ bound, BitVec.testBit_toNat]
    split <;> rename_i inside <;> simp [inside]

theorem toInt_and (a b : Int64) : (a &&& b).toInt = and a.toInt b.toInt :=
  eq_of_testBit_eq fun i => by
    rw [testBit_and, ← Int64.toInt_toBitVec, ← Int64.toInt_toBitVec, ← Int64.toInt_toBitVec,
      testBit_toInt, testBit_toInt, testBit_toInt, Int64.toBitVec_and, BitVec.getLsbD_and,
      BitVec.msb_and]
    split <;> rfl

theorem toInt_or (a b : Int64) : (a ||| b).toInt = or a.toInt b.toInt :=
  eq_of_testBit_eq fun i => by
    rw [testBit_or, ← Int64.toInt_toBitVec, ← Int64.toInt_toBitVec, ← Int64.toInt_toBitVec,
      testBit_toInt, testBit_toInt, testBit_toInt, Int64.toBitVec_or, BitVec.getLsbD_or,
      BitVec.msb_or]
    split <;> rfl

theorem toInt_xor (a b : Int64) : (a ^^^ b).toInt = xor a.toInt b.toInt :=
  eq_of_testBit_eq fun i => by
    rw [testBit_xor, ← Int64.toInt_toBitVec, ← Int64.toInt_toBitVec, ← Int64.toInt_toBitVec,
      testBit_toInt, testBit_toInt, testBit_toInt, Int64.toBitVec_xor, BitVec.getLsbD_xor,
      BitVec.msb_xor]
    split <;> rfl

theorem toInt_not (a : Int64) : (~~~a).toInt = not a.toInt :=
  eq_of_testBit_eq fun i => by
    rw [testBit_not, ← Int64.toInt_toBitVec, ← Int64.toInt_toBitVec, testBit_toInt, testBit_toInt,
      Int64.toBitVec_not, BitVec.getLsbD_not, BitVec.msb_not]
    split <;> rename_i inside
    · simp [inside]
    · simp

/-! ## Lengths -/

theorem length_le_iff (x : Int) (k : Nat) : length x ≤ k ↔ x.natAbs < 2 ^ k := by
  unfold length
  split
  · rename_i zero
    exact iff_of_true (Nat.zero_le k) (by rw [zero]; exact Nat.two_pow_pos k)
  · rename_i nonzero
    rw [Nat.succ_le_iff, Nat.log2_lt (by omega)]

end RegisterVm.Bits
