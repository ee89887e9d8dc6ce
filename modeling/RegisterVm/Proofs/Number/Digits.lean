import Mathlib.Algebra.Order.Field.Power
import Mathlib.Algebra.Order.Field.Rat
import Mathlib.Tactic.Linarith
import Mathlib.Tactic.Ring
import RegisterVm.Number.Reading

/-!
# Digits and the place of the point

The number that digits write (`Reading.ofDigits`) has as many places as there are digits, unless the
first one is a zero (`ofDigits_lt`, `le_ofDigits`). `Reading.pointed ds p` is `0.ds * 10 ^ p`: zeros
at the end do not change it (`pointed_append_zeros`), zeros at the front move the point
(`pointed_zeros_append`), and among the powers of ten it stands where its point does
(`zpow_le_pointed_iff`). Positional notation writes it with digits on both sides of the point
(`Decimal.positional_parts`).
-/

namespace RegisterVm

namespace Reading

/-- A text of digits, at least one. -/
structure Digits (cs : List Char) : Prop where
  nonempty : cs ≠ []
  digit : ∀ c ∈ cs, c.isDigit = true

variable {ds : List Char}

theorem isDigit_of_mem_zeros {k : Nat} {c : Char} (hc : c ∈ List.replicate k '0') :
    c.isDigit = true := by
  rw [List.eq_of_mem_replicate hc]
  rfl

namespace Digits

theorem zero : Digits ['0'] := ⟨by simp, by simp⟩

theorem toDigits (n : Nat) : Digits (Nat.toDigits 10 n) :=
  ⟨Nat.toDigits_ne_nil, fun _ => Nat.isDigit_of_mem_toDigits (by decide) (by decide)⟩

theorem zeros_append (h : Digits ds) (k : Nat) : Digits (List.replicate k '0' ++ ds) := by
  refine ⟨by simp [h.nonempty], fun c hc => ?_⟩
  exact (List.mem_append.mp hc).elim isDigit_of_mem_zeros (h.digit c)

theorem append_zeros (h : Digits ds) (k : Nat) : Digits (ds ++ List.replicate k '0') := by
  refine ⟨by simp [h.nonempty], fun c hc => ?_⟩
  exact (List.mem_append.mp hc).elim (h.digit c) isDigit_of_mem_zeros

theorem not_mem (h : Digits ds) {c : Char} (other : c.isDigit = false) : c ∉ ds :=
  fun hc => by simp [h.digit c hc] at other

theorem head?_append_ne (h : Digits ds) {c : Char} (other : c.isDigit = false) (rest : List Char) :
    (ds ++ rest).head? ≠ some c := by
  obtain ⟨d, es, rfl⟩ := List.exists_cons_of_ne_nil h.nonempty
  exact fun same => h.not_mem other (Option.some.inj same ▸ List.mem_cons_self)

theorem take (h : Digits ds) {n : Nat} (pos : 0 < n) : Digits (ds.take n) := by
  refine ⟨fun none => ?_, fun c hc => h.digit c (List.mem_of_mem_take hc)⟩
  rcases List.take_eq_nil_iff.mp none with zero | none
  · omega
  · exact h.nonempty none

theorem drop (h : Digits ds) {n : Nat} (lt : n < ds.length) : Digits (ds.drop n) := by
  refine ⟨fun none => ?_, fun c hc => h.digit c (List.mem_of_mem_drop hc)⟩
  have := List.drop_eq_nil_iff.mp none
  omega

end Digits

/-! ## The number that is written -/

theorem ofDigits_toDigits (n : Nat) : ofDigits (Nat.toDigits 10 n) = n :=
  Nat.ofDigitChars_ten_toDigits

theorem ofDigits_append (ds es : List Char) :
    ofDigits (ds ++ es) = ofDigits ds * 10 ^ es.length + ofDigits es := by
  have split : ofDigits (ds ++ es) = Nat.ofDigitChars 10 es (ofDigits ds) :=
    Nat.ofDigitChars_append 0
  rw [split, Nat.ofDigitChars_eq_ofDigitChars_zero, Nat.mul_comm]
  rfl

theorem ofDigits_cons (c : Char) (ds : List Char) :
    ofDigits (c :: ds) = digitValue c * 10 ^ ds.length + ofDigits ds := by
  have single : ofDigits [c] = digitValue c := by simp [ofDigits]
  rw [← single]
  exact ofDigits_append [c] ds

theorem ofDigits_zeros (k : Nat) : ofDigits (List.replicate k '0') = 0 := by
  induction k with
  | zero => rfl
  | succ k ih =>
    rw [List.replicate_succ, ofDigits_cons, ih]
    simp [digitValue]

theorem digitValue_le {c : Char} (digit : c.isDigit = true) : digitValue c ≤ 9 := by
  have range : c.toNat ≤ 57 := by
    simp only [Char.isDigit, Bool.and_eq_true, decide_eq_true_eq, UInt32.le_iff_toNat_le] at digit
    exact digit.2
  have : digitValue c = c.toNat - 48 := rfl
  omega

theorem digitValue_pos {c : Char} (digit : c.isDigit = true) (nonzero : c ≠ '0') :
    1 ≤ digitValue c := by
  have range : 48 ≤ c.toNat := by
    simp only [Char.isDigit, Bool.and_eq_true, decide_eq_true_eq, ge_iff_le,
      UInt32.le_iff_toNat_le] at digit
    exact digit.1
  have other : c.toNat ≠ 48 := fun same => nonzero (Char.toNat_inj.mp same)
  have : digitValue c = c.toNat - 48 := rfl
  omega

/-- The number is less than ten to the number of its digits. -/
theorem ofDigits_lt (digit : ∀ c ∈ ds, c.isDigit = true) : ofDigits ds < 10 ^ ds.length := by
  induction ds with
  | nil => decide
  | cons c ds ih =>
    have rest := ih fun d hd => digit d (List.mem_cons_of_mem c hd)
    have first := Nat.mul_le_mul_right (10 ^ ds.length) (digitValue_le (digit c List.mem_cons_self))
    rw [ofDigits_cons, List.length_cons, Nat.pow_succ]
    omega

/-- The first of the digits counts when it is not zero. -/
theorem le_ofDigits (h : Digits ds) (leading : ds.head? ≠ some '0') :
    10 ^ (ds.length - 1) ≤ ofDigits ds := by
  obtain ⟨c, es, rfl⟩ := List.exists_cons_of_ne_nil h.nonempty
  have nonzero : c ≠ '0' := fun same => leading (congrArg some same)
  have first := Nat.mul_le_mul_right (10 ^ es.length)
    (digitValue_pos (h.digit c List.mem_cons_self) nonzero)
  rw [ofDigits_cons, List.length_cons, Nat.add_sub_cancel]
  omega

/-! ## The place of the point -/

/-- The number `0.ds * 10 ^ p`. -/
def pointed (ds : List Char) (p : ℤ) : ℚ := ofDigits ds * 10 ^ (p - ds.length)

theorem ten_zpow_add (a b : ℤ) : (10 : ℚ) ^ a * 10 ^ b = 10 ^ (a + b) :=
  (zpow_add₀ (by norm_num) a b).symm

theorem ten_pow_mul (n : Nat) (p : ℤ) : ((10 ^ n : Nat) : ℚ) * 10 ^ p = 10 ^ (n + p) := by
  rw [← ten_zpow_add, zpow_natCast, Nat.cast_pow]
  rfl

theorem pointed_zeros_append (k : Nat) (ds : List Char) (p : ℤ) :
    pointed (List.replicate k '0' ++ ds) p = pointed ds (p - k) := by
  have places : p - (List.replicate k '0' ++ ds).length = p - k - ds.length := by
    simp only [List.length_append, List.length_replicate, Nat.cast_add]
    omega
  rw [pointed, pointed, places, ofDigits_append, ofDigits_zeros, Nat.zero_mul, Nat.zero_add]

theorem pointed_append_zeros (ds : List Char) (k : Nat) (p : ℤ) :
    pointed (ds ++ List.replicate k '0') p = pointed ds p := by
  have places : (k : ℤ) + (p - (ds ++ List.replicate k '0').length) = p - ds.length := by
    simp only [List.length_append, List.length_replicate, Nat.cast_add]
    omega
  rw [pointed, pointed, ofDigits_append, ofDigits_zeros, Nat.add_zero, List.length_replicate,
    Nat.cast_mul, mul_assoc, ten_pow_mul, places]

theorem pointed_nonneg (ds : List Char) (p : ℤ) : 0 ≤ pointed ds p := by
  unfold pointed
  positivity

theorem pointed_lt (h : Digits ds) (p : ℤ) : pointed ds p < 10 ^ p := by
  have power : (0 : ℚ) < 10 ^ (p - ds.length) := by positivity
  have bound : (ofDigits ds : ℚ) < (10 ^ ds.length : Nat) := Nat.cast_lt.mpr (ofDigits_lt h.digit)
  calc pointed ds p < (10 ^ ds.length : Nat) * 10 ^ (p - ds.length) :=
        mul_lt_mul_of_pos_right bound power
    _ = 10 ^ p := by rw [ten_pow_mul, add_sub_cancel]

theorem le_pointed (h : Digits ds) (leading : ds.head? ≠ some '0') (p : ℤ) :
    10 ^ (p - 1) ≤ pointed ds p := by
  have power : (0 : ℚ) ≤ 10 ^ (p - ds.length) := by positivity
  have bound : ((10 ^ (ds.length - 1) : Nat) : ℚ) ≤ ofDigits ds :=
    Nat.cast_le.mpr (le_ofDigits h leading)
  have places : ((ds.length - 1 : Nat) : ℤ) + (p - ds.length) = p - 1 := by
    have := List.length_pos_iff.mpr h.nonempty
    omega
  calc (10 : ℚ) ^ (p - 1) = (10 ^ (ds.length - 1) : Nat) * 10 ^ (p - ds.length) := by
        rw [ten_pow_mul, places]
    _ ≤ pointed ds p := mul_le_mul_of_nonneg_right bound power

/-- **A number is at least a power of ten when its point is further to the right.** -/
theorem zpow_le_pointed_iff (h : Digits ds) (leading : ds.head? ≠ some '0') (a p : ℤ) :
    10 ^ a ≤ pointed ds p ↔ a < p := by
  constructor
  · intro le
    by_contra before
    have power : (10 : ℚ) ^ p ≤ 10 ^ a := zpow_le_zpow_right₀ (by norm_num) (by omega)
    exact absurd (pointed_lt h p) (not_lt.mpr (power.trans le))
  · intro lt
    have power : (10 : ℚ) ^ a ≤ 10 ^ (p - 1) := zpow_le_zpow_right₀ (by norm_num) (by omega)
    exact power.trans (le_pointed h leading p)

end Reading

/-! ## Positional notation -/

open Reading

/-- **Digits on both sides of the point**, which write the same number. -/
theorem Decimal.positional_parts {ds : List Char} (h : Digits ds) (p : ℤ) : ∃ whole fraction,
    positional ds p = whole ++ '.' :: fraction ∧ Digits whole ∧ Digits fraction ∧
      pointed (whole ++ fraction) whole.length = pointed ds p := by
  by_cases before : p ≤ 0
  · -- The point is in front of the digits, with zeros between.
    have zeros : ['0'] ++ (List.replicate (-p).toNat '0' ++ ds) =
        List.replicate ((-p).toNat + 1) '0' ++ ds := rfl
    have places : ((['0'] : List Char).length : ℤ) - ((-p).toNat + 1 : Nat) = p := by
      simp only [List.length_singleton, Nat.cast_add, Nat.cast_one]
      omega
    refine ⟨['0'], List.replicate (-p).toNat '0' ++ ds, if_pos before, .zero, h.zeros_append _, ?_⟩
    rw [zeros, pointed_zeros_append, places]
  · obtain ⟨n, pos, rfl⟩ : ∃ n : Nat, 0 < n ∧ p = n := ⟨p.toNat, by omega, by omega⟩
    by_cases inside : n < ds.length
    · -- It is among the digits.
      have some : (ds.drop n).isEmpty = false :=
        List.isEmpty_eq_false_iff.mpr (h.drop inside).nonempty
      refine ⟨ds.take n, ds.drop n, ?_, h.take pos, h.drop inside, ?_⟩
      · simp only [positional, before, if_false, Int.toNat_natCast, some, Bool.false_eq_true,
          Nat.sub_eq_zero_of_le inside.le, List.replicate_zero, List.append_nil]
      · rw [List.take_append_drop, List.length_take_of_le inside.le]
    · -- It is behind them, with zeros between and one after it.
      have beyond : ds.length ≤ n := by omega
      have length : (ds ++ List.replicate (n - ds.length) '0').length = n := by
        simp only [List.length_append, List.length_replicate]
        omega
      refine ⟨ds ++ List.replicate (n - ds.length) '0', ['0'], ?_, h.append_zeros _, .zero, ?_⟩
      · simp only [positional, before, if_false, Int.toNat_natCast, List.take_of_length_le beyond,
          List.drop_eq_nil_iff.mpr beyond, List.isEmpty_nil, if_true]
      · rw [length, show (['0'] : List Char) = List.replicate 1 '0' from rfl, List.append_assoc,
          List.replicate_append_replicate, pointed_append_zeros]

end RegisterVm
