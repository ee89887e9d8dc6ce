import RegisterVm.Proofs.Number.Integer

/-!
# How long results are

The length of an integer is the number of binary digits of its magnitude. Products, powers and
shifts to the left are refused when the lengths of the operands do not promise a result of at most
`maxBits` digits. The other operators are not refused for their length: quotients, remainders,
disjunctions and shifts to the right are no longer than an operand; sums, differences, conjunctions
and exclusive disjunctions may be longer by one digit, their `BinaryOperator.carry`
(`Integer.length_binary_le`).
-/

namespace RegisterVm

namespace Bits

variable {x y : Int} {k : Nat}

theorem length_le_of_natAbs_le (h : x.natAbs ≤ y.natAbs) (hy : length y ≤ k) : length x ≤ k := by
  rw [length_le_iff] at hy ⊢
  exact Nat.lt_of_le_of_lt h hy

theorem natAbs_lt_length (x : Int) : x.natAbs < 2 ^ length x :=
  (length_le_iff x _).mp (Nat.le_refl _)

/-! ## Sums and products -/

theorem length_add_le (hx : length x ≤ k) (hy : length y ≤ k) : length (x + y) ≤ k + 1 := by
  rw [length_le_iff] at hx hy ⊢
  have sum := Int.natAbs_add_le x y
  rw [Nat.pow_succ]
  omega

theorem length_neg (x : Int) : length (-x) = length x := by
  simp only [length, Int.neg_eq_zero, Int.natAbs_neg]

theorem length_sub_le (hx : length x ≤ k) (hy : length y ≤ k) : length (x - y) ≤ k + 1 := by
  rw [← length_neg] at hy
  exact length_add_le hx hy

theorem length_mul_le (x y : Int) : length (x * y) ≤ length x + length y := by
  rw [length_le_iff, Int.natAbs_mul, Nat.pow_add]
  exact Nat.mul_lt_mul'' (natAbs_lt_length x) (natAbs_lt_length y)

theorem length_pow_le (x : Int) {n : Nat} (hn : n ≠ 0) : length (x ^ n) ≤ length x * n := by
  rw [length_le_iff, Int.natAbs_pow, Nat.pow_mul]
  exact Nat.pow_lt_pow_left (natAbs_lt_length x) hn

theorem length_shiftLeft_le (x : Int) (n : Nat) : length (x * 2 ^ n) ≤ length x + n := by
  rw [length_le_iff, Int.natAbs_mul, Int.natAbs_pow, Nat.pow_add]
  exact Nat.mul_lt_mul_of_pos_right (natAbs_lt_length x) (Nat.two_pow_pos n)

/-! ## Remainders and quotients -/

theorem natAbs_fmod_le (x : Int) (hy : y ≠ 0) : (x.fmod y).natAbs ≤ y.natAbs := by
  rcases Int.lt_or_gt_of_ne hy with negative | positive
  · have := Integer.fmod_of_neg x negative
    omega
  · have := Int.fmod_nonneg_of_pos x positive
    have := Int.fmod_lt_of_pos x positive
    omega

theorem natAbs_shiftRight_le (x : Int) (n : Nat) : (x >>> n).natAbs ≤ x.natAbs := by
  rw [Int.shiftRight_eq_div_pow]
  exact Int.natAbs_ediv_le_natAbs x _

/-! ## Bits -/

theorem without_le (m n : Nat) : without m n ≤ m := by
  have part : without m n = m &&& without m n := by
    refine Nat.eq_of_testBit_eq fun i => ?_
    rw [Nat.testBit_and, testBit_without, ← Bool.and_assoc, Bool.and_self]
  exact part ▸ Nat.and_le_left

theorem length_negSucc_mono {m n : Nat} (le : m ≤ n) (h : length (.negSucc n) ≤ k) :
    length (.negSucc m) ≤ k :=
  length_le_of_natAbs_le (y := .negSucc n) (Nat.succ_le_succ le) h

theorem length_or_le (hx : length x ≤ k) (hy : length y ≤ k) : length (or x y) ≤ k := by
  cases x with
  | ofNat m =>
    cases y with
    | ofNat n =>
      rw [length_le_iff] at hx hy ⊢
      exact Nat.or_lt_two_pow hx hy
    | negSucc n => exact length_negSucc_mono (without_le n m) hy
  | negSucc m =>
    cases y with
    | ofNat n => exact length_negSucc_mono (without_le m n) hx
    | negSucc n => exact length_negSucc_mono Nat.and_le_left hx

/-- The magnitude of a negative result is one more than its inverted bits say. -/
theorem length_negSucc_le {n : Nat} (h : n < 2 ^ k) : length (.negSucc n) ≤ k + 1 := by
  rw [length_le_iff, Int.natAbs_negSucc, Nat.pow_succ]
  omega

theorem length_and_le (hx : length x ≤ k) (hy : length y ≤ k) : length (and x y) ≤ k + 1 := by
  rw [length_le_iff] at hx hy
  cases x with
  | ofNat m =>
    have shorter : ∀ n ≤ m, length (.ofNat n) ≤ k + 1 := fun n le =>
      Nat.le_succ_of_le ((length_le_iff _ _).mpr (Nat.lt_of_le_of_lt le hx))
    cases y with
    | ofNat n => exact shorter _ Nat.and_le_left
    | negSucc n => exact shorter _ (without_le m n)
  | negSucc m =>
    cases y with
    | ofNat n =>
      exact Nat.le_succ_of_le ((length_le_iff _ _).mpr (Nat.lt_of_le_of_lt (without_le n m) hy))
    | negSucc n =>
      exact length_negSucc_le (Nat.or_lt_two_pow (Nat.lt_of_succ_lt hx) (Nat.lt_of_succ_lt hy))

theorem length_xor_le (hx : length x ≤ k) (hy : length y ≤ k) : length (xor x y) ≤ k + 1 := by
  rw [length_le_iff] at hx hy
  cases x with
  | ofNat m =>
    cases y with
    | ofNat n => exact Nat.le_succ_of_le ((length_le_iff _ _).mpr (Nat.xor_lt_two_pow hx hy))
    | negSucc n => exact length_negSucc_le (Nat.xor_lt_two_pow hx (Nat.lt_of_succ_lt hy))
  | negSucc m =>
    cases y with
    | ofNat n => exact length_negSucc_le (Nat.xor_lt_two_pow (Nat.lt_of_succ_lt hx) hy)
    | negSucc n =>
      exact Nat.le_succ_of_le ((length_le_iff _ _).mpr
        (Nat.xor_lt_two_pow (Nat.lt_of_succ_lt hx) (Nat.lt_of_succ_lt hy)))

theorem length_not_le (hx : length x ≤ k) : length (not x) ≤ k + 1 := by
  rw [length_le_iff] at hx
  cases x with
  | ofNat m => exact length_negSucc_le hx
  | negSucc m =>
    exact Nat.le_succ_of_le ((length_le_iff _ _).mpr (Nat.lt_of_succ_lt hx))

end Bits

/-! ## Operators -/

/-- By how many bits a result may be longer than the operands without being refused. -/
def BinaryOperator.carry : BinaryOperator → Nat
  | add | sub | bitAnd | bitXor => 1
  | _ => 0

namespace Integer

variable {x y r : Int}

theorem length_multiply_le (answer : multiply x y = .ok (.int r)) : Bits.length r ≤ maxBits := by
  unfold multiply at answer
  split at answer
  · cases answer
  · rename_i short
    cases answer
    exact (Bits.length_mul_le x y).trans (Nat.not_lt.mp short)

theorem length_power_le (answer : power x y = .ok (.int r)) : Bits.length r ≤ maxBits := by
  have one : Bits.length 1 ≤ maxBits := by decide
  unfold power at answer
  split at answer
  · split at answer <;> cases answer
  · split at answer
    · cases answer
      exact one
    · split at answer
      · rename_i small
        cases answer
        split
        · exact one
        · exact small.trans (by decide)
      · split at answer
        · cases answer
        · rename_i short
          cases answer
          exact (Bits.length_pow_le x (by omega)).trans (Nat.not_lt.mp short)

theorem length_shiftLeft_le (answer : shiftLeft x y = .ok (.int r)) :
    Bits.length r ≤ maxBits := by
  unfold shiftLeft at answer
  split at answer
  · cases answer
  · split at answer
    · cases answer
      decide
    · split at answer
      · cases answer
      · rename_i short
        cases answer
        exact (Bits.length_shiftLeft_le x y.toNat).trans (Nat.not_lt.mp short)

theorem natAbs_shiftRight_le (answer : shiftRight x y = .ok (.int r)) : r.natAbs ≤ x.natAbs := by
  by_cases back : y < 0
  · rw [shiftRight, if_pos back] at answer
    cases answer
  · rw [shiftRight_eq (by omega)] at answer
    cases answer
    exact Bits.natAbs_shiftRight_le x y.toNat

/-- **How long a result is**: as long as the operands may be, but for the carry of the operator. -/
theorem length_binary_le {op : BinaryOperator} {k : Nat} (limit : maxBits ≤ k)
    (hx : Bits.length x ≤ k) (hy : Bits.length y ≤ k) (answer : binary op x y = .ok (.int r)) :
    Bits.length r ≤ k + op.carry := by
  cases op with
  | add => cases answer; exact Bits.length_add_le hx hy
  | sub => cases answer; exact Bits.length_sub_le hx hy
  | bitAnd => cases answer; exact Bits.length_and_le hx hy
  | bitOr => cases answer; exact Bits.length_or_le hx hy
  | bitXor => cases answer; exact Bits.length_xor_le hx hy
  | mul => exact (length_multiply_le answer).trans limit
  | pow => exact (length_power_le answer).trans limit
  | shl => exact (length_shiftLeft_le answer).trans limit
  | shr => exact Bits.length_le_of_natAbs_le (natAbs_shiftRight_le answer) hx
  | div =>
    simp only [binary, divide] at answer
    split at answer <;> cases answer
  | floorDiv =>
    simp only [binary] at answer
    split at answer <;> cases answer
    exact Bits.length_le_of_natAbs_le (Int.natAbs_fdiv_le_natAbs x y) hx
  | mod =>
    simp only [binary] at answer
    split at answer
    · cases answer
    · rename_i nonzero
      cases answer
      exact Bits.length_le_of_natAbs_le (Bits.natAbs_fmod_le x nonzero) hy

/-- An operator that is refused for results that would be too long. -/
def Limited (op : BinaryOperator) (y : Int) : Prop :=
  op = .mul ∨ (op = .pow ∨ op = .shl) ∧ 0 ≤ y

theorem length_limited_le {op : BinaryOperator} (limited : Limited op y)
    (answer : binary op x y = .ok (.int r)) : Bits.length r ≤ maxBits := by
  rcases limited with rfl | ⟨rfl | rfl, -⟩
  · exact length_multiply_le answer
  · exact length_power_le answer
  · exact length_shiftLeft_le answer

/-- A limited operator has one exact result. -/
theorem Limited.exact_unique {op : BinaryOperator} (limited : Limited op y) {r' : Int}
    (exact : op.Exact x y r) (exact' : op.Exact x y r') : r = r' := by
  rcases limited with rfl | ⟨rfl | rfl, -⟩ <;> exact Eq.trans exact exact'.symm

theorem Limited.integral {op : BinaryOperator} (limited : Limited op y) : op ≠ .div := by
  rcases limited with rfl | ⟨rfl | rfl, -⟩ <;> nofun

theorem Limited.natural {op : BinaryOperator} (limited : Limited op y) (pow : op = .pow) :
    0 ≤ y := by
  rcases limited with rfl | ⟨-, natural⟩
  · cases pow
  · exact natural

theorem Limited.not_bitwise {op : BinaryOperator} (limited : Limited op y) : ¬op.Bitwise := by
  rintro (rfl | rfl | rfl) <;> rcases limited with same | ⟨same | same, -⟩ <;> cases same

/-- **What would be too long is refused** by products, powers and shifts to the left. -/
theorem Limited.refuses {op : BinaryOperator} (limited : Limited op y) (exact : op.Exact x y r)
    (long : maxBits < Bits.length r) :
    ∃ fault, binary op x y = .error fault ∧ fault.kind = .valueError ∧
      fault.message = "integer result too large" := by
  rcases binary_spec (x := x) limited.integral limited.natural with
    ⟨r', answer, exact', -⟩ | ⟨fault, answer, refuses⟩
  · have short := length_limited_le limited answer
    rw [← limited.exact_unique exact exact'] at short
    exact absurd long (Nat.not_lt.mpr short)
  · refine ⟨fault, answer, ?_⟩
    cases refuses with
    | zero divides =>
      rcases limited with rfl | ⟨rfl | rfl, -⟩ <;> rcases divides.1 with same | same <;> cases same
    | negative shifts =>
      rcases limited with rfl | ⟨-, natural⟩
      · rcases shifts.1 with same | same <;> cases same
      · exact absurd shifts.2 (Int.not_lt.mpr natural)
    | large _ _ kind message => exact ⟨kind, message⟩

end Integer

end RegisterVm
