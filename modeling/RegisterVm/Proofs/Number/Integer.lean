import Mathlib
import RegisterVm.Heap.Arithmetic
import RegisterVm.Proofs.Number.Bits

/-!
# Exact integer arithmetic

`BinaryOperator.Exact` says what the result of an operator on integers is, in terms of rational
quotients, powers and bits. Arithmetic on integers of any size has that result or refuses
(`Integer.binary_spec`), and arithmetic on words gives the same wherever it has an answer
(`Primitive.agrees_binary`).
-/

namespace RegisterVm

/-! ## Results -/

namespace BinaryOperator

/-- `r` is the exact result of an operator on `x` and `y`. The remainder has the sign of the
divisor, and bits are those of infinite words. -/
def Exact (op : BinaryOperator) (x y r : Int) : Prop :=
  match op with
  | add => r = x + y
  | sub => r = x - y
  | mul => r = x * y
  | div => False
  | floorDiv => r = ⌊(x / y : ℚ)⌋
  | mod => r = x - ⌊(x / y : ℚ)⌋ * y ∧ (0 < y → 0 ≤ r ∧ r < y) ∧ (y < 0 → y < r ∧ r ≤ 0)
  | pow => r = x ^ y.toNat
  | bitAnd => ∀ i, r.testBit i = (x.testBit i && y.testBit i)
  | bitOr => ∀ i, r.testBit i = (x.testBit i || y.testBit i)
  | bitXor => ∀ i, r.testBit i = (x.testBit i ^^ y.testBit i)
  | shl => r = x * 2 ^ y.toNat
  | shr => r = ⌊(x / 2 ^ y.toNat : ℚ)⌋

/-- Division with the divisor zero. -/
def DividesByZero (op : BinaryOperator) (y : Int) : Prop := (op = floorDiv ∨ op = mod) ∧ y = 0

/-- A shift by a negative count. -/
def ShiftsBack (op : BinaryOperator) (y : Int) : Prop := (op = shl ∨ op = shr) ∧ y < 0

/-- An operator that keeps two truth values truth values. -/
def Bitwise (op : BinaryOperator) : Prop := op = bitAnd ∨ op = bitOr ∨ op = bitXor

/-- The faults of an operator on integers. -/
inductive Refuses (op : BinaryOperator) (y : Int) : Fault → Prop
  | zero {fault : Fault} : op.DividesByZero y → fault.kind = .divisionByZero → Refuses op y fault
  | negative {fault : Fault} : op.ShiftsBack y → fault.kind = .valueError →
    fault.message = "negative shift count" → Refuses op y fault
  | large {fault : Fault} : op = mul ∨ op = pow ∨ op = shl → ¬op.ShiftsBack y →
    fault.kind = .valueError → fault.message = "integer result too large" → Refuses op y fault

end BinaryOperator

namespace Integer

/-- The remainder by a negative divisor. -/
theorem fmod_of_neg (x : Int) {y : Int} (hy : y < 0) : y < x.fmod y ∧ x.fmod y ≤ 0 := by
  have low := Int.emod_nonneg x hy.ne
  have high := Int.emod_lt_of_neg x hy
  rw [Int.fmod_eq_emod]
  split
  · rename_i divides
    have := Int.emod_eq_zero_of_dvd (divides.resolve_left (by omega))
    omega
  · rename_i divides
    have : x % y ≠ 0 := fun zero => divides (.inr (Int.dvd_of_emod_eq_zero zero))
    omega

theorem fdiv_eq_floor (x : Int) {y : Int} (hy : y ≠ 0) : x.fdiv y = ⌊(x / y : ℚ)⌋ := by
  have division : ((x.fdiv y : Int) : ℚ) * y + (x.fmod y : Int) = x := by
    exact_mod_cast Int.fdiv_mul_add_fmod x y
  refine (Int.floor_eq_iff.mpr ?_).symm
  rcases lt_or_gt_of_ne hy with negative | positive
  · have divisor : (y : ℚ) < 0 := by exact_mod_cast negative
    have small : ((x.fmod y : Int) : ℚ) ≤ 0 := by exact_mod_cast (fmod_of_neg x negative).2
    have large : (y : ℚ) < (x.fmod y : Int) := by exact_mod_cast (fmod_of_neg x negative).1
    rw [le_div_iff_of_neg divisor, div_lt_iff_of_neg divisor]
    constructor <;> linarith
  · have divisor : (0 : ℚ) < y := by exact_mod_cast positive
    have small : (0 : ℚ) ≤ (x.fmod y : Int) := by exact_mod_cast Int.fmod_nonneg_of_pos x positive
    have large : ((x.fmod y : Int) : ℚ) < y := by exact_mod_cast Int.fmod_lt_of_pos x positive
    rw [le_div_iff₀ divisor, div_lt_iff₀ divisor]
    constructor <;> linarith

theorem fmod_exact (x : Int) {y : Int} (hy : y ≠ 0) : BinaryOperator.mod.Exact x y (x.fmod y) := by
  refine ⟨?_, fun positive => ⟨Int.fmod_nonneg_of_pos x positive, Int.fmod_lt_of_pos x positive⟩,
    fun negative => fmod_of_neg x negative⟩
  have division := Int.fdiv_mul_add_fmod x y
  rw [← fdiv_eq_floor x hy]
  omega

theorem shiftRight_eq_floor (x : Int) (n : Nat) : x >>> n = ⌊(x / 2 ^ n : ℚ)⌋ := by
  have power : ((2 ^ n : Nat) : ℚ) = 2 ^ n := by push_cast; rfl
  rw [Int.shiftRight_eq_div_pow, ← power, Rat.floor_intCast_div_natCast]

/-- A shift by the length or more leaves the sign. -/
theorem shiftRight_beyond {x : Int} {n : Nat} (h : Bits.length x ≤ n) :
    x >>> n = if x < 0 then -1 else 0 := by
  rw [Bits.length_le_iff] at h
  rw [Int.shiftRight_eq_div_pow]
  have power : (0 : Int) < (2 ^ n : Nat) := by exact_mod_cast Nat.two_pow_pos n
  split
  · rw [Int.ediv_eq_iff_of_pos power]
    omega
  · exact Int.ediv_eq_zero_of_lt (by omega) (by omega)

/-- Powers of 0, 1 and -1. -/
theorem pow_of_length {x : Int} (h : Bits.length x ≤ 1) {n : Nat} (hn : n ≠ 0) :
    x ^ n = if x < 0 ∧ n % 2 = 0 then 1 else x := by
  rw [Bits.length_le_iff] at h
  obtain rfl | rfl | rfl : x = 0 ∨ x = 1 ∨ x = -1 := by omega
  · simp [hn]
  · simp
  · rcases Nat.even_or_odd n with even | odd
    · simp [even.neg_one_pow, Nat.even_iff.mp even]
    · simp [odd.neg_one_pow, Nat.odd_iff.mp odd]

theorem power_of_small {x y : Int} (hy : 0 ≤ y) (small : Bits.length x ≤ 1) :
    power x y = .ok (.int (x ^ y.toNat)) := by
  unfold power
  rw [if_neg (by omega)]
  split
  · rename_i zero
    simp [zero]
  · rename_i nonzero
    have parity : y.toNat % 2 = 0 ↔ y % 2 = 0 := by omega
    rw [pow_of_length small (by omega)]
    simp only [Bool.and_eq_true, decide_eq_true_eq, parity]

/-- A power that is not too long. -/
theorem power_of_bounded {x y : Int} (hy : 0 ≤ y) (bounded : Bits.length x * y.toNat ≤ maxBits) :
    power x y = .ok (.int (x ^ y.toNat)) := by
  by_cases small : Bits.length x ≤ 1
  · exact power_of_small hy small
  · unfold power
    rw [if_neg (by omega)]
    split
    · rename_i zero
      simp [zero]
    · rw [if_neg (by omega)]
      rfl

theorem shiftLeft_of_bounded {x y : Int} (hy : 0 ≤ y)
    (bounded : Bits.length x + y.toNat ≤ maxBits) :
    shiftLeft x y = .ok (.int (x * 2 ^ y.toNat)) := by
  unfold shiftLeft
  rw [if_neg (by omega)]
  split
  · rename_i zero
    simp [zero]
  · rw [if_neg (by omega)]
    rfl

theorem shiftRight_eq {x y : Int} (hy : 0 ≤ y) :
    shiftRight x y = .ok (.int (x >>> y.toNat)) := by
  unfold shiftRight
  rw [if_neg (by omega)]
  split
  · rename_i beyond
    rw [shiftRight_beyond (x := x) (n := y.toNat) (by omega)]
  · rfl

/-- **What an operator gives on integers**: the exact result, or a fault. -/
theorem binary_spec {op : BinaryOperator} {x y : Int} (integral : op ≠ .div)
    (natural : op = .pow → 0 ≤ y) :
    (∃ r, binary op x y = .ok (.int r) ∧ op.Exact x y r ∧ ¬op.DividesByZero y ∧
      ¬op.ShiftsBack y) ∨
    ∃ fault, binary op x y = .error fault ∧ op.Refuses y fault := by
  have undivided : ∀ {op : BinaryOperator}, op ≠ .floorDiv → op ≠ .mod → ¬op.DividesByZero y :=
    fun first second h => h.1.elim first second
  have unshifted : ∀ {op : BinaryOperator}, op ≠ .shl → op ≠ .shr → ¬op.ShiftsBack y :=
    fun first second h => h.1.elim first second
  cases op with
  | div => exact absurd rfl integral
  | add => exact .inl ⟨_, rfl, rfl, undivided nofun nofun, unshifted nofun nofun⟩
  | sub => exact .inl ⟨_, rfl, rfl, undivided nofun nofun, unshifted nofun nofun⟩
  | bitAnd =>
    exact .inl ⟨_, rfl, Bits.testBit_and x y, undivided nofun nofun, unshifted nofun nofun⟩
  | bitOr => exact .inl ⟨_, rfl, Bits.testBit_or x y, undivided nofun nofun, unshifted nofun nofun⟩
  | bitXor =>
    exact .inl ⟨_, rfl, Bits.testBit_xor x y, undivided nofun nofun, unshifted nofun nofun⟩
  | mul =>
    simp only [binary, multiply]
    split
    · exact .inr ⟨_, rfl, .large (.inl rfl) (unshifted nofun nofun) rfl rfl⟩
    · exact .inl ⟨_, rfl, rfl, undivided nofun nofun, unshifted nofun nofun⟩
  | floorDiv =>
    simp only [binary]
    split
    · rename_i zero
      exact .inr ⟨_, rfl, .zero ⟨.inl rfl, zero⟩ rfl⟩
    · rename_i nonzero
      exact .inl ⟨_, rfl, fdiv_eq_floor x nonzero, fun h => nonzero h.2, unshifted nofun nofun⟩
  | mod =>
    simp only [binary]
    split
    · rename_i zero
      exact .inr ⟨_, rfl, .zero ⟨.inr rfl, zero⟩ rfl⟩
    · rename_i nonzero
      exact .inl ⟨_, rfl, fmod_exact x nonzero, fun h => nonzero h.2, unshifted nofun nofun⟩
  | pow =>
    have exponent := natural rfl
    by_cases bounded : Bits.length x ≤ 1 ∨ Bits.length x * y.toNat ≤ maxBits
    · refine .inl ⟨_, ?_, rfl, undivided nofun nofun, unshifted nofun nofun⟩
      exact bounded.elim (power_of_small exponent) (power_of_bounded exponent)
    · obtain ⟨large, long⟩ := not_or.mp bounded
      have nonzero : y ≠ 0 := by
        rintro rfl
        exact long (by simp)
      refine .inr ⟨.integerTooLarge, ?_, .large (.inr (.inl rfl)) (unshifted nofun nofun) rfl
        rfl⟩
      simp only [binary, power]
      rw [if_neg (by omega), if_neg nonzero, if_neg large, if_pos (by omega)]
  | shl =>
    by_cases back : y < 0
    · refine .inr ⟨.negativeShift, ?_, .negative ⟨.inl rfl, back⟩ rfl rfl⟩
      simp only [binary, shiftLeft, if_pos back]
    · have forward : ¬BinaryOperator.shl.ShiftsBack y := fun h => back h.2
      by_cases bounded : x = 0 ∨ Bits.length x + y.toNat ≤ maxBits
      · refine .inl ⟨_, ?_, rfl, undivided nofun nofun, forward⟩
        rcases bounded with zero | bounded
        · simp [binary, shiftLeft, if_neg back, zero]
        · exact shiftLeft_of_bounded (by omega) bounded
      · obtain ⟨nonzero, long⟩ := not_or.mp bounded
        refine .inr ⟨.integerTooLarge, ?_, .large (.inr (.inr rfl)) forward rfl rfl⟩
        simp only [binary, shiftLeft]
        rw [if_neg back, if_neg nonzero, if_pos (by omega)]
  | shr =>
    by_cases back : y < 0
    · refine .inr ⟨.negativeShift, ?_, .negative ⟨.inr rfl, back⟩ rfl rfl⟩
      simp only [binary, shiftRight, if_pos back]
    · exact .inl ⟨_, shiftRight_eq (by omega), shiftRight_eq_floor x y.toNat,
        undivided nofun nofun, fun h => back h.2⟩

end Integer

/-! ## Words -/

namespace Word

theorem length_le (i : Int64) : Bits.length i.toInt ≤ 64 := by
  have low := Int64.le_toInt i
  have high := Int64.toInt_lt i
  rw [Bits.length_le_iff]
  omega

theorem ofInt?_of_fits {n : Int} (h : fits n = true) : ofInt? n = some (Int64.ofInt n) := by
  rw [ofInt?, if_pos h]

/-- The remainder of words is a word. -/
theorem fits_fmod (i j : Int64) (hj : j ≠ 0) : fits (i.toInt.fmod j.toInt) = true := by
  have low := Int64.le_toInt j
  have high := Int64.toInt_lt j
  have nonzero : j.toInt ≠ 0 := fun zero => hj (Int64.toInt_inj.mp zero)
  simp only [fits, Bool.and_eq_true, decide_eq_true_eq]
  rcases lt_or_gt_of_ne nonzero with negative | positive
  · have := Integer.fmod_of_neg i.toInt negative
    omega
  · have := Int.fmod_nonneg_of_pos i.toInt positive
    have := Int.fmod_lt_of_pos i.toInt positive
    omega

/-- A power of a word, where there is one, is the exact power. -/
theorem pow?_eq {i w : Int64} {n : Nat} (h : pow? i n = some w) :
    (Bits.length i.toInt ≤ 1 ∨ n < 64) ∧ w.toInt = i.toInt ^ n := by
  have zero : (0 : Int64).toInt = 0 := rfl
  have one : (1 : Int64).toInt = 1 := rfl
  have minusOne : (-1 : Int64).toInt = -1 := rfl
  unfold pow? at h
  split at h
  · rename_i small
    simp only [Bool.or_eq_true, decide_eq_true_eq] at small
    cases h
    rcases small with rfl | rfl
    · refine ⟨.inl (by rw [zero]; decide), ?_⟩
      split <;> rename_i exponent <;> simp [exponent, zero, one]
    · refine ⟨.inl (by rw [one]; decide), ?_⟩
      split <;> simp [one]
  · split at h
    · rename_i negative
      cases h
      obtain rfl := negative
      refine ⟨.inl (by rw [minusOne]; decide), ?_⟩
      rw [minusOne]
      split <;> rename_i parity
      · rw [(Nat.even_iff.mpr parity).neg_one_pow, one]
      · rw [(Nat.odd_iff.mpr (by omega)).neg_one_pow, minusOne]
    · split at h
      · cases h
      · exact ⟨.inr (by omega), toInt_of_ofInt? h⟩

/-- A shifted word, where there is one, is the exact product. -/
theorem shiftLeft?_eq {i w : Int64} {n : Nat} (h : shiftLeft? i n = some w) :
    (i.toInt = 0 ∨ n < 64) ∧ w.toInt = i.toInt * 2 ^ n := by
  unfold shiftLeft? at h
  split at h
  · rename_i zero
    cases h
    subst zero
    exact ⟨.inl rfl, by simp⟩
  · split at h
    · cases h
    · exact ⟨.inr (by omega), toInt_of_ofInt? h⟩

theorem toInt_shiftRight (i : Int64) (n : Nat) : (shiftRight i n).toInt = i.toInt >>> n := by
  have low := Int64.le_toInt i
  have high := Int64.toInt_lt i
  unfold shiftRight
  split
  · rename_i beyond
    rw [Integer.shiftRight_beyond ((length_le i).trans beyond)]
    have zero : (0 : Int64).toInt = 0 := rfl
    simp only [Int64.lt_iff_toInt_lt, zero]
    split <;> rfl
  · have power : (0 : Int) < (2 ^ n : Nat) := by exact_mod_cast Nat.two_pow_pos n
    rw [Int.shiftRight_eq_div_pow]
    have least : -9223372036854775808 ≤ i.toInt / (2 ^ n : Nat) := by
      rw [Int.le_ediv_iff_mul_le power]
      nlinarith
    have greatest : i.toInt / (2 ^ n : Nat) < 9223372036854775808 := by
      rw [Int.ediv_lt_iff_lt_mul power]
      nlinarith
    exact Int64.toInt_ofInt_of_le (by omega) (by omega)

end Word

/-! ## Agreement -/

namespace Primitive

/-- A result on words is the answer of integer arithmetic, unless it is the signal that a word is
too small. -/
inductive Agrees (op : BinaryOperator) (answer : Except Fault Integer.Result) : Result → Prop
  | word {i : Int64} : answer = .ok (.int i.toInt) → Agrees op answer (.ok (.int i))
  | overflow : Agrees op answer (.error .integerOverflow)
  | refused {signal : ErrorKind} : signal = .divisionByZero ∨ signal = .valueError →
    answer = .error (op.fault signal) → Agrees op answer (.error signal)

theorem agrees_checked {op : BinaryOperator} {answer : Except Fault Integer.Result}
    {result : Option Int64} (h : ∀ i, result = some i → answer = .ok (.int i.toInt)) :
    Agrees op answer (checked result) := by
  cases result with
  | none => exact .overflow
  | some i => exact .word (h i rfl)

theorem agrees_ofInt? {op : BinaryOperator} {answer : Except Fault Integer.Result} {n : Int}
    (h : answer = .ok (.int n)) : Agrees op answer (checked (Word.ofInt? n)) :=
  agrees_checked fun _ fits => by rw [h, Word.toInt_of_ofInt? fits]

theorem number?_of_asInt? {a : Value} {i : Int64} (h : a.asInt? = some i) :
    number? a = some (.int i) := by
  cases a with
  | int | bool => cases h; rfl
  | _ => cases h

variable {a b : Value} {i j : Int64}

theorem onNumbers_of_asInt? (ha : a.asInt? = some i) (hb : b.asInt? = some j)
    (onInt : Int64 → Int64 → Result) (onFloat : Float → Float → Float) :
    onNumbers onInt onFloat a b = onInt i j := by
  simp only [onNumbers, number?_of_asInt? ha, number?_of_asInt? hb]

theorem onInts_of_asInt? (ha : a.asInt? = some i) (hb : b.asInt? = some j)
    (onInt : Int64 → Int64 → Result) : onInts onInt a b = onInt i j := by
  simp only [onInts, ha, hb]

/-- Two truth values. -/
def BothBools (a b : Value) : Prop := ∃ s t, a = .bool s ∧ b = .bool t

theorem bitwise_of_asInt? (ha : a.asInt? = some i) (hb : b.asInt? = some j)
    (mixed : ¬BothBools a b) (onBool : Bool → Bool → Bool) (onInt : Int64 → Int64 → Int64) :
    bitwise onBool onInt a b = .ok (.int (onInt i j)) := by
  unfold bitwise
  split
  · exact absurd ⟨_, _, rfl, rfl⟩ mixed
  · exact onInts_of_asInt? ha hb _

/-- **Arithmetic on words agrees with arithmetic on integers.** -/
theorem agrees_binary {op : BinaryOperator} (integral : op ≠ .div)
    (natural : op = .pow → 0 ≤ j.toInt) (ha : a.asInt? = some i) (hb : b.asInt? = some j)
    (mixed : op.Bitwise → ¬BothBools a b) :
    Agrees op (Integer.binary op i.toInt j.toInt) (binary op a b) := by
  have limit : 64 * 64 ≤ maxBits := by decide
  have length := Word.length_le i
  have zero : j = 0 ↔ j.toInt = 0 := Int64.toInt_inj.symm
  have negative : j < 0 ↔ j.toInt < 0 := Int64.lt_iff_toInt_lt
  cases op with
  | div => exact absurd rfl integral
  | add =>
    simp only [binary, add, onNumbers_of_asInt? ha hb]
    exact agrees_ofInt? rfl
  | sub =>
    simp only [binary, sub, onNumbers_of_asInt? ha hb]
    exact agrees_ofInt? rfl
  | mul =>
    simp only [binary, mul, onNumbers_of_asInt? ha hb]
    have length' := Word.length_le j
    refine agrees_ofInt? ?_
    rw [Integer.binary, Integer.multiply, if_neg (by omega)]
  | floorDiv =>
    simp only [binary, floorDiv, onNumbers_of_asInt? ha hb, intFloorDiv, Word.floorDiv?,
      Integer.binary]
    by_cases divisor : j = 0
    · rw [if_pos divisor, if_pos (zero.mp divisor)]
      exact .refused (.inl rfl) rfl
    · rw [if_neg divisor, if_neg divisor, if_neg (mt zero.mpr divisor)]
      exact agrees_ofInt? rfl
  | mod =>
    simp only [binary, mod, onNumbers_of_asInt? ha hb, intMod, Word.floorMod?, Integer.binary]
    by_cases divisor : j = 0
    · rw [if_pos divisor, if_pos (zero.mp divisor)]
      exact .refused (.inl rfl) rfl
    · have fits := Word.ofInt?_of_fits (Word.fits_fmod i j divisor)
      rw [if_neg divisor, if_neg (mt zero.mpr divisor), fits]
      exact .word (by rw [Word.toInt_of_ofInt? fits])
  | pow =>
    have exponent := natural rfl
    have natural : 0 ≤ j := Int64.le_iff_toInt_le.mpr exponent
    simp only [binary, pow, onNumbers_of_asInt? ha hb, intPow, if_pos natural]
    refine agrees_checked fun w result => ?_
    obtain ⟨small | bounded, exact⟩ := Word.pow?_eq result
    · rw [exact]
      exact Integer.power_of_small exponent small
    · rw [exact]
      refine Integer.power_of_bounded exponent (le_trans ?_ limit)
      exact Nat.mul_le_mul length (Nat.le_of_lt bounded)
  | bitAnd =>
    simp only [binary, bitAnd, bitwise_of_asInt? ha hb (mixed (.inl rfl))]
    exact .word (by rw [Bits.toInt_and]; rfl)
  | bitOr =>
    simp only [binary, bitOr, bitwise_of_asInt? ha hb (mixed (.inr (.inl rfl)))]
    exact .word (by rw [Bits.toInt_or]; rfl)
  | bitXor =>
    simp only [binary, bitXor, bitwise_of_asInt? ha hb (mixed (.inr (.inr rfl)))]
    exact .word (by rw [Bits.toInt_xor]; rfl)
  | shl =>
    simp only [binary, shl, onInts_of_asInt? ha hb]
    split
    · rename_i back
      refine .refused (.inr rfl) ?_
      rw [Integer.binary, Integer.shiftLeft, if_pos (negative.mp back)]
      rfl
    · rename_i forward
      have count : 0 ≤ j.toInt := Int.not_lt.mp (mt negative.mpr forward)
      refine agrees_checked fun w result => ?_
      obtain ⟨small | bounded, exact⟩ := Word.shiftLeft?_eq result
      · rw [exact, small, Integer.binary, Integer.shiftLeft, if_neg (by omega), if_pos rfl,
          Int.zero_mul]
      · rw [exact]
        exact Integer.shiftLeft_of_bounded count (by omega)
  | shr =>
    simp only [binary, shr, onInts_of_asInt? ha hb]
    split
    · rename_i back
      exact .refused (.inr rfl)
        (by rw [Integer.binary, Integer.shiftRight, if_pos (negative.mp back)]; rfl)
    · rename_i forward
      have count : 0 ≤ j.toInt := Int.not_lt.mp (mt negative.mpr forward)
      exact .word (by rw [Word.toInt_shiftRight]; exact Integer.shiftRight_eq count)

end Primitive

end RegisterVm
