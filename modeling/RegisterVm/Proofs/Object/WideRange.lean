import RegisterVm.Proofs.Object.IntRange

/-!
# Ranges in 128 bits

The formulas of a range with each step done on 128-bit integers (`Wide`) and each integer of the
result on words, where what does not fit is no answer. Main statements: they have an answer, which
is the one on unbounded integers (`IntRange.wideCount?_eq`, `IntRange.wideNth?_eq`,
`IntRange.wideGet?_eq`, `IntRange.wideContains?_eq`).
-/

namespace RegisterVm

/-! ## Wide integers -/

/-! Arithmetic on signed integers of 128 bits. A result that is none has no answer. -/

namespace Wide

def ofInt? (i : Int) : Option Int :=
  if -170141183460469231731687303715884105728 ≤ i ∧ i ≤ 170141183460469231731687303715884105727
  then some i else none

def add? (a b : Int) : Option Int := ofInt? (a + b)

def sub? (a b : Int) : Option Int := ofInt? (a - b)

def mul? (a b : Int) : Option Int := ofInt? (a * b)

def neg? (a : Int) : Option Int := ofInt? (-a)

/-- Division rounded towards zero; no answer for a zero divisor. -/
def div? (a b : Int) : Option Int := if b = 0 then none else ofInt? (a.tdiv b)

/-- The remainder of `div?`, when the quotient is a wide integer. -/
def rem? (a b : Int) : Option Int := (div? a b).map fun _ => a.tmod b

/-- Sums of a few words are wide. -/
theorem ofInt?_eq_some {i : Int} (low : -36893488147419103232 ≤ i)
    (high : i ≤ 36893488147419103232) : ofInt? i = some i :=
  if_pos ⟨by omega, by omega⟩

end Wide

namespace IntRange

variable {r : IntRange}

/-! ## Checked formulas -/

/-- The number of steps from one integer that stay short of another. -/
def wideSteps? (low high size : Int) : Option Int := do
  if high ≤ low then return 0
  let distance ← Wide.sub? high low
  let rounded ← Wide.sub? (← Wide.add? distance size) 1
  Wide.div? rounded size

def wideCount? (r : IntRange) : Option Int := do
  if 0 < r.step then wideSteps? r.start.toInt r.stop.toInt r.step.toInt
  else wideSteps? r.stop.toInt r.start.toInt (← Wide.neg? r.step.toInt)

def wideNth? (r : IntRange) (position : Int) : Option Int64 := do
  let distance ← Wide.mul? position r.step.toInt
  Word.ofInt? (← Wide.add? r.start.toInt distance)

def wideGet? (r : IntRange) (index : Int64) : Option (Option Int64) := do
  let count ← r.wideCount?
  let i ← (if index < 0 then Wide.add? index.toInt count else some index.toInt)
  if 0 ≤ i && i < count then return some (← r.wideNth? i)
  return none

def wideContains? (r : IntRange) (i : Int64) : Option Bool := do
  let inside := if 0 < r.step then r.start ≤ i && i < r.stop else i ≤ r.start && r.stop < i
  if inside then
    let distance ← Wide.sub? i.toInt r.start.toInt
    return (← Wide.rem? distance r.step.toInt) = 0
  return false

/-! ## They have an answer -/

theorem wideSteps?_eq {low high : Int64} {size : Int} (positive : 0 < size)
    (small : size ≤ 9223372036854775808) :
    wideSteps? low.toInt high.toInt size = some ↑(if high.toInt ≤ low.toInt then 0
      else ((high.toInt - low.toInt + size - 1) / size).toNat) := by
  have low_le := Int64.le_toInt low
  have lt_low := Int64.toInt_lt low
  have high_le := Int64.le_toInt high
  have lt_high := Int64.toInt_lt high
  unfold wideSteps?
  split
  · rfl
  · have nonneg : 0 ≤ high.toInt - low.toInt + size - 1 := by omega
    have quotient := Int.ediv_nonneg nonneg (Int.le_of_lt positive)
    have smaller := Int.ediv_le_self size nonneg
    have distance : Wide.sub? high.toInt low.toInt = some (high.toInt - low.toInt) :=
      Wide.ofInt?_eq_some (by omega) (by omega)
    have longer : Wide.add? (high.toInt - low.toInt) size = some (high.toInt - low.toInt + size) :=
      Wide.ofInt?_eq_some (by omega) (by omega)
    have rounded : Wide.sub? (high.toInt - low.toInt + size) 1 =
        some (high.toInt - low.toInt + size - 1) :=
      Wide.ofInt?_eq_some (by omega) (by omega)
    have divided : Wide.div? (high.toInt - low.toInt + size - 1) size =
        some ((high.toInt - low.toInt + size - 1) / size) := by
      rw [Wide.div?, if_neg (by omega), Int.tdiv_eq_ediv_of_nonneg nonneg]
      exact Wide.ofInt?_eq_some (by omega) (by omega)
    simp only [distance, longer, rounded, divided, Option.bind_eq_bind, Option.bind_some,
      Int.toNat_of_nonneg quotient]

/-- **The number of integers is computed without overflow.** -/
theorem wideCount?_eq (step : r.step ≠ 0) : r.wideCount? = some ↑r.count := by
  have nonzero := toInt_step_ne_zero step
  have low := Int64.le_toInt r.step
  have high := Int64.toInt_lt r.step
  unfold wideCount? count
  simp only [step_pos_iff]
  split
  · rename_i up
    exact wideSteps?_eq up (by omega)
  · rename_i down
    have negated : Wide.neg? r.step.toInt = some (-r.step.toInt) :=
      Wide.ofInt?_eq_some (by omega) (by omega)
    rw [negated, Option.bind_eq_bind, Option.bind_some, wideSteps?_eq (by omega) (by omega),
      ← Int.sub_eq_add_neg]

/-- **The integer at a position is computed without overflow**, and is a word. -/
theorem wideNth?_eq (step : r.step ≠ 0) {k : Nat} (inside : k < r.count) :
    r.wideNth? k = some (r.nth k) := by
  have start := Int64.le_toInt r.start
  have start' := Int64.toInt_lt r.start
  have before := (lt_count_iff step k).mp inside
  have bounds := bounds_of_before step before
  have fits := fits_term step before
  unfold term at bounds fits
  have distance : Wide.mul? k r.step.toInt = some (k * r.step.toInt) :=
    Wide.ofInt?_eq_some (by omega) (by omega)
  have sum : Wide.add? r.start.toInt (k * r.step.toInt) = some (r.start.toInt + k * r.step.toInt) :=
    Wide.ofInt?_eq_some (by omega) (by omega)
  simp only [wideNth?, distance, sum, Option.bind_eq_bind, Option.bind_some]
  exact if_pos fits

/-- There are fewer integers in a range than there are words. -/
theorem count_lt (step : r.step ≠ 0) : r.count < 18446744073709551616 := by
  have nonzero := toInt_step_ne_zero step
  have start := Int64.le_toInt r.start
  have start' := Int64.toInt_lt r.start
  have stop := Int64.le_toInt r.stop
  have stop' := Int64.toInt_lt r.stop
  have last := lt_count_iff step 18446744073709551615
  unfold Before term at last
  split at last <;> omega

/-- **An index is looked up without overflow.** -/
theorem wideGet?_eq (step : r.step ≠ 0) (index : Int64) :
    r.wideGet? index = some (r.get? index) := by
  have low := Int64.le_toInt index
  have high := Int64.toInt_lt index
  have count := count_lt step
  have position : (if index < 0 then Wide.add? index.toInt r.count else some index.toInt) =
      some (if index < 0 then index.toInt + r.count else index.toInt) := by
    split
    · exact Wide.ofInt?_eq_some (by omega) (by omega)
    · rfl
  simp only [wideGet?, get?, wideCount?_eq step, position, Option.bind_eq_bind, Option.bind_some]
  generalize (if index < 0 then index.toInt + r.count else index.toInt) = i
  split
  · rename_i inside
    simp only [Bool.and_eq_true, decide_eq_true_eq] at inside
    have nth := wideNth?_eq step (k := i.toNat) (by omega)
    rw [Int.toNat_of_nonneg inside.1] at nth
    rw [nth, Option.bind_some, Option.pure_def]
  · rfl

/-- **Membership is decided without overflow.** -/
theorem wideContains?_eq (step : r.step ≠ 0) (i : Int64) :
    r.wideContains? i = some (r.contains i) := by
  have nonzero := toInt_step_ne_zero step
  have start := Int64.le_toInt r.start
  have start' := Int64.toInt_lt r.start
  have low := Int64.le_toInt i
  have high := Int64.toInt_lt i
  have distance : Wide.sub? i.toInt r.start.toInt = some (i.toInt - r.start.toInt) :=
    Wide.ofInt?_eq_some (by omega) (by omega)
  have smaller := Int.natAbs_tdiv_le_natAbs (i.toInt - r.start.toInt) r.step.toInt
  have remainder : Wide.rem? (i.toInt - r.start.toInt) r.step.toInt =
      some ((i.toInt - r.start.toInt).tmod r.step.toInt) := by
    rw [Wide.rem?, Wide.div?, if_neg nonzero, Wide.ofInt?_eq_some (by omega) (by omega),
      Option.map_some]
  simp only [wideContains?, contains, distance, remainder, Option.bind_eq_bind, Option.bind_some]
  generalize (if 0 < r.step then decide (r.start ≤ i) && decide (i < r.stop)
    else decide (i ≤ r.start) && decide (r.stop < i)) = inside
  cases inside <;> rfl

end IntRange

end RegisterVm
