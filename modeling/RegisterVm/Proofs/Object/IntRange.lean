import Mathlib.Data.Nat.Basic
import Mathlib.Order.Basic
import RegisterVm.Object.IntRange

/-!
# The integers of a range

The terms of a range are `start + k * step` for `k = 0, 1, …`. Those before its end are the first
`count` of them (`IntRange.lt_count_iff`), and they are words (`IntRange.toInt_nth`): the
`IntRange.values`. Taking integers off one after the other (`IntRange.next?_of_values`), an index
(`IntRange.get?_eq_some_iff`), membership (`IntRange.contains_iff`) and the length
(`IntRange.length?_eq_some_iff`) are each computed by a formula of its own and agree with the
values.
-/

namespace RegisterVm

namespace IntRange

variable {r : IntRange}

/-! ## Terms -/

/-- The integer after `k` steps, which may be behind the end and no word. -/
def term (r : IntRange) (k : Nat) : Int := r.start.toInt + k * r.step.toInt

/-- An integer is strictly before the end, in the direction of the steps. -/
def Before (r : IntRange) (i : Int) : Prop :=
  if 0 < r.step.toInt then i < r.stop.toInt else r.stop.toInt < i

/-- The integers of the range, in order. -/
def values (r : IntRange) : List Int64 := (List.range r.count).map r.nth

theorem step_pos_iff (r : IntRange) : 0 < r.step ↔ 0 < r.step.toInt := Int64.lt_iff_toInt_lt

theorem toInt_step_ne_zero (step : r.step ≠ 0) : r.step.toInt ≠ 0 :=
  fun zero => step (Int64.toInt_inj.mp zero)

/-- How many steps of one size stay short of the way from one integer to another. -/
theorem lt_steps_iff (low high : Int) {size : Int} (positive : 0 < size) (k : Nat) :
    k < (if high ≤ low then 0 else ((high - low + size - 1) / size).toNat) ↔
      k * size < high - low := by
  have forward : 0 ≤ (k : Int) * size :=
    Int.mul_nonneg (Int.natCast_nonneg k) (Int.le_of_lt positive)
  have next : ((k : Int) + 1) * size = k * size + size := by rw [Int.add_mul, Int.one_mul]
  have rounded : (k : Int) + 1 ≤ (high - low + size - 1) / size ↔ k * size < high - low := by
    rw [Int.le_ediv_iff_mul_le positive, next]
    omega
  split <;> omega

/-- **The integers of a range are the terms before its end.** -/
theorem lt_count_iff (step : r.step ≠ 0) (k : Nat) : k < r.count ↔ r.Before (r.term k) := by
  have nonzero := toInt_step_ne_zero step
  unfold count Before term
  dsimp only
  split
  · rename_i up
    rw [lt_steps_iff _ _ up]
    omega
  · rename_i down
    have backwards : 0 < -r.step.toInt := by omega
    have steps := lt_steps_iff r.stop.toInt r.start.toInt backwards k
    rw [← Int.sub_eq_add_neg, Int.mul_neg] at steps
    rw [steps]
    omega

/-- The way of the steps is the way from the start to the end. -/
theorem nonneg_iff_along (step : r.step ≠ 0) (q : Int) :
    0 ≤ q ↔ if 0 < r.step.toInt then 0 ≤ q * r.step.toInt else q * r.step.toInt ≤ 0 := by
  have nonzero := toInt_step_ne_zero step
  split
  · rename_i up
    exact (Int.mul_nonneg_iff_of_pos_right up).symm
  · rename_i down
    have back := Int.mul_nonneg_iff_of_pos_right (a := q) (b := -r.step.toInt) (by omega)
    rw [Int.mul_neg] at back
    omega

/-- What is at or behind the start and before the end is a word. -/
theorem bounds_of_before (step : r.step ≠ 0) {k : Nat} (before : r.Before (r.term k)) :
    -9223372036854775808 ≤ r.term k ∧ r.term k < 9223372036854775808 := by
  have start := Int64.le_toInt r.start
  have start' := Int64.toInt_lt r.start
  have stop := Int64.le_toInt r.stop
  have stop' := Int64.toInt_lt r.stop
  have along := (nonneg_iff_along step k).mp (Int.natCast_nonneg k)
  unfold Before term at *
  split at before <;> split at along <;> omega

theorem fits_term (step : r.step ≠ 0) {k : Nat} (before : r.Before (r.term k)) :
    Word.fits (r.term k) = true := by
  have bounds := bounds_of_before step before
  simp only [Word.fits, Bool.and_eq_true, decide_eq_true_eq]
  omega

/-- The integer at a position is the term there, nothing wraps around. -/
theorem toInt_nth (step : r.step ≠ 0) {k : Nat} (inside : k < r.count) :
    (r.nth k).toInt = r.term k := by
  obtain ⟨low, high⟩ := bounds_of_before step ((lt_count_iff step k).mp inside)
  exact Int64.toInt_ofInt_of_le low high

/-! ## Values -/

@[simp] theorem length_values (r : IntRange) : r.values.length = r.count := by
  simp [values]

theorem getElem?_values_eq_some_iff {k : Nat} {i : Int64} :
    r.values[k]? = some i ↔ k < r.count ∧ r.nth k = i := by
  rw [values, List.getElem?_eq_some_iff]
  simp

theorem map_toInt_values (step : r.step ≠ 0) :
    r.values.map Int64.toInt = (List.range r.count).map r.term := by
  rw [values, List.map_map]
  exact List.map_congr_left fun k mem => toInt_nth step (List.mem_range.mp mem)

theorem mem_values_iff (step : r.step ≠ 0) {i : Int64} :
    i ∈ r.values ↔ ∃ k, r.Before (r.term k) ∧ i.toInt = r.term k := by
  simp only [values, List.mem_map, List.mem_range]
  constructor
  · rintro ⟨k, inside, rfl⟩
    exact ⟨k, (lt_count_iff step k).mp inside, toInt_nth step inside⟩
  · rintro ⟨k, before, same⟩
    have inside := (lt_count_iff step k).mpr before
    exact ⟨k, inside, Int64.toInt_inj.mp ((toInt_nth step inside).trans same.symm)⟩

theorem isEmpty_iff (r : IntRange) : r.isEmpty = true ↔ r.values = [] := by
  rw [← List.length_eq_zero_iff, length_values, isEmpty, decide_eq_true_iff]

theorem length?_eq_some_iff {n : Int64} : r.length? = some n ↔ n.toInt = r.count := by
  rw [length?]
  constructor
  · exact Word.toInt_of_ofInt?
  · intro same
    rw [← same, Word.ofInt?_toInt]

/-! ## One after the other -/

/-- There is nothing left when the start is at or behind the end. -/
theorem values_eq_nil_iff (step : r.step ≠ 0) :
    r.values = [] ↔ if 0 < r.step then r.stop ≤ r.start else r.start ≤ r.stop := by
  have nonzero := toInt_step_ne_zero step
  have first := lt_count_iff step 0
  simp only [Before, term, Int.natCast_zero, Int.zero_mul, Int.add_zero] at first
  rw [← List.length_eq_zero_iff, length_values]
  simp only [step_pos_iff, Int64.le_iff_toInt_le]
  by_cases up : 0 < r.step.toInt <;> simp only [up, if_true, if_false] at first ⊢ <;> omega

/-- The range of all terms but the first, as far as the second one is a word. -/
theorem values_of_start (rest : IntRange) (step : r.step ≠ 0) (start : rest.start.toInt = r.term 1)
    (stop : rest.stop = r.stop) (same : rest.step = r.step) : rest.values = r.values.tail := by
  have terms : ∀ k, rest.term k = r.term (k + 1) := by
    intro k
    simp only [term, start, same, Int.natCast_add, Int.add_mul]
    omega
  have count : rest.count = r.count - 1 := by
    refine eq_of_forall_lt_iff fun k => ?_
    rw [lt_count_iff (same ▸ step), terms, Before, same, stop]
    exact (lt_count_iff step (k + 1)).symm.trans (by omega)
  refine List.ext_getElem? fun k => Option.ext fun i => ?_
  rw [List.getElem?_tail, getElem?_values_eq_some_iff, getElem?_values_eq_some_iff, count, nth, nth]
  have nth : Int64.ofInt (rest.term k) = Int64.ofInt (r.term (k + 1)) := by rw [terms]
  simp only [term] at nth
  rw [nth]
  exact and_congr_left' (by omega)

theorem next?_of_nil (step : r.step ≠ 0) (values : r.values = []) : r.next? = none :=
  if_pos ((values_eq_nil_iff step).mp values)

/-- **The integers of a range are what `next?` gives one after the other.** -/
theorem next?_of_values (step : r.step ≠ 0) {i : Int64} {is : List Int64}
    (values : r.values = i :: is) :
    ∃ rest, r.next? = some (i, rest) ∧ rest.values = is ∧ rest.step = r.step := by
  have first : r.values[0]? = some i := by rw [values, List.getElem?_cons_zero]
  obtain ⟨-, rfl⟩ := getElem?_values_eq_some_iff.mp first
  have start : r.nth 0 = r.start := by simp [nth]
  have more := mt (values_eq_nil_iff step).mpr (by rw [values]; exact List.cons_ne_nil _ _)
  refine ⟨{ r with start := (Word.add? r.start r.step).getD r.stop },
    by rw [next?, start]; exact if_neg more, ?_, rfl⟩
  cases stepped : Word.add? r.start r.step with
  | some next =>
    have second : next.toInt = r.term 1 := by
      rw [Word.toInt_of_ofInt? stepped, term, Int.natCast_one, Int.one_mul]
    have others := values_of_start { r with start := next } step second rfl rfl
    rwa [values] at others
  | none =>
    -- the second term is no word, so it is behind the end
    have last : ¬ 1 < r.count := fun inside => by
      have fits := fits_term step ((lt_count_iff step 1).mp inside)
      rw [term, Int.natCast_one, Int.one_mul] at fits
      rw [Word.add?, Word.ofInt?, if_pos fits] at stepped
      cases stepped
    have short : is = [] := by
      have length := congrArg List.length values
      rw [length_values, List.length_cons] at length
      exact List.length_eq_zero_iff.mp (by omega)
    rw [short]
    refine (values_eq_nil_iff (r := { r with start := r.stop }) step).mpr ?_
    split <;> exact Int64.le_refl _

/-! ## Indices and membership -/

/-- **An index is a position, counted from the start or from the end.** -/
theorem get?_eq_some_iff {index v : Int64} :
    r.get? index = some v ↔
      ∃ k : Nat, r.values[k]? = some v ∧ (index.toInt = k ∨ index.toInt = k - r.count) := by
  have sign : index < 0 ↔ index.toInt < 0 := Int64.lt_iff_toInt_lt
  simp only [get?, sign, getElem?_values_eq_some_iff, Bool.and_eq_true, decide_eq_true_eq]
  generalize position : (if index.toInt < 0 then index.toInt + r.count else index.toInt) = i
  constructor
  · intro given
    split at given
    · exact ⟨i.toNat, ⟨by omega, Option.some.inj given⟩, by omega⟩
    · cases given
  · rintro ⟨k, ⟨inside, same⟩, counted⟩
    obtain rfl : i = k := by omega
    rw [if_pos (by omega), Int.toNat_natCast, same]

/-- **The integers of a range are those it contains.** -/
theorem contains_iff (step : r.step ≠ 0) {i : Int64} : r.contains i = true ↔ i ∈ r.values := by
  have inside : (if 0 < r.step then r.start ≤ i && i < r.stop else i ≤ r.start && r.stop < i) =
      true ↔ r.Before i.toInt ∧
        if 0 < r.step.toInt then 0 ≤ i.toInt - r.start.toInt else i.toInt - r.start.toInt ≤ 0 := by
    simp only [Before, step_pos_iff]
    split <;> simp only [Bool.and_eq_true, decide_eq_true_eq, Int64.le_iff_toInt_le,
      Int64.lt_iff_toInt_lt] <;> omega
  rw [mem_values_iff step, contains, Bool.and_eq_true, decide_eq_true_eq,
    ← Int.dvd_iff_tmod_eq_zero, inside]
  constructor
  · rintro ⟨⟨before, ahead⟩, q, multiple⟩
    rw [multiple, Int.mul_comm, ← nonneg_iff_along step] at ahead
    have same : i.toInt = r.term q.toNat := by
      rw [term, Int.toNat_of_nonneg ahead, Int.mul_comm, ← multiple]
      omega
    exact ⟨q.toNat, same ▸ before, same⟩
  · rintro ⟨k, before, same⟩
    have ahead : i.toInt - r.start.toInt = k * r.step.toInt := by
      rw [same, term]
      omega
    rw [ahead, same, ← nonneg_iff_along step]
    exact ⟨⟨before, Int.natCast_nonneg k⟩, Int.dvd_mul_left _ _⟩

end IntRange

end RegisterVm
