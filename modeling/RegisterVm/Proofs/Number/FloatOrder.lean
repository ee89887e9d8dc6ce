import Mathlib
import RegisterVm.Number.Binary64

/-!
# The order of floats

`Binary64.compare?` is the comparison of IEEE 754 (`compare?_eq`), so that each of the relations
`<`, `≤` and `==` on floats can be read off it, whichever way round the operands are
(`lt_eq`, `le_eq`, `beq_eq`, `order?_swap`).
-/

namespace RegisterVm.Binary64

open Float.Model

theorem unpacked_compare_swap (a b : UnpackedFloat) :
    b.compare a = (a.compare b).map Ordering.swap := by
  have swapped : ∀ (e₁ e₂ : Int) (m₁ m₂ : Nat),
      (compare e₂ e₁).then (compare m₂ m₁) = ((compare e₁ e₂).then (compare m₁ m₂)).swap := by
    intro e₁ e₂ m₁ m₂
    rw [Ordering.swap_then, Int.compare_swap, Nat.compare_swap]
  cases a with
  | notANumber => cases b <;> rfl
  | infinity s =>
    cases s <;> cases b with
    | infinity t => cases t <;> rfl
    | _ => rfl
  | zero s => cases b with
    | infinity t => cases t <;> rfl
    | finite t => cases t <;> rfl
    | _ => rfl
  | finite s m₁ e₁ pos₁ =>
    cases b with
    | infinity t => cases s <;> cases t <;> rfl
    | finite t m₂ e₂ pos₂ =>
      cases s <;> cases t <;>
        simp only [UnpackedFloat.compare, Option.map_some, swapped e₁ e₂ m₁ m₂, Ordering.swap]
    | _ => cases s <;> rfl

/-! ## The relations -/

/-- The order of two floats as IEEE 754 defines it. -/
def order? (x y : Float) : Option Ordering := x.toModel.compare y.toModel

theorem order?_swap (x y : Float) : order? y x = (order? x y).map Ordering.swap :=
  unpacked_compare_swap _ _

theorem lt_eq (x y : Float) : decide (x < y) = (order? x y == some .lt) := by
  change decide (decide (x.toModel < y.toModel) = true) = _
  simp only [Bool.decide_eq_true]
  change decide ((x.toModel.compare y.toModel == some Ordering.lt) = true) = _
  simp only [Bool.decide_eq_true]
  rfl

theorem le_eq (x y : Float) : decide (x ≤ y) = (order? x y).any Ordering.isLE := by
  change decide (decide (x.toModel ≤ y.toModel) = true) = _
  simp only [Bool.decide_eq_true]
  change decide ((x.toModel.compare y.toModel).any Ordering.isLE = true) = _
  simp only [Bool.decide_eq_true]
  rfl

theorem beq_eq (x y : Float) : (x == y) = (order? x y == some .eq) := rfl

theorem compare?_eq (x y : Float) : compare? x y = order? x y := by
  have lt : x < y ↔ order? x y = some .lt := by
    rw [← beq_iff_eq, ← lt_eq, decide_eq_true_iff]
  have gt : y < x ↔ order? x y = some .gt := by
    rw [← decide_eq_true_iff (p := y < x), lt_eq, beq_iff_eq, order?_swap]
    cases order? x y with
    | none => simp
    | some o => cases o <;> simp
  simp only [compare?, beq_eq, lt, gt]
  cases order? x y with
  | none => rfl
  | some o => cases o <;> rfl

theorem compare?_swap (x y : Float) : compare? y x = (compare? x y).map Ordering.swap := by
  rw [compare?_eq, compare?_eq, order?_swap]

end RegisterVm.Binary64
