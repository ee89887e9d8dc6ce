import Mathlib
import RegisterVm.Value.Slot

/-!
# Slots keep values

Writing a value as a slot loses nothing (`value?_ofValue`), so different values have different
slots (`ofValue_inj`).
-/

namespace RegisterVm.Slot

@[simp] theorem ofValue_none : ofValue .none = ⟨noneTag, 0⟩ := rfl

@[simp] theorem ofValue_bool (b : Bool) : ofValue (.bool b) = ofBool b := rfl

@[simp] theorem ofValue_int (i : Int64) : ofValue (.int i) = ofInt i := rfl

@[simp] theorem ofValue_float (x : Float) : ofValue (.float x) = ofFloat x := rfl

theorem value?_object (h : Handle) : (ofValue (.object h)).value? = some (.object h) := by
  obtain ⟨index⟩ := h
  have bound : index.toUInt64 < 4294967296 := by
    rw [UInt64.lt_iff_toNat_lt, UInt32.toNat_toUInt64]
    exact index.toNat_lt
  simp only [ofValue, value?, objectTag, noneTag, boolTag, intTag, floatTag, bound, if_true,
    UInt32.toUInt32_toUInt64]
  rfl

/-- **A slot keeps its value.** -/
theorem value?_ofValue (v : Value) : (ofValue v).value? = some v := by
  cases v with
  | none => rfl
  | bool b => cases b <;> rfl
  | int i => simp [ofInt, value?, intTag, noneTag, boolTag]
  | float x =>
    simp [ofFloat, value?, floatTag, intTag, noneTag, boolTag, Float.ofBits_toBits]
  | object h => exact value?_object h

theorem ofValue_inj {v w : Value} : ofValue v = ofValue w ↔ v = w := by
  refine ⟨fun h => ?_, fun h => h ▸ rfl⟩
  have := congrArg value? h
  rwa [value?_ofValue, value?_ofValue, Option.some.injEq] at this

end RegisterVm.Slot
