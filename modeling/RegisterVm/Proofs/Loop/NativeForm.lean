import RegisterVm.Machine.Native
import RegisterVm.Proofs.Loop.WordArithmetic
import RegisterVm.Proofs.Number.FloatOrder
import RegisterVm.Proofs.Value.Slot

/-!
# Native forms compute primitive results

On the slots of values a native form has a result only when the primitive operation has one, and
then it is the slot of that result (`NativeArithmetic.primitive_of_result?`,
`NativeComparison.primitive_of_result?`, `Slot.primitive_of_negate?`). The truth of a slot is that
of its value (`Slot.truth_ofValue`).
-/

namespace RegisterVm

namespace Slot

@[simp] theorem tag_ofInt (i : Int64) : (ofInt i).tag = intTag := rfl

@[simp] theorem tag_ofFloat (x : Float) : (ofFloat x).tag = floatTag := rfl

@[simp] theorem toInt64_ofInt (i : Int64) : (ofInt i).bits.toInt64 = i := by
  simp [ofInt]

@[simp] theorem ofBits_ofFloat (x : Float) : Float.ofBits (ofFloat x).bits = x :=
  Float.ofBits_toBits x

theorem floatTag_ne_intTag : floatTag ≠ intTag := by
  decide

/-- Two words or two floats: the operands on which native forms have results. -/
inductive Pair : Value → Value → Prop
  | ints (x y : Int64) : Pair (.int x) (.int y)
  | floats (x y : Float) : Pair (.float x) (.float y)

end Slot

/-! ## Arithmetic -/

namespace NativeArithmetic

theorem result?_ints (form : NativeArithmetic) (x y : Int64) :
    form.result? (.ofInt x) (.ofInt y) =
      form.word.bind fun w => if w.overflows x y then none else some (.ofInt (w.result x y)) := by
  cases hw : form.word <;> simp [result?, hw]

theorem result?_floats (form : NativeArithmetic) (x y : Float) :
    form.result? (.ofFloat x) (.ofFloat y) =
      form.float.map fun op => .ofFloat (op.apply x y) := by
  simp [result?, Slot.floatTag_ne_intTag]

theorem pair_of_result? {form : NativeArithmetic} {a b : Value} {s : Slot}
    (h : form.result? (.ofValue a) (.ofValue b) = some s) : Slot.Pair a b := by
  cases a <;> cases b <;> first | exact .ints _ _ | exact .floats _ _ | cases h

/-- The word of a checked operation that agrees with a wrapped one wherever it does not overflow. -/
theorem checked_of_word {w : WordForm} {x y : Int64} {o : Option Int64} {s : Slot}
    (ho : o = if w.overflows x y then none else some (w.result x y))
    (hs : (if w.overflows x y then none else some (Slot.ofInt (w.result x y))) = some s) :
    ∃ v, Primitive.checked o = .ok v ∧ s = .ofValue v := by
  split at hs
  · cases hs
  · rename_i exact
    rw [if_neg exact] at ho
    cases hs
    exact ⟨.int (w.result x y), by rw [ho]; rfl, rfl⟩

theorem primitive_of_result? {op : BinaryOperator} {form : NativeArithmetic} {a b : Value}
    {s : Slot} (hop : of? op = some form)
    (hs : form.result? (.ofValue a) (.ofValue b) = some s) :
    ∃ v, Primitive.binary op a b = .ok v ∧ s = .ofValue v := by
  cases pair_of_result? hs with
  | ints x y =>
    simp only [Slot.ofValue_int, result?_ints] at hs
    cases op with
    | add => cases hop; exact checked_of_word (WordForm.add?_eq x y) hs
    | sub => cases hop; exact checked_of_word (WordForm.sub?_eq x y) hs
    | mul => cases hop; exact checked_of_word (WordForm.mul?_eq x y) hs
    | bitAnd | bitOr | bitXor => cases hop; cases hs; exact ⟨_, rfl, rfl⟩
    | div => cases hop; cases hs
    | floorDiv | mod | pow | shl | shr => cases hop
  | floats x y =>
    simp only [Slot.ofValue_float, result?_floats] at hs
    cases op with
    | add | sub | mul | div => cases hop; cases hs; exact ⟨_, rfl, rfl⟩
    | bitAnd | bitOr | bitXor => cases hop; cases hs
    | floorDiv | mod | pow | shl | shr => cases hop

end NativeArithmetic

/-! ## Comparison -/

namespace NativeComparison

theorem result?_ints (op : NativeComparison) (x y : Int64) :
    op.result? (.ofInt x) (.ofInt y) = some (.ofBool (op.onWords x y)) := by
  simp [result?]

theorem result?_floats (op : NativeComparison) (x y : Float) :
    op.result? (.ofFloat x) (.ofFloat y) = some (.ofBool (op.onFloats x y)) := by
  simp [result?, Slot.floatTag_ne_intTag]

theorem pair_of_result? {op : NativeComparison} {a b : Value} {s : Slot}
    (h : op.result? (.ofValue a) (.ofValue b) = some s) : Slot.Pair a b := by
  cases a <;> cases b <;> first | exact .ints _ _ | exact .floats _ _ | cases h

theorem primitive_words {op : CompareOperator} {form : NativeComparison} (hop : of? op = some form)
    (x y : Int64) : Primitive.compare op (.int x) (.int y) = .ok (.bool (form.onWords x y)) := by
  have order : Primitive.order (.int x) (.int y) = .ok (some (compare x.toInt y.toInt)) := rfl
  have equal : Primitive.equal (.int x) (.int y) =
      .ok (some (compare x.toInt y.toInt) == some .eq) := rfl
  rcases Int.lt_trichotomy x.toInt y.toInt with h | h | h
  · have ne : x ≠ y := fun e => by subst e; omega
    cases op <;> cases hop <;>
      simp [Primitive.compare, Primitive.ordered, order, equal, Int.compare_eq_lt.mpr h, onWords,
        Int64.lt_iff_toInt_lt, Int64.le_iff_toInt_le, Except.map, ne, h] <;> omega
  · obtain rfl := Int64.toInt_inj.mp h
    cases op <;> cases hop <;>
      simp [Primitive.compare, Primitive.ordered, order, equal, onWords, Except.map]
  · have ne : x ≠ y := fun e => by subst e; omega
    cases op <;> cases hop <;>
      simp [Primitive.compare, Primitive.ordered, order, equal, Int.compare_eq_gt.mpr h, onWords,
        Int64.lt_iff_toInt_lt, Int64.le_iff_toInt_le, Except.map, ne, h] <;> omega

theorem primitive_floats {op : CompareOperator} {form : NativeComparison} (hop : of? op = some form)
    (x y : Float) :
    Primitive.compare op (.float x) (.float y) = .ok (.bool (form.onFloats x y)) := by
  have order : Primitive.order (.float x) (.float y) = .ok (Binary64.order? x y) := by
    rw [← Binary64.compare?_eq]
    rfl
  have equal : Primitive.equal (.float x) (.float y) = .ok (Binary64.order? x y == some .eq) := by
    rw [← Binary64.compare?_eq]
    rfl
  have swap := Binary64.order?_swap x y
  have lt := Binary64.lt_eq
  have le := Binary64.le_eq
  have beq := Binary64.beq_eq
  cases op <;> cases hop <;>
    simp only [Primitive.compare, Primitive.ordered, order, equal, onFloats, bne, lt, le, beq, swap,
      Except.map] <;>
    generalize Binary64.order? x y = o <;> rcases o with _ | o <;>
    first | rfl | (cases o <;> rfl)

theorem primitive_of_result? {op : CompareOperator} {form : NativeComparison} {a b : Value}
    {s : Slot} (hop : of? op = some form)
    (hs : form.result? (.ofValue a) (.ofValue b) = some s) :
    ∃ v, Primitive.compare op a b = .ok v ∧ s = .ofValue v := by
  cases pair_of_result? hs with
  | ints x y =>
    rw [Slot.ofValue_int, Slot.ofValue_int, result?_ints] at hs
    cases hs
    exact ⟨_, primitive_words hop x y, rfl⟩
  | floats x y =>
    rw [Slot.ofValue_float, Slot.ofValue_float, result?_floats] at hs
    cases hs
    exact ⟨_, primitive_floats hop x y, rfl⟩

end NativeComparison

/-! ## Sign and truth -/

namespace Slot

theorem negate?_ofInt (i : Int64) :
    (ofInt i).negate? = if i = Int64.minValue then none else some (ofInt (-i)) := by
  simp only [negate?, tag_ofInt, toInt64_ofInt, if_true]

theorem primitive_of_negate? {a : Value} {s : Slot} (hs : (ofValue a).negate? = some s) :
    ∃ v, Primitive.unary .neg a = .ok v ∧ s = ofValue v := by
  cases a with
  | none | object _ => cases hs
  | bool b => cases hs
  | int i =>
    rw [ofValue_int, negate?_ofInt] at hs
    split at hs
    · cases hs
    · rename_i hi
      cases hs
      exact ⟨.int (-i),
        by simp only [Primitive.unary, Primitive.neg, WordForm.neg?_eq, if_neg hi]; rfl,
        rfl⟩
  | float x =>
    simp [negate?, floatTag_ne_intTag] at hs
    exact ⟨.float (-x), rfl, hs.symm⟩

theorem truth_ofValue (h : Heap) (v : Value) : (ofValue v).truth h = h.truth v := by
  cases v with
  | none => rfl
  | bool b => cases b <;> rfl
  | int i =>
    have nonzero : (i.toUInt64 != 0) = (i != 0) := by
      rw [Bool.eq_iff_iff, bne_iff_ne, bne_iff_ne]
      refine not_congr ⟨fun h => ?_, fun h => h ▸ rfl⟩
      simpa using congrArg UInt64.toInt64 h
    simp only [truth, inlineTruth, ofValue, ofInt, Heap.truth, Value.truth?, nonzero]
    rfl
  | float x =>
    simp only [truth, inlineTruth, ofValue_float, tag_ofFloat, ofBits_ofFloat]
    rfl
  | object handle =>
    simp only [truth, value?_ofValue]
    rfl

end Slot

end RegisterVm
