import RegisterVm.Machine.Step

/-!
# Inline execution is general execution

Inline execution tries a primitive operation first. When a primitive operation has a result, the
operation on any values has the same one (`HeapM.binary_of_primitive`, `HeapM.compare_of_primitive`,
`HeapM.unary_of_primitive`, `HeapM.addInPlace_of_primitive`); when it has none, inline execution
goes on with that operation. So the two ways of running an instruction are one function
(`MachineM.execInline_eq`).
-/

namespace RegisterVm

/-! ## Operands of primitive operations -/

namespace Primitive

theorem isNumber_of_onNumbers {onInt : Int64 → Int64 → Result} {onFloat : Float → Float → Float}
    {a b v : Value} (h : onNumbers onInt onFloat a b = .ok v) :
    (a.isNumber && b.isNumber) = true := by
  cases a <;> cases b <;> simp [onNumbers, number?] at h <;> rfl

theorem isNumber_of_onInts {onInt : Int64 → Int64 → Result} {a b v : Value}
    (h : onInts onInt a b = .ok v) : (a.isNumber && b.isNumber) = true := by
  cases a <;> cases b <;> simp [onInts, Value.asInt?] at h <;> rfl

theorem isNumber_of_bitwise {onBool : Bool → Bool → Bool} {onInt : Int64 → Int64 → Int64}
    {a b v : Value} (h : bitwise onBool onInt a b = .ok v) :
    (a.isNumber && b.isNumber) = true := by
  unfold bitwise at h
  split at h
  · rfl
  · exact isNumber_of_onInts h

/-- A primitive operator has a result on primitive numbers only. -/
theorem isNumber_of_binary {op : BinaryOperator} {a b v : Value} (h : binary op a b = .ok v) :
    (a.isNumber && b.isNumber) = true := by
  cases op with
  | add | sub | mul | div | floorDiv | mod | pow => exact isNumber_of_onNumbers h
  | bitAnd | bitOr | bitXor => exact isNumber_of_bitwise h
  | shl | shr => exact isNumber_of_onInts h

/-- A primitive number as the heap sees it: its float, and its integer unless it is a float. -/
theorem views_of_number? {v : Value} {n : Number} (h : Heap) (hv : number? v = some n) :
    h.float? v = some n.toFloat ∧
      h.integer? v = match n with
        | .int i => some i.toInt
        | .float _ => none := by
  cases v with
  | int i => cases hv; exact ⟨rfl, rfl⟩
  | bool b => cases hv; cases b <;> exact ⟨rfl, rfl⟩
  | float x => cases hv; exact ⟨rfl, rfl⟩
  | none | object _ => cases hv

end Primitive

/-! ## Results of primitive operations -/

open Primitive in
theorem Heap.numberOrder?_of_primitive {a b : Value} {o : Option Ordering} (h : Heap)
    (ho : Primitive.order a b = .ok o) : h.numberOrder? a b = some o := by
  unfold Primitive.order at ho
  unfold Heap.numberOrder?
  split at ho
  · rename_i x y ha hb
    cases ho
    rw [(views_of_number? h ha).2, (views_of_number? h hb).2]
  · rename_i x y notBothInt ha hb
    cases ho
    obtain ⟨fa, ia⟩ := views_of_number? h ha
    obtain ⟨fb, ib⟩ := views_of_number? h hb
    rw [ia, ib, fa, fb]
    cases x with
    | float x => rfl
    | int x =>
      cases y with
      | float y => rfl
      | int y => exact absurd rfl (notBothInt x y rfl)
  · cases ho

theorem Heap.ordered_of_primitive {accepts : Ordering → Bool} {a b v : Value} (h : Heap)
    (symbol : String) (hv : Primitive.ordered accepts a b = .ok v) :
    (h.ordered symbol accepts a b).map Value.bool = .ok v := by
  unfold Primitive.ordered at hv
  cases ho : Primitive.order a b with
  | error e => rw [ho] at hv; cases hv
  | ok o =>
    rw [ho] at hv
    cases hv
    have order : h.order symbol a b = .ok o := by
      simp only [Heap.order, Heap.orderWithin, h.numberOrder?_of_primitive ho]
    rw [Heap.ordered, order]
    rfl

theorem Heap.equal_of_primitive {a b : Value} {t : Bool} (h : Heap)
    (ht : Primitive.equal a b = .ok t) : h.equal a b = .ok t := by
  have noObjects : (!a.isObject && !b.isObject) = true := by
    cases a <;> cases b <;> first | rfl | cases ht
  simp only [Heap.equal, Heap.equalWithin, noObjects, ht, if_true]
  rfl

namespace HeapM

theorem binary_of_primitive {op : BinaryOperator} {a b v : Value}
    (hv : Primitive.binary op a b = .ok v) : binary op a b = pure v := by
  rw [binary, if_pos (Primitive.isNumber_of_binary hv), hv]

theorem compare_of_primitive {op : CompareOperator} {a b v : Value}
    (hv : Primitive.compare op a b = .ok v) : compare op a b = pure v := by
  have holds : ∀ h : Heap, (h.holds op a b).map Value.bool = .ok v := by
    intro h
    cases op with
    | lt | le | gt | ge => exact h.ordered_of_primitive _ hv
    | eq | ne =>
      simp only [Primitive.compare] at hv
      cases ht : Primitive.equal a b with
      | error e => rw [ht] at hv; cases hv
      | ok t =>
        rw [ht] at hv
        cases hv
        simp only [Heap.holds, h.equal_of_primitive ht]
        rfl
    | is | isNot | mem | notMem => cases hv
  funext h
  simp only [compare, inspect, holds]
  rfl

theorem unary_of_primitive {op : UnaryOperator} {a v : Value}
    (hv : Primitive.unary op a = .ok v) : unary op a = pure v := by
  cases op with
  | not =>
    cases ht : a.truth? with
    | none => simp [Primitive.unary, Primitive.not, ht] at hv
    | some t =>
      simp only [Primitive.unary, Primitive.not, ht] at hv
      cases hv
      funext h
      simp only [unary, Heap.truth, ht]
      rfl
  | neg | pos | invert =>
    have isNumber : a.isNumber = true := by
      cases a <;> first | rfl | cases hv
    simp [unary, isNumber, hv]

theorem addInPlace_of_primitive {a b v : Value} (hv : Primitive.add a b = .ok v) :
    addInPlace a b = pure v := by
  have isNumber := Primitive.isNumber_of_onNumbers hv
  have noList : isList a = pure false := by
    cases a <;> first | rfl | simp [Value.isNumber] at isNumber
  rw [addInPlace, noList]
  exact binary_of_primitive (show Primitive.binary .add a b = .ok v from hv)

end HeapM

/-! ## Instructions -/

namespace MachineM

theorem storeOr_eq {dst : Register} {result : Primitive.Result} {operation : HeapM Value}
    (h : ∀ v, result = .ok v → operation = pure v) :
    storeOr dst result operation = store dst operation := by
  cases result with
  | error kind => rfl
  | ok v => rw [h v rfl]; rfl

theorem inlineBinary_eq (op : BinaryOperator) (dst : Register) (a b : Value) :
    inlineBinary op dst a b = store dst (HeapM.binary op a b) :=
  storeOr_eq fun _ => HeapM.binary_of_primitive

theorem inlineCompare_eq (op : CompareOperator) (dst : Register) (a b : Value) :
    inlineCompare op dst a b = store dst (HeapM.compare op a b) :=
  storeOr_eq fun _ => HeapM.compare_of_primitive

theorem inlineUnary_eq (op : UnaryOperator) (dst : Register) (a : Value) :
    inlineUnary op dst a = store dst (HeapM.unary op a) :=
  storeOr_eq fun _ => HeapM.unary_of_primitive

theorem inlineUpdate_eq (dst : Register) (a b : Value) :
    storeOr dst (Primitive.add a b) (HeapM.addInPlace a b) = store dst (HeapM.addInPlace a b) :=
  storeOr_eq fun _ => HeapM.addInPlace_of_primitive

/-- Inline execution of an instruction is its general execution. -/
theorem execInline_eq (f : LoadedFunction) (values : Array Value) (pc : Nat) (op : Opcode) :
    execInline f values pc op = exec f values pc op := by
  unfold execInline
  cases op with
  | update form r src => cases form <;> simp only [exec, inlineBinary_eq, inlineUpdate_eq]
  | _ => simp only [exec, inlineBinary_eq, inlineCompare_eq, inlineUnary_eq]

end MachineM

/-- The interpreter runs an instruction as the general execution does. -/
theorem interpret_eq {f : LoadedFunction} {frame : Frame} {op : Opcode}
    (hop : f.chunk.opcode? frame.pc = some op) (m : Machine) (callers : List Frame) :
    interpret f m frame callers =
      match MachineM.exec f frame.file.values frame.pc op m with
      | .ok effect m => perform effect f m frame callers
      | .error e m => unwind e m frame callers := by
  cases result : MachineM.exec f frame.file.values frame.pc op m <;>
    simp only [interpret, hop, MachineM.execInline_eq, result]

namespace MachineM

/-- **Inline execution agrees with general execution** on every instruction, register file and
machine: the effect, the machine afterwards or the failure are the same, and so is the step of the
interpreter. Whenever a primitive operation has a result, the operation on any values has it too and
leaves the heap alone; whenever it has none, the instruction ends as that operation does. -/
theorem execInline_agrees :
    (∀ f values pc op m, execInline f values pc op m = exec f values pc op m) ∧
    (∀ f m frame callers op, f.chunk.opcode? frame.pc = some op →
      interpret f m frame callers =
        match exec f frame.file.values frame.pc op m with
        | .ok effect m => perform effect f m frame callers
        | .error e m => unwind e m frame callers) ∧
    (∀ op a b v h, Primitive.binary op a b = .ok v → HeapM.binary op a b h = .ok v h) ∧
    (∀ op a b v h, Primitive.compare op a b = .ok v → HeapM.compare op a b h = .ok v h) ∧
    (∀ op a v h, Primitive.unary op a = .ok v → HeapM.unary op a h = .ok v h) ∧
    (∀ a b v h, Primitive.add a b = .ok v → HeapM.addInPlace a b h = .ok v h) ∧
    (∀ op dst a b kind, Primitive.binary op a b = .error kind →
      inlineBinary op dst a b = store dst (HeapM.binary op a b)) ∧
    (∀ op dst a b kind, Primitive.compare op a b = .error kind →
      inlineCompare op dst a b = store dst (HeapM.compare op a b)) ∧
    (∀ op dst a kind, Primitive.unary op a = .error kind →
      inlineUnary op dst a = store dst (HeapM.unary op a)) ∧
    (∀ dst a b kind, Primitive.add a b = .error kind →
      storeOr dst (Primitive.add a b) (HeapM.addInPlace a b) =
        store dst (HeapM.addInPlace a b)) := by
  refine ⟨fun f values pc op m => by rw [execInline_eq],
    fun f m frame callers op hop => interpret_eq hop m callers, ?_, ?_, ?_, ?_, ?_, ?_, ?_, ?_⟩
  · intro op a b v h hv
    rw [HeapM.binary_of_primitive hv]
    rfl
  · intro op a b v h hv
    rw [HeapM.compare_of_primitive hv]
    rfl
  · intro op a v h hv
    rw [HeapM.unary_of_primitive hv]
    rfl
  · intro a b v h hv
    rw [HeapM.addInPlace_of_primitive hv]
    rfl
  · intro op dst a b _ _
    exact inlineBinary_eq op dst a b
  · intro op dst a b _ _
    exact inlineCompare_eq op dst a b
  · intro op dst a _ _
    exact inlineUnary_eq op dst a
  · intro dst a b _ _
    exact inlineUpdate_eq dst a b

/-- Inline execution on small integers, where every primitive operation has a result but division by
zero. -/
theorem execInline_agrees_integers :
    (∃ (f : LoadedFunction) (frame : Frame), f.chunk.opcode? frame.pc = some (.increment ⟨0⟩) ∧
      frame.file.values = #[.int 6] ∧ ∃ y, interpret f (.start .standard) frame [] = .running y ∧
        y.frame.file.values = #[.int 7]) ∧
    HeapM.binary .add (.int 2) (.int 3) .empty = .ok (.int 5) .empty ∧
    HeapM.compare .lt (.int 2) (.int 3) .empty = .ok (.bool true) .empty ∧
    HeapM.unary .neg (.int 2) .empty = .ok (.int (-2)) .empty ∧
    HeapM.addInPlace (.int 2) (.int 3) .empty = .ok (.int 5) .empty ∧
    inlineBinary .div ⟨0⟩ (.int 2) (.int 0) =
      store ⟨0⟩ (HeapM.binary .div (.int 2) (.int 0)) := by
  obtain ⟨-, step, binary, compare, unary, update, failed, -⟩ := execInline_agrees
  let f : LoadedFunction := ⟨⟨"main", #[⟨.increment ⟨0⟩, none⟩], #[], 1, 0, []⟩, #[], []⟩
  let frame : Frame := ⟨0, ⟨#[.int 6], true⟩, 0, [], none, none⟩
  exact ⟨⟨f, frame, rfl, rfl, _, step f (.start .standard) frame [] _ rfl, rfl⟩,
    binary _ _ _ _ _ rfl, compare _ _ _ _ _ rfl, unary _ _ _ _ rfl, update _ _ _ _ rfl,
    failed _ _ _ _ .divisionByZero rfl⟩

end MachineM

end RegisterVm
