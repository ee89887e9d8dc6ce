import RegisterVm.Proofs.Loop.NativeForm
import RegisterVm.Proofs.Machine.Inline
import RegisterVm.Proofs.Machine.Registers

/-!
# Running native forms

`NativeForm.run_agrees` compares the native form of an instruction, run on the variables of a loop,
with the execution of the instruction on the values that they hold. Where the form goes on by itself
the instruction has the same effect and leaves the machine alone; where it fails the instruction
fails in the same way.
-/

namespace RegisterVm

/-- What a native form does with the variables `vars`, when the instruction `op` at address `pc`
gives `result` on a machine `m`. -/
inductive NativeOutcome.Agrees (vars : Array Slot) (op : Opcode) (pc : Nat) (m : Machine)
    (result : EStateM.Result Failure Machine Effect) : NativeOutcome → Prop
  | next : result = .ok .next m → Agrees vars op pc m result (.goto vars (pc + 1))
  | write (dst : Register) (v : Value) : dst ∈ op.registers → result = .ok (.write dst v) m →
    Agrees vars op pc m result (.goto (storeSlot vars dst (.ofValue v)) (pc + 1))
  | jump (target : Nat) : result = .ok (.jump target) m →
    Agrees vars op pc m result (.goto vars target)
  | general (target : Option Nat) : ¬op.IsReturn → target = op.branchTarget? →
    Agrees vars op pc m result (.general vars target)
  | leave : op.IsReturn → Agrees vars op pc m result (.leave vars)
  | failed (e : Failure) : result = .error e m → Agrees vars op pc m result (.failed vars e)

/-- An instruction that only stores a result in `dst`. -/
structure Opcode.Stores (op : Opcode) (dst : Register) : Prop where
  register : dst ∈ op.registers
  target : op.branchTarget? = none
  noReturn : ¬op.IsReturn

namespace NativeForm

open MachineM

variable {fs : Array LoadedFunction} {f : LoadedFunction} {values : Array Value} {vars : Array Slot}
  {m : Machine} {pc : Nat}

/-- A result stored by a form is stored by the instruction. -/
theorem storeOr_agrees {op : Opcode} {dst : Register} {o : Option Slot} {operation : HeapM Value}
    {result : EStateM.Result Failure Machine Effect} (stores : op.Stores dst)
    (hr : result = MachineM.store dst operation m)
    (ho : ∀ s, o = some s → ∃ v, s = .ofValue v ∧ operation = pure v) :
    NativeOutcome.Agrees vars op pc m result (storeOr vars dst (pc + 1) o) := by
  cases o with
  | none => exact .general none stores.noReturn stores.target.symm
  | some s =>
    obtain ⟨v, rfl, pure⟩ := ho s rfl
    exact .write dst v stores.register (by rw [hr, pure]; rfl)

theorem arithmetic_agrees {op : Opcode} {o : BinaryOperator} {dst lhs : Register}
    {rhs : NativeOperand} {a b : Value} {operation : HeapM Value}
    {result : EStateM.Result Failure Machine Effect} (stores : op.Stores dst)
    (ha : loadSlot vars lhs = .ofValue a) (hb : operand vars rhs = .ofValue b)
    (hr : result = MachineM.store dst operation m)
    (ho : ∀ v, Primitive.binary o a b = .ok v → operation = pure v) :
    NativeOutcome.Agrees vars op pc m result ((ofArithmetic o dst lhs rhs).run m.heap vars pc) := by
  unfold ofArithmetic
  split
  · rename_i form hform
    refine storeOr_agrees stores hr fun s hs => ?_
    rw [ha, hb] at hs
    obtain ⟨v, primitive, same⟩ := NativeArithmetic.primitive_of_result? hform hs
    exact ⟨v, same, ho v primitive⟩
  · exact .general none stores.noReturn stores.target.symm

theorem comparison_agrees {op : Opcode} {o : CompareOperator} {dst lhs rhs : Register} {a b : Value}
    {result : EStateM.Result Failure Machine Effect} (stores : op.Stores dst)
    (ha : loadSlot vars lhs = .ofValue a) (hb : loadSlot vars rhs = .ofValue b)
    (hr : result = MachineM.store dst (HeapM.compare o a b) m) :
    NativeOutcome.Agrees vars op pc m result ((ofComparison o dst lhs rhs).run m.heap vars pc) := by
  unfold ofComparison
  split
  · rename_i form hform
    refine storeOr_agrees stores hr fun s hs => ?_
    rw [ha, hb] at hs
    obtain ⟨v, primitive, same⟩ := NativeComparison.primitive_of_result? hform hs
    exact ⟨v, same, HeapM.compare_of_primitive primitive⟩
  · exact .general none stores.noReturn stores.target.symm

theorem jumpWhen_eq (on : Bool) (v : Value) (target : UInt32) (m : Machine) :
    jumpWhen on v target m = match m.heap.truth v with
      | .ok t => .ok (if t = on then .jump target.toNat else .next) m
      | .error e => .error e m := by
  simp only [jumpWhen, Bind.bind, EStateM.bind, MachineM.read]
  cases m.heap.truth v with
  | error e => rfl
  | ok t => by_cases taken : t = on <;> simp only [taken, if_true, if_false] <;> rfl

/-- **A native form agrees with its instruction.** -/
theorem run_agrees {op : Opcode} (fits : op.Fits f.chunk f.children.size pc)
    (size : values.size = f.chunk.registerCount.toNat)
    (held : ∀ r ∈ op.registers, loadSlot vars r = .ofValue ((values[r.toNat]?).getD .none)) :
    NativeOutcome.Agrees vars op pc m (exec f values pc op m)
      ((ofOpcode f.chunk op).run m.heap vars pc) := by
  have reg : ∀ r ∈ op.registers,
      ∃ v, MachineM.reg values r = pure v ∧ loadSlot vars r = .ofValue v := by
    intro r hr
    have bound : r.toNat < values.size := size ▸ fits.register hr
    exact ⟨_, reg_eq bound, by rw [held r hr, Array.getElem?_eq_getElem bound]; rfl⟩
  cases op with
  | nop => exact .next rfl
  | loadInt dst value => exact .write dst (.int value) (by simp [Opcode.spans]) rfl
  | loadBool dst value => exact .write dst (.bool value) (by simp [Opcode.spans]) rfl
  | loadNone dst => exact .write dst .none (by simp [Opcode.spans]) rfl
  | loadConst dst index =>
    have bound := fits.constant dst index rfl
    have hdst : dst ∈ (Opcode.loadConst dst index).registers := by simp [Opcode.spans]
    unfold ofOpcode
    simp only [exec, MachineM.constant, Array.getElem?_eq_getElem bound, Option.bind_some]
    cases f.chunk.constants[index.toNat] with
    | str s => exact .general none (by simp [Opcode.IsReturn]) rfl
    | int i => exact .write dst (.int i) hdst rfl
    | float x => exact .write dst (.float x) hdst rfl
    | bool b => exact .write dst (.bool b) hdst rfl
    | none => exact .write dst .none hdst rfl
  | move dst src =>
    obtain ⟨v, read, slot⟩ := reg src (by simp [Opcode.spans])
    have form : ofOpcode f.chunk (.move dst src) = .copy dst src := rfl
    simp only [form, run, slot]
    exact .write dst v (by simp [Opcode.spans]) (by simp only [exec, read]; rfl)
  | binary o dst lhs rhs =>
    obtain ⟨a, readA, slotA⟩ := reg lhs (by simp [Opcode.spans])
    obtain ⟨b, readB, slotB⟩ := reg rhs (by simp [Opcode.spans])
    refine arithmetic_agrees ⟨by simp [Opcode.spans], rfl, by simp [Opcode.IsReturn]⟩ slotA slotB ?_
      fun v => HeapM.binary_of_primitive
    simp only [exec, readA, readB, pure_bind]
  | fast form dst lhs rhs =>
    obtain ⟨a, readA, slotA⟩ := reg lhs (by simp [Opcode.spans])
    obtain ⟨b, readB, slotB⟩ := reg rhs (by simp [Opcode.spans])
    refine arithmetic_agrees ⟨by simp [Opcode.spans], rfl, by simp [Opcode.IsReturn]⟩ slotA slotB ?_
      fun v => HeapM.binary_of_primitive
    simp only [exec, readA, readB, pure_bind]
  | increment r =>
    obtain ⟨a, read, slot⟩ := reg r (by simp [Opcode.spans])
    refine arithmetic_agrees ⟨by simp [Opcode.spans], rfl, by simp [Opcode.IsReturn]⟩ slot
      (show operand vars (.word 1) = .ofValue (.int 1) from rfl) ?_
      fun v (h : Primitive.binary .add a (.int 1) = .ok v) => HeapM.binary_of_primitive h
    simp only [exec, read, pure_bind]
  | decrement r =>
    obtain ⟨a, read, slot⟩ := reg r (by simp [Opcode.spans])
    refine arithmetic_agrees ⟨by simp [Opcode.spans], rfl, by simp [Opcode.IsReturn]⟩ slot
      (show operand vars (.word 1) = .ofValue (.int 1) from rfl) ?_
      fun v (h : Primitive.binary .sub a (.int 1) = .ok v) => HeapM.binary_of_primitive h
    simp only [exec, read, pure_bind]
  | update form r src =>
    obtain ⟨a, readA, slotA⟩ := reg r (by simp [Opcode.spans])
    obtain ⟨b, readB, slotB⟩ := reg src (by simp [Opcode.spans])
    have stores : Opcode.Stores (.update form r src) r :=
      ⟨by simp [Opcode.spans], rfl, by simp [Opcode.IsReturn]⟩
    have agrees : ∀ operation : HeapM Value,
        exec f values pc (.update form r src) m = MachineM.store r operation m →
        (∀ v, Primitive.binary form.operator a b = .ok v → operation = pure v) →
        NativeOutcome.Agrees vars (.update form r src) pc m
          (exec f values pc (.update form r src) m)
          ((ofArithmetic form.operator r r (.register src)).run m.heap vars pc) :=
      fun _ => arithmetic_agrees stores slotA slotB
    cases form with
    | add =>
      refine agrees (HeapM.addInPlace a b) ?_ fun v => HeapM.addInPlace_of_primitive
      simp only [exec, readA, readB, pure_bind]
    | sub | mul | div =>
      refine agrees (HeapM.binary _ a b) ?_ fun v => HeapM.binary_of_primitive
      simp only [exec, readA, readB, pure_bind]
  | compare o dst lhs rhs =>
    obtain ⟨a, readA, slotA⟩ := reg lhs (by simp [Opcode.spans])
    obtain ⟨b, readB, slotB⟩ := reg rhs (by simp [Opcode.spans])
    refine comparison_agrees ⟨by simp [Opcode.spans], rfl, by simp [Opcode.IsReturn]⟩ slotA slotB ?_
    simp only [exec, readA, readB, pure_bind]
  | fastLess dst lhs rhs =>
    obtain ⟨a, readA, slotA⟩ := reg lhs (by simp [Opcode.spans])
    obtain ⟨b, readB, slotB⟩ := reg rhs (by simp [Opcode.spans])
    have stores : Opcode.Stores (.fastLess dst lhs rhs) dst :=
      ⟨by simp [Opcode.spans], rfl, by simp [Opcode.IsReturn]⟩
    have compared : exec f values pc (.fastLess dst lhs rhs) m =
        MachineM.store dst (HeapM.compare .lt a b) m := by
      simp only [exec, readA, readB, pure_bind]
    exact comparison_agrees stores slotA slotB compared
  | unary o dst src =>
    obtain ⟨a, read, slot⟩ := reg src (by simp [Opcode.spans])
    cases o with
    | neg =>
      have stored : exec f values pc (.unary .neg dst src) m =
          MachineM.store dst (HeapM.unary .neg a) m := by
        simp only [exec, read, pure_bind]
      refine storeOr_agrees ⟨by simp [Opcode.spans], rfl, by simp [Opcode.IsReturn]⟩ stored
        fun s hs => ?_
      · rw [slot] at hs
        obtain ⟨v, primitive, same⟩ := Slot.primitive_of_negate? hs
        exact ⟨v, same, HeapM.unary_of_primitive primitive⟩
    | pos | not | invert => exact .general none (by simp [Opcode.IsReturn]) rfl
  | jump target => exact .jump target.toNat rfl
  | branch on cond target =>
    obtain ⟨v, read, slot⟩ := reg cond (by simp [Opcode.spans])
    have jumps : exec f values pc (.branch on cond target) m = jumpWhen on v target m := by
      simp only [exec, read, pure_bind]
    have form : ofOpcode f.chunk (.branch on cond target) = .branch on cond target.toNat := rfl
    rw [jumps, jumpWhen_eq]
    simp only [form, run, slot, Slot.truth_ofValue]
    cases m.heap.truth v with
    | error e => exact .failed e rfl
    | ok t =>
      by_cases taken : t = on
      · simp only [if_pos taken]
        exact .jump target.toNat rfl
      · simp only [if_neg taken]
        exact .next rfl
  | ret src => exact .leave (.inr ⟨src, rfl⟩)
  | retNone => exact .leave (.inl rfl)
  | _ => exact .general _ (by simp [Opcode.IsReturn]) rfl

end NativeForm

end RegisterVm
