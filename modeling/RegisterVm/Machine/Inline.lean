import RegisterVm.Machine.Effect

/-!
# Inline execution

`MachineM.execInline` tries the primitive operation of an instruction first and falls back to the
operation on any values; instructions without a primitive operation are executed generally.
-/

namespace RegisterVm.MachineM

/-- Stores a primitive result, or that of the operation to fall back to. -/
@[inline] def storeOr (dst : Register) (result : Primitive.Result) (operation : HeapM Value) :
    MachineM Effect :=
  match result with
  | .ok v => return .write dst v
  | .error _ => store dst operation

def inlineBinary (op : BinaryOperator) (dst : Register) (a b : Value) : MachineM Effect :=
  storeOr dst (Primitive.binary op a b) (HeapM.binary op a b)

def inlineCompare (op : CompareOperator) (dst : Register) (a b : Value) : MachineM Effect :=
  storeOr dst (Primitive.compare op a b) (HeapM.compare op a b)

def inlineUnary (op : UnaryOperator) (dst : Register) (a : Value) : MachineM Effect :=
  storeOr dst (Primitive.unary op a) (HeapM.unary op a)

/-- Runs an instruction of a function at address `pc`. -/
def execInline (f : LoadedFunction) (values : Array Value) (pc : Nat) (op : Opcode) :
    MachineM Effect :=
  match op with
  | .loadInt dst value => return .write dst (.int value)
  | .loadBool dst value => return .write dst (.bool value)
  | .loadNone dst => return .write dst .none
  | .move dst src => do return .write dst (← reg values src)
  | .binary op dst lhs rhs => do inlineBinary op dst (← reg values lhs) (← reg values rhs)
  | .fast form dst lhs rhs => do
    inlineBinary form.operator dst (← reg values lhs) (← reg values rhs)
  | .compare op dst lhs rhs => do inlineCompare op dst (← reg values lhs) (← reg values rhs)
  | .fastLess dst lhs rhs => do inlineCompare .lt dst (← reg values lhs) (← reg values rhs)
  | .unary op dst src => do inlineUnary op dst (← reg values src)
  | .increment r => do inlineBinary .add r (← reg values r) (.int 1)
  | .decrement r => do inlineBinary .sub r (← reg values r) (.int 1)
  | .update .add r src => do
    let a ← reg values r
    let b ← reg values src
    storeOr r (Primitive.add a b) (HeapM.addInPlace a b)
  | .update form r src => do inlineBinary form.operator r (← reg values r) (← reg values src)
  | .jump target => return .jump target.toNat
  | .branch on cond target => do jumpWhen on (← reg values cond) target
  | .ret src => do return .ret (← reg values src)
  | .retNone => return .ret .none
  | .nop => return .next
  | op => exec f values pc op

end RegisterVm.MachineM
