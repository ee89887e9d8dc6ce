import RegisterVm.Bytecode.Loop
import RegisterVm.Failure
import RegisterVm.Loop.WordArithmetic
import RegisterVm.Value.Slot

/-!
# Compiled loops

`CompiledLoop.compile` turns the instructions of a loop into native forms, one each. A native form
tests the tags of its operands and works on machine words or floats; what it cannot do itself is
left to the general execution of the instruction. Loops with exception handlers are not compiled.
-/

namespace RegisterVm

inductive FloatForm where
  | add | sub | mul | div
  deriving DecidableEq

def FloatForm.apply : FloatForm → Float → Float → Float
  | add, x, y => x + y
  | sub, x, y => x - y
  | mul, x, y => x * y
  | div, x, y => x / y

/-- What an operator does on two words and on two floats. -/
structure NativeArithmetic where
  word : Option WordForm
  float : Option FloatForm
  deriving DecidableEq

/-- The native forms of an operator; division of words and the operators below it have none. -/
def NativeArithmetic.of? : BinaryOperator → Option NativeArithmetic
  | .add => some ⟨some .add, some .add⟩
  | .sub => some ⟨some .sub, some .sub⟩
  | .mul => some ⟨some .mul, some .mul⟩
  | .div => some ⟨none, some .div⟩
  | .bitAnd => some ⟨some .and, none⟩
  | .bitOr => some ⟨some .or, none⟩
  | .bitXor => some ⟨some .xor, none⟩
  | .floorDiv | .mod | .pow | .shl | .shr => none

inductive NativeComparison where
  | lt | le | gt | ge | eq | ne
  deriving DecidableEq

namespace NativeComparison

def of? : CompareOperator → Option NativeComparison
  | .lt => some lt
  | .le => some le
  | .gt => some gt
  | .ge => some ge
  | .eq => some eq
  | .ne => some ne
  | .is | .isNot | .mem | .notMem => none

def onWords : NativeComparison → Int64 → Int64 → Bool
  | lt, a, b => a < b
  | le, a, b => a ≤ b
  | gt, a, b => b < a
  | ge, a, b => b ≤ a
  | eq, a, b => a == b
  | ne, a, b => a != b

def onFloats : NativeComparison → Float → Float → Bool
  | lt, x, y => x < y
  | le, x, y => x ≤ y
  | gt, x, y => y < x
  | ge, x, y => y ≤ x
  | eq, x, y => x == y
  | ne, x, y => x != y

end NativeComparison

/-- The right operand of an arithmetic form. -/
inductive NativeOperand where
  | register (r : Register)
  | word (i : Int64)
  deriving DecidableEq

/-- What compiled code does for an instruction. -/
inductive NativeForm where
  | skip
  | constant (dst : Register) (slot : Slot)
  | copy (dst src : Register)
  | arithmetic (form : NativeArithmetic) (dst lhs : Register) (rhs : NativeOperand)
  | compare (op : NativeComparison) (dst lhs rhs : Register)
  | negate (dst src : Register)
  | jump (target : Nat)
  | branch (on : Bool) (cond : Register) (target : Nat)
  /-- Leave the loop at this instruction. -/
  | leave
  /-- Leave the instruction to the general execution, which may branch to a target. -/
  | general (target : Option Nat)
  deriving DecidableEq

/-- The slot of a constant that needs no object. -/
def Constant.slot? : Constant → Option Slot
  | int i => some (.ofInt i)
  | float x => some (.ofFloat x)
  | bool b => some (.ofBool b)
  | none => some (.ofValue .none)
  | str _ => Option.none

namespace NativeForm

def ofArithmetic (op : BinaryOperator) (dst lhs : Register) (rhs : NativeOperand) : NativeForm :=
  match NativeArithmetic.of? op with
  | some form => arithmetic form dst lhs rhs
  | none => general none

def ofComparison (op : CompareOperator) (dst lhs rhs : Register) : NativeForm :=
  match NativeComparison.of? op with
  | some op => compare op dst lhs rhs
  | none => general none

/-- The native form of an instruction of a chunk. -/
def ofOpcode (c : Chunk) : Opcode → NativeForm
  | .nop => skip
  | .loadInt dst value => constant dst (.ofInt value)
  | .loadBool dst value => constant dst (.ofBool value)
  | .loadNone dst => constant dst (.ofValue .none)
  | .loadConst dst index =>
    match c.constants[index.toNat]?.bind Constant.slot? with
    | some slot => constant dst slot
    | none => general none
  | .move dst src => copy dst src
  | .binary op dst lhs rhs => ofArithmetic op dst lhs (.register rhs)
  | .fast form dst lhs rhs => ofArithmetic form.operator dst lhs (.register rhs)
  | .increment reg => ofArithmetic .add reg reg (.word 1)
  | .decrement reg => ofArithmetic .sub reg reg (.word 1)
  | .update form reg src => ofArithmetic form.operator reg reg (.register src)
  | .compare op dst lhs rhs => ofComparison op dst lhs rhs
  | .fastLess dst lhs rhs => ofComparison .lt dst lhs rhs
  | .unary .neg dst src => negate dst src
  | .jump target => jump target.toNat
  | .branch on cond target => branch on cond target.toNat
  | .ret _ | .retNone => leave
  | op => general op.branchTarget?

end NativeForm

structure CompiledLoop where
  range : LoopRange
  /-- The registers that the loop names, in increasing order. -/
  registers : List Register
  /-- The forms of the instructions from the header on. -/
  forms : Array NativeForm

namespace CompiledLoop

/-- The largest register whose slot a 32-bit offset can address. -/
def maxRegister : UInt32 := 134217726

/-- The registers of a loop, unless one has no slot. -/
def registerMap (c : Chunk) (l : LoopRange) : Except Fault (List Register) :=
  let registers := c.loopRegisters l
  match registers.find? fun r => maxRegister < r.index with
  | some r => .error (.registerBeyondSlots r.toNat)
  | none => .ok registers

/-- The fault of an instruction that is not compiled. -/
def handlerFault? (address : Nat) : Opcode → Option Fault
  | .pushTry _ _ => some (.handlerInLoop "PushTry" address)
  | .popTry => some (.handlerInLoop "PopTry" address)
  | _ => none

/-- The first fault among instructions, the first of which has address `address`. -/
def firstFault? (address : Nat) : List Opcode → Option Fault
  | [] => none
  | op :: ops => (handlerFault? address op).or (firstFault? (address + 1) ops)

/-- The instructions of a range. -/
def opcodes (c : Chunk) (l : LoopRange) : List Opcode :=
  ((c.instructions.toList.drop l.header).take l.size).map (·.opcode)

/-- Refuses ranges beyond the chunk and loops with exception handlers. -/
def check (c : Chunk) (l : LoopRange) : Except Fault Unit :=
  if c.instructions.size ≤ l.backEdge then
    .error (.loopTooLong l.header l.backEdge c.instructions.size)
  else
    match firstFault? l.header (opcodes c l) with
    | some fault => .error fault
    | none => .ok ()

/-- The first register of some instructions that is not mapped. -/
def unmapped? (registers : List Register) (ops : List Opcode) : Option Register :=
  (ops.flatMap (·.registers)).find? fun r => !registers.contains r

def compile (c : Chunk) (l : LoopRange) : Except Fault CompiledLoop := do
  let registers ← registerMap c l
  check c l
  let ops := opcodes c l
  match unmapped? registers ops with
  | some r => .error (.registerNotMapped r.toNat)
  | none => return ⟨l, registers, (ops.map (NativeForm.ofOpcode c)).toArray⟩

end CompiledLoop

end RegisterVm
