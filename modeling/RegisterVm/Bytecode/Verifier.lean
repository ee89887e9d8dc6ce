import RegisterVm.Bytecode.Loop

/-!
# Verification

`Chunk.verify` checks once, before a chunk is run, that every operand of every instruction is
valid: registers against the register count, constants and names against the pool, branch targets
against the instructions. The first defect found is reported.
-/

namespace RegisterVm

/-- What is wrong with an instruction. -/
inductive Defect where
  | registerOutOfRange (register count : UInt32)
  | constantOutOfRange (index : UInt32)
  | nameNotString (index : UInt32)
  | targetOutOfRange (target : Nat)
  | backwardTarget (mnemonic : String) (target : Nat)
  | functionOutOfRange (index : UInt32)
  deriving DecidableEq

/-- Why a chunk is refused. -/
inductive VerifyError where
  | atInstruction (function : String) (address : Nat) (defect : Defect)
  | tooManyParams (function : String) (params registers : UInt32)
  deriving DecidableEq

namespace Defect

def name : Defect → String
  | registerOutOfRange _ _ => "RegisterOutOfRange"
  | constantOutOfRange _ => "ConstantOutOfRange"
  | nameNotString _ => "NameNotString"
  | targetOutOfRange _ => "TargetOutOfRange"
  | backwardTarget _ _ => "BackwardTarget"
  | functionOutOfRange _ => "FunctionOutOfRange"

def message : Defect → String
  | registerOutOfRange register count =>
    s!"register r{register.toNat} out of range (register_count {count.toNat})"
  | constantOutOfRange index => s!"constant #{index.toNat} out of range"
  | nameNotString index => s!"name operand #{index.toNat} is not a string constant"
  | targetOutOfRange target => s!"target {target} out of range"
  | backwardTarget mnemonic target => s!"{mnemonic} target {target} must point forward"
  | functionOutOfRange index => s!"nested function {index.toNat} out of range"

end Defect

namespace VerifyError

def name : VerifyError → String
  | atInstruction _ _ defect => defect.name
  | tooManyParams _ _ _ => "TooManyParams"

def message : VerifyError → String
  | atInstruction function address defect => s!"{function}@{address}: {defect.message}"
  | tooManyParams function params registers =>
    s!"{function}: param_count {params.toNat} exceeds register_count {registers.toNat}"

end VerifyError

namespace Chunk

def registerDefect? (c : Chunk) (op : Opcode) : Option Defect :=
  (op.spans.findSome? fun s => s.firstFrom? c.registerCount).map fun r =>
    .registerOutOfRange r.index c.registerCount

def constantDefect? (c : Chunk) : Opcode → Option Defect
  | .loadConst _ index =>
    if c.constants.size ≤ index.toNat then some (.constantOutOfRange index) else none
  | _ => none

def nameDefect? (c : Chunk) (op : Opcode) : Option Defect :=
  op.nameOperand?.bind fun index =>
    match c.constants[index.toNat]? with
    | some (.str _) => none
    | some _ => some (.nameNotString index)
    | none => some (.constantOutOfRange index)

def targetDefect? (c : Chunk) (address : Nat) (op : Opcode) : Option Defect :=
  op.branchTarget?.bind fun target =>
    if c.instructions.size ≤ target then some (.targetOutOfRange target)
    else if op.isForwardOnly && target ≤ address then some (.backwardTarget op.mnemonic target)
    else none

def functionDefect? (c : Chunk) : Opcode → Option Defect
  | .makeFunction _ index =>
    if c.nested.length ≤ index.toNat then some (.functionOutOfRange index) else none
  | _ => none

/-- The first defect of the instruction at an address. -/
def defect? (c : Chunk) (address : Nat) (op : Opcode) : Option Defect :=
  (c.registerDefect? op).or <| (c.constantDefect? op).or <| (c.nameDefect? op).or <|
    (c.targetDefect? address op).or (c.functionDefect? op)

/-- The first defective instruction of `ops`, the first of which has address `address`. -/
def firstDefect? (c : Chunk) (address : Nat) : List Opcode → Option (Nat × Defect)
  | [] => none
  | op :: ops =>
    match c.defect? address op with
    | some d => some (address, d)
    | none => c.firstDefect? (address + 1) ops

/-- Checks a chunk without the functions nested in it. -/
def verifyOwn (c : Chunk) : Except VerifyError Unit :=
  if c.registerCount < c.paramCount then
    .error (.tooManyParams c.name c.paramCount c.registerCount)
  else
    match c.firstDefect? 0 (c.instructions.toList.map (·.opcode)) with
    | some (address, d) => .error (.atInstruction c.name address d)
    | none => .ok ()

mutual

/-- Checks a chunk, then the functions nested in it. -/
def verify : Chunk → Except VerifyError Unit
  | ⟨name, instructions, constants, registerCount, paramCount, nested⟩ =>
    match verifyOwn ⟨name, instructions, constants, registerCount, paramCount, nested⟩ with
    | .error e => .error e
    | .ok () => verifyAll nested

def verifyAll : List Chunk → Except VerifyError Unit
  | [] => .ok ()
  | c :: cs =>
    match c.verify with
    | .error e => .error e
    | .ok () => verifyAll cs

end

end Chunk

end RegisterVm
