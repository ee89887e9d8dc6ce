import RegisterVm.Bytecode.Opcode

/-!
# Chunks of bytecode

A chunk is one function: its instructions, the constants they refer to, the number of registers
and parameters, and the functions nested in it.
-/

namespace RegisterVm

/-- A place in a source text, counted from 1. -/
structure SourcePosition where
  line : UInt32
  column : UInt32
  deriving DecidableEq

structure Instruction where
  opcode : Opcode
  position : Option SourcePosition
  deriving DecidableEq

namespace Instruction

def bare (op : Opcode) : Instruction := ⟨op, none⟩

def line? (i : Instruction) : Option Nat := i.position.map fun p => p.line.toNat

end Instruction

inductive Constant where
  | int (i : Int64)
  | float (x : Float)
  | str (s : String)
  | bool (b : Bool)
  | none
  deriving DecidableEq

/-- The text of a string constant. -/
def Constant.text? : Constant → Option String
  | str s => some s
  | _ => Option.none

structure Chunk where
  name : String
  instructions : Array Instruction
  constants : Array Constant
  /-- The size of a register file. -/
  registerCount : UInt32
  /-- Arguments arrive in the first registers. -/
  paramCount : UInt32
  nested : List Chunk

namespace Chunk

def defaultName : String := "<module>"

/-- A chunk without instructions. -/
def empty (name : String) : Chunk := ⟨name, #[], #[], 0, 0, []⟩

instance : Inhabited Chunk := ⟨empty defaultName⟩

def withRegisters (registerCount paramCount : UInt32) (c : Chunk) : Chunk :=
  { c with registerCount, paramCount }

/-- The chunk with an instruction added at the end. -/
def push (i : Instruction) (c : Chunk) : Chunk :=
  { c with instructions := c.instructions.push i }

def emit (op : Opcode) (c : Chunk) : Chunk := c.push (.bare op)

def addConstant (k : Constant) (c : Chunk) : Chunk := { c with constants := c.constants.push k }

/-- The index of a string constant, which is added when there is none yet. -/
def internName (s : String) (c : Chunk) : UInt32 × Chunk :=
  match c.constants.findIdx? fun k => k.text? = some s with
  | some i => (UInt32.ofNat i, c)
  | none => (UInt32.ofNat c.constants.size, c.addConstant (.str s))

def addNested (c child : Chunk) : Chunk := { c with nested := c.nested ++ [child] }

def opcode? (c : Chunk) (address : Nat) : Option Opcode :=
  c.instructions[address]?.map (·.opcode)

def line? (c : Chunk) (address : Nat) : Option Nat :=
  c.instructions[address]?.bind (·.line?)

/-- The text of the constant at an index, when it is a string. -/
def nameAt? (c : Chunk) (index : UInt32) : Option String :=
  c.constants[index.toNat]?.bind (·.text?)

end Chunk

/-- The instruction with another branch target, when it has one. -/
def Opcode.retarget? (target : UInt32) : Opcode → Option Opcode
  | .jump _ => some (.jump target)
  | .branch on cond _ => some (.branch on cond target)
  | .forIter dst iter _ => some (.forIter dst iter target)
  | .pushTry _ dst => some (.pushTry target dst)
  | _ => none

/-- The chunk in which the instruction at `address` branches to `target`. -/
def Chunk.retarget? (address : Nat) (target : UInt32) (c : Chunk) : Option Chunk :=
  match c.instructions[address]? with
  | none => none
  | some i =>
    (i.opcode.retarget? target).map fun op =>
      { c with instructions := c.instructions.setIfInBounds address { i with opcode := op } }

end RegisterVm
