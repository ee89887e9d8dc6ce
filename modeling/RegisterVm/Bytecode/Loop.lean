import RegisterVm.Bytecode.Chunk

/-!
# Loops of a chunk

A backward jump closes a loop. Its target is the header, and the loop reaches from the header to
the furthest jump back to it. `Chunk.loops` lists the loops by header.
-/

namespace RegisterVm

/-- The instructions from `header` to `backEdge`. -/
structure LoopRange where
  header : Nat
  backEdge : Nat
  deriving DecidableEq

namespace LoopRange

def contains (l : LoopRange) (address : Nat) : Bool := l.header ≤ address && address ≤ l.backEdge

/-- The number of instructions. -/
def size (l : LoopRange) : Nat := l.backEdge + 1 - l.header

end LoopRange

/-- Adds a backward jump to loops sorted by header. -/
def addBackEdge (header backEdge : Nat) : List LoopRange → List LoopRange
  | [] => [⟨header, backEdge⟩]
  | l :: ls =>
    if header < l.header then ⟨header, backEdge⟩ :: l :: ls
    else if header = l.header then ⟨header, max l.backEdge backEdge⟩ :: ls
    else l :: addBackEdge header backEdge ls

/-- The backward jumps of `ops`, the first of which has address `address`, as pairs of target and
own address. -/
def backEdges (address : Nat) : List Opcode → List (Nat × Nat)
  | [] => []
  | op :: ops =>
    match op.jumpTarget? with
    | some target =>
      if target ≤ address then (target, address) :: backEdges (address + 1) ops
      else backEdges (address + 1) ops
    | none => backEdges (address + 1) ops

/-- Inserts a register into a strictly increasing list. -/
def insertRegister (r : Register) : List Register → List Register
  | [] => [r]
  | s :: ss =>
    if r.index < s.index then r :: s :: ss
    else if r = s then s :: ss
    else s :: insertRegister r ss

/-- The registers of a list, each once, in increasing order. -/
def sortRegisters (rs : List Register) : List Register :=
  rs.foldl (fun sorted r => insertRegister r sorted) []

namespace Chunk

/-- The loops, by header. -/
def loops (c : Chunk) : List LoopRange :=
  (backEdges 0 (c.instructions.toList.map (·.opcode))).foldl
    (fun ls e => addBackEdge e.1 e.2 ls) []

/-- The registers that the instructions of a range name, each once, in increasing order. -/
def loopRegisters (c : Chunk) (l : LoopRange) : List Register :=
  sortRegisters
    (((c.instructions.toList.drop l.header).take l.size).flatMap (·.opcode.registers))

end Chunk

end RegisterVm
