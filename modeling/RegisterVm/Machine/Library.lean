import RegisterVm.Loop.Record
import RegisterVm.Object

/-!
# Loaded functions

Loading a chunk gives a number to it and to each function nested in it. The loop records of a
function belong to it, so machines that run the same function share them.
-/

namespace RegisterVm

structure LoadedFunction where
  /-- The chunk without the functions nested in it. -/
  chunk : Chunk
  children : Array FunctionId
  loops : List LoopRange

structure Library where
  functions : Array LoadedFunction
  /-- The records of loops by function and header. -/
  records : Std.HashMap (FunctionId × Nat) LoopRecord

namespace Library

def empty : Library := ⟨#[], ∅⟩

instance : Inhabited Library := ⟨empty⟩

def function? (l : Library) (id : FunctionId) : Option LoadedFunction := l.functions[id]?

def record? (l : Library) (id : FunctionId) (header : Nat) : Option LoopRecord :=
  l.records[(id, header)]?

def setRecord (id : FunctionId) (record : LoopRecord) : Library → Library
  | ⟨functions, records⟩ => ⟨functions, records.insert (id, record.range.header) record⟩

/-- The record of the loop at a header, a new one when there is none yet. -/
def recordOf? (l : Library) (id : FunctionId) (f : LoadedFunction) (header : Nat) :
    Option LoopRecord :=
  match l.record? id header with
  | some r => some r
  | none => (f.loops.find? fun range => range.header = header).map .start

/-- The records of a function, by header. -/
def recordsOf (l : Library) (id : FunctionId) : List LoopRecord :=
  match l.function? id with
  | some f => f.loops.filterMap fun range => l.record? id range.header
  | none => []

mutual

/-- The library with a chunk, and the number of the chunk. -/
def load (l : Library) : Chunk → FunctionId × Library
  | ⟨name, instructions, constants, registerCount, paramCount, nested⟩ =>
    let (children, l) := l.loadAll nested
    let chunk : Chunk := ⟨name, instructions, constants, registerCount, paramCount, []⟩
    let f : LoadedFunction := ⟨chunk, children.toArray, chunk.loops⟩
    (l.functions.size, { l with functions := l.functions.push f })

def loadAll (l : Library) : List Chunk → List FunctionId × Library
  | [] => ([], l)
  | c :: cs =>
    let (id, l) := l.load c
    let (ids, l) := l.loadAll cs
    (id :: ids, l)

end

end Library

end RegisterVm
