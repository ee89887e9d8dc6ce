import RegisterVm.Machine.Library

/-!
# Frames

A call in progress has a frame. Its register file comes from an arena that keeps files of finished
calls for reuse; a file is handed out with every register cleared.
-/

namespace RegisterVm

/-- Where control continues when an error is caught, and the register that gets the exception. -/
structure Handler where
  address : Nat
  dst : Register
  deriving DecidableEq

/-- What becomes of the result of a call. -/
structure CallerLink where
  /-- The caller's register for the result. -/
  dst : Register
  /-- The address of the call. -/
  callPc : Nat
  /-- What the caller gets in place of the result. -/
  result : Option Value
  deriving DecidableEq

/-! ## Register files -/

structure RegisterFile where
  values : Array Value
  /-- Whether memory is set aside for the file, so that it is worth keeping. -/
  allocated : Bool

namespace RegisterFile

def empty : RegisterFile := ⟨#[], false⟩

/-- The file without registers; its memory stays set aside. -/
def clear (file : RegisterFile) : RegisterFile := { file with values := #[] }

/-- The first `count` registers of the file, filled up with None. -/
def resize (count : Nat) : RegisterFile → RegisterFile
  | ⟨values, allocated⟩ =>
    ⟨values.take count ++ Array.replicate (count - values.size) .none, allocated || 0 < count⟩

end RegisterFile

structure Arena where
  /-- Files waiting for reuse, the last one released first. -/
  free : List RegisterFile

namespace Arena

def empty : Arena := ⟨[]⟩

/-- How many files are kept. -/
def capacity : Nat := 128

/-- A file of `count` cleared registers, if possible one that was released before. -/
def take (count : Nat) (a : Arena) : RegisterFile × Arena :=
  match a.free with
  | [] => (RegisterFile.empty.clear.resize count, a)
  | file :: rest => (file.clear.resize count, ⟨rest⟩)

/-- Gives a file back. -/
def release (file : RegisterFile) (a : Arena) : Arena :=
  if a.free.length < capacity && file.allocated then ⟨file :: a.free⟩ else a

end Arena

/-! ## Frames -/

/-- Registers of a frame as compiled code keeps them. -/
structure NativeRegisters where
  loop : CompiledLoop
  /-- The registers in the variables of the compiled code. -/
  vars : Array Slot
  /-- The slots through which registers are handed over. -/
  slots : Array Slot

structure Frame where
  function : FunctionId
  file : RegisterFile
  /-- The address of the current instruction. -/
  pc : Nat
  /-- The handlers, innermost first. -/
  handlers : List Handler
  /-- Missing when the call came from outside. -/
  caller : Option CallerLink
  /-- Present while the frame runs a compiled loop. -/
  native : Option NativeRegisters

namespace Frame

/-- Starts a frame with the arguments in the first registers. -/
def enter (id : FunctionId) (f : LoadedFunction) (args : List Value) (link : Option CallerLink)
    (a : Arena) : Except Fault (Frame × Arena) :=
  let expected := f.chunk.paramCount.toNat
  if args.length ≠ expected then
    .error (.wrongPositionalCount f.chunk.name expected args.length)
  else
    let (file, a) := a.take f.chunk.registerCount.toNat
    let values := args.foldl (fun (values, i) v => (values.setIfInBounds i v, i + 1))
      (file.values, 0)
    .ok (⟨id, { file with values := values.1 }, 0, [], link, none⟩, a)

end Frame

end RegisterVm
