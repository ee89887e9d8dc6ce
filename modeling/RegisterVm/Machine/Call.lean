import RegisterVm.Bytecode.Verifier
import RegisterVm.Machine.Step

/-!
# Using a machine

Loading chunks and calling functions from outside. A call takes an amount of fuel, the largest
number of steps, and has no answer when that does not suffice.
-/

namespace RegisterVm.Machine

/-- Loads a chunk that has no defects. -/
def load (c : Chunk) (m : Machine) : Outcome (FunctionId × Machine) :=
  match c.verify with
  | .error e => refuse (.invalidBytecode e.message)
  | .ok () =>
    let (id, library) := m.library.load c
    .ok (id, { m with library })

/-- The answer of a call: the machine afterwards and the result. -/
abbrev Answer := Option (Machine × Outcome Value)

/-- Calls a function. -/
def execute (fuel : Nat) (id : FunctionId) (args : List Value) (m : Machine) : Answer :=
  match MachineM.enter id args none m with
  | .error e m => some (m, .error e)
  | .ok frame m => Execution.run fuel ⟨m.descend, frame, []⟩

/-- The answer of an operation that runs no instructions. -/
def answer (operation : MachineM Value) (m : Machine) : Answer :=
  match operation m with
  | .ok v m => some (m, .ok v)
  | .error e m => some (m, .error e)

/-- Makes an instance of a class and calls its initialiser. -/
def construct (fuel : Nat) (cls : Handle) (args : List Value) (m : Machine) : Answer :=
  match (do return (← MachineM.instantiate cls args.length, ← MachineM.initialiser? cls) :
      MachineM (Value × Option FunctionId)) m with
  | .error e m => some (m, .error e)
  | .ok (v, none) m => some (m, .ok v)
  | .ok (v, some id) m => (m.execute fuel id (v :: args)).map fun (m, r) => (m, r.map fun _ => v)

/-- Calls a value. -/
def call (fuel : Nat) (callee : Value) (args : List Value) (m : Machine) : Answer :=
  match m.heap.callable callee with
  | .error e => some (m, .error e)
  | .ok (.function id receiver) => m.execute fuel id (receiver.toList ++ args)
  | .ok (.builtin f) => m.answer (MachineM.callBuiltin f args)
  | .ok (.builtinMethod receiver name) =>
    m.answer (MachineM.onHeap (HeapM.callMethod receiver name args))
  | .ok (.cls handle) => m.construct fuel handle args
  | .ok (.exceptionClass kind) => m.answer (MachineM.onHeap (HeapM.newException kind args))

end RegisterVm.Machine
