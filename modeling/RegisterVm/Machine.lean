import RegisterVm.Builtin.Function
import RegisterVm.Config
import RegisterVm.Machine.Frame

/-!
# The machine

What a machine keeps between calls: the heap, the loaded functions, names, output, the events of
compiled loops and the register files. Operations on it are in `MachineM`, which keeps the machine
also when it fails.
-/

namespace RegisterVm

structure Machine where
  heap : Heap
  library : Library
  /-- What was printed. -/
  output : String
  globals : Bindings
  builtins : Bindings
  /-- The object of each function that has one. -/
  functionObjects : List (FunctionId × Value)
  config : Config
  events : Array LoopEvent
  arena : Arena
  /-- The number of active frames. -/
  depth : Nat

abbrev MachineM := EStateM Failure Machine

namespace Heap

/-- Adds an object for every name, in order. -/
def allocNamed : List (String × Object) → Heap → Bindings × Heap
  | [], h => ([], h)
  | (name, o) :: rest, h =>
    let (handle, h) := h.alloc o
    let (names, h) := allocNamed rest h
    ((name, .object handle) :: names, h)

/-- The names that are always defined: the built-in functions and the exception classes. -/
def builtinObjects : List (String × Object) :=
  (Builtin.all.map fun f => (f.name, .builtin f)) ++
    ErrorKind.exceptionClasses.map fun kind => (kind.className, .exceptionClass kind)

end Heap

namespace Machine

/-- A machine without functions. -/
def start (config : Config) : Machine :=
  let (builtins, heap) := Heap.empty.allocNamed Heap.builtinObjects
  ⟨heap, .empty, "", [], builtins, [], config, #[], .empty, 0⟩

instance : Inhabited Machine := ⟨start .standard⟩

/-- The value of a name. -/
def global? (m : Machine) (name : String) : Option Value :=
  (m.globals.get? name).or (m.builtins.get? name)

def setGlobal (name : String) (value : Value) : Machine → Machine
  | ⟨heap, library, output, globals, builtins, functionObjects, config, events, arena, depth⟩ =>
    ⟨heap, library, output, globals.set name value, builtins, functionObjects, config, events,
      arena, depth⟩

def mapLibrary (f : Library → Library) : Machine → Machine
  | ⟨heap, library, output, globals, builtins, functionObjects, config, events, arena, depth⟩ =>
    ⟨heap, f library, output, globals, builtins, functionObjects, config, events, arena, depth⟩

def record (event : LoopEvent) : Machine → Machine
  | ⟨heap, library, output, globals, builtins, functionObjects, config, events, arena, depth⟩ =>
    ⟨heap, library, output, globals, builtins, functionObjects, config, events.push event, arena,
      depth⟩

/-- Prints a text. -/
def print (text : String) : Machine → Machine
  | ⟨heap, library, output, globals, builtins, functionObjects, config, events, arena, depth⟩ =>
    ⟨heap, library, output ++ text, globals, builtins, functionObjects, config, events, arena,
      depth⟩

/-- One more active frame. -/
def descend : Machine → Machine
  | ⟨heap, library, output, globals, builtins, functionObjects, config, events, arena, depth⟩ =>
    ⟨heap, library, output, globals, builtins, functionObjects, config, events, arena, depth + 1⟩

/-- One active frame less; its register file is given back. -/
def retire (file : RegisterFile) : Machine → Machine
  | ⟨heap, library, output, globals, builtins, functionObjects, config, events, arena, depth⟩ =>
    ⟨heap, library, output, globals, builtins, functionObjects, config, events, arena.release file,
      depth - 1⟩

/-- What was printed, and the machine with nothing printed. -/
def takeOutput (m : Machine) : String × Machine := (m.output, { m with output := "" })

end Machine

namespace MachineM

def fail {α : Type} (fault : Fault) : MachineM α := throw (.ofFault fault)

/-- An operation on the heap of the machine. -/
def onHeap {α : Type} (operation : HeapM α) : MachineM α
  | ⟨heap, library, output, globals, builtins, functionObjects, config, events, arena, depth⟩ =>
    match operation heap with
    | .ok a heap =>
      .ok a
        ⟨heap, library, output, globals, builtins, functionObjects, config, events, arena, depth⟩
    | .error e heap =>
      .error e
        ⟨heap, library, output, globals, builtins, functionObjects, config, events, arena, depth⟩

/-- Reads the heap of the machine. -/
def read {α : Type} (f : Heap → Outcome α) : MachineM α := fun m =>
  match f m.heap with
  | .ok a => .ok a m
  | .error e => .error e m

/-- The function with a number. -/
def function (id : FunctionId) : MachineM LoadedFunction := fun m =>
  match m.library.function? id with
  | some f => .ok f m
  | none => .error (.ofFault (.unknownFunction id)) m

/-- The object of a function, made when it is first asked for. -/
def functionObject (id : FunctionId) (name : String) : MachineM Value := do
  match (← get).functionObjects.lookup id with
  | some v => return v
  | none =>
    let v ← onHeap (HeapM.alloc (.function id name))
    modify fun m => { m with functionObjects := (id, v) :: m.functionObjects }
    return v

/-- The value of a name. -/
def global (name : String) : MachineM Value := do
  match (← get).global? name with
  | some v => return v
  | none => fail (.undefinedName name)

/-- Calls a built-in function. -/
def callBuiltin (f : Builtin) (args : List Value) : MachineM Value := do
  let reply ← onHeap (HeapM.callBuiltin f args)
  modify (Machine.print reply.printed)
  return reply.value

/-! ## Calls -/

/-- Refuses a call when as many frames are active as the configuration allows. -/
def checkDepth : MachineM Unit := fun m =>
  if m.config.maxDepth ≤ m.depth then .error (.ofFault .recursionLimit) m else .ok () m

/-- A frame for a function with its arguments. -/
def enter (id : FunctionId) (args : List Value) (link : Option CallerLink) : MachineM Frame := do
  let f ← function id
  checkDepth
  fun m =>
    match Frame.enter id f args link m.arena with
    | .ok (frame, arena) => .ok frame { m with arena }
    | .error fault => .error (.ofFault fault) m

/-- The initialiser of a class. -/
def initialiser? (cls : Handle) : MachineM (Option FunctionId) :=
  read fun h => do
    match ← h.classAttribute cls "__init__" with
    | none => return none
    | some v =>
      match ← h.functionOf? v with
      | some id => return some id
      | none => refuse .initNotAFunction

/-- A new instance of a class. Without an initialiser only exceptions take arguments. -/
def instantiate (cls : Handle) (argumentCount : Nat) : MachineM Value := do
  let v ← onHeap (HeapM.alloc (.instanceOf cls []))
  if 0 < argumentCount then
    read fun h => do
      if (← h.classAttribute cls "__init__").isSome then return ()
      if ← h.isException v .uncaughtException then return ()
      match ← h.get cls with
      | .cls name _ _ => refuse (.classTakesNoArguments name)
      | other => refuse (.classTakesNoArguments other.typeName)
  return v

/-- The attributes that a dict gives to a class. -/
def attributesOf (h : Heap) (body : Value) : Outcome Bindings := do
  match ← h.view body with
  | some (.dict d) =>
    d.entries.foldlM (fun attributes (key, value) =>
      match h.text? key with
      | some name => return attributes.set name value
      | none => refuse .classAttributeName) []
  | _ => refuse .classNamespace

/-- The class that a value stands for. -/
def baseOf (h : Heap) (base : Value) : Outcome Handle := do
  match ← h.view base, base with
  | some (.cls _ _ _), .object handle | some (.exceptionClass _), .object handle => return handle
  | _, _ => refuse .badBase

/-- A class with the entries of a dict as attributes. -/
def makeClass (name : String) (body : Value) (base : Option Value) : MachineM Value := do
  let attributes ← read fun h => attributesOf h body
  let base ← match base with
    | none => pure none
    | some v => some <$> read fun h => baseOf h v
  onHeap (HeapM.alloc (.cls name base attributes))

end MachineM

end RegisterVm
