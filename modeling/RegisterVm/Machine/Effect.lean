import RegisterVm.Machine

/-!
# General execution of instructions

`MachineM.exec` runs any instruction on the registers of a frame. It changes the machine, but what
it does to the frame is given back as an `Effect`. Registers outside the file are a fault.
-/

namespace RegisterVm

/-- What an instruction does to its frame. -/
inductive Effect where
  | next
  | write (dst : Register) (v : Value)
  | jump (target : Nat)
  | ret (v : Value)
  | call (callee : Frame)
  | guard (handler : Handler)
  | unguard

namespace RegisterFile

/-- The value of a register. -/
def get (values : Array Value) (r : Register) : Outcome Value :=
  match values[r.toNat]? with
  | some v => .ok v
  | none => refuse (.registerOutside r.toNat values.size)

/-- The values of `count` registers from `start` on. -/
def window (values : Array Value) (start : Register) (count : Nat) : Outcome (List Value) :=
  if start.toNat + count ≤ values.size then
    .ok (values.extract start.toNat (start.toNat + count)).toList
  else refuse (.windowOutside start.toNat count values.size)

/-- The registers with a value stored. -/
def set (values : Array Value) (r : Register) (v : Value) : Outcome (Array Value) :=
  if r.toNat < values.size then .ok (values.setIfInBounds r.toNat v)
  else refuse (.registerOutside r.toNat values.size)

end RegisterFile

/-- Values taken two at a time. -/
def pairUp : List Value → List (Value × Value)
  | k :: v :: rest => (k, v) :: pairUp rest
  | _ => []

namespace MachineM

def ofOutcome {α : Type} (o : Outcome α) : MachineM α := fun m =>
  match o with
  | .ok a => .ok a m
  | .error e => .error e m

/-- The value of a register. -/
@[inline] def reg (values : Array Value) (r : Register) : MachineM Value :=
  ofOutcome (RegisterFile.get values r)

def window (values : Array Value) (start : Register) (count : Nat) : MachineM (List Value) :=
  ofOutcome (RegisterFile.window values start count)

/-- The text of a name operand. -/
def nameOf (f : LoadedFunction) (index : UInt32) : MachineM String :=
  match f.chunk.nameAt? index with
  | some name => return name
  | none => fail (.notAName index.toNat)

/-- The value of a constant; a string constant is always the same object. -/
def constant (f : LoadedFunction) (index : UInt32) : MachineM Value := do
  match f.chunk.constants[index.toNat]? with
  | some (.int i) => return .int i
  | some (.float x) => return .float x
  | some (.bool b) => return .bool b
  | some .none => return .none
  | some (.str s) => onHeap (HeapM.intern s)
  | none => fail (.constantOutOfRange index.toNat)

/-- Stores the result of an operation on the heap. -/
def store (dst : Register) (operation : HeapM Value) : MachineM Effect := do
  return .write dst (← onHeap operation)

/-- Jumps when the truth of a value is `on`. -/
def jumpWhen (on : Bool) (v : Value) (target : UInt32) : MachineM Effect := do
  if (← read fun h => h.truth v) = on then return .jump target.toNat else return .next

/-- Calls what a value was sorted into, with the registers from `args` on. -/
def invoke (values : Array Value) (pc : Nat) (callable : Callable) (dst args : Register)
    (argc : UInt32) : MachineM Effect := do
  match callable with
  | .function id receiver =>
    let args ← window values args argc.toNat
    return .call (← enter id (receiver.toList ++ args) (some ⟨dst, pc, none⟩))
  | .builtin f => return .write dst (← callBuiltin f (← window values args argc.toNat))
  | .builtinMethod receiver name =>
    let args ← window values args argc.toNat
    store dst (HeapM.callMethod receiver name args)
  | .cls handle =>
    let v ← instantiate handle argc.toNat
    match ← initialiser? handle with
    | some id =>
      let args ← window values args argc.toNat
      return .call (← enter id (v :: args) (some ⟨dst, pc, some v⟩))
    | none => return .write dst v
  | .exceptionClass kind =>
    let args ← window values args argc.toNat
    store dst (HeapM.newException kind args)

/-- What is built from the values of a window. -/
def buildFrom : BuildForm → List Value → HeapM Value
  | .list, items => HeapM.alloc (.list items.toArray)
  | .tuple, items => HeapM.alloc (.tuple items.toArray)
  | .set, items => HeapM.allocSet items
  | .dict, items => HeapM.allocDict (pairUp items)
  | .string, items => HeapM.buildText items

/-- Runs an instruction of a function at address `pc`. -/
def exec (f : LoadedFunction) (values : Array Value) (pc : Nat) : Opcode → MachineM Effect
  | .loadConst dst index => do return .write dst (← constant f index)
  | .loadInt dst value => return .write dst (.int value)
  | .loadBool dst value => return .write dst (.bool value)
  | .loadNone dst => return .write dst .none
  | .move dst src => do return .write dst (← reg values src)
  | .loadGlobal dst name => do return .write dst (← global (← nameOf f name))
  | .storeGlobal name src => do
    let name ← nameOf f name
    let v ← reg values src
    modify (Machine.setGlobal name v)
    return .next
  | .binary op dst lhs rhs => do
    store dst (HeapM.binary op (← reg values lhs) (← reg values rhs))
  | .compare op dst lhs rhs => do
    store dst (HeapM.compare op (← reg values lhs) (← reg values rhs))
  | .unary op dst src => do store dst (HeapM.unary op (← reg values src))
  | .fast form dst lhs rhs => do
    store dst (HeapM.binary form.operator (← reg values lhs) (← reg values rhs))
  | .fastLess dst lhs rhs => do
    store dst (HeapM.compare .lt (← reg values lhs) (← reg values rhs))
  | .increment r => do store r (HeapM.binary .add (← reg values r) (.int 1))
  | .decrement r => do store r (HeapM.binary .sub (← reg values r) (.int 1))
  | .update .add r src => do store r (HeapM.addInPlace (← reg values r) (← reg values src))
  | .update form r src => do
    store r (HeapM.binary form.operator (← reg values r) (← reg values src))
  | .jump target => return .jump target.toNat
  | .branch on cond target => do jumpWhen on (← reg values cond) target
  | .ret src => do return .ret (← reg values src)
  | .retNone => return .ret .none
  | .nop => return .next
  | .build form dst start count => do
    store dst (buildFrom form (← window values start (form.width count)))
  | .getItem dst container key => do
    store dst (HeapM.getItem (← reg values container) (← reg values key))
  | .setItem container key src => do
    onHeap (HeapM.setItem (← reg values container) (← reg values key) (← reg values src))
    return .next
  | .slice dst container start stop => do
    store dst (HeapM.slice (← reg values container) (← reg values start) (← reg values stop))
  | .append list src => do
    onHeap (HeapM.append (← reg values list) (← reg values src))
    return .next
  | .len dst src => do
    let v ← reg values src
    return .write dst (.int (← read fun h => h.length v))
  | .getIter dst src => do store dst (HeapM.iterator (← reg values src))
  | .forIter dst iter exit => do
    match ← onHeap (HeapM.next (← reg values iter)) with
    | some v => return .write dst v
    | none => return .jump exit.toNat
  | .getAttr dst obj name => do
    let v ← reg values obj
    store dst (HeapM.getAttribute v (← nameOf f name))
  | .setAttr obj name src => do
    let v ← reg values obj
    let name ← nameOf f name
    onHeap (HeapM.setAttribute v name (← reg values src))
    return .next
  | .callMethod dst obj name args argc => do
    let v ← reg values obj
    let callable ← onHeap (HeapM.callableMethod v (← nameOf f name))
    invoke values pc callable dst args argc
  | .call dst callee args argc => do
    let v ← reg values callee
    let callable ← read fun h => h.callable v
    invoke values pc callable dst args argc
  | .makeFunction dst index => do
    match f.children[index.toNat]? with
    | some id => return .write dst (← functionObject id (← function id).chunk.name)
    | none => fail (.functionOutOfRange index.toNat)
  | .makeClass dst name body base => do
    let name ← nameOf f name
    let body ← reg values body
    let base ← base.mapM (reg values)
    return .write dst (← makeClass name body base)
  | .pushTry handler dst => return .guard ⟨handler.toNat, dst⟩
  | .popTry => return .unguard
  | .raise src => do onHeap (HeapM.raise (← reg values src))

end MachineM

end RegisterVm
