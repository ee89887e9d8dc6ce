import RegisterVm.Machine.Effect

/-!
# Running compiled loops

A frame that runs a compiled loop keeps the registers of the loop in variables, as slots. An
instruction that is executed generally gets its registers through an array of slots: they are
written there before it runs and taken back from there afterwards, also when it fails. Leaving the
loop writes all registers of the loop back to the frame.
-/

namespace RegisterVm

/-! ## Slots and registers -/

/-- The slots with one register stored. -/
def storeSlot (slots : Array Slot) (r : Register) (s : Slot) : Array Slot :=
  slots.setIfInBounds r.toNat s

def loadSlot (slots : Array Slot) (r : Register) : Slot :=
  (slots[r.toNat]?).getD (.ofValue .none)

/-- Copies the slots of some registers from one array to another. -/
def copySlots (registers : List Register) (source target : Array Slot) : Array Slot :=
  registers.foldl (fun target r => storeSlot target r (loadSlot source r)) target

/-- Writes some registers of a frame as slots. -/
def encodeRegisters (registers : List Register) (values : Array Value) (slots : Array Slot) :
    Array Slot :=
  registers.foldl
    (fun slots r => storeSlot slots r (.ofValue ((values[r.toNat]?).getD .none))) slots

/-- Reads some slots as registers of a frame. -/
def decodeRegisters (registers : List Register) (slots : Array Slot) (values : Array Value) :
    Outcome (Array Value) :=
  registers.foldlM (fun values r =>
    let s := loadSlot slots r
    match s.value? with
    | some v => RegisterFile.set values r v
    | none => refuse (.invalidTag s.tag.toNat)) values

namespace Frame

/-- The frame with its registers replaced. -/
def withValues (values : Array Value) : Frame → Frame
  | ⟨function, ⟨_, allocated⟩, pc, handlers, caller, native⟩ =>
    ⟨function, ⟨values, allocated⟩, pc, handlers, caller, native⟩

/-- Enters a compiled loop at its header. -/
def enterLoop (loop : CompiledLoop) (frame : Frame) : Frame :=
  let blank := Array.replicate frame.file.values.size (Slot.ofValue .none)
  let slots := encodeRegisters loop.registers frame.file.values blank
  { frame with pc := loop.range.header, native := some ⟨loop, slots, slots⟩ }

/-- Leaves a compiled loop: every register of the loop is read back. -/
def leaveLoop (n : NativeRegisters) (frame : Frame) : Outcome Frame := do
  let slots := copySlots n.loop.registers n.vars n.slots
  let values ← decodeRegisters n.loop.registers slots frame.file.values
  return { frame.withValues values with native := none }

end Frame

/-! ## Helper steps -/

/-- What a helper step does: the slots and registers afterwards with the effect of the instruction,
or with the failure. A call is still to be run. -/
structure HelperStep where
  slots : Array Slot
  values : Array Value
  effect : Outcome Effect

/-- The registers after an effect. -/
def Effect.apply (values : Array Value) : Effect → Outcome (Array Value)
  | write dst v => RegisterFile.set values dst v
  | _ => .ok values

/-- Runs one instruction generally for compiled code whose registers are in `slots`. -/
def MachineM.helperStep (f : LoadedFunction) (op : Opcode) (pc : Nat) (slots : Array Slot)
    (values : Array Value) (m : Machine) : HelperStep × Machine :=
  match decodeRegisters op.registers slots values with
  | .error e => (⟨slots, values, .error e⟩, m)
  | .ok values =>
    match MachineM.exec f values pc op m with
    | .error e m => (⟨encodeRegisters op.registers values slots, values, .error e⟩, m)
    | .ok effect m =>
      match effect.apply values with
      | .error e => (⟨slots, values, .error e⟩, m)
      | .ok values => (⟨encodeRegisters op.registers values slots, values, .ok effect⟩, m)

/-! ## Native forms -/

namespace NativeArithmetic

/-- The result on two slots, when the operands have a native form and no word overflows. -/
def result? (form : NativeArithmetic) (a b : Slot) : Option Slot :=
  if a.tag = Slot.intTag && b.tag = Slot.intTag then
    match form.word with
    | some word =>
      let x := a.bits.toInt64
      let y := b.bits.toInt64
      if word.overflows x y then none else some (.ofInt (word.result x y))
    | none => none
  else if a.tag = Slot.floatTag && b.tag = Slot.floatTag then
    form.float.map fun op => .ofFloat (op.apply (Float.ofBits a.bits) (Float.ofBits b.bits))
  else none

end NativeArithmetic

namespace NativeComparison

def result? (op : NativeComparison) (a b : Slot) : Option Slot :=
  if a.tag = Slot.intTag && b.tag = Slot.intTag then
    some (.ofBool (op.onWords a.bits.toInt64 b.bits.toInt64))
  else if a.tag = Slot.floatTag && b.tag = Slot.floatTag then
    some (.ofBool (op.onFloats (Float.ofBits a.bits) (Float.ofBits b.bits)))
  else none

end NativeComparison

namespace Slot

/-- The negated slot; the least word has no negative. -/
def negate? (s : Slot) : Option Slot :=
  if s.tag = intTag then
    if s.bits.toInt64 = Int64.minValue then none else some (.ofInt (-s.bits.toInt64))
  else if s.tag = floatTag then some (.ofFloat (-(Float.ofBits s.bits)))
  else none

/-- The truth of a slot that holds no object. -/
def inlineTruth (s : Slot) : Bool :=
  if s.tag = floatTag then Float.ofBits s.bits != 0.0 else s.bits != 0

/-- The truth of a slot; the heap is asked for that of an object. -/
def truth (h : Heap) (s : Slot) : Outcome Bool :=
  if s.tag = objectTag then
    match s.value? with
    | some v => h.truth v
    | none => refuse (.invalidTag s.tag.toNat)
  else .ok s.inlineTruth

end Slot

/-- What a native form does with the variables. -/
inductive NativeOutcome where
  /-- Go on at an address. -/
  | goto (vars : Array Slot) (target : Nat)
  /-- Leave the instruction to a helper step. -/
  | general (vars : Array Slot) (target : Option Nat)
  /-- Leave the loop at this instruction. -/
  | leave (vars : Array Slot)
  | failed (vars : Array Slot) (e : Failure)

namespace NativeForm

/-- The operand of an arithmetic form. -/
def operand (vars : Array Slot) : NativeOperand → Slot
  | .register r => loadSlot vars r
  | .word i => .ofInt i

/-- Stores a result and goes on, or leaves the instruction to a helper step. -/
def storeOr (vars : Array Slot) (dst : Register) (next : Nat) : Option Slot → NativeOutcome
  | some s => .goto (storeSlot vars dst s) next
  | none => .general vars none

/-- Runs a native form at address `pc`. -/
def run (form : NativeForm) (h : Heap) (vars : Array Slot) (pc : Nat) : NativeOutcome :=
  match form with
  | skip => .goto vars (pc + 1)
  | constant dst s => .goto (storeSlot vars dst s) (pc + 1)
  | copy dst src => .goto (storeSlot vars dst (loadSlot vars src)) (pc + 1)
  | arithmetic form dst lhs rhs =>
    storeOr vars dst (pc + 1) (form.result? (loadSlot vars lhs) (operand vars rhs))
  | compare op dst lhs rhs =>
    storeOr vars dst (pc + 1) (op.result? (loadSlot vars lhs) (loadSlot vars rhs))
  | negate dst src => storeOr vars dst (pc + 1) (loadSlot vars src).negate?
  | jump target => .goto vars target
  | branch on cond target =>
    match (loadSlot vars cond).truth h with
    | .ok t => .goto vars (if t = on then target else pc + 1)
    | .error e => .failed vars e
  | leave => .leave vars
  | general target => .general vars target

end NativeForm

end RegisterVm
