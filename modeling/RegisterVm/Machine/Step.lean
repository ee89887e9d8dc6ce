import RegisterVm.Machine.Inline
import RegisterVm.Machine.Native

/-!
# Steps of the machine

An `Execution` is a machine with the running frame and the frames of its callers. `Execution.step`
runs one instruction, in the interpreter or in a compiled loop, and `Execution.run` repeats it.

* A backward branch to a loop header counts; a loop that has become hot is compiled and entered
  (`backEdge`).
* An error goes to the innermost handler of the innermost frame that has one, and leaves a trace
  entry for every frame it passes (`unwind`).
-/

namespace RegisterVm

structure Execution where
  machine : Machine
  frame : Frame
  /-- The callers of the running frame, innermost first. -/
  callers : List Frame

/-- What a step leads to. -/
inductive Status where
  | running (x : Execution)
  | finished (m : Machine) (result : Outcome Value)

/-! ## Promotion of loops -/

/-- Compiles the loop of a record that has been claimed. -/
def promote (id : FunctionId) (f : LoadedFunction) (record : LoopRecord) (m : Machine)
    (frame : Frame) : Machine × Frame :=
  let range := record.range
  match CompiledLoop.compile f.chunk range with
  | .ok code =>
    let event := .compiled f.chunk.name range.header range.backEdge code.registers.length
    ((m.mapLibrary (Library.setRecord id (record.install code))).record event,
      frame.enterLoop code)
  | .error fault =>
    let event := .rejected f.chunk.name range.header fault.message
    ((m.mapLibrary (Library.setRecord id record.reject)).record event, frame)

/-- Counts a backward branch to `header`, and enters the loop there when it is compiled. -/
def backEdge (id : FunctionId) (f : LoadedFunction) (header : Nat) (m : Machine) (frame : Frame) :
    Machine × Frame :=
  match m.library.recordOf? id f header with
  | none => (m, frame)
  | some record =>
    match record.compiled with
    | some code => (m, if m.config.compileLoops then frame.enterLoop code else frame)
    | none =>
      let (hot, counter) := record.counter.record m.config.threshold.toNat
      let record := { record with counter }
      match if hot && m.config.compileLoops then counter.claim? else none with
      | some counter => promote id f { record with counter } m frame
      | none => (m.mapLibrary (Library.setRecord id record), frame)

/-! ## Errors -/

/-- The trace entry of a frame. -/
def traceEntry (m : Machine) (frame : Frame) : TraceEntry :=
  match m.library.function? frame.function with
  | some f => ⟨f.chunk.name, frame.pc, f.chunk.line? frame.pc⟩
  | none => ⟨"", frame.pc, none⟩

namespace Frame

/-- The frame in the interpreter. Should a slot have no value, that is the error instead. -/
def leaveFailed (e : Failure) (frame : Frame) : Failure × Frame :=
  match frame.native with
  | none => (e, frame)
  | some n =>
    match frame.leaveLoop n with
    | .ok frame => (e, frame)
    | .error other => (other, { frame with native := none })

/-- The frame back at the call that failed. -/
def backAtCall (link : Option CallerLink) (frame : Frame) : Frame :=
  match link with
  | some link => { frame with pc := link.callPc }
  | none => frame

/-- The frame at its innermost handler, with the exception in the register of the handler. -/
def atHandler (h : Handler) (rest : List Handler) (exception : Value) : Frame → Frame
  | ⟨function, ⟨values, allocated⟩, _, _, caller, native⟩ =>
    ⟨function, ⟨values.setIfInBounds h.dst.toNat exception, allocated⟩, h.address, rest, caller,
      native⟩

end Frame

/-- Delivers an error to the innermost handler of the running frame or of its callers. -/
def unwind (e : Failure) (m : Machine) (frame : Frame) (callers : List Frame) : Status :=
  match frame.leaveFailed e with
  | (e, frame) =>
    match frame.handlers with
    | h :: rest =>
      match MachineM.onHeap (HeapM.caught e) m with
      | .ok exception m => .running ⟨m, frame.atHandler h rest exception, callers⟩
      | .error e m => .finished m (.error e)
    | [] =>
      let e := e.leave (traceEntry m frame)
      let m := m.retire frame.file
      match callers with
      | [] => .finished m (.error e)
      | caller :: callers => unwind e m (caller.backAtCall frame.caller) callers

/-! ## Control -/

/-- Goes on at an address of a compiled loop, or leaves the loop there. -/
def continueAt (n : NativeRegisters) (target : Nat) (m : Machine) (frame : Frame)
    (callers : List Frame) : Status :=
  if n.loop.range.contains target then
    .running ⟨m, { frame with pc := target, native := some n }, callers⟩
  else
    match frame.leaveLoop n with
    | .error e => unwind e m { frame with native := none } callers
    | .ok frame =>
      match m.library.function? frame.function with
      | some f =>
        if target ≤ f.chunk.instructions.size then
          .running ⟨m, { frame with pc := target }, callers⟩
        else unwind (.ofFault (.invalidExit target)) m frame callers
      | none => unwind (.ofFault (.unknownFunction frame.function)) m frame callers

/-- Stores the result of a call and goes on after it. A frame in a compiled loop takes the registers
of the call back from the slots. -/
def resume (dst : Register) (v : Value) (m : Machine) (frame : Frame) (callers : List Frame) :
    Status :=
  match frame with
  | ⟨function, ⟨values, allocated⟩, pc, handlers, caller, native⟩ =>
    let values := values.setIfInBounds dst.toNat v
    let frame : Frame := ⟨function, ⟨values, allocated⟩, pc, handlers, caller, none⟩
    match native with
    | none => .running ⟨m, frame, callers⟩
    | some n =>
      let registers := match (m.library.function? function).bind (·.chunk.opcode? pc) with
        | some op => op.registers
        | none => []
      let slots := encodeRegisters registers values n.slots
      continueAt { n with slots, vars := copySlots registers slots n.vars } (pc + 1) m frame callers

/-- Ends the running frame with a result. -/
def finish (v : Value) (m : Machine) (frame : Frame) (callers : List Frame) : Status :=
  let m := m.retire frame.file
  let v := (frame.caller.bind (·.result)).getD v
  match callers, frame.caller with
  | [], _ => .finished m (.ok v)
  | caller :: callers, some link => resume link.dst v m caller callers
  | caller :: callers, none => .running ⟨m, caller, callers⟩

/-- Goes to an address; going back counts as an iteration of the loop there. -/
def branchTo (f : LoadedFunction) (target : Nat) (m : Machine) (frame : Frame)
    (callers : List Frame) : Status :=
  let back := target ≤ frame.pc
  let frame := { frame with pc := target }
  if back then
    match backEdge frame.function f target m frame with
    | (m, frame) => .running ⟨m, frame, callers⟩
  else .running ⟨m, frame, callers⟩

/-- Does to the running frame what an instruction asks for. -/
def perform (effect : Effect) (f : LoadedFunction) (m : Machine) (frame : Frame)
    (callers : List Frame) : Status :=
  match effect with
  | .next => .running ⟨m, { frame with pc := frame.pc + 1 }, callers⟩
  | .write dst v =>
    match frame with
    | ⟨function, ⟨values, allocated⟩, pc, handlers, caller, native⟩ =>
      if dst.toNat < values.size then
        .running ⟨m, ⟨function, ⟨values.setIfInBounds dst.toNat v, allocated⟩, pc + 1, handlers,
          caller, native⟩, callers⟩
      else
        unwind (.ofFault (.registerOutside dst.toNat values.size)) m
          ⟨function, ⟨values, allocated⟩, pc, handlers, caller, native⟩ callers
  | .jump target => branchTo f target m frame callers
  | .ret v => finish v m frame callers
  | .call callee => .running ⟨m.descend, callee, { frame with pc := frame.pc + 1 } :: callers⟩
  | .guard h =>
    .running ⟨m, { frame with pc := frame.pc + 1, handlers := h :: frame.handlers }, callers⟩
  | .unguard =>
    .running ⟨m, { frame with pc := frame.pc + 1, handlers := frame.handlers.tail }, callers⟩

/-! ## Steps -/

/-- One instruction in the interpreter. Running off the end returns None. -/
def interpret (f : LoadedFunction) (m : Machine) (frame : Frame) (callers : List Frame) : Status :=
  match f.chunk.opcode? frame.pc with
  | none => finish .none m frame callers
  | some op =>
    match MachineM.execInline f frame.file.values frame.pc op m with
    | .ok effect m => perform effect f m frame callers
    | .error e m => unwind e m frame callers

/-- Goes on in a compiled loop after a helper step. -/
def afterHelper (effect : Effect) (target : Option Nat) (n : NativeRegisters) (m : Machine)
    (frame : Frame) (callers : List Frame) : Status :=
  match effect with
  | .next | .write _ _ => continueAt n (frame.pc + 1) m frame callers
  | .jump _ => continueAt n (target.getD (frame.pc + 1)) m frame callers
  | .call callee => .running ⟨m.descend, callee, { frame with native := some n } :: callers⟩
  | .ret _ =>
    unwind (.ofFault .returnInHelper) m { frame with native := some n } callers
  | .guard h =>
    continueAt n (frame.pc + 1) m { frame with handlers := h :: frame.handlers } callers
  | .unguard => continueAt n (frame.pc + 1) m { frame with handlers := frame.handlers.tail } callers

/-- A helper step for the instruction at which a compiled loop stands. -/
def help (f : LoadedFunction) (op : Opcode) (target : Option Nat) (n : NativeRegisters)
    (m : Machine) (frame : Frame) (callers : List Frame) : Status :=
  let slots := copySlots op.registers n.vars n.slots
  match MachineM.helperStep f op frame.pc slots frame.file.values m with
  | (⟨slots, values, effect⟩, m) =>
    let n := { n with slots, vars := copySlots op.registers slots n.vars }
    let frame := frame.withValues values
    match effect with
    | .ok effect => afterHelper effect target n m frame callers
    | .error e => unwind e m { frame with native := some n } callers

/-- One instruction in a compiled loop. -/
def runNative (f : LoadedFunction) (n : NativeRegisters) (m : Machine) (frame : Frame)
    (callers : List Frame) : Status :=
  match n with
  | ⟨loop, vars, slots⟩ =>
    let kept (vars : Array Slot) : NativeRegisters := ⟨loop, vars, slots⟩
    match loop.forms[frame.pc - loop.range.header]?, f.chunk.opcode? frame.pc with
    | some form, some op =>
      match form.run m.heap vars frame.pc with
      | .goto vars target => continueAt (kept vars) target m frame callers
      | .general vars target => help f op target (kept vars) m frame callers
      | .leave vars =>
        match frame.leaveLoop (kept vars) with
        | .ok frame => .running ⟨m, frame, callers⟩
        | .error e => unwind e m { frame with native := none } callers
      | .failed vars e => unwind e m { frame with native := some (kept vars) } callers
    | _, _ => unwind (.ofFault (.noInstruction frame.pc)) m { frame with native := some n } callers

namespace Execution

/-- One instruction. -/
def step : Execution → Status
  | ⟨m, ⟨function, file, pc, handlers, caller, native⟩, callers⟩ =>
    let frame : Frame := ⟨function, file, pc, handlers, caller, none⟩
    match m.library.function? function, native with
    | some f, none => interpret f m frame callers
    | some f, some n => runNative f n m frame callers
    | none, _ => unwind (.ofFault (.unknownFunction function)) m frame callers

/-- At most `fuel` steps; no answer when the execution is not finished by then. -/
def run : (fuel : Nat) → Execution → Option (Machine × Outcome Value)
  | 0, _ => none
  | fuel + 1, x =>
    match x.step with
    | .running x => run fuel x
    | .finished m result => some (m, result)

end Execution

end RegisterVm
