import RegisterVm.Machine.Step
import RegisterVm.Proofs.Machine.Library
import RegisterVm.Proofs.Machine.Native

/-!
# Sound executions and how the interpreter sees them

`Frame.settled` is a frame with its compiled loop left, and `Execution.settled` an execution as the
interpreter would have it: every loop is left and the machine is plain. `Execution.Sound` is the
invariant of running verified code: frames have the registers of their functions, handlers and
callers stand at instructions, and the variables of compiled loops hold values.
-/

namespace RegisterVm

/-! ## Frames -/

namespace Frame

/-- The frame as the interpreter has it: a compiled loop is left. -/
def settled (frame : Frame) : Frame :=
  match frame.native with
  | none => frame
  | some n =>
    match frame.leaveLoop n with
    | .ok frame => frame
    | .error _ => { frame with native := none }

/-- The frame of a caller as the interpreter has it, at the address after the call. -/
def suspended (frame : Frame) : Frame :=
  match frame.native with
  | none => frame
  | some _ => { frame.settled with pc := frame.pc + 1 }

@[simp] theorem settled_of_none {frame : Frame} (h : frame.native = none) :
    frame.settled = frame := by
  simp only [settled, h]

@[simp] theorem suspended_of_none {frame : Frame} (h : frame.native = none) :
    frame.suspended = frame := by
  simp only [suspended, h]

/-- The values that a frame in a compiled loop holds are those it has when the loop is left. -/
theorem settled_of_holds {frame : Frame} {n : NativeRegisters} {ws : Array Value}
    (h : frame.native = some n) (holds : n.Holds frame.file.values ws) :
    frame.settled = { frame.withValues ws with native := none } := by
  simp only [settled, h, holds.leave]

/-- Leaving a loop changes the values of registers at most. -/
theorem settled_shape (frame : Frame) :
    ∃ ws, frame.settled = { frame.withValues ws with native := none } := by
  obtain ⟨function, ⟨values, allocated⟩, pc, handlers, link, native⟩ := frame
  cases native with
  | none => exact ⟨values, rfl⟩
  | some n =>
    simp only [settled, leaveLoop, Bind.bind, Except.bind]
    cases decodeRegisters n.loop.registers (copySlots n.loop.registers n.vars n.slots) values with
    | error e => exact ⟨values, rfl⟩
    | ok ws => exact ⟨ws, rfl⟩

@[simp] theorem function_settled (frame : Frame) : frame.settled.function = frame.function := by
  obtain ⟨ws, eq⟩ := frame.settled_shape
  rw [eq]
  rfl

@[simp] theorem pc_settled (frame : Frame) : frame.settled.pc = frame.pc := by
  obtain ⟨ws, eq⟩ := frame.settled_shape
  rw [eq]
  rfl

@[simp] theorem handlers_settled (frame : Frame) : frame.settled.handlers = frame.handlers := by
  obtain ⟨ws, eq⟩ := frame.settled_shape
  rw [eq]
  rfl

@[simp] theorem caller_settled (frame : Frame) : frame.settled.caller = frame.caller := by
  obtain ⟨ws, eq⟩ := frame.settled_shape
  rw [eq]
  rfl

@[simp] theorem native_settled (frame : Frame) : frame.settled.native = none := by
  obtain ⟨ws, eq⟩ := frame.settled_shape
  rw [eq]

@[simp] theorem native_suspended (frame : Frame) : frame.suspended.native = none := by
  unfold suspended
  split
  · assumption
  · exact frame.native_settled

@[simp] theorem suspended_suspended (frame : Frame) : frame.suspended.suspended = frame.suspended :=
  suspended_of_none frame.native_suspended

section InLoop

variable {n : NativeRegisters} {values ws : Array Value} {function : FunctionId}
  {allocated : Bool} {pc : Nat} {handlers : List Handler} {link : Option CallerLink}

theorem settled_inLoop (holds : n.Holds values ws) :
    settled ⟨function, ⟨values, allocated⟩, pc, handlers, link, some n⟩ =
      ⟨function, ⟨ws, allocated⟩, pc, handlers, link, none⟩ :=
  settled_of_holds rfl holds

theorem suspended_inLoop (holds : n.Holds values ws) :
    suspended ⟨function, ⟨values, allocated⟩, pc, handlers, link, some n⟩ =
      ⟨function, ⟨ws, allocated⟩, pc + 1, handlers, link, none⟩ := by
  simp only [suspended, settled_inLoop holds]

end InLoop

theorem leaveFailed_of_none (e : Failure) {frame : Frame} (h : frame.native = none) :
    frame.leaveFailed e = (e, frame) := by
  simp only [leaveFailed, h]

end Frame

/-- Variables of a compiled loop of a function, at an address inside the loop. -/
structure NativeRegisters.Sound (f : LoadedFunction) (pc : Nat) (values : Array Value)
    (n : NativeRegisters) : Prop where
  translates : n.loop.Translates f.chunk
  inside : n.loop.range.contains pc = true
  holds : ∃ ws, n.Holds values ws

/-- A frame of a function: it has the registers of the function, its handlers lead to instructions
and store in registers. -/
structure Frame.Sound (f : LoadedFunction) (frame : Frame) : Prop where
  size : frame.file.values.size = f.chunk.registerCount.toNat
  pc : frame.pc ≤ f.chunk.instructions.size
  handlers : ∀ h ∈ frame.handlers,
    h.address < f.chunk.instructions.size ∧ h.dst.toNat < f.chunk.registerCount.toNat
  native : ∀ n, frame.native = some n → n.Sound f frame.pc frame.file.values

namespace Frame.Sound

variable {f : LoadedFunction} {frame : Frame}

theorem leaveFailed (h : frame.Sound f) (e : Failure) :
    frame.leaveFailed e = (e, frame.settled) := by
  cases hn : frame.native with
  | none => rw [leaveFailed_of_none e hn, settled_of_none hn]
  | some n =>
    obtain ⟨ws, holds⟩ := (h.native n hn).holds
    simp only [Frame.leaveFailed, hn, holds.leave, settled_of_holds hn holds]

/-- Leaving a loop changes the values of registers at most. -/
theorem settled_eq (h : frame.Sound f) : ∃ ws, ws.size = frame.file.values.size ∧
    frame.settled = { frame.withValues ws with native := none } := by
  cases hn : frame.native with
  | none =>
    refine ⟨frame.file.values, rfl, ?_⟩
    rw [settled_of_none hn]
    obtain ⟨function, file, pc, handlers, caller, native⟩ := frame
    cases hn
    rfl
  | some n =>
    obtain ⟨ws, holds⟩ := (h.native n hn).holds
    exact ⟨ws, holds.size.symm, settled_of_holds hn holds⟩

theorem settled (h : frame.Sound f) : frame.settled.Sound f := by
  obtain ⟨ws, size, eq⟩ := h.settled_eq
  rw [eq]
  exact ⟨size.trans h.size, h.pc, h.handlers, fun n hn => by cases hn⟩

/-- A frame in the interpreter can stand at any address. -/
theorem withPc (h : frame.Sound f) (hn : frame.native = none) {pc : Nat}
    (hpc : pc ≤ f.chunk.instructions.size) : Sound f { frame with pc } :=
  ⟨h.size, hpc, h.handlers, fun n hn' => by rw [hn] at hn'; cases hn'⟩

end Frame.Sound

/-! ## Callers -/

theorem Chunk.lt_of_opcode? {c : Chunk} {pc : Nat} {op : Opcode} (h : c.opcode? pc = some op) :
    pc < c.instructions.size := by
  obtain ⟨i, hi, -⟩ := Option.map_eq_some_iff.mp h
  exact (Array.getElem?_eq_some_iff.mp hi).1

/-- A frame that waits for the result of its call `op`. In a compiled loop it still stands at the
call, with the registers of the call in its file. -/
structure Frame.Waits (f : LoadedFunction) (link : CallerLink) (op : Opcode) (frame : Frame) :
    Prop where
  sound : frame.Sound f
  opcode : f.chunk.opcode? link.callPc = some op
  isCall : op.IsCall
  dst : link.dst ∈ op.registers
  interpreted : frame.native = none → frame.pc = link.callPc + 1
  compiled : ∀ n, frame.native = some n → frame.pc = link.callPc ∧
    ∃ ws, n.Holds frame.file.values ws ∧
      ∀ r ∈ op.registers, frame.file.values[r.toNat]? = ws[r.toNat]?

/-- The callers of a frame with a link, each waiting for the one before it. -/
inductive Waiting (fs : Array LoadedFunction) : Option CallerLink → List Frame → Prop
  | outside : Waiting fs none []
  | call {f : LoadedFunction} {link : CallerLink} {op : Opcode} {caller : Frame}
    {callers : List Frame} : fs[caller.function]? = some f → caller.Waits f link op →
    Waiting fs caller.caller callers → Waiting fs (some link) (caller :: callers)

namespace Frame.Waits

variable {f : LoadedFunction} {link : CallerLink} {op : Opcode} {frame : Frame}

theorem backAtCall (h : frame.Waits f link op) :
    (frame.backAtCall (some link)).Sound f ∧
      (frame.backAtCall (some link)).settled = frame.suspended.backAtCall (some link) := by
  cases hn : frame.native with
  | none =>
    have bound : link.callPc < f.chunk.instructions.size := by
      have := h.sound.pc
      rw [h.interpreted hn] at this
      omega
    rw [suspended_of_none hn,
      settled_of_none (show (frame.backAtCall (some link)).native = none from hn)]
    exact ⟨h.sound.withPc hn (Nat.le_of_lt bound), rfl⟩
  | some n =>
    obtain ⟨same, -⟩ := h.compiled n hn
    have back : frame.backAtCall (some link) = frame := by
      rw [Frame.backAtCall, ← same]
    rw [back]
    refine ⟨h.sound, ?_⟩
    obtain ⟨ws, -, eq⟩ := h.sound.settled_eq
    simp only [suspended, hn, Frame.backAtCall, eq, ← same]
    rfl

/-- A caller waits in the interpreter too. -/
theorem suspended (h : frame.Waits f link op) : frame.suspended.Waits f link op ∧
    frame.suspended.function = frame.function ∧ frame.suspended.caller = frame.caller := by
  cases hn : frame.native with
  | none =>
    rw [suspended_of_none hn]
    exact ⟨h, rfl, rfl⟩
  | some n =>
    obtain ⟨same, -⟩ := h.compiled n hn
    obtain ⟨ws, size, eq⟩ := h.sound.settled_eq
    have bound := Chunk.lt_of_opcode? h.opcode
    have left : frame.suspended =
        { frame.withValues ws with pc := frame.pc + 1, native := none } := by
      simp only [Frame.suspended, hn, eq]
    rw [left]
    refine ⟨⟨⟨size.trans h.sound.size, same ▸ bound, h.sound.handlers, fun n hn => by cases hn⟩,
      h.opcode, h.isCall, h.dst, fun _ => congrArg (· + 1) same, fun n hn => by cases hn⟩, rfl, rfl⟩

end Frame.Waits

theorem Waiting.suspended {fs : Array LoadedFunction} {link : Option CallerLink}
    {callers : List Frame} (h : Waiting fs link callers) :
    Waiting fs link (callers.map Frame.suspended) := by
  induction h with
  | outside => exact .outside
  | call hf waits _ ih =>
    obtain ⟨suspended, function, caller⟩ := waits.suspended
    exact .call (function.symm ▸ hf) suspended (caller.symm ▸ ih)

/-! ## Executions -/

/-- The invariant of running verified code on top of `base` active frames. -/
structure Execution.Sound (base : Nat) (x : Execution) : Prop where
  library : x.machine.library.Sound
  frame : ∃ f, x.machine.library.function? x.frame.function = some f ∧ x.frame.Sound f
  waiting : Waiting x.machine.library.functions x.frame.caller x.callers
  depth : x.machine.depth = base + x.callers.length + 1

/-- The execution as the interpreter would have it on a plain machine. -/
def Execution.settled (x : Execution) : Execution :=
  ⟨x.machine.plain, x.frame.settled, x.callers.map Frame.suspended⟩

/-- Of the machine and the callers only what the interpreter sees matters. -/
@[simp] theorem Execution.settled_mk (m : Machine) (frame : Frame) (callers : List Frame) :
    (Execution.mk m.plain frame (callers.map Frame.suspended)).settled =
      (Execution.mk m frame callers).settled := by
  simp only [settled, Machine.plain_plain, List.map_map]
  congr 2
  funext caller
  exact caller.suspended_suspended

@[simp] theorem Execution.settled_settled (x : Execution) : x.settled.settled = x.settled := by
  refine (settled_mk x.machine x.frame.settled x.callers).trans ?_
  simp only [settled, Frame.settled_of_none x.frame.native_settled]

theorem Library.Sound.plain {l : Library} (h : l.Sound) : l.plain.Sound where
  function := h.function
  child := h.child
  record id header r hr := by simp [Library.plain, Library.record?] at hr

theorem Execution.Sound.settled {base : Nat} {x : Execution} (h : x.Sound base) :
    x.settled.Sound base := by
  obtain ⟨f, hf, hs⟩ := h.frame
  refine ⟨h.library.plain, ⟨f, ?_, hs.settled⟩, ?_, ?_⟩
  · simp only [Execution.settled, Frame.function_settled]
    exact hf
  · simp only [Execution.settled, Frame.caller_settled]
    exact h.waiting.suspended
  · simp only [Execution.settled, List.length_map]
    exact h.depth

namespace Status

def Sound (base : Nat) : Status → Prop
  | running x => x.Sound base
  | finished m _ => m.library.Sound ∧ m.depth = base

def settled : Status → Status
  | running x => running x.settled
  | finished m result => finished m.plain result

@[simp] theorem settled_settled (s : Status) : s.settled.settled = s.settled := by
  cases s with
  | running x => exact congrArg running x.settled_settled
  | finished m result => rfl

/-- A sound status that the interpreter sees as `t`. -/
structure Shows (base : Nat) (s t : Status) : Prop where
  sound : s.Sound base
  settled : s.settled = t

/-- What is shown is settled. -/
theorem Shows.fixed {base : Nat} {s t : Status} (h : s.Shows base t) : s.Shows base t.settled :=
  ⟨h.sound, by rw [← h.settled, settled_settled]⟩

end Status

end RegisterVm
