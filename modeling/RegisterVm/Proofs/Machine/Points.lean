import RegisterVm.Proofs.Machine.Promotion
import RegisterVm.Proofs.Machine.Executions
import RegisterVm.Proofs.Machine.RegisterFiles

/-!
# Runs of one function

A `Point` is where a function stands: a heap, its registers and an address. `LoadedFunction.Leads`
says that the function goes from one point to another, in the interpreter or in compiled loops
(`Execution.At` is about what the interpreter sees of a frame), and that names, handlers and callers
stay as they are (`Execution.Keeps`). It is shown instruction by instruction
(`LoadedFunction.Leads.write`, `.jump`, `.next`) and composed by `LoadedFunction.Leads.trans`, until
a function that was called from outside returns (`Execution.At.returns`) or comes to an instruction
that fails (`LoadedFunction.Breaks`).
-/

namespace RegisterVm

/-- Where a function stands. -/
structure Point where
  heap : Heap
  values : Array Value
  pc : Nat

/-- The function that runs stands at a point. -/
structure Execution.At (base : Nat) (f : LoadedFunction) (p : Point) (x : Execution) : Prop where
  sound : x.Sound base
  function : x.machine.library.function? x.frame.function = some f
  heap : x.machine.heap = p.heap
  values : x.frame.settled.file.values = p.values
  pc : x.frame.pc = p.pc

/-- What does not change while a function runs: which one it is, its handlers and its callers. -/
structure Execution.Remains (x y : Execution) : Prop where
  function : y.frame.function = x.frame.function
  handlers : y.frame.handlers = x.frame.handlers
  callers : y.callers = x.callers

/-- A function runs and leaves the names of the machine as they are. -/
structure Execution.Keeps (x y : Execution) : Prop extends x.Remains y where
  globals : y.machine.globals = x.machine.globals

theorem Execution.Remains.trans {x y z : Execution} (h : x.Remains y) (h' : y.Remains z) :
    x.Remains z :=
  ⟨h'.function.trans h.function, h'.handlers.trans h.handlers, h'.callers.trans h.callers⟩

theorem Execution.Keeps.trans {x y z : Execution} (h : x.Keeps y) (h' : y.Keeps z) : x.Keeps z :=
  ⟨h.toRemains.trans h'.toRemains, h'.globals.trans h.globals⟩

/-- Wherever it is called, the function comes from one point to another. -/
def LoadedFunction.Leads (f : LoadedFunction) (p q : Point) : Prop :=
  ∀ base x, Execution.At base f p x → ∃ y, x.Leads y ∧ y.At base f q ∧ x.Keeps y

/-- Wherever it is called, the function comes from the point to an instruction that fails. -/
def LoadedFunction.Breaks (f : LoadedFunction) (p : Point) : Prop :=
  ∀ base x, Execution.At base f p x → ∃ y e m, x.Leads y ∧ y.Fails e m ∧ x.Remains y

/-- The machine with another heap. -/
def Machine.withHeap (h : Heap) (m : Machine) : Machine := { m with heap := h }

theorem Execution.Remains.keeps {x y : Execution} {h : Heap} (remains : x.Remains y)
    (plain : y.machine.plain = (x.machine.withHeap h).plain) : x.Keeps y :=
  ⟨remains, (congrArg Machine.globals plain :
    y.machine.plain.globals = (x.machine.withHeap h).plain.globals)⟩

theorem MachineM.reg_of_getElem? {values : Array Value} {r : Register} {v : Value}
    (value : values[r.toNat]? = some v) : reg values r = pure v := by
  funext m
  simp only [reg, RegisterFile.get, value]
  rfl

/-- No effect changes the function of a frame. -/
theorem Effect.function_of_frame (effect : Effect) {frame frame' : Frame}
    (framed : effect.frame frame = .ok frame') : frame'.function = frame.function := by
  simp only [Effect.frame, Bind.bind, Except.bind] at framed
  split at framed <;> cases framed
  cases effect <;> rfl

theorem Effect.frame_write {dst : Register} {v : Value} {frame frame' : Frame}
    (framed : (write dst v).frame frame = .ok frame') :
    frame'.file.values = frame.file.values.setIfInBounds dst.toNat v ∧
      frame'.pc = frame.pc + 1 := by
  simp only [Effect.frame, Effect.apply, RegisterFile.set, Bind.bind, Except.bind] at framed
  split at framed
  · cases framed
  · rename_i stored
    split at stored <;> cases stored
    cases framed
    exact ⟨rfl, rfl⟩

theorem Effect.handlers_of_frame (effect : Effect)
    (handlers : ∀ frame, (effect.advance frame).handlers = frame.handlers) {frame frame' : Frame}
    (framed : effect.frame frame.settled = .ok frame'.settled) :
    frame'.handlers = frame.handlers := by
  rw [← Frame.handlers_settled, ← frame.handlers_settled]
  simp only [Effect.frame, Bind.bind, Except.bind] at framed
  split at framed
  · cases framed
  · rw [← Except.ok.inj framed]
    exact handlers _

namespace Execution.At

variable {base : Nat} {f : LoadedFunction} {p : Point} {x : Execution} {op : Opcode}

/-- An instruction that neither returns nor calls does to the machine what it does, and to the frame
what its effect says. -/
theorem step (h : x.At base f p) (hop : f.chunk.opcode? p.pc = some op) {effect : Effect}
    {m : Machine} (ran : MachineM.exec f p.values p.pc op x.machine = .ok effect m)
    (stays : ∀ v, effect ≠ .ret v) (calls : ∀ callee, effect ≠ .call callee)
    (handlers : ∀ frame, (effect.advance frame).handlers = frame.handlers) :
    ∃ y, x.Next y ∧ effect.frame x.frame.settled = .ok y.frame.settled ∧
      y.At base f ⟨m.heap, y.frame.settled.file.values, y.frame.settled.pc⟩ ∧
      y.machine.plain = m.plain ∧ x.Remains y := by
  have succeeds : x.Succeeds f op effect m :=
    ⟨h.function, h.pc ▸ hop, by rw [h.values, h.pc]; exact ran⟩
  obtain ⟨kept, -⟩ := h.sound.succeeds succeeds
  obtain ⟨frame, -, -, seen⟩ := h.sound.performs succeeds stays calls
  have settled := (h.sound.step_of_succeeds succeeds stays).trans seen
  cases stepped : x.step with
  | finished m r =>
    rw [stepped] at settled
    cases settled
  | running y =>
    obtain ⟨framed, plain, callers⟩ := h.sound.step_of_frame succeeds stays calls stepped
    have sound := h.sound.step
    rw [stepped] at sound
    have function : y.frame.function = x.frame.function := by
      rw [← Frame.function_settled, effect.function_of_frame framed, Frame.function_settled]
    have heap : y.machine.plain.heap = m.plain.heap := congrArg Machine.heap plain
    refine ⟨y, stepped, framed, ⟨sound, ?_, heap, rfl, y.frame.pc_settled.symm⟩, plain, function,
      effect.handlers_of_frame handlers framed, callers⟩
    rw [← Machine.function?_plain, plain, function, Machine.function?_plain, kept.library]
    exact h.function

/-- An instruction that stores a result, whatever else it does to the machine. -/
theorem writes (h : x.At base f p) (hop : f.chunk.opcode? p.pc = some op) {dst : Register}
    {v : Value} {m : Machine}
    (ran : MachineM.exec f p.values p.pc op x.machine = .ok (.write dst v) m) :
    ∃ y, x.Leads y ∧ y.At base f ⟨m.heap, p.values.setIfInBounds dst.toNat v, p.pc + 1⟩ ∧
      y.machine.plain = m.plain ∧ x.Remains y := by
  obtain ⟨y, stepped, framed, arrived, plain, remains⟩ :=
    h.step hop ran nofun nofun fun _ => rfl
  obtain ⟨values, pc⟩ := Effect.frame_write framed
  rw [values, pc, h.values, Frame.pc_settled, h.pc] at arrived
  exact ⟨y, .single stepped, arrived, plain, remains⟩

/-- An instruction that goes to another address, whatever it does to the machine. -/
theorem jumps (h : x.At base f p) (hop : f.chunk.opcode? p.pc = some op) {target : Nat}
    {m : Machine} (ran : MachineM.exec f p.values p.pc op x.machine = .ok (.jump target) m) :
    ∃ y, x.Leads y ∧ y.At base f ⟨m.heap, p.values, target⟩ ∧ y.machine.plain = m.plain ∧
      x.Remains y := by
  obtain ⟨y, stepped, framed, arrived, plain, remains⟩ :=
    h.step hop ran nofun nofun fun _ => rfl
  rw [← Except.ok.inj framed] at arrived
  rw [← h.values]
  exact ⟨y, .single stepped, arrived, plain, remains⟩

/-- An instruction that only goes on, whatever it does to the machine. -/
theorem passes (h : x.At base f p) (hop : f.chunk.opcode? p.pc = some op) {m : Machine}
    (ran : MachineM.exec f p.values p.pc op x.machine = .ok .next m) :
    ∃ y, x.Leads y ∧ y.At base f ⟨m.heap, p.values, p.pc + 1⟩ ∧ y.machine.plain = m.plain ∧
      x.Remains y := by
  obtain ⟨y, stepped, framed, arrived, plain, remains⟩ :=
    h.step hop ran nofun nofun fun _ => rfl
  rw [← Except.ok.inj framed] at arrived
  rw [← h.values, ← h.pc, ← x.frame.pc_settled]
  exact ⟨y, .single stepped, arrived, plain, remains⟩

/-- A return ends the call, and the names of the machine are as they were. -/
theorem returns (h : x.At base f p) (outermost : x.callers = []) {r : Register}
    (hop : f.chunk.opcode? p.pc = some (.ret r)) {v : Value}
    (value : p.values[r.toNat]? = some v) :
    ∃ fuel m, x.run fuel = some (m, .ok v) ∧ m.heap = p.heap ∧
      m.globals = x.machine.globals ∧ m.depth = base := by
  obtain ⟨z, reached, sound, -, shown⟩ := h.sound.ready
  have link : x.frame.caller = none := by
    have waiting := h.sound.waiting
    rw [outermost] at waiting
    generalize x.frame.caller = link at waiting
    cases waiting
    rfl
  have ended : x.settled.step =
      .finished (x.machine.plain.retire x.frame.settled.file) (.ok v) := by
    have function : x.machine.plain.library.function? x.frame.settled.function = some f := by
      rw [Frame.function_settled]
      exact h.function
    have opcode : f.chunk.opcode? x.frame.settled.pc = some (.ret r) := by
      rw [Frame.pc_settled, h.pc]
      exact hop
    have read : MachineM.exec f x.frame.settled.file.values x.frame.settled.pc (.ret r)
        x.machine.plain = .ok (.ret v) x.machine.plain := by
      simp only [MachineM.exec, MachineM.reg, RegisterFile.get, h.values, value]
      rfl
    rw [Execution.settled, Execution.step_interpreted x.frame.native_settled function,
      interpret_eq opcode, read]
    simp only [perform, finish, outermost, List.map_nil, Frame.caller_settled, link]
    rfl
  rw [ended] at shown
  obtain ⟨inner, seen⟩ := shown
  cases stepped : z.step with
  | running z' =>
    rw [stepped] at seen
    cases seen
  | finished m result =>
    rw [stepped] at seen inner
    obtain ⟨plain, rfl⟩ := Status.finished.inj seen
    have ran : z.run 1 = some (m, .ok v) := Execution.run_finished stepped 0
    have heap : m.heap = p.heap := (congrArg Machine.heap plain).trans h.heap
    have globals : m.plain.globals = (x.machine.plain.retire x.frame.settled.file).plain.globals :=
      congrArg Machine.globals plain
    rcases reached with rfl | stepped'
    · exact ⟨1, m, ran, heap, globals, inner.2⟩
    · exact ⟨2, m, (Execution.run_step stepped' 1).trans ran, heap, globals, inner.2⟩

end Execution.At

namespace LoadedFunction.Leads

variable {f : LoadedFunction} {p q : Point} {op : Opcode}

theorem trans {q' : Point} (h : f.Leads p q) (h' : f.Leads q q') : f.Leads p q' := by
  intro base x hx
  obtain ⟨y, leads, hy, kept⟩ := h base x hx
  obtain ⟨z, leads', hz, kept'⟩ := h' base y hy
  exact ⟨z, leads.trans leads', hz, kept.trans kept'⟩

/-- An instruction that stores a result. -/
theorem write (hop : f.chunk.opcode? p.pc = some op) {dst : Register} {v : Value} {heap : Heap}
    (ran : ∀ m : Machine, m.heap = p.heap →
      MachineM.exec f p.values p.pc op m = .ok (.write dst v) (m.withHeap heap)) :
    f.Leads p ⟨heap, p.values.setIfInBounds dst.toNat v, p.pc + 1⟩ := by
  intro base x h
  obtain ⟨y, leads, arrived, plain, remains⟩ := h.writes hop (ran x.machine h.heap)
  exact ⟨y, leads, arrived, remains.keeps plain⟩

/-- An instruction that goes to another address. -/
theorem jump (hop : f.chunk.opcode? p.pc = some op) {target : Nat}
    (ran : ∀ m : Machine, m.heap = p.heap →
      MachineM.exec f p.values p.pc op m = .ok (.jump target) (m.withHeap p.heap)) :
    f.Leads p { p with pc := target } := by
  intro base x h
  obtain ⟨y, leads, arrived, plain, remains⟩ := h.jumps hop (ran x.machine h.heap)
  exact ⟨y, leads, arrived, remains.keeps plain⟩

/-- An instruction that only goes on. -/
theorem next (hop : f.chunk.opcode? p.pc = some op)
    (ran : ∀ m : Machine, m.heap = p.heap →
      MachineM.exec f p.values p.pc op m = .ok .next (m.withHeap p.heap)) :
    f.Leads p { p with pc := p.pc + 1 } := by
  intro base x h
  obtain ⟨y, leads, arrived, plain, remains⟩ := h.passes hop (ran x.machine h.heap)
  exact ⟨y, leads, arrived, remains.keeps plain⟩

/-! ### Instructions -/

/-- An instruction that loads a value. -/
theorem load (hop : f.chunk.opcode? p.pc = some op) {dst : Register} {v : Value}
    (loads : MachineM.exec f p.values p.pc op = Pure.pure (.write dst v)) :
    f.Leads p { p with values := p.values.setIfInBounds dst.toNat v, pc := p.pc + 1 } := by
  refine write hop fun m same => ?_
  rw [loads, ← same]
  rfl

theorem loadInt {dst : Register} {i : Int64} (hop : f.chunk.opcode? p.pc = some (.loadInt dst i)) :
    f.Leads p { p with values := p.values.setIfInBounds dst.toNat (.int i), pc := p.pc + 1 } :=
  load hop rfl

/-- An instruction that loads an integer of the chunk. -/
theorem loadConst {dst : Register} {index : UInt32} {i : Int64}
    (hop : f.chunk.opcode? p.pc = some (.loadConst dst index))
    (constant : f.chunk.constants[index.toNat]? = some (.int i)) :
    f.Leads p { p with values := p.values.setIfInBounds dst.toNat (.int i), pc := p.pc + 1 } := by
  refine load hop ?_
  simp only [MachineM.exec, MachineM.constant, constant]
  rfl

/-- An instruction that stores the result of an operation on the heap. -/
theorem store (hop : f.chunk.opcode? p.pc = some op) {dst : Register} {operation : HeapM Value}
    (asks : MachineM.exec f p.values p.pc op = MachineM.store dst operation) {v : Value}
    {heap : Heap} (ran : operation p.heap = .ok v heap) :
    f.Leads p ⟨heap, p.values.setIfInBounds dst.toNat v, p.pc + 1⟩ := by
  refine write hop fun m same => ?_
  rw [asks]
  simp only [MachineM.store, MachineM.onHeap, Bind.bind, EStateM.bind, same, ran]
  rfl

/-- An instruction that stores the result of an operation on two registers. -/
theorem binary (dst lhs rhs : Register) (hop : f.chunk.opcode? p.pc = some op)
    {operation : Value → Value → HeapM Value}
    (asks : MachineM.exec f p.values p.pc op = do
      MachineM.store dst (operation (← MachineM.reg p.values lhs) (← MachineM.reg p.values rhs)))
    {a b v : Value} (ha : p.values[lhs.toNat]? = some a) (hb : p.values[rhs.toNat]? = some b)
    {heap : Heap} (ran : operation a b p.heap = .ok v heap) :
    f.Leads p ⟨heap, p.values.setIfInBounds dst.toNat v, p.pc + 1⟩ := by
  refine store hop ?_ ran
  rw [asks, MachineM.reg_of_getElem? ha, MachineM.reg_of_getElem? hb]
  rfl

/-- An instruction that adds one to a register. -/
theorem increment {r : Register} (hop : f.chunk.opcode? p.pc = some (.increment r)) {a v : Value}
    (ha : p.values[r.toNat]? = some a) {heap : Heap}
    (ran : HeapM.binary .add a (.int 1) p.heap = .ok v heap) :
    f.Leads p ⟨heap, p.values.setIfInBounds r.toNat v, p.pc + 1⟩ := by
  refine store hop ?_ ran
  simp only [MachineM.exec, MachineM.reg_of_getElem? ha]
  rfl

theorem goto {target : UInt32} (hop : f.chunk.opcode? p.pc = some (.jump target)) :
    f.Leads p { p with pc := target.toNat } := by
  refine jump hop fun m same => ?_
  rw [← same]
  rfl

/-- A conditional jump. -/
theorem branch {on t : Bool} {cond : Register} {target : UInt32}
    (hop : f.chunk.opcode? p.pc = some (.branch on cond target))
    (value : p.values[cond.toNat]? = some (.bool t)) :
    f.Leads p { p with pc := if t = on then target.toNat else p.pc + 1 } := by
  have ran : ∀ m : Machine, m.heap = p.heap →
      MachineM.exec f p.values p.pc (.branch on cond target) m =
        .ok (if t = on then .jump target.toNat else .next) (m.withHeap p.heap) := by
    intro m same
    simp only [MachineM.exec, MachineM.reg_of_getElem? value]
    rw [← same]
    change (if t = on then Pure.pure (Effect.jump target.toNat) else Pure.pure .next : MachineM _) m
      = _
    split <;> rfl
  by_cases taken : t = on
  · simp only [if_pos taken] at ran ⊢
    exact jump hop ran
  · simp only [if_neg taken] at ran ⊢
    exact next hop ran

/-- A function breaks that leads to where it breaks. -/
theorem breaks (leads : f.Leads p q) (breaks : f.Breaks q) : f.Breaks p := by
  intro base x h
  obtain ⟨y, reached, stands, kept⟩ := leads base x h
  obtain ⟨z, e, m, leads', fails, remains⟩ := breaks base y stands
  exact ⟨z, e, m, reached.trans leads', fails, kept.toRemains.trans remains⟩

end LoadedFunction.Leads

/-- An instruction that stores the result of an operation on two registers fails with it. -/
theorem LoadedFunction.Breaks.binary {f : LoadedFunction} {p : Point} {op : Opcode}
    (dst lhs rhs : Register) (hop : f.chunk.opcode? p.pc = some op)
    {operation : Value → Value → HeapM Value}
    (asks : MachineM.exec f p.values p.pc op = do
      MachineM.store dst (operation (← MachineM.reg p.values lhs) (← MachineM.reg p.values rhs)))
    {a b : Value} (ha : p.values[lhs.toNat]? = some a) (hb : p.values[rhs.toNat]? = some b)
    {e : Failure} {heap : Heap} (ran : operation a b p.heap = .error e heap) : f.Breaks p := by
  intro base x h
  refine ⟨x, e, x.machine.withHeap heap, .refl,
    ⟨f, op, h.function, h.pc ▸ hop, ?_⟩, ⟨rfl, rfl, rfl⟩⟩
  rw [h.values, h.pc, asks, MachineM.reg_of_getElem? ha, MachineM.reg_of_getElem? hb]
  change MachineM.store dst (operation a b) x.machine = _
  simp only [MachineM.store, MachineM.onHeap, Bind.bind, EStateM.bind, h.heap, ran]
  rfl

/-! ## Failures -/

theorem Frame.handlers_leaveFailed (e : Failure) (frame : Frame) :
    (frame.leaveFailed e).2.handlers = frame.handlers := by
  unfold Frame.leaveFailed
  split
  · rfl
  · split
    · rename_i left
      simp only [Frame.leaveLoop, Bind.bind, Except.bind] at left
      split at left <;> cases left
      rfl
    · rfl

/-- A failure in the outermost frame ends the call when the frame has no handler. -/
theorem unwind_of_free {e : Failure} {frame : Frame} (free : frame.handlers = []) :
    ∃ m' e', unwind e m frame [] = .finished m' (.error e') := by
  have kept := (frame.handlers_leaveFailed e).trans free
  rw [unwind.eq_def]
  simp only [kept]
  exact ⟨_, _, rfl⟩

/-- Without handlers and callers a failure ends the call. -/
theorem Execution.Sound.fails_ends {base : Nat} {x : Execution} {e : Failure} {m : Machine}
    (h : x.Sound base) (outermost : x.callers = []) (free : x.frame.handlers = [])
    (fails : x.Fails e m) : ∃ fuel m' e', x.run fuel = some (m', .error e') := by
  obtain ⟨frame, stepped, -, settled⟩ := h.step_of_fails fails
  obtain ⟨-, -, handlers, -⟩ := Frame.alike_of_settled settled
  obtain ⟨m', e', ended⟩ := unwind_of_free (m := m) (e := e) (handlers.trans free)
  rw [outermost, ended] at stepped
  exact ⟨1, m', e', Execution.run_finished stepped 0⟩

/-! ## Calls -/

namespace Machine

variable {m : Machine} {id : FunctionId} {f : LoadedFunction}

/-- A function is entered below the limit at its first instruction, with registers that hold the
arguments in front and None elsewhere. -/
theorem enter_of_shallow {args : List Value} (hf : m.library.function? id = some f)
    (count : args.length = f.chunk.paramCount.toNat)
    (fits : args.length ≤ f.chunk.registerCount.toNat) (shallow : m.depth < m.config.maxDepth)
    (link : Option CallerLink) : ∃ file arena,
      MachineM.enter id args link m = .ok ⟨id, file, 0, [], link, none⟩ { m with arena } ∧
        file.values =
          args.toArray ++ Array.replicate (f.chunk.registerCount.toNat - args.length) .none := by
  obtain ⟨file, entered, holds⟩ := Frame.enter_of_count id link count m.arena
  refine ⟨file, (m.arena.take f.chunk.registerCount.toNat).2, ?_, holds.values_eq fits⟩
  simp only [MachineM.enter, MachineM.function, MachineM.checkDepth, Bind.bind, EStateM.bind, hf,
    if_neg (Nat.not_le_of_lt shallow), entered]

/-- At the limit no function is entered. -/
theorem enter_of_deep {args : List Value} (hf : m.library.function? id = some f)
    (deep : m.config.maxDepth ≤ m.depth) (link : Option CallerLink) :
    MachineM.enter id args link m = .error (.ofFault .recursionLimit) m := by
  simp only [MachineM.enter, MachineM.function, MachineM.checkDepth, Bind.bind, EStateM.bind, hf,
    if_pos deep]

/-- `x` is where a call of a function from outside begins. -/
structure Begins (m : Machine) (id : FunctionId) (args : List Value) (x : Execution) : Prop where
  runs : m.Runs id args x
  continues : m.Continues x.machine
  globals : x.machine.globals = m.globals
  functionObjects : x.machine.functionObjects = m.functionObjects
  function : x.frame.function = id
  handlers : x.frame.handlers = []
  callers : x.callers = []

/-- A call below the limit begins at the first instruction of the function. -/
theorem execute_at (sound : m.library.Sound) {args : List Value}
    (hf : m.library.function? id = some f) (count : args.length = f.chunk.paramCount.toNat)
    (fits : args.length ≤ f.chunk.registerCount.toNat) (shallow : m.depth < m.config.maxDepth) :
    ∃ x : Execution, x.At m.depth f ⟨m.heap, args.toArray ++
        Array.replicate (f.chunk.registerCount.toNat - args.length) .none, 0⟩ ∧
      m.Begins id args x := by
  obtain ⟨file, arena, entered, values⟩ := enter_of_shallow hf count fits shallow none
  exact ⟨_, ⟨enter_sound sound entered, hf, rfl, values, rfl⟩, ⟨_, _, entered, .refl⟩,
    ⟨rfl, rfl⟩, rfl, rfl, rfl, rfl, rfl⟩

/-- A call of a function without parameters that comes to a return ends with the result. -/
theorem execute_returns (sound : m.library.Sound) (hf : m.library.function? id = some f)
    (params : f.chunk.paramCount = 0) (shallow : m.depth < m.config.maxDepth) {q : Point}
    (leads : f.Leads ⟨m.heap, Array.replicate f.chunk.registerCount.toNat .none, 0⟩ q)
    {r : Register} (hop : f.chunk.opcode? q.pc = some (.ret r)) {v : Value}
    (value : q.values[r.toNat]? = some v) :
    ∃ fuel after, m.execute fuel id [] = some (after, .ok v) ∧ after.heap = q.heap ∧
      after.depth = m.depth := by
  have count : ([] : List Value).length = f.chunk.paramCount.toNat := by simp [params]
  obtain ⟨x, stands, begins⟩ := execute_at sound hf count (Nat.zero_le _) shallow
  simp only [List.length_nil, Nat.sub_zero, Array.empty_append] at stands
  obtain ⟨y, reached, stands', kept⟩ := leads m.depth x stands
  obtain ⟨fuel, after, ran, heap, -, depth⟩ :=
    stands'.returns (kept.callers.trans begins.callers) hop value
  obtain ⟨fuel', ran'⟩ := (begins.runs.leads reached).answers ran
  exact ⟨fuel', after, ran', heap, depth⟩

/-- A call of a function without parameters that breaks ends with a failure. -/
theorem execute_breaks (sound : m.library.Sound) (hf : m.library.function? id = some f)
    (params : f.chunk.paramCount = 0) (shallow : m.depth < m.config.maxDepth)
    (breaks : f.Breaks ⟨m.heap, Array.replicate f.chunk.registerCount.toNat .none, 0⟩) :
    ∃ fuel after e, m.execute fuel id [] = some (after, .error e) := by
  have count : ([] : List Value).length = f.chunk.paramCount.toNat := by simp [params]
  obtain ⟨x, stands, begins⟩ := execute_at sound hf count (Nat.zero_le _) shallow
  simp only [List.length_nil, Nat.sub_zero, Array.empty_append] at stands
  obtain ⟨y, e, m', leads, fails, remains⟩ := breaks m.depth x stands
  obtain ⟨fuel, after, e', ran⟩ := (Execution.Leads.sound leads stands.sound).fails_ends
    (remains.callers.trans begins.callers) (remains.handlers.trans begins.handlers) fails
  obtain ⟨fuel', ran'⟩ := (begins.runs.leads leads).answers ran
  exact ⟨fuel', after, e', ran'⟩

end Machine

end RegisterVm
