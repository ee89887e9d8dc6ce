import RegisterVm.Proofs.Machine.Calls
import RegisterVm.Proofs.Machine.Points

/-!
# Calls between points

What the runs of one function (`LoadedFunction.Leads`) need where the function calls: a call below
the limit enters the function that is called (`Execution.AtCall.enters`), one at the limit fails
(`Execution.AtCall.refused`), and the answer of the same call from outside is what a function goes
on with (`Execution.At.answered`) or ends with (`Execution.At.failed`). Names and objects of
functions come and go with `Execution.At.loadGlobal`, `.storeGlobal` and `.makeFunction`.
-/

namespace RegisterVm.Execution

variable {base : Nat} {x : Execution} {f g : LoadedFunction} {p : Point} {dst : Register}
  {id : FunctionId} {callee v : Value} {args : List Value} {m : Machine}

/-! ## Calls -/

theorem At.atCall (h : x.At base f p) {fn start : Register} {count : UInt32}
    (hop : f.chunk.opcode? p.pc = some (.call dst fn start count))
    (hc : RegisterFile.get p.values fn = .ok callee)
    (ha : RegisterFile.window p.values start count.toNat = .ok args) :
    x.AtCall dst callee args :=
  ⟨f, fn, start, count, h.function, h.pc ▸ hop, h.values ▸ hc, h.values ▸ ha⟩

/-- A call of a function enters it. -/
theorem AtCall.exec_function (stands : x.AtCall dst callee args)
    (called : x.machine.heap.callable callee = .ok (.function id none)) :
    ∃ f op, x.machine.library.function? x.frame.function = some f ∧
      f.chunk.opcode? x.frame.pc = some op ∧
      MachineM.exec f x.frame.settled.file.values x.frame.pc op x.machine =
        (do return Effect.call (← MachineM.enter id args (some ⟨dst, x.frame.pc, none⟩)) :
          MachineM Effect) x.machine :=
  stands.exec_eq called

/-- A call of a function at the limit fails. -/
theorem AtCall.refused (stands : x.AtCall dst callee args)
    (called : x.machine.heap.callable callee = .ok (.function id none))
    (hg : x.machine.library.function? id = some g)
    (deep : x.machine.config.maxDepth ≤ x.machine.depth) :
    x.Fails (.ofFault .recursionLimit) x.machine := by
  obtain ⟨f, op, hf, hop, ran⟩ := stands.exec_function called
  refine ⟨f, op, hf, hop, ran.trans ?_⟩
  simp only [Bind.bind, EStateM.bind, Machine.enter_of_deep hg deep]

/-- `y` is where the function `id` begins that `x` calls. -/
structure Enters (id : FunctionId) (x y : Execution) : Prop where
  next : x.Next y
  globals : y.machine.globals = x.machine.globals
  function : y.frame.function = id
  handlers : y.frame.handlers = []
  calls : ∃ caller, x.Calls y caller

/-- **A call below the limit** begins at the first instruction of the function. -/
theorem AtCall.enters (h : x.Sound base) (stands : x.AtCall dst callee args)
    (called : x.machine.heap.callable callee = .ok (.function id none))
    (hg : x.machine.library.function? id = some g)
    (count : args.length = g.chunk.paramCount.toNat)
    (fits : args.length ≤ g.chunk.registerCount.toNat)
    (shallow : x.machine.depth < x.machine.config.maxDepth) :
    ∃ y, y.At base g ⟨x.machine.heap, args.toArray ++
        Array.replicate (g.chunk.registerCount.toNat - args.length) .none, 0⟩ ∧ x.Enters id y := by
  obtain ⟨f, op, hf, hop, ran⟩ := stands.exec_function called
  obtain ⟨file, arena, entered, values⟩ :=
    Machine.enter_of_shallow hg count fits shallow (some ⟨dst, x.frame.pc, none⟩)
  simp only [Bind.bind, EStateM.bind, entered] at ran
  obtain ⟨caller, stepped, -⟩ := h.step_of_enter ⟨hf, hop, ran⟩
  have sound := h.step
  rw [stepped] at sound
  refine ⟨_, ⟨sound, hg, rfl, values, rfl⟩, stepped, rfl, rfl, rfl, ?_⟩
  rcases h.step_callers with within | ⟨y, caller', stepped', calls⟩
  · rw [stepped] at within
    simpa using within.length_le rfl
  · cases stepped.symm.trans stepped'
    exact ⟨caller', calls⟩

/-- While a call lasts its execution goes on. -/
theorem Meanwhile.leads {z : Execution} (meanwhile : x.Meanwhile z) : x.Leads z := by
  induction meanwhile with
  | refl => exact .refl
  | tail _ next ih => exact ih.tail next.1

/-- **A call with an answer**: the function that called goes on with it. -/
theorem At.answered (h : x.At base f p) (outermost : x.callers = [])
    (stands : x.AtCall dst callee args) {fuel : Nat}
    (ran : x.machine.call fuel callee args = some (m, .ok v)) :
    ∃ y, x.Leads y ∧ y.At base f ⟨m.heap, p.values.setIfInBounds dst.toNat v, p.pc + 1⟩ ∧
      y.machine.globals = m.globals ∧ x.Remains y := by
  cases h.sound.comes stands ran with
  | @value v y z meanwhile stepped settled =>
    have leads : x.Leads y := meanwhile.leads.tail stepped
    have plain : y.machine.plain = m.plain := congrArg Execution.machine settled
    have frame : y.frame.settled = _ := congrArg Execution.frame settled
    have callers : y.callers.map Frame.suspended = x.callers.map Frame.suspended :=
      congrArg Execution.callers settled
    have heap : y.machine.plain.heap = m.plain.heap := congrArg Machine.heap plain
    have globals : y.machine.plain.globals = m.plain.globals := congrArg Machine.globals plain
    have function : y.frame.function = x.frame.function := by
      rw [← y.frame.function_settled, frame]
      exact x.frame.function_settled
    have handlers : y.frame.handlers = x.frame.handlers := by
      rw [← y.frame.handlers_settled, frame]
      exact x.frame.handlers_settled
    refine ⟨y, leads, ⟨Leads.sound leads h.sound, ?_, heap, ?_, ?_⟩, globals,
      function, handlers, ?_⟩
    · rw [function, (leads.continues h.sound).function?]
      exact h.function
    · rw [frame, ← h.values]
      rfl
    · rw [← y.frame.pc_settled, frame, ← h.pc]
    · rw [outermost] at callers ⊢
      simpa using callers

/-- **A call that fails**: without a handler the function that called fails too. -/
theorem At.failed (h : x.At base f p) (outermost : x.callers = []) (free : x.frame.handlers = [])
    (stands : x.AtCall dst callee args) {fuel : Nat} {e : Failure}
    (ran : x.machine.call fuel callee args = some (m, .error e)) :
    ∃ fuel' m' e', x.run fuel' = some (m', .error e') := by
  cases h.sound.comes stands ran with
  | @failure _ z frame meanwhile settled stepped =>
    obtain ⟨-, -, handlers, -⟩ := Frame.alike_of_settled settled
    obtain ⟨m', e', ended⟩ := unwind_of_free (m := m) (e := e) (handlers.trans free)
    rw [outermost, ended] at stepped
    obtain ⟨fuel', ran'⟩ := meanwhile.leads.run (run_finished stepped 0)
    exact ⟨fuel', m', e', ran'⟩

/-! ## Names and objects of functions -/

/-- An instruction that loads a name. -/
theorem At.loadGlobal (h : x.At base f p) {index : UInt32} {name : String}
    (hop : f.chunk.opcode? p.pc = some (.loadGlobal dst index))
    (named : f.chunk.nameAt? index = some name) (global : x.machine.globals.get? name = some v) :
    ∃ y, x.Leads y ∧ y.At base f
        { p with values := p.values.setIfInBounds dst.toNat v, pc := p.pc + 1 } ∧ x.Keeps y := by
  have found : MachineM.global name x.machine = .ok v x.machine := by
    simp only [MachineM.global, Bind.bind, EStateM.bind, get, getThe, MonadStateOf.get,
      EStateM.get, Machine.global?, global, Option.some_or]
    rfl
  have ran : MachineM.exec f p.values p.pc (.loadGlobal dst index) x.machine =
      .ok (.write dst v) x.machine := by
    simp only [MachineM.exec, MachineM.nameOf, named, pure_bind]
    simp only [Bind.bind, EStateM.bind, found]
    rfl
  obtain ⟨y, leads, arrived, plain, remains⟩ := h.writes hop ran
  rw [h.heap] at arrived
  exact ⟨y, leads, arrived, remains.keeps plain⟩

/-- An instruction that defines a name. -/
theorem At.storeGlobal (h : x.At base f p) {index : UInt32} {name : String} {src : Register}
    (hop : f.chunk.opcode? p.pc = some (.storeGlobal index src))
    (named : f.chunk.nameAt? index = some name) (value : p.values[src.toNat]? = some v) :
    ∃ y, x.Leads y ∧ y.At base f { p with pc := p.pc + 1 } ∧
      y.machine.globals = x.machine.globals.set name v ∧ x.Remains y := by
  have ran : MachineM.exec f p.values p.pc (.storeGlobal index src) x.machine =
      .ok .next (x.machine.setGlobal name v) := by
    simp only [MachineM.exec, MachineM.nameOf, named, MachineM.reg_of_getElem? value]
    rfl
  obtain ⟨y, leads, arrived, plain, remains⟩ := h.passes hop ran
  have globals : y.machine.plain.globals = (x.machine.setGlobal name v).plain.globals :=
    congrArg Machine.globals plain
  have heap : (x.machine.setGlobal name v).heap = p.heap := h.heap
  rw [heap] at arrived
  exact ⟨y, leads, arrived, globals, remains⟩

/-- An instruction that makes the object of a function that has none. -/
theorem At.makeFunction (h : x.At base f p) {index : UInt32}
    (hop : f.chunk.opcode? p.pc = some (.makeFunction dst index))
    (child : f.children[index.toNat]? = some id) (hg : x.machine.library.function? id = some g)
    (unlisted : x.machine.functionObjects.lookup id = none) :
    ∃ y, x.Leads y ∧ y.At base f ⟨(p.heap.alloc (.function id g.chunk.name)).2,
        p.values.setIfInBounds dst.toNat (.object (p.heap.alloc (.function id g.chunk.name)).1),
        p.pc + 1⟩ ∧ x.Keeps y := by
  let made := p.heap.alloc (.function id g.chunk.name)
  let m : Machine := { x.machine with
    heap := made.2, functionObjects := (id, .object made.1) :: x.machine.functionObjects }
  have ran : MachineM.exec f p.values p.pc (.makeFunction dst index) x.machine =
      .ok (.write dst (.object made.1)) m := by
    simp only [MachineM.exec, child, MachineM.function, hg, MachineM.functionObject, Bind.bind,
      EStateM.bind, get, getThe, MonadStateOf.get, EStateM.get, unlisted, m, made, ← h.heap]
    rfl
  obtain ⟨y, leads, arrived, plain, remains⟩ := h.writes hop ran
  have globals : y.machine.plain.globals = m.plain.globals := congrArg Machine.globals plain
  exact ⟨y, leads, arrived, remains, globals⟩

end RegisterVm.Execution
