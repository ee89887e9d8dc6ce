import RegisterVm.Proofs.Machine.InUse

/-!
# The executions of a machine and their steps

`Machine.Executes` are the executions that the calls of a host go through, of functions and of any
values. `Execution.Sound.moves` says once what a step of an execution comes to: a failure that
unwinds, the end of a function, or the effect of an instruction, as the interpreter sees it, unless
a compiled loop is left before a return. So handlers come and go with the effects of instructions
and with failures only (`Execution.Sound.handlers_step`).
-/

namespace RegisterVm

/-! ## Executions of calls -/

namespace Machine

/-- A call that a host makes on values of the machine comes to the call of a function. -/
inductive Starts (m : Machine) : Machine → FunctionId → List Value → Prop
  | execute {id : FunctionId} {args : List Value} : (∀ v ∈ args, m.heap.Has v) → Starts m m id args
  | call {callee : Value} {args args' : List Value} {m₁ : Machine} {id : FunctionId} :
    (∀ v ∈ args, m.heap.Has v) → m.Enters callee args m₁ id args' → Starts m m₁ id args'

/-- The executions of the calls that a host makes on values of the machine. -/
def Executes (m : Machine) (x : Execution) : Prop :=
  ∃ m₁ id args, m.Starts m₁ id args ∧ m₁.Runs id args x

variable {m m' : Machine} {x y : Execution}

/-- A function is called on a machine that has advanced, with values of its heap. -/
theorem Starts.advances {m₁ : Machine} {id : FunctionId} {args : List Value}
    (h : m.Starts m₁ id args) (inUse : m.InUse) :
    m.Advances m₁ ∧ m₁.Reached ∧ ∀ v ∈ args, m₁.heap.Has v := by
  cases h with
  | execute ha => exact ⟨.refl inUse.consistent, inUse.reached, ha⟩
  | call ha enters =>
    obtain ⟨advances, ha'⟩ := enters.advances inUse.consistent ha
    exact ⟨advances, .other inUse.reached advances.library, ha'⟩

namespace Executes

theorem ofRuns {id : FunctionId} {args : List Value} (ha : ∀ v ∈ args, m.heap.Has v)
    (runs : m.Runs id args x) : m.Executes x :=
  ⟨m, id, args, .execute ha, runs⟩

/-- **Every execution is sound.** -/
theorem sound (h : m.Executes x) (inUse : m.InUse) : x.Sound m.depth := by
  obtain ⟨m₁, id, args, starts, runs⟩ := h
  obtain ⟨advances, reached, -⟩ := starts.advances inUse
  exact advances.depth ▸ runs.sound reached

/-- **Every execution is consistent.** -/
theorem consistent (h : m.Executes x) (inUse : m.InUse) : x.Consistent := by
  obtain ⟨m₁, id, args, starts, frame, m₂, entered, leads⟩ := h
  obtain ⟨advances, reached, ha⟩ := starts.advances inUse
  exact leads.consistent (enter_sound reached.sound entered)
    (enter_consistent advances.consistent ha entered)

/-- Every waiting caller has called, and waits as it was then. -/
theorem called (h : m.Executes x) (inUse : m.InUse) {inner outer : List Frame} {g : Frame}
    (split : x.callers = inner ++ g :: outer) :
    ∃ z z', m.Executes z ∧ z.Next z' ∧ z'.Leads x ∧ z.callers = outer ∧ z.Calls z' g := by
  obtain ⟨m₁, id, args, starts, frame, m₂, entered, leads⟩ := h
  obtain ⟨advances, reached, -⟩ := starts.advances inUse
  obtain ⟨z, z', first, called⟩ := leads.called (enter_sound reached.sound entered) rfl split
  exact ⟨z, z', ⟨m₁, id, args, starts, frame, m₂, entered, first⟩, called⟩

/-- A failure goes to the innermost handler of the innermost frame that has one, as it is. -/
theorem delivers (h : m.Executes x) (inUse : m.InUse) {e : Failure} (fails : x.Fails e m')
    {inner outer : List Frame} {g : Frame} {k : Handler} {rest : List Handler}
    (split : x.frame :: x.callers = inner ++ g :: outer) (free : ∀ a ∈ inner, a.handlers = [])
    (hh : g.handlers = k :: rest) :
    ∃ y frame, x.step = .running y ∧ y.callers = outer ∧
      Execution.Resumes e m'.heap k rest frame y := by
  obtain ⟨m₁, id, args, starts, runs⟩ := h
  obtain ⟨y, z, stepped, outer, -, -, -, -, -, -, resumes⟩ :=
    runs.delivers (starts.advances inUse).2.1 fails split free hh
  exact ⟨y, z.frame, stepped, outer, resumes⟩

end Executes

/-- **Calls leave the depth as it was**, however they end. -/
theorem call_depth (reached : m.Reached) {callee : Value} {args : List Value} {fuel : Nat}
    {r : Outcome Value} (ran : m.call fuel callee args = some (m', r)) : m'.depth = m.depth := by
  rcases call_spec ran with ⟨kept, -⟩ | ⟨m₁, id, args', r', enters, executed, -⟩
  · exact kept.depth
  · have reached₁ : m₁.Reached := .other reached enters.keeps.library
    exact (execute_sound reached₁.sound executed).2.trans enters.keeps.depth

/-- **Between calls no frame is active.** -/
theorem InUse.depth_eq_zero (h : m.InUse) : m.depth = 0 := by
  induction h with
  | start config => rfl
  | @load m m' c id _ loaded ih =>
    unfold Machine.load at loaded
    split at loaded <;> cases loaded
    exact ih
  | execute before _ ran ih => exact (execute_sound before.reached.sound ran).2.trans ih
  | call before _ ran ih => exact (call_depth before.reached ran).trans ih
  | profiled _ profiled ih =>
    rw [← depth_plain, profiled.plain, depth_plain]
    exact ih
  | helper _ _ _ ih | setGlobal _ _ _ ih | takeOutput _ ih | shared _ _ _ ih => exact ih

end Machine

/-! ## Steps -/

namespace Execution

/-- The instruction at which `x` stands succeeds with an effect and leaves the machine `m`. -/
structure Succeeds (x : Execution) (f : LoadedFunction) (op : Opcode) (effect : Effect)
    (m : Machine) : Prop where
  function : x.machine.library.function? x.frame.function = some f
  opcode : f.chunk.opcode? x.frame.pc = some op
  result : MachineM.exec f x.frame.settled.file.values x.frame.pc op x.machine = .ok effect m

/-- The running frame ends with a result: its instruction returns it, or no instruction is left. -/
inductive Returns (x : Execution) : Value → Machine → Prop
  | instruction {f : LoadedFunction} {op : Opcode} {v : Value} {m : Machine} :
    x.Succeeds f op (.ret v) m → Returns x v m
  | ended {f : LoadedFunction} : x.machine.library.function? x.frame.function = some f →
    f.chunk.opcode? x.frame.pc = none → Returns x .none x.machine

/-- What a step of `x` comes to. -/
inductive Moves (x : Execution) : Status → Prop
  /-- A compiled loop is left before a return, which the interpreter does not see. -/
  | left {f : LoadedFunction} {op : Opcode} {y : Execution} :
    x.machine.library.function? x.frame.function = some f →
    f.chunk.opcode? x.frame.pc = some op → op.IsReturn → y.settled = x.settled →
    Moves x (.running y)
  | failed {e : Failure} {m : Machine} {frame : Frame} : x.Fails e m →
    frame.settled = x.frame.settled → Moves x (unwind e m frame x.callers)
  | returned {v : Value} {m : Machine} {s : Status} : x.Returns v m →
    s.settled = (finish v m.plain x.frame.settled (x.callers.map Frame.suspended)).settled →
    Moves x s
  | performed {f : LoadedFunction} {op : Opcode} {effect : Effect} {m : Machine} {s : Status} :
    x.Succeeds f op effect m → (∀ v, effect ≠ .ret v) →
    s.settled =
      (perform effect f m.plain x.frame.settled (x.callers.map Frame.suspended)).settled →
    Moves x s

variable {x y : Execution} {base : Nat}

/-- **What a step comes to.** -/
theorem Sound.moves (h : x.Sound base) : x.Moves x.step := by
  -- Failures come first: they unwind in a compiled loop as in the interpreter, while for the rest
  -- it is enough to know what the interpreter sees.
  by_cases fails : ∃ e m, x.Fails e m
  · obtain ⟨e, m, fails⟩ := fails
    obtain ⟨frame, stepped, -, settled⟩ := h.step_of_fails fails
    rw [stepped]
    exact .failed fails settled
  obtain ⟨f, hf, hs⟩ := h.frame
  have advances := h.advances
  generalize x.step = s at advances ⊢
  cases advances with
  | leave _ same _ hf hop isReturn => exact .left hf hop isReturn same
  | step shown =>
    have function : x.machine.plain.library.function? x.frame.settled.function = some f := by
      rw [Frame.function_settled]
      exact hf
    have seen := shown.settled
    rw [Execution.settled, step_interpreted x.frame.native_settled function] at seen
    cases hop : f.chunk.opcode? x.frame.pc with
    | none =>
      simp only [interpret, Frame.pc_settled, hop] at seen
      exact .returned (.ended hf hop) seen
    | some op =>
      have fits := (h.library.function _ f hf).instruction _ op hop
      have ran := (MachineM.exec_steady fits hs.settled.size).plain x.machine rfl
      rw [interpret_eq (by rw [Frame.pc_settled]; exact hop), Frame.pc_settled, ran] at seen
      cases result : MachineM.exec f x.frame.settled.file.values x.frame.pc op x.machine with
      | error e m => exact absurd ⟨e, m, f, op, hf, hop, result⟩ fails
      | ok effect m =>
        rw [result] at seen
        by_cases returns : ∃ v, effect = .ret v
        · obtain ⟨v, rfl⟩ := returns
          exact .returned (.instruction ⟨hf, hop, result⟩) seen
        · exact .performed ⟨hf, hop, result⟩ (fun v same => returns ⟨v, same⟩) seen

/-- An instruction succeeds in one way. -/
theorem Succeeds.unique {f f' : LoadedFunction} {op op' : Opcode} {effect effect' : Effect}
    {m m' : Machine} (h : x.Succeeds f op effect m) (h' : x.Succeeds f' op' effect' m') :
    f' = f ∧ op' = op ∧ effect' = effect ∧ m' = m := by
  cases h.function.symm.trans h'.function
  cases h.opcode.symm.trans h'.opcode
  cases h.result.symm.trans h'.result
  exact ⟨rfl, rfl, rfl, rfl⟩

/-- What succeeds does not fail. -/
theorem Succeeds.not_fails {f : LoadedFunction} {op : Opcode} {effect : Effect} {m m' : Machine}
    {e : Failure} (h : x.Succeeds f op effect m) : ¬x.Fails e m' := by
  rintro ⟨g, op', hg, hop, result⟩
  cases h.function.symm.trans hg
  cases h.opcode.symm.trans hop
  cases h.result.symm.trans result

/-- What a success comes to, in the interpreter and on the plain machine. -/
theorem Sound.succeeds (h : x.Sound base) {f : LoadedFunction} {op : Opcode} {effect : Effect}
    {m : Machine} (succeeds : x.Succeeds f op effect m) :
    x.machine.Keeps m ∧ effect.Of m.library.functions op x.frame.pc ∧
      Sound base ⟨m.plain, x.frame.settled, x.callers.map Frame.suspended⟩ := by
  have fits := (h.library.function _ f succeeds.function).instruction _ op succeeds.opcode
  have steady : MachineM.Steady x.machine.library.functions
      (MachineM.exec f x.frame.settled.file.values x.frame.pc op) _ _ :=
    MachineM.exec_steady fits (h.here succeeds.function).settled.size
  obtain ⟨kept, of⟩ := steady.ok _ effect m rfl succeeds.result
  exact ⟨kept, kept.library ▸ of, h.settled.keeps kept.plain⟩

/-- What the interpreter sees of an instruction that succeeds and does not return. -/
theorem Sound.step_of_succeeds (h : x.Sound base) {f : LoadedFunction} {op : Opcode}
    {effect : Effect} {m : Machine} (succeeds : x.Succeeds f op effect m)
    (stays : ∀ v, effect ≠ .ret v) :
    x.step.settled =
      (perform effect f m.plain x.frame.settled (x.callers.map Frame.suspended)).settled := by
  have moves := h.moves
  generalize x.step = s at moves ⊢
  cases moves with
  | left hf hop isReturn =>
    cases succeeds.function.symm.trans hf
    cases succeeds.opcode.symm.trans hop
    have fits := (h.library.function _ f hf).instruction _ op hop
    obtain ⟨v, returned⟩ :=
      MachineM.exec_of_isReturn isReturn fits (h.here hf).settled.size x.machine
    cases succeeds.result.symm.trans returned
    exact absurd rfl (stays v)
  | failed fails => exact absurd fails succeeds.not_fails
  | returned returns =>
    cases returns with
    | instruction other =>
      obtain ⟨-, -, same, -⟩ := succeeds.unique other
      exact absurd same.symm (stays _)
    | ended hf hop =>
      cases succeeds.function.symm.trans hf
      cases succeeds.opcode.symm.trans hop
  | performed other _ same =>
    obtain ⟨rfl, rfl, rfl, rfl⟩ := succeeds.unique other
    exact same

end Execution

/-! ## Effects on frames -/

/-- The frame at the instruction to which an effect leads, with the handlers that it leaves. -/
def Effect.advance (effect : Effect) (frame : Frame) : Frame :=
  match effect with
  | jump target => { frame with pc := target }
  | guard h => { frame with pc := frame.pc + 1, handlers := h :: frame.handlers }
  | unguard => { frame with pc := frame.pc + 1, handlers := frame.handlers.tail }
  | _ => { frame with pc := frame.pc + 1 }

/-- The frame after an effect that does not end it. -/
def Effect.frame (effect : Effect) (frame : Frame) : Outcome Frame := do
  return effect.advance (frame.withValues (← effect.apply frame.file.values))

/-- **What an effect does** to the frame of its instruction, and with it, when it neither returns
nor calls. -/
theorem perform_frame {base : Nat} {m : Machine} {frame : Frame} {callers : List Frame}
    {f : LoadedFunction} {op : Opcode} {effect : Effect}
    (h : Execution.Sound base ⟨m, frame, callers⟩) (hn : frame.native = none)
    (hf : m.library.function? frame.function = some f) (hop : f.chunk.opcode? frame.pc = some op)
    (of : effect.Of m.library.functions op frame.pc) (stays : ∀ v, effect ≠ .ret v)
    (calls : ∀ callee, effect ≠ .call callee) :
    ∃ frame', effect.frame frame = .ok frame' ∧ frame'.native = none ∧
      (perform effect f m frame callers).settled =
        (Status.running ⟨m, frame', callers⟩).settled := by
  have fits := (h.library.function _ f hf).instruction _ op hop
  have size := (h.here hf).size
  have shown := fun target (target' : op.branchTarget? = some target) =>
    branchTo_shows h hn hf (Nat.le_of_lt (fits.target target target'))
  obtain ⟨function, ⟨values, allocated⟩, pc, handlers, link, native⟩ := frame
  obtain rfl : native = none := hn
  cases effect with
  | next | guard | unguard => exact ⟨_, rfl, rfl, rfl⟩
  | write dst v =>
    have inside : dst.toNat < values.size := size ▸ fits.register of
    refine ⟨⟨function, ⟨values.setIfInBounds dst.toNat v, allocated⟩, pc + 1, handlers, link, none⟩,
      ?_, rfl, congrArg Status.settled (perform_write inside)⟩
    simp only [Effect.frame, Effect.apply, RegisterFile.set, if_pos inside]
    rfl
  | jump target =>
    exact ⟨⟨function, ⟨values, allocated⟩, target, handlers, link, none⟩, rfl, rfl,
      (shown target of).settled⟩
  | ret v => exact absurd rfl (stays v)
  | call callee => exact absurd rfl (calls callee)

/-! ## Calls and their ends -/

/-- Executions that the interpreter sees alike have as many frames. -/
theorem Execution.length_callers_of_settled {x y : Execution} (same : y.settled = x.settled) :
    y.callers.length = x.callers.length := by
  have length := congrArg (fun z => z.callers.length) same
  simpa only [Execution.settled, List.length_map] using length

theorem Status.Within.length_le {callers : List Frame} {s : Status} {y : Execution}
    (within : s.Within callers) (same : (Status.running y).settled = s.settled) :
    y.callers.length ≤ callers.length := by
  cases within with
  | finished => cases same
  | running suffix =>
    rw [Execution.length_callers_of_settled (Status.running.inj same)]
    exact suffix.length_le

/-- The end of a frame in the interpreter: its caller goes on with the result, or with what it gets
in place of the result. -/
theorem finish_called {v : Value} {m : Machine} {frame caller : Frame} {callers : List Frame}
    {link : CallerLink} (hl : frame.caller = some link) (hn : caller.native = none) :
    finish v m frame (caller :: callers) = .running ⟨m.retire frame.file, caller.withValues
      (caller.file.values.setIfInBounds link.dst.toNat (link.result.getD v)), callers⟩ := by
  obtain ⟨function, ⟨values, allocated⟩, pc, handlers, outer, native⟩ := caller
  obtain rfl : native = none := hn
  simp only [finish, hl, resume]
  rfl

namespace Execution

variable {x y : Execution} {base : Nat}

/-- Only calls add frames. -/
theorem Sound.succeeds_of_deeper (h : x.Sound base) (stepped : x.step = .running y)
    (deeper : x.callers.length < y.callers.length) :
    ∃ f op callee m, x.Succeeds f op (.call callee) m := by
  have within : ∀ {s : Status} {callers : List Frame}, s.Within callers →
      callers.length = x.callers.length → (Status.running y).settled = s.settled → False := by
    intro s callers within same seen
    have := within.length_le seen
    omega
  have moves := h.moves
  rw [stepped] at moves
  generalize hs : Status.running y = s at moves
  cases moves with
  | @left _ _ z _ _ _ same =>
    exact (within (.running List.suffix_rfl) (length_callers_of_settled same)
      (congrArg Status.settled hs)).elim
  | failed => exact (within (unwind_within ..) rfl (congrArg Status.settled hs)).elim
  | returned _ same =>
    subst hs
    exact (within (finish_within ..) (by simp) same).elim
  | @performed f op effect m _ succeeds _ same =>
    subst hs
    rcases perform_callers effect f m.plain x.frame.settled (x.callers.map Frame.suspended) with
      stays | ⟨callee, rfl⟩
    · exact (within stays (by simp) same).elim
    · exact ⟨f, op, callee, m, succeeds⟩

/-- What the interpreter makes of an instruction that succeeds and neither returns nor calls. -/
theorem Sound.performs (h : x.Sound base) {f : LoadedFunction} {op : Opcode} {effect : Effect}
    {m : Machine} (succeeds : x.Succeeds f op effect m) (stays : ∀ v, effect ≠ .ret v)
    (calls : ∀ callee, effect ≠ .call callee) :
    ∃ frame, effect.frame x.frame.settled = .ok frame ∧ frame.native = none ∧
      (perform effect f m.plain x.frame.settled (x.callers.map Frame.suspended)).settled =
        (Status.running ⟨m.plain, frame, x.callers.map Frame.suspended⟩).settled := by
  obtain ⟨kept, of, sound⟩ := h.succeeds succeeds
  have function : m.plain.library.function? x.frame.settled.function = some f := by
    rw [Machine.function?_plain, kept.library, Frame.function_settled]
    exact succeeds.function
  exact perform_frame sound x.frame.native_settled function
    (by rw [Frame.pc_settled]; exact succeeds.opcode) (by rw [Frame.pc_settled]; exact of)
    stays calls

/-- **An effect that neither returns nor calls** is what a step does to the running frame. -/
theorem Sound.step_of_frame (h : x.Sound base) {f : LoadedFunction} {op : Opcode} {effect : Effect}
    {m : Machine} (succeeds : x.Succeeds f op effect m) (stays : ∀ v, effect ≠ .ret v)
    (calls : ∀ callee, effect ≠ .call callee) (stepped : x.step = .running y) :
    effect.frame x.frame.settled = .ok y.frame.settled ∧ y.machine.plain = m.plain ∧
      y.callers = x.callers := by
  obtain ⟨frame', framed, native, seen⟩ := h.performs succeeds stays calls
  have same := (h.step_of_succeeds succeeds stays).trans seen
  rw [stepped] at same
  have same' := Status.running.inj same
  have frames : y.frame.settled = frame' :=
    (congrArg Execution.frame same').trans (Frame.settled_of_none native)
  refine ⟨framed.trans (congrArg Except.ok frames.symm), congrArg Execution.machine same', ?_⟩
  have length := length_callers_of_settled same'
  simp only [List.length_map] at length
  rcases h.step_callers with within | ⟨y', g, stepped', calls⟩
  · rw [stepped] at within
    cases within with
    | running suffix => exact suffix.eq_of_length length
  · cases stepped.symm.trans stepped'
    rw [calls.callers, List.length_cons] at length
    omega

/-- **A call** runs its function on top of the frame, which waits as it was at the address after
the call. -/
theorem Sound.step_of_call (h : x.Sound base) {f : LoadedFunction} {op : Opcode} {callee : Frame}
    {m : Machine} (succeeds : x.Succeeds f op (.call callee) m) (stepped : x.step = .running y) :
    y.frame.settled = callee ∧ y.machine.plain = m.plain.descend ∧
      ∃ g, y.callers = g :: x.callers ∧
        g.suspended = { x.frame.settled with pc := x.frame.pc + 1 } := by
  obtain ⟨-, ⟨-, dst, result, -, fresh⟩, -⟩ := h.succeeds succeeds
  have seen := h.step_of_succeeds succeeds (fun v same => by cases same)
  rw [stepped] at seen
  have same := Status.running.inj seen
  refine ⟨(congrArg Execution.frame same).trans (Frame.settled_of_none fresh.native),
    congrArg Execution.machine same, ?_⟩
  have waiting := congrArg Execution.callers same
  simp only [Execution.settled, List.map_cons, Frame.pc_settled] at waiting
  rcases h.step_callers with within | ⟨y', g, stepped', calls⟩
  · rw [stepped] at within
    have lengths := congrArg List.length waiting
    have fewer := within.length_le rfl
    simp at lengths
    omega
  · cases stepped.symm.trans stepped'
    refine ⟨g, calls.callers, ?_⟩
    rw [calls.callers, List.map_cons] at waiting
    exact (List.cons.inj waiting).1.trans (Frame.suspended_of_none x.frame.native_settled)

/-- What the interpreter sees of the end of a frame that was called. -/
theorem Sound.finishes (h : x.Sound base) {v : Value} {m : Machine}
    (same : (Status.running y).settled =
      (finish v m.plain x.frame.settled (x.callers.map Frame.suspended)).settled) :
    ∃ caller rest link, x.callers = caller :: rest ∧ x.frame.caller = some link ∧
      y.settled = Execution.settled ⟨m.plain.retire x.frame.settled.file,
        caller.suspended.withValues
          (caller.suspended.file.values.setIfInBounds link.dst.toNat (link.result.getD v)),
        rest.map Frame.suspended⟩ := by
  have waiting := h.waiting
  cases hc : x.callers with
  | nil =>
    rw [hc] at same
    cases same
  | cons caller rest =>
    cases hl : x.frame.caller with
    | none =>
      rw [hl, hc] at waiting
      cases waiting
    | some link =>
      rw [hc, List.map_cons, finish_called (by rw [Frame.caller_settled, hl])
        caller.native_suspended] at same
      exact ⟨caller, rest, link, rfl, rfl, Status.running.inj same⟩

/-- **The end of a call.** Where no instruction fails a step drops a frame only when it ends with a
result. Its caller goes on as it waited, with the result in the register of the link. -/
theorem Sound.step_of_end (h : x.Sound base) (smooth : ∀ e m, ¬x.Fails e m)
    (stepped : x.step = .running y) {caller : Frame} {rest : List Frame}
    (hc : x.callers = caller :: rest) (fewer : y.callers.length < x.callers.length) :
    ∃ v m link, x.Returns v m ∧ x.frame.caller = some link ∧ y.callers = rest ∧
      y.frame.settled = caller.suspended.withValues
        (caller.suspended.file.values.setIfInBounds link.dst.toNat (link.result.getD v)) := by
  have moves := h.moves
  rw [stepped] at moves
  generalize hs : Status.running y = s at moves
  cases moves with
  | left _ _ _ same =>
    cases hs
    have length := length_callers_of_settled same
    omega
  | failed fails => exact absurd fails (smooth _ _)
  | @returned v m _ returns same =>
    subst hs
    obtain ⟨caller', rest', link, hc', hl, same'⟩ := h.finishes same
    cases hc.symm.trans hc'
    have native : (caller.suspended.withValues (caller.suspended.file.values.setIfInBounds
        link.dst.toNat (link.result.getD v))).native = none := caller.native_suspended
    refine ⟨v, m, link, returns, hl, ?_,
      (congrArg Execution.frame same').trans (Frame.settled_of_none native)⟩
    have length := length_callers_of_settled same'
    simp only [List.length_map] at length
    rcases h.step_callers with within | ⟨y', g, stepped', calls⟩
    · rw [stepped, hc] at within
      cases within with
      | running suffix =>
        rcases List.suffix_cons_iff.mp suffix with all | suffix
        · rw [all, List.length_cons] at length
          omega
        · exact suffix.eq_of_length length
    · cases stepped.symm.trans stepped'
      rw [calls.callers, List.length_cons] at fewer
      omega
  | @performed f op effect m _ succeeds stays same =>
    by_cases calls : ∃ callee, effect = .call callee
    · obtain ⟨callee, rfl⟩ := calls
      obtain ⟨-, -, g, callers, -⟩ := h.step_of_call succeeds stepped
      rw [callers, List.length_cons] at fewer
      omega
    · obtain ⟨-, -, callers⟩ :=
        h.step_of_frame succeeds stays (fun callee same => calls ⟨callee, same⟩) stepped
      rw [callers] at fewer
      omega

end Execution

/-! ## What every step keeps -/

/-- `m'` has the functions of `m`, and its settings but for those of compiled loops. -/
structure Machine.Continues (m m' : Machine) : Prop where
  functions : m'.library.functions = m.library.functions
  settings : m'.config.plain = m.config.plain

namespace Machine.Continues

variable {m m₁ m₂ : Machine}

theorem refl (m : Machine) : m.Continues m := ⟨rfl, rfl⟩

theorem trans (h : m.Continues m₁) (h' : m₁.Continues m₂) : m.Continues m₂ :=
  ⟨h'.functions.trans h.functions, h'.settings.trans h.settings⟩

theorem function? (h : m.Continues m₁) (id : FunctionId) :
    m₁.library.function? id = m.library.function? id := by
  rw [Library.function?, h.functions]
  rfl

theorem maxDepth (h : m.Continues m₁) : m₁.config.maxDepth = m.config.maxDepth :=
  (congrArg Config.maxDepth h.settings : m₁.config.plain.maxDepth = m.config.plain.maxDepth)

theorem ofKeeps (h : m.Keeps m₁) : m.Continues m₁ :=
  ⟨congrArg Library.functions h.library, congrArg Config.plain h.config⟩

/-- Machines with the same plain machine have the same functions and settings. -/
theorem ofPlain (same : m₁.plain = m₂.plain) (h : m.Continues m₂) : m.Continues m₁ := by
  refine trans h ⟨?_, congrArg Machine.config same⟩
  rw [← functions_plain, same, functions_plain]

end Machine.Continues

/-- Unwinding ends with a failure or goes on at a handler. What holds at first and is kept where a
failure leaves a frame holds of the failure and the machine in the end. -/
theorem unwind_outcome {base : Nat} {m : Machine} {frame : Frame} {callers : List Frame}
    {e : Failure} (h : Execution.Sound base ⟨m, frame, callers⟩) {P : Failure → Machine → Prop}
    (leave : ∀ {e m} entry file, P e m → P (Failure.leave entry e) (Machine.retire file m))
    (start : P e m) :
    (∃ e' m' y, P e' m' ∧ m'.Keeps y.machine ∧ unwind e m frame callers = .running y) ∨
      ∃ e' m', P e' m' ∧ unwind e m frame callers = .finished m' (.error e') := by
  have here : ∀ {callers : List Frame} {f : LoadedFunction} {m : Machine} {frame : Frame}
      {e : Failure} {k : Handler} {rest : List Handler}, P e m → frame.Sound f →
      frame.handlers = k :: rest →
      ∃ e' m' y, P e' m' ∧ m'.Keeps y.machine ∧ unwind e m frame callers = .running y := by
    intro callers f m frame e k rest start hs hh
    obtain ⟨v, m', caught, kept, -⟩ := MachineM.caught_ok e m
    exact ⟨e, m, _, start, kept, unwind_caught hs hh caught⟩
  -- On the callers, innermost first: a frame without handlers is left, which keeps `P`.
  induction callers generalizing m frame e with
  | nil =>
    obtain ⟨f, hf, hs⟩ := h.frame
    cases hh : frame.handlers with
    | nil => exact .inr ⟨_, _, leave _ _ start, unwind_outermost hs hh⟩
    | cons k rest => exact .inl (here start hs hh)
  | cons caller callers ih =>
    obtain ⟨f, hf, hs⟩ := h.frame
    cases hh : frame.handlers with
    | nil =>
      obtain ⟨unwound, -⟩ := h.unwound frame.settled.file
      rw [unwind_passes hs hh]
      exact ih unwound (leave _ _ start)
    | cons k rest => exact .inl (here start hs hh)

namespace Execution

variable {x y : Execution} {base : Nat}

theorem Sound.returns_keeps (h : x.Sound base) {v : Value} {m : Machine} (returns : x.Returns v m) :
    x.machine.Keeps m := by
  cases returns with
  | instruction succeeds => exact (h.succeeds succeeds).1
  | ended => exact .refl _

/-- **Steps keep the functions and the settings.** -/
theorem Sound.continues (h : x.Sound base) (stepped : x.step = .running y) :
    x.machine.Continues y.machine := by
  have moves := h.moves
  rw [stepped] at moves
  generalize hs : Status.running y = s at moves
  cases moves with
  | left _ _ _ same =>
    cases hs
    exact .ofPlain (congrArg Execution.machine same) (.refl _)
  | failed fails =>
    obtain ⟨frame, unwound, sound, -⟩ := h.step_of_fails fails
    have kept : x.machine.Continues _ := .ofKeeps (h.fails_keeps fails).1
    rcases unwind_outcome sound (P := fun _ m => x.machine.Continues m)
      (fun entry file before => before.trans ⟨rfl, rfl⟩) kept with
      ⟨e', m', y', before, keeps, resumed⟩ | ⟨e', m', -, ended⟩
    · cases stepped.symm.trans (unwound.trans resumed)
      exact before.trans (.ofKeeps keeps)
    · cases stepped.symm.trans (unwound.trans ended)
  | @returned v m _ returns same =>
    subst hs
    obtain ⟨caller, rest, link, -, -, same'⟩ := h.finishes same
    have retired : x.machine.Continues (m.retire x.frame.settled.file) :=
      .trans (.ofKeeps (h.returns_keeps returns)) ⟨rfl, rfl⟩
    have plain : y.machine.plain = (m.retire x.frame.settled.file).plain :=
      congrArg Execution.machine same'
    exact .ofPlain plain retired
  | @performed f op effect m _ succeeds stays same =>
    have kept : x.machine.Continues m := .ofKeeps (h.succeeds succeeds).1
    by_cases calls : ∃ callee, effect = .call callee
    · obtain ⟨callee, rfl⟩ := calls
      obtain ⟨-, plain, -⟩ := h.step_of_call succeeds stepped
      rw [← Machine.plain_descend] at plain
      exact .ofPlain plain (kept.trans ⟨rfl, rfl⟩)
    · obtain ⟨-, same, -⟩ :=
        h.step_of_frame succeeds stays (fun callee same => calls ⟨callee, same⟩) stepped
      exact .ofPlain same kept

/-- What an execution leads to has its functions and settings. -/
theorem Leads.continues (leads : x.Leads y) (h : x.Sound base) :
    x.machine.Continues y.machine := by
  induction leads with
  | refl => exact .refl _
  | tail before next ih => exact ih.trans ((Leads.sound before h).continues next)

end Execution

/-! ## Handlers -/

/-- What an effect does to the handlers of the active frames, innermost frame first. -/
def Effect.handlers : Effect → List (List Handler) → List (List Handler)
  | ret _, rest => rest.tail
  | call _, rest => [] :: rest
  | guard k, own :: rest => (k :: own) :: rest
  | unguard, own :: rest => own.tail :: rest
  | _, rest => rest

/-- The handlers of the active frames, innermost frame first. -/
def Execution.handlers (x : Execution) : List (List Handler) :=
  (x.frame :: x.callers).map Frame.handlers

@[simp] theorem Frame.handlers_suspended (frame : Frame) :
    frame.suspended.handlers = frame.handlers := by
  unfold suspended
  split
  · rfl
  · exact frame.handlers_settled

@[simp] theorem Frame.handlers_withValues (frame : Frame) (values : Array Value) :
    (frame.withValues values).handlers = frame.handlers := rfl

@[simp] theorem Execution.handlers_settled (x : Execution) : x.settled.handlers = x.handlers := by
  simp [handlers, settled]

/-- The handlers after an effect that neither returns nor calls. -/
theorem Effect.frame_handlers {effect : Effect} {frame frame' : Frame} {callers : List Frame}
    (framed : effect.frame frame = .ok frame') (stays : ∀ v, effect ≠ .ret v)
    (calls : ∀ callee, effect ≠ .call callee) :
    (frame' :: callers).map Frame.handlers =
      effect.handlers ((frame :: callers).map Frame.handlers) := by
  cases effect with
  | write dst v =>
    simp only [Effect.frame, Effect.apply, RegisterFile.set] at framed
    split at framed <;> cases framed
    rfl
  | next | jump | guard | unguard =>
    cases framed
    rfl
  | ret v => exact absurd rfl (stays v)
  | call callee => exact absurd rfl (calls callee)

namespace Execution

variable {x y : Execution} {base : Nat}

/-- **Only failures and effects change handlers.** A step in which no instruction fails drops the
handlers of a frame that ends, changes those of the running frame as its instruction says, or leaves
all as they are. -/
theorem Sound.handlers_step (h : x.Sound base) (smooth : ∀ e m, ¬x.Fails e m)
    (stepped : x.step = .running y) :
    y.handlers = x.handlers ∨ (∃ v m, x.Returns v m ∧ y.handlers = x.handlers.tail) ∨
      ∃ f op effect m, x.Succeeds f op effect m ∧ y.handlers = effect.handlers x.handlers := by
  have moves := h.moves
  rw [stepped] at moves
  generalize hs : Status.running y = s at moves
  cases moves with
  | left _ _ _ same =>
    cases hs
    rw [← y.handlers_settled, same, x.handlers_settled]
    exact .inl rfl
  | failed fails => exact absurd fails (smooth _ _)
  | returned returns same =>
    subst hs
    obtain ⟨caller, rest, link, hc, -, same'⟩ := h.finishes same
    refine .inr (.inl ⟨_, _, returns, ?_⟩)
    rw [← y.handlers_settled, same', Execution.handlers_settled]
    simp [Execution.handlers, hc]
  | @performed f op effect m _ succeeds stays same =>
    subst hs
    refine .inr (.inr ⟨f, op, effect, m, succeeds, ?_⟩)
    by_cases calls : ∃ callee, effect = .call callee
    · obtain ⟨callee, rfl⟩ := calls
      obtain ⟨-, ⟨-, dst, result, -, fresh⟩, -⟩ := h.succeeds succeeds
      obtain ⟨frame, -, g, callers, suspended⟩ := h.step_of_call succeeds stepped
      have own : y.frame.handlers = [] := by
        rw [← y.frame.handlers_settled, frame, fresh.handlers]
      have waiting : g.handlers = x.frame.handlers := by
        rw [← g.handlers_suspended, suspended, ← x.frame.handlers_settled]
      simp only [Execution.handlers, Effect.handlers, callers, List.map_cons, own, waiting]
    · have calls' : ∀ callee, effect ≠ .call callee := fun callee same => calls ⟨callee, same⟩
      obtain ⟨framed, -, callers⟩ := h.step_of_frame succeeds stays calls' stepped
      have alike : (y.frame.settled :: x.callers).map Frame.handlers =
          effect.handlers ((x.frame.settled :: x.callers).map Frame.handlers) :=
        Effect.frame_handlers framed stays calls'
      simpa [Execution.handlers, callers] using alike

end Execution

end RegisterVm
