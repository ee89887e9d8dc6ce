import RegisterVm.Proofs.Machine.History

/-!
# Unwinding

An instruction that fails (`Execution.Fails`), in the interpreter or in a compiled loop, makes its
execution go on at the innermost handler of the innermost frame that has one (`Execution.Resumes`).
Without a handler the call ends with the failure, whose trace has an entry for each active frame
(`Traced`). `Machine.failure_unwinds` states both for every execution of a call.
-/

namespace RegisterVm

/-- The trace of a frame at address `pc` and of its callers, innermost first: an entry for each, at
the address of its call for a caller. -/
inductive Traced (fs : Array LoadedFunction) : Nat → Frame → List Frame → List TraceEntry → Prop
  | outermost {f : LoadedFunction} {pc : Nat} {frame : Frame} : fs[frame.function]? = some f →
    Traced fs pc frame [] [⟨f.chunk.name, pc, f.chunk.line? pc⟩]
  | called {f g : LoadedFunction} {pc : Nat} {frame caller : Frame} {callers : List Frame}
    {link : CallerLink} {op : Opcode} {trace : List TraceEntry} : fs[frame.function]? = some f →
    frame.caller = some link → fs[caller.function]? = some g →
    g.chunk.opcode? link.callPc = some op → op.IsCall →
    Traced fs link.callPc caller callers trace →
    Traced fs pc frame (caller :: callers) (⟨f.chunk.name, pc, f.chunk.line? pc⟩ :: trace)

theorem Traced.length {fs : Array LoadedFunction} {pc : Nat} {frame : Frame} {callers : List Frame}
    {trace : List TraceEntry} (h : Traced fs pc frame callers trace) :
    trace.length = callers.length + 1 := by
  induction h with
  | outermost => rfl
  | called _ _ _ _ _ _ ih => rw [List.length_cons, ih, List.length_cons]

/-- The last entry is that of the function that was called from outside. -/
theorem Traced.last {fs : Array LoadedFunction} {pc : Nat} {frame : Frame} {callers : List Frame}
    {trace : List TraceEntry} (h : Traced fs pc frame callers trace) {id : FunctionId}
    {f : LoadedFunction} (outermost : ((frame :: callers).map Frame.function).getLast? = some id)
    (hf : fs[id]? = some f) : trace.getLast?.map TraceEntry.function = some f.chunk.name := by
  induction h with
  | outermost known =>
    obtain rfl := Option.some.inj outermost
    obtain rfl := Option.some.inj (known.symm.trans hf)
    rfl
  | called _ _ _ _ _ rest ih => cases rest <;> exact ih outermost

/-- The trace depends on the function and the link of the frame only. -/
theorem Traced.congr {fs : Array LoadedFunction} {pc : Nat} {frame frame' : Frame}
    {callers : List Frame} {trace : List TraceEntry} (h : Traced fs pc frame callers trace)
    (function : frame'.function = frame.function) (link : frame'.caller = frame.caller) :
    Traced fs pc frame' callers trace := by
  cases h with
  | outermost hf => exact .outermost (function ▸ hf)
  | called hf hl hg hop isCall rest => exact .called (function ▸ hf) (link ▸ hl) hg hop isCall rest

namespace Execution

/-- The instruction at which `x` stands fails with `e` on the registers of its frame and leaves the
machine `m`. -/
def Fails (x : Execution) (e : Failure) (m : Machine) : Prop :=
  ∃ f op, x.machine.library.function? x.frame.function = some f ∧
    f.chunk.opcode? x.frame.pc = some op ∧
    MachineM.exec f x.frame.settled.file.values x.frame.pc op x.machine = .error e m

/-- `y` runs `frame` at its handler `k`, with the handlers `rest` left, after the failure `e` on a
heap: the register of the handler has the exception, all others are as they were. -/
structure Resumes (e : Failure) (heap : Heap) (k : Handler) (rest : List Handler) (frame : Frame)
    (y : Execution) : Prop where
  function : y.frame.function = frame.function
  address : y.frame.pc = k.address
  handlers : y.frame.handlers = rest
  link : y.frame.caller = frame.caller
  interpreted : y.frame.native = none
  exception : ∃ v, e.Delivers heap v y.machine.heap ∧ y.frame.file.values[k.dst.toNat]? = some v
  others : ∀ i, i ≠ k.dst.toNat → y.frame.file.values[i]? = frame.settled.file.values[i]?

end Execution

variable {base : Nat} {m m' : Machine} {frame : Frame} {callers : List Frame} {e : Failure}

/-! ## Delivery -/

@[simp] theorem Frame.settled_withPc (frame : Frame) (pc : Nat) :
    settled { frame with pc } = { frame.settled with pc } := by
  obtain ⟨function, ⟨values, allocated⟩, address, handlers, link, native⟩ := frame
  cases native with
  | none => rfl
  | some n =>
    simp only [settled, leaveLoop, Bind.bind, Except.bind]
    cases decodeRegisters n.loop.registers (copySlots n.loop.registers n.vars n.slots) values <;>
      rfl

@[simp] theorem Frame.handlers_backAtCall (frame : Frame) (link : Option CallerLink) :
    (frame.backAtCall link).handlers = frame.handlers := by
  cases link <;> rfl

/-- Frames stay without handlers when the first one is replaced by one without. -/
theorem free_of_alike {frame other : Frame} {callers : List Frame}
    (handlers : frame.handlers = other.handlers)
    (free : ∀ a ∈ other :: callers, a.handlers = []) : ∀ a ∈ frame :: callers, a.handlers = [] := by
  intro a ha
  rcases List.mem_cons.mp ha with rfl | ha
  · exact handlers.trans (free _ List.mem_cons_self)
  · exact free a (List.mem_cons_of_mem _ ha)

/-- A caller resumes alike at its call and behind it. -/
theorem Execution.Resumes.ofBackAtCall {heap : Heap} {k : Handler} {rest : List Handler}
    {caller : Frame} {link : Option CallerLink} {y : Execution}
    (h : Resumes e heap k rest (caller.backAtCall link) y) : Resumes e heap k rest caller y := by
  cases link with
  | none => exact h
  | some link =>
    refine ⟨h.function, h.address, h.handlers, h.link, h.interpreted, h.exception, fun i hi => ?_⟩
    have others := h.others i hi
    rwa [Frame.backAtCall, Frame.settled_withPc] at others

/-- What a failure delivers does not depend on its trace. -/
theorem Execution.Resumes.ofLeave {heap : Heap} {k : Handler} {rest : List Handler}
    {frame : Frame} {entry : TraceEntry} {y : Execution}
    (h : Resumes (e.leave entry) heap k rest frame y) : Resumes e heap k rest frame y :=
  ⟨h.function, h.address, h.handlers, h.link, h.interpreted, h.exception, h.others⟩

theorem Execution.Resumes.congr {heap : Heap} {k : Handler} {rest : List Handler}
    {frame frame' : Frame} {y : Execution} (h : Resumes e heap k rest frame y)
    (function : frame.function = frame'.function) (link : frame.caller = frame'.caller)
    (registers : frame.settled.file.values = frame'.settled.file.values) :
    Resumes e heap k rest frame' y :=
  ⟨h.function.trans function, h.address, h.handlers, h.link.trans link, h.interpreted, h.exception,
    fun i hi => registers ▸ h.others i hi⟩

/-- A frame with a handler handles its own errors. -/
theorem unwind_here (h : Execution.Sound base ⟨m, frame, callers⟩) {k : Handler}
    {rest : List Handler} (hh : frame.handlers = k :: rest) (e : Failure) :
    ∃ y, unwind e m frame callers = .running y ∧ y.callers = callers ∧
      y.machine.depth = base + callers.length + 1 ∧
      Execution.Resumes e m.heap k rest frame y := by
  obtain ⟨f, hf, hs⟩ := h.frame
  obtain ⟨v, m', caught, kept, -, delivers⟩ := MachineM.caught_ok e m
  have inside : k.dst.toNat < frame.settled.file.values.size := by
    rw [hs.settled.size]
    exact (hs.handlers k (by rw [hh]; exact List.mem_cons_self)).2
  exact ⟨_, unwind_caught hs hh caught, rfl, kept.depth.trans h.depth, frame.function_settled, rfl,
    rfl, frame.caller_settled, frame.native_settled,
    ⟨v, delivers, Array.getElem?_setIfInBounds_self_of_lt inside⟩,
    fun i hi => Array.getElem?_setIfInBounds_ne fun same => hi same.symm⟩

/-- **Errors go to the innermost handler.** -/
theorem unwind_delivers (h : Execution.Sound base ⟨m, frame, callers⟩) {inner outer : List Frame}
    {g : Frame} {k : Handler} {rest : List Handler} (split : frame :: callers = inner ++ g :: outer)
    (free : ∀ a ∈ inner, a.handlers = []) (hh : g.handlers = k :: rest) (e : Failure) :
    ∃ y, unwind e m frame callers = .running y ∧ y.callers = outer ∧
      y.machine.depth = base + outer.length + 1 ∧ Execution.Resumes e m.heap k rest g y := by
  induction callers generalizing m frame inner e with
  | nil =>
    cases inner with
    | nil =>
      obtain ⟨rfl, rfl⟩ := List.cons.inj split
      exact unwind_here h hh e
    | cons a inner => simp at split
  | cons caller callers ih =>
    cases inner with
    | nil =>
      obtain ⟨rfl, rfl⟩ := List.cons.inj split
      exact unwind_here h hh e
    | cons a inner =>
      obtain ⟨rfl, tail⟩ := List.cons.inj split
      obtain ⟨f, hf, hs⟩ := h.frame
      rw [unwind_passes hs (free _ List.mem_cons_self)]
      obtain ⟨unwound, -⟩ := h.unwound frame.settled.file
      cases inner with
      | nil =>
        obtain ⟨rfl, rfl⟩ := List.cons.inj tail
        have back : (caller.backAtCall frame.caller).handlers = k :: rest := by
          rw [Frame.handlers_backAtCall, hh]
        obtain ⟨y, stepped, rest, depth, resumes⟩ :=
          unwind_here unwound back (e.leave (traceEntry m frame))
        exact ⟨y, stepped, rest, depth, resumes.ofBackAtCall.ofLeave⟩
      | cons b inner =>
        obtain ⟨rfl, tail'⟩ := List.cons.inj tail
        have free' : ∀ a ∈ caller.backAtCall frame.caller :: inner, a.handlers = [] :=
          free_of_alike (caller.handlers_backAtCall frame.caller) fun a ha =>
            free a (List.mem_cons_of_mem _ ha)
        obtain ⟨y, stepped, rest, depth, resumes⟩ :=
          ih unwound (congrArg (caller.backAtCall frame.caller :: ·) tail') free'
            (e.leave (traceEntry m frame))
        exact ⟨y, stepped, rest, depth, resumes.ofLeave⟩

theorem traceEntry_eq {f : LoadedFunction}
    (hf : m.library.function? frame.function = some f) :
    traceEntry m frame = ⟨f.chunk.name, frame.pc, f.chunk.line? frame.pc⟩ := by
  simp only [traceEntry, hf]

/-- **Without a handler errors leave every frame**, each with a trace entry. -/
theorem unwind_escapes (h : Execution.Sound base ⟨m, frame, callers⟩)
    (free : ∀ a ∈ frame :: callers, a.handlers = []) (e : Failure) :
    ∃ trace m', Traced m.library.functions frame.pc frame callers trace ∧
      unwind e m frame callers = .finished m' (.error ⟨e.fault, e.trace ++ trace, e.exception⟩) ∧
      m'.depth = base ∧ m'.heap = m.heap := by
  induction callers generalizing m frame e with
  | nil =>
    obtain ⟨f, hf, hs⟩ := h.frame
    have depth := h.depth
    refine ⟨_, m.retire frame.settled.file, .outermost hf, ?_, ?_, rfl⟩
    · rw [unwind_outermost hs (free _ List.mem_cons_self), Failure.leave, traceEntry_eq hf]
    · simp only [List.length_nil, Machine.depth_retire] at depth ⊢
      omega
  | cons caller callers ih =>
    obtain ⟨f, hf, hs⟩ := h.frame
    obtain ⟨unwound, -⟩ := h.unwound frame.settled.file
    have free' : ∀ a ∈ caller.backAtCall frame.caller :: callers, a.handlers = [] :=
      free_of_alike (caller.handlers_backAtCall frame.caller) fun a ha =>
        free a (List.mem_cons_of_mem _ ha)
    obtain ⟨trace, m', traced, escaped, depth, heap⟩ :=
      ih unwound free' (e.leave (traceEntry m frame))
    have waiting := h.waiting
    simp only at waiting
    cases hl : frame.caller with
    | none => rw [hl] at waiting; cases waiting
    | some link =>
      rw [hl] at waiting traced
      cases waiting with
      | call hg waits =>
        refine ⟨_, m', .called hf hl hg waits.opcode waits.isCall (traced.congr rfl rfl), ?_, depth,
          heap⟩
        rw [unwind_passes hs (free _ List.mem_cons_self), escaped, Failure.leave,
          traceEntry_eq hf, List.append_assoc]
        rfl

/-! ## Failing instructions -/

theorem MachineM.exec_of_isReturn {f : LoadedFunction} {values : Array Value} {pc : Nat}
    {op : Opcode} (h : op.IsReturn) (fits : op.Fits f.chunk f.children.size pc)
    (size : values.size = f.chunk.registerCount.toNat) (m : Machine) :
    ∃ v, exec f values pc op m = .ok (.ret v) m := by
  rcases h with rfl | ⟨src, rfl⟩
  · exact ⟨.none, rfl⟩
  · have inside : src.toNat < values.size := size ▸ fits.register (by simp [Opcode.spans])
    refine ⟨values[src.toNat], ?_⟩
    simp only [exec, reg_eq inside]
    rfl

/-- In the interpreter the end of a frame does not end an execution with a failure. -/
theorem finish_ne_error (h : Execution.Sound base ⟨m, frame, callers⟩)
    (interpreted : ∀ a ∈ callers, a.native = none) (v : Value) :
    finish v m frame callers ≠ .finished m' (.error e) := by
  have waiting := h.waiting
  simp only at waiting
  unfold finish
  cases hl : frame.caller with
  | none =>
    rw [hl] at waiting
    cases waiting
    simp
  | some link =>
    rw [hl] at waiting
    cases waiting with
    | call =>
      rename_i caller _ _ _ _
      obtain ⟨function, ⟨values, allocated⟩, pc, handlers, outer, native⟩ := caller
      obtain rfl : native = none := interpreted _ List.mem_cons_self
      simp [resume]

/-- In the interpreter an effect does not end an execution with a failure. -/
theorem perform_ne_error {f : LoadedFunction} {effect : Effect} {op : Opcode}
    (h : Execution.Sound base ⟨m, frame, callers⟩)
    (hf : m.library.function? frame.function = some f)
    (hop : f.chunk.opcode? frame.pc = some op) (of : effect.Of m.library.functions op frame.pc)
    (interpreted : ∀ a ∈ callers, a.native = none) :
    perform effect f m frame callers ≠ .finished m' (.error e) := by
  have fits := (h.library.function _ f hf).instruction _ op hop
  have size := (h.here hf).size
  obtain ⟨function, ⟨values, allocated⟩, pc, handlers, link, native⟩ := frame
  cases effect with
  | next | call | guard | unguard => simp [perform]
  | write dst v =>
    rw [perform_write (size ▸ fits.register of)]
    simp
  | jump target =>
    simp only [perform, branchTo]
    split <;> simp
  | ret v => exact finish_ne_error h interpreted v

namespace Execution

variable {x : Execution}

theorem Sound.fails_keeps (h : x.Sound base) (fails : x.Fails e m') :
    x.machine.Keeps m' ∧ e.trace = [] := by
  obtain ⟨f, op, hf, hop, result⟩ := fails
  obtain ⟨g, hg, hs⟩ := h.frame
  cases hg.symm.trans hf
  have fits := (h.library.function _ f hf).instruction _ op hop
  obtain ⟨kept, trace, -⟩ := (MachineM.exec_steady fits hs.settled.size).error _ e m' rfl result
  exact ⟨kept, trace⟩

/-- **A failing instruction unwinds**, in the interpreter or in a compiled loop. -/
theorem Sound.step_of_fails (h : x.Sound base) (fails : x.Fails e m') :
    ∃ frame, x.step = unwind e m' frame x.callers ∧ Sound base ⟨m', frame, x.callers⟩ ∧
      frame.settled = x.frame.settled := by
  obtain ⟨f, op, hf, hop, result⟩ := fails
  obtain ⟨m, ⟨function, ⟨values, allocated⟩, pc, handlers, link, native⟩, callers⟩ := x
  have here : m.library.function? function = some f := hf
  have hs := h.here hf
  have fits := (h.library.function _ f hf).instruction _ op hop
  cases native with
  | none =>
    obtain ⟨kept, -⟩ := (MachineM.exec_steady fits hs.size).error m e m' rfl result
    have result' : MachineM.exec f values pc op m = .error e m' := result
    refine ⟨⟨function, ⟨values, allocated⟩, pc, handlers, link, none⟩, ?_, h.keeps kept, rfl⟩
    simp only [Execution.step, here, interpret_eq hop, result']
  | some n =>
    obtain ⟨code, inside, ws, holds⟩ := hs.native n rfl
    have size : ws.size = f.chunk.registerCount.toNat := holds.size.symm.trans hs.size
    have interpreted : Sound base
        ⟨m, ⟨function, ⟨values, allocated⟩, pc, handlers, link, none⟩, callers⟩ := h.interpreted rfl
    have failed : MachineM.exec f ws pc op m = .error e m' := by
      rw [← result, Frame.settled_inLoop holds]
    have spec := runNative_spec interpreted hf hop holds code inside
    simp only [Execution.step, here]
    generalize runNative f n m _ callers = s at spec ⊢
    cases spec with
    | next result | write _ _ _ result | jump _ result => cases result.symm.trans failed
    | general target =>
      obtain ⟨frame, unwound, sound, settled⟩ :=
        help_fails target interpreted hf hop holds code inside failed
      exact ⟨frame, unwound, sound, settled.trans (Frame.settled_inLoop holds).symm⟩
    | leave isReturn =>
      obtain ⟨v, returned⟩ := MachineM.exec_of_isReturn isReturn fits size m
      cases returned.symm.trans failed
    | failed _ result =>
      cases result.symm.trans failed
      exact ⟨_, rfl, h, rfl⟩

/-- In the interpreter only a failing instruction ends an execution with a failure. -/
theorem Sound.fails_of_interpreted (h : x.Sound base) (hn : x.frame.native = none)
    (interpreted : ∀ a ∈ x.callers, a.native = none) (ended : x.step = .finished m (.error e)) :
    ∃ e' m', x.Fails e' m' := by
  obtain ⟨m₀, ⟨function, file, pc, handlers, link, native⟩, callers⟩ := x
  obtain rfl : native = none := hn
  obtain ⟨f, hf, hs⟩ := h.frame
  have here : m₀.library.function? function = some f := hf
  simp only [Execution.step, here] at ended
  cases hop : f.chunk.opcode? pc with
  | none =>
    simp only [interpret, hop] at ended
    exact absurd ended (finish_ne_error h interpreted _)
  | some op =>
    have fits := (h.library.function _ f hf).instruction _ op hop
    have steady : MachineM.Steady m₀.library.functions (MachineM.exec f file.values pc op) _ _ :=
      MachineM.exec_steady fits hs.size
    cases result : MachineM.exec f file.values pc op m₀ with
    | error e' m' => exact ⟨e', m', f, op, hf, hop, result⟩
    | ok effect m' =>
      obtain ⟨kept, of⟩ := steady.ok m₀ effect m' rfl result
      have hop' : f.chunk.opcode? (Frame.pc ⟨function, file, pc, handlers, link, none⟩) = some op :=
        hop
      simp only [interpret_eq hop', result] at ended
      exact absurd ended (perform_ne_error (h.keeps kept) (kept.library ▸ hf) hop
        (kept.library ▸ of) interpreted)

/-- Only a failing instruction ends an execution with a failure. -/
theorem Sound.fails_of_finished (h : x.Sound base) (ended : x.step = .finished m (.error e)) :
    ∃ e' m', x.Fails e' m' := by
  have advances := h.advances
  rw [ended] at advances
  cases advances with
  | step shown =>
    have seen : ∃ m', x.settled.step = .finished m' (.error e) := by
      have settled := shown.settled
      cases step : x.settled.step with
      | running y =>
        rw [step] at settled
        cases settled
      | finished m' r =>
        rw [step] at settled
        cases (Status.finished.inj settled).2
        exact ⟨m', rfl⟩
    obtain ⟨m', seen⟩ := seen
    have callers : ∀ a ∈ x.callers.map Frame.suspended, a.native = none := by
      intro a ha
      obtain ⟨b, -, rfl⟩ := List.mem_map.mp ha
      exact b.native_suspended
    obtain ⟨e', m'', f, op, hf, hop, result⟩ :=
      h.settled.fails_of_interpreted x.frame.native_settled callers seen
    obtain ⟨g, hg, hs⟩ := h.frame
    have function : x.settled.frame.function = x.frame.function := x.frame.function_settled
    have address : x.settled.frame.pc = x.frame.pc := x.frame.pc_settled
    have known : x.machine.library.function? x.frame.function = some f := function ▸ hf
    cases hg.symm.trans known
    have fits := (h.library.function _ f hg).instruction _ op (address ▸ hop)
    have steady : MachineM.Steady x.machine.library.functions
        (MachineM.exec f x.frame.settled.file.values x.frame.pc op) _ _ :=
      MachineM.exec_steady fits hs.settled.size
    have ran := steady.plain x.machine rfl
    have failed : MachineM.exec f x.frame.settled.file.values x.frame.pc op x.machine.plain =
        .error e' m'' := by
      rw [← result, address]
      simp only [Execution.settled, Frame.settled_of_none x.frame.native_settled]
    rw [failed] at ran
    cases plain : MachineM.exec f x.frame.settled.file.values x.frame.pc op x.machine with
    | ok effect m =>
      rw [plain] at ran
      cases ran
    | error e'' m => exact ⟨e'', m, f, op, hg, address ▸ hop, plain⟩

/-- Raising an exception, or an instance of a class, fails with that very object. -/
theorem fails_of_raise {f : LoadedFunction} {src : Register} {v : Value} {o : Object}
    (hf : x.machine.library.function? x.frame.function = some f)
    (hop : f.chunk.opcode? x.frame.pc = some (.raise src))
    (read : x.frame.settled.file.values[src.toNat]? = some v)
    (view : x.machine.heap.view v = .ok (some o))
    (raisable : (∃ kind message, o = .exception kind message) ∨
      ∃ cls attributes, o = .instanceOf cls attributes) :
    x.Fails (x.machine.heap.raised v) x.machine := by
  refine ⟨f, _, hf, hop, ?_⟩
  have raised : (HeapM.raise v : HeapM Effect) x.machine.heap =
      .error (x.machine.heap.raised v) x.machine.heap := by
    have viewed : HeapM.view v x.machine.heap = .ok (some o) x.machine.heap := by
      simp only [HeapM.view, inspect, view]
    simp only [HeapM.raise, Bind.bind, EStateM.bind, viewed]
    rcases raisable with ⟨kind, message, rfl⟩ | ⟨cls, attributes, rfl⟩ <;> rfl
  obtain ⟨inside, rfl⟩ := Array.getElem?_eq_some_iff.mp read
  simp only [MachineM.exec, MachineM.reg_eq inside, pure_bind, MachineM.onHeap, raised]

end Execution

theorem Frame.alike_of_settled {frame other : Frame} (h : frame.settled = other.settled) :
    frame.function = other.function ∧ frame.pc = other.pc ∧ frame.handlers = other.handlers ∧
      frame.caller = other.caller := by
  refine ⟨?_, ?_, ?_, ?_⟩
  · simpa using congrArg Frame.function h
  · simpa using congrArg Frame.pc h
  · simpa using congrArg Frame.handlers h
  · simpa using congrArg Frame.caller h

/-- An active frame `g` of `x` began the instruction that fails, or the call it waits for, in the
execution `z`. -/
inductive Execution.Began (x : Execution) (g : Frame) (z : Execution) : Prop
  | failing : z = x → g = x.frame → Began x g z
  | calling {z' : Execution} : z.Next z' → z'.Leads x → z.Calls z' g → Began x g z

namespace Machine

section Runs

variable {m : Machine} {id : FunctionId} {args : List Value} {x : Execution}

/-- A failure goes to the innermost handler of the innermost frame that has one. -/
theorem Runs.delivers (runs : m.Runs id args x) (reached : m.Reached) {e : Failure} {m' : Machine}
    (fails : x.Fails e m') {inner outer : List Frame} {g : Frame} {k : Handler}
    {rest : List Handler} (split : x.frame :: x.callers = inner ++ g :: outer)
    (free : ∀ a ∈ inner, a.handlers = []) (hh : g.handlers = k :: rest) :
    ∃ y z, x.step = .running y ∧ y.callers = outer ∧
      y.machine.depth = m.depth + outer.length + 1 ∧ m.Runs id args z ∧ z.Leads x ∧
      z.callers = outer ∧ z.frame.handlers = k :: rest ∧ x.Began g z ∧
      Execution.Resumes e m'.heap k rest z.frame y := by
  obtain ⟨frame, stepped, failed, settled⟩ := (runs.sound reached).step_of_fails fails
  obtain ⟨function, -, handlers, link⟩ := Frame.alike_of_settled settled
  rw [stepped]
  cases inner with
  | nil =>
    obtain ⟨rfl, rfl⟩ := List.cons.inj split
    obtain ⟨y, unwound, outer, depth, resumes⟩ := unwind_here failed (handlers.trans hh) e
    exact ⟨y, x, unwound, outer, depth, runs, .refl, rfl, hh, .failing rfl rfl,
      resumes.congr function link (congrArg (·.file.values) settled)⟩
  | cons a inner =>
    obtain ⟨rfl, tail⟩ := List.cons.inj split
    obtain ⟨y, unwound, outer, depth, resumes⟩ := unwind_delivers failed
      (congrArg (frame :: ·) tail) (free_of_alike handlers free) hh e
    obtain ⟨start, m₀, entered, leads⟩ := runs
    obtain ⟨z, z', first, called, rest, callers, calls⟩ :=
      leads.called (enter_sound reached.sound entered) rfl tail
    exact ⟨y, z, unwound, outer, depth, ⟨start, m₀, entered, first⟩, .head called rest, callers,
      calls.handlers ▸ hh, .calling called rest calls,
      resumes.congr calls.function calls.link calls.registers⟩

/-- A failure that no frame handles ends the call. -/
theorem Runs.escapes (runs : m.Runs id args x) (reached : m.Reached) {e : Failure} {m' : Machine}
    (fails : x.Fails e m') (free : ∀ a ∈ x.frame :: x.callers, a.handlers = []) :
    ∃ trace m'' fuel, Traced x.machine.library.functions x.frame.pc x.frame x.callers trace ∧
      trace.length = x.callers.length + 1 ∧
      x.step = .finished m'' (.error ⟨e.fault, trace, e.exception⟩) ∧
      m.execute fuel id args = some (m'', .error ⟨e.fault, trace, e.exception⟩) := by
  have sound := runs.sound reached
  obtain ⟨frame, stepped, failed, settled⟩ := sound.step_of_fails fails
  obtain ⟨function, address, handlers, link⟩ := Frame.alike_of_settled settled
  obtain ⟨kept, trace⟩ := sound.fails_keeps fails
  obtain ⟨entries, m'', traced, escaped, -, -⟩ :=
    unwind_escapes failed (free_of_alike handlers free) e
  rw [trace, List.nil_append] at escaped
  obtain ⟨fuel, ran⟩ := runs.answers (Execution.run_finished (stepped.trans escaped) 0)
  rw [address, kept.library] at traced
  exact ⟨entries, m'', fuel, traced.congr function.symm link.symm, traced.length,
    stepped.trans escaped, ran⟩

end Runs

/-- **Unwinding.** Let `x` be any execution of a call, in the interpreter or in a compiled loop,
whose instruction fails with `e`.

* If an active frame has a handler, then the innermost such frame goes on at its innermost handler,
  as `Resumes` says: the other handlers are left, the register of the handler has the exception, and
  every other register has the value from before the instruction that failed or called. The frames
  inside are gone and the depth is the position of the frame.
* Otherwise the call ends with the failure, whose trace has one entry for each active frame.

Raising an exception object fails with that very object, and an execution ends with a failure only
where its instruction fails. -/
theorem failure_unwinds {m : Machine} {id : FunctionId} {args : List Value} {x : Execution}
    (reached : m.Reached) (runs : m.Runs id args x) :
    (∀ {e : Failure} {m' : Machine}, x.Fails e m' →
      (∀ {inner outer : List Frame} {g : Frame} {k : Handler} {rest : List Handler},
        x.frame :: x.callers = inner ++ g :: outer → (∀ a ∈ inner, a.handlers = []) →
        g.handlers = k :: rest →
        ∃ y z, x.step = .running y ∧ y.callers = outer ∧
          y.machine.depth = m.depth + outer.length + 1 ∧ m.Runs id args z ∧ z.Leads x ∧
          z.callers = outer ∧ z.frame.handlers = k :: rest ∧ x.Began g z ∧
          Execution.Resumes e m'.heap k rest z.frame y) ∧
      ((∀ a ∈ x.frame :: x.callers, a.handlers = []) →
        ∃ trace m'' fuel,
          Traced x.machine.library.functions x.frame.pc x.frame x.callers trace ∧
          trace.length = x.callers.length + 1 ∧
          x.step = .finished m'' (.error ⟨e.fault, trace, e.exception⟩) ∧
          m.execute fuel id args = some (m'', .error ⟨e.fault, trace, e.exception⟩))) ∧
    (∀ {f : LoadedFunction} {src : Register} {v : Value} {o : Object},
      x.machine.library.function? x.frame.function = some f →
      f.chunk.opcode? x.frame.pc = some (.raise src) →
      x.frame.settled.file.values[src.toNat]? = some v →
      x.machine.heap.view v = .ok (some o) →
      ((∃ kind message, o = .exception kind message) ∨
        ∃ cls attributes, o = .instanceOf cls attributes) →
      ∃ e, x.Fails e x.machine ∧ e.exception = some v) ∧
    ∀ {m' : Machine} {e : Failure}, x.step = .finished m' (.error e) →
      ∃ e' m'', x.Fails e' m'' := by
  refine ⟨fun {e m'} fails => ⟨fun split free hh => runs.delivers reached fails split free hh,
    fun free => runs.escapes reached fails free⟩, fun hf hop read view raisable => ?_,
    fun ended => (runs.sound reached).fails_of_finished ended⟩
  exact ⟨_, Execution.fails_of_raise hf hop read view raisable, rfl⟩

/-- Raising what is no exception goes to the handler around it, with a new exception. -/
theorem failure_unwinds_raise :
    ∃ (c : Chunk) (id : FunctionId) (m : Machine) (x : Execution) (e : Failure) (m' : Machine),
      (start .standard).load c = .ok (id, m) ∧ m.Runs id [] x ∧ x.Fails e m' ∧
      ∃ y, x.step = .running y ∧ y.frame.pc = 2 ∧ y.frame.handlers = [] ∧ y.callers = [] ∧
        ∃ v, e.Delivers m'.heap v y.machine.heap ∧ y.frame.file.values[0]? = some v := by
  let c : Chunk := ⟨"main", #[⟨.pushTry 2 ⟨0⟩, none⟩, ⟨.raise ⟨0⟩, none⟩, ⟨.ret ⟨0⟩, none⟩], #[], 1,
    0, []⟩
  obtain ⟨m, load, x, runs, handlers, callers, m', fails⟩ : ∃ m,
      (start .standard).load c = .ok (0, m) ∧ ∃ x, m.Runs 0 [] x ∧
        x.frame.handlers = [⟨2, ⟨0⟩⟩] ∧ x.callers = [] ∧
        ∃ m', x.Fails (.ofFault .notAnException) m' :=
    ⟨_, rfl, _, ⟨_, _, rfl, .single rfl⟩, rfl, rfl, _, _, _, rfl, rfl, rfl⟩
  obtain ⟨unwinds, -⟩ := failure_unwinds (.load (.start .standard) load) runs
  obtain ⟨y, z, stepped, outer, -, -, -, -, -, -, resumes⟩ :=
    (unwinds fails).1 (show x.frame :: x.callers = [] ++ x.frame :: x.callers from rfl) (by simp)
      handlers
  exact ⟨c, 0, m, x, _, m', load, runs, fails, y, stepped, resumes.address, resumes.handlers,
    outer.trans callers, resumes.exception⟩

end Machine

end RegisterVm
