import RegisterVm.Proofs.Machine.Settled

/-!
# Control in sound executions

The parts of a step that decide which frame runs and where it stands: errors (`unwind_shows`), going
on in a compiled loop (`continueAt_shows`), results of calls (`resume_shows`, `finish_shows`) and
branches (`branchTo_shows`). Each keeps an execution sound, and the interpreter sees it as the same
thing done to the settled frames on the plain machine.
-/

namespace RegisterVm

variable {base : Nat} {m m' : Machine} {frame frame' caller : Frame} {callers : List Frame}
  {f : LoadedFunction} {n : NativeRegisters} {ws : Array Value}

/-! ## Parts of sound executions -/

namespace Machine

@[simp] theorem plain_descend (m : Machine) : m.descend.plain = m.plain.descend := rfl

@[simp] theorem library_descend (m : Machine) : m.descend.library = m.library := rfl

@[simp] theorem depth_retire (file : RegisterFile) (m : Machine) :
    (m.retire file).depth = m.depth - 1 := rfl

@[simp] theorem depth_descend (m : Machine) : m.descend.depth = m.depth + 1 := rfl

end Machine

namespace Execution.Sound

/-- The running frame is sound in its function. -/
theorem here (h : Sound base ⟨m, frame, callers⟩)
    (hf : m.library.function? frame.function = some f) : frame.Sound f := by
  obtain ⟨g, hg, hs⟩ := h.frame
  cases hf.symm.trans hg
  exact hs

theorem keeps (h : Sound base ⟨m, frame, callers⟩) (kept : m.Keeps m') :
    Sound base ⟨m', frame, callers⟩ where
  library := kept.library ▸ h.library
  frame := kept.library ▸ h.frame
  waiting := kept.library ▸ h.waiting
  depth := kept.depth ▸ h.depth

theorem onPlain (h : Sound base ⟨m, frame, callers⟩) (library : m'.library.Sound)
    (plain : m'.plain = m.plain) : Sound base ⟨m', frame, callers⟩ := by
  have functions : m'.library.functions = m.library.functions := by
    rw [← Machine.functions_plain, plain, Machine.functions_plain]
  have depth : m'.depth = m.depth := by
    rw [← Machine.depth_plain, plain, Machine.depth_plain]
  obtain ⟨f, hf, hs⟩ := h.frame
  refine ⟨library, ⟨f, ?_, hs⟩, ?_, depth ▸ h.depth⟩
  · rw [← hf]
    simp only [Library.function?, functions]
  · have waiting := h.waiting
    rwa [← functions] at waiting

/-- The running frame may change where it keeps to its function. -/
theorem replace (h : Sound base ⟨m, frame, callers⟩)
    (hf : m.library.function? frame.function = some f)
    (function : frame'.function = frame.function) (link : frame'.caller = frame.caller)
    (sound : frame'.Sound f) : Sound base ⟨m, frame', callers⟩ where
  library := h.library
  frame := ⟨f, by rw [function]; exact hf, sound⟩
  waiting := by
    rw [link]
    exact h.waiting
  depth := h.depth

/-- The running frame may be in the interpreter, with other values. -/
theorem interpreted (h : Sound base ⟨m, frame, callers⟩) (size : ws.size = frame.file.values.size) :
    Sound base ⟨m, { frame.withValues ws with native := none }, callers⟩ := by
  obtain ⟨f, hf, hs⟩ := h.frame
  exact h.replace hf rfl rfl ⟨size.trans hs.size, hs.pc, hs.handlers, fun n hn => by cases hn⟩

/-- The innermost caller runs when the frame it waits for has ended. -/
theorem pop {link : CallerLink} {op : Opcode} (h : Sound base ⟨m, frame, caller :: callers⟩)
    (hf : m.library.function? caller.function = some f) (waits : caller.Waits f link op)
    (waiting : Waiting m.library.functions caller.caller callers) (file : RegisterFile) :
    Sound base ⟨m.retire file, caller, callers⟩ where
  library := h.library
  frame := ⟨f, hf, waits.sound⟩
  waiting := waiting
  depth := by
    have := h.depth
    simp only [List.length_cons, Machine.depth_retire] at this ⊢
    omega

/-- The innermost caller takes over the error of the frame it waits for. -/
theorem unwound (h : Sound base ⟨m, frame, caller :: callers⟩) (file : RegisterFile) :
    Sound base ⟨m.retire file, caller.backAtCall frame.caller, callers⟩ ∧
      (caller.backAtCall frame.caller).settled = caller.suspended.backAtCall frame.caller := by
  have waiting := h.waiting
  simp only at waiting
  cases hl : frame.caller with
  | none => rw [hl] at waiting; cases waiting
  | some link =>
    rw [hl] at waiting
    cases waiting with
    | call hf waits waiting =>
      obtain ⟨back, settled⟩ := waits.backAtCall
      exact ⟨(h.pop hf waits waiting file).replace hf rfl rfl back, settled⟩

/-- A call runs on top of the frame that waits for it. -/
theorem push {link : CallerLink} {op : Opcode} {callee : Frame}
    (h : Sound base ⟨m, frame, callers⟩) (hf : m.library.function? frame.function = some f)
    (waits : frame'.Waits f link op) (function : frame'.function = frame.function)
    (outer : frame'.caller = frame.caller) (fresh : callee.Fresh m.library.functions (some link)) :
    Sound base ⟨m.descend, callee, frame' :: callers⟩ where
  library := h.library
  frame := by
    obtain ⟨g, hg, size⟩ := fresh.file
    exact ⟨g, hg, size, by rw [fresh.pc]; exact Nat.zero_le _, by rw [fresh.handlers]; simp,
      fun n hn => by rw [fresh.native] at hn; cases hn⟩
  waiting := by
    have known : m.library.functions[frame'.function]? = some f := function ▸ hf
    have waiting : Waiting m.library.functions frame'.caller callers := outer ▸ h.waiting
    have called := Waiting.call known waits waiting
    rwa [← fresh.caller] at called
  depth := by
    have depth := h.depth
    simp only [List.length_cons, Machine.depth_descend] at depth ⊢
    omega

end Execution.Sound

theorem Status.Shows.running {x : Execution} (h : x.Sound base) :
    Shows base (.running x) (.running x.settled) := ⟨h, rfl⟩

/-! ## Errors -/

/-- What a handler receives for a failure: the exception that was raised, or a new one with the kind
and the message of the fault. -/
def Failure.Delivers (e : Failure) (h : Heap) (v : Value) (h' : Heap) : Prop :=
  match e.exception with
  | some raised => v = raised ∧ h' = h
  | none => ∃ handle, v = .object handle ∧ h.alloc (.exception e.kind e.message) = (handle, h')

/-- A handler always receives an exception. -/
theorem MachineM.caught_ok (e : Failure) (m : Machine) :
    ∃ v m', onHeap (HeapM.caught e) m = .ok v m' ∧ m.Keeps m' ∧
      onHeap (HeapM.caught e) m.plain = .ok v m'.plain ∧ e.Delivers m.heap v m'.heap := by
  unfold HeapM.caught Failure.Delivers
  cases e.exception with
  | some v => exact ⟨v, m, rfl, .refl m, rfl, rfl, rfl⟩
  | none => exact ⟨_, _, rfl, ⟨rfl, rfl, rfl, rfl⟩, rfl, _, rfl, rfl⟩

@[simp] theorem traceEntry_plain (m : Machine) (frame : Frame) :
    traceEntry m.plain frame = traceEntry m frame := rfl

@[simp] theorem traceEntry_settled (m : Machine) (frame : Frame) :
    traceEntry m frame.settled = traceEntry m frame := by
  simp only [traceEntry, Frame.function_settled, Frame.pc_settled]

section Unwind

variable {e : Failure}

theorem unwind_caught (hs : frame.Sound f) {g : Handler} {rest : List Handler}
    (hh : frame.handlers = g :: rest) {v : Value}
    (hc : MachineM.onHeap (HeapM.caught e) m = .ok v m') :
    unwind e m frame callers = .running ⟨m', frame.settled.atHandler g rest v, callers⟩ := by
  rw [unwind.eq_def, hs.leaveFailed]
  simp only [Frame.handlers_settled, hh, hc]

theorem unwind_outermost (hs : frame.Sound f) (hh : frame.handlers = []) :
    unwind e m frame [] =
      .finished (m.retire frame.settled.file) (.error (e.leave (traceEntry m frame))) := by
  rw [unwind.eq_def, hs.leaveFailed]
  simp only [Frame.handlers_settled, hh, traceEntry_settled]

theorem unwind_passes (hs : frame.Sound f) (hh : frame.handlers = []) :
    unwind e m frame (caller :: callers) =
      unwind (e.leave (traceEntry m frame)) (m.retire frame.settled.file)
        (caller.backAtCall frame.caller) callers := by
  rw [unwind.eq_def, hs.leaveFailed]
  simp only [Frame.handlers_settled, Frame.caller_settled, hh, traceEntry_settled]

end Unwind

theorem Frame.Sound.atHandler {g : Handler} {rest : List Handler} (hs : frame.Sound f)
    (hn : frame.native = none) (hh : frame.handlers = g :: rest) (v : Value) :
    (frame.atHandler g rest v).Sound f where
  size := by
    simp only [Frame.atHandler, Array.size_setIfInBounds]
    exact hs.size
  pc := Nat.le_of_lt (hs.handlers g (by rw [hh]; exact List.mem_cons_self)).1
  handlers g' hg' := hs.handlers g' (by rw [hh]; exact List.mem_cons_of_mem _ hg')
  native n h := by
    have : frame.native = some n := h
    rw [hn] at this
    cases this

theorem unwind_caught_shows (h : Execution.Sound base ⟨m, frame, callers⟩) {g : Handler}
    {rest : List Handler} (hh : frame.handlers = g :: rest) (e : Failure) :
    (unwind e m frame callers).Shows base
      (unwind e m.plain frame.settled (callers.map Frame.suspended)) := by
  obtain ⟨f, hf, hs⟩ := h.frame
  have hh' : frame.settled.handlers = g :: rest := by rw [Frame.handlers_settled, hh]
  obtain ⟨v, m', caught, kept, plain, -⟩ := MachineM.caught_ok e m
  rw [unwind_caught hs hh caught, unwind_caught hs.settled hh' plain,
    Frame.settled_of_none frame.native_settled]
  have sound : Execution.Sound base ⟨m', frame.settled.atHandler g rest v, callers⟩ :=
    (h.keeps kept).replace (kept.library ▸ hf) frame.function_settled frame.caller_settled
      (hs.settled.atHandler frame.native_settled hh' v)
  refine ⟨sound, ?_⟩
  have native : (frame.settled.atHandler g rest v).native = none := frame.native_settled
  simp only [Status.settled, Execution.settled, Frame.settled_of_none native]

/-- **Errors unwind alike**, whichever frames are in compiled loops. -/
theorem unwind_shows (h : Execution.Sound base ⟨m, frame, callers⟩) (e : Failure) :
    (unwind e m frame callers).Shows base
      (unwind e m.plain frame.settled (callers.map Frame.suspended)) := by
  induction callers generalizing m frame e with
  | nil =>
    obtain ⟨f, hf, hs⟩ := h.frame
    cases hh : frame.handlers with
    | cons g rest => exact unwind_caught_shows h hh e
    | nil =>
      rw [List.map_nil, unwind_outermost hs hh,
        unwind_outermost hs.settled (by rw [Frame.handlers_settled, hh]), traceEntry_plain,
        traceEntry_settled, Frame.settled_of_none frame.native_settled]
      have depth := h.depth
      refine ⟨⟨h.library, ?_⟩, rfl⟩
      simp only [List.length_nil, Machine.depth_retire] at depth ⊢
      omega
  | cons caller callers ih =>
    obtain ⟨f, hf, hs⟩ := h.frame
    cases hh : frame.handlers with
    | cons g rest => exact unwind_caught_shows h hh e
    | nil =>
      rw [List.map_cons, unwind_passes hs hh,
        unwind_passes hs.settled (by rw [Frame.handlers_settled, hh]), traceEntry_plain,
        traceEntry_settled, Frame.settled_of_none frame.native_settled, Frame.caller_settled]
      obtain ⟨unwound, settled⟩ := h.unwound frame.settled.file
      have shown := ih unwound (e.leave (traceEntry m frame))
      rwa [settled] at shown

/-! ## Going on -/

/-- **Going on in a compiled loop** at an address, inside the loop or not, is going there in the
interpreter. -/
theorem continueAt_shows (h : Execution.Sound base ⟨m, frame, callers⟩) (hn : frame.native = none)
    (hf : m.library.function? frame.function = some f) (holds : n.Holds frame.file.values ws)
    (code : n.loop.Translates f.chunk) {target : Nat}
    (bound : target ≤ f.chunk.instructions.size) :
    (continueAt n target m frame callers).Shows base
      (.running ⟨m.plain, { frame.withValues ws with pc := target },
        callers.map Frame.suspended⟩) := by
  have hs := h.here hf
  obtain ⟨function, ⟨values, allocated⟩, pc, handlers, link, native⟩ := frame
  obtain rfl : native = none := hn
  unfold continueAt
  split
  · rename_i inside
    have sound : Frame.Sound f
        ⟨function, ⟨values, allocated⟩, target, handlers, link, some n⟩ := by
      refine ⟨hs.size, bound, hs.handlers, fun n' hn' => ?_⟩
      cases hn'
      exact ⟨code, inside, ws, holds⟩
    refine ⟨h.replace hf rfl rfl sound, ?_⟩
    simp only [Status.settled, Execution.settled, Frame.settled_inLoop holds, Frame.withValues]
  · rw [holds.leave]
    have here : m.library.function? function = some f := hf
    simp only [Frame.withValues, here, if_pos bound]
    have sound : Frame.Sound f ⟨function, ⟨ws, allocated⟩, target, handlers, link, none⟩ :=
      ⟨holds.size.symm.trans hs.size, bound, hs.handlers, fun n' hn' => by cases hn'⟩
    exact .running (h.replace hf rfl rfl sound)

/-- **The result of a call** arrives at its caller as in the interpreter. -/
theorem resume_shows {link : CallerLink} {op : Opcode}
    (h : Execution.Sound base ⟨m, caller, callers⟩)
    (hf : m.library.function? caller.function = some f) (waits : caller.Waits f link op)
    (v : Value) :
    (resume link.dst v m caller callers).Shows base
      (resume link.dst v m.plain caller.suspended (callers.map Frame.suspended)) := by
  have hs := h.here hf
  obtain ⟨function, ⟨values, allocated⟩, pc, handlers, outer, native⟩ := caller
  have stored : ∀ (ws : Array Value) (pc : Nat), ws.size = values.size →
      pc ≤ f.chunk.instructions.size →
      Frame.Sound f ⟨function, ⟨ws.setIfInBounds link.dst.toNat v, allocated⟩, pc, handlers, outer,
        none⟩ := fun ws pc size bound =>
    ⟨by simpa using size.trans hs.size, bound, hs.handlers, fun n hn => by cases hn⟩
  cases native with
  | none => exact .running (h.replace hf rfl rfl (stored values pc rfl hs.pc))
  | some n =>
    obtain ⟨rfl, ws, holds, agree⟩ := waits.compiled n rfl
    obtain ⟨code, inside, -⟩ := hs.native n rfl
    have bound : link.callPc < f.chunk.instructions.size := Chunk.lt_of_opcode? waits.opcode
    have fetched : (m.library.function? function).bind (·.chunk.opcode? link.callPc) = some op := by
      rw [show m.library.function? function = some f from hf]
      exact waits.opcode
    have returned : Execution.Sound base
        ⟨m, ⟨function, ⟨values.setIfInBounds link.dst.toNat v, allocated⟩, link.callPc, handlers,
          outer, none⟩, callers⟩ :=
      h.replace hf rfl rfl (stored values link.callPc rfl hs.pc)
    have size : (values.setIfInBounds link.dst.toNat v).size =
        (ws.setIfInBounds link.dst.toNat v).size := by
      simpa using holds.size
    have taken : ∀ r ∈ op.registers, (values.setIfInBounds link.dst.toNat v)[r.toNat]? =
        (ws.setIfInBounds link.dst.toNat v)[r.toNat]? := fun r hr => by
      simp only [Array.getElem?_setIfInBounds, holds.size, agree r hr]
    have reloaded := holds.reload (code.mapped _ op inside waits.opcode) holds.slotsSize size
      (by simp) taken fun i hi =>
        ⟨Array.getElem?_setIfInBounds_ne (hi link.dst waits.dst),
          Array.getElem?_setIfInBounds_ne (hi link.dst waits.dst)⟩
    have shows_ := continueAt_shows returned rfl hf reloaded code bound
    simp only [resume, fetched, Frame.suspended_inLoop holds]
    exact shows_

/-- **The end of a frame.** -/
theorem finish_shows (h : Execution.Sound base ⟨m, frame, callers⟩) (v : Value) :
    (finish v m frame callers).Shows base
      (finish v m.plain frame (callers.map Frame.suspended)) := by
  have waiting := h.waiting
  simp only at waiting
  unfold finish
  cases hl : frame.caller with
  | none =>
    rw [hl] at waiting
    cases waiting
    have depth := h.depth
    refine ⟨⟨h.library, ?_⟩, rfl⟩
    simp only [List.length_nil, Machine.depth_retire] at depth ⊢
    omega
  | some link =>
    rw [hl] at waiting
    cases waiting with
    | call hg waits waiting =>
      exact resume_shows (h.pop hg waits waiting frame.file) hg waits _

/-! ## Branches -/

/-- Counting a backward branch to `header` gives a sound machine, on which the frame stands where it
did or at the header in the compiled loop. -/
structure BackEdge (f : LoadedFunction) (header : Nat) (m : Machine) (frame : Frame)
    (r : Machine × Frame) : Prop where
  library : r.1.library.Sound
  plain : r.1.plain = m.plain
  frame : r.2 = frame ∨ ∃ code, CompiledLoop.compile f.chunk code.range = .ok code ∧
    code.range ∈ f.loops ∧ code.range.header = header ∧ r.2 = frame.enterLoop code

theorem backEdge_spec (sound : m.library.Sound) {id : FunctionId}
    (hf : m.library.function? id = some f) (header : Nat) (frame : Frame) :
    BackEdge f header m frame (backEdge id f header m frame) := by
  unfold backEdge
  cases hr : m.library.recordOf? id f header with
  | none => exact ⟨sound, rfl, .inl rfl⟩
  | some record =>
    obtain ⟨same, valid⟩ := Library.recordOf?_valid sound hf hr
    have compiled : ∀ code, CompiledLoop.compile f.chunk record.range = .ok code →
        CompiledLoop.compile f.chunk code.range = .ok code ∧ code.range ∈ f.loops ∧
          code.range.header = header := by
      intro code hc
      have range := (CompiledLoop.translates_of_compile hc).1
      exact ⟨by rw [range]; exact hc, range ▸ valid.range, range ▸ same⟩
    simp only
    cases hc : record.compiled with
    | some code =>
      obtain ⟨translated, loop, header⟩ := compiled code (valid.compiled code hc)
      refine ⟨sound, rfl, ?_⟩
      simp only
      split
      · exact .inr ⟨code, translated, loop, header, rfl⟩
      · exact .inl rfl
    | none =>
      simp only
      split
      · rename_i counter _
        unfold promote
        simp only
        cases compile : CompiledLoop.compile f.chunk record.range with
        | error fault =>
          exact ⟨Library.setRecord_sound sound hf ⟨valid.range, fun _ h => by cases h⟩, rfl,
            .inl rfl⟩
        | ok code =>
          obtain ⟨translated, loop, header⟩ := compiled code compile
          refine ⟨Library.setRecord_sound sound hf ⟨valid.range, fun code' h' => ?_⟩, rfl,
            .inr ⟨code, translated, loop, header, rfl⟩⟩
          simp only [LoopRecord.install, Option.none_or, Option.some.injEq] at h'
          exact h' ▸ compile
      · exact ⟨Library.setRecord_sound sound hf ⟨valid.range, fun _ h => by cases h⟩, rfl, .inl rfl⟩

/-- A frame that has entered a compiled loop of its function. -/
theorem Frame.Sound.enterLoop (hs : frame.Sound f) (valid : f.Valid) {code : CompiledLoop}
    (compile : CompiledLoop.compile f.chunk code.range = .ok code) (loop : code.range ∈ f.loops) :
    (frame.enterLoop code).Sound f ∧
      (frame.enterLoop code).settled = { frame with pc := code.range.header, native := none } := by
  obtain ⟨-, translates⟩ := CompiledLoop.translates_of_compile compile
  have ordered := Chunk.header_le_backEdge (valid.loops ▸ loop)
  have inside : ∀ r ∈ code.registers, r.toNat < frame.file.values.size := by
    intro r hr
    obtain ⟨pc, op, -, hop, hr⟩ := translates.named r hr
    exact hs.size ▸ (valid.instruction pc op hop).register hr
  have holds := NativeRegisters.Holds.ofEnter inside
  have bound := translates.bound
  refine ⟨⟨hs.size, ?_, hs.handlers, fun n hn => ?_⟩, ?_⟩
  · change code.range.header ≤ _
    omega
  · cases hn
    refine ⟨translates, ?_, _, holds⟩
    rw [CompiledLoop.contains_iff]
    simp only [Frame.enterLoop, LoopRange.size]
    omega
  · exact Frame.settled_of_holds (show (frame.enterLoop code).native = some _ from rfl) holds

/-- **A branch** leads to its target, whether that is a loop that is entered or not. -/
theorem branchTo_shows (h : Execution.Sound base ⟨m, frame, callers⟩) (hn : frame.native = none)
    (hf : m.library.function? frame.function = some f) {target : Nat}
    (bound : target ≤ f.chunk.instructions.size) :
    (branchTo f target m frame callers).Shows base
      (.running ⟨m.plain, { frame with pc := target }, callers.map Frame.suspended⟩) := by
  obtain ⟨function, file, pc, handlers, link, native⟩ := frame
  obtain rfl : native = none := hn
  have here : m.library.function? function = some f := hf
  have moved : Frame.Sound f ⟨function, file, target, handlers, link, none⟩ :=
    (h.here hf).withPc rfl bound
  have arrived : Execution.Sound base
      ⟨m, ⟨function, file, target, handlers, link, none⟩, callers⟩ := h.replace hf rfl rfl moved
  unfold branchTo
  simp only
  split
  · obtain ⟨library, plain, frame⟩ :=
      backEdge_spec h.library here target ⟨function, file, target, handlers, link, none⟩
    have counted := arrived.onPlain library plain
    rcases frame with same | ⟨code, compile, loop, rfl, same⟩
    · rw [same]
      exact ⟨counted, by simp only [Status.settled, Execution.settled, plain]; rfl⟩
    · rw [same]
      obtain ⟨entered, settled⟩ := moved.enterLoop (h.library.function _ f here) compile loop
      have known : (backEdge function f code.range.header m
          ⟨function, file, code.range.header, handlers, link, none⟩).1.library.function? function =
            some f := by
        rw [← Machine.function?_plain, plain]
        exact here
      refine ⟨counted.replace known rfl rfl entered, ?_⟩
      simp only [Status.settled, Execution.settled, settled, plain]
  · exact .running arrived

end RegisterVm
