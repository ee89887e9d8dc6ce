import RegisterVm.Proofs.Machine.Signals

/-!
# Executions above a call

An execution that was started from outside has no callers. `Execution.above` puts it on top of the
frames that wait at a `CallSite`. Nothing that an execution does depends on what is below it, so it
takes the same steps there (`Execution.Sound.step_above`), until its outermost function ends and the
call site receives the result (`CallSite.receive`).
-/

namespace RegisterVm

/-- A frame that waits for the result of a call, and the callers below it. -/
structure CallSite where
  link : CallerLink
  caller : Frame
  callers : List Frame

/-- The frame with a link to its caller. -/
def Frame.linked (link : CallerLink) (frame : Frame) : Frame :=
  { frame with caller := some (frame.caller.getD link) }

namespace CallSite

/-- The frames with the call site below them. -/
def under (site : CallSite) (frames : List Frame) : List Frame :=
  frames.map (Frame.linked site.link) ++ site.caller :: site.callers

/-- What the result of the call leads to. -/
def receive (site : CallSite) (m : Machine) : Outcome Value → Status
  | .ok v => resume site.link.dst (site.link.result.getD v) m site.caller site.callers
  | .error e => unwind e m (site.caller.backAtCall (some site.link)) site.callers

@[simp] theorem under_nil (site : CallSite) : site.under [] = site.caller :: site.callers := rfl

@[simp] theorem under_cons (site : CallSite) (frame : Frame) (frames : List Frame) :
    site.under (frame :: frames) = frame.linked site.link :: site.under frames := rfl

@[simp] theorem length_under (site : CallSite) (frames : List Frame) :
    (site.under frames).length = frames.length + (site.callers.length + 1) := by
  simp [under]

end CallSite

/-- The execution on top of a call site. -/
def Execution.above (site : CallSite) (x : Execution) : Execution :=
  ⟨x.machine, x.frame.linked site.link, site.under x.callers⟩

/-- The status on top of a call site. -/
def Status.above (site : CallSite) : Status → Status
  | running x => running (x.above site)
  | finished m r => site.receive m r

/-! ## Frames -/

namespace Frame

variable (link : CallerLink) (frame : Frame)

theorem linked_of_some {own : CallerLink} {frame : Frame} (h : frame.caller = some own) :
    frame.linked link = frame := by
  obtain ⟨function, file, pc, handlers, caller, native⟩ := frame
  cases h
  rfl

theorem leaveLoop_linked (n : NativeRegisters) :
    (frame.linked link).leaveLoop n = (frame.leaveLoop n).map (linked link) := by
  obtain ⟨function, ⟨values, allocated⟩, pc, handlers, caller, native⟩ := frame
  simp only [leaveLoop, linked, Bind.bind, Except.bind]
  cases decodeRegisters n.loop.registers (copySlots n.loop.registers n.vars n.slots) values <;> rfl

theorem leaveFailed_linked (e : Failure) :
    (frame.linked link).leaveFailed e =
      ((frame.leaveFailed e).1, (frame.leaveFailed e).2.linked link) := by
  obtain ⟨function, file, pc, handlers, caller, native⟩ := frame
  cases native with
  | none => rfl
  | some n =>
    have left := leaveLoop_linked link ⟨function, file, pc, handlers, caller, some n⟩ n
    simp only [leaveFailed, linked] at left ⊢
    rw [left]
    cases leaveLoop n ⟨function, file, pc, handlers, caller, some n⟩ <;> rfl

theorem caller_leaveFailed (e : Failure) : (frame.leaveFailed e).2.caller = frame.caller := by
  unfold leaveFailed
  split
  · rfl
  · rename_i n _
    split
    · rename_i left
      simp only [leaveLoop, Bind.bind, Except.bind] at left
      split at left <;> cases left
      rfl
    · rfl

end Frame

/-! ## Parts of a step -/

variable {fs : Array LoadedFunction} {m : Machine} {frame : Frame} {callers : List Frame}
  {f : LoadedFunction}

theorem unwind_above (site : CallSite) (frame : Frame) (waiting : Waiting fs frame.caller callers)
    (e : Failure) (m : Machine) :
    unwind e m (frame.linked site.link) (site.under callers) =
      (unwind e m frame callers).above site := by
  -- On the callers: a frame with a handler takes the failure, any other passes it on.
  induction callers generalizing frame e m with
  | nil =>
    have outermost : (frame.leaveFailed e).2.caller = none := by
      rw [Frame.caller_leaveFailed]
      generalize frame.caller = own at waiting
      cases waiting
      rfl
    rw [unwind.eq_def, Frame.leaveFailed_linked, unwind.eq_def e m frame]
    generalize frame.leaveFailed e = left at outermost
    obtain ⟨e, function, file, pc, handlers, own, native⟩ := left
    cases outermost
    cases handlers with
    | nil => rfl
    | cons k rest =>
      obtain ⟨v, m', caught, -⟩ := MachineM.caught_ok e m
      simp only [Frame.linked, caught]
      rfl
  | cons caller callers ih =>
    obtain ⟨link, linked, waiting'⟩ : ∃ link, (frame.leaveFailed e).2.caller = some link ∧
        Waiting fs caller.caller callers := by
      rw [Frame.caller_leaveFailed]
      generalize frame.caller = own at waiting
      cases waiting with
      | call _ _ waiting => exact ⟨_, rfl, waiting⟩
    rw [unwind.eq_def, Frame.leaveFailed_linked, unwind.eq_def e m frame]
    generalize frame.leaveFailed e = left at linked
    obtain ⟨e, function, file, pc, handlers, own, native⟩ := left
    cases linked
    cases handlers with
    | nil => exact ih (caller.backAtCall (some link)) waiting' _ _
    | cons k rest =>
      obtain ⟨v, m', caught, -⟩ := MachineM.caught_ok e m
      simp only [Frame.linked, caught]
      rfl

theorem continueAt_above (site : CallSite) (frame : Frame)
    (waiting : Waiting fs frame.caller callers) (n : NativeRegisters) (target : Nat) (m : Machine) :
    continueAt n target m (frame.linked site.link) (site.under callers) =
      (continueAt n target m frame callers).above site := by
  unfold continueAt
  split
  · rfl
  · rw [Frame.leaveLoop_linked]
    cases left : frame.leaveLoop n with
    | error e => exact unwind_above site { frame with native := none } waiting e m
    | ok frame' =>
      have own : frame'.caller = frame.caller := by
        simp only [Frame.leaveLoop, Bind.bind, Except.bind] at left
        split at left <;> cases left
        rfl
      have waiting' : Waiting fs frame'.caller callers := own ▸ waiting
      have function : (frame'.linked site.link).function = frame'.function := rfl
      simp only [Except.map, function]
      cases m.library.function? frame'.function with
      | none => exact unwind_above site frame' waiting' _ m
      | some f =>
        simp only
        split
        · rfl
        · exact unwind_above site frame' waiting' _ m

theorem resume_above (site : CallSite) (frame : Frame) (waiting : Waiting fs frame.caller callers)
    (dst : Register) (v : Value) (m : Machine) :
    resume dst v m (frame.linked site.link) (site.under callers) =
      (resume dst v m frame callers).above site := by
  obtain ⟨function, ⟨values, allocated⟩, pc, handlers, own, native⟩ := frame
  cases native with
  | none => rfl
  | some n =>
    exact continueAt_above site ⟨function, ⟨_, allocated⟩, pc, handlers, own, none⟩ waiting _ _ m

theorem finish_above (site : CallSite) (frame : Frame) (waiting : Waiting fs frame.caller callers)
    (v : Value) (m : Machine) :
    finish v m (frame.linked site.link) (site.under callers) =
      (finish v m frame callers).above site := by
  obtain ⟨function, file, pc, handlers, own, native⟩ := frame
  cases waiting with
  | outside => rfl
  | call _ _ waiting => exact resume_above site _ waiting _ _ _

theorem backEdge_linked (id : FunctionId) (f : LoadedFunction) (header : Nat) (m : Machine)
    (link : CallerLink) (frame : Frame) :
    backEdge id f header m (frame.linked link) =
      ((backEdge id f header m frame).1, (backEdge id f header m frame).2.linked link) := by
  unfold backEdge promote
  split
  · rfl
  · split
    · split <;> rfl
    · simp only
      split
      · split <;> rfl
      · rfl

theorem branchTo_above (site : CallSite) (f : LoadedFunction) (target : Nat) (m : Machine)
    (frame : Frame) (callers : List Frame) :
    branchTo f target m (frame.linked site.link) (site.under callers) =
      (branchTo f target m frame callers).above site := by
  have counted := backEdge_linked frame.function f target m site.link { frame with pc := target }
  unfold branchTo
  by_cases back : target ≤ frame.pc
  · have back' : target ≤ (frame.linked site.link).pc := back
    simp only [if_pos back, if_pos back']
    exact congrArg (fun r => Status.running ⟨r.1, r.2, site.under callers⟩) counted
  · have ahead : ¬target ≤ (frame.linked site.link).pc := back
    simp only [if_neg back, if_neg ahead]
    rfl

theorem perform_above (site : CallSite) (frame : Frame)
    (waiting : Waiting fs frame.caller callers) {effect : Effect}
    (linked : ∀ callee, effect = .call callee → ∃ own, callee.caller = some own)
    (f : LoadedFunction) (m : Machine) :
    perform effect f m (frame.linked site.link) (site.under callers) =
      (perform effect f m frame callers).above site := by
  cases effect with
  | next | guard | unguard => rfl
  | write dst v =>
    obtain ⟨function, ⟨values, allocated⟩, pc, handlers, own, native⟩ := frame
    by_cases inside : dst.toNat < values.size
    · exact (perform_write inside).trans (congrArg (Status.above site) (perform_write inside)).symm
    · have outside : ∀ own callers, perform (.write dst v) f m
          ⟨function, ⟨values, allocated⟩, pc, handlers, own, native⟩ callers =
          unwind (.ofFault (.registerOutside dst.toNat values.size)) m
            ⟨function, ⟨values, allocated⟩, pc, handlers, own, native⟩ callers :=
        fun own callers => if_neg inside
      rw [outside own callers]
      exact (outside _ _).trans (unwind_above site _ waiting _ m)
  | jump target => exact branchTo_above site f target m frame callers
  | ret v => exact finish_above site frame waiting v m
  | call callee =>
    obtain ⟨own, called⟩ := linked callee rfl
    simp only [perform, Status.above, Execution.above, Frame.linked_of_some site.link called]
    rfl

/-! ## Instructions -/

section Instructions

variable {base : Nat} {op : Opcode} {n : NativeRegisters} {ws : Array Value}

/-- The frame of a function that an instruction calls has a link. -/
theorem Effect.Of.linked {effect : Effect} {pc : Nat} (of : effect.Of fs op pc) :
    ∀ callee, effect = .call callee → ∃ own, callee.caller = some own := by
  rintro callee rfl
  obtain ⟨-, dst, result, -, fresh⟩ := of
  exact ⟨_, fresh.caller⟩

theorem interpret_above (site : CallSite) (h : Execution.Sound base ⟨m, frame, callers⟩)
    (hf : m.library.function? frame.function = some f) :
    interpret f m (frame.linked site.link) (site.under callers) =
      (interpret f m frame callers).above site := by
  cases hop : f.chunk.opcode? frame.pc with
  | none =>
    have hop' : f.chunk.opcode? (frame.linked site.link).pc = none := hop
    simp only [interpret, hop, hop']
    exact finish_above site frame h.waiting .none m
  | some op =>
    have fits := (h.library.function _ f hf).instruction _ op hop
    have steady : MachineM.Steady m.library.functions
        (MachineM.exec f frame.file.values frame.pc op) _ _ :=
      MachineM.exec_steady fits (h.here hf).size
    have hop' : f.chunk.opcode? (frame.linked site.link).pc = some op := hop
    rw [interpret_eq hop, interpret_eq hop']
    have same : MachineM.exec f (frame.linked site.link).file.values (frame.linked site.link).pc
        op m = MachineM.exec f frame.file.values frame.pc op m := rfl
    rw [same]
    cases result : MachineM.exec f frame.file.values frame.pc op m with
    | error e m' => exact unwind_above site frame h.waiting e m'
    | ok effect m' =>
      exact perform_above site frame h.waiting (steady.ok m effect m' rfl result).2.linked f m'

theorem afterHelper_above (site : CallSite) (frame : Frame)
    (waiting : Waiting fs frame.caller callers) {effect : Effect}
    (linked : ∀ callee, effect = .call callee → ∃ own, callee.caller = some own)
    (target : Option Nat) (n : NativeRegisters) (m : Machine) :
    afterHelper effect target n m (frame.linked site.link) (site.under callers) =
      (afterHelper effect target n m frame callers).above site := by
  cases effect with
  | next | write | jump => exact continueAt_above site frame waiting n _ m
  | call callee =>
    obtain ⟨own, called⟩ := linked callee rfl
    simp only [afterHelper, Status.above, Execution.above, Frame.linked_of_some site.link called]
    rfl
  | ret v => exact unwind_above site { frame with native := some n } waiting _ m
  | guard k =>
    exact continueAt_above site { frame with handlers := k :: frame.handlers } waiting n _ m
  | unguard =>
    exact continueAt_above site { frame with handlers := frame.handlers.tail } waiting n _ m

theorem help_above (site : CallSite) (target : Option Nat)
    (h : Execution.Sound base ⟨m, frame, callers⟩)
    (hf : m.library.function? frame.function = some f) (hop : f.chunk.opcode? frame.pc = some op)
    (holds : n.Holds frame.file.values ws) (code : n.loop.Translates f.chunk)
    (inside : n.loop.range.contains frame.pc = true) :
    help f op target n m (frame.linked site.link) (site.under callers) =
      (help f op target n m frame callers).above site := by
  have fits := (h.library.function _ f hf).instruction _ op hop
  obtain ⟨function, ⟨values, allocated⟩, pc, handlers, own, native⟩ := frame
  have size := (h.here hf).size
  have waiting := h.waiting
  obtain ⟨values', decoded, holds', -⟩ := holds.decode (code.mapped _ op inside hop)
  have steady : MachineM.Steady m.library.functions (MachineM.exec f values' pc op) _ _ :=
    MachineM.exec_steady fits ((holds'.size.trans holds.size.symm).trans size)
  have failed := fun (values : Array Value) (n : NativeRegisters) =>
    unwind_above site ⟨function, ⟨values, allocated⟩, pc, handlers, own, some n⟩ waiting
  simp only [help, MachineM.helperStep, Frame.linked, decoded]
  cases result : MachineM.exec f values' pc op m with
  | error e m' => exact failed values' _ e m'
  | ok effect m' =>
    have linked := (steady.ok m effect m' rfl result).2.linked
    simp only
    cases effect.apply values' with
    | error e => exact failed values' _ e m'
    | ok values'' =>
      exact afterHelper_above site ⟨function, ⟨values'', allocated⟩, pc, handlers, own, native⟩
        waiting linked target _ m'

theorem runNative_above (site : CallSite) (h : Execution.Sound base ⟨m, frame, callers⟩)
    (hf : m.library.function? frame.function = some f) (holds : n.Holds frame.file.values ws)
    (code : n.loop.Translates f.chunk) (inside : n.loop.range.contains frame.pc = true) :
    runNative f n m (frame.linked site.link) (site.under callers) =
      (runNative f n m frame callers).above site := by
  obtain ⟨op, hop⟩ := code.opcode inside
  have fits := (h.library.function _ f hf).instruction _ op hop
  have form := code.form _ op inside hop
  have size : ws.size = f.chunk.registerCount.toNat := holds.size.symm.trans (h.here hf).size
  have agrees := NativeForm.run_agrees (m := m) fits size fun r hr =>
    holds.held r (code.mapped _ op inside hop r hr)
  have helped := fun target => help_above site target h hf hop holds code inside
  have left := holds.leave
  have left' : (frame.linked site.link).leaveLoop n =
      .ok (Frame.linked site.link { frame.withValues ws with native := none }) := by
    rw [Frame.leaveLoop_linked, left]
    rfl
  have waiting := h.waiting
  obtain ⟨loop, vars, slots⟩ := n
  have pc : (frame.linked site.link).pc = frame.pc := rfl
  simp only [runNative, pc, form, hop]
  simp only at agrees
  generalize (NativeForm.ofOpcode f.chunk op).run m.heap vars frame.pc = outcome at agrees ⊢
  cases agrees with
  | next | write | jump => exact continueAt_above site frame waiting _ _ m
  | general target => exact helped target
  | leave =>
    simp only [left, left']
    rfl
  | failed e =>
    exact unwind_above site { frame with native := some ⟨loop, vars, slots⟩ } waiting e m

end Instructions

/-! ## Steps -/

namespace Execution

variable {x y : Execution} {base : Nat}

/-- **An execution takes the same steps above a call site.** -/
theorem Sound.step_above (h : x.Sound base) (site : CallSite) :
    (x.above site).step = x.step.above site := by
  obtain ⟨m, ⟨function, ⟨values, allocated⟩, pc, handlers, link, native⟩, callers⟩ := x
  obtain ⟨f, hf, hs⟩ := h.frame
  have here : m.library.function? function = some f := hf
  cases native with
  | none =>
    simp only [above, Frame.linked, Execution.step, here]
    exact interpret_above site h hf
  | some n =>
    obtain ⟨code, inside, ws, holds⟩ := hs.native n rfl
    simp only [above, Frame.linked, Execution.step, here]
    exact runNative_above site (h.interpreted rfl) hf holds code inside

end Execution

end RegisterVm
