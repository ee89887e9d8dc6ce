import RegisterVm.Proofs.Machine.Reachability

/-!
# Where waiting callers come from

A step drops callers from the front of the list or calls a function
(`Execution.Sound.step_callers`). So every caller that waits in an execution of a run was the
running frame when it called, and has waited unchanged since then (`Execution.Leads.called`).
-/

namespace RegisterVm

/-! ## Steps that call nothing -/

/-- The callers that a running status has are the last ones of `callers`. -/
inductive Status.Within (callers : List Frame) : Status → Prop
  | running {x : Execution} : x.callers <:+ callers → Within callers (.running x)
  | finished {m : Machine} {result : Outcome Value} : Within callers (.finished m result)

theorem Status.Within.cons {callers : List Frame} {s : Status} (h : s.Within callers)
    (caller : Frame) : s.Within (caller :: callers) := by
  cases h with
  | running suffix => exact .running (suffix.trans (List.suffix_cons caller callers))
  | finished => exact .finished

theorem unwind_within (e : Failure) (m : Machine) (frame : Frame) (callers : List Frame) :
    (unwind e m frame callers).Within callers := by
  induction callers generalizing e m frame with
  | nil =>
    rw [unwind.eq_def]
    split
    split
    · split
      · exact .running List.suffix_rfl
      · exact .finished
    · exact .finished
  | cons caller callers ih =>
    rw [unwind.eq_def]
    split
    split
    · split
      · exact .running List.suffix_rfl
      · exact .finished
    · exact (ih ..).cons caller

theorem continueAt_within (n : NativeRegisters) (target : Nat) (m : Machine) (frame : Frame)
    (callers : List Frame) : (continueAt n target m frame callers).Within callers := by
  unfold continueAt
  split
  · exact .running List.suffix_rfl
  · split
    · exact unwind_within ..
    · split
      · split
        · exact .running List.suffix_rfl
        · exact unwind_within ..
      · exact unwind_within ..

theorem resume_within (dst : Register) (v : Value) (m : Machine) (frame : Frame)
    (callers : List Frame) : (resume dst v m frame callers).Within callers := by
  obtain ⟨function, ⟨values, allocated⟩, pc, handlers, link, native⟩ := frame
  cases native with
  | none => exact .running List.suffix_rfl
  | some n => exact continueAt_within ..

theorem finish_within (v : Value) (m : Machine) (frame : Frame) (callers : List Frame) :
    (finish v m frame callers).Within callers := by
  unfold finish
  simp only
  split
  · exact .finished
  · exact (resume_within ..).cons _
  · exact .running (List.suffix_cons _ _)

theorem branchTo_within (f : LoadedFunction) (target : Nat) (m : Machine) (frame : Frame)
    (callers : List Frame) : (branchTo f target m frame callers).Within callers := by
  unfold branchTo
  simp only
  split <;> exact .running List.suffix_rfl

/-! ## Calls -/

/-- The running frame of `x` waits in `y` as `g` for the function that it has called. -/
structure Execution.Calls (x y : Execution) (g : Frame) : Prop where
  callers : y.callers = g :: x.callers
  function : g.function = x.frame.function
  handlers : g.handlers = x.frame.handlers
  link : g.caller = x.frame.caller
  registers : g.settled.file.values = x.frame.settled.file.values
  instruction : ∃ f op, x.machine.library.function? x.frame.function = some f ∧
    f.chunk.opcode? x.frame.pc = some op ∧ op.IsCall
  address : ∃ dst result, y.frame.caller = some ⟨dst, x.frame.pc, result⟩

variable {base : Nat} {m : Machine} {frame : Frame} {callers : List Frame} {f : LoadedFunction}
  {op : Opcode} {n : NativeRegisters} {ws : Array Value}

theorem perform_callers (effect : Effect) (f : LoadedFunction) (m : Machine) (frame : Frame)
    (callers : List Frame) : (perform effect f m frame callers).Within callers ∨
      ∃ callee, effect = .call callee := by
  cases effect with
  | next | guard | unguard => exact .inl (.running List.suffix_rfl)
  | write dst v =>
    refine .inl ?_
    unfold perform
    simp only
    split
    · exact .running List.suffix_rfl
    · exact unwind_within ..
  | jump target => exact .inl (branchTo_within ..)
  | ret v => exact .inl (finish_within ..)
  | call callee => exact .inr ⟨callee, rfl⟩

theorem interpret_callers (h : Execution.Sound base ⟨m, frame, callers⟩) (hn : frame.native = none)
    (hf : m.library.function? frame.function = some f) :
    (interpret f m frame callers).Within callers ∨
      ∃ y g, interpret f m frame callers = .running y ∧
        Execution.Calls ⟨m, frame, callers⟩ y g := by
  cases hop : f.chunk.opcode? frame.pc with
  | none =>
    simp only [interpret, hop]
    exact .inl (finish_within ..)
  | some op =>
    have fits := (h.library.function _ f hf).instruction _ op hop
    have steady : MachineM.Steady m.library.functions
        (MachineM.exec f frame.file.values frame.pc op) _ _ :=
      MachineM.exec_steady fits (h.here hf).size
    rw [interpret_eq hop]
    cases result : MachineM.exec f frame.file.values frame.pc op m with
    | error e m' => exact .inl (unwind_within ..)
    | ok effect m' =>
      obtain ⟨-, of⟩ := steady.ok m effect m' rfl result
      rcases perform_callers effect f m' frame callers with within | ⟨callee, rfl⟩
      · exact .inl within
      · obtain ⟨isCall, dst, result, -, fresh⟩ := of
        have waits : Frame.settled { frame with pc := frame.pc + 1 } = _ :=
          Frame.settled_of_none hn
        refine .inr ⟨_, _, rfl, rfl, rfl, rfl, rfl, ?_, ⟨f, op, hf, hop, isCall⟩, dst, result,
          fresh.caller⟩
        rw [waits, Frame.settled_of_none hn]

theorem afterHelper_callers (effect : Effect) (target : Option Nat) (n : NativeRegisters)
    (m : Machine) (frame : Frame) (callers : List Frame) :
    (afterHelper effect target n m frame callers).Within callers ∨
      ∃ callee, effect = .call callee := by
  cases effect with
  | next | write | jump | guard | unguard => exact .inl (continueAt_within ..)
  | ret v => exact .inl (unwind_within ..)
  | call callee => exact .inr ⟨callee, rfl⟩

theorem help_callers (target : Option Nat) (h : Execution.Sound base ⟨m, frame, callers⟩)
    (hf : m.library.function? frame.function = some f) (hop : f.chunk.opcode? frame.pc = some op)
    (holds : n.Holds frame.file.values ws) (code : n.loop.Translates f.chunk)
    (inside : n.loop.range.contains frame.pc = true) :
    (help f op target n m frame callers).Within callers ∨
      ∃ y g, help f op target n m frame callers = .running y ∧
        Execution.Calls ⟨m, { frame.withValues ws with native := none }, callers⟩ y g := by
  have fits := (h.library.function _ f hf).instruction _ op hop
  have size : ws.size = f.chunk.registerCount.toNat := holds.size.symm.trans (h.here hf).size
  have steady : MachineM.Steady m.library.functions (MachineM.exec f ws frame.pc op) _ _ :=
    MachineM.exec_steady fits size
  have spec := help_spec target h hf hop holds code inside
  generalize help f op target n m frame callers = s at spec ⊢
  cases spec with
  | failed => exact .inl (unwind_within ..)
  | @applied effect m' n' values ws' result applied _ _ taken _ =>
    rcases afterHelper_callers effect target n' m' (frame.withValues values) callers with
      within | ⟨callee, rfl⟩
    · exact .inl within
    · cases applied
      obtain ⟨-, isCall, dst, result, -, fresh⟩ := steady.ok m _ m' rfl result
      refine .inr ⟨_, _, rfl, rfl, rfl, rfl, rfl, ?_, ⟨f, op, hf, hop, isCall⟩, dst, result,
        fresh.caller⟩
      exact congrArg (fun frame : Frame => frame.file.values) (Frame.settled_inLoop taken)

theorem runNative_callers (h : Execution.Sound base ⟨m, frame, callers⟩)
    (hf : m.library.function? frame.function = some f) (holds : n.Holds frame.file.values ws)
    (code : n.loop.Translates f.chunk) (inside : n.loop.range.contains frame.pc = true) :
    (runNative f n m frame callers).Within callers ∨
      ∃ y g, runNative f n m frame callers = .running y ∧
        Execution.Calls ⟨m, { frame.withValues ws with native := none }, callers⟩ y g := by
  obtain ⟨op, hop⟩ := code.opcode inside
  have spec := runNative_spec h hf hop holds code inside
  generalize runNative f n m frame callers = s at spec ⊢
  cases spec with
  | next | write | jump => exact .inl (continueAt_within ..)
  | general target => exact help_callers target h hf hop holds code inside
  | leave => exact .inl (.running List.suffix_rfl)
  | failed => exact .inl (unwind_within ..)

namespace Execution

variable {x y : Execution}

/-- **A step drops callers or calls a function.** -/
theorem Sound.step_callers (h : x.Sound base) :
    x.step.Within x.callers ∨ ∃ y g, x.step = .running y ∧ x.Calls y g := by
  obtain ⟨m, ⟨function, ⟨values, allocated⟩, pc, handlers, link, native⟩, callers⟩ := x
  obtain ⟨f, hf, hs⟩ := h.frame
  have here : m.library.function? function = some f := hf
  cases native with
  | none =>
    simp only [Execution.step, here]
    exact interpret_callers h rfl hf
  | some n =>
    obtain ⟨code, inside, ws, holds⟩ := hs.native n rfl
    have interpreted : Execution.Sound base
        ⟨m, ⟨function, ⟨values, allocated⟩, pc, handlers, link, none⟩, callers⟩ := h.interpreted rfl
    simp only [Execution.step, here]
    rcases runNative_callers interpreted hf holds code inside with within | ⟨y, g, ran, calls⟩
    · exact .inl within
    · refine .inr ⟨y, g, ran, calls.callers, calls.function, calls.handlers, calls.link, ?_,
        calls.instruction, calls.address⟩
      rw [Frame.settled_inLoop holds, calls.registers]
      rfl

/-- **Every waiting caller has called**, and waits as it was then. -/
theorem Leads.called {s : Execution} (h : s.Leads x) (sound : s.Sound base) (none : s.callers = [])
    {inner outer : List Frame} {g : Frame} (split : x.callers = inner ++ g :: outer) :
    ∃ z z', s.Leads z ∧ z.Next z' ∧ z'.Leads x ∧ z.callers = outer ∧ z.Calls z' g := by
  induction h generalizing inner with
  | refl => simp [none] at split
  | tail leads next ih =>
    rename_i y x
    have moved := (Leads.sound leads sound).step_callers
    rw [next] at moved
    rcases moved with within | ⟨x', g', stepped, calls⟩
    · cases within with
      | running suffix =>
        obtain ⟨dropped, callers⟩ := suffix
        rw [split, ← List.append_assoc] at callers
        obtain ⟨z, z', first, called, rest, found⟩ := ih callers.symm
        exact ⟨z, z', first, called, rest.tail next, found⟩
    · cases stepped
      have callers := calls.callers
      rw [split] at callers
      cases inner with
      | nil =>
        obtain ⟨rfl, rfl⟩ := List.cons.inj callers
        exact ⟨y, x, leads, next, .refl, rfl, calls⟩
      | cons first inner =>
        obtain ⟨z, z', earlier, called, rest, found⟩ := ih (List.cons.inj callers).2.symm
        exact ⟨z, z', earlier, called, rest.tail next, found⟩

end Execution

end RegisterVm
