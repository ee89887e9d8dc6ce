import RegisterVm.Proofs.Machine.RegisterSafety
import RegisterVm.Proofs.Machine.Values

/-!
# Executions stay consistent

An execution is `Execution.Consistent` when its machine is and the registers of its frames, as the
interpreter has them, hold values of the heap. A step keeps executions consistent, in the
interpreter and in compiled loops (`Execution.Consistent.step`), because every step shows a step of
the interpreter. Nothing that an instruction names or calls is missing: a failure is never
`Fault.unresolved`.
-/

namespace RegisterVm

/-- The faults of an operand or a function that is not there. -/
def Fault.unresolved : Fault → Bool
  | constantOutOfRange _ | notAName _ | functionOutOfRange _ | unknownFunction _ => true
  | _ => false

theorem Fault.unresolved_of_ofInstruction {fault : Fault} (h : fault.ofInstruction = true)
    (known : ∀ id, fault ≠ .unknownFunction id) : fault.unresolved = false := by
  cases fault with
  | constantOutOfRange | notAName | functionOutOfRange => cases h
  | unknownFunction id => exact absurd rfl (known id)
  | _ => rfl

theorem Opcode.MayFail.resolved {op : Opcode} {size : Nat} {fault : Fault}
    (h : op.MayFail size fault) (known : ∀ id, fault ≠ .unknownFunction id) :
    fault.unresolved = false := by
  rcases h with ordinary | ⟨s, -, -, -, rfl⟩
  · exact Fault.unresolved_of_ofInstruction ordinary known
  · rfl

/-- A failure that carries an exception of the heap, if any, and for which nothing was missing. -/
structure Failure.In (h : Heap) (e : Failure) : Prop where
  exception : ∀ v, e.exception = some v → h.Has v
  resolved : e.fault.unresolved = false

theorem Failure.In.leave {h : Heap} {e : Failure} (he : e.In h) (entry : TraceEntry) :
    (e.leave entry).In h := ⟨he.exception, he.resolved⟩

/-- The machine is consistent, and the frames hold values of its heap. -/
structure Execution.Consistent (x : Execution) : Prop where
  machine : x.machine.Consistent
  frame : x.frame.settled.In x.machine.heap
  callers : ∀ a ∈ x.callers, a.suspended.In x.machine.heap

namespace Status

/-- The execution goes on consistently or ends with a value of the heap or an acceptable failure. -/
def Consistent : Status → Prop
  | running x => x.Consistent
  | finished m (.ok v) => m.Consistent ∧ m.heap.Has v
  | finished m (.error e) => m.Consistent ∧ e.In m.heap

end Status

/-! ## What the interpreter sees -/

theorem Machine.consistent_plain {m : Machine} : m.plain.Consistent ↔ m.Consistent :=
  ⟨fun h => h.congr rfl rfl rfl rfl rfl, fun h => h.congr rfl rfl rfl rfl rfl⟩

theorem Execution.consistent_settled {x : Execution} : x.settled.Consistent ↔ x.Consistent := by
  have frame : x.settled.frame.settled = x.frame.settled :=
    Frame.settled_of_none x.frame.native_settled
  constructor
  · intro h
    refine ⟨Machine.consistent_plain.mp h.machine, frame ▸ h.frame, fun a ha => ?_⟩
    have seen := h.callers a.suspended (List.mem_map_of_mem ha)
    rwa [Frame.suspended_suspended] at seen
  · intro h
    refine ⟨Machine.consistent_plain.mpr h.machine, frame.symm ▸ h.frame, fun a ha => ?_⟩
    obtain ⟨b, hb, rfl⟩ := List.mem_map.mp ha
    rw [Frame.suspended_suspended]
    exact h.callers b hb

theorem Status.consistent_settled {s : Status} : s.settled.Consistent ↔ s.Consistent := by
  cases s with
  | running x => exact Execution.consistent_settled
  | finished m r =>
    cases r <;> exact and_congr_left fun _ => Machine.consistent_plain

/-! ## Steps of the interpreter -/

variable {m m' : Machine} {frame caller : Frame} {callers : List Frame} {f : LoadedFunction}
  {base : Nat}

namespace Frame.In

variable {h : Heap}

theorem withPc (hf : frame.In h) (pc : Nat) : Frame.In h { frame with pc } :=
  ⟨hf.registers, hf.result⟩

theorem backAtCall (hf : frame.In h) (link : Option CallerLink) :
    (frame.backAtCall link).In h := by
  cases link with
  | none => exact hf
  | some link => exact hf.withPc link.callPc

theorem atHandler (hf : frame.In h) (k : Handler) (rest : List Handler) {v : Value}
    (hv : h.Has v) : (frame.atHandler k rest v).In h := by
  refine ⟨fun x hx => ?_, hf.result⟩
  rcases Array.mem_or_eq_of_mem_setIfInBounds hx with hx | rfl
  · exact hf.registers x hx
  · exact hv

end Frame.In

/-- A machine that advances keeps the frames in the interpreter consistent. -/
theorem Execution.Consistent.ofFrames (hm : m.Consistent) (hn : frame.native = none)
    (hc : ∀ a ∈ callers, a.native = none) (inside : ∀ a ∈ frame :: callers, a.In m.heap) :
    Execution.Consistent ⟨m, frame, callers⟩ where
  machine := hm
  frame := by
    rw [Frame.settled_of_none hn]
    exact inside frame List.mem_cons_self
  callers a ha := by
    rw [Frame.suspended_of_none (hc a ha)]
    exact inside a (List.mem_cons_of_mem frame ha)

/-- A handler receives a value of the heap. -/
theorem MachineM.caught_advances {e : Failure} (hm : m.Consistent) (he : e.In m.heap) :
    ∃ v m', onHeap (HeapM.caught e) m = .ok v m' ∧ m.Advances m' ∧ m'.heap.Has v := by
  have orderly : (HeapM.caught e).Orderly := by
    unfold HeapM.caught
    split
    · exact .pure _
    · exact .alloc _
  have maintained : Maintains m.library.functions m.heap (onHeap (HeapM.caught e)) Heap.Has :=
    .onHeap orderly (HeapM.keeps_caught he.exception)
  obtain ⟨v, m', caught, -⟩ := caught_ok e m
  obtain ⟨advances, has⟩ := maintained.ok m v m' rfl hm (.refl _) caught
  exact ⟨v, m', caught, advances, has⟩

/-- The result of a call arrives consistently. -/
theorem finish_consistent {v : Value} (hc : ∀ a ∈ callers, a.native = none) (hm : m.Consistent)
    (hv : m.heap.Has v) (inside : ∀ a ∈ frame :: callers, a.In m.heap) :
    (finish v m frame callers).Consistent := by
  have retired : (m.retire frame.file).Consistent := hm.congr rfl rfl rfl rfl rfl
  have result : m.heap.Has ((frame.caller.bind (·.result)).getD v) := by
    cases found : frame.caller.bind (·.result) with
    | none => exact hv
    | some r =>
      obtain ⟨link, hl, hr⟩ := Option.bind_eq_some_iff.mp found
      exact (inside frame List.mem_cons_self).result link hl r hr
  unfold finish
  simp only
  split
  · exact ⟨retired, result⟩
  · rename_i caller callers link _
    have native := hc caller List.mem_cons_self
    have outer : ∀ a ∈ callers, a.native = none := fun a ha => hc a (List.mem_cons_of_mem caller ha)
    obtain ⟨function, ⟨values, allocated⟩, pc, handlers, next, code⟩ := caller
    obtain rfl : code = none := native
    refine Execution.Consistent.ofFrames retired rfl outer fun a ha => ?_
    rcases List.mem_cons.mp ha with rfl | ha
    · have before := inside _ (List.mem_cons_of_mem frame List.mem_cons_self)
      refine ⟨fun x hx => ?_, before.result⟩
      rcases Array.mem_or_eq_of_mem_setIfInBounds hx with hx | rfl
      · exact before.registers x hx
      · exact result
    · exact inside a (by simp [ha])
  · rename_i caller callers _
    exact Execution.Consistent.ofFrames retired (hc caller List.mem_cons_self)
      (fun a ha => hc a (List.mem_cons_of_mem caller ha))
      fun a ha => inside a (List.mem_cons_of_mem frame ha)

section Interpreted

variable (hn : frame.native = none) (hc : ∀ a ∈ callers, a.native = none)
include hn hc

theorem unwind_here_consistent {e : Failure} (hm : m.Consistent) (he : e.In m.heap)
    (inside : ∀ a ∈ frame :: callers, a.In m.heap) {k : Handler} {rest : List Handler}
    (hh : frame.handlers = k :: rest) : (unwind e m frame callers).Consistent := by
  obtain ⟨v, m', caught, advances, has⟩ := MachineM.caught_advances hm he
  have unwound : unwind e m frame callers = .running ⟨m', frame.atHandler k rest v, callers⟩ := by
    rw [unwind.eq_def, Frame.leaveFailed_of_none e hn]
    simp only [hh, caught]
  rw [unwound]
  refine Execution.Consistent.ofFrames advances.consistent hn hc fun a ha => ?_
  rcases List.mem_cons.mp ha with rfl | ha
  · exact ((inside frame List.mem_cons_self).grows advances.heap).atHandler k rest has
  · exact (inside a (List.mem_cons_of_mem frame ha)).grows advances.heap

/-- Errors unwind consistently. -/
theorem unwind_consistent {e : Failure} (hm : m.Consistent) (he : e.In m.heap)
    (inside : ∀ a ∈ frame :: callers, a.In m.heap) :
    (unwind e m frame callers).Consistent := by
  induction callers generalizing e m frame with
  | nil =>
    cases hh : frame.handlers with
    | cons k rest => exact unwind_here_consistent hn hc hm he inside hh
    | nil =>
      rw [unwind.eq_def, Frame.leaveFailed_of_none e hn]
      simp only [hh]
      exact ⟨hm.congr rfl rfl rfl rfl rfl, he.leave _⟩
  | cons caller callers ih =>
    cases hh : frame.handlers with
    | cons k rest => exact unwind_here_consistent hn hc hm he inside hh
    | nil =>
      rw [unwind.eq_def, Frame.leaveFailed_of_none e hn]
      simp only [hh]
      have native : (caller.backAtCall frame.caller).native = none := by
        have := hc caller List.mem_cons_self
        cases hl : frame.caller <;> exact this
      refine ih native (fun a ha => hc a (List.mem_cons_of_mem caller ha))
        (hm.congr rfl rfl rfl rfl rfl) (he.leave _) fun a ha => ?_
      rcases List.mem_cons.mp ha with rfl | ha
      · exact (inside caller (by simp)).backAtCall _
      · exact inside a (by simp [ha])

/-- **What an effect does to a consistent execution.** -/
theorem perform_consistent {effect : Effect} {op : Opcode}
    (h : Execution.Sound base ⟨m, frame, callers⟩) (hm : m.Consistent)
    (inside : ∀ a ∈ frame :: callers, a.In m.heap)
    (hf : m.library.function? frame.function = some f) (hop : f.chunk.opcode? frame.pc = some op)
    (of : effect.Of m.library.functions op frame.pc) (he : effect.In m.heap) :
    (perform effect f m frame callers).Consistent := by
  have fits := (h.library.function _ f hf).instruction _ op hop
  have hs := h.here hf
  have here := inside frame List.mem_cons_self
  have outer : ∀ a ∈ callers, a.In m.heap := fun a ha => inside a (List.mem_cons_of_mem frame ha)
  have moved : ∀ frame' : Frame, frame'.native = none → frame'.In m.heap →
      Execution.Consistent ⟨m, frame', callers⟩ := fun frame' hn' inside' =>
    .ofFrames hm hn' hc fun a ha => by
      rcases List.mem_cons.mp ha with rfl | ha
      · exact inside'
      · exact outer a ha
  cases effect with
  | next => exact moved _ hn (here.withPc _)
  | write dst v =>
    have stored : dst.toNat < frame.file.values.size := hs.size ▸ fits.register of
    obtain ⟨function, ⟨values, allocated⟩, pc, handlers, link, native⟩ := frame
    rw [perform_write stored]
    refine moved _ hn ⟨fun x hx => ?_, here.result⟩
    rcases Array.mem_or_eq_of_mem_setIfInBounds hx with hx | rfl
    · exact here.registers x hx
    · exact he
  | jump target =>
    have shown := branchTo_shows h hn hf (Nat.le_of_lt (fits.target target of))
    have arrived : Status.Consistent
        (.running ⟨m.plain, { frame with pc := target }, callers.map Frame.suspended⟩) := by
      refine Execution.Consistent.ofFrames (Machine.consistent_plain.mpr hm) hn (fun a ha => ?_)
        fun a ha => ?_
      · obtain ⟨b, -, rfl⟩ := List.mem_map.mp ha
        exact b.native_suspended
      · rcases List.mem_cons.mp ha with rfl | ha
        · exact here.withPc target
        · obtain ⟨b, hb, rfl⟩ := List.mem_map.mp ha
          rw [Frame.suspended_of_none (hc b hb)]
          exact outer b hb
    exact Status.consistent_settled.mp (shown.settled ▸ arrived)
  | ret v => exact finish_consistent hc hm he inside
  | call callee =>
    obtain ⟨-, dst, result, -, fresh⟩ := of
    refine Execution.Consistent.ofFrames (hm.congr rfl rfl rfl rfl rfl) fresh.native
      (fun a ha => ?_) fun a ha => ?_
    · rcases List.mem_cons.mp ha with rfl | ha
      · exact hn
      · exact hc a ha
    · rcases List.mem_cons.mp ha with rfl | ha
      · exact he
      · rcases List.mem_cons.mp ha with rfl | ha
        · exact here.withPc _
        · exact outer a ha
  | guard k => exact moved _ hn ⟨here.registers, here.result⟩
  | unguard => exact moved _ hn ⟨here.registers, here.result⟩

/-- What an instruction gives on the registers of a consistent execution. -/
theorem interpret_consistent (h : Execution.Sound base ⟨m, frame, callers⟩) (hm : m.Consistent)
    (inside : ∀ a ∈ frame :: callers, a.In m.heap)
    (hf : m.library.function? frame.function = some f) :
    (interpret f m frame callers).Consistent := by
  cases hop : f.chunk.opcode? frame.pc with
  | none =>
    simp only [interpret, hop]
    exact finish_consistent hc hm trivial inside
  | some op =>
    have fits := (h.library.function _ f hf).instruction _ op hop
    have steady : MachineM.Steady m.library.functions
        (MachineM.exec f frame.file.values frame.pc op) _ _ :=
      MachineM.exec_steady fits (h.here hf).size
    have maintained : MachineM.Maintains m.library.functions m.heap
        (MachineM.exec f frame.file.values frame.pc op) Effect.In :=
      MachineM.exec_maintains (h.library.child _ f hf)
        (inside frame List.mem_cons_self).registers frame.pc op
    rw [interpret_eq hop]
    cases result : MachineM.exec f frame.file.values frame.pc op m with
    | ok effect m' =>
      obtain ⟨kept, of⟩ := steady.ok m effect m' rfl result
      obtain ⟨advances, he⟩ := maintained.ok m effect m' rfl hm (.refl _) result
      exact perform_consistent hn hc (h.keeps kept) advances.consistent
        (fun a ha => (inside a ha).grows advances.heap) (kept.library ▸ hf) hop
        (kept.library ▸ of) he
    | error e m' =>
      obtain ⟨-, -, fault⟩ := steady.error m e m' rfl result
      obtain ⟨advances, exception, known⟩ := maintained.error m e m' rfl hm (.refl _) result
      exact unwind_consistent hn hc advances.consistent ⟨exception, fault.resolved known⟩
        fun a ha => (inside a ha).grows advances.heap

end Interpreted

/-! ## Steps -/

namespace Execution

variable {x y : Execution}

/-- **A step keeps executions consistent.** -/
theorem Consistent.step (h : x.Consistent) (sound : x.Sound base) : x.step.Consistent := by
  have settled := consistent_settled.mpr h
  have native : x.settled.frame.native = none := x.frame.native_settled
  have callers : ∀ a ∈ x.settled.callers, a.native = none := by
    intro a ha
    obtain ⟨b, -, rfl⟩ := List.mem_map.mp ha
    exact b.native_suspended
  have seen : x.settled.step.Consistent := by
    obtain ⟨f, hf, -⟩ := sound.settled.frame
    rw [Execution.step_interpreted native hf]
    refine interpret_consistent native callers sound.settled settled.machine
      (fun a ha => ?_) hf
    rcases List.mem_cons.mp ha with rfl | ha
    · have := settled.frame
      rwa [Frame.settled_of_none native] at this
    · have := settled.callers a ha
      rwa [Frame.suspended_of_none (callers a ha)] at this
  have advances := sound.advances
  generalize x.step = s at advances
  cases advances with
  | step shown =>
    exact Status.consistent_settled.mp (shown.settled ▸ Status.consistent_settled.mpr seen)
  | leave _ same => exact consistent_settled.mp (same ▸ settled)

theorem Leads.consistent (h : x.Leads y) (sound : x.Sound base) (consistent : x.Consistent) :
    y.Consistent := by
  induction h with
  | refl => exact consistent
  | tail before next ih =>
    have stepped := ih.step (Leads.sound before sound)
    rw [next] at stepped
    exact stepped

/-- A run ends consistently. -/
theorem Consistent.run (h : x.Consistent) (sound : x.Sound base) {fuel : Nat} {m : Machine}
    {r : Outcome Value} (ran : x.run fuel = some (m, r)) : (Status.finished m r).Consistent := by
  induction fuel generalizing x with
  | zero => cases ran
  | succ fuel ih =>
    have stepped := h.step sound
    have sound' := sound.step
    rw [Execution.run.eq_def] at ran
    cases hs : x.step with
    | running y =>
      rw [hs] at stepped sound'
      simp only [hs] at ran
      exact ih stepped sound' ran
    | finished m' r' =>
      rw [hs] at stepped
      simp only [hs, Option.some.injEq, Prod.mk.injEq] at ran
      obtain ⟨rfl, rfl⟩ := ran
      exact stepped

/-- A failing instruction of a consistent execution misses nothing. -/
theorem Consistent.fails (h : x.Consistent) (sound : x.Sound base) {e : Failure} {m : Machine}
    (fails : x.Fails e m) : e.In m.heap := by
  obtain ⟨f, op, hf, hop, result⟩ := fails
  obtain ⟨g, hg, hs⟩ := sound.frame
  cases hg.symm.trans hf
  have fits := (sound.library.function _ f hf).instruction _ op hop
  obtain ⟨-, -, fault⟩ := (MachineM.exec_steady fits hs.settled.size).error _ e m rfl result
  have maintained : MachineM.Maintains x.machine.library.functions x.machine.heap
      (MachineM.exec f x.frame.settled.file.values x.frame.pc op) Effect.In :=
    MachineM.exec_maintains (sound.library.child _ f hf) h.frame.registers _ op
  obtain ⟨-, exception, known⟩ := maintained.error _ e m rfl h.machine (.refl _) result
  exact ⟨exception, fault.resolved known⟩

end Execution

end RegisterVm
