import RegisterVm.Proofs.Machine.Executions

/-!
# Footprints of instructions

The registers that an instruction names are its footprint: it does the same in frames that differ in
other registers at most (`Opcode.Alike`), and leaves all other registers alone (`Opcode.Spares`).
The result of a call goes to a register in the footprint of the call, however long the call takes.
`Machine.footprints` states this for all instructions and for the executions of calls, in the
interpreter and in compiled loops.
-/

namespace RegisterVm

/-! ## Frames -/

/-- Two frames that differ at most in registers that an instruction does not name. -/
structure Opcode.Alike (op : Opcode) (frame other : Frame) : Prop where
  function : other.function = frame.function
  pc : other.pc = frame.pc
  handlers : other.handlers = frame.handlers
  caller : other.caller = frame.caller
  registers : op.Agree frame.file.values other.file.values

/-- The registers that an instruction does not name are alike in two frames. -/
def Opcode.Spares (op : Opcode) (frame frame' : Frame) : Prop :=
  ∀ i, (∀ r ∈ op.registers, r.toNat ≠ i) → frame'.file.values[i]? = frame.file.values[i]?

theorem Effect.frame_of_apply {effect : Effect} {frame : Frame} {values : Array Value}
    (applied : effect.apply frame.file.values = .ok values) :
    effect.frame frame = .ok (effect.advance (frame.withValues values)) := by
  simp only [Effect.frame, applied]
  rfl

@[simp] theorem Effect.file_advance (effect : Effect) (frame : Frame) :
    (effect.advance frame).file = frame.file := by
  cases effect <;> rfl

/-- Frames that are alike for an instruction stay so where its effect leads. -/
theorem Opcode.Alike.advance {op : Opcode} {frame other : Frame} (h : op.Alike frame other)
    (effect : Effect) : op.Alike (effect.advance frame) (effect.advance other) := by
  obtain ⟨function, pc, handlers, caller, registers⟩ := h
  have registers' :
      op.Agree (effect.advance frame).file.values (effect.advance other).file.values := by
    simpa using registers
  cases effect with
  | jump target => exact ⟨function, rfl, handlers, caller, registers'⟩
  | guard k => exact ⟨function, congrArg (· + 1) pc, congrArg (k :: ·) handlers, caller, registers'⟩
  | unguard =>
    exact ⟨function, congrArg (· + 1) pc, congrArg List.tail handlers, caller, registers'⟩
  | next | write | ret | call =>
    exact ⟨function, congrArg (· + 1) pc, handlers, caller, registers'⟩

/-- **An effect stays in the footprint** of its instruction, and does the same in frames that are
alike for it. -/
theorem Effect.Of.frame {fs : Array LoadedFunction} {op : Opcode} {effect : Effect} {pc : Nat}
    {frame other : Frame} (of : effect.Of fs op pc) (alike : op.Alike frame other)
    (inside : ∀ r ∈ op.registers, r.toNat < frame.file.values.size) :
    ∃ frame' other', effect.frame frame = .ok frame' ∧ effect.frame other = .ok other' ∧
      op.Alike frame' other' ∧ op.Spares frame frame' ∧ op.Spares other other' := by
  obtain ⟨values, ws, applied, applied', -, agree, kept⟩ :=
    of.apply alike.registers (alike.registers.size ▸ inside)
  have changed : op.Alike (frame.withValues values) (other.withValues ws) :=
    ⟨alike.function, alike.pc, alike.handlers, alike.caller, agree⟩
  refine ⟨_, _, frame_of_apply applied, frame_of_apply applied', changed.advance effect,
    fun i hi => ?_, fun i hi => ?_⟩
  · rw [file_advance]
    exact (kept i hi).1
  · rw [file_advance]
    exact (kept i hi).2

/-! ## Executions -/

namespace Execution

variable {x y : Execution} {base : Nat}

/-- An instruction that neither returns nor calls changes registers in its footprint only. -/
theorem Sound.spares (h : x.Sound base) {f : LoadedFunction} {op : Opcode} {effect : Effect}
    {m : Machine} (succeeds : x.Succeeds f op effect m) {frame : Frame}
    (framed : effect.frame x.frame.settled = .ok frame) : op.Spares x.frame.settled frame := by
  obtain ⟨-, of, -⟩ := h.succeeds succeeds
  have fits := (h.library.function _ f succeeds.function).instruction _ op succeeds.opcode
  have same : op.Alike x.frame.settled x.frame.settled := ⟨rfl, rfl, rfl, rfl, rfl, fun _ _ => rfl⟩
  have inside : ∀ r ∈ op.registers, r.toNat < x.frame.settled.file.values.size := by
    intro r hr
    rw [(h.here succeeds.function).settled.size]
    exact fits.register hr
  obtain ⟨frame', -, framed', -, -, spares, -⟩ := of.frame same inside
  cases framed.symm.trans framed'
  exact spares

end Execution

namespace Machine

variable {m : Machine} {x y : Execution}

/-- **The result of a call** is stored when its function ends, in a register in the footprint of the
call. Everything else in the frame of the caller is as it was at the call. -/
theorem Executes.ends (executes : m.Executes x) (inUse : m.InUse)
    (smooth : ∀ e m', ¬x.Fails e m') (stepped : x.step = .running y)
    (fewer : y.callers.length < x.callers.length) :
    ∃ z f op callee m₁ link v m₂, m.Executes z ∧ z.Leads x ∧ z.Succeeds f op (.call callee) m₁ ∧
      link.callPc = z.frame.pc ∧ link.dst ∈ op.registers ∧ x.frame.caller = some link ∧
      x.Returns v m₂ ∧ y.callers = z.callers ∧
      y.frame.settled = { z.frame.settled.withValues
        (z.frame.settled.file.values.setIfInBounds link.dst.toNat (link.result.getD v)) with
          pc := z.frame.pc + 1 } := by
  have sound := executes.sound inUse
  cases hc : x.callers with
  | nil =>
    rw [hc] at fewer
    cases fewer
  | cons caller rest =>
    obtain ⟨v, m₂, link, returns, hl, callers, ended⟩ := sound.step_of_end smooth stepped hc fewer
    obtain ⟨z, z', before, called, leads, outer, calls⟩ :=
      executes.called inUse (show x.callers = [] ++ caller :: rest from hc)
    have sound' := before.sound inUse
    obtain ⟨f, op, callee, m₁, succeeds⟩ := sound'.succeeds_of_deeper called
      (by rw [calls.callers]; exact Nat.lt_succ_self _)
    obtain ⟨-, -, g, waiting, suspended⟩ := sound'.step_of_call succeeds called
    obtain rfl : g = caller := (List.cons.inj (waiting.symm.trans calls.callers)).1
    -- The caller waits at the call of `z`, so the register of the link is one that the call names.
    have waits := sound.waiting
    rw [hl, hc] at waits
    cases waits with
    | @call f' _ _ _ _ hf waits =>
      obtain ⟨waits', function, -⟩ := waits.suspended
      have address : link.callPc = z.frame.pc := by
        have there := waits'.interpreted g.native_suspended
        rw [suspended] at there
        exact (Nat.succ.inj there).symm
      have known : z.machine.library.function? z.frame.function = some f' := by
        have same : g.function = z.frame.function := by
          rw [← function, suspended, Frame.function_settled]
        have functions := (Execution.Leads.continues (.head called leads) sound').functions
        rw [functions, same] at hf
        exact hf
      cases succeeds.function.symm.trans known
      have opcode := waits.opcode
      rw [address] at opcode
      cases succeeds.opcode.symm.trans opcode
      rw [suspended] at ended
      exact ⟨z, f, op, callee, m₁, link, v, m₂, before, .head called leads, succeeds, address,
        waits.dst, hl, returns, callers.trans outer.symm, ended⟩

/-- **Footprints.** On every machine in use

* an instruction of a loaded function does the same in two frames that differ at most in registers
  that it does not name: it has the same effect or the same failure, and leaves the same machine.
  The effect leads to frames that are alike again, and changes none of the registers that are not
  named;
* in the executions of calls, in the interpreter and in compiled loops, an effect that neither
  returns nor calls is what the step does to the running frame, and a call leaves the frame as it
  is, with a register in the footprint of the call for the result;
* a function that ends gives its result to its caller, which goes on with the frame that it had at
  the call: only that register has changed. -/
theorem footprints {m : Machine} (inUse : m.InUse) :
    (∀ {f : LoadedFunction} {op : Opcode} {frame other : Frame},
      m.library.function? frame.function = some f → f.chunk.opcode? frame.pc = some op →
      frame.file.values.size = f.chunk.registerCount.toNat → op.Alike frame other →
      ∀ m' : Machine,
        MachineM.exec f other.file.values other.pc op m' =
          MachineM.exec f frame.file.values frame.pc op m' ∧
        ∀ {effect : Effect} {m'' : Machine},
          MachineM.exec f frame.file.values frame.pc op m' = .ok effect m'' →
          ∃ frame' other', effect.frame frame = .ok frame' ∧ effect.frame other = .ok other' ∧
            op.Alike frame' other' ∧ op.Spares frame frame' ∧ op.Spares other other') ∧
    (∀ {x y : Execution} {f : LoadedFunction} {op : Opcode} {effect : Effect} {m' : Machine},
      m.Executes x → x.Succeeds f op effect m' → x.step = .running y → (∀ v, effect ≠ .ret v) →
      ((∀ callee, effect ≠ .call callee) →
        effect.frame x.frame.settled = .ok y.frame.settled ∧ y.callers = x.callers ∧
          op.Spares x.frame.settled y.frame.settled) ∧
      ∀ callee, effect = .call callee → y.frame.settled = callee ∧
        (∃ dst result, callee.caller = some ⟨dst, x.frame.pc, result⟩ ∧ dst ∈ op.registers) ∧
        ∃ g, y.callers = g :: x.callers ∧
          g.suspended = { x.frame.settled with pc := x.frame.pc + 1 }) ∧
    ∀ {x y : Execution}, m.Executes x → (∀ e m', ¬x.Fails e m') → x.step = .running y →
      y.callers.length < x.callers.length →
      ∃ z f op callee m₁ link v m₂, m.Executes z ∧ z.Leads x ∧ z.Succeeds f op (.call callee) m₁ ∧
        link.callPc = z.frame.pc ∧ link.dst ∈ op.registers ∧ x.frame.caller = some link ∧
        x.Returns v m₂ ∧ y.callers = z.callers ∧
        y.frame.settled = { z.frame.settled.withValues
          (z.frame.settled.file.values.setIfInBounds link.dst.toNat (link.result.getD v)) with
            pc := z.frame.pc + 1 } := by
  refine ⟨fun {f op frame other} hf hop size alike m' => ?_,
    fun {x y f op effect m'} executes succeeds stepped stays => ⟨fun calls => ?_, ?_⟩,
    fun executes smooth stepped fewer => executes.ends inUse smooth stepped fewer⟩
  · have fits := (inUse.reached.sound.function _ f hf).instruction _ op hop
    refine ⟨?_, fun {effect m''} result => ?_⟩
    · rw [alike.pc, MachineM.exec_congr fits alike.registers]
    · have steady : MachineM.Steady m'.library.functions
          (MachineM.exec f frame.file.values frame.pc op) _ _ := MachineM.exec_steady fits size
      obtain ⟨-, of⟩ := steady.ok m' effect m'' rfl result
      exact of.frame alike fun r hr => size.symm ▸ fits.register hr
  · have sound := executes.sound inUse
    obtain ⟨framed, -, callers⟩ := sound.step_of_frame succeeds stays calls stepped
    exact ⟨framed, callers, sound.spares succeeds framed⟩
  · rintro callee rfl
    have sound := executes.sound inUse
    obtain ⟨-, ⟨-, dst, result, named, fresh⟩, -⟩ := sound.succeeds succeeds
    obtain ⟨frame, -, waiting⟩ := sound.step_of_call succeeds stepped
    exact ⟨frame, ⟨dst, result, fresh.caller, named⟩, waiting⟩

/-- A function that gives 7 is called for the register 1. When it ends, the register 2 is as it was
at the call. -/
theorem footprints_call :
    ∃ (c : Chunk) (id : FunctionId) (m : Machine) (x y z : Execution),
      (start .standard).load c = .ok (id, m) ∧ m.Executes x ∧ x.step = .running y ∧
      m.Executes z ∧ z.Leads x ∧ y.frame.settled.file.values[2]? = z.frame.settled.file.values[2]? ∧
      y.frame.file.values[1]? = some (.int 7) ∧ y.frame.file.values[2]? = some (.int 5) := by
  let f : Chunk := ⟨"seven", #[⟨.loadInt ⟨0⟩ 7, none⟩, ⟨.ret ⟨0⟩, none⟩], #[], 1, 0, []⟩
  let c : Chunk := ⟨"main", #[⟨.makeFunction ⟨0⟩ 0, none⟩, ⟨.loadInt ⟨2⟩ 5, none⟩,
    ⟨.call ⟨1⟩ ⟨0⟩ ⟨0⟩ 0, none⟩, ⟨.ret ⟨1⟩, none⟩], #[], 3, 0, [f]⟩
  obtain
      ⟨m, load, x, runs, y, stepped, fewer, link, hl, dst, one, two, g, op, effect, m₁, succeeds⟩ :
      ∃ m, (start .standard).load c = .ok (1, m) ∧ ∃ x, m.Runs 1 [] x ∧ ∃ y,
        x.step = .running y ∧ y.callers.length < x.callers.length ∧ ∃ link,
          x.frame.caller = some link ∧ link.dst = ⟨1⟩ ∧ y.frame.file.values[1]? = some (.int 7) ∧
          y.frame.file.values[2]? = some (.int 5) ∧ ∃ f op effect m₁,
            x.Succeeds f op effect m₁ := by
    refine ⟨_, rfl, _, ⟨_, _, rfl, .tail (.tail (.tail (.tail .refl rfl) rfl) rfl) rfl⟩, _, rfl, ?_,
      _, rfl, rfl, rfl, rfl, _, _, _, _, ⟨rfl, rfl, rfl⟩⟩
    exact Nat.zero_lt_one
  have executes : m.Executes x := .ofRuns (fun v hv => by cases hv) runs
  obtain ⟨-, -, ends⟩ := footprints (.load (.start .standard) load)
  obtain ⟨z, -, -, -, -, link', v, -, before, leads, -, -, -, hl', -, -, ended⟩ :=
    ends executes (fun e m' => succeeds.not_fails) stepped fewer
  cases hl.symm.trans hl'
  refine ⟨c, 1, m, x, y, z, load, executes, stepped, before, leads, ?_, one, two⟩
  rw [ended, dst]
  exact Array.getElem?_setIfInBounds_ne (by decide)

end Machine

end RegisterVm
