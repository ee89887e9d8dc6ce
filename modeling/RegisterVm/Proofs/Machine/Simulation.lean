import RegisterVm.Proofs.Machine.Control

/-!
# The interpreter simulates compiled loops

`runNative_spec` and `help_spec` say what an instruction of a compiled loop comes to. With them one
step of a sound execution keeps it sound and is one step of the interpreter on the settled execution
(`Execution.Sound.advances`). The only exception is the step by which a compiled loop is left before
a return: the interpreter does not see it.
-/

namespace RegisterVm

variable {base : Nat} {m m' : Machine} {frame : Frame} {callers : List Frame} {f : LoadedFunction}
  {op : Opcode} {n : NativeRegisters} {ws : Array Value}

/-! ## The interpreter -/

namespace Status.Shows

/-- A running status is seen alike on the plain machine. -/
theorem running_mk (h : Execution.Sound base ⟨m, frame, callers⟩) :
    Shows base (.running ⟨m, frame, callers⟩)
      (Status.running ⟨m.plain, frame, callers.map Frame.suspended⟩).settled :=
  ⟨h, congrArg Status.running (Execution.settled_mk m frame callers).symm⟩

end Status.Shows

theorem perform_write {values : Array Value} {dst : Register} (h : dst.toNat < values.size)
    {v : Value} {function : FunctionId} {allocated : Bool} {pc : Nat} {handlers : List Handler}
    {link : Option CallerLink} {native : Option NativeRegisters} :
    perform (.write dst v) f m ⟨function, ⟨values, allocated⟩, pc, handlers, link, native⟩ callers =
      .running ⟨m, ⟨function, ⟨values.setIfInBounds dst.toNat v, allocated⟩, pc + 1, handlers, link,
        native⟩, callers⟩ :=
  if_pos h

/-- **What an effect does to an execution.** -/
theorem perform_shows {effect : Effect} (h : Execution.Sound base ⟨m, frame, callers⟩)
    (hn : frame.native = none) (hf : m.library.function? frame.function = some f)
    (hop : f.chunk.opcode? frame.pc = some op)
    (of : effect.Of m.library.functions op frame.pc) :
    (perform effect f m frame callers).Shows base
      (perform effect f m.plain frame (callers.map Frame.suspended)).settled := by
  have hs := h.here hf
  have fits := (h.library.function _ f hf).instruction _ op hop
  have bound := Chunk.lt_of_opcode? hop
  obtain ⟨function, ⟨values, allocated⟩, pc, handlers, link, native⟩ := frame
  obtain rfl : native = none := hn
  have sound : ∀ (values' : Array Value) (handlers' : List Handler), values'.size = values.size →
      (∀ g ∈ handlers', g.address < f.chunk.instructions.size ∧
        g.dst.toNat < f.chunk.registerCount.toNat) →
      Frame.Sound f ⟨function, ⟨values', allocated⟩, pc + 1, handlers', link, none⟩ :=
    fun _ _ size handlers => ⟨size.trans hs.size, bound, handlers, fun n hn => by cases hn⟩
  have next := sound values handlers rfl hs.handlers
  cases effect with
  | next => exact .running_mk (h.replace hf rfl rfl next)
  | write dst v =>
    have inside : dst.toNat < values.size := hs.size ▸ fits.register of
    rw [perform_write inside, perform_write inside]
    exact .running_mk (h.replace hf rfl rfl (sound _ handlers (by simp) hs.handlers))
  | jump target =>
    have shown := branchTo_shows h rfl hf (Nat.le_of_lt (fits.target target of))
    have plain := branchTo_shows h.settled rfl hf (Nat.le_of_lt (fits.target target of))
    refine ⟨shown.sound, shown.settled.trans (plain.settled.trans ?_).symm⟩
    exact congrArg Status.running (Execution.settled_mk m
      ⟨function, ⟨values, allocated⟩, target, handlers, link, none⟩ callers)
  | ret v => exact (finish_shows h v).fixed
  | call callee =>
    obtain ⟨isCall, dst, result, hdst, fresh⟩ := of
    have waits : Frame.Waits f ⟨dst, pc, result⟩ op
        ⟨function, ⟨values, allocated⟩, pc + 1, handlers, link, none⟩ :=
      ⟨next, hop, isCall, hdst, fun _ => rfl, fun n hn => by cases hn⟩
    exact .running_mk (h.push hf waits rfl rfl fresh)
  | guard g =>
    obtain ⟨target, dst, rfl, rfl⟩ := of
    refine .running_mk (h.replace hf rfl rfl (sound values _ rfl ?_))
    intro g hg
    rcases List.mem_cons.mp hg with rfl | hg
    · exact ⟨fits.target _ rfl, fits.register (by simp [Opcode.spans])⟩
    · exact hs.handlers g hg
  | unguard =>
    refine .running_mk (h.replace hf rfl rfl (sound values _ rfl ?_))
    exact fun g hg => hs.handlers g (List.mem_of_mem_tail hg)

/-- **An instruction in the interpreter.** -/
theorem interpret_shows (h : Execution.Sound base ⟨m, frame, callers⟩) (hn : frame.native = none)
    (hf : m.library.function? frame.function = some f) :
    (interpret f m frame callers).Shows base
      (interpret f m.plain frame (callers.map Frame.suspended)).settled := by
  cases hop : f.chunk.opcode? frame.pc with
  | none =>
    simp only [interpret, hop]
    exact (finish_shows h _).fixed
  | some op =>
    have fits := (h.library.function _ f hf).instruction _ op hop
    have steady : MachineM.Steady m.library.functions
        (MachineM.exec f frame.file.values frame.pc op) _ _ :=
      MachineM.exec_steady fits (h.here hf).size
    rw [interpret_eq hop, interpret_eq hop, steady.plain m rfl]
    cases result : MachineM.exec f frame.file.values frame.pc op m with
    | ok effect m' =>
      obtain ⟨kept, of⟩ := steady.ok m effect m' rfl result
      exact perform_shows (h.keeps kept) hn (kept.library ▸ hf) hop (kept.library ▸ of)
    | error e m' =>
      obtain ⟨kept, -⟩ := steady.error m e m' rfl result
      have shown := unwind_shows (h.keeps kept) e
      rw [Frame.settled_of_none hn] at shown
      exact shown.fixed

/-! ## Compiled loops -/

/-- Two files that agree in the registers of an instruction also do so after its effect, which
changes no other register. -/
theorem Effect.Of.apply {fs : Array LoadedFunction} {effect : Effect} {pc : Nat}
    {values : Array Value} (of : effect.Of fs op pc) (agree : op.Agree values ws)
    (inside : ∀ r ∈ op.registers, r.toNat < ws.size) :
    ∃ values' ws', effect.apply values = .ok values' ∧ effect.apply ws = .ok ws' ∧
      ws'.size = ws.size ∧ op.Agree values' ws' ∧
      ∀ i, (∀ r ∈ op.registers, r.toNat ≠ i) → values'[i]? = values[i]? ∧ ws'[i]? = ws[i]? := by
  cases effect with
  | write dst v =>
    have bound := inside dst of
    refine ⟨_, _, if_pos (agree.size ▸ bound), if_pos bound, by simp,
      ⟨by simpa using agree.size, ?_⟩, fun i hi => ?_⟩
    · intro r hr
      simp only [Array.getElem?_setIfInBounds, agree.size, agree.register r hr]
    · have other := hi dst of
      exact ⟨Array.getElem?_setIfInBounds_ne other, Array.getElem?_setIfInBounds_ne other⟩
  | next | jump | ret | call | guard | unguard =>
    exact ⟨values, ws, rfl, rfl, rfl, agree, fun _ _ => ⟨rfl, rfl⟩⟩

/-- Going on after a helper step is what the effect does in the interpreter. -/
theorem afterHelper_shows {effect : Effect} {target : Option Nat} {ws' : Array Value}
    (h : Execution.Sound base ⟨m, frame, callers⟩) (hn : frame.native = none)
    (hf : m.library.function? frame.function = some f) (hop : f.chunk.opcode? frame.pc = some op)
    (code : n.loop.Translates f.chunk) (inside : n.loop.range.contains frame.pc = true)
    (of : effect.Of m.library.functions op frame.pc) (noReturn : ¬op.IsReturn)
    (ht : target = op.branchTarget?) (size : ws.size = frame.file.values.size)
    (applied : effect.apply ws = .ok ws') (holds : n.Holds frame.file.values ws')
    (agree : op.Agree frame.file.values ws') :
    (afterHelper effect target n m frame callers).Shows base
      (perform effect f m.plain (frame.withValues ws) (callers.map Frame.suspended)).settled := by
  have hs := h.here hf
  have fits := (h.library.function _ f hf).instruction _ op hop
  have bound := Chunk.lt_of_opcode? hop
  have goOn := fun target (bound : target ≤ f.chunk.instructions.size) =>
    continueAt_shows h hn hf holds code bound
  obtain ⟨function, ⟨values, allocated⟩, pc, handlers, link, native⟩ := frame
  obtain rfl : native = none := hn
  cases effect with
  | next =>
    cases applied
    exact (goOn _ bound).fixed
  | write dst v =>
    have stored : dst.toNat < ws.size := size ▸ hs.size ▸ fits.register of
    rw [Effect.apply, RegisterFile.set, if_pos stored] at applied
    cases applied
    rw [Frame.withValues, perform_write stored]
    exact (goOn _ bound).fixed
  | jump t =>
    cases applied
    have chosen : target.getD (pc + 1) = t := by
      rw [ht, show op.branchTarget? = some t from of]
      rfl
    have sound : Execution.Sound base
        ⟨m, ⟨function, ⟨ws, allocated⟩, pc, handlers, link, none⟩, callers⟩ := h.interpreted size
    have interpreted := perform_shows sound rfl hf hop of
    have branched := branchTo_shows sound rfl hf (Nat.le_of_lt (fits.target t of))
    have shown := goOn t (Nat.le_of_lt (fits.target t of))
    refine ⟨by simpa only [afterHelper, chosen] using shown.sound, ?_⟩
    simp only [afterHelper, chosen]
    exact shown.settled.trans (branched.settled.symm.trans interpreted.settled)
  | ret v => exact absurd of noReturn
  | call callee =>
    cases applied
    obtain ⟨isCall, dst, result, hdst, fresh⟩ := of
    have waits : Frame.Waits f ⟨dst, pc, result⟩ op
        ⟨function, ⟨values, allocated⟩, pc, handlers, link, some n⟩ := by
      refine ⟨⟨hs.size, hs.pc, hs.handlers, fun n' hn' => ?_⟩, hop, isCall, hdst,
        (fun hn => by cases hn), fun n' hn' => ?_⟩
      · cases hn'
        exact ⟨code, inside, ws, holds⟩
      · cases hn'
        exact ⟨rfl, ws, holds, agree.register⟩
    have entered := Status.Shows.running_mk (h.push hf waits rfl rfl fresh)
    rw [List.map_cons, Frame.suspended_inLoop holds] at entered
    exact entered
  | guard g =>
    obtain ⟨target, dst, rfl, -⟩ := of
    cases code.noHandler pc _ inside hop
  | unguard =>
    obtain rfl := of
    cases code.noHandler pc _ inside hop

/-- What a helper step comes to where the registers hold `ws`: the failure of the instruction on
`ws`, or its effect on registers that hold the values after it. -/
inductive Helped (f : LoadedFunction) (op : Opcode) (target : Option Nat) (loop : CompiledLoop)
    (ws : Array Value) (m : Machine) (frame : Frame) (callers : List Frame) : Status → Prop
  | failed {e : Failure} {m' : Machine} {n : NativeRegisters} {values : Array Value} :
    MachineM.exec f ws frame.pc op m = .error e m' → n.loop = loop → n.Holds values ws →
    Helped f op target loop ws m frame callers
      (unwind e m' { frame.withValues values with native := some n } callers)
  | applied {effect : Effect} {m' : Machine} {n : NativeRegisters} {values ws' : Array Value} :
    MachineM.exec f ws frame.pc op m = .ok effect m' → effect.apply ws = .ok ws' →
    ws'.size = ws.size → n.loop = loop → n.Holds values ws' → op.Agree values ws' →
    Helped f op target loop ws m frame callers
      (afterHelper effect target n m' (frame.withValues values) callers)

/-- **A helper step runs the instruction on the values that are held.** -/
theorem help_spec (target : Option Nat) (h : Execution.Sound base ⟨m, frame, callers⟩)
    (hf : m.library.function? frame.function = some f) (hop : f.chunk.opcode? frame.pc = some op)
    (holds : n.Holds frame.file.values ws) (code : n.loop.Translates f.chunk)
    (inside : n.loop.range.contains frame.pc = true) :
    Helped f op target n.loop ws m frame callers (help f op target n m frame callers) := by
  have fits := (h.library.function _ f hf).instruction _ op hop
  have mapped := code.mapped _ op inside hop
  have size : ws.size = f.chunk.registerCount.toNat := holds.size.symm.trans (h.here hf).size
  obtain ⟨values', decoded, holds', agree⟩ := holds.decode mapped
  have same : MachineM.exec f values' frame.pc op = MachineM.exec f ws frame.pc op :=
    MachineM.exec_congr fits ⟨holds'.size, agree⟩
  have slotsSize := holds'.size_copySlots op.registers
  cases result : MachineM.exec f ws frame.pc op m with
  | error e m' =>
    -- The registers of the instruction are taken back also when it fails.
    have taken := holds'.reload mapped slotsSize holds'.size rfl agree fun _ _ => ⟨rfl, rfl⟩
    simp only [help, MachineM.helperStep, decoded, same, result]
    exact .failed result rfl taken
  | ok effect m' =>
    have steady : MachineM.Steady m.library.functions (MachineM.exec f ws frame.pc op) _ _ :=
      MachineM.exec_steady fits size
    obtain ⟨-, of⟩ := steady.ok m effect m' rfl result
    obtain ⟨values₁, ws₁, apply, apply', size₁, agree₁, others⟩ :=
      of.apply ⟨holds'.size, agree⟩ fun r hr => size.symm ▸ fits.register hr
    have taken := holds'.reload mapped slotsSize agree₁.size size₁ agree₁.register others
    simp only [help, MachineM.helperStep, decoded, same, result, apply]
    exact .applied result apply' size₁ rfl taken agree₁

/-- A helper step fails as its instruction does. -/
theorem help_fails (target : Option Nat) (h : Execution.Sound base ⟨m, frame, callers⟩)
    (hf : m.library.function? frame.function = some f) (hop : f.chunk.opcode? frame.pc = some op)
    (holds : n.Holds frame.file.values ws) (code : n.loop.Translates f.chunk)
    (inside : n.loop.range.contains frame.pc = true) {e : Failure}
    (result : MachineM.exec f ws frame.pc op m = .error e m') :
    ∃ frame', help f op target n m frame callers = unwind e m' frame' callers ∧
      Execution.Sound base ⟨m', frame', callers⟩ ∧
      frame'.settled = { frame.withValues ws with native := none } := by
  have hs := h.here hf
  have fits := (h.library.function _ f hf).instruction _ op hop
  have size : ws.size = f.chunk.registerCount.toNat := holds.size.symm.trans hs.size
  have spec := help_spec target h hf hop holds code inside
  generalize help f op target n m frame callers = s at spec ⊢
  cases spec with
  | applied result' => cases result'.symm.trans result
  | failed result' same taken =>
    rename_i n' values
    cases result'.symm.trans result
    obtain ⟨kept, -⟩ := (MachineM.exec_steady fits size).error m e m' rfl result
    have sound : Frame.Sound f { frame.withValues values with native := some n' } := by
      refine ⟨taken.size.trans size, hs.pc, hs.handlers, fun n'' hn => ?_⟩
      cases hn
      exact ⟨same ▸ code, same ▸ inside, ws, taken⟩
    exact ⟨_, rfl, (h.keeps kept).replace (kept.library ▸ hf) rfl rfl sound,
      Frame.settled_inLoop taken⟩

/-- **A helper step** of a compiled loop is the instruction in the interpreter. -/
theorem help_shows {target : Option Nat} (h : Execution.Sound base ⟨m, frame, callers⟩)
    (hn : frame.native = none) (hf : m.library.function? frame.function = some f)
    (hop : f.chunk.opcode? frame.pc = some op) (holds : n.Holds frame.file.values ws)
    (code : n.loop.Translates f.chunk) (inside : n.loop.range.contains frame.pc = true)
    (noReturn : ¬op.IsReturn) (ht : target = op.branchTarget?) :
    (help f op target n m frame callers).Shows base
      (interpret f m.plain (frame.withValues ws) (callers.map Frame.suspended)).settled := by
  have hs := h.here hf
  have fits := (h.library.function _ f hf).instruction _ op hop
  have size : ws.size = f.chunk.registerCount.toNat := holds.size.symm.trans hs.size
  have steady : MachineM.Steady m.library.functions (MachineM.exec f ws frame.pc op) _ _ :=
    MachineM.exec_steady fits size
  have hop' : f.chunk.opcode? (frame.withValues ws).pc = some op := hop
  have ran : MachineM.exec f (frame.withValues ws).file.values (frame.withValues ws).pc op m.plain =
      MachineM.plainResult (MachineM.exec f ws frame.pc op m) := steady.plain m rfl
  rw [interpret_eq hop', ran]
  cases result : MachineM.exec f ws frame.pc op m with
  | error e m' =>
    obtain ⟨frame', failed, sound, settled⟩ := help_fails target h hf hop holds code inside result
    have shown := unwind_shows sound e
    have interpreted : { frame.withValues ws with native := none } = frame.withValues ws := by
      rw [← hn]
      rfl
    rw [settled, interpreted, ← failed] at shown
    exact shown.fixed
  | ok effect m' =>
    obtain ⟨kept, of⟩ := steady.ok m effect m' rfl result
    have spec := help_spec target h hf hop holds code inside
    generalize help f op target n m frame callers = s at spec ⊢
    cases spec with
    | failed result' => cases result'.symm.trans result
    | applied result' applied size₁ same holds₁ agree₁ =>
      rename_i n' values₁ ws₁
      cases result'.symm.trans result
      have sound : Frame.Sound f (frame.withValues values₁) :=
        ⟨(holds₁.size.trans size₁).trans size, hs.pc, hs.handlers, fun n hn' => by
          cases hn.symm.trans hn'⟩
      have helped : Execution.Sound base ⟨m', frame.withValues values₁, callers⟩ :=
        (h.keeps kept).replace (kept.library ▸ hf) rfl rfl sound
      exact afterHelper_shows helped hn (kept.library ▸ hf) hop (same ▸ code) (same ▸ inside)
        (kept.library ▸ of) noReturn ht (holds₁.size.trans size₁).symm applied holds₁ agree₁

/-- What the instruction `op` of a compiled loop comes to where the registers hold `ws`: its native
form goes on as the instruction does on `ws` or leaves it to a helper step, and a return leaves the
loop. -/
inductive RanNative (f : LoadedFunction) (op : Opcode) (n : NativeRegisters) (ws : Array Value)
    (m : Machine) (frame : Frame) (callers : List Frame) : Status → Prop
  | next : MachineM.exec f ws frame.pc op m = .ok .next m →
    RanNative f op n ws m frame callers (continueAt n (frame.pc + 1) m frame callers)
  | write (dst : Register) (v : Value) : dst ∈ op.registers →
    MachineM.exec f ws frame.pc op m = .ok (.write dst v) m →
    RanNative f op n ws m frame callers
      (continueAt { n with vars := storeSlot n.vars dst (.ofValue v) } (frame.pc + 1) m frame
        callers)
  | jump (target : Nat) : MachineM.exec f ws frame.pc op m = .ok (.jump target) m →
    RanNative f op n ws m frame callers (continueAt n target m frame callers)
  | general (target : Option Nat) : ¬op.IsReturn → target = op.branchTarget? →
    RanNative f op n ws m frame callers (help f op target n m frame callers)
  | leave : op.IsReturn → RanNative f op n ws m frame callers
    (.running ⟨m, { frame.withValues ws with native := none }, callers⟩)
  | failed (e : Failure) : MachineM.exec f ws frame.pc op m = .error e m →
    RanNative f op n ws m frame callers (unwind e m { frame with native := some n } callers)

/-- **Compiled code runs its instructions on the values that are held.** -/
theorem runNative_spec (h : Execution.Sound base ⟨m, frame, callers⟩)
    (hf : m.library.function? frame.function = some f) (hop : f.chunk.opcode? frame.pc = some op)
    (holds : n.Holds frame.file.values ws) (code : n.loop.Translates f.chunk)
    (inside : n.loop.range.contains frame.pc = true) :
    RanNative f op n ws m frame callers (runNative f n m frame callers) := by
  have fits := (h.library.function _ f hf).instruction _ op hop
  have form := code.form _ op inside hop
  have size : ws.size = f.chunk.registerCount.toNat := holds.size.symm.trans (h.here hf).size
  have agrees := NativeForm.run_agrees (m := m) fits size fun r hr =>
    holds.held r (code.mapped _ op inside hop r hr)
  have left := holds.leave
  obtain ⟨loop, vars, slots⟩ := n
  simp only [runNative, form, hop]
  simp only at agrees
  generalize (NativeForm.ofOpcode f.chunk op).run m.heap vars frame.pc = outcome at agrees ⊢
  cases agrees with
  | next result => exact .next result
  | write dst v hdst result => exact .write dst v hdst result
  | jump target result => exact .jump target result
  | general target noReturn target' => exact .general target noReturn target'
  | leave isReturn =>
    simp only [left]
    exact .leave isReturn
  | failed e result => exact .failed e result

/-- **An instruction of a compiled loop** is the instruction in the interpreter, unless the loop is
left at it before a return. -/
theorem runNative_shows (h : Execution.Sound base ⟨m, frame, callers⟩) (hn : frame.native = none)
    (hf : m.library.function? frame.function = some f) (holds : n.Holds frame.file.values ws)
    (code : n.loop.Translates f.chunk) (inside : n.loop.range.contains frame.pc = true) :
    (runNative f n m frame callers).Shows base
        (interpret f m.plain (frame.withValues ws) (callers.map Frame.suspended)).settled ∨
      (runNative f n m frame callers = .running ⟨m, frame.withValues ws, callers⟩ ∧
        ∃ op, f.chunk.opcode? frame.pc = some op ∧ op.IsReturn) := by
  have hs := h.here hf
  obtain ⟨op, hop⟩ := code.opcode inside
  have fits := (h.library.function _ f hf).instruction _ op hop
  have bound := Chunk.lt_of_opcode? hop
  have size : ws.size = f.chunk.registerCount.toNat := holds.size.symm.trans hs.size
  have spec := runNative_spec h hf hop holds code inside
  obtain ⟨function, ⟨values, allocated⟩, pc, handlers, link, native⟩ := frame
  obtain rfl : native = none := hn
  have interpreted : Execution.Sound base
      ⟨m, ⟨function, ⟨ws, allocated⟩, pc, handlers, link, none⟩, callers⟩ :=
    h.interpreted holds.size.symm
  -- What the interpreter does with the values of the loop decides what it sees.
  have through : ∀ {s : Status},
      interpret f m ⟨function, ⟨ws, allocated⟩, pc, handlers, link, none⟩ callers = s →
      ∀ {t : Status}, t.Shows base s.settled →
      t.Shows base (interpret f m.plain ⟨function, ⟨ws, allocated⟩, pc, handlers, link, none⟩
        (callers.map Frame.suspended)).settled := by
    rintro s rfl t shown
    rwa [← (interpret_shows interpreted rfl hf).settled]
  have ran := interpret_eq (show f.chunk.opcode?
    (Frame.pc ⟨function, ⟨ws, allocated⟩, pc, handlers, link, none⟩) = some op from hop) m callers
  simp only at ran
  generalize runNative f n m _ callers = s at spec ⊢
  cases spec with
  | next result =>
    rw [result] at ran
    exact .inl (through ran (continueAt_shows h rfl hf holds code bound))
  | write dst v hdst result =>
    have stored : dst.toNat < ws.size := size ▸ fits.register hdst
    have holds' := holds.store (code.mapped _ op inside hop dst hdst) v
    rw [result] at ran
    exact .inl (through (ran.trans (perform_write stored))
      (continueAt_shows h rfl hf holds' code bound))
  | jump target result =>
    have steady : MachineM.Steady m.library.functions (MachineM.exec f ws pc op) _ _ :=
      MachineM.exec_steady fits size
    have target' := Nat.le_of_lt (fits.target target (steady.ok m _ _ rfl result).2)
    have shown := continueAt_shows h rfl hf holds code target'
    have branched := branchTo_shows interpreted rfl hf target'
    simp only [Frame.withValues] at shown
    rw [← branched.settled] at shown
    rw [result] at ran
    exact .inl (through ran shown)
  | general target noReturn target' =>
    subst target'
    exact .inl (help_shows h rfl hf hop holds code inside noReturn rfl)
  | leave isReturn => exact .inr ⟨rfl, op, hop, isReturn⟩
  | failed e result =>
    have sound : Execution.Sound base
        ⟨m, ⟨function, ⟨values, allocated⟩, pc, handlers, link, some n⟩, callers⟩ := by
      refine h.replace hf rfl rfl ⟨hs.size, hs.pc, hs.handlers, fun n' hn' => ?_⟩
      cases hn'
      exact ⟨code, inside, ws, holds⟩
    have shown := unwind_shows sound e
    have interpreted := unwind_shows interpreted e
    rw [Frame.settled_inLoop holds] at shown
    rw [Frame.settled_of_none rfl] at interpreted
    rw [← interpreted.settled] at shown
    rw [result] at ran
    exact .inl (through ran shown)

/-! ## Steps -/

/-- What a step of `x` leads to: what a step of the interpreter leads to, or the same execution in
the interpreter where a compiled loop was left before a return. -/
inductive Execution.Advances (base : Nat) (x : Execution) : Status → Prop
  | step {s : Status} : s.Shows base x.settled.step.settled → Advances base x s
  | leave {x' : Execution} {f : LoadedFunction} {op : Opcode} : x'.Sound base →
    x'.settled = x.settled → x'.frame.native = none →
    x.machine.library.function? x.frame.function = some f →
    f.chunk.opcode? x.frame.pc = some op → op.IsReturn → Advances base x (.running x')

/-- A step of a frame in the interpreter. -/
theorem Execution.step_interpreted (hn : frame.native = none)
    (hf : m.library.function? frame.function = some f) :
    Execution.step ⟨m, frame, callers⟩ = interpret f m frame callers := by
  obtain ⟨function, file, pc, handlers, link, native⟩ := frame
  obtain rfl : native = none := hn
  have here : m.library.function? function = some f := hf
  simp only [Execution.step, here]

namespace Execution.Sound

variable {x : Execution}

/-- A step in the interpreter is the step of the settled execution. -/
theorem step_shows (h : x.Sound base) (hn : x.frame.native = none) :
    x.step.Shows base x.settled.step.settled := by
  obtain ⟨m, ⟨function, file, pc, handlers, link, native⟩, callers⟩ := x
  obtain rfl : native = none := hn
  obtain ⟨f, hf, -⟩ := h.frame
  have here : m.library.function? function = some f := hf
  have shown := interpret_shows h rfl hf
  simpa only [Execution.step, Execution.settled, Frame.settled_of_none, Machine.function?_plain,
    here] using shown

/-- **One step of a sound execution.** -/
theorem advances (h : x.Sound base) : x.Advances base x.step := by
  cases hn : x.frame.native with
  | none => exact .step (h.step_shows hn)
  | some n =>
    obtain ⟨m, ⟨function, ⟨values, allocated⟩, pc, handlers, link, native⟩, callers⟩ := x
    obtain rfl : native = some n := hn
    obtain ⟨f, hf, hs⟩ := h.frame
    have here : m.library.function? function = some f := hf
    obtain ⟨code, inside, ws, holds⟩ := hs.native n rfl
    have interpreted : Execution.Sound base
        ⟨m, ⟨function, ⟨values, allocated⟩, pc, handlers, link, none⟩, callers⟩ := h.interpreted rfl
    have ran := runNative_shows interpreted rfl hf holds code inside
    have stepped : (Execution.mk m ⟨function, ⟨values, allocated⟩, pc, handlers, link, some n⟩
        callers).step = runNative f n m ⟨function, ⟨values, allocated⟩, pc, handlers, link, none⟩
          callers := by
      simp only [Execution.step, here]
    have seen : (Execution.mk m ⟨function, ⟨values, allocated⟩, pc, handlers, link, some n⟩
        callers).settled = ⟨m.plain, ⟨function, ⟨ws, allocated⟩, pc, handlers, link, none⟩,
          callers.map Frame.suspended⟩ := by
      simp only [Execution.settled, Frame.settled_inLoop holds]
    have held : Execution.Sound base
        ⟨m, ⟨function, ⟨ws, allocated⟩, pc, handlers, link, none⟩, callers⟩ :=
      h.interpreted holds.size.symm
    rw [stepped]
    rcases ran with shown | ⟨left, op, hop, isReturn⟩
    · refine .step ?_
      rw [seen]
      simpa only [Execution.step, Machine.function?_plain, here, Frame.withValues] using shown
    · rw [left]
      exact .leave held (by rw [seen]; rfl) rfl here hop isReturn

/-- Executions stay sound. -/
theorem step (h : x.Sound base) : x.step.Sound base := by
  have advances := h.advances
  generalize x.step = s at advances
  cases advances with
  | step shown => exact shown.sound
  | leave sound => exact sound

end Execution.Sound

end RegisterVm
