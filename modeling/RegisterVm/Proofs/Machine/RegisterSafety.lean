import RegisterVm.Proofs.Machine.Unwinding

/-!
# Accesses to registers

Verification bounds the registers that an instruction names, but not where an empty range of
registers starts. `Machine.register_accesses` says for every execution of a call that all accesses
to registers are inside the file with that one exception: an instruction fails on registers exactly
when it takes an empty range behind the file (`Opcode.EmptyWithin`, `MachineM.takesRange`).
-/

namespace RegisterVm

/-- Every register and every range of registers that an instruction names is inside a file of `size`
registers, empty ranges included. -/
structure Opcode.Within (op : Opcode) (size : Nat) : Prop where
  register : ∀ r ∈ op.registers, r.toNat < size
  range : ∀ s ∈ op.spans, s.start.toNat + s.count ≤ size

/-- Every empty range of registers starts inside a file of `size` registers or right behind it. -/
def Opcode.EmptyWithin (op : Opcode) (size : Nat) : Prop :=
  ∀ s ∈ op.spans, s.count = 0 → s.start.toNat ≤ size

/-- Whether a fault is an access to registers outside their file. -/
def Fault.ofRegisters : Fault → Bool
  | registerOutside _ _ | windowOutside _ _ _ => true
  | _ => false

theorem Fault.ofRegisters_of_ofInstruction {fault : Fault} (h : fault.ofInstruction = true) :
    fault.ofRegisters = false := by
  cases fault <;> first | rfl | cases h

/-- A frame of a function has the registers of the function, among them those of its handlers and
those that its compiled loop reads and writes. -/
structure Frame.Within (f : LoadedFunction) (frame : Frame) : Prop where
  size : frame.file.values.size = f.chunk.registerCount.toNat
  handlers : ∀ h ∈ frame.handlers, h.dst.toNat < frame.file.values.size
  loop : ∀ n, frame.native = some n → ∀ r ∈ n.loop.registers, r.toNat < frame.file.values.size

theorem Frame.Sound.within {f : LoadedFunction} {frame : Frame} (h : frame.Sound f) :
    frame.Within f where
  size := h.size
  handlers g hg := h.size ▸ (h.handlers g hg).2
  loop n hn r hr := by
    obtain ⟨-, -, ws, holds⟩ := h.native n hn
    exact holds.size ▸ holds.inside r hr

/-- Every waiting caller is sound in its function. -/
theorem Waiting.sound {fs : Array LoadedFunction} {link : Option CallerLink} {callers : List Frame}
    (h : Waiting fs link callers) {frame : Frame} (mem : frame ∈ callers) :
    ∃ f, fs[frame.function]? = some f ∧ frame.Sound f := by
  induction h with
  | outside => cases mem
  | call hf waits _ ih =>
    rcases List.mem_cons.mp mem with rfl | mem
    · exact ⟨_, hf, waits.sound⟩
    · exact ih mem

/-- The register for the result of a call is one of the caller. -/
theorem Waiting.dst_within {l : Library} (sound : l.Sound) {link : Option CallerLink}
    {callers : List Frame} (h : Waiting l.functions link callers) {frame a b : Frame}
    {inner outer : List Frame} (hl : frame.caller = link)
    (split : frame :: callers = inner ++ a :: b :: outer) :
    ∃ link', a.caller = some link' ∧ link'.dst.toNat < b.file.values.size := by
  induction h generalizing frame inner with
  | outside =>
    have := congrArg List.length split
    simp at this
    omega
  | call hf waits _ ih =>
    cases inner with
    | nil =>
      obtain ⟨rfl, tail⟩ := List.cons.inj split
      obtain ⟨rfl, -⟩ := List.cons.inj tail
      have fits := (sound.function _ _ hf).instruction _ _ waits.opcode
      exact ⟨_, hl, waits.sound.size ▸ fits.register waits.dst⟩
    | cons c inner => exact ih rfl (List.cons.inj split).2

/-! ## Ranges -/

namespace MachineM

/-- Whether a call of `callable` gets as far as taking its arguments from the file. -/
def takesArguments (callable : Callable) (argc : UInt32) : MachineM Bool :=
  match callable with
  | .cls handle => do
    let _ ← instantiate handle argc.toNat
    return (← initialiser? handle).isSome
  | _ => return true

/-- Whether an instruction gets as far as taking a range of registers from the file. -/
def takesRange (f : LoadedFunction) (values : Array Value) : Opcode → MachineM Bool
  | .build .. => return true
  | .callMethod _ obj name _ argc => do
    let v ← reg values obj
    takesArguments (← onHeap (HeapM.callableMethod v (← nameOf f name))) argc
  | .call _ callee _ argc => do
    let v ← reg values callee
    takesArguments (← read fun h => h.callable v) argc
  | _ => return false

/-- An operation that fails with `fault` where `probe` says so, and otherwise does not fail on
registers. -/
structure Guarded (probe : MachineM Bool) (fault : Fault) (operation : MachineM Effect) :
    Prop where
  taken : ∀ m m', probe m = .ok true m' → operation m = .error (.ofFault fault) m'
  other : ∀ m e m', operation m = .error e m' → e.fault.ofRegisters = true → probe m = .ok true m'

namespace Guarded

variable {fault : Fault} {α : Type} {post : α → Prop}

theorem refused : Guarded (pure true) fault (fail fault) where
  taken m m' h := by
    cases h
    rfl
  other m e m' h _ := by
    cases h
    rfl

theorem pure (effect : Effect) : Guarded (Pure.pure false) fault (Pure.pure effect) where
  taken m m' h := by cases h
  other m e m' h _ := by cases h

theorem bind {first : MachineM α} {probe : α → MachineM Bool} {operation : α → MachineM Effect}
    (steady : ∀ fs, Steady fs first post fun fault => fault.ofRegisters = false)
    (rest : ∀ a, Guarded (probe a) fault (operation a)) :
    Guarded (first >>= probe) fault (first >>= operation) := by
  constructor
  · intro m m' h
    simp only [Bind.bind, EStateM.bind] at h ⊢
    cases result : first m with
    | ok a m₁ =>
      rw [result] at h
      exact (rest a).taken m₁ m' h
    | error e m₁ =>
      rw [result] at h
      cases h
  · intro m e m' h registers
    simp only [Bind.bind, EStateM.bind] at h ⊢
    cases result : first m with
    | ok a m₁ =>
      rw [result] at h
      exact (rest a).other m₁ e m' h registers
    | error e₁ m₁ =>
      rw [result] at h
      cases h
      obtain ⟨-, -, ordinary⟩ := (steady _).error m e m' rfl result
      rw [ordinary] at registers
      cases registers

end Guarded

section Beyond

variable {values : Array Value} {f : LoadedFunction} {pc : Nat}

theorem window_beyond {start : Register} (h : values.size < start.toNat) :
    window values start 0 = fail (.windowOutside start.toNat 0 values.size) := by
  funext m
  simp only [window, RegisterFile.window, if_neg (show ¬start.toNat + 0 ≤ values.size by omega)]
  rfl

/-- A call with an empty range of arguments behind the file. -/
theorem invoke_beyond {callable : Callable} {dst args : Register} {argc : UInt32}
    (none : argc.toNat = 0) (h : values.size < args.toNat) :
    Guarded (takesArguments callable argc) (.windowOutside args.toNat 0 values.size)
      (invoke values pc callable dst args argc) := by
  have ordinary : ∀ fault : Fault, fault.aboutValues = true → fault.ofRegisters = false :=
    fun _ about => Fault.ofRegisters_of_ofInstruction (Fault.ofInstruction_of_aboutValues about)
  cases callable with
  | function | builtin | builtinMethod | exceptionClass =>
    simp only [invoke, none, window_beyond h]
    exact .refused
  | cls handle =>
    refine .bind (fun _ => steady_instantiate handle _ ordinary) fun v =>
      .bind (fun _ => steady_initialiser? handle ordinary) fun found => ?_
    cases found with
    | none => exact .pure _
    | some id =>
      simp only [none, window_beyond h]
      exact .refused

/-- An instruction with an empty range behind the file. -/
theorem exec_beyond {op : Opcode} (fits : op.Fits f.chunk f.children.size pc)
    (size : values.size = f.chunk.registerCount.toNat) (beyond : ¬op.EmptyWithin values.size) :
    ∃ start : Register, Guarded (takesRange f values op)
      (.windowOutside start.toNat 0 values.size) (exec f values pc op) := by
  have ordinary : ∀ fault : Fault, fault.aboutValues = true → fault.ofRegisters = false :=
    fun _ about => Fault.ofRegisters_of_ofInstruction (Fault.ofInstruction_of_aboutValues about)
  obtain ⟨s, hs, count, behind⟩ : ∃ s ∈ op.spans, s.count = 0 ∧ values.size < s.start.toNat := by
    simpa [Opcode.EmptyWithin] using beyond
  have reg : ∀ r ∈ op.registers, ∀ fs, Steady fs (reg values r) (fun _ => True)
      fun fault => fault.ofRegisters = false := fun r hr fs =>
    steady_reg (size ▸ fits.register hr)
  cases op with
  | build form dst start count' =>
    simp only [Opcode.spans, List.mem_cons, List.not_mem_nil, or_false] at hs
    rcases hs with rfl | rfl
    · cases count
    · refine ⟨start, ?_⟩
      have refused := window_beyond behind
      simp only at count refused
      simp only [exec, takesRange, count, refused]
      exact .refused
  | call dst callee args argc =>
    simp only [Opcode.spans, List.mem_cons, List.not_mem_nil, or_false] at hs
    rcases hs with rfl | rfl | rfl
    · cases count
    · cases count
    · exact ⟨args, .bind (reg callee (by simp [Opcode.spans])) fun v =>
        .bind (fun fs => .read (fun h => h.orderly_callable v) ordinary) fun callable =>
          invoke_beyond count behind⟩
  | callMethod dst obj name args argc =>
    obtain ⟨text, named⟩ := fits.name name rfl
    simp only [Opcode.spans, List.mem_cons, List.not_mem_nil, or_false] at hs
    rcases hs with rfl | rfl | rfl
    · cases count
    · cases count
    · refine ⟨args, ?_⟩
      simp only [exec, takesRange, nameOf_eq named, pure_bind]
      exact .bind (reg obj (by simp [Opcode.spans])) fun v =>
        .bind (fun fs => .onHeap (HeapM.orderly_callableMethod v text) ordinary) fun callable =>
          invoke_beyond count behind
  | makeClass dst name body base => cases base <;> grind [Opcode.spans, RegisterSpan.single]
  | _ => grind [Opcode.spans, RegisterSpan.single]

end Beyond

end MachineM

/-! ## Instructions -/

namespace Opcode

variable {op : Opcode} {f : LoadedFunction} {pc size : Nat}

/-- **The exact condition** under which an instruction stays inside the file of its function. -/
theorem Fits.within_iff (h : op.Fits f.chunk f.children.size pc)
    (hs : size = f.chunk.registerCount.toNat) : op.Within size ↔ op.EmptyWithin size := by
  constructor
  · intro within s hs _
    have := within.range s hs
    omega
  · intro empty
    refine ⟨fun r hr => hs ▸ h.register hr, fun s hs' => ?_⟩
    have filled := h.spans s hs'
    have start := empty s hs'
    omega

end Opcode

namespace Execution

variable {base : Nat} {x : Execution} {f : LoadedFunction} {op : Opcode}

/-- **The exact condition** under which an instruction fails on registers. -/
theorem Sound.fails_ofRegisters_iff (h : x.Sound base)
    (hf : x.machine.library.function? x.frame.function = some f)
    (hop : f.chunk.opcode? x.frame.pc = some op) :
    (∃ e m', x.Fails e m' ∧ e.fault.ofRegisters = true) ↔
      ¬op.EmptyWithin f.chunk.registerCount.toNat ∧
        ∃ m', MachineM.takesRange f x.frame.settled.file.values op x.machine = .ok true m' := by
  have fits := (h.library.function _ f hf).instruction _ op hop
  have size := (h.here hf).settled.size
  have guarded : ¬op.EmptyWithin f.chunk.registerCount.toNat → ∃ start : Register,
      MachineM.Guarded (MachineM.takesRange f x.frame.settled.file.values op)
        (.windowOutside start.toNat 0 x.frame.settled.file.values.size)
        (MachineM.exec f x.frame.settled.file.values x.frame.pc op) := fun beyond =>
    MachineM.exec_beyond fits size (size.symm ▸ beyond)
  constructor
  · rintro ⟨e, m', ⟨g, op', hg, hop', result⟩, registers⟩
    obtain rfl : f = g := Option.some.inj (hf.symm.trans hg)
    obtain rfl : op = op' := Option.some.inj (hop.symm.trans hop')
    have beyond : ¬op.EmptyWithin f.chunk.registerCount.toNat := by
      intro empty
      obtain ⟨-, -, fault⟩ := (MachineM.exec_steady fits size).error _ e m' rfl result
      rcases fault with ordinary | ⟨s, hs, count, behind, -⟩
      · rw [Fault.ofRegisters_of_ofInstruction ordinary] at registers
        cases registers
      · have := empty s hs count
        omega
    obtain ⟨start, guarded⟩ := guarded beyond
    exact ⟨beyond, m', guarded.other _ e m' result registers⟩
  · rintro ⟨beyond, m', taken⟩
    obtain ⟨start, guarded⟩ := guarded beyond
    exact ⟨_, m', ⟨f, op, hf, hop, guarded.taken _ m' taken⟩, rfl⟩

end Execution

namespace Machine

/-- **Accesses to registers.** In every execution of a call

* each active frame has the registers of its function, among them those of its handlers and of the
  compiled loop it is in, and the result of a call goes to a register of the caller;
* every register that the instruction names is inside the file, and its ranges are exactly when the
  empty ones start inside the file or right behind it;
* the instruction fails on registers exactly when it has an empty range behind the file and gets as
  far as taking it. Building a container always does, a call does when it needs its arguments. -/
theorem register_accesses {m : Machine} {id : FunctionId} {args : List Value} {x : Execution}
    (reached : m.Reached) (runs : m.Runs id args x) :
    (∀ a ∈ x.frame :: x.callers,
      ∃ f, x.machine.library.function? a.function = some f ∧ a.Within f) ∧
    (∀ {inner outer : List Frame} {a b : Frame}, x.frame :: x.callers = inner ++ a :: b :: outer →
      ∃ link, a.caller = some link ∧ link.dst.toNat < b.file.values.size) ∧
    ∀ {f : LoadedFunction} {op : Opcode},
      x.machine.library.function? x.frame.function = some f → f.chunk.opcode? x.frame.pc = some op →
      (∀ r ∈ op.registers, r.toNat < x.frame.file.values.size) ∧
      (op.Within x.frame.file.values.size ↔ op.EmptyWithin x.frame.file.values.size) ∧
      ((∃ e m', x.Fails e m' ∧ e.fault.ofRegisters = true) ↔
        ¬op.EmptyWithin x.frame.file.values.size ∧
          ∃ m', MachineM.takesRange f x.frame.settled.file.values op x.machine = .ok true m') := by
  have sound := runs.sound reached
  refine ⟨fun a ha => ?_, fun split => sound.waiting.dst_within sound.library rfl split,
    fun {f op} hf hop => ?_⟩
  · rcases List.mem_cons.mp ha with rfl | ha
    · obtain ⟨f, hf, hs⟩ := sound.frame
      exact ⟨f, hf, hs.within⟩
    · obtain ⟨f, hf, hs⟩ := sound.waiting.sound ha
      exact ⟨f, hf, hs.within⟩
  · have hs := sound.here hf
    have fits := (sound.library.function _ f hf).instruction _ op hop
    rw [hs.size]
    exact ⟨fun r hr => fits.register hr, fits.within_iff rfl, sound.fails_ofRegisters_iff hf hop⟩

/-- A verified chunk can fail on its registers: it builds a list from an empty range that starts
behind the file. -/
theorem register_accesses_sharp :
    ∃ (c : Chunk) (id : FunctionId) (m : Machine) (x : Execution), c.verify = .ok () ∧
      (start .standard).load c = .ok (id, m) ∧ m.Runs id [] x ∧
      ∃ e m', x.Fails e m' ∧ e.fault.ofRegisters = true := by
  let c : Chunk := ⟨"main", #[⟨.build .list ⟨0⟩ ⟨100⟩ 0, none⟩, ⟨.retNone, none⟩], #[], 1, 0, []⟩
  obtain ⟨m, load, x, runs, f, hf, hop, size⟩ : ∃ m, (start .standard).load c = .ok (0, m) ∧
      ∃ x, m.Runs 0 [] x ∧ ∃ f, x.machine.library.function? x.frame.function = some f ∧
        f.chunk.opcode? x.frame.pc = some (.build .list ⟨0⟩ ⟨100⟩ 0) ∧
        x.frame.file.values.size = 1 :=
    ⟨_, rfl, _, ⟨_, _, rfl, .refl⟩, _, rfl, rfl, rfl⟩
  obtain ⟨-, -, instruction⟩ := register_accesses (.load (.start .standard) load) runs
  obtain ⟨-, -, fails⟩ := instruction hf hop
  rw [size] at fails
  refine ⟨c, 0, m, x, rfl, load, runs, fails.mpr ⟨fun empty => ?_, _, rfl⟩⟩
  have start : 100 ≤ 1 := empty ⟨⟨100⟩, 0⟩ (by simp [Opcode.spans, BuildForm.width]) rfl
  omega

end Machine

end RegisterVm
