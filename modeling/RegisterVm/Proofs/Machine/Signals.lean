import RegisterVm.Proofs.Machine.Executions

/-!
# Signals stay inside

Three kinds of errors are signals between the parts of a machine (`ErrorKind.isSignal`). No
instruction fails with one of them, so no handler and no host gets one
(`Machine.signals_stay_inside`). A signal of a primitive operation is answered by the general
operation or by an error that programs see (`HeapM.Answers`), a signal of the compiler by going on
in the interpreter (`promote_rejected`).
-/

namespace RegisterVm

/-! ## Kinds of signals -/

/-- The kinds that parts of the machine tell each other and nobody else. -/
def ErrorKind.isSignal : ErrorKind → Bool
  | typeMismatch | integerOverflow | jitCompileUnsupported => true
  | _ => false

theorem Fault.visible_of_ofInstruction {fault : Fault} (h : fault.ofInstruction = true) :
    fault.kind.isSignal = false := by
  cases fault with
  | stated kind text =>
    obtain rfl : kind = .uncaughtException := of_decide_eq_true h
    rfl
  | _ => first | rfl | cases h

/-- An instruction does not fail with a signal. -/
theorem Opcode.MayFail.visible {op : Opcode} {size : Nat} {fault : Fault}
    (h : op.MayFail size fault) : fault.kind.isSignal = false := by
  rcases h with ordinary | ⟨s, -, -, -, rfl⟩
  · exact Fault.visible_of_ofInstruction ordinary
  · rfl

/-! ## Signals of primitive operations -/

/-- The fault behind a signal is of the kind of the signal. -/
theorem BinaryOperator.kind_fault (op : BinaryOperator) (signal : ErrorKind) :
    (op.fault signal).kind = signal := by
  unfold BinaryOperator.fault
  split <;> rfl

/-- The signals that have a fault about values. -/
theorem BinaryOperator.signal_of_fault {op : BinaryOperator} {signal : ErrorKind}
    (h : (op.fault signal).aboutValues = true) :
    signal = .divisionByZero ∨ signal = .valueError := by
  unfold BinaryOperator.fault at h
  split at h
  · exact .inl rfl
  · exact .inl rfl
  · exact .inl rfl
  · exact .inl rfl
  · exact .inr rfl
  · exact .inr rfl
  · cases h

namespace HeapM

/-- An operation that does on every heap what the general one does, or fails with a type error, a
division by zero or a value error and leaves the heap as it was. -/
def Answers (operation general : HeapM Value) : Prop :=
  ∀ h, operation h = general h ∨ ∃ fault, operation h = .error (.ofFault fault) h ∧
    (fault.kind = .typeError ∨ fault.kind = .divisionByZero ∨ fault.kind = .valueError)

/-- **A signal of a primitive operator is answered.** -/
theorem answers_binary {op : BinaryOperator} {a b : Value} {kind : ErrorKind}
    (signal : Primitive.binary op a b = .error kind) :
    Answers (binary op a b) (generalBinary op a b) := by
  intro h
  unfold binary
  split
  · rw [signal]
    -- Apart from the two fallbacks a signal must be one whose fault is about values.
    have kinds := (Primitive.fault_of_binary signal).imp_right BinaryOperator.signal_of_fault
    cases kind with
    | integerOverflow => exact .inl rfl
    | typeMismatch => exact .inr ⟨h.unsupported op a b, rfl, .inl rfl⟩
    | divisionByZero => exact .inr ⟨_, rfl, .inr (.inl (op.kind_fault _))⟩
    | valueError => exact .inr ⟨_, rfl, .inr (.inr (op.kind_fault _))⟩
    | _ => rcases kinds with fallback | same | same <;> contradiction
  · exact .inl rfl

/-- **A signal of a primitive sign or inversion is answered.** -/
theorem answers_unary {op : UnaryOperator} {a : Value} {kind : ErrorKind} (sign : op ≠ .not)
    (signal : Primitive.unary op a = .error kind) : Answers (unary op a) (generalUnary op a) := by
  intro h
  unfold unary
  rw [if_neg sign]
  split
  · rw [signal]
    cases kind with
    | integerOverflow => exact .inl rfl
    | _ => exact .inr ⟨.badUnaryOperand op.symbol (h.typeText a), rfl, .inl rfl⟩
  · exact .inl rfl

end HeapM

/-! ## Signals of the compiler -/

/-- **A loop that cannot be compiled is rejected**, and nothing else happens. -/
theorem promote_rejected {f : LoadedFunction} {record : LoopRecord} {fault : Fault}
    (failed : CompiledLoop.compile f.chunk record.range = .error fault) (id : FunctionId)
    (m : Machine) (frame : Frame) :
    (promote id f record m frame).2 = frame ∧ (promote id f record m frame).1.plain = m.plain ∧
      (promote id f record m frame).1.events =
        m.events.push (.rejected f.chunk.name record.range.header fault.message) := by
  simp only [promote, failed, true_and]
  exact ⟨rfl, rfl⟩

/-! ## Signals in executions -/

section Unwind

variable {base : Nat} {m m' : Machine} {frame : Frame} {callers : List Frame} {e e' : Failure}

/-- A failure has the same fault in every frame that it leaves. -/
theorem unwind_fault (h : Execution.Sound base ⟨m, frame, callers⟩)
    (ended : unwind e m frame callers = .finished m' (.error e')) : e'.fault = e.fault := by
  rcases unwind_outcome h (P := fun left _ => left.fault = e.fault)
    (fun entry file same => same) rfl with
    ⟨e₁, m₁, y, -, -, resumed⟩ | ⟨e₁, m₁, same, finished⟩
  · cases resumed.symm.trans ended
  · cases finished.symm.trans ended
    exact same

end Unwind

namespace Execution

variable {base : Nat} {x : Execution} {m : Machine} {e : Failure} {r : Outcome Value} {fuel : Nat}

/-- **No instruction fails with a signal.** -/
theorem Sound.fails_visible (h : x.Sound base) (fails : x.Fails e m) :
    e.kind.isSignal = false := by
  obtain ⟨f, op, hf, hop, result⟩ := fails
  have fits := (h.library.function _ f hf).instruction _ op hop
  obtain ⟨-, -, fault⟩ :=
    (MachineM.exec_steady fits (h.here hf).settled.size).error _ e m rfl result
  exact fault.visible

/-- An execution does not end with a signal. -/
theorem Sound.finished_visible (h : x.Sound base) (ended : x.step = .finished m (.error e)) :
    e.kind.isSignal = false := by
  obtain ⟨e', m', fails⟩ := h.fails_of_finished ended
  obtain ⟨frame, stepped, sound, -⟩ := h.step_of_fails fails
  have same := unwind_fault sound (stepped.symm.trans ended)
  have visible := h.fails_visible fails
  rw [Failure.kind] at visible ⊢
  rwa [same]

/-- A run that has an answer comes to a step that ends it. -/
theorem ends_of_run (ran : x.run fuel = some (m, r)) :
    ∃ y, x.Leads y ∧ y.step = .finished m r := by
  induction fuel generalizing x with
  | zero => cases ran
  | succ fuel ih =>
    cases stepped : x.step with
    | running y =>
      rw [run_step stepped] at ran
      obtain ⟨z, leads, ended⟩ := ih ran
      exact ⟨z, .head stepped leads, ended⟩
    | finished m' r' =>
      rw [run_finished stepped] at ran
      cases ran
      exact ⟨x, .refl, stepped⟩

end Execution

namespace Machine

variable {m m' : Machine} {fuel : Nat} {id : FunctionId} {args : List Value} {callee : Value}
  {e : Failure}

/-- A call of a function does not end with a signal. -/
theorem execute_visible (reached : m.Reached)
    (ran : m.execute fuel id args = some (m', .error e)) : e.kind.isSignal = false := by
  unfold execute at ran
  split at ran
  · rename_i refused
    cases ran
    obtain ⟨-, -, fault⟩ := (steady_enter m id args).error m _ _ rfl refused
    exact Fault.visible_of_ofInstruction fault
  · rename_i entered
    obtain ⟨y, leads, ended⟩ := Execution.ends_of_run ran
    exact (leads.sound (enter_sound reached.sound entered)).finished_visible ended

/-- A call of a value does not end with a signal. -/
theorem call_visible (reached : m.Reached)
    (ran : m.call fuel callee args = some (m', .error e)) : e.kind.isSignal = false := by
  rcases call_spec ran with ⟨-, about, -⟩ | ⟨m₁, id, args', r', enters, executed, same⟩
  · exact Fault.visible_of_ofInstruction (Fault.ofInstruction_of_aboutValues (about e rfl))
  · obtain rfl := same e rfl
    exact execute_visible (.other reached enters.keeps.library) executed

/-- **Signals stay inside.** On every machine in use

* no call of a function or of a value ends with a signal;
* in the executions of calls no instruction fails with a signal, in the interpreter or in a compiled
  loop, and the handler that takes a failure gets it as it is. A step in which no instruction fails
  uses no handler: it leaves them alone, drops those of a frame that ends, or changes them as its
  instruction says;
* the inline form of an instruction does what its general form does, and a signal of a primitive
  operator, sign or inversion is answered by the general operation or by an error that programs
  see. Operations on floats in the place of large integers signal type errors only, and comparing
  primitive values for equality signals nothing;
* a loop that cannot be compiled is rejected: there is an event, and nothing else happens. -/
theorem signals_stay_inside {m : Machine} (inUse : m.InUse) :
    (∀ {fuel : Nat} {id : FunctionId} {args : List Value} {m' : Machine} {e : Failure},
      m.execute fuel id args = some (m', .error e) → e.kind.isSignal = false) ∧
    (∀ {fuel : Nat} {callee : Value} {args : List Value} {m' : Machine} {e : Failure},
      m.call fuel callee args = some (m', .error e) → e.kind.isSignal = false) ∧
    (∀ {x : Execution}, m.Executes x →
      (∀ {e : Failure} {m' : Machine}, x.Fails e m' → e.kind.isSignal = false ∧
        ∀ {inner outer : List Frame} {g : Frame} {k : Handler} {rest : List Handler},
          x.frame :: x.callers = inner ++ g :: outer → (∀ a ∈ inner, a.handlers = []) →
          g.handlers = k :: rest →
          ∃ y v, x.step = .running y ∧ y.callers = outer ∧ y.frame.pc = k.address ∧
            y.frame.file.values[k.dst.toNat]? = some v ∧
            e.Delivers m'.heap v y.machine.heap) ∧
      ((∀ e m', ¬x.Fails e m') → ∀ {y : Execution}, x.step = .running y →
        y.handlers = x.handlers ∨ (∃ v m', x.Returns v m' ∧ y.handlers = x.handlers.tail) ∨
          ∃ f op effect m', x.Succeeds f op effect m' ∧
            y.handlers = effect.handlers x.handlers)) ∧
    (∀ f values pc op, MachineM.execInline f values pc op = MachineM.exec f values pc op) ∧
    (∀ {op : BinaryOperator} {a b : Value} {kind : ErrorKind},
      Primitive.binary op a b = .error kind →
      HeapM.Answers (HeapM.binary op a b) (HeapM.generalBinary op a b)) ∧
    (∀ {op : UnaryOperator} {a : Value} {kind : ErrorKind}, op ≠ .not →
      Primitive.unary op a = .error kind →
      HeapM.Answers (HeapM.unary op a) (HeapM.generalUnary op a)) ∧
    (∀ {op : BinaryOperator} {x y : Float} {kind : ErrorKind} (h : Heap) (a b : Value),
      Primitive.binary op (.float x) (.float y) = .error kind →
      h.floatBinary op a b x y = refuse (h.unsupported op a b)) ∧
    (∀ {a b : Value}, a.isObject = false → b.isObject = false → ∃ t, Primitive.equal a b = .ok t) ∧
    ∀ {f : LoadedFunction} {record : LoopRecord} {fault : Fault},
      CompiledLoop.compile f.chunk record.range = .error fault →
      ∀ (id : FunctionId) (m : Machine) (frame : Frame),
        (promote id f record m frame).2 = frame ∧ (promote id f record m frame).1.plain = m.plain ∧
          (promote id f record m frame).1.events =
            m.events.push (.rejected f.chunk.name record.range.header fault.message) := by
  refine ⟨execute_visible inUse.reached, call_visible inUse.reached,
    fun {x} executes => ⟨fun {e m'} fails => ⟨?_, fun split free hh => ?_⟩, ?_⟩,
    MachineM.execInline_eq, HeapM.answers_binary, HeapM.answers_unary, ?_,
    Primitive.equal_of_primitives, promote_rejected⟩
  · exact (executes.sound inUse).fails_visible fails
  · obtain ⟨y, frame, stepped, outer, resumes⟩ := executes.delivers inUse fails split free hh
    obtain ⟨v, delivers, stored⟩ := resumes.exception
    exact ⟨y, v, stepped, outer, resumes.address, stored, delivers⟩
  · exact fun smooth y stepped => (executes.sound inUse).handlers_step smooth stepped
  · intro op x y kind h a b signal
    obtain rfl := Primitive.typeMismatch_of_floats signal
    unfold Heap.floatBinary
    rw [signal]

/-- Adding `None` to an integer signals that the primitive operation does not apply. The handler
around it gets a type error. -/
theorem signals_stay_inside_none :
    ∃ (c : Chunk) (id : FunctionId) (m : Machine) (x : Execution) (e : Failure) (m' : Machine),
      (start .standard).load c = .ok (id, m) ∧ m.Executes x ∧ x.Fails e m' ∧
      Primitive.binary .add (.int 1) .none = .error .typeMismatch ∧ e.kind = .typeError ∧
      e.kind.isSignal = false ∧
      ∃ y v, x.step = .running y ∧ y.frame.pc = 4 ∧ y.frame.file.values[0]? = some v ∧
        e.Delivers m'.heap v y.machine.heap := by
  let c : Chunk := ⟨"main", #[⟨.pushTry 4 ⟨0⟩, none⟩, ⟨.loadInt ⟨0⟩ 1, none⟩, ⟨.loadNone ⟨1⟩, none⟩,
    ⟨.binary .add ⟨0⟩ ⟨0⟩ ⟨1⟩, none⟩, ⟨.ret ⟨0⟩, none⟩], #[], 2, 0, []⟩
  obtain ⟨m, load, x, runs, handlers, e, m', fails, kind⟩ : ∃ m,
      (start .standard).load c = .ok (0, m) ∧ ∃ x, m.Runs 0 [] x ∧
        x.frame.handlers = [⟨4, ⟨0⟩⟩] ∧ ∃ e m', x.Fails e m' ∧ e.kind = .typeError :=
    ⟨_, rfl, _, ⟨_, _, rfl, .tail (.tail (.tail .refl rfl) rfl) rfl⟩, rfl, _, _,
      ⟨_, _, rfl, rfl, rfl⟩, rfl⟩
  have executes : m.Executes x := .ofRuns (fun v hv => by cases hv) runs
  obtain ⟨-, -, inside, -⟩ := signals_stay_inside (.load (.start .standard) load)
  obtain ⟨visible, received⟩ := (inside executes).1 fails
  obtain ⟨y, v, stepped, -, address, stored, delivers⟩ :=
    received (show x.frame :: x.callers = [] ++ x.frame :: x.callers from rfl) (by simp) handlers
  exact ⟨c, 0, m, x, e, m', load, executes, fails, rfl, kind, visible, y, v, stepped, address,
    stored, delivers⟩

end Machine

end RegisterVm
