import RegisterVm.Proofs.Machine.Executions

/-!
# The depth of calls

The depth of a machine is the number of active frames, and a call is refused when as many frames are
active as the settings allow. `MachineM.enters?` says which function an instruction is about to
enter; an instruction is refused exactly when there is one and the limit is reached
(`MachineM.Limited`). So no execution has more frames than allowed, and a refused call makes no
frame (`Machine.depth_limited`).
-/

namespace RegisterVm

/-! ## Functions that are entered -/

namespace MachineM

/-- The function that a call of `callable` enters once it has taken its arguments, if any. -/
def entersCallable? (values : Array Value) (callable : Callable) (args : Register)
    (argc : UInt32) : MachineM (Option FunctionId) := do
  match callable with
  | .function id _ =>
    let _ ← window values args argc.toNat
    let _ ← function id
    return some id
  | .cls handle =>
    let _ ← instantiate handle argc.toNat
    match ← initialiser? handle with
    | some id =>
      let _ ← window values args argc.toNat
      let _ ← function id
      return some id
    | none => return none
  | _ => return none

/-- The function that an instruction is about to enter, if any. -/
def enters? (f : LoadedFunction) (values : Array Value) : Opcode → MachineM (Option FunctionId)
  | .callMethod _ obj name args argc => do
    let v ← reg values obj
    entersCallable? values (← onHeap (HeapM.callableMethod v (← nameOf f name))) args argc
  | .call _ callee args argc => do
    let v ← reg values callee
    entersCallable? values (← read fun h => h.callable v) args argc
  | _ => return none

variable {α β : Type}

/-! ## Preparing a call -/

/-- An operation that takes no register file. -/
def KeepsArena (operation : MachineM α) : Prop :=
  ∀ m a m', operation m = .ok a m' → m'.arena = m.arena

namespace KeepsArena

theorem pure (a : α) : KeepsArena (pure a) := by
  rintro m a' m' ⟨⟩
  rfl

theorem bind {operation : MachineM α} {f : α → MachineM β} (ho : KeepsArena operation)
    (hf : ∀ a, KeepsArena (f a)) : KeepsArena (operation >>= f) := by
  intro m b m' ran
  simp only [Bind.bind, EStateM.bind] at ran
  split at ran
  · rename_i first
    exact (hf _ _ _ _ ran).trans (ho _ _ _ first)
  · cases ran

theorem onHeap (operation : HeapM α) : KeepsArena (onHeap operation) := by
  intro m a m' ran
  simp only [MachineM.onHeap] at ran
  split at ran <;> cases ran
  rfl

theorem ofOutcome (o : Outcome α) : KeepsArena (ofOutcome o) := by
  intro m a m' ran
  unfold MachineM.ofOutcome at ran
  split at ran <;> cases ran
  rfl

theorem read (f : Heap → Outcome α) : KeepsArena (read f) := by
  intro m a m' ran
  unfold MachineM.read at ran
  split at ran <;> cases ran
  rfl

theorem instantiate (cls : Handle) (argumentCount : Nat) :
    KeepsArena (instantiate cls argumentCount) := by
  refine (onHeap _).bind fun v => ?_
  split
  · exact (read _).bind fun _ => pure v
  · exact pure v

end KeepsArena

/-- What is done before a function is entered is not refused at the limit and takes no register
file. -/
structure Prepares (operation : MachineM α) : Prop where
  steady : ∀ fs, Steady fs operation (fun _ => True) fun fault => fault ≠ .recursionLimit
  arena : KeepsArena operation

theorem ne_recursionLimit {fault : Fault} (h : fault.aboutValues = true) :
    fault ≠ .recursionLimit := by
  rintro rfl
  cases h

namespace Prepares

theorem onHeap {operation : HeapM α} (orderly : operation.Orderly) :
    Prepares (onHeap operation) :=
  ⟨fun _ => .onHeap orderly fun _ => ne_recursionLimit, .onHeap _⟩

theorem read {f : Heap → Outcome α} (orderly : ∀ h, (f h).Orderly) : Prepares (read f) :=
  ⟨fun _ => .read orderly fun _ => ne_recursionLimit, .read _⟩

theorem ofOutcome {o : Outcome α}
    (fault : ∀ e, o = .error e → e.trace = [] ∧ e.fault ≠ .recursionLimit) :
    Prepares (ofOutcome o) :=
  ⟨fun _ => .query (f := fun _ => o) (fun _ => rfl) (fun _ => rfl) (fun _ _ _ _ => trivial)
    fun _ => fault, .ofOutcome o⟩

theorem reg (values : Array Value) (r : Register) : Prepares (reg values r) := by
  refine ofOutcome fun e failed => ?_
  unfold RegisterFile.get at failed
  split at failed <;> cases failed
  exact ⟨rfl, fun same => by cases same⟩

theorem window (values : Array Value) (start : Register) (count : Nat) :
    Prepares (window values start count) := by
  refine ofOutcome fun e failed => ?_
  unfold RegisterFile.window at failed
  split at failed <;> cases failed
  exact ⟨rfl, fun same => by cases same⟩

theorem nameOf (f : LoadedFunction) (index : UInt32) : Prepares (nameOf f index) := by
  unfold MachineM.nameOf
  split
  · exact ⟨fun _ => .pure trivial, .pure _⟩
  · exact ⟨fun _ => .fail (fun same => by cases same), fun m a m' ran => by cases ran⟩

theorem initialiser? (cls : Handle) : Prepares (initialiser? cls) :=
  ⟨fun _ => steady_initialiser? cls fun _ => ne_recursionLimit, .read _⟩

theorem instantiate (cls : Handle) (argumentCount : Nat) :
    Prepares (instantiate cls argumentCount) :=
  ⟨fun _ => steady_instantiate cls argumentCount fun _ => ne_recursionLimit,
    .instantiate cls argumentCount⟩

end Prepares

/-! ## The limit -/

/-- An operation that is refused where `probe` finds a function to enter and the limit is reached,
and nowhere else at the limit; it calls a function only below the limit. -/
structure Limited (probe : MachineM (Option FunctionId)) (operation : MachineM Effect) :
    Prop where
  refused : ∀ m id m', m.config.maxDepth ≤ m.depth → probe m = .ok (some id) m' →
    operation m = .error (.ofFault .recursionLimit) m' ∧ m'.arena = m.arena
  limit : ∀ m e m', operation m = .error e m' → e.fault = .recursionLimit →
    m.config.maxDepth ≤ m.depth ∧ ∃ id, probe m = .ok (some id) m'
  calls : ∀ m callee m', operation m = .ok (.call callee) m' →
    m.depth < m.config.maxDepth ∧ ∃ m'', probe m = .ok (some callee.function) m''

namespace Limited

/-- An operation that enters no function. -/
theorem idle {operation : MachineM Effect}
    (steady : ∀ fs, Steady fs operation (fun effect => ∀ callee, effect ≠ .call callee)
      fun fault => fault ≠ .recursionLimit) :
    Limited (Pure.pure none) operation where
  refused m id m' _ found := by cases found
  limit m e m' failed fault := absurd fault ((steady _).error m e m' rfl failed).2.2
  calls m callee m' ran := absurd rfl (((steady _).ok m _ m' rfl ran).2 callee)

theorem bind {first : MachineM α} {probe : α → MachineM (Option FunctionId)}
    {operation : α → MachineM Effect} (prepares : Prepares first)
    (rest : ∀ a, Limited (probe a) (operation a)) :
    Limited (first >>= probe) (first >>= operation) where
  refused m id m' limit found := by
    simp only [Bind.bind, EStateM.bind] at found ⊢
    cases result : first m with
    | error e m₁ =>
      rw [result] at found
      cases found
    | ok a m₁ =>
      rw [result] at found
      obtain ⟨kept, -⟩ := (prepares.steady _).ok m a m₁ rfl result
      rw [← kept.config, ← kept.depth] at limit
      obtain ⟨failed, arena⟩ := (rest a).refused m₁ id m' limit found
      exact ⟨failed, arena.trans (prepares.arena m a m₁ result)⟩
  limit m e m' failed fault := by
    simp only [Bind.bind, EStateM.bind] at failed ⊢
    cases result : first m with
    | error e₁ m₁ =>
      rw [result] at failed
      cases failed
      exact absurd fault ((prepares.steady _).error m e m' rfl result).2.2
    | ok a m₁ =>
      rw [result] at failed
      obtain ⟨kept, -⟩ := (prepares.steady _).ok m a m₁ rfl result
      rw [← kept.config, ← kept.depth]
      exact (rest a).limit m₁ e m' failed fault
  calls m callee m' ran := by
    simp only [Bind.bind, EStateM.bind] at ran ⊢
    cases result : first m with
    | error e₁ m₁ =>
      rw [result] at ran
      cases ran
    | ok a m₁ =>
      rw [result] at ran
      obtain ⟨kept, -⟩ := (prepares.steady _).ok m a m₁ rfl result
      rw [← kept.config, ← kept.depth]
      exact (rest a).calls m₁ callee m' ran

/-- Entering a function. -/
theorem enter (id : FunctionId) (args : List Value) (link : Option CallerLink) :
    Limited (do let _ ← function id; return some id)
      (do return .call (← enter id args link)) where
  refused m id' m' limit found := by
    have spec := enter_spec id args link m
    simp only [Bind.bind, EStateM.bind, MachineM.function] at found ⊢
    generalize MachineM.enter id args link m = result at spec ⊢
    cases spec with
    | unknown known =>
      rw [known] at found
      cases found
    | limit known =>
      rw [known] at found
      cases found
      exact ⟨rfl, rfl⟩
    | refused _ below | frame _ below => omega
  limit m e m' failed fault := by
    have spec := enter_spec id args link m
    simp only [Bind.bind, EStateM.bind, MachineM.function] at failed ⊢
    generalize MachineM.enter id args link m = result at spec failed
    cases spec with
    | limit known reached =>
      cases failed
      rw [known]
      exact ⟨reached, id, rfl⟩
    | unknown | refused =>
      cases failed
      cases fault
    | frame => cases failed
  calls m callee m' ran := by
    have spec := enter_spec id args link m
    simp only [Bind.bind, EStateM.bind, MachineM.function] at ran ⊢
    generalize MachineM.enter id args link m = result at spec ran
    cases spec with
    | frame known below same =>
      cases ran
      rw [known, same]
      exact ⟨below, m, rfl⟩
    | unknown | limit | refused => cases ran

/-- Calling what a value was sorted into. -/
theorem invoke (values : Array Value) (pc : Nat) (callable : Callable) (dst args : Register)
    (argc : UInt32) : Limited (entersCallable? values callable args argc)
      (invoke values pc callable dst args argc) := by
  have idle : ∀ {operation : List Value → MachineM Value},
      (∀ fs items, Steady fs (operation items) (fun _ => True) fun fault =>
        fault ≠ .recursionLimit) →
      Limited (Pure.pure none) (do
        let items ← window values args argc.toNat
        return .write dst (← operation items)) := fun steady =>
    .idle fun fs => ((Prepares.window values args _).steady fs).bind fun items _ =>
      (steady fs items).bind fun v _ => .pure fun callee same => by cases same
  cases callable with
  | function id receiver =>
    exact .bind (.window values args _) fun items => enter id _ _
  | builtin b => exact idle fun _ items => .callBuiltin b items fun _ => ne_recursionLimit
  | builtinMethod receiver name =>
    exact idle fun _ items =>
      .onHeap (HeapM.orderly_callMethod receiver name items) fun _ => ne_recursionLimit
  | exceptionClass kind =>
    exact idle fun _ items =>
      .onHeap (HeapM.orderly_newException kind items) fun _ => ne_recursionLimit
  | cls handle =>
    refine .bind (.instantiate handle _) fun v => .bind (.initialiser? handle) fun found => ?_
    cases found with
    | none => exact .idle fun _ => .pure fun callee same => by cases same
    | some id => exact .bind (.window values args _) fun items => enter id _ _

/-- **A call is refused exactly at the limit.** -/
theorem exec (f : LoadedFunction) (values : Array Value) (pc : Nat) {op : Opcode}
    (isCall : op.IsCall) : Limited (enters? f values op) (exec f values pc op) := by
  cases isCall with
  | call dst callee args argc =>
    exact .bind (.reg values callee) fun v =>
      .bind (.read fun h => h.orderly_callable v) fun callable =>
        invoke values pc callable dst args argc
  | callMethod dst obj name args argc =>
    exact .bind (.reg values obj) fun v => .bind (.nameOf f name) fun text =>
      .bind (.onHeap (HeapM.orderly_callableMethod v text)) fun callable =>
        invoke values pc callable dst args argc

end Limited

end MachineM

/-! ## The limit in executions -/

namespace Execution

variable {x y : Execution} {base : Nat} {m : Machine}

/-- The instruction at which `x` stands is about to enter a function on the machine `m`. -/
def Entering (x : Execution) (id : FunctionId) (m : Machine) : Prop :=
  ∃ f op, x.machine.library.function? x.frame.function = some f ∧
    f.chunk.opcode? x.frame.pc = some op ∧
    MachineM.enters? f x.frame.settled.file.values op x.machine = .ok (some id) m

/-- **At the limit a call is refused**, and no register file is taken. -/
theorem Entering.refused {id : FunctionId} (h : x.Entering id m)
    (limit : x.machine.config.maxDepth ≤ x.machine.depth) :
    x.Fails (.ofFault .recursionLimit) m ∧ m.arena = x.machine.arena := by
  obtain ⟨f, op, hf, hop, entering⟩ := h
  have isCall : op.IsCall := by
    cases op with
    | call => exact .call ..
    | callMethod => exact .callMethod ..
    | _ => cases entering
  obtain ⟨failed, arena⟩ :=
    (MachineM.Limited.exec f x.frame.settled.file.values x.frame.pc isCall).refused _ id m limit
      entering
  exact ⟨⟨f, op, hf, hop, failed⟩, arena⟩

/-- A call that fails at the limit was about to enter a function. -/
theorem Fails.entering {f : LoadedFunction} {op : Opcode} {e : Failure} (fails : x.Fails e m)
    (hf : x.machine.library.function? x.frame.function = some f)
    (hop : f.chunk.opcode? x.frame.pc = some op) (isCall : op.IsCall)
    (fault : e.fault = .recursionLimit) :
    x.machine.config.maxDepth ≤ x.machine.depth ∧ ∃ id, x.Entering id m := by
  obtain ⟨g, op', hg, hop', failed⟩ := fails
  cases hf.symm.trans hg
  cases hop.symm.trans hop'
  obtain ⟨limit, id, entering⟩ :=
    (MachineM.Limited.exec f x.frame.settled.file.values x.frame.pc isCall).limit _ e m failed fault
  exact ⟨limit, id, f, op, hf, hop, entering⟩

/-- **A failure makes no frame**, and a handler of the running frame takes it. -/
theorem Sound.step_of_fails_here (h : x.Sound base) {e : Failure} (fails : x.Fails e m) :
    (∀ y, x.step = .running y → y.callers.length ≤ x.callers.length) ∧
      ∀ {k : Handler} {rest : List Handler}, x.frame.handlers = k :: rest →
        ∃ y, x.step = .running y ∧ y.callers = x.callers ∧
          y.machine.depth = x.machine.depth ∧ Resumes e m.heap k rest x.frame y := by
  obtain ⟨frame, stepped, sound, settled⟩ := h.step_of_fails fails
  obtain ⟨function, -, handlers, link⟩ := Frame.alike_of_settled settled
  refine ⟨fun y running => ?_, fun {k rest} hh => ?_⟩
  · have within := unwind_within e m frame x.callers
    rw [← stepped, running] at within
    exact within.length_le rfl
  · obtain ⟨y, unwound, callers, depth, resumes⟩ := unwind_here sound (handlers.trans hh) e
    exact ⟨y, stepped.trans unwound, callers, depth.trans h.depth.symm,
      resumes.congr function link (congrArg (·.file.values) settled)⟩

/-- **A step that makes a frame** is a call below the limit. -/
theorem Sound.entering_of_deeper (h : x.Sound base) (stepped : x.step = .running y)
    (deeper : x.callers.length < y.callers.length) :
    x.machine.depth < x.machine.config.maxDepth ∧ y.callers.length = x.callers.length + 1 ∧
      ∃ m, x.Entering y.frame.function m := by
  obtain ⟨f, op, callee, m, succeeds⟩ := h.succeeds_of_deeper stepped deeper
  obtain ⟨-, ⟨isCall, -⟩, -⟩ := h.succeeds succeeds
  obtain ⟨below, m', entering⟩ :=
    (MachineM.Limited.exec f x.frame.settled.file.values x.frame.pc isCall).calls _ callee m
      succeeds.result
  obtain ⟨frame, -, g, callers, -⟩ := h.step_of_call succeeds stepped
  refine ⟨below, by rw [callers, List.length_cons], m', f, op, succeeds.function, succeeds.opcode,
    ?_⟩
  rwa [← y.frame.function_settled, frame]

/-- A step keeps the depth within the limit. -/
theorem Sound.step_depth_le (h : x.Sound base) (stepped : x.step = .running y)
    (within : x.machine.depth ≤ x.machine.config.maxDepth) :
    y.machine.depth ≤ y.machine.config.maxDepth := by
  have depth := h.depth
  have depth' := (Leads.sound (.single stepped) h).depth
  rw [(h.continues stepped).maxDepth]
  by_cases deeper : x.callers.length < y.callers.length
  · obtain ⟨below, one, -⟩ := h.entering_of_deeper stepped deeper
    omega
  · omega

/-- **A run keeps the depth within the limit.** -/
theorem Leads.depth_le (leads : x.Leads y) (h : x.Sound base)
    (within : x.machine.depth ≤ x.machine.config.maxDepth) :
    y.machine.depth ≤ y.machine.config.maxDepth := by
  -- On the run. The limit itself does not change, so the bound of the depth is all to carry along.
  induction leads with
  | refl => exact within
  | tail before next ih => exact (Leads.sound before h).step_depth_le next ih

end Execution

/-! ## Ends of executions -/

/-- Unwinding that ends an execution leaves every active frame, each with a trace entry. -/
theorem unwind_ends {base : Nat} {m m' : Machine} {frame : Frame} {callers : List Frame}
    {e : Failure} {r : Outcome Value} (h : Execution.Sound base ⟨m, frame, callers⟩)
    (ended : unwind e m frame callers = .finished m' r) :
    ∃ e', r = .error e' ∧ e'.trace.length = e.trace.length + (callers.length + 1) := by
  have free : ∀ {callers : List Frame} {frame : Frame} {m : Machine} {e : Failure},
      Execution.Sound base ⟨m, frame, callers⟩ → unwind e m frame callers = .finished m' r →
      frame.handlers = [] := by
    intro callers frame m e h ended
    cases hh : frame.handlers with
    | nil => rfl
    | cons k rest =>
      obtain ⟨y, resumed, -⟩ := unwind_here h hh e
      cases resumed.symm.trans ended
  obtain ⟨f, -, hs⟩ := h.frame
  -- On the callers: none of the frames has a handler, and each adds its entry when it is left.
  induction callers generalizing m frame e f with
  | nil =>
    rw [unwind_outermost hs (free h ended)] at ended
    cases ended
    exact ⟨_, rfl, List.length_append⟩
  | cons caller callers ih =>
    rw [unwind_passes hs (free h ended)] at ended
    obtain ⟨unwound, -⟩ := h.unwound frame.settled.file
    obtain ⟨g, -, hs'⟩ := unwound.frame
    obtain ⟨e', rfl, length⟩ := ih unwound ended g hs'
    refine ⟨e', rfl, ?_⟩
    simp only [Failure.leave, List.length_append, List.length_cons, List.length_nil] at length ⊢
    omega

/-- In the interpreter a caller that waits goes on. -/
theorem finish_runs {v : Value} {m : Machine} {frame caller : Frame} {callers : List Frame}
    (hn : caller.native = none) : ∃ y, finish v m frame (caller :: callers) = .running y := by
  cases hl : frame.caller with
  | none => exact ⟨⟨m.retire frame.file, caller, callers⟩, by simp only [finish, hl]⟩
  | some link => exact ⟨_, finish_called hl hn⟩

namespace Execution

variable {x : Execution} {base : Nat} {m : Machine}

/-- **An execution ends with a value only when no caller waits.** -/
theorem Sound.callers_of_finished (h : x.Sound base) {v : Value}
    (ended : x.step = .finished m (.ok v)) : x.callers = [] := by
  have moves := h.moves
  rw [ended] at moves
  generalize hs : Status.finished m (.ok v) = s at moves
  cases moves with
  | left => cases hs
  | failed fails =>
    obtain ⟨frame, stepped, sound, -⟩ := h.step_of_fails fails
    obtain ⟨e, same, -⟩ := unwind_ends sound (stepped.symm.trans ended)
    cases same
  | returned _ same =>
    subst hs
    cases hc : x.callers with
    | nil => rfl
    | cons caller rest =>
      obtain ⟨y, resumed⟩ := finish_runs caller.native_suspended
      rw [hc, List.map_cons, resumed] at same
      cases same
  | @performed f op effect m _ succeeds stays same =>
    subst hs
    by_cases calls : ∃ callee, effect = .call callee
    · obtain ⟨callee, rfl⟩ := calls
      cases same
    · obtain ⟨frame, -, -, seen⟩ :=
        h.performs succeeds stays fun callee same => calls ⟨callee, same⟩
      cases same.trans seen

/-- **An execution ends with a failure only when every active frame is left.** -/
theorem Sound.trace_of_finished (h : x.Sound base) {e : Failure}
    (ended : x.step = .finished m (.error e)) : e.trace.length = x.callers.length + 1 := by
  obtain ⟨e', m', fails⟩ := h.fails_of_finished ended
  obtain ⟨frame, stepped, sound, -⟩ := h.step_of_fails fails
  obtain ⟨-, trace⟩ := h.fails_keeps fails
  obtain ⟨e'', same, length⟩ := unwind_ends sound (stepped.symm.trans ended)
  cases same
  rwa [trace, List.length_nil, Nat.zero_add] at length

end Execution

/-! ## Calls of a host -/

/-- What a limit on the number of active frames means for an execution. -/
structure Execution.Bounded (limit : Nat) (x : Execution) : Prop where
  /-- The depth is the number of active frames. -/
  depth : x.machine.depth = x.callers.length + 1
  within : x.callers.length + 1 ≤ limit
  /-- At the limit a call that is about to enter a function fails at its instruction, and takes no
  register file. -/
  refused : ∀ {id : FunctionId} {m : Machine}, x.Entering id m → x.callers.length + 1 = limit →
    ∃ e, x.Fails e m ∧ e.fault = .recursionLimit ∧ e.kind = .stackOverflow ∧
      m.arena = x.machine.arena
  /-- No other call fails so. -/
  full : ∀ {f : LoadedFunction} {op : Opcode} {e : Failure} {m : Machine},
    x.machine.library.function? x.frame.function = some f →
    f.chunk.opcode? x.frame.pc = some op → op.IsCall → x.Fails e m → e.fault = .recursionLimit →
    x.callers.length + 1 = limit ∧ ∃ id, x.Entering id m
  /-- A failure makes no frame. -/
  failed : ∀ {e : Failure} {m : Machine} {y : Execution}, x.Fails e m → x.step = .running y →
    m.depth = x.machine.depth ∧ y.callers.length ≤ x.callers.length
  /-- A handler of the running frame takes a failure, with the same frames active. -/
  handled : ∀ {e : Failure} {m : Machine} {k : Handler} {rest : List Handler}, x.Fails e m →
    x.frame.handlers = k :: rest →
    ∃ y, x.step = .running y ∧ y.callers = x.callers ∧ y.machine.depth = x.machine.depth ∧
      Execution.Resumes e m.heap k rest x.frame y
  /-- Only calls below the limit make frames, one at a time. -/
  entered : ∀ {y : Execution}, x.step = .running y → x.callers.length < y.callers.length →
    x.callers.length + 1 < limit ∧ y.callers.length = x.callers.length + 1 ∧
      ∃ m, x.Entering y.frame.function m
  /-- A value ends the execution when no caller waits. -/
  value : ∀ {m : Machine} {v : Value}, x.step = .finished m (.ok v) → x.callers = []
  /-- A failure ends the execution when every active frame is left, each with a trace entry. -/
  failure : ∀ {m : Machine} {e : Failure}, x.step = .finished m (.error e) →
    e.trace.length = x.callers.length + 1

namespace Machine

variable {m : Machine} {x : Execution}

/-- The depth in an execution is the number of its frames. -/
theorem Executes.depth_eq (h : m.Executes x) (inUse : m.InUse) :
    x.machine.depth = x.callers.length + 1 := by
  have depth := (h.sound inUse).depth
  rwa [inUse.depth_eq_zero, Nat.zero_add] at depth

/-- **An execution has at most as many frames as the settings allow**, and keeps the limit. -/
theorem Executes.depth_le (h : m.Executes x) (inUse : m.InUse) :
    x.machine.config.maxDepth = m.config.maxDepth ∧
      x.callers.length + 1 ≤ m.config.maxDepth := by
  have depth := h.depth_eq inUse
  obtain ⟨m₁, id, args, starts, frame, m₂, entered, leads⟩ := h
  obtain ⟨advances, reached, -⟩ := starts.advances inUse
  have spec := MachineM.enter_spec id args none m₁
  rw [entered] at spec
  cases spec with
  | frame _ below =>
    -- The entry was checked when its frame was not yet counted, which leaves room for it.
    have sound := enter_sound reached.sound entered
    have limit : x.machine.config.maxDepth = m₁.config.maxDepth :=
      (leads.continues sound).maxDepth
    have within := leads.depth_le sound below
    rw [advances.config] at limit
    exact ⟨limit, by omega⟩

/-- **Executions are bounded.** -/
theorem Executes.bounded (h : m.Executes x) (inUse : m.InUse) : x.Bounded m.config.maxDepth := by
  have sound := h.sound inUse
  have depth := h.depth_eq inUse
  obtain ⟨limit, within⟩ := h.depth_le inUse
  refine ⟨depth, within, fun entering reached => ?_, fun hf hop isCall fails fault => ?_,
    fun fails stepped => ?_, fun fails hh => (sound.step_of_fails_here fails).2 hh,
    fun stepped deeper => ?_, sound.callers_of_finished, sound.trace_of_finished⟩
  · obtain ⟨fails, arena⟩ := entering.refused (by omega)
    exact ⟨_, fails, rfl, rfl, arena⟩
  · obtain ⟨reached, entering⟩ := fails.entering hf hop isCall fault
    exact ⟨by omega, entering⟩
  · exact ⟨(sound.fails_keeps fails).1.depth, (sound.step_of_fails_here fails).1 _ stepped⟩
  · obtain ⟨below, one, entering⟩ := sound.entering_of_deeper stepped deeper
    exact ⟨by omega, one, entering⟩

/-- **The depth of calls.** A machine in use has no active frames, and calls of functions and of
values leave it so, however they end. Their executions are bounded by the number of frames that the
settings allow, as `Bounded` says: the call that would make one frame more fails with a stack
overflow instead, and the step that ends an execution leaves the depth as it was before the call. -/
theorem depth_limited {m : Machine} (inUse : m.InUse) :
    m.depth = 0 ∧
    (∀ {fuel : Nat} {id : FunctionId} {args : List Value} {m' : Machine} {r : Outcome Value},
      m.execute fuel id args = some (m', r) → m'.depth = m.depth) ∧
    (∀ {fuel : Nat} {callee : Value} {args : List Value} {m' : Machine} {r : Outcome Value},
      m.call fuel callee args = some (m', r) → m'.depth = m.depth) ∧
    ∀ {x : Execution}, m.Executes x → x.Bounded m.config.maxDepth ∧
      ∀ {m' : Machine} {r : Outcome Value}, x.step = .finished m' r → m'.depth = m.depth := by
  refine ⟨inUse.depth_eq_zero, fun ran => (execute_sound inUse.reached.sound ran).2,
    call_depth inUse.reached, fun {x} executes => ⟨executes.bounded inUse, ?_⟩⟩
  intro m' r ended
  have stepped := (executes.sound inUse).step
  rw [ended] at stepped
  exact stepped.2

/-- Where one frame is allowed `main` calls a function. The call is refused, and the handler of
`main` gets a stack overflow. -/
theorem depth_limited_one :
    ∃ (c : Chunk) (id : FunctionId) (m : Machine) (x : Execution) (callee : FunctionId)
      (e : Failure) (m' : Machine) (y : Execution),
      (start { Config.standard with maxDepth := 1 }).load c = .ok (id, m) ∧ m.Executes x ∧
      x.Entering callee m' ∧ x.Fails e m' ∧ e.kind = .stackOverflow ∧ x.step = .running y ∧
      y.callers = [] ∧ y.frame.pc = 4 ∧ y.machine.depth = 1 := by
  let f : Chunk := ⟨"callee", #[⟨.retNone, none⟩], #[], 0, 0, []⟩
  let c : Chunk := ⟨"main", #[⟨.pushTry 4 ⟨1⟩, none⟩, ⟨.makeFunction ⟨0⟩ 0, none⟩,
    ⟨.call ⟨0⟩ ⟨0⟩ ⟨0⟩ 0, none⟩, ⟨.ret ⟨0⟩, none⟩, ⟨.ret ⟨1⟩, none⟩], #[], 2, 0, [f]⟩
  obtain ⟨m, load, allowed, x, runs, handlers, none, m', entering⟩ :
      ∃ m, (start { Config.standard with maxDepth := 1 }).load c = .ok (1, m) ∧
        m.config.maxDepth = 1 ∧ ∃ x, m.Runs 1 [] x ∧ x.frame.handlers = [⟨4, ⟨1⟩⟩] ∧
        x.callers = [] ∧ ∃ m', x.Entering 0 m' :=
    ⟨_, rfl, rfl, _, ⟨_, _, rfl, .tail (.tail .refl rfl) rfl⟩, rfl, rfl, _, _, _, rfl, rfl, rfl⟩
  have executes : m.Executes x := .ofRuns (fun v hv => by cases hv) runs
  obtain ⟨-, -, -, limited⟩ := depth_limited (.load (.start _) load)
  obtain ⟨bounded, -⟩ := limited executes
  obtain ⟨e, fails, -, kind, -⟩ := bounded.refused entering (by rw [none, allowed]; rfl)
  obtain ⟨y, stepped, callers, same, resumes⟩ := bounded.handled fails handlers
  exact ⟨c, 1, m, x, 0, e, m', y, load, executes, entering, fails, kind, stepped,
    callers.trans none, resumes.address, by rw [same, bounded.depth, none]; rfl⟩

end Machine

end RegisterVm
