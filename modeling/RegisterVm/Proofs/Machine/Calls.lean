import RegisterVm.Proofs.Machine.Depth
import RegisterVm.Proofs.Machine.Stacking

/-!
# Calls from outside and calls by instructions

A call from outside runs its function alone, while the frame of a call instruction waits below the
function that it calls. Both are prepared alike (`MachineM.invoke_eq`), and the executions of the
function are alike (`Execution.Sound.step_above`). So a call instruction comes to what the call from
outside comes to on the machine at that time (`Machine.call_agrees`).
-/

namespace RegisterVm

/-! ## Preparing a call -/

/-- What a call instruction at address `pc` does with the call that it has prepared. -/
def Machine.Calling.effect (dst : Register) (pc : Nat) : Calling → MachineM Effect
  | answered v => return .write dst v
  | entering id args result => return .call (← MachineM.enter id args (some ⟨dst, pc, result⟩))

namespace MachineM

open Machine (prepare Calling)

variable {values : Array Value} {start : Register} {argc : UInt32} {args : List Value}

theorem window_eq_pure (read : RegisterFile.window values start argc.toNat = .ok args) :
    window values start argc.toNat = pure args := by
  unfold window
  rw [read]
  rfl

theorem length_of_window (read : RegisterFile.window values start argc.toNat = .ok args) :
    args.length = argc.toNat := by
  unfold RegisterFile.window at read
  split at read
  · cases read
    simp only [Array.length_toList, Array.size_extract]
    omega
  · cases read

/-- An instruction prepares the call of its callee as a call from outside does. -/
theorem invoke_eq (read : RegisterFile.window values start argc.toNat = .ok args) (pc : Nat)
    (callable : Callable) (dst : Register) :
    invoke values pc callable dst start argc = prepare callable args >>= Calling.effect dst pc := by
  have taken := window_eq_pure read
  cases callable with
  | function id receiver => simp only [invoke, prepare, taken, pure_bind, Calling.effect]
  | builtin f => simp only [invoke, prepare, taken, pure_bind, bind_assoc, Calling.effect]
  | builtinMethod receiver name =>
    simp only [invoke, prepare, store, taken, pure_bind, bind_assoc, Calling.effect]
  | exceptionClass kind =>
    simp only [invoke, prepare, store, taken, pure_bind, bind_assoc, Calling.effect]
  | cls handle =>
    simp only [invoke, prepare, taken, pure_bind, bind_assoc, length_of_window read]
    refine congrArg _ (funext fun v => congrArg _ (funext fun found => ?_))
    cases found <;> simp only [pure_bind, Calling.effect]

/-- A function is entered alike with and without a link to a caller. -/
theorem enter_link (id : FunctionId) (args : List Value) (link : CallerLink) (m : Machine) :
    enter id args (some link) m = match enter id args none m with
      | .ok frame m => .ok { frame with caller := some link } m
      | .error e m => .error e m := by
  simp only [enter, Bind.bind, EStateM.bind]
  cases function id m with
  | error e m => rfl
  | ok f m =>
    simp only
    cases checkDepth m with
    | error e m => rfl
    | ok u m =>
      unfold Frame.enter
      by_cases count : args.length ≠ f.chunk.paramCount.toNat
      · simp only [if_pos count]
      · simp only [if_neg count]

end MachineM

/-! ## Call instructions -/

namespace Execution

variable {x y : Execution} {base : Nat} {dst : Register} {callee : Value} {args : List Value}
  {m : Machine}

/-- The outermost frame has no link. -/
theorem Sound.caller_of_outermost {frame : Frame} (h : Sound base ⟨m, frame, []⟩) :
    frame.caller = none := by
  have waiting := h.waiting
  generalize (Execution.mk m frame []).frame.caller = link at waiting
  cases waiting
  rfl

/-- `x` stands at a call instruction for the register `dst`, with a callee and arguments in its
registers. In verified code only a window of no arguments can lie outside the register file. -/
def AtCall (x : Execution) (dst : Register) (callee : Value) (args : List Value) : Prop :=
  ∃ f fn start count, x.machine.library.function? x.frame.function = some f ∧
    f.chunk.opcode? x.frame.pc = some (.call dst fn start count) ∧
    RegisterFile.get x.frame.settled.file.values fn = .ok callee ∧
    RegisterFile.window x.frame.settled.file.values start count.toNat = .ok args

/-- What becomes of a call from outside and of the instruction at which `x` stands, when both call
the same value with the same arguments. -/
inductive Called (x : Execution) (dst : Register) (callee : Value) (args : List Value) : Prop
  /-- No function is called, and the call fails. -/
  | failed {e : Failure} {m : Machine} : x.Fails e m →
    (∀ fuel, x.machine.call fuel callee args = some (m, .error e)) → Called x dst callee args
  /-- No function is called, and the call has a result. -/
  | answered {f : LoadedFunction} {op : Opcode} {v : Value} {m : Machine} :
    x.Succeeds f op (.write dst v) m →
    (∀ fuel, x.machine.call fuel callee args = some (m, .ok v)) → Called x dst callee args
  /-- A function is called. -/
  | entered {f : LoadedFunction} {op : Opcode} {frame : Frame} {m : Machine}
    {result : Option Value} :
    x.Succeeds f op (.call (frame.linked ⟨dst, x.frame.pc, result⟩)) m →
    Sound x.machine.depth ⟨m.descend, frame, []⟩ →
    (∀ fuel, x.machine.call fuel callee args = (run fuel ⟨m.descend, frame, []⟩).map
      fun (m', r) => (m', r.map result.getD)) → Called x dst callee args

/-- A call instruction prepares the call of its callee as a call from outside does. -/
theorem AtCall.exec_eq (stands : x.AtCall dst callee args) {callable : Callable}
    (called : x.machine.heap.callable callee = .ok callable) :
    ∃ f op, x.machine.library.function? x.frame.function = some f ∧
      f.chunk.opcode? x.frame.pc = some op ∧
      MachineM.exec f x.frame.settled.file.values x.frame.pc op x.machine =
        (Machine.prepare callable args >>= Machine.Calling.effect dst x.frame.pc) x.machine := by
  obtain ⟨f, fn, start, count, hf, hop, hc, ha⟩ := stands
  refine ⟨f, _, hf, hop, ?_⟩
  simp only [MachineM.exec, MachineM.reg, hc, Bind.bind, EStateM.bind, MachineM.ofOutcome,
    MachineM.read, called]
  exact congrFun (MachineM.invoke_eq ha x.frame.pc callable dst) x.machine

/-- **A call instruction and a call from outside begin alike.** -/
theorem Sound.called (h : x.Sound base) (stands : x.AtCall dst callee args) :
    x.Called dst callee args := by
  have call := fun fuel => Machine.call_eq fuel callee args x.machine
  cases called : x.machine.heap.callable callee with
  | error e =>
    obtain ⟨f, fn, start, count, hf, hop, hc, -⟩ := stands
    have ran : MachineM.exec f x.frame.settled.file.values x.frame.pc (.call dst fn start count)
        x.machine = .error e x.machine := by
      simp only [MachineM.exec, MachineM.reg, hc, Bind.bind, EStateM.bind, MachineM.ofOutcome,
        MachineM.read, called]
    simp only [called] at call
    exact .failed ⟨f, _, hf, hop, ran⟩ call
  | ok callable =>
    obtain ⟨f, op, hf, hop, ran⟩ := stands.exec_eq called
    have steady := Machine.steady_prepare x.machine.library.functions callable args
    simp only [called, Bind.bind, EStateM.bind] at ran call
    cases prepared : Machine.prepare callable args x.machine with
    | error e m =>
      simp only [prepared] at ran call
      exact .failed ⟨f, _, hf, hop, ran⟩ call
    | ok calling m =>
      obtain ⟨kept, -⟩ := steady.ok x.machine calling m rfl prepared
      simp only [prepared] at ran call
      cases calling with
      | answered v => exact .answered ⟨hf, hop, ran⟩ call
      | entering id args' result =>
        simp only [Machine.Calling.effect, Bind.bind, EStateM.bind, MachineM.enter_link] at ran
        simp only [Machine.execute] at call
        cases entered : MachineM.enter id args' none m with
        | error e m' =>
          simp only [entered] at ran call
          exact .failed ⟨f, _, hf, hop, ran⟩ call
        | ok frame m' =>
          have sound := Machine.enter_sound (kept.library ▸ h.library) entered
          simp only [entered] at ran call
          have succeeds : x.Succeeds f op (.call (frame.linked ⟨dst, x.frame.pc, result⟩)) m' := by
            refine ⟨hf, hop, ran.trans ?_⟩
            rw [Frame.linked, sound.caller_of_outermost]
            rfl
          exact .entered succeeds (kept.depth ▸ sound) call

/-! ## While a call lasts -/

/-- A call makes its frame on top of the frame of the instruction. -/
theorem Sound.step_of_enter (h : x.Sound base) {f : LoadedFunction} {op : Opcode} {callee : Frame}
    (succeeds : x.Succeeds f op (.call callee) m) :
    ∃ g, x.step = .running ⟨m.descend, callee, g :: x.callers⟩ ∧
      g.suspended = { x.frame.settled with pc := x.frame.pc + 1 } := by
  suffices stepped : ∃ g, x.step = .running ⟨m.descend, callee, g :: x.callers⟩ by
    obtain ⟨g, stepped⟩ := stepped
    obtain ⟨-, -, g', callers, suspended⟩ := h.step_of_call succeeds stepped
    cases callers
    exact ⟨g, stepped, suspended⟩
  obtain ⟨hf, hop, result⟩ := succeeds
  obtain ⟨m₀, ⟨function, ⟨values, allocated⟩, pc, handlers, link, native⟩, callers⟩ := x
  have here : m₀.library.function? function = some f := hf
  cases native with
  | none =>
    have result' : MachineM.exec f values pc op m₀ = .ok (.call callee) m := result
    refine ⟨⟨function, ⟨values, allocated⟩, pc + 1, handlers, link, none⟩, ?_⟩
    simp only [Execution.step, here, interpret_eq hop, result']
    rfl
  | some n =>
    have hs := h.here hf
    have fits := (h.library.function _ f hf).instruction _ op hop
    obtain ⟨code, inside, ws, holds⟩ := hs.native n rfl
    have interpreted : Sound base
        ⟨m₀, ⟨function, ⟨values, allocated⟩, pc, handlers, link, none⟩, callers⟩ :=
      h.interpreted rfl
    have called : MachineM.exec f ws pc op m₀ = .ok (.call callee) m := by
      rw [← result, Frame.settled_inLoop holds]
    have spec := runNative_spec interpreted hf hop holds code inside
    simp only [Execution.step, here]
    generalize runNative f n m₀ _ callers = s at spec ⊢
    cases spec with
    | next result | write _ _ _ result | jump _ result | failed _ result =>
      cases result.symm.trans called
    | leave isReturn =>
      obtain ⟨v, returned⟩ :=
        MachineM.exec_of_isReturn isReturn fits (holds.size.symm.trans hs.size) m₀
      cases returned.symm.trans called
    | general target =>
      have spec := help_spec target interpreted hf hop holds code inside
      generalize help f op target n m₀ _ callers = s at spec ⊢
      cases spec with
      | failed result => cases result.symm.trans called
      | applied result =>
        cases result.symm.trans called
        exact ⟨_, rfl⟩

/-- The executions that `x` leads to while more frames are active. -/
def Meanwhile (x : Execution) : Execution → Prop :=
  Relation.ReflTransGen (fun y z => y.Next z ∧ x.callers.length < z.callers.length) x

/-- The call at which `x` stands leaves the machine `m` with a result. The frame of the instruction
goes on after it with the value in its register, or fails at it. -/
inductive Comes (x : Execution) (dst : Register) (m : Machine) : Outcome Value → Prop
  | value {v : Value} {y z : Execution} : x.Meanwhile z → z.step = .running y →
    y.settled = ⟨m.plain, { x.frame.settled.withValues
      (x.frame.settled.file.values.setIfInBounds dst.toNat v) with pc := x.frame.pc + 1 },
      x.callers.map Frame.suspended⟩ → Comes x dst m (.ok v)
  | failure {e : Failure} {z : Execution} {frame : Frame} : x.Meanwhile z →
    frame.settled = x.frame.settled → z.step = unwind e m frame x.callers →
    Comes x dst m (.error e)

/-- The step that ends an execution keeps the functions and the settings. -/
theorem Sound.continues_of_finished (h : x.Sound base) {r : Outcome Value}
    (ended : x.step = .finished m r) : x.machine.Continues m := by
  have moves := h.moves
  rw [ended] at moves
  generalize hs : Status.finished m r = s at moves
  cases moves with
  | left => cases hs
  | failed fails =>
    obtain ⟨frame, unwound, sound, -⟩ := h.step_of_fails fails
    have kept : x.machine.Continues _ := .ofKeeps (h.fails_keeps fails).1
    rcases unwind_outcome sound (P := fun _ m => x.machine.Continues m)
      (fun entry file before => before.trans ⟨rfl, rfl⟩) kept with
      ⟨e', m', y', -, -, resumed⟩ | ⟨e', m', before, escaped⟩
    · cases ended.symm.trans (unwound.trans resumed)
    · cases ended.symm.trans (unwound.trans escaped)
      exact before
  | @returned v m' _ returns same =>
    subst hs
    have retired : x.machine.Continues (m'.retire x.frame.settled.file) :=
      .trans (.ofKeeps (h.returns_keeps returns)) ⟨rfl, rfl⟩
    cases hc : x.callers with
    | nil =>
      rw [hc] at same
      have plain : m.plain = (m'.retire x.frame.settled.file).plain :=
        (Status.finished.inj same).1
      exact .ofPlain plain retired
    | cons caller rest =>
      obtain ⟨y, resumed⟩ := finish_runs caller.native_suspended
      rw [hc, List.map_cons, resumed] at same
      cases same
  | @performed f op effect m' _ succeeds stays same =>
    subst hs
    by_cases calls : ∃ callee, effect = .call callee
    · obtain ⟨callee, rfl⟩ := calls
      cases same
    · obtain ⟨frame, -, -, seen⟩ :=
        h.performs succeeds stays fun callee same => calls ⟨callee, same⟩
      cases same.trans seen

/-- The result of a call arrives at a frame in the interpreter. -/
theorem resume_of_none {v : Value} {caller : Frame} {callers : List Frame}
    (hn : caller.native = none) :
    resume dst v m caller callers = .running
      ⟨m, caller.withValues (caller.file.values.setIfInBounds dst.toNat v), callers⟩ := by
  obtain ⟨function, ⟨values, allocated⟩, pc, handlers, link, native⟩ := caller
  cases hn
  rfl

/-- **The site of a call receives the result**: its frame is that of the instruction, which goes on
with the value or fails. -/
theorem Sound.receives (h : x.Sound base) {frame g : Frame} {link : CallerLink} {m' : Machine}
    {r : Outcome Value} {z : Execution} (alone : frame.caller = none)
    (address : link.callPc = x.frame.pc)
    (stepped : x.step = .running ⟨m.descend, frame.linked link, g :: x.callers⟩)
    (suspended : g.suspended = { x.frame.settled with pc := x.frame.pc + 1 })
    (continues : m.Continues m') (sound : m'.library.Sound) (depth : m'.depth = x.machine.depth)
    (meanwhile : x.Meanwhile z) (ended : z.step = CallSite.receive ⟨link, g, x.callers⟩ m' r) :
    x.Comes link.dst m' (r.map link.result.getD) := by
  have next := h.step
  rw [stepped] at next
  have waiting : Waiting m.library.functions (some link) (g :: x.callers) := by
    have waiting := next.waiting
    simpa only [Frame.linked, alone, Option.getD_none, Machine.library_descend] using waiting
  rw [← continues.functions] at waiting
  cases waiting with
  | @call f _ op _ _ hf waits waiting =>
    have site : Sound base ⟨m', g, x.callers⟩ :=
      ⟨sound, ⟨f, hf, waits.sound⟩, waiting, depth.trans h.depth⟩
    cases r with
    | ok u =>
      have shown := (resume_shows site hf waits (link.result.getD u)).settled
      rw [resume_of_none g.native_suspended, suspended] at shown
      obtain ⟨y, resumed, settled⟩ : ∃ y, z.step = .running y ∧ y.settled = _ := by
        rw [ended]
        simp only [CallSite.receive]
        cases resumed : resume link.dst (link.result.getD u) m' g x.callers with
        | finished m'' r =>
          rw [resumed] at shown
          cases shown
        | running y =>
          rw [resumed] at shown
          exact ⟨y, rfl, Status.running.inj shown⟩
      exact .value meanwhile resumed settled
    | error e =>
      obtain ⟨-, back⟩ := waits.backAtCall
      refine .failure meanwhile (back.trans ?_) ended
      rw [suspended, Frame.backAtCall, address, ← Frame.pc_settled]

/-- A call site is below all executions of the function that was called there. -/
theorem length_above (site : CallSite) (y : Execution) :
    site.callers.length < (y.above site).callers.length := by
  simp only [above, CallSite.length_under]
  omega

/-- The executions that `x` leads to while frames are active on top of `callers`. -/
def Over (callers : List Frame) (x : Execution) : Execution → Prop :=
  Relation.ReflTransGen (fun y z => y.Next z ∧ callers.length < z.callers.length) x

/-- The executions of a function that was called run on top of the frames below the call site. -/
theorem Leads.over {s : Execution} (leads : s.Leads y) (sound : s.Sound base) (site : CallSite) :
    (s.above site).Over site.callers (y.above site) := by
  induction leads with
  | refl => exact .refl
  | @tail y z before next ih =>
    refine ih.tail ⟨?_, length_above site z⟩
    rw [Next, (Leads.sound before sound).step_above, next]
    rfl

/-- Nothing else runs there as long as they go on. -/
theorem Over.above {s z : Execution} {site : CallSite} (run : (s.above site).Over site.callers z)
    (sound : s.Sound base) (running : ∀ y, s.Leads y → ∃ y', y.step = .running y') :
    ∃ y, s.Leads y ∧ z = y.above site := by
  induction run with
  | refl => exact ⟨s, .refl, rfl⟩
  | @tail z z' _ next ih =>
    obtain ⟨y, leads, rfl⟩ := ih
    obtain ⟨y', step⟩ := running y leads
    have moved : (y.above site).step = .running z' := next.1
    rw [(Leads.sound leads sound).step_above, step] at moved
    cases moved
    exact ⟨y', leads.tail step, rfl⟩

/-- The executions of a function that was called run while the call lasts. -/
theorem Leads.meanwhile {s : Execution} (leads : s.Leads y) (sound : s.Sound base) (site : CallSite)
    (stepped : x.step = .running (s.above site)) (below : site.callers = x.callers) :
    x.Meanwhile (y.above site) := by
  have active := length_above site s
  have run := leads.over sound site
  rw [below] at active run
  exact .head ⟨stepped, active⟩ run

/-- Nothing else runs while a call lasts. -/
theorem Meanwhile.above {s z : Execution} (meanwhile : x.Meanwhile z) (sound : s.Sound base)
    (site : CallSite) (stepped : x.step = .running (s.above site))
    (below : site.callers = x.callers)
    (running : ∀ y, s.Leads y → ∃ y', y.step = .running y') :
    z = x ∨ ∃ y, s.Leads y ∧ z = y.above site := by
  rcases meanwhile.cases_head with rfl | ⟨y, ⟨next, -⟩, run⟩
  · exact .inl rfl
  · cases stepped.symm.trans next
    rw [← below] at run
    exact .inr (Over.above run sound running)

variable {r : Outcome Value} {fuel : Nat}

/-- **A call instruction comes to what the call from outside comes to.** -/
theorem Sound.comes (h : x.Sound base) (stands : x.AtCall dst callee args)
    (ran : x.machine.call fuel callee args = some (m, r)) : x.Comes dst m r := by
  cases h.called stands with
  | failed fails call =>
    cases ran.symm.trans (call fuel)
    obtain ⟨frame, stepped, -, settled⟩ := h.step_of_fails fails
    exact .failure .refl settled stepped
  | @answered f op v m' succeeds call =>
    cases ran.symm.trans (call fuel)
    have stays : ∀ u, Effect.write dst v ≠ .ret u := fun u same => by cases same
    have calls : ∀ callee, Effect.write dst v ≠ .call callee := fun callee same => by cases same
    obtain ⟨frame, framed, native, seen⟩ := h.performs succeeds stays calls
    have same := (h.step_of_succeeds succeeds stays).trans seen
    cases stepped : x.step with
    | finished m' r' =>
      rw [stepped] at same
      cases same
    | running y =>
      rw [stepped] at same
      refine .value .refl stepped ((Status.running.inj same).trans ?_)
      simp only [Effect.frame, Effect.apply, RegisterFile.set] at framed
      split at framed <;> cases framed
      rw [settled_mk, Execution.settled, Frame.settled_of_none native]
      have address : (x.frame.settled.withValues
          (x.frame.settled.file.values.setIfInBounds dst.toNat v)).pc = x.frame.pc :=
        x.frame.pc_settled
      simp only [Effect.advance, address]
  | @entered f op frame m₁ result succeeds sound call =>
    rw [call] at ran
    obtain ⟨⟨m', r'⟩, ran', same⟩ := Option.map_eq_some_iff.mp ran
    cases same
    obtain ⟨g, stepped, suspended⟩ := h.step_of_enter succeeds
    obtain ⟨y, leads, ended⟩ := ends_of_run ran'
    have finishing := Leads.sound leads sound
    have final := finishing.step
    rw [ended] at final
    have advanced : m₁.descend.Continues m :=
      (leads.continues sound).trans (finishing.continues_of_finished ended)
    have continues : m₁.Continues m := ⟨advanced.functions, advanced.settings⟩
    have meanwhile := leads.meanwhile sound ⟨⟨dst, x.frame.pc, result⟩, g, x.callers⟩ stepped rfl
    refine h.receives sound.caller_of_outermost rfl stepped suspended continues final.1 final.2
      meanwhile ?_
    rw [finishing.step_above, ended]
    rfl

/-- **While the call from outside has no answer the call instruction lasts.** -/
theorem Sound.lasts (h : x.Sound base) (stands : x.AtCall dst callee args)
    (never : ∀ fuel, x.machine.call fuel callee args = none) {z : Execution}
    (meanwhile : x.Meanwhile z) : ∃ z', z.step = .running z' ∧ x.Meanwhile z' := by
  cases h.called stands with
  | failed fails call => cases (never 0).symm.trans (call 0)
  | answered succeeds call => cases (never 0).symm.trans (call 0)
  | @entered f op frame m₁ result succeeds sound call =>
    obtain ⟨g, stepped, -⟩ := h.step_of_enter succeeds
    have running : ∀ y, Leads ⟨m₁.descend, frame, []⟩ y → ∃ y', y.step = .running y' := by
      intro y leads
      cases ended : y.step with
      | running y' => exact ⟨y', rfl⟩
      | finished m r =>
        obtain ⟨fuel, ran⟩ := leads.run (run_finished ended 0)
        have answer := never fuel
        rw [call, ran] at answer
        cases answer
    let site : CallSite := ⟨⟨dst, x.frame.pc, result⟩, g, x.callers⟩
    rcases meanwhile.above sound site stepped rfl running with rfl | ⟨y, leads, rfl⟩
    · exact ⟨_, stepped, Leads.meanwhile .refl sound site stepped rfl⟩
    · obtain ⟨y', next⟩ := running y leads
      refine ⟨y'.above site, ?_, Leads.meanwhile (leads.tail next) sound site stepped rfl⟩
      rw [(Leads.sound leads sound).step_above, next]
      rfl

end Execution

namespace Machine

/-- What a class gives when it is called is its new instance. -/
theorem instance_of_call {m m' : Machine} {callee : Value} {args : List Value} {fuel : Nat}
    {handle : Handle} {v : Value} (called : m.heap.callable callee = .ok (.cls handle))
    (ran : m.call fuel callee args = some (m', .ok v)) :
    ∃ m₁, MachineM.instantiate handle args.length m = .ok v m₁ := by
  rw [call_eq, called] at ran
  simp only [prepare, Bind.bind, EStateM.bind] at ran
  cases made : MachineM.instantiate handle args.length m with
  | error e m₁ =>
    simp only [made] at ran
    cases ran
  | ok u m₁ =>
    simp only [made] at ran
    cases found : MachineM.initialiser? handle m₁ with
    | error e m₂ =>
      simp only [found] at ran
      cases ran
    | ok init m₂ =>
      simp only [found] at ran
      cases init with
      | none =>
        cases ran
        exact ⟨m₁, rfl⟩
      | some id =>
        obtain ⟨⟨m₃, r⟩, -, same⟩ := Option.map_eq_some_iff.mp ran
        cases r with
        | error e => cases same
        | ok w =>
          cases same
          exact ⟨m₁, rfl⟩

/-- **Calls from outside and calls by instructions agree.** An execution of a machine in use stands
at a call instruction, with a callee and arguments in its registers. The same value is called with
the same arguments from outside, on the machine of the execution.

* The machine and the result or failure of the call from outside are what the instruction comes to,
  in the interpreter or in a compiled loop, and whatever the callee is.
* When the call from outside has no answer, however much fuel it gets, the instruction lasts.
* What a class gives is its new instance, whatever its initialiser gives. -/
theorem call_agrees {m : Machine} (inUse : m.InUse) {x : Execution} (executes : m.Executes x)
    {dst : Register} {callee : Value} {args : List Value} (stands : x.AtCall dst callee args) :
    (∀ {fuel : Nat} {m' : Machine} {r : Outcome Value},
      x.machine.call fuel callee args = some (m', r) → x.Comes dst m' r) ∧
    ((∀ fuel, x.machine.call fuel callee args = none) →
      ∀ {z : Execution}, x.Meanwhile z → ∃ z', z.step = .running z' ∧ x.Meanwhile z') ∧
    ∀ {handle : Handle} {fuel : Nat} {m' : Machine} {v : Value},
      x.machine.heap.callable callee = .ok (.cls handle) →
      x.machine.call fuel callee args = some (m', .ok v) →
      ∃ m₁, MachineM.instantiate handle args.length x.machine = .ok v m₁ :=
  have sound := executes.sound inUse
  ⟨fun ran => sound.comes stands ran, fun never _ meanwhile => sound.lasts stands never meanwhile,
    instance_of_call⟩

/-- A class is called whose initialiser gives 7. -/
theorem call_agrees_class :
    ∃ (c : Chunk) (id : FunctionId) (m : Machine) (x : Execution) (callee : Value) (m' : Machine)
      (h : Handle),
      (start .standard).load c = .ok (id, m) ∧ m.Executes x ∧ x.AtCall ⟨1⟩ callee [] ∧
      x.machine.call 2 callee [] = some (m', .ok (.object h)) ∧
      x.Comes ⟨1⟩ m' (.ok (.object h)) := by
  let f : Chunk := ⟨"__init__", #[⟨.loadInt ⟨0⟩ 7, none⟩, ⟨.ret ⟨0⟩, none⟩], #[], 1, 1, []⟩
  let c : Chunk := ⟨"main", #[⟨.build .dict ⟨0⟩ ⟨0⟩ 0, none⟩, ⟨.makeClass ⟨0⟩ 0 ⟨0⟩ none, none⟩,
    ⟨.makeFunction ⟨1⟩ 0, none⟩, ⟨.setAttr ⟨0⟩ 1 ⟨1⟩, none⟩, ⟨.call ⟨1⟩ ⟨0⟩ ⟨0⟩ 0, none⟩,
    ⟨.ret ⟨1⟩, none⟩], #[.str "A", .str "__init__"], 2, 0, [f]⟩
  obtain ⟨m, load, x, runs, callee, stands, m', h, ran⟩ : ∃ m,
      (start .standard).load c = .ok (1, m) ∧ ∃ x, m.Runs 1 [] x ∧
        ∃ callee, x.AtCall ⟨1⟩ callee [] ∧
          ∃ m' h, x.machine.call 2 callee [] = some (m', .ok (.object h)) := by
    exact ⟨_, rfl, _, ⟨_, _, rfl, .tail (.tail (.tail (.tail .refl rfl) rfl) rfl) rfl⟩, _,
      ⟨_, _, _, _, rfl, rfl, rfl, rfl⟩, _, _, rfl⟩
  have executes : m.Executes x := .ofRuns (fun v hv => by cases hv) runs
  obtain ⟨agrees, -, -⟩ := call_agrees (.load (.start .standard) load) executes stands
  exact ⟨c, 1, m, x, callee, m', h, load, executes, stands, ran, agrees ran⟩

end Machine

end RegisterVm
