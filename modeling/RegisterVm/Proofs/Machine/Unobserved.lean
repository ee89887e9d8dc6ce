import Mathlib.Data.List.Forall2
import RegisterVm.Machine.Call
import RegisterVm.Proofs.Machine.Inline
import RegisterVm.Proofs.Machine.Operation

/-!
# What executions do not observe

No instruction looks at what was printed or recorded so far, nor at the register files that wait for
reuse. Two machines that differ in these resemble each other (`Machine.Resembles`). An operation
that takes such machines to such machines, with the same results, is `MachineM.Blind`; all
instructions are (`MachineM.blind_exec`). So executions on such machines take the same steps
(`Execution.Resembles.step`), and a call has the same result on both, prints the same and records
the same (`Machine.Resembles.execute`).
-/

namespace RegisterVm

variable {α β : Type}

/-- What was printed and recorded at an earlier time. -/
structure Past where
  output : String
  events : Array LoopEvent

/-! ## Machines and frames -/

namespace Machine

/-- The machine with something printed and recorded before, and with other free register files. -/
def behind (past : Past) (arena : Arena) : Machine → Machine
  | ⟨heap, library, output, globals, builtins, functionObjects, config, events, _, depth⟩ =>
    ⟨heap, library, past.output ++ output, globals, builtins, functionObjects, config,
      past.events ++ events, arena, depth⟩

/-- `n` is `m` but for a past in front of what was printed and recorded, and free register files. -/
def Resembles (past : Past) (m n : Machine) : Prop := ∃ arena, n = m.behind past arena

end Machine

namespace Frame

/-- The frame with a register file that was set aside or not. -/
def filed (allocated : Bool) : Frame → Frame
  | ⟨function, ⟨values, _⟩, pc, handlers, caller, native⟩ =>
    ⟨function, ⟨values, allocated⟩, pc, handlers, caller, native⟩

/-- Two frames that have the same registers, wherever their files come from. -/
def Resembles (frame frame' : Frame) : Prop := ∃ allocated, frame' = frame.filed allocated

end Frame

/-- Two effects that are the same, but for the register file of a frame that is entered. -/
inductive Effect.Resembles : Effect → Effect → Prop
  | same (effect : Effect) : Resembles effect effect
  | call {frame frame' : Frame} : frame.Resembles frame' → Resembles (.call frame) (.call frame')

/-! ## Operations -/

namespace MachineM

/-- Results that are alike on two machines that resemble each other. -/
inductive Matched (past : Past) (alike : α → α → Prop) :
    EStateM.Result Failure Machine α → EStateM.Result Failure Machine α → Prop
  | ok {a b : α} {m n : Machine} : alike a b → m.Resembles past n →
    Matched past alike (.ok a m) (.ok b n)
  | error {e : Failure} {m n : Machine} : m.Resembles past n →
    Matched past alike (.error e m) (.error e n)

/-- An operation that does not observe what machines that resemble each other differ in. -/
def Blind (alike : α → α → Prop) (operation : MachineM α) : Prop :=
  ∀ (past : Past) (m n : Machine), m.Resembles past n →
    Matched past alike (operation m) (operation n)

namespace Blind

variable {operation : MachineM α} {alike : α → α → Prop}

@[grind ←] theorem pure (a : α) : Blind Eq (pure a) := fun _ _ _ h => .ok rfl h

theorem bind {alike : β → β → Prop} {f : α → MachineM β} (ho : Blind Eq operation)
    (hf : ∀ a, Blind alike (f a)) : Blind alike (operation >>= f) := by
  intro past m n h
  have first := ho past m n h
  simp only [Bind.bind, EStateM.bind]
  generalize operation m = r, operation n = r' at first
  cases first with
  | ok same h' =>
    subst same
    exact hf _ past _ _ h'
  | error h' => exact .error h'

/-- Where results are the same they are alike. -/
theorem weaken (refl : ∀ a, alike a a) (ho : Blind Eq operation) : Blind alike operation := by
  intro past m n h
  have first := ho past m n h
  generalize operation m = r, operation n = r' at first
  cases first with
  | ok same h' =>
    subst same
    exact .ok (refl _) h'
  | error h' => exact .error h'

theorem onHeap (operation : HeapM α) : Blind Eq (onHeap operation) := by
  rintro past ⟨heap, library, output, globals, builtins, objects, config, events, files, depth⟩ _
    ⟨arena, rfl⟩
  simp only [Machine.behind, MachineM.onHeap]
  cases operation heap with
  | ok a heap => exact .ok rfl ⟨arena, rfl⟩
  | error e heap => exact .error ⟨arena, rfl⟩

/-- An operation that only asks the machine, for something that does not depend on the past. -/
theorem query {g : Machine → Outcome α}
    (eq : ∀ m, operation m = match g m with
      | .ok a => .ok a m
      | .error e => .error e m)
    (same : ∀ past arena m, g (m.behind past arena) = g m) : Blind Eq operation := by
  rintro past m _ ⟨arena, rfl⟩
  rw [eq, eq, same]
  cases g m with
  | ok a => exact .ok rfl ⟨arena, rfl⟩
  | error e => exact .error ⟨arena, rfl⟩

@[grind ←] theorem read (f : Heap → Outcome α) : Blind Eq (read f) :=
  query (g := fun m => f m.heap) (fun _ => rfl) fun _ _ _ => rfl

theorem ofOutcome (o : Outcome α) : Blind Eq (ofOutcome o) :=
  query (g := fun _ => o) (fun _ => rfl) fun _ _ _ => rfl

@[grind ←] theorem fail (fault : Fault) : Blind Eq (fail fault : MachineM α) :=
  query (g := fun _ => refuse fault) (fun _ => rfl) fun _ _ _ => rfl

/-- A change of the machine that the past takes no part in. -/
theorem modify {f : Machine → Machine}
    (same : ∀ past arena m, f (m.behind past arena) = (f m).behind past arena) :
    Blind Eq (modify f : MachineM Unit) := by
  rintro past m _ ⟨arena, rfl⟩
  exact .ok rfl ⟨arena, same past arena m⟩

end Blind

theorem blind_function (id : FunctionId) : Blind Eq (function id) := by
  rintro past m _ ⟨arena, rfl⟩
  have same : (m.behind past arena).library.function? id = m.library.function? id := rfl
  simp only [function, same]
  cases m.library.function? id with
  | none => exact .error ⟨arena, rfl⟩
  | some f => exact .ok rfl ⟨arena, rfl⟩

theorem blind_global (name : String) : Blind Eq (global name) := by
  refine .query (g := fun m => (m.global? name).elim (refuse (.undefinedName name)) .ok)
    (fun m => ?_) fun _ _ _ => rfl
  have asked : (get : MachineM Machine) m = .ok m m := rfl
  simp only [global, Bind.bind, EStateM.bind, asked]
  cases m.global? name <;> rfl

theorem blind_functionObject (id : FunctionId) (name : String) :
    Blind Eq (functionObject id name) := by
  have made : Blind Eq (do
      let v ← onHeap (HeapM.alloc (.function id name))
      modifyThe Machine fun m => { m with functionObjects := (id, v) :: m.functionObjects }
      return v) :=
    .bind (.onHeap _) fun v => .bind (.modify fun _ _ _ => rfl) fun _ => .pure v
  rintro past m _ ⟨arena, rfl⟩
  have asked : ∀ m, (get : MachineM Machine) m = .ok m m := fun _ => rfl
  have same : (m.behind past arena).functionObjects = m.functionObjects := rfl
  simp only [functionObject, Bind.bind, EStateM.bind, asked, same]
  cases m.functionObjects.lookup id with
  | none => exact made past m _ ⟨arena, rfl⟩
  | some v => exact .ok rfl ⟨arena, rfl⟩

theorem blind_callBuiltin (f : Builtin) (args : List Value) : Blind Eq (callBuiltin f args) := by
  refine .bind (.onHeap _) fun reply => .bind (.modify fun past arena m => ?_) fun _ => .pure _
  simp only [Machine.print, Machine.behind, String.append_assoc]

theorem blind_checkDepth : Blind Eq checkDepth := by
  refine .query
    (g := fun m => if m.config.maxDepth ≤ m.depth then refuse .recursionLimit else .ok ())
    (fun m => ?_) fun _ _ _ => rfl
  simp only [checkDepth]
  split <;> rfl

/-- A call gets the same registers, whichever file they are in. -/
theorem blind_enter (id : FunctionId) (args : List Value) (link : Option CallerLink) :
    Blind Frame.Resembles (enter id args link) := by
  refine .bind (blind_function id) fun f => .bind blind_checkDepth fun _ => ?_
  rintro past m _ ⟨arena, rfl⟩
  simp only [Machine.behind, Frame.enter, Arena.values_take]
  by_cases count : args.length ≠ f.chunk.paramCount.toNat
  · simp only [if_pos count]
    exact .error ⟨arena, rfl⟩
  · simp only [if_neg count]
    exact .ok ⟨_, rfl⟩ ⟨_, rfl⟩

theorem blind_initialiser? (cls : Handle) : Blind Eq (initialiser? cls) := .read _

theorem blind_instantiate (cls : Handle) (argumentCount : Nat) :
    Blind Eq (instantiate cls argumentCount) := by
  refine .bind (.onHeap _) fun v => ?_
  dsimp only
  split
  · exact .bind (.read _) fun _ => .pure v
  · exact .bind (.pure PUnit.unit) fun _ => .pure v

theorem blind_makeClass (name : String) (body : Value) (base : Option Value) :
    Blind Eq (makeClass name body base) := by
  refine .bind (.read _) fun attributes => ?_
  cases base with
  | none => exact .bind (.pure _) fun _ => .onHeap _
  | some v => exact .bind (.bind (.read _) fun _ => .pure _) fun _ => .onHeap _

/-! ### Instructions -/

theorem blind_nameOf (f : LoadedFunction) (index : UInt32) : Blind Eq (nameOf f index) := by
  unfold nameOf
  grind

theorem blind_constant (f : LoadedFunction) (index : UInt32) : Blind Eq (constant f index) := by
  have shared : ∀ s, Blind Eq (onHeap (HeapM.intern s)) := fun s => .onHeap _
  unfold constant
  grind

theorem blind_store (dst : Register) (operation : HeapM Value) :
    Blind Eq (store dst operation) :=
  .bind (.onHeap _) fun _ => .pure _

theorem blind_jumpWhen (on : Bool) (v : Value) (target : UInt32) :
    Blind Eq (jumpWhen on v target) := by
  refine .bind (.read _) fun t => ?_
  split <;> exact .pure _

/-- An instruction that calls nothing. -/
theorem Blind.effect {operation : MachineM Effect} (ho : Blind Eq operation) :
    Blind Effect.Resembles operation :=
  ho.weaken .same

theorem blind_invoke (values : Array Value) (pc : Nat) (callable : Callable)
    (dst args : Register) (argc : UInt32) :
    Blind Effect.Resembles (invoke values pc callable dst args argc) := by
  have entered : ∀ id args result,
      Blind Effect.Resembles (do return .call (← enter id args (some ⟨dst, pc, result⟩))) := by
    intro id args result past m n h
    have calls := blind_enter id args (some ⟨dst, pc, result⟩) past m n h
    simp only [Bind.bind, EStateM.bind]
    generalize enter id args (some ⟨dst, pc, result⟩) m = r,
      enter id args (some ⟨dst, pc, result⟩) n = r' at calls
    cases calls with
    | ok same h' => exact .ok (.call same) h'
    | error h' => exact .error h'
  have window : Blind Eq (window values args argc.toNat) := .ofOutcome _
  cases callable with
  | function id receiver => exact .bind window fun _ => entered id _ none
  | builtin f =>
    exact .effect (.bind window fun _ => .bind (blind_callBuiltin f _) fun _ => .pure _)
  | builtinMethod receiver name => exact .bind window fun _ => .effect (blind_store dst _)
  | cls handle =>
    refine .bind (blind_instantiate handle _) fun v => .bind (blind_initialiser? handle) ?_
    intro found
    cases found with
    | none => exact .effect (.pure _)
    | some id => exact .bind window fun _ => entered id _ (some v)
  | exceptionClass kind => exact .bind window fun _ => .effect (blind_store dst _)

/-- **No instruction observes** what was printed or recorded before, nor the free register files. -/
theorem blind_exec (f : LoadedFunction) (values : Array Value) (pc : Nat) (op : Opcode) :
    Blind Effect.Resembles (exec f values pc op) := by
  have reg : ∀ r, Blind Eq (reg values r) := fun r => .ofOutcome _
  have next : ∀ operation : HeapM Unit, Blind Eq (do onHeap operation; return Effect.next) :=
    fun _ => .bind (.onHeap _) fun _ => .pure _
  cases op with
  | loadInt | loadBool | loadNone | jump | retNone | nop | pushTry | popTry =>
    exact .effect (.pure _)
  | loadConst dst index => exact .effect (.bind (blind_constant f index) fun _ => .pure _)
  | move dst src | ret src => exact .effect (.bind (reg src) fun _ => .pure _)
  | loadGlobal dst name =>
    exact .effect (.bind (blind_nameOf f name) fun text =>
      .bind (blind_global text) fun _ => .pure _)
  | storeGlobal name src =>
    exact .effect (.bind (blind_nameOf f name) fun _ => .bind (reg src) fun _ =>
      .bind (.modify fun _ _ _ => rfl) fun _ => .pure _)
  | binary _ dst lhs rhs | fast _ dst lhs rhs | compare _ dst lhs rhs | fastLess dst lhs rhs =>
    exact .effect (.bind (reg lhs) fun _ => .bind (reg rhs) fun _ => blind_store dst _)
  | unary _ dst src | getIter dst src =>
    exact .effect (.bind (reg src) fun _ => blind_store dst _)
  | increment r | decrement r => exact .effect (.bind (reg r) fun _ => blind_store r _)
  | update form r src =>
    cases form <;>
      exact .effect (.bind (reg r) fun _ => .bind (reg src) fun _ => blind_store r _)
  | branch on cond target => exact .effect (.bind (reg cond) fun v => blind_jumpWhen on v target)
  | build form dst start count => exact .effect (.bind (.ofOutcome _) fun _ => blind_store dst _)
  | getItem dst container key =>
    exact .effect (.bind (reg container) fun _ => .bind (reg key) fun _ => blind_store dst _)
  | setItem container key src =>
    exact .effect (.bind (reg container) fun _ => .bind (reg key) fun _ => .bind (reg src) fun _ =>
      next _)
  | slice dst container start stop =>
    exact .effect (.bind (reg container) fun _ => .bind (reg start) fun _ =>
      .bind (reg stop) fun _ => blind_store dst _)
  | append list src =>
    exact .effect (.bind (reg list) fun _ => .bind (reg src) fun _ => next _)
  | len dst src => exact .effect (.bind (reg src) fun _ => .bind (.read _) fun _ => .pure _)
  | forIter dst iter exit =>
    refine .effect (.bind (reg iter) fun _ => .bind (.onHeap _) fun item => ?_)
    cases item <;> exact .pure _
  | getAttr dst obj name =>
    exact .effect (.bind (reg obj) fun _ => .bind (blind_nameOf f name) fun _ =>
      blind_store dst _)
  | setAttr obj name src =>
    exact .effect (.bind (reg obj) fun _ => .bind (blind_nameOf f name) fun _ =>
      .bind (reg src) fun _ => next _)
  | callMethod dst obj name args argc =>
    exact .bind (reg obj) fun _ => .bind (blind_nameOf f name) fun _ =>
      .bind (.onHeap _) fun callable => blind_invoke values pc callable dst args argc
  | call dst callee args argc =>
    exact .bind (reg callee) fun _ => .bind (.read _) fun callable =>
      blind_invoke values pc callable dst args argc
  | makeFunction dst index =>
    refine .effect ?_
    simp only [exec]
    split
    · exact .bind (blind_function _) fun _ =>
        .bind (blind_functionObject _ _) fun _ => .pure _
    · exact .fail _
  | makeClass dst name body base =>
    refine .effect (.bind (blind_nameOf f name) fun text => .bind (reg body) fun v => ?_)
    cases base with
    | none => exact .bind (.pure _) fun base => .bind (blind_makeClass text v base) fun _ => .pure _
    | some r =>
      exact .bind (.bind (reg r) fun _ => .pure _) fun base =>
        .bind (blind_makeClass text v base) fun _ => .pure _
  | raise src => exact .effect (.bind (reg src) fun _ => .onHeap _)

end MachineM

/-! ## Executions -/

/-- Two executions that have the same registers on machines that resemble each other. -/
structure Execution.Resembles (past : Past) (x y : Execution) : Prop where
  machine : x.machine.Resembles past y.machine
  frame : x.frame.Resembles y.frame
  callers : List.Forall₂ Frame.Resembles x.callers y.callers

inductive Status.Resembles (past : Past) : Status → Status → Prop
  | running {x y : Execution} : x.Resembles past y → Resembles past (.running x) (.running y)
  | finished {m n : Machine} (result : Outcome Value) : m.Resembles past n →
    Resembles past (.finished m result) (.finished n result)

theorem Machine.Resembles.retire {past : Past} {m n : Machine} (h : m.Resembles past n)
    (file file' : RegisterFile) : (m.retire file).Resembles past (n.retire file') := by
  obtain ⟨arena, rfl⟩ := h
  exact ⟨_, rfl⟩

theorem Machine.Resembles.descend {past : Past} {m n : Machine} (h : m.Resembles past n) :
    m.descend.Resembles past n.descend := by
  obtain ⟨arena, rfl⟩ := h
  exact ⟨arena, rfl⟩

theorem Machine.Resembles.function? {past : Past} {m n : Machine} (h : m.Resembles past n)
    (id : FunctionId) : n.library.function? id = m.library.function? id := by
  obtain ⟨arena, rfl⟩ := h
  rfl

namespace Frame

variable {frame frame' : Frame}

theorem leaveLoop_filed (allocated : Bool) (n : NativeRegisters) (frame : Frame) :
    (frame.filed allocated).leaveLoop n = (frame.leaveLoop n).map (filed allocated) := by
  obtain ⟨function, ⟨values, own⟩, pc, handlers, caller, native⟩ := frame
  simp only [leaveLoop, filed, Bind.bind, Except.bind]
  cases decodeRegisters n.loop.registers (copySlots n.loop.registers n.vars n.slots) values <;> rfl

theorem leaveFailed_filed (allocated : Bool) (e : Failure) (frame : Frame) :
    (frame.filed allocated).leaveFailed e =
      ((frame.leaveFailed e).1, (frame.leaveFailed e).2.filed allocated) := by
  obtain ⟨function, file, pc, handlers, caller, native⟩ := frame
  cases native with
  | none => rfl
  | some n =>
    have left := leaveLoop_filed allocated n ⟨function, file, pc, handlers, caller, some n⟩
    simp only [leaveFailed, filed] at left ⊢
    rw [left]
    cases leaveLoop n ⟨function, file, pc, handlers, caller, some n⟩ <;> rfl

theorem Resembles.backAtCall (h : frame.Resembles frame') (link : Option CallerLink) :
    (frame.backAtCall link).Resembles (frame'.backAtCall link) := by
  obtain ⟨allocated, rfl⟩ := h
  cases link <;> exact ⟨allocated, rfl⟩

end Frame

theorem unwind_resembles {past : Past} {m n : Machine} {frame frame' : Frame}
    {callers callers' : List Frame} (hm : m.Resembles past n) (hf : frame.Resembles frame')
    (hc : List.Forall₂ Frame.Resembles callers callers') (e : Failure) :
    (unwind e m frame callers).Resembles past (unwind e n frame' callers') := by
  obtain ⟨allocated, rfl⟩ := hf
  rw [unwind.eq_def e n, Frame.leaveFailed_filed, unwind.eq_def e m]
  generalize frame.leaveFailed e = left
  obtain ⟨e, function, ⟨values, own⟩, pc, handlers, link, native⟩ := left
  cases handlers with
  | cons k rest =>
    have caught := MachineM.Blind.onHeap (HeapM.caught e) past m n hm
    simp only [Frame.filed]
    generalize MachineM.onHeap (HeapM.caught e) m = r,
      MachineM.onHeap (HeapM.caught e) n = r' at caught
    cases caught with
    | ok same h =>
      subst same
      exact .running ⟨h, ⟨_, rfl⟩, hc⟩
    | error h => exact .finished _ h
  | nil =>
    -- No handler here: the failure goes on to the caller.
    simp only [Frame.filed, traceEntry, hm.function?]
    cases hc with
    | nil => exact .finished _ (hm.retire _ _)
    | cons same rest => exact unwind_resembles (hm.retire _ _) (same.backAtCall _) rest _
termination_by callers.length

section Steps

variable {past : Past} {m n : Machine} {frame frame' : Frame} {callers callers' : List Frame}

theorem continueAt_resembles (hm : m.Resembles past n) (hf : frame.Resembles frame')
    (hc : List.Forall₂ Frame.Resembles callers callers') (regs : NativeRegisters) (target : Nat) :
    (continueAt regs target m frame callers).Resembles past
      (continueAt regs target n frame' callers') := by
  obtain ⟨allocated, rfl⟩ := hf
  unfold continueAt
  split
  · exact .running ⟨hm, ⟨allocated, rfl⟩, hc⟩
  · rw [Frame.leaveLoop_filed]
    cases frame.leaveLoop regs with
    | error e =>
      have left : Frame.Resembles { frame with native := none }
          { frame.filed allocated with native := none } := ⟨allocated, rfl⟩
      exact unwind_resembles hm left hc e
    | ok frame =>
      have same : (frame.filed allocated).function = frame.function := rfl
      simp only [Except.map, same, hm.function?]
      cases m.library.function? frame.function with
      | none => exact unwind_resembles hm ⟨allocated, rfl⟩ hc _
      | some f =>
        simp only
        split
        · exact .running ⟨hm, ⟨allocated, rfl⟩, hc⟩
        · exact unwind_resembles hm ⟨allocated, rfl⟩ hc _

theorem resume_resembles (hm : m.Resembles past n) (hf : frame.Resembles frame')
    (hc : List.Forall₂ Frame.Resembles callers callers') (dst : Register) (v : Value) :
    (resume dst v m frame callers).Resembles past (resume dst v n frame' callers') := by
  obtain ⟨allocated, rfl⟩ := hf
  obtain ⟨function, ⟨values, own⟩, pc, handlers, link, native⟩ := frame
  cases native with
  | none => exact .running ⟨hm, ⟨allocated, rfl⟩, hc⟩
  | some regs =>
    simp only [resume, Frame.filed, hm.function?]
    exact continueAt_resembles hm ⟨allocated, rfl⟩ hc _ _

theorem finish_resembles (hm : m.Resembles past n) (hf : frame.Resembles frame')
    (hc : List.Forall₂ Frame.Resembles callers callers') (v : Value) :
    (finish v m frame callers).Resembles past (finish v n frame' callers') := by
  obtain ⟨allocated, rfl⟩ := hf
  obtain ⟨function, ⟨values, own⟩, pc, handlers, link, native⟩ := frame
  cases hc with
  | nil => exact .finished _ (hm.retire _ _)
  | cons same rest =>
    cases link with
    | none => exact .running ⟨hm.retire _ _, same, rest⟩
    | some link => exact resume_resembles (hm.retire _ _) same rest _ _

theorem backEdge_resembles (hm : m.Resembles past n) (hf : frame.Resembles frame')
    (id : FunctionId) (f : LoadedFunction) (header : Nat) :
    (backEdge id f header m frame).1.Resembles past (backEdge id f header n frame').1 ∧
      (backEdge id f header m frame).2.Resembles (backEdge id f header n frame').2 := by
  obtain ⟨allocated, rfl⟩ := hf
  obtain ⟨arena, rfl⟩ := hm
  have same : (m.behind past arena).library = m.library := rfl
  have settings : (m.behind past arena).config = m.config := rfl
  have recorded : ∀ (g : Library → Library) event,
      (((m.behind past arena).mapLibrary g).record event) =
        ((m.mapLibrary g).record event).behind past arena := by
    intro g event
    simp only [Machine.behind, Machine.mapLibrary, Machine.record, Array.append_push]
  unfold backEdge
  rw [same, settings]
  split
  · exact ⟨⟨arena, rfl⟩, ⟨allocated, rfl⟩⟩
  · split
    · refine ⟨⟨arena, rfl⟩, ?_⟩
      split <;> exact ⟨allocated, rfl⟩
    · dsimp only
      split
      · unfold promote
        dsimp only
        split
        · exact ⟨⟨arena, recorded _ _⟩, ⟨allocated, rfl⟩⟩
        · exact ⟨⟨arena, recorded _ _⟩, ⟨allocated, rfl⟩⟩
      · exact ⟨⟨arena, rfl⟩, ⟨allocated, rfl⟩⟩

theorem branchTo_resembles (hm : m.Resembles past n) (hf : frame.Resembles frame')
    (hc : List.Forall₂ Frame.Resembles callers callers') (f : LoadedFunction) (target : Nat) :
    (branchTo f target m frame callers).Resembles past (branchTo f target n frame' callers') := by
  obtain ⟨allocated, rfl⟩ := hf
  have moved : Frame.Resembles { frame with pc := target }
      { frame.filed allocated with pc := target } := ⟨allocated, rfl⟩
  have counted := backEdge_resembles hm moved frame.function f target
  have pc : (frame.filed allocated).pc = frame.pc := rfl
  unfold branchTo
  simp only [pc]
  split
  · exact .running ⟨counted.1, counted.2, hc⟩
  · exact .running ⟨hm, moved, hc⟩

theorem perform_resembles (hm : m.Resembles past n) (hf : frame.Resembles frame')
    (hc : List.Forall₂ Frame.Resembles callers callers') {effect effect' : Effect}
    (he : effect.Resembles effect') (f : LoadedFunction) :
    (perform effect f m frame callers).Resembles past (perform effect' f n frame' callers') := by
  obtain ⟨allocated, rfl⟩ := hf
  cases he with
  | call same => exact .running ⟨hm.descend, same, .cons ⟨allocated, rfl⟩ hc⟩
  | same effect =>
    cases effect with
    | next | guard | unguard => exact .running ⟨hm, ⟨allocated, rfl⟩, hc⟩
    | call callee =>
      exact .running ⟨hm.descend, ⟨callee.file.allocated, rfl⟩, .cons ⟨allocated, rfl⟩ hc⟩
    | jump target => exact branchTo_resembles hm ⟨allocated, rfl⟩ hc f target
    | ret v => exact finish_resembles hm ⟨allocated, rfl⟩ hc v
    | write dst v =>
      obtain ⟨function, ⟨values, own⟩, pc, handlers, link, native⟩ := frame
      change Status.Resembles past (if dst.toNat < values.size then _ else _)
        (if dst.toNat < values.size then _ else _)
      split
      · exact .running ⟨hm, ⟨allocated, rfl⟩, hc⟩
      · exact unwind_resembles hm ⟨allocated, rfl⟩ hc _

theorem interpret_resembles (hm : m.Resembles past n) (hf : frame.Resembles frame')
    (hc : List.Forall₂ Frame.Resembles callers callers') (f : LoadedFunction) :
    (interpret f m frame callers).Resembles past (interpret f n frame' callers') := by
  obtain ⟨allocated, rfl⟩ := hf
  have pc : (frame.filed allocated).pc = frame.pc := rfl
  have values : (frame.filed allocated).file.values = frame.file.values := rfl
  cases hop : f.chunk.opcode? frame.pc with
  | none =>
    simp only [interpret, pc, hop]
    exact finish_resembles hm ⟨allocated, rfl⟩ hc .none
  | some op =>
    rw [interpret_eq hop, interpret_eq (pc ▸ hop), values, pc]
    have executed := MachineM.blind_exec f frame.file.values frame.pc op past m n hm
    generalize MachineM.exec f frame.file.values frame.pc op m = r,
      MachineM.exec f frame.file.values frame.pc op n = r' at executed
    cases executed with
    | ok alike h => exact perform_resembles h ⟨allocated, rfl⟩ hc alike f
    | error h => exact unwind_resembles h ⟨allocated, rfl⟩ hc _

/-! ### Compiled loops -/

theorem afterHelper_resembles (hm : m.Resembles past n) (hf : frame.Resembles frame')
    (hc : List.Forall₂ Frame.Resembles callers callers') {effect effect' : Effect}
    (he : effect.Resembles effect') (target : Option Nat) (regs : NativeRegisters) :
    (afterHelper effect target regs m frame callers).Resembles past
      (afterHelper effect' target regs n frame' callers') := by
  obtain ⟨allocated, rfl⟩ := hf
  cases he with
  | call same => exact .running ⟨hm.descend, same, .cons ⟨allocated, rfl⟩ hc⟩
  | same effect =>
    cases effect with
    | next | write | jump => exact continueAt_resembles hm ⟨allocated, rfl⟩ hc regs _
    | call callee =>
      exact .running ⟨hm.descend, ⟨callee.file.allocated, rfl⟩, .cons ⟨allocated, rfl⟩ hc⟩
    | ret v =>
      have entered : Frame.Resembles { frame with native := some regs }
          { frame.filed allocated with native := some regs } := ⟨allocated, rfl⟩
      exact unwind_resembles hm entered hc _
    | guard k =>
      have guarded : Frame.Resembles { frame with handlers := k :: frame.handlers }
          { frame.filed allocated with handlers := k :: frame.handlers } := ⟨allocated, rfl⟩
      exact continueAt_resembles hm guarded hc regs _
    | unguard =>
      have unguarded : Frame.Resembles { frame with handlers := frame.handlers.tail }
          { frame.filed allocated with handlers := frame.handlers.tail } := ⟨allocated, rfl⟩
      exact continueAt_resembles hm unguarded hc regs _

theorem help_resembles (hm : m.Resembles past n) (hf : frame.Resembles frame')
    (hc : List.Forall₂ Frame.Resembles callers callers') (f : LoadedFunction) (op : Opcode)
    (target : Option Nat) (regs : NativeRegisters) :
    (help f op target regs m frame callers).Resembles past
      (help f op target regs n frame' callers') := by
  obtain ⟨allocated, rfl⟩ := hf
  obtain ⟨function, ⟨values, own⟩, pc, handlers, link, native⟩ := frame
  have failed : ∀ {m n : Machine} (values : Array Value) (regs : NativeRegisters) (e : Failure),
      m.Resembles past n →
      (unwind e m ⟨function, ⟨values, own⟩, pc, handlers, link, some regs⟩ callers).Resembles past
        (unwind e n ⟨function, ⟨values, allocated⟩, pc, handlers, link, some regs⟩ callers') :=
    fun _ _ _ hm => unwind_resembles hm ⟨allocated, rfl⟩ hc _
  simp only [help, MachineM.helperStep, Frame.filed]
  cases decodeRegisters op.registers (copySlots op.registers regs.vars regs.slots) values with
  | error e => exact failed _ _ _ hm
  | ok values =>
    have executed := MachineM.blind_exec f values pc op past m n hm
    simp only
    generalize MachineM.exec f values pc op m = r, MachineM.exec f values pc op n = r' at executed
    cases executed with
    | error h => exact failed _ _ _ h
    | @ok effect effect' m n alike h =>
      have applied : effect'.apply values = effect.apply values := by cases alike <;> rfl
      simp only [applied]
      cases effect.apply values with
      | error e => exact failed _ _ _ h
      | ok values => exact afterHelper_resembles h ⟨allocated, rfl⟩ hc alike target _

theorem runNative_resembles (hm : m.Resembles past n) (hf : frame.Resembles frame')
    (hc : List.Forall₂ Frame.Resembles callers callers') (f : LoadedFunction)
    (regs : NativeRegisters) :
    (runNative f regs m frame callers).Resembles past (runNative f regs n frame' callers') := by
  obtain ⟨allocated, rfl⟩ := hf
  obtain ⟨loop, vars, slots⟩ := regs
  have failed : ∀ (native : Option NativeRegisters) (e : Failure),
      (unwind e m { frame with native } callers).Resembles past
        (unwind e n { frame.filed allocated with native } callers') :=
    fun _ _ => unwind_resembles hm ⟨allocated, rfl⟩ hc _
  have pc : (frame.filed allocated).pc = frame.pc := rfl
  have heap : n.heap = m.heap := by
    obtain ⟨arena, rfl⟩ := hm
    rfl
  simp only [runNative, pc, heap]
  split
  · rename_i form op _ _
    split
    · exact continueAt_resembles hm ⟨allocated, rfl⟩ hc _ _
    · exact help_resembles hm ⟨allocated, rfl⟩ hc f op _ _
    · rw [Frame.leaveLoop_filed]
      cases frame.leaveLoop _ with
      | error e => exact failed none e
      | ok frame => exact .running ⟨hm, ⟨allocated, rfl⟩, hc⟩
    · exact failed (some _) _
  · exact failed (some _) _

end Steps

namespace Execution

variable {past : Past}

/-- **A step does not observe** what was printed or recorded before, nor where register files come
from. -/
theorem Resembles.step {x y : Execution} (h : x.Resembles past y) :
    x.step.Resembles past y.step := by
  obtain ⟨m, frame, callers⟩ := x
  obtain ⟨n, frame', callers'⟩ := y
  obtain ⟨hm, ⟨allocated, same⟩, hc⟩ := h
  obtain ⟨function, ⟨values, own⟩, pc, handlers, link, native⟩ := frame
  obtain rfl : frame' = _ := same
  simp only [Execution.step, Frame.filed, hm.function?]
  cases m.library.function? function with
  | none => exact unwind_resembles hm ⟨allocated, rfl⟩ hc _
  | some f =>
    cases native with
    | none => exact interpret_resembles hm ⟨allocated, rfl⟩ hc f
    | some regs => exact runNative_resembles hm ⟨allocated, rfl⟩ hc f regs

/-- Answers that are the same, on machines that resemble each other. -/
def AnswersResemble (past : Past) : Machine.Answer → Machine.Answer → Prop :=
  Option.Rel fun a b => a.1.Resembles past b.1 ∧ a.2 = b.2

theorem Resembles.run {x y : Execution} (h : x.Resembles past y) (fuel : Nat) :
    AnswersResemble past (x.run fuel) (y.run fuel) := by
  induction fuel generalizing x y with
  | zero => exact .none
  | succ fuel ih =>
    have stepped := h.step
    simp only [Execution.run]
    generalize x.step = s, y.step = s' at stepped
    cases stepped with
    | running h => exact ih h
    | finished result h => exact .some ⟨h, rfl⟩

end Execution

/-- **A call does not observe** what was printed or recorded before, nor the free register files. -/
theorem Machine.Resembles.execute {past : Past} {m n : Machine} (h : m.Resembles past n)
    (fuel : Nat) (id : FunctionId) (args : List Value) :
    Execution.AnswersResemble past (m.execute fuel id args) (n.execute fuel id args) := by
  have entered := MachineM.blind_enter id args none past m n h
  simp only [Machine.execute]
  generalize MachineM.enter id args none m = r, MachineM.enter id args none n = r' at entered
  cases entered with
  | ok same h => exact Execution.Resembles.run ⟨h.descend, same, .nil⟩ fuel
  | error h => exact .some ⟨h, rfl⟩

end RegisterVm
