import RegisterVm.Proofs.Builtin.Changes
import RegisterVm.Proofs.Heap.Tables
import RegisterVm.Proofs.Machine.Executions

/-!
# What programs change on a heap

An operation of the machine `MachineM.Alters` when it changes the heap as operations on objects do.
All instructions alter (`MachineM.alters_exec`), and so do the steps of executions
(`Execution.Sound.step_changed`). Main statement: an operation on objects that fails has only added
objects, shared texts and moved iterators on, and leaves the rest of the machine as it was
(`MachineM.OnObjects.unchanged_of_error`).
-/

namespace RegisterVm

open Relation (ReflTransGen)

/-! ## Operations of the machine -/

namespace MachineM

variable {α β : Type} {operation : MachineM α}

/-- The machine after an operation, whether it succeeds or fails. -/
def after (operation : MachineM α) (m : Machine) : Machine :=
  match operation m with
  | .ok _ m' | .error _ m' => m'

theorem after_of_ok {m m' : Machine} {a : α} (ran : operation m = .ok a m') :
    operation.after m = m' := by
  rw [after, ran]

theorem after_of_error {m m' : Machine} {e : Failure} (ran : operation m = .error e m') :
    operation.after m = m' := by
  rw [after, ran]

/-- An operation changes the heap as operations on objects do. -/
def Alters (operation : MachineM α) : Prop := ∀ m : Machine, m.heap.Changed (operation.after m).heap

namespace Alters

theorem ok (alters : Alters operation) {m m' : Machine} {a : α} (ran : operation m = .ok a m') :
    m.heap.Changed m'.heap :=
  after_of_ok ran ▸ alters m

theorem error (alters : Alters operation) {m m' : Machine} {e : Failure}
    (ran : operation m = .error e m') : m.heap.Changed m'.heap :=
  after_of_error ran ▸ alters m

@[grind ←] theorem pure (a : α) : Alters (pure a) := fun _ => .refl

@[grind ←] theorem bind {f : α → MachineM β} (ho : Alters operation) (hf : ∀ a, Alters (f a)) :
    Alters (operation >>= f) := by
  intro m
  have first := ho m
  simp only [after, Bind.bind, EStateM.bind] at first ⊢
  cases ran : operation m with
  | ok a m' =>
    rw [ran] at first
    exact first.trans (hf a m')
  | error e m' =>
    rw [ran] at first
    exact first

@[grind ←] theorem map {f : α → β} (ho : Alters operation) : Alters (f <$> operation) := by
  rw [← bind_pure_comp]
  exact ho.bind fun a => pure (f a)

@[grind ←] theorem fail (fault : Fault) : Alters (fail fault : MachineM α) := fun _ => .refl

@[grind ←] theorem get : Alters (get : MachineM Machine) := fun _ => .refl

theorem modify {f : Machine → Machine} (same : ∀ m, (f m).heap = m.heap) :
    Alters (modify f : MachineM Unit) := by
  intro m
  change m.heap.Changed (f m).heap
  rw [same]

@[grind ←] theorem read (f : Heap → Outcome α) : Alters (read f) := by
  intro m
  simp only [after, MachineM.read]
  cases f m.heap <;> exact .refl

theorem ofOutcome (o : Outcome α) : Alters (ofOutcome o) := by
  intro m
  cases o <;> exact .refl

theorem onHeap {operation : HeapM α} (writes : ∀ h, operation.Writes h) :
    Alters (onHeap operation) := by
  intro m
  have changed := (writes m.heap).after
  simp only [after, HeapM.after, MachineM.onHeap] at changed ⊢
  cases ran : operation m.heap <;> rw [ran] at changed <;> exact changed

/-- An operation that writes nothing. -/
theorem quietly {operation : HeapM α} (prepares : operation.Prepares) :
    Alters (MachineM.onHeap operation) :=
  onHeap fun _ => .ofPrepares prepares

end Alters

theorem alters_function (id : FunctionId) : Alters (function id) := by
  intro m
  simp only [after, function]
  cases m.library.function? id <;> exact .refl

theorem alters_functionObject (id : FunctionId) (name : String) :
    Alters (functionObject id name) := by
  refine .bind .get fun m => ?_
  split
  · exact .pure _
  · exact .bind (.quietly (.alloc fun _ => trivial)) fun v =>
      .bind (.modify fun _ => rfl) fun _ => .pure v

theorem alters_global (name : String) : Alters (global name) := by
  refine .bind .get fun m => ?_
  split
  · exact .pure _
  · exact .fail _

theorem alters_callBuiltin (f : Builtin) (args : List Value) :
    Alters (callBuiltin f args) :=
  .bind (.quietly (HeapM.prepares_callBuiltin f args)) fun _ =>
    .bind (.modify fun _ => rfl) fun _ => .pure _

theorem alters_enter (id : FunctionId) (args : List Value) (link : Option CallerLink) :
    Alters (enter id args link) := by
  intro m
  have spec := enter_spec id args link m
  simp only [after]
  generalize enter id args link m = r at spec ⊢
  cases spec <;> exact .refl

theorem alters_initialiser? (cls : Handle) : Alters (initialiser? cls) := .read _

theorem alters_instantiate (cls : Handle) (argumentCount : Nat) :
    Alters (instantiate cls argumentCount) := by
  have made : Alters (onHeap (HeapM.alloc (.instanceOf cls []))) :=
    .quietly (.alloc fun _ => trivial)
  refine .bind made fun v => ?_
  dsimp only
  split
  · exact .bind (.read _) fun _ => .pure v
  · exact .bind (.pure _) fun _ => .pure v

theorem alters_makeClass (name : String) (body : Value) (base : Option Value) :
    Alters (makeClass name body base) := by
  have made : ∀ attributes (base : Option Handle),
      Alters (onHeap (HeapM.alloc (.cls name base attributes))) :=
    fun _ _ => .quietly (.alloc fun _ => trivial)
  refine .bind (.read _) fun attributes => ?_
  cases base with
  | none => exact .bind (.pure _) fun base => made attributes base
  | some v => exact .bind (.map (.read _)) fun base => made attributes base

/-! ### Instructions -/

theorem alters_reg (values : Array Value) (r : Register) : Alters (reg values r) :=
  .ofOutcome _

theorem alters_window (values : Array Value) (start : Register) (count : Nat) :
    Alters (window values start count) :=
  .ofOutcome _

theorem alters_nameOf (f : LoadedFunction) (index : UInt32) :
    Alters (nameOf f index) := by
  unfold nameOf
  grind

theorem alters_constant (f : LoadedFunction) (index : UInt32) :
    Alters (constant f index) := by
  have shared : ∀ s, Alters (onHeap (HeapM.intern s)) := fun s => .quietly (.intern s)
  unfold constant
  grind

theorem alters_jumpWhen (on : Bool) (v : Value) (target : UInt32) :
    Alters (jumpWhen on v target) := by
  unfold jumpWhen
  grind

theorem alters_store (dst : Register) {operation : HeapM Value}
    (writes : ∀ h, operation.Writes h) : Alters (store dst operation) :=
  .bind (.onHeap writes) fun _ => .pure _

/-- A result is stored of an operation that writes nothing. -/
theorem stores_quietly (dst : Register) {operation : HeapM Value} (prepares : operation.Prepares) :
    Alters (store dst operation) :=
  alters_store dst fun _ => .ofPrepares prepares

theorem prepares_buildFrom (form : BuildForm) (items : List Value) :
    (buildFrom form items).Prepares := by
  cases form with
  | list | tuple => exact .alloc fun _ => trivial
  | set => exact HeapM.prepares_allocSet items
  | dict => exact HeapM.prepares_allocDict _
  | string => exact HeapM.prepares_buildText items

theorem alters_invoke (values : Array Value) (pc : Nat) (callable : Callable) (dst args : Register)
    (argc : UInt32) : Alters (invoke values pc callable dst args argc) := by
  have entered : ∀ id args result,
      Alters (do return Effect.call (← enter id args (some ⟨dst, pc, result⟩))) :=
    fun id args result => .bind (alters_enter id args _) fun _ => .pure _
  have window := alters_window values args argc.toNat
  cases callable with
  | function id receiver => exact .bind window fun _ => entered id _ none
  | builtin f => exact .bind window fun _ => .bind (alters_callBuiltin f _) fun _ => .pure _
  | builtinMethod receiver name =>
    exact .bind window fun args =>
      alters_store dst fun h => HeapM.writes_callMethod h receiver name args
  | cls handle =>
    refine .bind (alters_instantiate handle _) fun v => .bind (alters_initialiser? handle) ?_
    intro found
    cases found with
    | none => exact .pure _
    | some id => exact .bind window fun _ => entered id _ (some v)
  | exceptionClass kind =>
    exact .bind window fun args => stores_quietly dst (HeapM.prepares_newException kind args)

/-- **Instructions change a heap as operations on objects do.** -/
theorem alters_exec (f : LoadedFunction) (values : Array Value) (pc : Nat) (op : Opcode) :
    Alters (exec f values pc op) := by
  have reg := alters_reg values
  have next : ∀ {operation : MachineM Unit}, Alters operation →
      Alters (do operation; return Effect.next) := fun ho => ho.bind fun _ => .pure _
  cases op with
  | loadInt | loadBool | loadNone | jump | retNone | nop | pushTry | popTry => exact .pure _
  | loadConst dst index => exact .bind (alters_constant f index) fun _ => .pure _
  | move dst src | ret src => exact .bind (reg src) fun _ => .pure _
  | loadGlobal dst name =>
    exact .bind (alters_nameOf f name) fun text => .bind (alters_global text) fun _ => .pure _
  | storeGlobal name src =>
    exact .bind (alters_nameOf f name) fun _ => .bind (reg src) fun _ =>
      next (.modify fun _ => rfl)
  | binary _ dst lhs rhs | fast _ dst lhs rhs =>
    exact .bind (reg lhs) fun a => .bind (reg rhs) fun b =>
      stores_quietly dst (HeapM.prepares_binary _ a b)
  | compare _ dst lhs rhs | fastLess dst lhs rhs =>
    exact .bind (reg lhs) fun a => .bind (reg rhs) fun b =>
      stores_quietly dst (HeapM.prepares_compare _ a b)
  | unary o dst src =>
    exact .bind (reg src) fun v => stores_quietly dst (HeapM.prepares_unary o v)
  | increment r | decrement r =>
    exact .bind (reg r) fun v => stores_quietly r (HeapM.prepares_binary _ v _)
  | update form r src =>
    cases form with
    | add =>
      exact .bind (reg r) fun a => .bind (reg src) fun b =>
        alters_store r fun h => HeapM.writes_addInPlace h a b
    | sub | mul | div =>
      exact .bind (reg r) fun a => .bind (reg src) fun b =>
        stores_quietly r (HeapM.prepares_binary _ a b)
  | branch on cond target => exact .bind (reg cond) fun v => alters_jumpWhen on v target
  | build form dst start count =>
    exact .bind (alters_window values start _) fun items =>
      stores_quietly dst (prepares_buildFrom form items)
  | getItem dst container key =>
    exact .bind (reg container) fun a => .bind (reg key) fun b =>
      stores_quietly dst (HeapM.prepares_getItem a b)
  | setItem container key src =>
    exact .bind (reg container) fun a => .bind (reg key) fun b => .bind (reg src) fun v =>
      next (.onHeap fun h => HeapM.writes_setItem h a b v)
  | slice dst container start stop =>
    exact .bind (reg container) fun a => .bind (reg start) fun b => .bind (reg stop) fun c =>
      stores_quietly dst (HeapM.prepares_slice a b c)
  | append list src =>
    exact .bind (reg list) fun a => .bind (reg src) fun b =>
      next (.onHeap fun h => HeapM.writes_append h a b)
  | len dst src => exact .bind (reg src) fun v => .bind (.read _) fun _ => .pure _
  | getIter dst src =>
    exact .bind (reg src) fun v => stores_quietly dst (HeapM.prepares_iterator v)
  | forIter dst iter exit =>
    refine .bind (reg iter) fun v => .bind (.quietly (HeapM.prepares_next v)) fun item => ?_
    cases item <;> exact .pure _
  | getAttr dst obj name =>
    exact .bind (reg obj) fun v => .bind (alters_nameOf f name) fun text =>
      stores_quietly dst (HeapM.prepares_getAttribute v text)
  | setAttr obj name src =>
    exact .bind (reg obj) fun v => .bind (alters_nameOf f name) fun text =>
      .bind (reg src) fun w => next (.onHeap fun h => HeapM.writes_setAttribute h v text w)
  | callMethod dst obj name args argc =>
    exact .bind (reg obj) fun v => .bind (alters_nameOf f name) fun text =>
      .bind (.quietly (HeapM.prepares_callableMethod v text)) fun callable =>
        alters_invoke values pc callable dst args argc
  | call dst callee args argc =>
    exact .bind (reg callee) fun v => .bind (.read _) fun callable =>
      alters_invoke values pc callable dst args argc
  | makeFunction dst index =>
    simp only [exec]
    split
    · exact .bind (alters_function _) fun g =>
        .bind (alters_functionObject _ _) fun _ => .pure _
    · exact .fail _
  | makeClass dst name body base =>
    refine .bind (alters_nameOf f name) fun text => .bind (reg body) fun v => ?_
    cases base with
    | none =>
      exact .bind (.pure _) fun base => .bind (alters_makeClass text v base) fun _ => .pure _
    | some r =>
      exact .bind (.map (reg r)) fun base => .bind (alters_makeClass text v base) fun _ => .pure _
  | raise src => exact .bind (reg src) fun v => .quietly (HeapM.prepares_raise v)

/-! ### Operations on objects -/

/-- The operations on objects that may fail when they have begun, with any arguments. -/
inductive OnObjects : (α : Type) → MachineM α → Prop
  | setItem (container key value : Value) :
    OnObjects Unit (onHeap (HeapM.setItem container key value))
  | append (list item : Value) : OnObjects Unit (onHeap (HeapM.append list item))
  | addInPlace (a b : Value) : OnObjects Value (onHeap (HeapM.addInPlace a b))
  | slice (container start stop : Value) :
    OnObjects Value (onHeap (HeapM.slice container start stop))
  | binary (op : BinaryOperator) (a b : Value) : OnObjects Value (onHeap (HeapM.binary op a b))
  | allocDict (pairs : List (Value × Value)) : OnObjects Value (onHeap (HeapM.allocDict pairs))
  | allocSet (items : List Value) : OnObjects Value (onHeap (HeapM.allocSet items))
  | setAttribute (obj : Value) (name : String) (value : Value) :
    OnObjects Unit (onHeap (HeapM.setAttribute obj name value))
  | listMethod (method : ListMethod) (list : Value) (args : List Value) :
    OnObjects Value (onHeap (HeapM.listMethod method list args))
  | dictMethod (method : DictMethod) (dict : Value) (args : List Value) :
    OnObjects Value (onHeap (HeapM.dictMethod method dict args))
  | setMethod (method : SetMethod) (set : Value) (args : List Value) :
    OnObjects Value (onHeap (HeapM.setMethod method set args))
  | textMethod (method : TextMethod) (text : Value) (args : List Value) :
    OnObjects Value (onHeap (HeapM.textMethod method text args))
  | callMethod (receiver : Value) (name : String) (args : List Value) :
    OnObjects Value (onHeap (HeapM.callMethod receiver name args))
  | callBuiltin (f : Builtin) (args : List Value) : OnObjects Value (callBuiltin f args)

/-- An operation of the heap that fails leaves the rest of the machine alone. -/
theorem prepared_of_onHeap {operation : HeapM α} (writes : ∀ h, operation.Writes h) {m m' : Machine}
    {e : Failure} (failed : onHeap operation m = .error e m') :
    m' = { m with heap := m'.heap } ∧ m.heap.Prepared m'.heap := by
  simp only [onHeap] at failed
  split at failed
  · cases failed
  · rename_i ran
    cases failed
    exact ⟨rfl, ((writes m.heap).error _ _ ran).prepared⟩

theorem OnObjects.prepared {operation : MachineM α} (onObjects : OnObjects α operation)
    {m m' : Machine} {e : Failure} (failed : operation m = .error e m') :
    m' = { m with heap := m'.heap } ∧ m.heap.Prepared m'.heap := by
  have quietly : ∀ {operation : HeapM α}, operation.Prepares → ∀ h, operation.Writes h :=
    fun prepares _ => .ofPrepares prepares
  cases onObjects with
  | setItem => exact prepared_of_onHeap (fun h => HeapM.writes_setItem h _ _ _) failed
  | append => exact prepared_of_onHeap (fun h => HeapM.writes_append h _ _) failed
  | addInPlace => exact prepared_of_onHeap (fun h => HeapM.writes_addInPlace h _ _) failed
  | slice => exact prepared_of_onHeap (quietly (HeapM.prepares_slice _ _ _)) failed
  | binary => exact prepared_of_onHeap (quietly (HeapM.prepares_binary _ _ _)) failed
  | allocDict => exact prepared_of_onHeap (quietly (HeapM.prepares_allocDict _)) failed
  | allocSet => exact prepared_of_onHeap (quietly (HeapM.prepares_allocSet _)) failed
  | setAttribute => exact prepared_of_onHeap (fun h => HeapM.writes_setAttribute h _ _ _) failed
  | listMethod => exact prepared_of_onHeap (fun h => HeapM.writes_listMethod h _ _ _) failed
  | dictMethod => exact prepared_of_onHeap (fun h => HeapM.writes_dictMethod h _ _ _) failed
  | setMethod => exact prepared_of_onHeap (fun h => HeapM.writes_setMethod h _ _ _) failed
  | textMethod => exact prepared_of_onHeap (quietly (HeapM.prepares_textMethod _ _ _)) failed
  | callMethod => exact prepared_of_onHeap (fun h => HeapM.writes_callMethod h _ _ _) failed
  | callBuiltin f args =>
    -- Printing comes after everything that may fail.
    simp only [MachineM.callBuiltin, Bind.bind, EStateM.bind] at failed
    split at failed
    · cases failed
    · rename_i called
      cases failed
      exact prepared_of_onHeap (fun _ => .ofPrepares (HeapM.prepares_callBuiltin f args)) called

/-- **An operation on objects that fails leaves them as they were**, all but iterators, and what was
printed too. -/
theorem OnObjects.unchanged_of_error {operation : MachineM α} (onObjects : OnObjects α operation)
    {m m' : Machine} {e : Failure} (failed : operation m = .error e m') :
    (∀ handle o, m.heap.object? handle = some o → (∀ state, o ≠ .iterator state) →
      m'.heap.object? handle = some o) ∧
      m.heap.Prepared m'.heap ∧ m'.output = m.output ∧ m' = { m with heap := m'.heap } := by
  obtain ⟨rest, prepared⟩ := onObjects.prepared failed
  refine ⟨fun handle o found stays => prepared.object? found stays, prepared, ?_, rest⟩
  rw [rest]

/-- A sum that fails has used up its iterator, and nothing else. -/
theorem OnObjects.unchanged_sum :
    ∃ e m', MachineM.callBuiltin .sum [.object ⟨0⟩] { Machine.start .standard with
        heap := ⟨#[.iterator (.values [.none]), .list #[.none]], ∅⟩, output := "a" } =
          .error e m' ∧
      m'.heap.object? ⟨0⟩ = some (.iterator (.values [])) ∧
      m'.heap.object? ⟨1⟩ = some (.list #[.none]) ∧ m'.output = "a" := by
  obtain ⟨kept, -, output, -⟩ := OnObjects.unchanged_of_error (.callBuiltin .sum [.object ⟨0⟩])
    (m := { Machine.start .standard with
      heap := ⟨#[.iterator (.values [.none]), .list #[.none]], ∅⟩, output := "a" }) rfl
  exact ⟨_, _, rfl, rfl, kept ⟨1⟩ (.list #[.none]) rfl nofun, output⟩

end MachineM

/-! ## Steps -/

def Status.heap : Status → Heap
  | running x => x.machine.heap
  | finished m _ => m.heap

theorem Status.heap_settled (s : Status) : s.settled.heap = s.heap := by
  cases s <;> rfl

variable {m m' : Machine} {frame : Frame} {callers : List Frame} {x y : Execution} {base : Nat}

theorem unwind_changed (e : Failure) (m : Machine) (frame : Frame) (callers : List Frame) :
    m.heap.Changed (unwind e m frame callers).heap := by
  have caught : ∀ e, (MachineM.onHeap (HeapM.caught e)).Alters :=
    fun e => .quietly (HeapM.prepares_caught e)
  induction callers generalizing e m frame with
  | nil =>
    rw [unwind.eq_def]
    split
    split
    · split
      · rename_i received
        exact (caught _).ok received
      · rename_i failed
        exact (caught _).error failed
    · exact .refl
  | cons caller callers ih =>
    rw [unwind.eq_def]
    split
    split
    · split
      · rename_i received
        exact (caught _).ok received
      · rename_i failed
        exact (caught _).error failed
    · exact ih _ (m.retire _) _

theorem heap_finish (v : Value) (native : ∀ a ∈ callers, a.native = none) :
    (finish v m frame callers).heap = m.heap := by
  unfold finish
  split
  · rfl
  · rename_i caller callers link _
    obtain ⟨function, file, pc, handlers, outer, code⟩ := caller
    obtain rfl : code = none := native _ List.mem_cons_self
    rfl
  · rfl

theorem heap_backEdge (id : FunctionId) (f : LoadedFunction) (header : Nat) (m : Machine)
    (frame : Frame) : (backEdge id f header m frame).1.heap = m.heap := by
  unfold backEdge
  split
  · rfl
  · split
    · rfl
    · dsimp only
      split
      · unfold promote
        dsimp only
        split <;> rfl
      · rfl

theorem perform_changed (effect : Effect) (f : LoadedFunction)
    (native : ∀ a ∈ callers, a.native = none) :
    m.heap.Changed (perform effect f m frame callers).heap := by
  cases effect with
  | next | call | guard | unguard => exact .refl
  | write dst v =>
    obtain ⟨function, ⟨values, allocated⟩, pc, handlers, link, code⟩ := frame
    simp only [perform]
    split
    · exact .refl
    · exact unwind_changed _ _ _ _
  | jump target =>
    simp only [perform, branchTo]
    split
    · have same := heap_backEdge frame.function f target m { frame with pc := target }
      change m.heap.Changed (backEdge frame.function f target m { frame with pc := target }).1.heap
      rw [same]
    · exact .refl
  | ret v =>
    rw [perform, heap_finish v native]

/-- **A step changes the heap as operations on objects do.** -/
theorem Execution.Sound.step_changed (h : x.Sound base) :
    x.machine.heap.Changed x.step.heap := by
  have native : ∀ a ∈ x.callers.map Frame.suspended, a.native = none := by
    intro a ha
    obtain ⟨b, -, rfl⟩ := List.mem_map.mp ha
    exact b.native_suspended
  have moves := h.moves
  generalize x.step = s at moves ⊢
  cases moves with
  | @left f op y _ _ _ same =>
    have heap : y.machine.heap = x.machine.heap := congrArg (fun z => z.machine.heap) same
    rw [Status.heap, heap]
  | failed fails =>
    obtain ⟨f, op, -, -, result⟩ := fails
    exact ((MachineM.alters_exec _ _ _ _).error result).trans (unwind_changed _ _ _ _)
  | @returned v m s returns same =>
    have changed : x.machine.heap.Changed m.heap := by
      cases returns with
      | instruction succeeds => exact (MachineM.alters_exec _ _ _ _).ok succeeds.result
      | ended => exact .refl
    rw [← s.heap_settled, same, Status.heap_settled, heap_finish v native]
    exact changed
  | @performed f op effect m s succeeds _ same =>
    rw [← s.heap_settled, same, Status.heap_settled]
    exact ((MachineM.alters_exec _ _ _ _).ok succeeds.result).trans
      (perform_changed (m := m.plain) effect f native)

theorem Execution.Leads.changed (h : x.Leads y) (sound : x.Sound base) :
    x.machine.heap.Changed y.machine.heap := by
  induction h with
  | refl => exact .refl
  | tail before next ih =>
    have changed := (Execution.Leads.sound before sound).step_changed
    rw [next] at changed
    exact ih.trans changed

theorem Execution.Sound.run_changed (h : x.Sound base) {fuel : Nat} {r : Outcome Value}
    (ran : x.run fuel = some (m, r)) : x.machine.heap.Changed m.heap := by
  induction fuel generalizing x with
  | zero => cases ran
  | succ fuel ih =>
    have changed := h.step_changed
    have sound := h.step
    rw [Execution.run.eq_def] at ran
    cases hs : x.step with
    | running y =>
      rw [hs] at changed sound
      simp only [hs] at ran
      exact changed.trans (ih sound ran)
    | finished m' r' =>
      rw [hs] at changed
      simp only [hs, Option.some.injEq, Prod.mk.injEq] at ran
      exact ran.1 ▸ changed

end RegisterVm
