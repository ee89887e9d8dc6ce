import RegisterVm.Proofs.Machine.Consistency

/-!
# Machines in use

`Machine.InUse` are the machines that a host comes to by starting a machine, loading chunks, calling
functions and values, sharing loaded functions between machines and using the operations of the heap
(`Heap.Helper`), always on values that the machine has. Machines in use are consistent
(`Machine.InUse.consistent`), and so are the executions of their calls (`Machine.Runs.consistent`).
The heaps of both are the `Heap.Reachable` ones, and they are sound (`Heap.Reachable.sound`).
-/

namespace RegisterVm

namespace Heap

/-- The operations of the heap that a host may use, on values of the heap. -/
inductive Helper (h : Heap) : (α : Type) → HeapM α → Prop
  | text (s : String) : Helper h Value (HeapM.allocText s)
  | intern (s : String) : Helper h Value (HeapM.intern s)
  | integer (n : Int) : Helper h Value (HeapM.allocInteger n)
  | range (r : IntRange) : r.step ≠ 0 → Helper h Value (HeapM.alloc (.range r))
  | build (form : BuildForm) (items : List Value) : (∀ v ∈ items, h.Has v) →
    Helper h Value (MachineM.buildFrom form items)
  | dict (pairs : List (Value × Value)) : (∀ p ∈ pairs, h.Has p.1 ∧ h.Has p.2) →
    Helper h Value (HeapM.allocDict pairs)
  | binary (op : BinaryOperator) (a b : Value) : Helper h Value (HeapM.binary op a b)
  | addInPlace (a b : Value) : h.Has a → Helper h Value (HeapM.addInPlace a b)
  | compare (op : CompareOperator) (a b : Value) : Helper h Value (HeapM.compare op a b)
  | unary (op : UnaryOperator) (a : Value) : Helper h Value (HeapM.unary op a)
  | getItem (container key : Value) : Helper h Value (HeapM.getItem container key)
  | setItem (container key value : Value) : h.Has key → h.Has value →
    Helper h Unit (HeapM.setItem container key value)
  | slice (container start stop : Value) : Helper h Value (HeapM.slice container start stop)
  | append (list item : Value) : h.Has item → Helper h Unit (HeapM.append list item)
  | extend (list : Value) (items : Array Value) : (∀ v ∈ items, h.Has v) →
    Helper h Unit (HeapM.extend list items)
  | iterator (v : Value) : Helper h Value (HeapM.iterator v)
  | next (it : Value) : Helper h (Option Value) (HeapM.next it)
  | collect (v : Value) : Helper h (Array Value) (HeapM.collect v)
  | getAttribute (obj : Value) (name : String) : Helper h Value (HeapM.getAttribute obj name)
  | setAttribute (obj : Value) (name : String) (value : Value) : h.Has value →
    Helper h Unit (HeapM.setAttribute obj name value)
  | callableMethod (obj : Value) (name : String) : h.Has obj →
    Helper h Callable (HeapM.callableMethod obj name)
  | newException (kind : ErrorKind) (args : List Value) :
    Helper h Value (HeapM.newException kind args)
  | raise (v : Value) : Helper h Value (HeapM.raise v)
  | callMethod (receiver : Value) (name : String) (args : List Value) : (∀ v ∈ args, h.Has v) →
    Helper h Value (HeapM.callMethod receiver name args)
  | callBuiltin (f : Builtin) (args : List Value) : (∀ v ∈ args, h.Has v) →
    Helper h Reply (HeapM.callBuiltin f args)

/-- The operations of a host keep heaps sound. -/
theorem Helper.keeps {functions : Nat} {h : Heap} {α : Type} {operation : HeapM α}
    (helper : h.Helper α operation) : operation.Keeps functions h fun _ _ => True := by
  have gives : ∀ {β : Type} {operation : HeapM β} {post : Heap → β → Prop},
      operation.Keeps functions h post → operation.Keeps functions h fun _ _ => True :=
    fun kept => kept.mono fun _ _ _ _ _ => trivial
  cases helper with
  | text s => exact gives (.allocText s)
  | intern s => exact gives (.intern s)
  | integer n => exact gives (.allocInteger n)
  | range r step => exact gives (.alloc fun _ _ _ => step)
  | build form items has => exact gives (MachineM.keeps_buildFrom form has)
  | dict pairs has => exact gives (HeapM.keeps_allocDict has)
  | binary op a b => exact gives (HeapM.keeps_binary op a b)
  | addInPlace a b has => exact gives (HeapM.keeps_addInPlace b has)
  | compare op a b => exact gives (HeapM.keeps_compare op a b)
  | unary op a => exact gives (HeapM.keeps_unary op a)
  | getItem container key => exact gives (HeapM.keeps_getItem container key)
  | setItem container key value hk hv => exact HeapM.keeps_setItem container hk hv
  | slice container start stop => exact gives (HeapM.keeps_slice container start stop)
  | append list item has => exact HeapM.keeps_append list has
  | extend list items has => exact HeapM.keeps_extend list has
  | iterator v => exact gives HeapM.keeps_iterator
  | next it => exact gives (HeapM.keeps_next it)
  | collect v => exact gives (HeapM.keeps_collect v)
  | getAttribute obj name => exact gives (HeapM.keeps_getAttribute obj name)
  | setAttribute obj name value has => exact HeapM.keeps_setAttribute obj name has
  | callableMethod obj name has => exact gives (HeapM.keeps_callableMethod name has)
  | newException kind args => exact gives (HeapM.keeps_newException kind args)
  | raise v => exact HeapM.keeps_raise v
  | callMethod receiver name args has => exact gives (HeapM.keeps_callMethod receiver name has)
  | callBuiltin f args has => exact gives (HeapM.keeps_callBuiltin f has)

end Heap

namespace Machine

/-- The machines that a host comes to. -/
inductive InUse : Machine → Prop
  | start (config : Config) : InUse (.start config)
  | load {m m' : Machine} {c : Chunk} {id : FunctionId} : InUse m → m.load c = .ok (id, m') →
    InUse m'
  | execute {m m' : Machine} {fuel : Nat} {id : FunctionId} {args : List Value}
    {r : Outcome Value} : InUse m → (∀ v ∈ args, m.heap.Has v) →
    m.execute fuel id args = some (m', r) → InUse m'
  | call {m m' : Machine} {fuel : Nat} {callee : Value} {args : List Value} {r : Outcome Value} :
    InUse m → (∀ v ∈ args, m.heap.Has v) → m.call fuel callee args = some (m', r) → InUse m'
  | helper {m : Machine} {α : Type} {operation : HeapM α} {r : EStateM.Result Failure Heap α} :
    InUse m → m.heap.Helper α operation → operation m.heap = r →
    InUse { m with heap := match r with | .ok _ heap | .error _ heap => heap }
  | setGlobal {m : Machine} (name : String) {v : Value} : InUse m → m.heap.Has v →
    InUse (m.setGlobal name v)
  | takeOutput {m : Machine} : InUse m → InUse m.takeOutput.2
  /-- Loops are counted and compiled by other machines too, and the settings may change. -/
  | profiled {m m' : Machine} : InUse m → m.Profiled m' → InUse m'
  /-- A machine gets to know the functions that another one has loaded. -/
  | shared {m m' : Machine} : InUse m → InUse m' → m.library.Extends m'.library →
    InUse { m with library := m'.library }

variable {m m' : Machine}

/-! ## Starting -/

theorem start_consistent (config : Config) : (start config).Consistent := by
  have named : ∀ (names : List (String × Object)) (h : Heap),
      (∀ p ∈ names, ∀ size age, p.2.Sound 0 size age) → h.Sound 0 →
      (h.allocNamed names).2.Sound 0 ∧ (h.allocNamed names).1.Within (h.allocNamed names).2.size ∧
        h.Grows (h.allocNamed names).2 := by
    intro names
    induction names with
    | nil => exact fun h _ sound => ⟨sound, fun b hb => (by cases hb), Heap.Grows.refl h⟩
    | cons p rest ih =>
      intro h each sound
      obtain ⟨sound', within, grows⟩ := ih (h.alloc p.2).2
        (fun q hq => each q (List.mem_cons_of_mem p hq))
        (sound.alloc (each p List.mem_cons_self _ _))
      refine ⟨sound', fun b hb => ?_, (h.grows_alloc p.2).trans grows⟩
      rcases List.mem_cons.mp hb with rfl | hb
      · exact grows.has (h.has_alloc p.2)
      · exact within b hb
  obtain ⟨sound, within, -⟩ := named Heap.builtinObjects .empty (fun p hp size age => by
    rcases List.mem_append.mp hp with hp | hp
    · obtain ⟨f, -, rfl⟩ := List.mem_map.mp hp
      trivial
    · obtain ⟨kind, -, rfl⟩ := List.mem_map.mp hp
      trivial) (Heap.sound_empty 0)
  exact ⟨sound, fun b hb => (by cases hb), within, fun p hp => by cases hp⟩

/-! ## Calls -/

theorem lt_of_enter {id : FunctionId} {args : List Value} {link : Option CallerLink} {frame : Frame}
    (entered : MachineM.enter id args link m = .ok frame m') : id < m.library.functions.size := by
  have spec := MachineM.enter_spec id args link m
  rw [entered] at spec
  cases spec with
  | frame known => exact (Array.getElem?_eq_some_iff.mp known).1

/-- A call that is refused leaves the machine as it was. -/
theorem eq_of_enter_error {id : FunctionId} {args : List Value} {link : Option CallerLink}
    {e : Failure} (refused : MachineM.enter id args link m = .error e m') : m' = m := by
  have spec := MachineM.enter_spec id args link m
  rw [refused] at spec
  cases spec <;> rfl

variable {fuel : Nat} {id : FunctionId} {args : List Value} {r : Outcome Value}

theorem enter_consistent (h : m.Consistent) (ha : ∀ v ∈ args, m.heap.Has v) {frame : Frame}
    (entered : MachineM.enter id args none m = .ok frame m') :
    Execution.Consistent ⟨m'.descend, frame, []⟩ := by
  have maintained : MachineM.Maintains m.library.functions m.heap (MachineM.enter id args none)
      fun h frame => frame.In h := .enter (lt_of_enter entered) ha fun l hl => by cases hl
  obtain ⟨advances, inside⟩ := maintained.ok m frame m' rfl h (Heap.Grows.refl _) entered
  have fresh := ((steady_enter m id args).ok m frame m' rfl entered).2
  refine Execution.Consistent.ofFrames (advances.consistent.congr rfl rfl rfl rfl rfl)
    fresh.native (fun a ha => by cases ha) fun a ha => ?_
  rw [List.mem_singleton.mp ha]
  exact inside

theorem execute_consistent (h : m.Consistent) (sound : m.library.Sound)
    (ha : ∀ v ∈ args, m.heap.Has v) (ran : m.execute fuel id args = some (m', r)) :
    m'.Consistent := by
  unfold execute at ran
  split at ran
  · rename_i refused
    cases ran
    exact eq_of_enter_error refused ▸ h
  · rename_i entered
    have ended := (enter_consistent h ha entered).run (enter_sound sound entered) ran
    cases r with
    | ok v => exact ended.1
    | error e => exact ended.1

/-- What a call of a value comes to before instructions run. -/
inductive Calling where
  /-- No function is called. -/
  | answered (v : Value)
  /-- A function is called. The caller gets `result` instead of what it gives, if there is one. -/
  | entering (id : FunctionId) (args : List Value) (result : Option Value)

/-- The values of a calling are values of a heap. -/
def Calling.In (h : Heap) : Calling → Prop
  | answered v => h.Has v
  | entering _ args _ => ∀ v ∈ args, h.Has v

/-- What is done for a call of a value before instructions run. -/
def prepare (callable : Callable) (args : List Value) : MachineM Calling := do
  match callable with
  | .function id receiver => return .entering id (receiver.toList ++ args) none
  | .builtin f => return .answered (← MachineM.callBuiltin f args)
  | .builtinMethod receiver name =>
    return .answered (← MachineM.onHeap (HeapM.callMethod receiver name args))
  | .cls handle =>
    let v ← MachineM.instantiate handle args.length
    match ← MachineM.initialiser? handle with
    | some id => return .entering id (v :: args) (some v)
    | none => return .answered v
  | .exceptionClass kind =>
    return .answered (← MachineM.onHeap (HeapM.newException kind args))

theorem call_eq (fuel : Nat) (callee : Value) (args : List Value) (m : Machine) :
    m.call fuel callee args = match m.heap.callable callee with
      | .error e => some (m, .error e)
      | .ok callable => match prepare callable args m with
        | .error e m => some (m, .error e)
        | .ok (.answered v) m => some (m, .ok v)
        | .ok (.entering id args result) m =>
          (m.execute fuel id args).map fun (m, r) => (m, r.map result.getD) := by
  unfold call
  cases m.heap.callable callee with
  | error e => rfl
  | ok callable =>
    cases callable with
    | function id receiver =>
      simp only [prepare]
      cases executed : m.execute fuel id (receiver.toList ++ args) with
      | none => simp [Pure.pure, EStateM.pure, executed]
      | some answer =>
        obtain ⟨m', r⟩ := answer
        cases r <;> simp [Pure.pure, EStateM.pure, executed, Except.map]
    | builtin f =>
      simp only [prepare, answer, Bind.bind, EStateM.bind]
      cases MachineM.callBuiltin f args m <;> rfl
    | builtinMethod receiver name =>
      simp only [prepare, answer, Bind.bind, EStateM.bind]
      cases MachineM.onHeap (HeapM.callMethod receiver name args) m <;> rfl
    | exceptionClass kind =>
      simp only [prepare, answer, Bind.bind, EStateM.bind]
      cases MachineM.onHeap (HeapM.newException kind args) m <;> rfl
    | cls handle =>
      simp only [prepare, construct, Bind.bind, EStateM.bind]
      cases MachineM.instantiate handle args.length m with
      | error e m₁ => rfl
      | ok v m₁ =>
        simp only
        cases MachineM.initialiser? handle m₁ with
        | error e m₂ => rfl
        | ok found m₂ => cases found <;> rfl

theorem maintains_prepare {fs : Array LoadedFunction} {w : Heap} {callable : Callable}
    (sound : callable.Sound fs.size w) (ha : ∀ v ∈ args, w.Has v) :
    MachineM.Maintains fs w (prepare callable args) fun h c => c.In h := by
  have answered : ∀ {operation : MachineM Value}, MachineM.Maintains fs w operation Heap.Has →
      MachineM.Maintains fs w (do return .answered (← operation)) fun h (c : Calling) => c.In h :=
    fun maintained => maintained.bind fun _ _ _ _ has => .pure fun _ g _ => g.has has
  cases callable with
  | function id receiver =>
    refine .pure fun h g _ v hv => ?_
    rcases List.mem_append.mp hv with hv | hv
    · exact g.has (sound.2 v (Option.mem_toList.mp hv))
    · exact g.has (ha v hv)
  | builtin f => exact answered (.callBuiltin f ha)
  | builtinMethod receiver name =>
    exact answered (.onHeap (HeapM.orderly_callMethod receiver name args)
      (HeapM.keeps_callMethod receiver name ha))
  | exceptionClass kind =>
    exact answered (.onHeap (HeapM.orderly_newException kind args)
      (HeapM.keeps_newException kind args))
  | cls handle =>
    refine (MachineM.maintains_instantiate sound args.length).bind fun _ v g _ has =>
      (MachineM.maintains_initialiser? handle).bind fun _ found g' _ _ => ?_
    cases found with
    | none => exact .pure fun _ g'' _ => (g'.trans g'').has has
    | some id =>
      refine .pure fun _ g'' _ u hu => ?_
      rcases List.mem_cons.mp hu with rfl | hu
      · exact (g'.trans g'').has has
      · exact ((g.trans g').trans g'').has (ha u hu)

theorem steady_prepare (fs : Array LoadedFunction) (callable : Callable) (args : List Value) :
    MachineM.Steady fs (prepare callable args) (fun _ => True) fun f => f.aboutValues = true := by
  have about : ∀ f : Fault, f.aboutValues = true → f.aboutValues = true := fun _ about => about
  have answered : ∀ {operation : MachineM Value},
      MachineM.Steady fs operation (fun _ => True) (fun f => f.aboutValues = true) →
      MachineM.Steady fs (do return Calling.answered (← operation)) (fun _ => True)
        fun f => f.aboutValues = true := fun steady => steady.bind fun _ _ => .pure trivial
  cases callable with
  | function id receiver => exact .pure trivial
  | builtin f => exact answered (.callBuiltin f args about)
  | builtinMethod receiver name =>
    exact answered (.onHeap (HeapM.orderly_callMethod receiver name args) about)
  | exceptionClass kind => exact answered (.onHeap (HeapM.orderly_newException kind args) about)
  | cls handle =>
    refine (MachineM.steady_instantiate handle args.length about).bind fun v _ =>
      (MachineM.steady_initialiser? handle about).bind fun found _ => ?_
    cases found <;> exact .pure trivial

/-- The call of a function that a call of `callee` comes to, on the machine at that time. -/
def Enters (m : Machine) (callee : Value) (args : List Value) (m₁ : Machine) (id : FunctionId)
    (args' : List Value) : Prop :=
  ∃ callable result, m.heap.callable callee = .ok callable ∧
    prepare callable args m = .ok (.entering id args' result) m₁

namespace Enters

variable {callee : Value} {args' : List Value} {m₁ : Machine}

theorem keeps (enters : m.Enters callee args m₁ id args') : m.Keeps m₁ := by
  obtain ⟨callable, result, called, prepared⟩ := enters
  exact ((steady_prepare _ callable args).ok m _ m₁ rfl prepared).1

/-- A function is called on a machine that has advanced, with values of its heap. -/
theorem advances (enters : m.Enters callee args m₁ id args') (h : m.Consistent)
    (ha : ∀ v ∈ args, m.heap.Has v) : m.Advances m₁ ∧ ∀ v ∈ args', m₁.heap.Has v := by
  obtain ⟨callable, result, called, prepared⟩ := enters
  have sound := Heap.gives_callable h.heap callee callable called
  exact (maintains_prepare sound ha).ok m _ m₁ rfl h (Heap.Grows.refl _) prepared

end Enters

/-- A call of a value is answered without instructions or is the call of a function. Without
instructions the faults are about values, and consistent machines advance. -/
theorem call_spec {callee : Value} (ran : m.call fuel callee args = some (m', r)) :
    (m.Keeps m' ∧ (∀ e, r = .error e → e.fault.aboutValues = true) ∧
      (m.Consistent → (∀ v ∈ args, m.heap.Has v) → m.Advances m')) ∨
      ∃ m₁ id args' r', m.Enters callee args m₁ id args' ∧
        m₁.execute fuel id args' = some (m', r') ∧ ∀ e, r = .error e → r' = .error e := by
  rw [call_eq] at ran
  cases called : m.heap.callable callee with
  | error e =>
    simp only [called] at ran
    cases ran
    refine .inl ⟨.refl m, fun e' same => ?_, fun h _ => .refl h⟩
    cases same
    exact (m.heap.orderly_callable callee e called).fault
  | ok callable =>
    have maintained : m.Consistent → (∀ v ∈ args, m.heap.Has v) →
        MachineM.Maintains m.library.functions m.heap (prepare callable args) fun h c => c.In h :=
      fun h ha => maintains_prepare (Heap.gives_callable h.heap callee callable called) ha
    have steady := steady_prepare m.library.functions callable args
    simp only [called] at ran
    split at ran
    · rename_i result
      cases ran
      obtain ⟨kept, -, about⟩ := steady.error m _ _ rfl result
      refine .inl ⟨kept, fun e same => ?_, fun h ha =>
        ((maintained h ha).error m _ _ rfl h (Heap.Grows.refl _) result).1⟩
      cases same
      exact about
    · rename_i result
      cases ran
      exact .inl ⟨(steady.ok m _ _ rfl result).1, fun e same => (by cases same), fun h ha =>
        ((maintained h ha).ok m _ _ rfl h (Heap.Grows.refl _) result).1⟩
    · rename_i id args' result m₁ prepared
      obtain ⟨⟨m₂, r'⟩, executed, same⟩ := Option.map_eq_some_iff.mp ran
      cases same
      refine .inr ⟨m₁, id, args', r', ⟨callable, result, called, prepared⟩, executed, ?_⟩
      intro e failed
      cases r' with
      | ok u => cases failed
      | error e' => exact failed

/-! ## Machines in use -/

namespace InUse

theorem reached_and_consistent (h : m.InUse) : m.Reached ∧ m.Consistent := by
  induction h with
  | start config => exact ⟨.start config, start_consistent config⟩
  | @load m m' c id _ loaded ih =>
    refine ⟨.load ih.1 loaded, ?_⟩
    have sound := ih.1.sound
    unfold Machine.load at loaded
    split at loaded
    · cases loaded
    · rename_i verified
      cases loaded
      have more := (Library.load_sound sound c ((Chunk.verify_ok_iff c).mp verified)).2.1.size
      exact ih.2.grown (Heap.Grows.refl _) (ih.2.heap.more more) more rfl rfl rfl
  | execute _ ha ran ih =>
    exact ⟨.execute ih.1 ran, execute_consistent ih.2 ih.1.sound ha ran⟩
  | call _ ha ran ih =>
    rcases call_spec ran with ⟨kept, -, advances⟩ | ⟨m₁, id, args', r', enters, executed, -⟩
    · exact ⟨.other ih.1 kept.library, (advances ih.2 ha).consistent⟩
    · obtain ⟨advances, ha'⟩ := enters.advances ih.2 ha
      have reached : Reached m₁ := .other ih.1 advances.library
      exact ⟨.execute reached executed,
        execute_consistent advances.consistent reached.sound ha' executed⟩
  | @helper m α operation r _ helper ran ih =>
    have kept : operation.Keeps m.library.functions.size m.heap fun _ _ => True := helper.keeps
    refine ⟨.other ih.1 rfl, ?_⟩
    cases r with
    | ok a heap =>
      obtain ⟨grows, sound, -⟩ := kept.ok m.heap a heap (Heap.Grows.refl _) ih.2.heap ran
      exact ih.2.grown grows sound (Nat.le_refl _) rfl rfl rfl
    | error e heap =>
      obtain ⟨grows, sound, -⟩ := kept.error m.heap e heap (Heap.Grows.refl _) ih.2.heap ran
      exact ih.2.grown grows sound (Nat.le_refl _) rfl rfl rfl
  | setGlobal name _ has ih =>
    exact ⟨.other ih.1 rfl,
      ⟨ih.2.heap, ih.2.globals.set name has, ih.2.builtins, ih.2.functionObjects⟩⟩
  | takeOutput _ ih => exact ⟨.other ih.1 rfl, ih.2.congr rfl rfl rfl rfl rfl⟩
  | profiled _ profiled ih =>
    refine ⟨.profiled ih.1 profiled, consistent_plain.mp ?_⟩
    rw [profiled.plain]
    exact consistent_plain.mpr ih.2
  | shared _ _ more ih ih' =>
    exact ⟨.other ih'.1 rfl,
      ih.2.grown (Heap.Grows.refl _) (ih.2.heap.more more.size) more.size rfl rfl rfl⟩

/-- A machine in use is one that loading and calling lead to. -/
theorem reached (h : m.InUse) : m.Reached := h.reached_and_consistent.1

/-- **Machines in use are consistent.** -/
theorem consistent (h : m.InUse) : m.Consistent := h.reached_and_consistent.2

/-- A function that is not loaded has no object. -/
theorem functionObject_eq_none (h : m.InUse) {id : FunctionId}
    (new : m.library.functions.size ≤ id) : m.functionObjects.lookup id = none := by
  refine List.lookup_eq_none_iff.mpr fun p hp => ?_
  have known := (h.consistent.functionObjects p hp).1
  exact bne_iff_ne.mpr (Nat.ne_of_gt (Nat.lt_of_lt_of_le known new))

end InUse

/-- **Every execution of a call on values of the machine is consistent.** -/
theorem Runs.consistent {x : Execution} (runs : m.Runs id args x) (inUse : m.InUse)
    (ha : ∀ v ∈ args, m.heap.Has v) : x.Consistent := by
  obtain ⟨frame, m', entered, leads⟩ := runs
  exact leads.consistent (enter_sound inUse.reached.sound entered)
    (enter_consistent inUse.consistent ha entered)

end Machine

/-! ## Reachable heaps -/

namespace Heap

/-- The heap of a machine in use, between calls or in the execution of a call. -/
inductive Reachable : Heap → Prop
  | idle {m : Machine} : m.InUse → Reachable m.heap
  | running {m : Machine} {id : FunctionId} {args : List Value} {x : Execution} : m.InUse →
    (∀ v ∈ args, m.heap.Has v) → m.Runs id args x → Reachable x.machine.heap

/-- **Reachable heaps are sound.** -/
theorem Reachable.sound {h : Heap} (reachable : h.Reachable) : ∃ functions, h.Sound functions := by
  cases reachable with
  | idle inUse => exact ⟨_, inUse.consistent.heap⟩
  | running inUse ha runs => exact ⟨_, (runs.consistent inUse ha).machine.heap⟩

end Heap

end RegisterVm
