import RegisterVm.Machine.Effect
import RegisterVm.Proofs.Builtin.Failure

/-!
# What operations of the machine leave alone

`Machine.plain` forgets what decides whether loops are compiled and what compiling them leaves
behind: the records, the events and two settings. An operation is `MachineM.Steady` when it works on
the plain machine as on the machine itself, keeps the library, the settings, the events and the
depth, gives results with a property and fails with faults of a kind. The operations that
instructions are made of are steady, so what an instruction does never depends on compiled loops.
-/

namespace RegisterVm

variable {α β : Type}

/-! ## Plain machines -/

/-- The settings with compilation turned off. -/
def Config.plain (c : Config) : Config := { c with compileLoops := false, threshold := 0 }

/-- The library without the records of loops. -/
def Library.plain (l : Library) : Library := ⟨l.functions, ∅⟩

/-- The machine without what belongs to compiled loops. -/
def Machine.plain : Machine → Machine
  | ⟨heap, library, output, globals, builtins, functionObjects, config, _, arena, depth⟩ =>
    ⟨heap, library.plain, output, globals, builtins, functionObjects, config.plain, #[], arena,
      depth⟩

namespace Machine

@[simp] theorem plain_plain (m : Machine) : m.plain.plain = m.plain := rfl

@[simp] theorem depth_plain (m : Machine) : m.plain.depth = m.depth := rfl

@[simp] theorem functions_plain (m : Machine) : m.plain.library.functions = m.library.functions :=
  rfl

@[simp] theorem function?_plain (m : Machine) (id : FunctionId) :
    m.plain.library.function? id = m.library.function? id := rfl

/-- What one instruction leaves alone. -/
structure Keeps (m m' : Machine) : Prop where
  library : m'.library = m.library
  config : m'.config = m.config
  events : m'.events = m.events
  depth : m'.depth = m.depth

namespace Keeps

theorem refl (m : Machine) : m.Keeps m := ⟨rfl, rfl, rfl, rfl⟩

theorem trans {m₁ m₂ m₃ : Machine} (h : m₁.Keeps m₂) (h' : m₂.Keeps m₃) : m₁.Keeps m₃ :=
  ⟨h'.library.trans h.library, h'.config.trans h.config, h'.events.trans h.events,
    h'.depth.trans h.depth⟩

theorem plain {m m' : Machine} (h : m.Keeps m') : m.plain.Keeps m'.plain :=
  ⟨congrArg Library.plain h.library, congrArg Config.plain h.config, rfl, h.depth⟩

end Keeps

end Machine

/-! ## Steady operations -/

namespace MachineM

/-- A result on the plain machine. -/
def plainResult : EStateM.Result Failure Machine α → EStateM.Result Failure Machine α
  | .ok a m => .ok a m.plain
  | .error e m => .error e m.plain

/-- An operation that compiled loops do not matter to, whose results satisfy `post` and whose faults
satisfy `fault`, on machines with the functions `fs`. -/
structure Steady (fs : Array LoadedFunction) (operation : MachineM α) (post : α → Prop)
    (fault : Fault → Prop) : Prop where
  plain : ∀ m, m.library.functions = fs → operation m.plain = plainResult (operation m)
  ok : ∀ m a m', m.library.functions = fs → operation m = .ok a m' → m.Keeps m' ∧ post a
  error : ∀ m e m', m.library.functions = fs → operation m = .error e m' →
    m.Keeps m' ∧ e.trace = [] ∧ fault e.fault

namespace Steady

variable {fs : Array LoadedFunction} {operation : MachineM α} {post : α → Prop}
  {fault : Fault → Prop}

theorem pure {a : α} (ha : post a) : Steady fs (pure a) post fault where
  plain m _ := rfl
  ok m a' m' _ h := by
    cases h
    exact ⟨.refl m, ha⟩
  error m e m' _ h := by cases h

theorem bind {f : α → MachineM β} {post' : β → Prop} (ho : Steady fs operation post fault)
    (hf : ∀ a, post a → Steady fs (f a) post' fault) :
    Steady fs (operation >>= f) post' fault where
  plain m hm := by
    simp only [Bind.bind, EStateM.bind, ho.plain m hm]
    cases first : operation m with
    | ok a m₁ =>
      obtain ⟨kept, ha⟩ := ho.ok m a m₁ hm first
      exact (hf a ha).plain m₁ (kept.library ▸ hm)
    | error e m₁ => rfl
  ok m b m' hm h := by
    simp only [Bind.bind, EStateM.bind] at h
    split at h
    · rename_i a m₁ first
      obtain ⟨kept, ha⟩ := ho.ok m a m₁ hm first
      obtain ⟨kept', hb⟩ := (hf a ha).ok m₁ b m' (kept.library ▸ hm) h
      exact ⟨kept.trans kept', hb⟩
    · cases h
  error m e m' hm h := by
    simp only [Bind.bind, EStateM.bind] at h
    split at h
    · rename_i a m₁ first
      obtain ⟨kept, ha⟩ := ho.ok m a m₁ hm first
      obtain ⟨kept', he⟩ := (hf a ha).error m₁ e m' (kept.library ▸ hm) h
      exact ⟨kept.trans kept', he⟩
    · rename_i failed
      cases h
      exact ho.error m e m' hm failed

theorem fail {f : Fault} (hf : fault f) : Steady fs (fail f : MachineM α) post fault where
  plain m _ := rfl
  ok m a m' _ h := by cases h
  error m e m' _ h := by
    cases h
    exact ⟨.refl m, rfl, hf⟩

/-- An operation of the heap, from what it gives and how it fails. -/
theorem ofHeap {operation : HeapM α} (ok : ∀ h a h', operation h = .ok a h' → post a)
    (error : ∀ h e h', operation h = .error e h' → e.trace = [] ∧ fault e.fault) :
    Steady fs (MachineM.onHeap operation) post fault where
  plain m _ := by
    simp only [MachineM.onHeap, Machine.plain]
    cases operation m.heap <;> rfl
  ok m a m' _ h := by
    simp only [MachineM.onHeap] at h
    split at h
    · rename_i done
      cases h
      exact ⟨⟨rfl, rfl, rfl, rfl⟩, ok _ _ _ done⟩
    · cases h
  error m e m' _ h := by
    simp only [MachineM.onHeap] at h
    split at h
    · cases h
    · rename_i failed
      cases h
      exact ⟨⟨rfl, rfl, rfl, rfl⟩, error _ _ _ failed⟩

/-- An operation of the heap, whose faults are about values. -/
theorem onHeap {operation : HeapM α} (ho : operation.Orderly)
    (hf : ∀ f, f.aboutValues = true → fault f) :
    Steady fs (onHeap operation) (fun _ => True) fault :=
  ofHeap (fun _ _ _ _ => trivial) fun h e h' failed =>
    ⟨(ho h e h' failed).trace, hf _ (ho h e h' failed).fault⟩

/-- An operation that only asks the machine, for something that it shares with its plain machine. -/
theorem query {f : Machine → Outcome α}
    (eq : ∀ m, operation m = match f m with
      | .ok a => .ok a m
      | .error e => .error e m)
    (plain : ∀ m, f m.plain = f m)
    (ok : ∀ m a, m.library.functions = fs → f m = .ok a → post a)
    (error : ∀ m e, f m = .error e → e.trace = [] ∧ fault e.fault) :
    Steady fs operation post fault where
  plain m _ := by
    rw [eq, eq, plain]
    cases f m <;> rfl
  ok m a m' hm h := by
    rw [eq] at h
    cases hf : f m <;> rw [hf] at h <;> cases h
    exact ⟨.refl m, ok m _ hm hf⟩
  error m e m' _ h := by
    rw [eq] at h
    cases hf : f m <;> rw [hf] at h <;> cases h
    exact ⟨.refl m, error m _ hf⟩

theorem read {f : Heap → Outcome α} (ho : ∀ h, (f h).Orderly)
    (hf : ∀ f, f.aboutValues = true → fault f) : Steady fs (read f) (fun _ => True) fault :=
  query (f := fun m => f m.heap) (fun _ => rfl) (fun _ => rfl) (fun _ _ _ _ => trivial)
    fun m e he => ⟨(ho m.heap e he).trace, hf _ (ho m.heap e he).fault⟩

/-- Looking something up, or doing something else where it is not there. -/
theorem lookup {g : Machine → Option α} {other : MachineM α}
    (eq : ∀ m, operation m = (g m).elim (other m) (.ok · m)) (plain : ∀ m, g m.plain = g m)
    (ok : ∀ m a, m.library.functions = fs → g m = some a → post a)
    (ho : Steady fs other post fault) : Steady fs operation post fault where
  plain m hm := by
    rw [eq, eq, plain]
    cases g m with
    | none => exact ho.plain m hm
    | some a => rfl
  ok m a m' hm h := by
    rw [eq] at h
    cases found : g m with
    | none =>
      rw [found] at h
      exact ho.ok m a m' hm h
    | some b =>
      rw [found] at h
      cases h
      exact ⟨.refl m, ok m _ hm found⟩
  error m e m' hm h := by
    rw [eq] at h
    cases found : g m with
    | none =>
      rw [found] at h
      exact ho.error m e m' hm h
    | some b =>
      rw [found] at h
      cases h

theorem function (id : FunctionId) (hf : fault (.unknownFunction id)) :
    Steady fs (function id) (fun f => fs[id]? = some f) fault := by
  refine lookup (g := fun m => m.library.function? id) (fun m => ?_) (fun _ => rfl)
    (fun m f hm h => hm ▸ h) (fail hf)
  cases found : m.library.function? id <;> simp only [MachineM.function, found] <;> rfl

theorem checkDepth (hf : fault .recursionLimit) :
    Steady fs checkDepth (fun _ => True) fault := by
  refine query
    (f := fun m => if m.config.maxDepth ≤ m.depth then refuse .recursionLimit else .ok ())
    (fun m => ?_) (fun _ => rfl) (fun _ _ _ _ => trivial) ?_
  · simp only [MachineM.checkDepth]
    split <;> rfl
  · intro m e h
    split at h <;> cases h
    exact ⟨rfl, hf⟩

theorem global (name : String) (hf : fault (.undefinedName name)) :
    Steady fs (global name) (fun _ => True) fault := by
  refine lookup (g := fun m => m.global? name) (fun m => ?_) (fun _ => rfl)
    (fun _ _ _ _ => trivial) (fail hf)
  have read : (get : MachineM Machine) m = .ok m m := rfl
  simp only [MachineM.global, Bind.bind, EStateM.bind, read]
  cases m.global? name <;> rfl

/-- A change of the machine that its plain machine takes part in. -/
theorem modify {f : Machine → Machine} (plain : ∀ m : Machine, f m.plain = (f m).plain)
    (keeps : ∀ m : Machine, m.Keeps (f m)) : Steady fs (modify f) (fun _ => True) fault where
  plain m _ := congrArg (EStateM.Result.ok PUnit.unit) (plain m)
  ok m a m' _ h := by
    cases h
    exact ⟨keeps m, trivial⟩
  error m e m' _ h := by cases h

theorem callBuiltin (f : Builtin) (args : List Value)
    (hf : ∀ f, f.aboutValues = true → fault f) :
    Steady fs (callBuiltin f args) (fun _ => True) fault :=
  (onHeap (HeapM.orderly_callBuiltin f args) hf).bind fun reply _ =>
    (modify (f := Machine.print reply.printed) (fun _ => rfl) fun _ => ⟨rfl, rfl, rfl, rfl⟩).bind
      fun _ _ => pure trivial

theorem functionObject (id : FunctionId) (name : String)
    (hf : ∀ f, f.aboutValues = true → fault f) :
    Steady fs (functionObject id name) (fun _ => True) fault := by
  have made : Steady fs (do
      let v ← MachineM.onHeap (HeapM.alloc (.function id name))
      modifyThe Machine fun m => { m with functionObjects := (id, v) :: m.functionObjects }
      return v) (fun _ => True) fault :=
    (onHeap (.alloc _) hf).bind fun v _ =>
      (modify (f := fun m => { m with functionObjects := (id, v) :: m.functionObjects })
        (fun _ => rfl) fun _ => ⟨rfl, rfl, rfl, rfl⟩).bind fun _ _ => pure trivial
  refine lookup (g := fun m => m.functionObjects.lookup id) (fun m => ?_) (fun _ => rfl)
    (fun _ _ _ _ => trivial) made
  have read : (get : MachineM Machine) m = .ok m m := rfl
  simp only [MachineM.functionObject, Bind.bind, EStateM.bind, read]
  cases m.functionObjects.lookup id <;> rfl

end Steady

/-! ## Frames of calls -/

end MachineM

/-- A frame at the start of a loaded function, with all its registers. -/
structure Frame.Fresh (fs : Array LoadedFunction) (link : Option CallerLink) (frame : Frame) :
    Prop where
  file : ∃ f, fs[frame.function]? = some f ∧
    frame.file.values.size = f.chunk.registerCount.toNat
  pc : frame.pc = 0
  handlers : frame.handlers = []
  caller : frame.caller = link
  native : frame.native = none

/-- However a file was left, it is handed out cleared. -/
theorem RegisterFile.values_resize_clear (count : Nat) (file : RegisterFile) :
    (file.clear.resize count).values = Array.replicate count .none := by
  simp [clear, resize]

theorem Arena.values_take (count : Nat) (a : Arena) :
    (a.take count).1.values = Array.replicate count .none := by
  unfold take
  split <;> exact RegisterFile.values_resize_clear count _

theorem Arena.size_take (count : Nat) (a : Arena) : (a.take count).1.values.size = count := by
  rw [values_take, Array.size_replicate]

theorem Frame.fresh_of_enter {fs : Array LoadedFunction} {id : FunctionId} {f : LoadedFunction}
    {args : List Value} {link : Option CallerLink} {a a' : Arena} {frame : Frame}
    (hf : fs[id]? = some f) (h : enter id f args link a = .ok (frame, a')) :
    frame.Fresh fs link := by
  have stored : ∀ {store : Array Value × Nat → Value → Array Value × Nat},
      (∀ p v, (store p v).1.size = p.1.size) →
      ∀ (args : List Value) p, (args.foldl store p).1.size = p.1.size := by
    intro store keeps args
    induction args with
    | nil => exact fun _ => rfl
    | cons v args ih =>
      intro p
      rw [List.foldl_cons, ih, keeps]
  simp only [enter] at h
  split at h
  · cases h
  · cases h
    refine ⟨⟨f, hf, ?_⟩, rfl, rfl, rfl, rfl⟩
    rw [stored fun _ _ => Array.size_setIfInBounds, Arena.size_take]

namespace MachineM

variable {fs : Array LoadedFunction} {fault : Fault → Prop}

/-- The faults of starting a call. -/
structure AllowsCalls (fault : Fault → Prop) : Prop where
  aboutValues : ∀ f, f.aboutValues = true → fault f
  unknownFunction : ∀ id, fault (.unknownFunction id)
  recursionLimit : fault .recursionLimit
  wrongPositionalCount : ∀ name expected given, fault (.wrongPositionalCount name expected given)

theorem Steady.enter (id : FunctionId) (args : List Value) (link : Option CallerLink)
    (hf : AllowsCalls fault) : Steady fs (enter id args link) (Frame.Fresh fs link) fault := by
  refine (Steady.function id (hf.unknownFunction id)).bind fun f hfun =>
    (Steady.checkDepth hf.recursionLimit).bind fun _ _ => ?_
  constructor
  · intro m _
    simp only [Machine.plain]
    cases Frame.enter id f args link m.arena <;> rfl
  · intro m frame m' _ h
    split at h
    · rename_i entered
      cases h
      exact ⟨⟨rfl, rfl, rfl, rfl⟩, Frame.fresh_of_enter hfun entered⟩
    · cases h
  · intro m e m' _ h
    split at h
    · cases h
    · rename_i refused
      cases h
      simp only [Frame.enter] at refused
      split at refused <;> cases refused
      exact ⟨.refl m, rfl, hf.wrongPositionalCount _ _ _⟩

/-- What entering a function comes to. -/
inductive Entered (id : FunctionId) (args : List Value) (link : Option CallerLink) (m : Machine) :
    EStateM.Result Failure Machine Frame → Prop
  | unknown : m.library.function? id = none →
    Entered id args link m (.error (.ofFault (.unknownFunction id)) m)
  | limit {f : LoadedFunction} : m.library.function? id = some f →
    m.config.maxDepth ≤ m.depth → Entered id args link m (.error (.ofFault .recursionLimit) m)
  | refused {f : LoadedFunction} {name : String} {expected given : Nat} :
    m.library.function? id = some f → m.depth < m.config.maxDepth →
    Entered id args link m (.error (.ofFault (.wrongPositionalCount name expected given)) m)
  | frame {f : LoadedFunction} {frame : Frame} {arena : Arena} :
    m.library.function? id = some f → m.depth < m.config.maxDepth → frame.function = id →
    Entered id args link m (.ok frame { m with arena })

/-- **Entering a function**, in all cases. -/
theorem enter_spec (id : FunctionId) (args : List Value) (link : Option CallerLink) (m : Machine) :
    Entered id args link m (enter id args link m) := by
  simp only [enter, function, checkDepth, Bind.bind, EStateM.bind]
  cases known : m.library.function? id with
  | none => exact .unknown known
  | some f =>
    by_cases deep : m.config.maxDepth ≤ m.depth
    · simp only [if_pos deep]
      exact .limit known deep
    · simp only [if_neg deep]
      unfold Frame.enter
      by_cases count : args.length ≠ f.chunk.paramCount.toNat
      · simp only [if_pos count]
        exact .refused known (Nat.lt_of_not_le deep)
      · simp only [if_neg count]
        exact .frame known (Nat.lt_of_not_le deep) rfl

end MachineM

end RegisterVm
