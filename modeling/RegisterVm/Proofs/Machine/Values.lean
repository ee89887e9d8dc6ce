import RegisterVm.Proofs.Builtin.Soundness
import RegisterVm.Proofs.Machine.Effect

/-!
# Values of a machine

A machine is `Machine.Consistent` when its heap is sound and the values that it keeps by name or by
function are values of the heap. Instructions keep machines consistent: on registers with values of
the heap an instruction gives an `Effect.In` the heap that it leaves, and its failure carries such a
value at most (`MachineM.exec_maintains`). A function that a value stands for is always loaded.
-/

namespace RegisterVm

open Outcome (Gives)

variable {α β : Type}

/-- The heap is sound, what the machine keeps are values of the heap, and functions that have an
object are loaded. -/
structure Machine.Consistent (m : Machine) : Prop where
  heap : m.heap.Sound m.library.functions.size
  globals : m.globals.Within m.heap.size
  builtins : m.builtins.Within m.heap.size
  functionObjects : ∀ p ∈ m.functionObjects,
    p.1 < m.library.functions.size ∧ m.heap.Has p.2

namespace Machine

variable {m m' : Machine}

/-- Another heap and more functions. -/
theorem Consistent.grown (h : m.Consistent) (grows : m.heap.Grows m'.heap)
    (heap : m'.heap.Sound m'.library.functions.size)
    (more : m.library.functions.size ≤ m'.library.functions.size)
    (globals : m'.globals = m.globals) (builtins : m'.builtins = m.builtins)
    (objects : m'.functionObjects = m.functionObjects) : m'.Consistent :=
  ⟨heap, globals ▸ fun b hb => grows.has (h.globals b hb),
    builtins ▸ fun b hb => grows.has (h.builtins b hb),
    objects ▸ fun p hp => (h.functionObjects p hp).imp (Nat.lt_of_lt_of_le · more) grows.has⟩

/-- A machine that differs in other things than values. -/
theorem Consistent.congr (h : m.Consistent) (heap : m'.heap = m.heap)
    (library : m'.library.functions = m.library.functions) (globals : m'.globals = m.globals)
    (builtins : m'.builtins = m.builtins) (objects : m'.functionObjects = m.functionObjects) :
    m'.Consistent :=
  h.grown (heap ▸ .refl _) (heap ▸ library ▸ h.heap) (library ▸ Nat.le_refl _) globals builtins
    objects

/-- What an operation makes of a consistent machine. -/
structure Advances (m m' : Machine) : Prop extends m.Keeps m' where
  heap : m.heap.Grows m'.heap
  consistent : m'.Consistent

theorem Advances.refl (h : m.Consistent) : m.Advances m := ⟨.refl m, .refl _, h⟩

theorem Advances.trans {m₁ m₂ m₃ : Machine} (h : m₁.Advances m₂) (h' : m₂.Advances m₃) :
    m₁.Advances m₃ :=
  ⟨h.toKeeps.trans h'.toKeeps, h.heap.trans h'.heap, h'.consistent⟩

end Machine

/-- The registers of a frame hold values of a heap, and so does the result that its caller gets in
place of its own. -/
structure Frame.In (h : Heap) (frame : Frame) : Prop where
  registers : ∀ v ∈ frame.file.values, h.Has v
  result : ∀ link, frame.caller = some link → ∀ v, link.result = some v → h.Has v

theorem Frame.In.grows {h h' : Heap} (grows : h.Grows h') {frame : Frame} (hf : frame.In h) :
    frame.In h' :=
  ⟨fun v hv => grows.has (hf.registers v hv),
    fun link hl v hv => grows.has (hf.result link hl v hv)⟩

/-- The values of an effect are values of a heap. -/
def Effect.In (h : Heap) : Effect → Prop
  | write _ v | ret v => h.Has v
  | call callee => callee.In h
  | _ => True

/-! ## Operations -/

namespace MachineM

/-- From the heap `w` on an operation makes consistent machines with the functions `fs` advance, and
its results satisfy `post`. A failure carries an exception of the heap, if any, and is not that of a
function that is not loaded. -/
structure Maintains (fs : Array LoadedFunction) (w : Heap) (operation : MachineM α)
    (post : Heap → α → Prop) : Prop where
  ok : ∀ m a m', m.library.functions = fs → m.Consistent → w.Grows m.heap →
    operation m = .ok a m' → m.Advances m' ∧ post m'.heap a
  error : ∀ m e m', m.library.functions = fs → m.Consistent → w.Grows m.heap →
    operation m = .error e m' → m.Advances m' ∧ (∀ v, e.exception = some v → m'.heap.Has v) ∧
      ∀ id, e.fault ≠ .unknownFunction id

namespace Maintains

variable {fs : Array LoadedFunction} {w : Heap} {operation : MachineM α} {post : Heap → α → Prop}

theorem pure {a : α} (ha : ∀ h, w.Grows h → h.Sound fs.size → post h a) :
    Maintains fs w (pure a) post where
  ok m a' m' hm hc g ran := by
    cases ran
    exact ⟨.refl hc, ha m.heap g (hm ▸ hc.heap)⟩
  error m e m' _ _ _ ran := by cases ran

theorem bind {f : α → MachineM β} {last : Heap → β → Prop} (ho : Maintains fs w operation post)
    (hf : ∀ w' a, w.Grows w' → w'.Sound fs.size → post w' a → Maintains fs w' (f a) last) :
    Maintains fs w (operation >>= f) last where
  ok m b m' hm hc g ran := by
    simp only [Bind.bind, EStateM.bind] at ran
    split at ran
    · rename_i a m₁ first
      obtain ⟨advances, ha⟩ := ho.ok m a m₁ hm hc g first
      have functions : m₁.library.functions = fs := advances.library ▸ hm
      obtain ⟨advances', hb⟩ := (hf m₁.heap a (g.trans advances.heap)
        (functions ▸ advances.consistent.heap) ha).ok m₁ b m' functions advances.consistent
          (.refl _) ran
      exact ⟨advances.trans advances', hb⟩
    · cases ran
  error m e m' hm hc g ran := by
    simp only [Bind.bind, EStateM.bind] at ran
    split at ran
    · rename_i a m₁ first
      obtain ⟨advances, ha⟩ := ho.ok m a m₁ hm hc g first
      have functions : m₁.library.functions = fs := advances.library ▸ hm
      obtain ⟨advances', rest⟩ := (hf m₁.heap a (g.trans advances.heap)
        (functions ▸ advances.consistent.heap) ha).error m₁ e m' functions advances.consistent
          (.refl _) ran
      exact ⟨advances.trans advances', rest⟩
    · rename_i failed
      cases ran
      exact ho.error m e m' hm hc g failed

theorem fail {fault : Fault} (hf : ∀ id, fault ≠ .unknownFunction id) :
    Maintains fs w (fail fault : MachineM α) post where
  ok m a m' _ _ _ ran := by cases ran
  error m e m' _ hc _ ran := by
    cases ran
    exact ⟨.refl hc, fun v hv => (by cases hv), hf⟩

end Maintains

theorem ne_unknownFunction {fault : Fault} (h : fault.aboutValues = true) (id : FunctionId) :
    fault ≠ .unknownFunction id := by
  rintro rfl
  cases h

namespace Maintains

variable {fs : Array LoadedFunction} {w : Heap} {post : Heap → α → Prop}

/-- An operation of the heap, from what it keeps and how it fails. -/
theorem ofHeap {operation : HeapM α}
    (known : ∀ h e h', operation h = .error e h' → e.fault.aboutValues = true)
    (hk : operation.Keeps fs.size w post) : Maintains fs w (MachineM.onHeap operation) post where
  ok m a m' hm hc g ran := by
    simp only [MachineM.onHeap] at ran
    split at ran
    · rename_i first
      cases ran
      obtain ⟨grows, sound, ha⟩ := hk.ok _ a _ g (hm ▸ hc.heap) first
      exact ⟨⟨⟨rfl, rfl, rfl, rfl⟩, grows, hc.grown grows (hm ▸ sound) (Nat.le_refl _) rfl rfl rfl⟩,
        ha⟩
    · cases ran
  error m e m' hm hc g ran := by
    simp only [MachineM.onHeap] at ran
    split at ran
    · cases ran
    · rename_i failed
      cases ran
      obtain ⟨grows, sound, he⟩ := hk.error _ e _ g (hm ▸ hc.heap) failed
      exact ⟨⟨⟨rfl, rfl, rfl, rfl⟩, grows, hc.grown grows (hm ▸ sound) (Nat.le_refl _) rfl rfl rfl⟩,
        he, ne_unknownFunction (known _ e _ failed)⟩

/-- An operation of the heap, whose faults are about values. -/
theorem onHeap {operation : HeapM α} (ho : operation.Orderly)
    (hk : operation.Keeps fs.size w post) : Maintains fs w (onHeap operation) post :=
  ofHeap (fun h e h' failed => (ho h e h' failed).fault) hk

/-- Asking the machine. -/
theorem query {operation : MachineM α} {f : Machine → Outcome α}
    (eq : ∀ m, operation m = match f m with
      | .ok a => .ok a m
      | .error e => .error e m)
    (ok : ∀ m a, m.library.functions = fs → m.Consistent → w.Grows m.heap → f m = .ok a →
      post m.heap a)
    (error : ∀ m e, m.library.functions = fs → f m = .error e →
      e.exception = none ∧ ∀ id, e.fault ≠ .unknownFunction id) :
    Maintains fs w operation post where
  ok m a m' hm hc g ran := by
    rw [eq] at ran
    cases hf : f m <;> rw [hf] at ran <;> cases ran
    exact ⟨.refl hc, ok m _ hm hc g hf⟩
  error m e m' hm hc g ran := by
    rw [eq] at ran
    cases hf : f m <;> rw [hf] at ran <;> cases ran
    obtain ⟨bare, known⟩ := error m _ hm hf
    refine ⟨.refl hc, fun v hv => ?_, known⟩
    rw [bare] at hv
    cases hv

theorem ofOutcome {o : Outcome α} (ok : ∀ h a, w.Grows h → o = .ok a → post h a)
    (error : ∀ e, o = .error e → e.exception = none ∧ ∀ id, e.fault ≠ .unknownFunction id) :
    Maintains fs w (ofOutcome o) post :=
  query (f := fun _ => o) (fun _ => rfl) (fun m a _ _ g => ok m.heap a g) fun _ e _ => error e

theorem read {f : Heap → Outcome α} (ho : ∀ h, (f h).Orderly)
    (gives : ∀ h, w.Grows h → h.Sound fs.size → (f h).Gives (post h)) :
    Maintains fs w (read f) post :=
  query (f := fun m => f m.heap) (fun _ => rfl)
    (fun m a hm hc g ran => gives m.heap g (hm ▸ hc.heap) a ran) fun m e _ failed =>
      ⟨(ho m.heap e failed).exception, ne_unknownFunction (ho m.heap e failed).fault⟩

/-- Reading that nothing needs to be known about. -/
theorem ask {f : Heap → Outcome α} (ho : ∀ h, (f h).Orderly) :
    Maintains fs w (MachineM.read f) fun _ _ => True :=
  read ho fun _ _ _ => .anything _

theorem get : Maintains fs w (get : MachineM Machine) fun h m => m.heap = h ∧ m.Consistent where
  ok m a m' _ hc _ ran := by
    cases ran
    exact ⟨.refl hc, rfl, hc⟩
  error m e m' _ _ _ ran := by cases ran

/-- A change that concerns neither the heap nor the functions. -/
theorem modify {f : Machine → Machine} (heap : ∀ m, (f m).heap = m.heap)
    (keeps : ∀ m : Machine, m.Keeps (f m))
    (consistent : ∀ m : Machine, m.library.functions = fs → w.Grows m.heap → m.Consistent →
      (f m).Consistent) :
    Maintains fs w (modify f) fun _ _ => True where
  ok m a m' hm hc g ran := by
    cases ran
    exact ⟨⟨keeps m, (heap m).symm ▸ .refl _, consistent m hm g hc⟩, trivial⟩
  error m e m' _ _ _ ran := by cases ran

/-- A loaded function is found. -/
theorem function {id : FunctionId} (loaded : id < fs.size) :
    Maintains fs w (function id) fun _ f => fs[id]? = some f := by
  refine query
    (f := fun m => (m.library.function? id).elim (refuse (.unknownFunction id)) .ok)
    (fun m => ?_) (fun m f hm _ _ ran => ?_) fun m e hm failed => ?_
  · simp only [MachineM.function]
    cases m.library.function? id <;> rfl
  · cases found : m.library.function? id with
    | none =>
      rw [found] at ran
      cases ran
    | some g =>
      rw [found] at ran
      cases ran
      exact hm ▸ found
  · rw [Library.function?, hm, Array.getElem?_eq_getElem loaded] at failed
    cases failed

theorem checkDepth : Maintains fs w checkDepth fun _ _ => True := by
  refine query
    (f := fun m => if m.config.maxDepth ≤ m.depth then refuse .recursionLimit else .ok ())
    (fun m => ?_) (fun _ _ _ _ _ _ => trivial) fun m e _ failed => ?_
  · simp only [MachineM.checkDepth]
    split <;> rfl
  · split at failed <;> cases failed
    exact ⟨rfl, fun id same => by cases same⟩

/-- The value of a name. -/
theorem global (name : String) : Maintains fs w (global name) Heap.Has := by
  refine Maintains.get.bind fun _ m g _ hm => ?_
  obtain ⟨rfl, hc⟩ := hm
  split
  · rename_i v found
    refine .pure fun _ g' _ => g'.has ?_
    rcases Option.or_eq_some_iff.mp found with found | ⟨-, found⟩
    · exact hc.globals.get? found
    · exact hc.builtins.get? found
  · exact .fail fun id same => by cases same

theorem callBuiltin (f : Builtin) {args : List Value} (ha : ∀ v ∈ args, w.Has v) :
    Maintains fs w (callBuiltin f args) Heap.Has :=
  (onHeap (HeapM.orderly_callBuiltin f args) (HeapM.keeps_callBuiltin f ha)).bind
    fun _ reply _ _ has =>
      (modify (f := Machine.print reply.printed) (fun _ => rfl) (fun _ => ⟨rfl, rfl, rfl, rfl⟩)
        fun _ _ _ hc => hc.congr rfl rfl rfl rfl rfl).bind fun _ _ g _ _ =>
          .pure fun _ g' _ => (g.trans g').has has

/-- The object of a function. -/
theorem functionObject {id : FunctionId} (loaded : id < fs.size) (name : String) :
    Maintains fs w (functionObject id name) Heap.Has := by
  refine Maintains.get.bind fun w' m g _ hm => ?_
  obtain ⟨rfl, hc⟩ := hm
  split
  · rename_i v found
    obtain ⟨before, after, split, -⟩ := List.lookup_eq_some_iff.mp found
    refine .pure fun _ g' _ => g'.has (hc.functionObjects (id, v) ?_).2
    rw [split]
    simp
  · have made : HeapM.Keeps fs.size m.heap (HeapM.alloc (.function id name)) Heap.Has :=
      .alloc fun _ _ _ => loaded
    refine (onHeap (.alloc _) made).bind fun _ v g' _ has => ?_
    have added : Maintains fs _
        (modifyThe Machine fun m => { m with functionObjects := (id, v) :: m.functionObjects })
        fun _ _ => True :=
      modify (fun _ => rfl) (fun _ => ⟨rfl, rfl, rfl, rfl⟩) fun m hm g'' hc =>
        ⟨hc.heap, hc.globals, hc.builtins, fun p hp => by
          rcases List.mem_cons.mp hp with rfl | hp
          · exact ⟨hm ▸ loaded, g''.has has⟩
          · exact hc.functionObjects p hp⟩
    exact added.bind fun _ _ g'' _ _ => .pure fun _ g₃ _ => (g''.trans g₃).has has

end Maintains

end MachineM

/-! ## Calls -/

/-- The registers of a new frame hold its arguments and `None`. -/
theorem Frame.in_of_enter {h : Heap} {id : FunctionId} {f : LoadedFunction} {args : List Value}
    {link : Option CallerLink} {a a' : Arena} {frame : Frame} (ha : ∀ v ∈ args, h.Has v)
    (hl : ∀ l, link = some l → ∀ v, l.result = some v → h.Has v)
    (entered : enter id f args link a = .ok (frame, a')) : frame.In h := by
  have stored : ∀ (args : List Value) (p : Array Value × Nat), (∀ v ∈ args, h.Has v) →
      (∀ v ∈ p.1, h.Has v) →
      ∀ v ∈ (args.foldl (fun p v => (p.1.setIfInBounds p.2 v, p.2 + 1)) p).1, h.Has v := by
    intro args
    induction args with
    | nil => exact fun _ _ old => old
    | cons x xs ih =>
      intro p has old
      refine ih _ (fun v hv => has v (List.mem_cons_of_mem x hv)) fun v hv => ?_
      rcases Array.mem_or_eq_of_mem_setIfInBounds hv with hv | rfl
      · exact old v hv
      · exact has _ List.mem_cons_self
  have cleared : ∀ v ∈ (a.take f.chunk.registerCount.toNat).1.values, h.Has v := by
    intro v hv
    rw [Arena.values_take] at hv
    rw [(Array.mem_replicate.mp hv).2]
    trivial
  simp only [enter] at entered
  split at entered
  · cases entered
  · cases entered
    exact ⟨stored args (_, 0) ha cleared, hl⟩

namespace MachineM

variable {fs : Array LoadedFunction} {w : Heap}

open Maintains

/-- Starting a call of a loaded function. -/
theorem Maintains.enter {id : FunctionId} (loaded : id < fs.size) {args : List Value}
    (ha : ∀ v ∈ args, w.Has v) {link : Option CallerLink}
    (hl : ∀ l, link = some l → ∀ v, l.result = some v → w.Has v) :
    Maintains fs w (enter id args link) fun h frame => frame.In h := by
  refine (Maintains.function loaded).bind fun _ f g _ _ => checkDepth.bind fun w' _ g' _ _ => ?_
  constructor
  · intro m frame m' _ hc g'' ran
    have grows := (g.trans g').trans g''
    split at ran
    · rename_i entered
      cases ran
      exact ⟨⟨⟨rfl, rfl, rfl, rfl⟩, .refl _, hc.congr rfl rfl rfl rfl rfl⟩,
        Frame.in_of_enter (fun v hv => grows.has (ha v hv))
          (fun l same v hv => grows.has (hl l same v hv)) entered⟩
    · cases ran
  · intro m e m' _ hc _ ran
    split at ran
    · cases ran
    · rename_i refused
      cases ran
      simp only [Frame.enter] at refused
      split at refused <;> cases refused
      exact ⟨.refl hc, fun v hv => (by cases hv), fun id same => by cases same⟩

theorem maintains_initialiser? (cls : Handle) :
    Maintains fs w (initialiser? cls) fun _ r => ∀ id, r = some id → id < fs.size := by
  refine .read (fun h => .bind (h.orderly_classAttribute cls _) fun found => ?_) fun h _ sound => ?_
  · split
    · exact .pure _
    · refine .bind (h.orderly_functionOf? _) fun loaded => ?_
      split
      · exact .pure _
      · exact .refuse rfl
  · refine .after fun found => ?_
    split
    · exact .pure fun id hid => by cases hid
    · refine (Heap.gives_functionOf? sound _).bind fun loaded known => ?_
      split
      · refine .pure fun id hid => ?_
        cases hid
        exact known _ rfl
      · exact .refuse _

theorem maintains_instantiate {cls : Handle} (hc : cls.index.toNat < w.size)
    (argumentCount : Nat) : Maintains fs w (instantiate cls argumentCount) Heap.Has := by
  have made : HeapM.Keeps fs.size w (HeapM.alloc (.instanceOf cls [])) Heap.Has :=
    .alloc fun _ g _ => ⟨Nat.lt_of_lt_of_le hc g.size, fun b hb => by cases hb⟩
  refine (Maintains.onHeap (.alloc _) made).bind fun _ v _ _ has => ?_
  split
  · refine (ask fun h => .bind (h.orderly_classAttribute cls _) fun found => ?_).bind
      fun _ _ g _ _ => .pure fun _ g' _ => (g.trans g').has has
    split
    · exact .pure _
    · refine .bind (h.orderly_isException v _) fun exceptional => ?_
      split
      · exact .pure _
      · refine .bind (h.orderly_get cls) fun o => ?_
        split <;> exact .refuse rfl
  · exact .pure fun _ g _ => g.has has

theorem maintains_attributesOf (body : Value) :
    Maintains fs w (read fun h => attributesOf h body) fun h bs => bs.Within h.size := by
  refine .read (fun h => orderly_attributesOf h body) fun h _ sound =>
    (h.gives_view body).bind fun o stored => ?_
  split
  · have entries := sound.stored (stored _ rfl)
    rw [← Array.foldlM_toList]
    refine .foldlM (fun b hb => by cases hb) fun bs hbs entry mem => ?_
    dsimp only
    split
    · exact .pure (Bindings.Within.set hbs _ (entries entry (Array.mem_toList_iff.mp mem)).2)
    · exact .refuse _
  · exact .refuse _

theorem maintains_baseOf (v : Value) :
    Maintains fs w (read fun h => baseOf h v) fun h b => b.index.toNat < h.size := by
  refine .read (fun h => orderly_baseOf h v) fun h _ _ =>
    (h.gives_view v).bind fun o stored => ?_
  split
  · exact .pure (stored _ rfl).has
  · exact .pure (stored _ rfl).has
  · exact .refuse _

theorem maintains_makeClass (name : String) (body : Value) (base : Option Value) :
    Maintains fs w (makeClass name body base) Heap.Has := by
  have made : ∀ (w : Heap) (base : Option Handle) bs, bs.Within w.size →
      (∀ b ∈ base, b.index.toNat < w.size) →
      Maintains fs w (MachineM.onHeap (HeapM.alloc (.cls name base bs))) Heap.Has :=
    fun w base bs hbs hb => .onHeap (.alloc _) <| .alloc fun _ g _ =>
      ⟨fun b mem => Nat.lt_of_lt_of_le (hb b mem) g.size,
        fun b mem => (g.has (hbs b mem)).mono (Nat.le_succ _)⟩
  refine (maintains_attributesOf body).bind fun w' bs _ _ hbs => ?_
  cases base with
  | none => exact made w' none bs hbs fun b hb => by cases hb
  | some v =>
    have found : Maintains fs w' (some <$> MachineM.read fun h => RegisterVm.MachineM.baseOf h v)
        fun h r => ∀ b ∈ r, b.index.toNat < h.size :=
      (maintains_baseOf v).bind fun _ b _ _ hb => .pure fun _ g _ c hc => by
        cases hc
        exact Nat.lt_of_lt_of_le hb g.size
    exact found.bind fun w'' base g _ hb => made w'' base bs (fun b mem => g.has (hbs b mem)) hb

/-! ## Instructions -/

section Operands

variable {values : Array Value}

theorem maintains_reg (hv : ∀ v ∈ values, w.Has v) (r : Register) :
    Maintains fs w (reg values r) Heap.Has := by
  refine .ofOutcome (fun h v g read => ?_) fun e failed => ?_
  · unfold RegisterFile.get at read
    split at read
    · rename_i found
      cases read
      exact g.has (hv v (Array.mem_of_getElem? found))
    · cases read
  · unfold RegisterFile.get at failed
    split at failed <;> cases failed
    exact ⟨rfl, fun id same => by cases same⟩

theorem maintains_window (hv : ∀ v ∈ values, w.Has v) (start : Register) (count : Nat) :
    Maintains fs w (window values start count) fun h vs => ∀ v ∈ vs, h.Has v := by
  refine .ofOutcome (fun h vs g read v mem => ?_) fun e failed => ?_
  · unfold RegisterFile.window at read
    split at read <;> cases read
    obtain ⟨i, bound, rfl⟩ := Array.mem_extract_iff_getElem.mp (Array.mem_toList_iff.mp mem)
    exact g.has (hv _ (Array.getElem_mem _))
  · unfold RegisterFile.window at failed
    split at failed <;> cases failed
    exact ⟨rfl, fun id same => by cases same⟩

theorem maintains_nameOf (f : LoadedFunction) (index : UInt32) :
    Maintains fs w (nameOf f index) fun _ _ => True := by
  unfold nameOf
  split
  · exact .pure fun _ _ _ => trivial
  · exact .fail fun id same => by cases same

theorem maintains_constant (f : LoadedFunction) (index : UInt32) :
    Maintains fs w (constant f index) Heap.Has := by
  unfold constant
  split
  case h_5 s _ => exact .onHeap (.intern s) (.intern s)
  case h_6 => exact .fail fun id same => by cases same
  all_goals exact .pure fun _ _ _ => trivial

theorem maintains_store (dst : Register) {operation : HeapM Value} (ho : operation.Orderly)
    (hk : operation.Keeps fs.size w Heap.Has) :
    Maintains fs w (store dst operation) Effect.In :=
  (Maintains.onHeap ho hk).bind fun _ _ _ _ has => .pure fun _ g _ => g.has has

theorem maintains_jumpWhen (on : Bool) (v : Value) (target : UInt32) :
    Maintains fs w (jumpWhen on v target) Effect.In := by
  refine (ask fun h => h.orderly_truth v).bind fun _ t _ _ _ => ?_
  split <;> exact .pure fun _ _ _ => trivial

/-- Something that is done to the machine alone. -/
theorem maintains_next {operation : MachineM Unit} {post : Heap → Unit → Prop}
    (ho : Maintains fs w operation post) :
    Maintains fs w (do operation; return .next) Effect.In :=
  ho.bind fun _ _ _ _ _ => .pure fun _ _ _ => trivial

theorem maintains_invoke (hv : ∀ v ∈ values, w.Has v) (pc : Nat) {callable : Callable}
    (sound : callable.Sound fs.size w) (dst args : Register) (argc : UInt32) :
    Maintains fs w (invoke values pc callable dst args argc) Effect.In := by
  have windowed : ∀ {w' : Heap}, w.Grows w' →
      Maintains fs w' (window values args argc.toNat) fun h vs => ∀ v ∈ vs, h.Has v :=
    fun g => maintains_window (fun v mem => g.has (hv v mem)) args argc.toNat
  have entered : ∀ (w' : Heap) (id : FunctionId) (vs : List Value) (result : Option Value),
      id < fs.size → (∀ v ∈ vs, w'.Has v) → (∀ v, result = some v → w'.Has v) →
      Maintains fs w' (do return .call (← enter id vs (some ⟨dst, pc, result⟩)) : MachineM Effect)
        Effect.In := fun w' id vs result loaded has returned =>
    (Maintains.enter loaded has fun l same v hl => by
      cases same
      exact returned v hl).bind fun _ frame _ _ inside => .pure fun _ g _ => inside.grows g
  cases callable with
  | function id receiver =>
    refine (windowed (.refl w)).bind fun w' vs g _ has => entered w' id _ none sound.1 ?_
      fun v hv => by cases hv
    intro v hv
    rcases List.mem_append.mp hv with hv | hv
    · exact g.has (sound.2 v (Option.mem_toList.mp hv))
    · exact has v hv
  | builtin b =>
    exact (windowed (.refl w)).bind fun _ vs _ _ has =>
      (Maintains.callBuiltin b has).bind fun _ v _ _ hv => .pure fun _ g _ => g.has hv
  | builtinMethod receiver name =>
    exact (windowed (.refl w)).bind fun _ vs _ _ has =>
      maintains_store dst (HeapM.orderly_callMethod receiver name vs)
        (HeapM.keeps_callMethod receiver name has)
  | exceptionClass kind =>
    exact (windowed (.refl w)).bind fun _ vs _ _ _ =>
      maintains_store dst (HeapM.orderly_newException kind vs) (HeapM.keeps_newException kind vs)
  | cls handle =>
    refine (maintains_instantiate sound argc.toNat).bind fun _ v g _ hv' =>
      (maintains_initialiser? handle).bind fun _ found g' _ loaded => ?_
    cases found with
    | some id =>
      refine (windowed (g.trans g')).bind fun w' vs g'' _ has =>
        entered w' id (v :: vs) (some v) (loaded id rfl) (fun x hx => ?_) fun x hx => ?_
      · rcases List.mem_cons.mp hx with rfl | hx
        · exact g''.has (g'.has hv')
        · exact has x hx
      · cases hx
        exact g''.has (g'.has hv')
    | none => exact .pure fun _ g'' _ => g''.has (g'.has hv')

theorem keeps_buildFrom {functions : Nat} (form : BuildForm) {items : List Value}
    (hi : ∀ v ∈ items, w.Has v) : (buildFrom form items).Keeps functions w Heap.Has := by
  cases form with
  | list => exact .allocList fun v hv => hi v (List.mem_toArray.mp hv)
  | tuple => exact .allocTuple fun v hv => hi v (List.mem_toArray.mp hv)
  | set => exact HeapM.keeps_allocSet hi
  | dict =>
    have paired : ∀ vs : List Value, (∀ v ∈ vs, w.Has v) →
        ∀ p ∈ pairUp vs, w.Has p.1 ∧ w.Has p.2 := by
      intro vs
      induction vs using pairUp.induct with
      | case1 k v rest ih =>
        intro has p hp
        rcases List.mem_cons.mp hp with rfl | hp
        · exact ⟨has k (by simp), has v (by simp)⟩
        · exact ih (fun x hx => has x (by simp [hx])) p hp
      | case2 vs short =>
        intro _ p hp
        rw [pairUp] at hp
        · cases hp
        · exact short
    exact HeapM.keeps_allocDict (paired items hi)
  | string => exact HeapM.keeps_buildText items

theorem orderly_buildFrom (form : BuildForm) (items : List Value) :
    (buildFrom form items).Orderly := by
  cases form with
  | list | tuple => exact .alloc _
  | set => exact HeapM.orderly_allocSet items
  | dict => exact HeapM.orderly_allocDict _
  | string => exact HeapM.orderly_buildText items

end Operands

/-- **Instructions keep values in the heap.** On registers with values of the heap every instruction
keeps the machine consistent, whether it succeeds or fails, and gives values of the heap. -/
theorem exec_maintains {f : LoadedFunction} {values : Array Value}
    (children : ∀ c ∈ f.children, c < fs.size) (hv : ∀ v ∈ values, w.Has v) (pc : Nat)
    (op : Opcode) : Maintains fs w (exec f values pc op) Effect.In := by
  have regAt : ∀ {w' : Heap}, w.Grows w' → ∀ r, Maintains fs w' (reg values r) Heap.Has :=
    fun g r => maintains_reg (fun v mem => g.has (hv v mem)) r
  have reg := fun r => regAt (.refl w) r
  have reg₂ : ∀ {g : Value → Value → MachineM Effect} (r s : Register),
      (∀ w' a b, w.Grows w' → w'.Has a → w'.Has b → Maintains fs w' (g a b) Effect.In) →
      Maintains fs w (do g (← MachineM.reg values r) (← MachineM.reg values s)) Effect.In :=
    fun r s hg => (reg r).bind fun _ a g₁ _ ha => (regAt g₁ s).bind fun w' b g₂ _ hb =>
      hg w' a b (g₁.trans g₂) (g₂.has ha) hb
  cases op with
  | loadInt | loadBool | loadNone | jump | retNone | nop | pushTry | popTry =>
    exact .pure fun _ _ _ => trivial
  | loadConst dst index =>
    exact (maintains_constant f index).bind fun _ v _ _ has => .pure fun _ g _ => g.has has
  | move dst src => exact (reg src).bind fun _ v _ _ has => .pure fun _ g _ => g.has has
  | loadGlobal dst name =>
    exact (maintains_nameOf f name).bind fun _ text _ _ _ =>
      (Maintains.global text).bind fun _ v _ _ has => .pure fun _ g _ => g.has has
  | storeGlobal name src =>
    refine (maintains_nameOf f name).bind fun _ text g _ _ => (regAt g src).bind
      fun w' v g' _ has => maintains_next
        (Maintains.modify (fun _ => rfl) (fun _ => ⟨rfl, rfl, rfl, rfl⟩) ?_)
    exact fun m _ g'' hc =>
      ⟨hc.heap, hc.globals.set text (g''.has has), hc.builtins, hc.functionObjects⟩
  | binary o dst lhs rhs =>
    exact reg₂ lhs rhs fun _ a b _ _ _ =>
      maintains_store dst (HeapM.orderly_binary o a b) (HeapM.keeps_binary o a b)
  | compare o dst lhs rhs =>
    exact reg₂ lhs rhs fun _ a b _ _ _ =>
      maintains_store dst (HeapM.orderly_compare o a b) (HeapM.keeps_compare o a b)
  | unary o dst src =>
    exact (reg src).bind fun _ v _ _ _ =>
      maintains_store dst (HeapM.orderly_unary o v) (HeapM.keeps_unary o v)
  | fast form dst lhs rhs =>
    exact reg₂ lhs rhs fun _ a b _ _ _ =>
      maintains_store dst (HeapM.orderly_binary _ a b) (HeapM.keeps_binary _ a b)
  | fastLess dst lhs rhs =>
    exact reg₂ lhs rhs fun _ a b _ _ _ =>
      maintains_store dst (HeapM.orderly_compare _ a b) (HeapM.keeps_compare _ a b)
  | increment r | decrement r =>
    exact (reg r).bind fun _ v _ _ _ =>
      maintains_store r (HeapM.orderly_binary _ v _) (HeapM.keeps_binary _ v _)
  | update form r src =>
    cases form with
    | add =>
      exact reg₂ r src fun _ a b _ ha _ =>
        maintains_store r (HeapM.orderly_addInPlace a b) (HeapM.keeps_addInPlace b ha)
    | sub | mul | div =>
      exact reg₂ r src fun _ a b _ _ _ =>
        maintains_store r (HeapM.orderly_binary _ a b) (HeapM.keeps_binary _ a b)
  | branch on cond target =>
    exact (reg cond).bind fun _ v _ _ _ => maintains_jumpWhen on v target
  | ret src => exact (reg src).bind fun _ v _ _ has => .pure fun _ g _ => g.has has
  | build form dst start count =>
    exact (maintains_window hv start _).bind fun _ items _ _ has =>
      maintains_store dst (orderly_buildFrom form items) (keeps_buildFrom form has)
  | getItem dst container key =>
    exact reg₂ container key fun _ a b _ _ _ =>
      maintains_store dst (HeapM.orderly_getItem a b) (HeapM.keeps_getItem a b)
  | setItem container key src =>
    exact reg₂ container key fun _ a b g _ hb => (regAt g src).bind fun _ v g' _ has =>
      maintains_next (.onHeap (HeapM.orderly_setItem a b v)
        (HeapM.keeps_setItem a (g'.has hb) has))
  | slice dst container start stop =>
    exact reg₂ container start fun _ a b g _ _ => (regAt g stop).bind fun _ c _ _ _ =>
      maintains_store dst (HeapM.orderly_slice a b c) (HeapM.keeps_slice a b c)
  | append list src =>
    exact reg₂ list src fun _ a b _ _ hb =>
      maintains_next (.onHeap (HeapM.orderly_append a b) (HeapM.keeps_append a hb))
  | len dst src =>
    exact (reg src).bind fun _ v _ _ _ => (ask fun h => h.orderly_length v).bind
      fun _ n _ _ _ => .pure fun _ _ _ => trivial
  | getIter dst src =>
    exact (reg src).bind fun _ v _ _ _ =>
      maintains_store dst (HeapM.orderly_iterator v) HeapM.keeps_iterator
  | forIter dst iter exit =>
    refine (reg iter).bind fun _ v _ _ _ =>
      (Maintains.onHeap (HeapM.orderly_next v) (HeapM.keeps_next v)).bind
        fun _ item _ _ has => ?_
    cases item with
    | some v => exact .pure fun _ g _ => g.has (has v rfl)
    | none => exact .pure fun _ _ _ => trivial
  | getAttr dst obj name =>
    exact (reg obj).bind fun _ v _ _ _ => (maintains_nameOf f name).bind fun _ text _ _ _ =>
      maintains_store dst (HeapM.orderly_getAttribute v text) (HeapM.keeps_getAttribute v text)
  | setAttr obj name src =>
    exact (reg obj).bind fun _ a g _ _ => (maintains_nameOf f name).bind fun _ text g' _ _ =>
      (regAt (g.trans g') src).bind fun _ b _ _ hb =>
        maintains_next (.onHeap (HeapM.orderly_setAttribute a text b)
          (HeapM.keeps_setAttribute a text hb))
  | callMethod dst obj name args argc =>
    exact (reg obj).bind fun _ v g _ hobj => (maintains_nameOf f name).bind fun _ text g' _ _ =>
      (Maintains.onHeap (HeapM.orderly_callableMethod v text)
        (HeapM.keeps_callableMethod text (g'.has hobj))).bind fun _ callable g'' _ sound =>
          maintains_invoke (fun x mem => (g.trans (g'.trans g'')).has (hv x mem)) pc sound dst args
            argc
  | call dst callee args argc =>
    exact (reg callee).bind fun _ v g _ _ =>
      (Maintains.read (fun h => h.orderly_callable v) fun _ _ sound =>
        Heap.gives_callable sound v).bind fun _ callable g' _ sound =>
          maintains_invoke (fun x mem => (g.trans g').has (hv x mem)) pc sound dst args argc
  | makeFunction dst index =>
    simp only [exec]
    split
    · rename_i id found
      have loaded := children id (Array.mem_of_getElem? found)
      exact (Maintains.function loaded).bind fun _ g _ _ _ =>
        (Maintains.functionObject loaded g.chunk.name).bind fun _ v _ _ has =>
          .pure fun _ g' _ => g'.has has
    · exact .fail fun id same => by cases same
  | makeClass dst name body base =>
    have based : ∀ {w' : Heap}, w.Grows w' →
        Maintains fs w' (base.mapM (MachineM.reg values)) fun _ _ => True := by
      intro w' g
      cases base with
      | none => exact .pure fun _ _ _ => trivial
      | some r => exact (regAt g r).bind fun _ _ _ _ _ => .pure fun _ _ _ => trivial
    exact (maintains_nameOf f name).bind fun _ text g _ _ => (regAt g body).bind
      fun _ body g' _ _ => (based (g.trans g')).bind fun _ base _ _ _ =>
        (maintains_makeClass text body base).bind fun _ v _ _ has => .pure fun _ g _ => g.has has
  | raise src =>
    exact (reg src).bind fun _ v _ _ _ =>
      .ofHeap (fun _ _ _ failed => (HeapM.orderly_of_raise failed).fault) (HeapM.keeps_raise v)

end MachineM

end RegisterVm
