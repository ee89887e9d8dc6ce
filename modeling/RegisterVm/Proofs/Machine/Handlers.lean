import RegisterVm.Proofs.Heap.Exceptions
import RegisterVm.Proofs.Machine.Executions

/-!
# What handlers receive

Only raising fails with an exception: every other instruction fails bare (`MachineM.exec_bare`), and
its handler gets a new exception.
-/

namespace RegisterVm

variable {α β : Type}

/-! ## Bare failures -/

namespace MachineM

/-- An operation whose failures carry no exception. -/
def Bare (operation : MachineM α) : Prop :=
  ∀ m e m', operation m = .error e m' → e.exception = none

namespace Bare

@[grind ←] theorem pure (a : α) : Bare (pure a) := by
  rintro m e m' ⟨⟩

@[grind ←] theorem bind {operation : MachineM α} {f : α → MachineM β} (ho : Bare operation)
    (hf : ∀ a, Bare (f a)) : Bare (operation >>= f) := by
  intro m e m' failed
  simp only [Bind.bind, EStateM.bind] at failed
  split at failed
  · exact hf _ _ _ _ failed
  · rename_i first
    cases failed
    exact ho _ _ _ first

@[grind ←] theorem fail (fault : Fault) : Bare (fail fault : MachineM α) := by
  rintro m e m' ⟨⟩
  rfl

@[grind ←] theorem get : Bare (get : MachineM Machine) := by
  rintro m e m' ⟨⟩

@[grind ←] theorem modify (f : Machine → Machine) : Bare (modify f) := by
  rintro m e m' ⟨⟩

@[grind ←] theorem onHeap {operation : HeapM α} (orderly : operation.Orderly) :
    Bare (onHeap operation) := by
  intro m e m' failed
  simp only [MachineM.onHeap] at failed
  split at failed
  · cases failed
  · rename_i first
    cases failed
    exact (orderly _ _ _ first).exception

/-- An operation that only asks. -/
theorem query {operation : MachineM α} {f : Machine → Outcome α}
    (eq : ∀ m, operation m = match f m with
      | .ok a => .ok a m
      | .error e => .error e m) (bare : ∀ m e, f m = .error e → e.exception = none) :
    Bare operation := by
  intro m e m' failed
  rw [eq] at failed
  cases asked : f m <;> rw [asked] at failed <;> cases failed
  exact bare m _ asked

@[grind ←] theorem read {f : Heap → Outcome α} (orderly : ∀ h, (f h).Orderly) : Bare (read f) :=
  query (f := fun m => f m.heap) (fun _ => rfl) fun m e failed =>
    (orderly m.heap e failed).exception

@[grind ←] theorem function (id : FunctionId) : Bare (function id) := by
  intro m e m' failed
  simp only [MachineM.function] at failed
  split at failed <;> cases failed
  rfl

@[grind ←] theorem checkDepth : Bare checkDepth := by
  intro m e m' failed
  simp only [MachineM.checkDepth] at failed
  split at failed <;> cases failed
  rfl

@[grind ←] theorem reg (values : Array Value) (r : Register) : Bare (reg values r) := by
  refine query (f := fun _ => RegisterFile.get values r) (fun _ => rfl) fun m e failed => ?_
  unfold RegisterFile.get at failed
  split at failed <;> cases failed
  rfl

@[grind ←] theorem window (values : Array Value) (start : Register) (count : Nat) :
    Bare (window values start count) := by
  refine query (f := fun _ => RegisterFile.window values start count) (fun _ => rfl)
    fun m e failed => ?_
  unfold RegisterFile.window at failed
  split at failed <;> cases failed
  rfl

@[grind ←] theorem enter (id : FunctionId) (args : List Value) (link : Option CallerLink) :
    Bare (enter id args link) := by
  refine (function id).bind fun f => checkDepth.bind fun _ => ?_
  intro m e m' failed
  dsimp only at failed
  split at failed <;> cases failed
  rfl

@[grind ←] theorem callBuiltin (f : Builtin) (args : List Value) : Bare (callBuiltin f args) :=
  (onHeap (HeapM.orderly_callBuiltin f args)).bind fun reply =>
    (modify _).bind fun _ => pure reply.value

@[grind ←] theorem initialiser? (cls : Handle) : Bare (initialiser? cls) := by
  refine read fun h => .bind (h.orderly_classAttribute cls _) fun found => ?_
  grind [Fault.aboutValues]

@[grind ←] theorem instantiate (cls : Handle) (argumentCount : Nat) :
    Bare (instantiate cls argumentCount) := by
  refine (onHeap (.alloc _)).bind fun v => ?_
  split
  · refine (read fun h => .bind (h.orderly_classAttribute cls _) fun found => ?_).bind
      fun _ => pure v
    grind [Fault.aboutValues]
  · exact pure v

@[grind ←] theorem makeClass (name : String) (body : Value) (base : Option Value) :
    Bare (makeClass name body base) := by
  refine (read fun h => orderly_attributesOf h body).bind fun attributes => ?_
  cases base with
  | none => exact onHeap (.alloc _)
  | some v =>
    have found : Bare (some <$> MachineM.read fun h => RegisterVm.MachineM.baseOf h v) :=
      (read fun h => orderly_baseOf h v).bind fun b => pure (some b)
    exact found.bind fun base => onHeap (.alloc _)

@[grind ←] theorem store (dst : Register) {operation : HeapM Value}
    (orderly : operation.Orderly) : Bare (store dst operation) :=
  (onHeap orderly).bind fun v => pure (Effect.write dst v)

@[grind ←] theorem nameOf (f : LoadedFunction) (index : UInt32) : Bare (nameOf f index) := by
  unfold MachineM.nameOf
  split
  · exact pure _
  · exact fail _

@[grind ←] theorem constant (f : LoadedFunction) (index : UInt32) : Bare (constant f index) := by
  unfold MachineM.constant
  split
  · exact pure _
  · exact pure _
  · exact pure _
  · exact pure _
  · exact onHeap (.intern _)
  · exact fail _

@[grind ←] theorem global (name : String) : Bare (global name) := by
  refine get.bind fun m => ?_
  split
  · exact pure _
  · exact fail _

@[grind ←] theorem functionObject (id : FunctionId) (name : String) :
    Bare (functionObject id name) := by
  refine get.bind fun m => ?_
  split
  · exact pure _
  · exact (onHeap (.alloc _)).bind fun v => (modify _).bind fun _ => pure v

@[grind ←] theorem jumpWhen (on : Bool) (v : Value) (target : UInt32) :
    Bare (jumpWhen on v target) := by
  refine (read fun h => h.orderly_truth v).bind fun t => ?_
  split
  · exact pure _
  · exact pure _

@[grind ←] theorem invoke (values : Array Value) (pc : Nat) (callable : Callable)
    (dst args : Register) (argc : UInt32) : Bare (invoke values pc callable dst args argc) := by
  cases callable <;> simp only [MachineM.invoke] <;> grind

end Bare

/-- **Only raising fails with an exception.** -/
theorem exec_bare {f : LoadedFunction} {values : Array Value} {pc : Nat} {op : Opcode}
    (other : ∀ src, op ≠ .raise src) : Bare (exec f values pc op) := by
  cases op with
  | raise src => exact absurd rfl (other src)
  | update form r src =>
    cases form with
    | add =>
      exact (Bare.reg values r).bind fun a => (Bare.reg values src).bind fun b =>
        .store r (HeapM.orderly_addInPlace a b)
    | sub | mul | div =>
      exact (Bare.reg values r).bind fun a => (Bare.reg values src).bind fun b =>
        .store r (HeapM.orderly_binary _ a b)
  | makeFunction dst index =>
    simp only [exec]
    split
    · rename_i id _
      exact (Bare.function id).bind fun g => (Bare.functionObject id g.chunk.name).bind fun v =>
        .pure (Effect.write dst v)
    · exact .fail _
  | makeClass dst name body base =>
    have read : Bare (base.mapM (MachineM.reg values)) := by
      cases base with
      | none => exact .pure none
      | some r => exact (Bare.reg values r).bind fun v => .pure (some v)
    exact (Bare.nameOf f name).bind fun text => (Bare.reg values body).bind fun v =>
      read.bind fun base => (Bare.makeClass text v base).bind fun c => .pure (Effect.write dst c)
  | build form dst start count =>
    exact (Bare.window values start _).bind fun items => .store dst (orderly_buildFrom form items)
  | forIter dst iter exit =>
    refine (Bare.reg values iter).bind fun v => (Bare.onHeap (HeapM.orderly_next v)).bind ?_
    intro item
    cases item with
    | some v => exact .pure (Effect.write dst v)
    | none => exact .pure (Effect.jump exit.toNat)
  | _ => simp only [exec]; grind

end MachineM

/-! ## Raising -/

/-- A failure without an exception delivers a new one. -/
theorem Failure.Delivers.exceptional {e : Failure} {h h' : Heap} {v : Value}
    (delivers : e.Delivers h v h') (bare : e.exception = none) (room : h.size < 0x100000000) :
    h'.Exceptional v := by
  unfold Delivers at delivers
  rw [bare] at delivers
  obtain ⟨handle, rfl, made⟩ := delivers
  have stored := h.stores_alloc (.exception e.kind e.message) room
  rw [made] at stored
  exact ⟨e.kind, .exception stored⟩

/-- **What a raise delivers** is an exception, unless the operand is a class or an instance that
derives from no exception class. -/
theorem HeapM.Raised.exceptional_iff {functions : Nat} {h h' h'' : Heap} {w v : Value} {e : Failure}
    (raised : Raised h w e h') (sound : h.Sound functions) (room : h'.size < 0x100000000)
    (delivers : e.Delivers h' v h'') : h''.Exceptional v ↔ ¬h.Stray w := by
  cases raised with
  | dangling missing =>
    refine iff_of_true (delivers.exceptional (h.orderly_view w e missing).exception room) ?_
    intro stray
    obtain ⟨o, stored, -⟩ := stray.raisable
    cases missing.symm.trans stored.view
  | refused viewed plain =>
    refine iff_of_true (delivers.exceptional rfl room) fun stray => ?_
    obtain ⟨o, stored, raisable⟩ := stray.raisable
    cases viewed.symm.trans stored.view
    rw [plain o rfl] at raisable
    cases raisable
  | @exceptionClass kind handle h' viewed made =>
    obtain ⟨rfl, rfl⟩ := delivers
    have size := congrArg (·.2.size) made
    simp only [Heap.size_alloc] at size
    have stored := h.stores_alloc (.exception kind "") (by omega)
    rw [made] at stored
    exact iff_of_true ⟨kind, .exception stored⟩
      ((Heap.stores_of_view viewed).not_stray (fun _ _ _ same => by cases same)
        fun _ _ same => by cases same)
  | exception viewed =>
    obtain ⟨rfl, rfl⟩ := delivers
    have stored := Heap.stores_of_view viewed
    exact iff_of_true ⟨_, .exception stored⟩
      (stored.not_stray (fun _ _ _ same => by cases same) fun _ _ same => by cases same)
  | @cls name base attributes c handle h' same viewed made =>
    subst same
    obtain ⟨rfl, rfl⟩ := delivers
    have size := congrArg (·.2.size) made
    simp only [Heap.size_alloc] at size
    have stored := h.stores_alloc (.instanceOf c []) (by omega)
    have grows := h.grows_alloc (.instanceOf c [])
    rw [made] at stored grows
    obtain ⟨c', same, found⟩ := Heap.stores_of_view viewed
    cases same
    rw [stored.exceptional_instanceOf, Heap.stray_cls found, not_forall_not]
    exact exists_congr fun kind => grows.derives_iff sound (Heap.lt_of_object? found)
  | instanceOf viewed =>
    obtain ⟨rfl, rfl⟩ := delivers
    have stored := Heap.stores_of_view viewed
    rw [stored.exceptional_instanceOf, stored.stray_instanceOf, not_forall_not]

/-- A raise takes what is raisable, and refuses everything else. -/
theorem HeapM.Raised.taken_or_refused {h h' : Heap} {w : Value} {e : Failure}
    (raised : Raised h w e h') (has : h.Has w) :
    (h.Raisable w ∧ e.kind = .uncaughtException ∧ ∃ v, e.exception = some v) ∨
      (¬h.Raisable w ∧ e = .ofFault .notAnException) := by
  have taken : ∀ {o : Object}, h.view w = .ok (some o) → o.raisable = true → h.Raisable w :=
    fun viewed raisable => ⟨_, Heap.stores_of_view viewed, raisable⟩
  cases raised with
  | dangling missing =>
    rcases Heap.view_of_has has with viewed | ⟨o, viewed⟩ <;> cases missing.symm.trans viewed
  | refused viewed plain =>
    refine .inr ⟨?_, rfl⟩
    rintro ⟨o, stored, raisable⟩
    cases viewed.symm.trans stored.view
    rw [plain o rfl] at raisable
    cases raisable
  | exceptionClass viewed | exception viewed | instanceOf viewed =>
    exact .inl ⟨taken viewed rfl, rfl, _, rfl⟩
  | cls same viewed => exact .inl ⟨taken viewed rfl, rfl, _, rfl⟩

namespace Execution

/-- The instruction raises a class or an instance that derives from no exception class. -/
def RaisesStray (x : Execution) : Prop :=
  ∃ f src w, x.machine.library.function? x.frame.function = some f ∧
    f.chunk.opcode? x.frame.pc = some (.raise src) ∧
    x.frame.settled.file.values[src.toNat]? = some w ∧ x.machine.heap.Stray w

variable {x : Execution} {e : Failure} {m' : Machine} {f : LoadedFunction} {src : Register}
  {w : Value}

/-- A raise fails as raising the value of its register does. -/
theorem Fails.raised (fails : x.Fails e m')
    (hf : x.machine.library.function? x.frame.function = some f)
    (hop : f.chunk.opcode? x.frame.pc = some (.raise src))
    (read : x.frame.settled.file.values[src.toNat]? = some w) :
    HeapM.Raised x.machine.heap w e m'.heap := by
  obtain ⟨g, op, hg, hop', result⟩ := fails
  cases hf.symm.trans hg
  cases hop.symm.trans hop'
  obtain ⟨inside, rfl⟩ := Array.getElem?_eq_some_iff.mp read
  obtain ⟨e', h', failed, raised⟩ : ∃ e' h',
      (HeapM.raise x.frame.settled.file.values[src.toNat] : HeapM Effect) x.machine.heap =
        .error e' h' ∧
      HeapM.Raised x.machine.heap x.frame.settled.file.values[src.toNat] e' h' :=
    HeapM.raise_spec _ _
  simp only [MachineM.exec, MachineM.reg_eq inside, pure_bind, MachineM.onHeap, failed] at result
  cases result
  exact raised

/-- An instruction that raises nothing stray delivers an exception. -/
theorem Sound.exceptional_iff {base : Nat} (h : x.Sound base) (consistent : x.Consistent)
    (fails : x.Fails e m') (room : m'.heap.size < 0x100000000) {v : Value} {h' : Heap}
    (delivers : e.Delivers m'.heap v h') : h'.Exceptional v ↔ ¬x.RaisesStray := by
  obtain ⟨f, op, hf, hop, result⟩ := id fails
  have fits := (h.library.function _ f hf).instruction _ op hop
  -- Only a raise fails with an exception object of its own; all other failures get a new exception.
  by_cases raises : ∃ src, op = .raise src
  · obtain ⟨src, rfl⟩ := raises
    have inside : src.toNat < x.frame.settled.file.values.size := by
      rw [(h.here hf).settled.size]
      exact fits.register (by simp [Opcode.spans])
    have read := Array.getElem?_eq_getElem inside
    rw [(fails.raised hf hop read).exceptional_iff consistent.machine.heap room delivers]
    refine not_congr ⟨fun stray => ⟨f, src, _, hf, hop, read, stray⟩, ?_⟩
    rintro ⟨g, src', w, hg, hop', read', stray⟩
    cases hf.symm.trans hg
    cases hop.symm.trans hop'
    cases read.symm.trans read'
    exact stray
  · have bare := MachineM.exec_bare (fun src same => raises ⟨src, same⟩) _ e m' result
    refine iff_of_true (delivers.exceptional bare room) ?_
    rintro ⟨g, src, w, hg, hop', -, -⟩
    cases hf.symm.trans hg
    exact raises ⟨src, Option.some.inj (hop.symm.trans hop')⟩

end Execution

namespace Machine

/-- **What handlers receive.** Let an instruction fail in an execution of a call, of a function or
of any value, while handles last for the objects of the heap.

* The value in the register of the handler that takes the failure is an exception, and
  `Heap.isException` says so, unless the instruction raises a class or an instance that derives from
  no exception class. Such an operand is caught like an exception though it is none.
* A raise takes classes, instances, exception classes and exceptions, whatever they derive from. All
  else is refused: the failure is that exceptions must derive from `BaseException`. -/
theorem handlers_receive {m m' : Machine} {x : Execution} {e : Failure} (inUse : m.InUse)
    (executes : m.Executes x) (fails : x.Fails e m') (room : m'.heap.size < 0x100000000) :
    (∀ {inner outer : List Frame} {g : Frame} {k : Handler} {rest : List Handler},
      x.frame :: x.callers = inner ++ g :: outer → (∀ a ∈ inner, a.handlers = []) →
      g.handlers = k :: rest →
      ∃ y v t, x.step = .running y ∧ y.callers = outer ∧ y.frame.pc = k.address ∧
        y.frame.file.values[k.dst.toNat]? = some v ∧
        y.machine.heap.isException v .uncaughtException = .ok t ∧
        (t = true ↔ y.machine.heap.Exceptional v) ∧ (t = false ↔ x.RaisesStray)) ∧
    ∀ {f : LoadedFunction} {src : Register} {w : Value},
      x.machine.library.function? x.frame.function = some f →
      f.chunk.opcode? x.frame.pc = some (.raise src) →
      x.frame.settled.file.values[src.toNat]? = some w →
      (x.machine.heap.Raisable w ∧ e.kind = .uncaughtException ∧ ∃ v, e.exception = some v) ∨
        (¬x.machine.heap.Raisable w ∧ e = .ofFault .notAnException) := by
  have sound := executes.sound inUse
  have consistent := executes.consistent inUse
  refine ⟨fun split free hh => ?_, fun {f src w} hf hop read => ?_⟩
  · obtain ⟨y, frame, stepped, outer, resumes⟩ := executes.delivers inUse fails split free hh
    obtain ⟨v, delivers, stored⟩ := resumes.exception
    have next : y.Consistent := by
      have advanced := consistent.step sound
      rwa [stepped] at advanced
    have has : y.machine.heap.Has v := by
      have registers := next.frame.registers
      rw [Frame.settled_of_none resumes.interpreted] at registers
      exact registers v (Array.mem_of_getElem? stored)
    obtain ⟨t, decided, exceptional⟩ := Heap.isException_uncaught next.machine.heap has
    refine ⟨y, v, t, stepped, outer, resumes.address, stored, decided, exceptional, ?_⟩
    rw [← Bool.not_eq_true, exceptional, sound.exceptional_iff consistent fails room delivers,
      not_not]
  · exact (fails.raised hf hop read).taken_or_refused
      (consistent.frame.registers w (Array.mem_of_getElem? read))

/-- A class without a base is caught by the handler around its raise. -/
theorem handlers_receive_plain :
    ∃ (c : Chunk) (id : FunctionId) (m : Machine) (x : Execution) (e : Failure) (m' : Machine),
      c.verify = .ok () ∧ (start .standard).load c = .ok (id, m) ∧ m.Runs id [] x ∧ x.Fails e m' ∧
      x.RaisesStray ∧ ∃ y v, x.step = .running y ∧ y.frame.pc = 5 ∧
        y.frame.file.values[1]? = some v ∧
        y.machine.heap.isException v .uncaughtException = .ok false := by
  let c : Chunk := ⟨"main", #[⟨.pushTry 5 ⟨1⟩, none⟩, ⟨.build .dict ⟨0⟩ ⟨0⟩ 0, none⟩,
    ⟨.makeClass ⟨0⟩ 0 ⟨0⟩ none, none⟩, ⟨.raise ⟨0⟩, none⟩, ⟨.retNone, none⟩, ⟨.ret ⟨1⟩, none⟩],
    #[.str "Plain"], 2, 0, []⟩
  obtain ⟨m, load, x, runs, handlers, callers, w, f, hf, hop, read, cls, e, m', fails, room⟩ : ∃ m,
      (start .standard).load c = .ok (0, m) ∧ ∃ x, m.Runs 0 [] x ∧
        x.frame.handlers = [⟨5, ⟨1⟩⟩] ∧ x.callers = [] ∧ ∃ w f,
          x.machine.library.function? x.frame.function = some f ∧
          f.chunk.opcode? x.frame.pc = some (.raise ⟨0⟩) ∧
          x.frame.settled.file.values[0]? = some (.object w) ∧
          x.machine.heap.object? w = some (.cls "Plain" none []) ∧
          ∃ e m', x.Fails e m' ∧ m'.heap.size < 0x100000000 := by
    refine ⟨_, rfl, _, ⟨_, _, rfl, .tail (.tail (.tail .refl rfl) rfl) rfl⟩, rfl, rfl, _, _, rfl,
      rfl, rfl, rfl, _, _, ⟨_, _, rfl, rfl, rfl⟩, ?_⟩
    decide
  have free : ∀ kind, ¬x.machine.heap.Derives kind w := by
    intro kind derives
    cases derives with
    | itself found => cases cls.symm.trans found
    | base found => cases cls.symm.trans found
  have stray : x.RaisesStray := ⟨f, ⟨0⟩, .object w, hf, hop, read, .cls rfl cls free⟩
  obtain ⟨received, -⟩ := handlers_receive (.load (.start .standard) load)
    (.ofRuns (fun v hv => by cases hv) runs) fails room
  obtain ⟨y, v, t, stepped, -, address, stored, decided, -, caught⟩ :=
    received (show x.frame :: x.callers = [] ++ x.frame :: x.callers from rfl) (by simp) handlers
  obtain rfl := caught.mpr stray
  exact ⟨c, 0, m, x, e, m', rfl, load, runs, fails, stray, y, v, stepped, address, stored, decided⟩

end Machine

end RegisterVm
