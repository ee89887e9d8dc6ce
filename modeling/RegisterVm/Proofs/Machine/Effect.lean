import RegisterVm.Proofs.Bytecode.Verifier
import RegisterVm.Proofs.Machine.Operation

/-!
# What an instruction does

`MachineM.exec_steady` says for every instruction that fits its function what it may do to its
frame (`Effect.Of`), how it may fail (`Opcode.MayFail`) and that compiled loops do not matter to it.
`MachineM.exec_congr` says that it depends on the registers it names only.
-/

namespace RegisterVm

/-! ## Registers of an instruction -/

@[simp] theorem Opcode.mem_registers {op : Opcode} {r : Register} :
    r ∈ op.registers ↔ ∃ s ∈ op.spans, r ∈ s.toList :=
  List.mem_flatMap

attribute [simp] RegisterSpan.mem_toList_single

/-- A call of a value or of a method. -/
inductive Opcode.IsCall : Opcode → Prop
  | call (dst callee args : Register) (argc : UInt32) : IsCall (.call dst callee args argc)
  | callMethod (dst obj : Register) (name : UInt32) (args : Register) (argc : UInt32) :
    IsCall (.callMethod dst obj name args argc)

/-- A return. -/
def Opcode.IsReturn (op : Opcode) : Prop := op = .retNone ∨ ∃ src, op = .ret src

/-- Two register files of the same size that hold the same values in the registers of an
instruction. -/
structure Opcode.Agree (op : Opcode) (values other : Array Value) : Prop where
  size : values.size = other.size
  register : ∀ r ∈ op.registers, values[r.toNat]? = other[r.toNat]?

/-- What an instruction at address `pc` may do to its frame. -/
def Effect.Of (fs : Array LoadedFunction) (op : Opcode) (pc : Nat) : Effect → Prop
  | next => True
  | write dst _ => dst ∈ op.registers
  | jump target => op.branchTarget? = some target
  | ret _ => op.IsReturn
  | call callee => op.IsCall ∧ ∃ dst result, dst ∈ op.registers ∧
    callee.Fresh fs (some ⟨dst, pc, result⟩)
  | guard h => ∃ target dst, op = .pushTry target dst ∧ h = ⟨target.toNat, dst⟩
  | unguard => op = .popTry

/-- The faults of instructions that were verified. -/
def Fault.ofInstruction : Fault → Bool
  | unknownFunction _ | undefinedName _ | recursionLimit | wrongPositionalCount _ _ _ => true
  | fault => fault.aboutValues

/-- The faults of an instruction on a file of `size` registers. Of accesses to the file only that to
an empty range of registers can fail, when the range starts behind the file. -/
def Opcode.MayFail (op : Opcode) (size : Nat) (fault : Fault) : Prop :=
  fault.ofInstruction = true ∨
    ∃ s ∈ op.spans, s.count = 0 ∧ size < s.start.toNat ∧
      fault = .windowOutside s.start.toNat 0 size

theorem Fault.ofInstruction_of_aboutValues {fault : Fault} (h : fault.aboutValues = true) :
    fault.ofInstruction = true := by
  cases fault <;> first | rfl | exact h

theorem Opcode.allowsCalls (op : Opcode) (size : Nat) : MachineM.AllowsCalls (op.MayFail size) where
  aboutValues _ h := .inl (Fault.ofInstruction_of_aboutValues h)
  unknownFunction _ := .inl rfl
  recursionLimit := .inl rfl
  wrongPositionalCount _ _ _ := .inl rfl

namespace MachineM

/-! ## Operands -/

section Operands

variable {fs : Array LoadedFunction} {fault : Fault → Prop} {f : LoadedFunction}
  {values : Array Value}

theorem reg_eq {r : Register} (h : r.toNat < values.size) :
    reg values r = pure values[r.toNat] := by
  funext m
  simp only [reg, RegisterFile.get, ofOutcome, Array.getElem?_eq_getElem h]
  rfl

theorem steady_reg {r : Register} (h : r.toNat < values.size) :
    Steady fs (reg values r) (fun _ => True) fault := by
  rw [reg_eq h]
  exact .pure trivial

theorem steady_window {start : Register} {count : Nat}
    (fits : 0 < count → start.toNat + count ≤ values.size)
    (hf : count = 0 → values.size < start.toNat →
      fault (.windowOutside start.toNat 0 values.size)) :
    Steady fs (window values start count) (fun _ => True) fault := by
  refine .query (f := fun _ => RegisterFile.window values start count) (fun m => ?_) (fun _ => rfl)
    (fun _ _ _ _ => trivial) fun m e h => ?_
  · cases taken : RegisterFile.window values start count <;> simp only [window, ofOutcome, taken]
  · simp only [RegisterFile.window] at h
    split at h <;> cases h
    obtain rfl : count = 0 := by omega
    exact ⟨rfl, hf rfl (by omega)⟩

theorem nameOf_eq {index : UInt32} {text : String} (h : f.chunk.nameAt? index = some text) :
    nameOf f index = pure text := by
  simp only [nameOf, h]

theorem steady_constant {index : UInt32} (h : index.toNat < f.chunk.constants.size)
    (hf : ∀ f, f.aboutValues = true → fault f) :
    Steady fs (constant f index) (fun _ => True) fault := by
  simp only [constant, Array.getElem?_eq_getElem h]
  cases f.chunk.constants[index.toNat] with
  | str s => exact .onHeap (.intern s) hf
  | _ => exact .pure trivial

theorem steady_store {dst : Register} {operation : HeapM Value} (ho : operation.Orderly)
    {post : Effect → Prop} (hp : ∀ v, post (.write dst v))
    (hf : ∀ f, f.aboutValues = true → fault f) : Steady fs (store dst operation) post fault :=
  (Steady.onHeap ho hf).bind fun v _ => .pure (hp v)

theorem steady_jumpWhen {on : Bool} {v : Value} {target : UInt32} {post : Effect → Prop}
    (hj : post (.jump target.toNat)) (hn : post .next) (hf : ∀ f, f.aboutValues = true → fault f) :
    Steady fs (jumpWhen on v target) post fault := by
  refine (Steady.read (fun h => h.orderly_truth v) hf).bind fun t _ => ?_
  split
  · exact .pure hj
  · exact .pure hn

theorem steady_initialiser? (cls : Handle) (hf : ∀ f, f.aboutValues = true → fault f) :
    Steady fs (initialiser? cls) (fun _ => True) fault := by
  refine .read (fun h => .bind (h.orderly_classAttribute cls _) fun found => ?_) hf
  grind [Fault.aboutValues]

theorem steady_instantiate (cls : Handle) (argumentCount : Nat)
    (hf : ∀ f, f.aboutValues = true → fault f) :
    Steady fs (instantiate cls argumentCount) (fun _ => True) fault := by
  refine (Steady.onHeap (.alloc _) hf).bind fun v _ => ?_
  split
  · refine (Steady.read (fun h => .bind (h.orderly_classAttribute cls _) fun found => ?_) hf).bind
      fun _ _ => .pure trivial
    grind [Fault.aboutValues]
  · exact .pure trivial

theorem orderly_attributesOf (h : Heap) (body : Value) : Outcome.Orderly (attributesOf h body) := by
  refine .bind (h.orderly_view body) fun o => ?_
  split
  · rw [← Array.foldlM_toList]
    refine .foldlM (fun attributes entry => ?_) [] _
    grind [Fault.aboutValues]
  · exact .refuse rfl

theorem orderly_baseOf (h : Heap) (v : Value) : Outcome.Orderly (baseOf h v) := by
  refine .bind (h.orderly_view v) fun o => ?_
  split <;> grind [Fault.aboutValues]

theorem steady_makeClass (name : String) (body : Value) (base : Option Value)
    (hf : ∀ f, f.aboutValues = true → fault f) :
    Steady fs (makeClass name body base) (fun _ => True) fault := by
  refine (Steady.read (fun h => orderly_attributesOf h body) hf).bind fun attributes _ => ?_
  cases base with
  | none => exact Steady.onHeap (.alloc _) hf
  | some v =>
    have found : Steady fs (some <$> MachineM.read fun h => RegisterVm.MachineM.baseOf h v)
        (fun _ => True) fault :=
      (Steady.read (fun h => orderly_baseOf h v) hf).bind fun _ _ => .pure trivial
    exact found.bind fun base _ => Steady.onHeap (.alloc _) hf

/-- Starting a call, whatever is called. -/
theorem steady_invoke {pc : Nat} {callable : Callable} {dst args : Register} {argc : UInt32}
    {op : Opcode} (isCall : op.IsCall) (hdst : dst ∈ op.registers)
    (window : Steady fs (window values args argc.toNat) (fun _ => True) (op.MayFail values.size)) :
    Steady fs (invoke values pc callable dst args argc) (Effect.Of fs op pc)
      (op.MayFail values.size) := by
  have allows := op.allowsCalls values.size
  have entered : ∀ id args result,
      Steady fs (do return .call (← enter id args (some ⟨dst, pc, result⟩)) : MachineM Effect)
        (Effect.Of fs op pc) (op.MayFail values.size) := fun id args result =>
    (Steady.enter id args _ allows).bind fun callee fresh =>
      .pure ⟨isCall, dst, result, hdst, fresh⟩
  cases callable with
  | function id receiver => exact window.bind fun args _ => entered _ _ _
  | builtin b =>
    exact window.bind fun args _ =>
      (Steady.callBuiltin b args allows.aboutValues).bind fun v _ => .pure hdst
  | builtinMethod receiver name =>
    exact window.bind fun args _ =>
      steady_store (HeapM.orderly_callMethod receiver name args) (fun _ => hdst) allows.aboutValues
  | exceptionClass kind =>
    exact window.bind fun args _ =>
      steady_store (HeapM.orderly_newException kind args) (fun _ => hdst) allows.aboutValues
  | cls handle =>
    refine (steady_instantiate handle _ allows.aboutValues).bind fun v _ =>
      (steady_initialiser? handle allows.aboutValues).bind fun found _ => ?_
    cases found with
    | some id => exact window.bind fun args _ => entered _ _ _
    | none => exact .pure hdst

/-- Raising never succeeds. -/
theorem steady_raise (v : Value) {post : Effect → Prop} (hf : ∀ f, f.aboutValues = true → fault f) :
    Steady fs (onHeap (HeapM.raise v)) post fault :=
  .ofHeap (fun h effect h' done => absurd done (HeapM.raise_ne_ok v h effect h'))
    fun _ _ _ failed =>
      ⟨(HeapM.orderly_of_raise failed).trace, hf _ (HeapM.orderly_of_raise failed).fault⟩

end Operands

/-! ## Instructions -/

/-- **What an instruction does**, whether it succeeds or fails. -/
theorem exec_steady {fs : Array LoadedFunction} {f : LoadedFunction} {values : Array Value}
    {pc : Nat} {op : Opcode} (fits : op.Fits f.chunk f.children.size pc)
    (size : values.size = f.chunk.registerCount.toNat) :
    Steady fs (exec f values pc op) (Effect.Of fs op pc) (op.MayFail values.size) := by
  have allows := op.allowsCalls values.size
  have about := allows.aboutValues
  have reg : ∀ r ∈ op.registers,
      Steady fs (reg values r) (fun _ => True) (op.MayFail values.size) := fun r hr =>
    steady_reg (size ▸ fits.register hr)
  have window : ∀ start count, ⟨start, count⟩ ∈ op.spans →
      Steady fs (window values start count) (fun _ => True) (op.MayFail values.size) := by
    intro start count hs
    refine steady_window (size ▸ fits.spans _ hs) fun empty beyond => ?_
    exact .inr ⟨_, hs, empty, beyond, rfl⟩
  have of₂ : ∀ {post : Effect → Prop} {g : Value → Value → MachineM Effect} (r s : Register),
      r ∈ op.registers → s ∈ op.registers →
      (∀ a b, Steady fs (g a b) post (op.MayFail values.size)) →
      Steady fs (do g (← MachineM.reg values r) (← MachineM.reg values s)) post
        (op.MayFail values.size) := fun r s hr hs hg =>
    (reg r hr).bind fun a _ => (reg s hs).bind fun b _ => hg a b
  cases op with
  | loadInt | loadBool | loadNone => exact .pure (by simp [Effect.Of, Opcode.spans])
  | loadConst dst index =>
    exact (steady_constant (fits.constant dst index rfl) about).bind fun v _ =>
      .pure (by simp [Effect.Of, Opcode.spans])
  | move dst src =>
    exact (reg src (by simp [Opcode.spans])).bind fun v _ =>
      .pure (by simp [Effect.Of, Opcode.spans])
  | loadGlobal dst name =>
    obtain ⟨text, named⟩ := fits.name name rfl
    simp only [exec, nameOf_eq named]
    exact (Steady.global text (.inl rfl)).bind fun v _ => .pure (by simp [Effect.Of, Opcode.spans])
  | storeGlobal name src =>
    obtain ⟨text, named⟩ := fits.name name rfl
    simp only [exec, nameOf_eq named]
    have stored : ∀ v, Steady fs (modify (Machine.setGlobal text v)) (fun _ => True)
        (Opcode.MayFail (.storeGlobal name src) values.size) := fun v =>
      .modify (fun _ => rfl) fun _ => ⟨rfl, rfl, rfl, rfl⟩
    exact (reg src (by simp [Opcode.spans])).bind fun v _ =>
      (stored v).bind fun _ _ => .pure trivial
  | binary o dst lhs rhs =>
    exact of₂ lhs rhs (by simp [Opcode.spans]) (by simp [Opcode.spans]) fun a b =>
      steady_store (HeapM.orderly_binary o a b) (by simp [Effect.Of, Opcode.spans]) about
  | compare o dst lhs rhs =>
    exact of₂ lhs rhs (by simp [Opcode.spans]) (by simp [Opcode.spans]) fun a b =>
      steady_store (HeapM.orderly_compare o a b) (by simp [Effect.Of, Opcode.spans]) about
  | unary o dst src =>
    exact (reg src (by simp [Opcode.spans])).bind fun v _ =>
      steady_store (HeapM.orderly_unary o v) (by simp [Effect.Of, Opcode.spans]) about
  | fast form dst lhs rhs =>
    exact of₂ lhs rhs (by simp [Opcode.spans]) (by simp [Opcode.spans]) fun a b =>
      steady_store (HeapM.orderly_binary _ a b) (by simp [Effect.Of, Opcode.spans]) about
  | fastLess dst lhs rhs =>
    exact of₂ lhs rhs (by simp [Opcode.spans]) (by simp [Opcode.spans]) fun a b =>
      steady_store (HeapM.orderly_compare _ a b) (by simp [Effect.Of, Opcode.spans]) about
  | increment r | decrement r =>
    exact (reg r (by simp [Opcode.spans])).bind fun v _ =>
      steady_store (HeapM.orderly_binary _ v _) (by simp [Effect.Of, Opcode.spans]) about
  | update form r src =>
    have stored : ∀ operation : Value → Value → HeapM Value, (∀ a b, (operation a b).Orderly) →
        Steady fs (do store r (operation (← MachineM.reg values r) (← MachineM.reg values src)))
          (Effect.Of fs (.update form r src) pc) _ := fun operation orderly =>
      of₂ r src (by simp [Opcode.spans]) (by simp [Opcode.spans]) fun a b =>
        steady_store (orderly a b) (by simp [Effect.Of, Opcode.spans]) about
    cases form with
    | add => exact stored _ HeapM.orderly_addInPlace
    | sub | mul | div => exact stored _ (HeapM.orderly_binary _)
  | jump target => exact .pure rfl
  | branch on cond target =>
    exact (reg cond (by simp [Opcode.spans])).bind fun v _ => steady_jumpWhen rfl trivial about
  | ret src =>
    exact (reg src (by simp [Opcode.spans])).bind fun v _ => .pure (.inr ⟨src, rfl⟩)
  | retNone => exact .pure (.inl rfl)
  | nop => exact .pure trivial
  | build form dst start count =>
    refine (window start _ (by simp [Opcode.spans])).bind fun items _ =>
      steady_store ?_ (by simp [Effect.Of, Opcode.spans]) about
    cases form <;> simp only [buildFrom] <;> grind
  | getItem dst container key =>
    exact of₂ container key (by simp [Opcode.spans]) (by simp [Opcode.spans]) fun a b =>
      steady_store (HeapM.orderly_getItem a b) (by simp [Effect.Of, Opcode.spans]) about
  | setItem container key src =>
    exact of₂ container key (by simp [Opcode.spans]) (by simp [Opcode.spans]) fun a b =>
      (reg src (by simp [Opcode.spans])).bind fun v _ =>
        (Steady.onHeap (HeapM.orderly_setItem a b v) about).bind fun _ _ => .pure trivial
  | slice dst container start stop =>
    exact of₂ container start (by simp [Opcode.spans]) (by simp [Opcode.spans]) fun a b =>
      (reg stop (by simp [Opcode.spans])).bind fun c _ =>
        steady_store (HeapM.orderly_slice a b c) (by simp [Effect.Of, Opcode.spans]) about
  | append list src =>
    exact of₂ list src (by simp [Opcode.spans]) (by simp [Opcode.spans]) fun a b =>
      (Steady.onHeap (HeapM.orderly_append a b) about).bind fun _ _ => .pure trivial
  | len dst src =>
    exact (reg src (by simp [Opcode.spans])).bind fun v _ =>
      (Steady.read (fun h => h.orderly_length v) about).bind fun n _ =>
        .pure (by simp [Effect.Of, Opcode.spans])
  | getIter dst src =>
    exact (reg src (by simp [Opcode.spans])).bind fun v _ =>
      steady_store (HeapM.orderly_iterator v) (by simp [Effect.Of, Opcode.spans]) about
  | forIter dst iter exit =>
    refine (reg iter (by simp [Opcode.spans])).bind fun v _ =>
      (Steady.onHeap (HeapM.orderly_next v) about).bind fun item _ => ?_
    cases item with
    | some v => exact .pure (by simp [Effect.Of, Opcode.spans])
    | none => exact .pure rfl
  | getAttr dst obj name =>
    obtain ⟨text, named⟩ := fits.name name rfl
    simp only [exec, nameOf_eq named]
    exact (reg obj (by simp [Opcode.spans])).bind fun v _ =>
      steady_store (HeapM.orderly_getAttribute v text) (by simp [Effect.Of, Opcode.spans]) about
  | setAttr obj name src =>
    obtain ⟨text, named⟩ := fits.name name rfl
    simp only [exec, nameOf_eq named]
    exact of₂ obj src (by simp [Opcode.spans]) (by simp [Opcode.spans]) fun a b =>
      (Steady.onHeap (HeapM.orderly_setAttribute a text b) about).bind fun _ _ => .pure trivial
  | callMethod dst obj name args argc =>
    obtain ⟨text, named⟩ := fits.name name rfl
    simp only [exec, nameOf_eq named]
    exact (reg obj (by simp [Opcode.spans])).bind fun v _ =>
      (Steady.onHeap (HeapM.orderly_callableMethod v text) about).bind fun callable _ =>
        steady_invoke (.callMethod ..) (by simp [Opcode.spans])
          (window args _ (by simp [Opcode.spans]))
  | call dst callee args argc =>
    exact (reg callee (by simp [Opcode.spans])).bind fun v _ =>
      (Steady.read (fun h => h.orderly_callable v) about).bind fun callable _ =>
        steady_invoke (.call ..) (by simp [Opcode.spans]) (window args _ (by simp [Opcode.spans]))
  | makeFunction dst index =>
    simp only [exec, Array.getElem?_eq_getElem (fits.child dst index rfl)]
    exact (Steady.function _ (allows.unknownFunction _)).bind fun g _ =>
      (Steady.functionObject _ _ about).bind fun v _ => .pure (by simp [Effect.Of, Opcode.spans])
  | makeClass dst name body base =>
    obtain ⟨text, named⟩ := fits.name name rfl
    simp only [exec, nameOf_eq named]
    refine (reg body (by simp [Opcode.spans])).bind fun v _ => ?_
    have read : Steady fs (base.mapM (MachineM.reg values)) (fun _ => True)
        (Opcode.MayFail (.makeClass dst name body base) values.size) := by
      cases base with
      | none => exact .pure trivial
      | some r => exact (reg r (by simp [Opcode.spans])).bind fun v _ => .pure trivial
    exact read.bind fun base _ => (steady_makeClass text v base about).bind fun v _ =>
      .pure (by simp [Effect.Of, Opcode.spans])
  | pushTry target dst => exact .pure ⟨target, dst, rfl, rfl⟩
  | popTry => exact .pure rfl
  | raise src =>
    exact (reg src (by simp [Opcode.spans])).bind fun v _ => steady_raise v about

/-! ## Registers that matter -/

/-- **An instruction depends only on the registers it names.** -/
theorem exec_congr {f : LoadedFunction} {values other : Array Value} {pc : Nat} {op : Opcode}
    (fits : op.Fits f.chunk f.children.size pc) (agree : op.Agree values other) :
    exec f values pc op = exec f other pc op := by
  have reg : ∀ r ∈ op.registers, reg values r = reg other r := by
    intro r hr
    simp only [MachineM.reg, RegisterFile.get, agree.register r hr, agree.size]
  have window : ∀ start count, ⟨start, count⟩ ∈ op.spans →
      window values start count = window other start count := by
    intro start count hs
    have items : values.extract start.toNat (start.toNat + count) =
        other.extract start.toNat (start.toNat + count) := by
      apply Array.ext_getElem?
      intro i
      rw [Array.getElem?_extract, Array.getElem?_extract, agree.size]
      split
      · obtain ⟨r, hr, hi⟩ := fits.register_of_span hs (i := start.toNat + i) (by simp) (by
          simp only
          omega)
        exact hi ▸ agree.register r hr
      · rfl
    simp only [MachineM.window, RegisterFile.window, agree.size, items]
  cases op with
  | update form r src =>
    cases form <;>
      simp only [exec, reg r (by simp [Opcode.spans]), reg src (by simp [Opcode.spans])]
  | makeClass dst name body base =>
    cases base with
    | none => simp only [exec, reg body (by simp [Opcode.spans])]; rfl
    | some r =>
      simp only [exec, reg body (by simp [Opcode.spans]), Option.mapM_some,
        reg r (by simp [Opcode.spans])]
  | callMethod dst obj name args argc | call dst obj args argc =>
    simp only [exec, invoke, reg obj (by simp [Opcode.spans]),
      window args argc.toNat (by simp [Opcode.spans])]
  | build form dst start count =>
    simp only [exec, window start (form.width count) (by simp [Opcode.spans])]
  | _ => simp [exec, reg, Opcode.spans]

end MachineM

end RegisterVm
