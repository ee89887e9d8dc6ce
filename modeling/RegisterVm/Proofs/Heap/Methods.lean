import RegisterVm.Proofs.Heap.Changes
import RegisterVm.Proofs.Heap.Exceptions

/-!
# Calls of methods

What `obj.name(...)` runs is found without making an object for `obj.name`
(`HeapM.callableMethod`). It could also be found in two steps, by reading the attribute and looking
at what it is (`HeapM.callableAttribute`). There are few ways in which an attribute is read
(`Heap.Reads`), and by all of them the two agree (`HeapM.callableMethod_agrees`): they run the same
or fail in the same way, and the first may only make fewer objects. It makes hardly any
(`HeapM.after_callableMethod`).
-/

namespace RegisterVm

namespace Heap

variable {h : Heap} {obj v : Value} {o : Object} {name : String}

/-! ## Reading attributes -/

theorem stores_of_functionOf? {id : FunctionId} (function : h.functionOf? v = .ok (some id)) :
    ∃ functionName, h.Stores v (.function id functionName) := by
  simp only [functionOf?, Bind.bind, Except.bind] at function
  split at function
  · cases function
  · rename_i o viewed
    split at function <;> cases function
    exact ⟨_, stores_of_view viewed⟩

/-- Neither the class of a value nor its type has a method of this name. -/
structure Methodless (h : Heap) (obj : Value) (name : String) : Prop where
  method : h.method? obj name = .ok none
  builtin : ∃ o, h.view obj = .ok o ∧ o.any (Object.hasMethod name) = false

/-- What reading `obj.name` gives. -/
inductive Reads (h : Heap) (obj : Value) (name : String) :
    EStateM.Result Failure Heap Value → Prop
  /-- A function on the class of an instance is bound to the instance. -/
  | method {f : Value} {id : FunctionId} : h.method? obj name = .ok (some id) →
    h.functionOf? f = .ok (some id) → Reads h obj name (HeapM.alloc (.boundMethod obj f) h)
  /-- The class of an instance could not be searched. -/
  | refused {e : Failure} : h.method? obj name = .error e → Reads h obj name (.error e h)
  /-- The type of the value has the method. -/
  | builtin {o : Object} : h.method? obj name = .ok none → h.view obj = .ok (some o) →
    o.hasMethod name = true → Reads h obj name (HeapM.alloc (.builtinMethod obj name) h)
  /-- An attribute of an instance or a class that is given as it is. -/
  | value (v : Value) : h.Methodless obj name → Reads h obj name (.ok v h)
  /-- The arguments of an exception. -/
  | arguments (text : String) : h.Methodless obj name → name = "args" →
    Reads h obj name ((do HeapM.alloc (.tuple #[← HeapM.allocText text])) h)
  /-- There is no such attribute, or a class could not be searched. -/
  | missing (e : Failure) : h.Methodless obj name → Reads h obj name (.error e h)

theorem method?_instanceOf {cls : Handle} {attributes : Bindings}
    (viewed : h.view obj = .ok (some (.instanceOf cls attributes))) (name : String) :
    h.method? obj name = if (attributes.get? name).isSome then .ok none
      else match h.classAttribute cls name with
        | .ok (some v) => h.functionOf? v
        | .ok none => .ok none
        | .error e => .error e := by
  simp only [method?, viewed, Bind.bind, Except.bind]
  split
  · rfl
  · cases h.classAttribute cls name with
    | ok found => cases found <;> rfl
    | error e => rfl

theorem method?_of_ne (viewed : h.view obj = .ok (some o))
    (other : ∀ cls attributes, o ≠ .instanceOf cls attributes) :
    h.method? obj name = .ok none := by
  simp only [method?, viewed, Bind.bind, Except.bind]
  cases o with
  | instanceOf cls attributes => exact absurd rfl (other cls attributes)
  | _ => rfl

theorem reads_instanceOf {cls : Handle} {attributes : Bindings}
    (viewed : h.view obj = .ok (some (.instanceOf cls attributes))) :
    h.Reads obj name (HeapM.getAttribute obj name h) := by
  have method := method?_instanceOf viewed name
  have methodless : h.method? obj name = .ok none → h.Methodless obj name :=
    fun none => ⟨none, _, viewed, rfl⟩
  simp only [HeapM.getAttribute, HeapM.view, inspect, viewed, Bind.bind, EStateM.bind]
  cases own : attributes.get? name with
  | some v => exact .value v (methodless (by rw [method, own]; rfl))
  | none =>
    simp only [own, Option.isSome_none, Bool.false_eq_true, if_false] at method
    simp only [EStateM.bind, inspect]
    cases looked : h.classAttribute cls name with
    | error e => exact .refused (by rw [method, looked])
    | ok found =>
      rw [looked] at method
      cases found with
      | none => exact .missing _ (methodless method)
      | some f =>
        simp only [HeapM.bind, inspect, Bind.bind, EStateM.bind]
        cases kind : h.functionOf? f with
        | error e => exact .refused (method.trans kind)
        | ok function =>
          cases function with
          | none => exact .value f (methodless (method.trans kind))
          | some id => exact .method (method.trans kind) kind

/-- An object whose type may have methods is read by looking for the name among these. -/
theorem reads_methods (method : h.method? obj name = .ok none)
    (viewed : h.view obj = .ok (some o))
    (read : HeapM.getAttribute obj name h = if o.hasMethod name = true then
      HeapM.alloc (.builtinMethod obj name) h
      else .error (.ofFault (h.noAttribute obj name)) h) :
    h.Reads obj name (HeapM.getAttribute obj name h) := by
  rw [read]
  split
  · exact .builtin method viewed ‹_›
  · exact .missing _ ⟨method, _, viewed, Bool.eq_false_iff.mpr ‹_›⟩

theorem reads_cls {c : Handle} {className : String} {base : Option Handle} {attributes : Bindings}
    (found : h.object? c = some (.cls className base attributes)) :
    h.Reads (.object c) name (HeapM.getAttribute (.object c) name h) := by
  have viewed := view_object found
  have methodless : h.Methodless (.object c) name :=
    ⟨method?_of_ne viewed (by simp), _, viewed, rfl⟩
  simp only [HeapM.getAttribute, HeapM.view, inspect, viewed, Bind.bind, EStateM.bind]
  cases h.classAttribute c name with
  | error e => exact .missing e methodless
  | ok found =>
    cases found with
    | none => exact .missing _ methodless
    | some v => exact .value v methodless

theorem reads_exception {kind : ErrorKind} {message : String}
    (viewed : h.view obj = .ok (some (.exception kind message))) :
    h.Reads obj name (HeapM.getAttribute obj name h) := by
  have methodless : h.Methodless obj name := ⟨method?_of_ne viewed (by simp), _, viewed, rfl⟩
  simp only [HeapM.getAttribute, HeapM.view, inspect, viewed, Bind.bind, EStateM.bind]
  split
  · exact .arguments message methodless ‹_›
  · exact .missing _ methodless

/-- **Every attribute is read in one of these ways.** -/
theorem reads (h : Heap) (obj : Value) (name : String) :
    h.Reads obj name (HeapM.getAttribute obj name h) := by
  cases viewed : h.view obj with
  | error e =>
    have refused : h.method? obj name = .error e := by
      simp only [method?, viewed, Bind.bind, Except.bind]
    simp only [HeapM.getAttribute, HeapM.view, inspect, viewed, Bind.bind, EStateM.bind]
    exact .refused refused
  | ok o =>
    cases o with
    | none =>
      have method : h.method? obj name = .ok none := by
        simp only [method?, viewed, Bind.bind, Except.bind]
        rfl
      simp only [HeapM.getAttribute, HeapM.view, inspect, viewed, Bind.bind, EStateM.bind]
      exact .missing _ ⟨method, _, viewed, rfl⟩
    | some o =>
      cases o with
      | instanceOf cls attributes => exact reads_instanceOf viewed
      | cls className base attributes =>
        obtain ⟨c, rfl, found⟩ := stores_of_view viewed
        exact reads_cls found
      | exception kind message => exact reads_exception viewed
      | _ =>
        refine reads_methods (method?_of_ne viewed (by simp)) viewed ?_
        simp only [HeapM.getAttribute, HeapM.view, inspect, viewed, Bind.bind, EStateM.bind]
        split <;> rfl

end Heap

namespace HeapM

open Heap

variable {α : Type} {h h₁ : Heap} {obj : Value} {o : Object} {name : String}

/-! ## What is called -/

/-- What a call of `obj.name` runs when the attribute is read first. -/
def callableAttribute (obj : Value) (name : String) : HeapM Callable := do
  let v ← getAttribute obj name
  inspect fun h => h.callable v

/-- Two outcomes on `h` are the same, and the second has made the objects that the first has made
and perhaps more. -/
inductive SameBut (h : Heap) : EStateM.Result Failure Heap α → EStateM.Result Failure Heap α → Prop
  | ok (a : α) {h₁ h₂ : Heap} : h.Enlarges h₁ → h₁.Enlarges h₂ → SameBut h (.ok a h₁) (.ok a h₂)
  | error (e : Failure) {h₁ h₂ : Heap} : h.Enlarges h₁ → h₁.Enlarges h₂ →
    SameBut h (.error e h₁) (.error e h₂)

theorem SameBut.inspect (enlarges : h.Enlarges h₁) (f : Heap → Outcome α) :
    SameBut h (inspect f h₁) (inspect f h₁) := by
  simp only [RegisterVm.inspect]
  cases f h₁ with
  | ok a => exact .ok a enlarges (.refl h₁)
  | error e => exact .error e enlarges (.refl h₁)

theorem callableMethod_of_method {id : FunctionId} (method : h.method? obj name = .ok (some id)) :
    callableMethod obj name h = .ok (.function id (some obj)) h := by
  simp only [callableMethod, inspect, method, Bind.bind, EStateM.bind]
  rfl

theorem callableMethod_of_builtin (method : h.method? obj name = .ok none)
    (viewed : h.view obj = .ok (some o)) (has : o.hasMethod name = true) :
    callableMethod obj name h = .ok (.builtinMethod obj name) h := by
  simp only [callableMethod, view, inspect, method, viewed, has, Bind.bind, EStateM.bind,
    Option.any_some, if_true]
  rfl

theorem callableMethod_of_methodless (methodless : h.Methodless obj name) :
    callableMethod obj name h = callableAttribute obj name h := by
  obtain ⟨method, o, viewed, builtin⟩ := methodless
  simp only [callableMethod, callableAttribute, view, inspect, method, viewed, builtin, Bind.bind,
    EStateM.bind]
  rfl

/-- What runs when reading the attribute has made the object that is called. -/
theorem callableAttribute_of_alloc {c : Callable}
    (read : getAttribute obj name h = alloc o h)
    (called : (h.alloc o).2.callable (.object (h.alloc o).1) = .ok c) :
    callableAttribute obj name h = .ok c (h.alloc o).2 := by
  simp only [callableAttribute, Bind.bind, EStateM.bind, read, alloc, inspect, called]

/-- **A method is called as its attribute would be**: the same is run, or the call fails in the same
way, and the two differ in new objects only. -/
theorem callableMethod_agrees (room : h.size < 0x100000000) (obj : Value) (name : String) :
    SameBut h (callableMethod obj name h) (callableAttribute obj name h) := by
  have reads := h.reads obj name
  generalize read : getAttribute obj name h = r at reads
  cases reads with
  | method method function =>
    rename_i f id
    have bound := stores_alloc h (.boundMethod obj f) room
    obtain ⟨functionName, stored⟩ := stores_of_functionOf? function
    have called : (h.alloc (.boundMethod obj f)).2.callable
        (.object (h.alloc (.boundMethod obj f)).1) = .ok (.function id (some obj)) := by
      have stored' := (Enlarges.alloc h (.boundMethod obj f)).stores stored
      simp only [callable, bound.view, functionOf?, stored'.view, Bind.bind, Except.bind]
      rfl
    rw [callableMethod_of_method method, callableAttribute_of_alloc read called]
    exact .ok _ (.refl h) (.alloc h _)
  | refused refused =>
    simp only [callableMethod, callableAttribute, inspect, refused, read, Bind.bind, EStateM.bind]
    exact .error _ (.refl h) (.refl h)
  | builtin method viewed has =>
    have made := stores_alloc h (.builtinMethod obj name) room
    have called : (h.alloc (.builtinMethod obj name)).2.callable
        (.object (h.alloc (.builtinMethod obj name)).1) = .ok (.builtinMethod obj name) := by
      simp only [callable, made.view, Bind.bind, Except.bind]
      rfl
    rw [callableMethod_of_builtin method viewed has, callableAttribute_of_alloc read called]
    exact .ok _ (.refl h) (.alloc h _)
  | value v methodless =>
    rw [callableMethod_of_methodless methodless]
    simp only [callableAttribute, read, Bind.bind, EStateM.bind]
    exact .inspect (.refl h) _
  | arguments text methodless =>
    rw [callableMethod_of_methodless methodless]
    simp only [callableAttribute, read, Bind.bind, EStateM.bind]
    exact .inspect ((Enlarges.alloc h _).trans (.alloc _ _)) _
  | missing e methodless =>
    rw [callableMethod_of_methodless methodless]
    simp only [callableAttribute, read, Bind.bind, EStateM.bind]
    exact .error e (.refl h) (.refl h)

/-- A function of the class `A` is called on an instance of `B`, which is derived from `A`. -/
theorem callableMethod_base : ∃ h : Heap,
    h.objects = #[.function 0 "f", .cls "A" none [("f", .object ⟨0⟩)], .cls "B" (some ⟨1⟩) [],
      .instanceOf ⟨2⟩ []] ∧
    h.size < 0x100000000 ∧
    callableMethod (.object ⟨3⟩) "f" h = .ok (.function 0 (some (.object ⟨3⟩))) h ∧
    ∃ h', callableAttribute (.object ⟨3⟩) "f" h = .ok (.function 0 (some (.object ⟨3⟩))) h' ∧
      h.Enlarges h' := by
  obtain ⟨h, objects, room, called⟩ : ∃ h : Heap,
      h.objects = #[.function 0 "f", .cls "A" none [("f", .object ⟨0⟩)], .cls "B" (some ⟨1⟩) [],
        .instanceOf ⟨2⟩ []] ∧ h.size < 0x100000000 ∧
      callableMethod (.object ⟨3⟩) "f" h = .ok (.function 0 (some (.object ⟨3⟩))) h :=
    ⟨⟨_, ∅⟩, rfl, by decide, rfl⟩
  have agrees := callableMethod_agrees room (.object ⟨3⟩) "f"
  rw [called] at agrees
  generalize bound : callableAttribute (.object ⟨3⟩) "f" h = r at agrees
  cases agrees with
  | ok _ _ enlarges => exact ⟨h, objects, room, called, _, bound, enlarges⟩

/-- **Calling a method makes no object** but the arguments of an exception. -/
theorem after_callableMethod (obj : Value) (other : name ≠ "args") :
    (callableMethod obj name).after h = h := by
  have reads := h.reads obj name
  generalize read : getAttribute obj name h = r at reads
  cases reads with
  | method method => exact after_of_ok (callableMethod_of_method method)
  | refused refused => simp only [after, callableMethod, inspect, refused, Bind.bind, EStateM.bind]
  | builtin method viewed has => exact after_of_ok (callableMethod_of_builtin method viewed has)
  | value v methodless =>
    simp only [after, callableMethod_of_methodless methodless, callableAttribute, inspect, read,
      Bind.bind, EStateM.bind]
    cases h.callable v <;> rfl
  | arguments text methodless same => exact absurd same other
  | missing e methodless =>
    simp only [after, callableMethod_of_methodless methodless, callableAttribute, read, Bind.bind,
      EStateM.bind]

end HeapM

end RegisterVm
