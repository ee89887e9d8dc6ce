import RegisterVm.Proofs.Heap.Lineage
import RegisterVm.Proofs.Machine.Inline
import RegisterVm.Proofs.Machine.InUse

/-!
# Deep class hierarchies

On reachable heaps every class has one lineage, of any length: a program that derives classes one
from the other makes it (`Machine.exists_derived`). Attributes and ancestors are looked for on the
first `maxBases` classes of the lineage alone. An attribute that is not found there is refused as
soon as there are that many classes (`Heap.Reachable.class_attribute`), an ancestor is missed
(`Heap.Reachable.subclass_missed`), and otherwise subclasses, instances and exceptions agree
(`Heap.Reachable.subclass`).
-/

namespace RegisterVm

/-! ## One more class -/

namespace Heap

variable {h : Heap} {a c : Handle} {o : Object}

/-- A class without attributes that is derived from `c`, and the heap with it. The class is made
from an empty dict. -/
def derive (c : Handle) (h : Heap) : Handle × Heap :=
  (h.alloc (.dict .empty)).2.alloc (.cls "A" (some c) [])

theorem grows_derive (c : Handle) (h : Heap) : h.Grows (h.derive c).2 :=
  (h.grows_alloc _).trans (grows_alloc _ _)

theorem size_derive (c : Handle) (h : Heap) : (h.derive c).2.size = h.size + 2 := by
  rw [derive, size_alloc, size_alloc]

theorem object?_derive (room : h.size + 1 < 0x100000000) :
    (h.derive c).2.object? (h.derive c).1 = some (.cls "A" (some c) []) :=
  object?_alloc _ _ (by rwa [size_alloc])

/-- The old objects stay as they are. -/
theorem object?_derive_of_old (found : h.object? a = some o) :
    (h.derive c).2.object? a = some o := by
  have inside := lt_of_object? found
  have inside' : a.index.toNat < (h.alloc (.dict .empty)).2.size := by
    rw [size_alloc]
    exact Nat.lt_succ_of_lt inside
  rw [derive, object?_of_lt _ _ _ inside', object?_of_lt _ _ _ inside, found]

end Heap

namespace Machine

/-! ## A program that derives classes -/

/-- Makes a class without attributes from its base. -/
def derivation : Chunk :=
  ⟨"derive", #[⟨.build .dict ⟨1⟩ ⟨1⟩ 0, none⟩, ⟨.makeClass ⟨1⟩ 0 ⟨1⟩ (some ⟨0⟩), none⟩,
    ⟨.ret ⟨1⟩, none⟩], #[.str "A"], 2, 1, []⟩

/-- The chunk as a function that is loaded. -/
def deriver : LoadedFunction := ⟨derivation, #[], []⟩

section Steps

variable {m : Machine} {id : FunctionId} {b c : Handle}

/-- A class made from an empty dict has no attributes. -/
theorem makeClass_eq (name : String) (body : m.heap.object? b = some (.dict .empty))
    (cls : m.heap.IsClass c) :
    MachineM.makeClass name (.object b) (some (.object c)) m =
      .ok (.object (m.heap.alloc (.cls name (some c) [])).1)
        { m with heap := (m.heap.alloc (.cls name (some c) [])).2 } := by
  have attributes : MachineM.attributesOf m.heap (.object b) = .ok [] := by
    have viewed : m.heap.view (.object b) = .ok (some (.dict .empty)) :=
      Heap.Stores.view ⟨b, rfl, body⟩
    simp only [MachineM.attributesOf, viewed, Bind.bind, Except.bind]
    rfl
  have base : MachineM.baseOf m.heap (.object c) = .ok c := by
    cases cls with
    | cls found | exceptionClass found =>
      have viewed := Heap.Stores.view ⟨c, rfl, found⟩
      simp only [MachineM.baseOf, viewed, Bind.bind, Except.bind]
      rfl
  simp only [MachineM.makeClass, Bind.bind, EStateM.bind, MachineM.read, attributes, base,
    Functor.map, EStateM.map]
  rfl

theorem enter_derive (known : m.library.function? id = some deriver)
    (free : m.depth < m.config.maxDepth) (v : Value) :
    ∃ allocated arena, MachineM.enter id [v] none m =
      .ok ⟨id, ⟨#[v, .none], allocated⟩, 0, [], none, none⟩ { m with arena } := by
  have entered : ∃ allocated arena, Frame.enter id deriver [v] none m.arena =
      .ok (⟨id, ⟨#[v, .none], allocated⟩, 0, [], none, none⟩, arena) := by
    obtain ⟨files⟩ := m.arena
    cases files <;> exact ⟨_, _, rfl⟩
  obtain ⟨allocated, arena, entered⟩ := entered
  refine ⟨allocated, arena, ?_⟩
  simp only [MachineM.enter, MachineM.function, MachineM.checkDepth, Bind.bind, EStateM.bind, known,
    if_neg (Nat.not_le.mpr free), entered]

theorem step_derive_dict (known : m.library.function? id = some deriver) (u v : Value)
    (allocated : Bool) :
    Execution.step ⟨m, ⟨id, ⟨#[u, v], allocated⟩, 0, [], none, none⟩, []⟩ =
      .running ⟨{ m with heap := (m.heap.alloc (.dict .empty)).2 },
        ⟨id, ⟨#[u, .object (m.heap.alloc (.dict .empty)).1], allocated⟩, 1, [], none, none⟩,
        []⟩ := by
  simp only [Execution.step, known]
  rfl

theorem step_derive_class (known : m.library.function? id = some deriver)
    (body : m.heap.object? b = some (.dict .empty)) (cls : m.heap.IsClass c) (allocated : Bool) :
    Execution.step ⟨m, ⟨id, ⟨#[.object c, .object b], allocated⟩, 1, [], none, none⟩, []⟩ =
      .running ⟨{ m with heap := (m.heap.alloc (.cls "A" (some c) [])).2 },
        ⟨id, ⟨#[.object c, .object (m.heap.alloc (.cls "A" (some c) [])).1], allocated⟩, 2, [],
          none, none⟩, []⟩ := by
  have op : derivation.opcode? 1 = some (.makeClass ⟨1⟩ 0 ⟨1⟩ (some ⟨0⟩)) := rfl
  have made : MachineM.exec deriver #[.object c, .object b] 1
      (.makeClass ⟨1⟩ 0 ⟨1⟩ (some ⟨0⟩)) m =
      .ok (.write ⟨1⟩ (.object (m.heap.alloc (.cls "A" (some c) [])).1))
        { m with heap := (m.heap.alloc (.cls "A" (some c) [])).2 } := by
    change (do return Effect.write ⟨1⟩ (← MachineM.makeClass "A" (.object b) (some (.object c))) :
      MachineM Effect) m = _
    simp only [Bind.bind, EStateM.bind, makeClass_eq "A" body cls]
    rfl
  simp only [Execution.step, known]
  rw [interpret_eq op, made]
  rfl

theorem step_derive_return (known : m.library.function? id = some deriver) (u v : Value)
    (allocated : Bool) :
    Execution.step ⟨m, ⟨id, ⟨#[u, v], allocated⟩, 2, [], none, none⟩, []⟩ =
      .finished (m.retire ⟨#[u, v], allocated⟩) (.ok v) := by
  simp only [Execution.step, known]
  rfl

/-- Calling the function on a class derives one from it. -/
theorem execute_derive (known : m.library.function? id = some deriver)
    (free : m.depth < m.config.maxDepth) (room : m.heap.size < 0x100000000)
    (cls : m.heap.IsClass c) :
    ∃ m', m.execute 3 id [.object c] = some (m', .ok (.object (m.heap.derive c).1)) ∧
      m'.heap = (m.heap.derive c).2 ∧ m'.library = m.library ∧ m'.config = m.config ∧
      m'.depth = m.depth := by
  obtain ⟨allocated, arena, entered⟩ := enter_derive known free (.object c)
  have body := m.heap.object?_alloc (.dict .empty) room
  have cls' : (m.heap.alloc (.dict .empty)).2.IsClass c := cls.grown (m.heap.grows_alloc _)
  let entry : Machine := descend { m with arena }
  let between : Machine := { entry with heap := (m.heap.alloc (.dict .empty)).2 }
  let ended : Machine := { entry with heap := (m.heap.derive c).2 }
  have first := step_derive_dict (m := entry) known (.object c) .none allocated
  have second := step_derive_class (m := between) known body cls' allocated
  have third := step_derive_return (m := ended) known (.object c) (.object (m.heap.derive c).1)
    allocated
  refine ⟨ended.retire ⟨#[.object c, .object (m.heap.derive c).1], allocated⟩, ?_, rfl, rfl, rfl,
    rfl⟩
  simp only [execute, entered]
  exact ((Execution.run_step first 2).trans (Execution.run_step second 1)).trans
    (Execution.run_finished third 0)

end Steps

/-! ## Lineages of any length -/

/-- The class `Exception` of a machine. -/
def exceptionClass : Handle := ⟨17⟩

/-- A machine on which `n` classes have been derived, one from the other and the first one from
`Exception`. They have no attributes. -/
structure Derived (n : Nat) (m : Machine) (c : Handle) (cs : List Handle) : Prop where
  inUse : m.InUse
  known : m.library.function? 0 = some deriver
  config : m.config = .standard
  depth : m.depth = 0
  size : m.heap.size = 28 + 2 * n
  exception : m.heap.object? exceptionClass = some (.exceptionClass .uncaughtException)
  cls : m.heap.IsClass c
  lineage : m.heap.Lineage (some c) cs (some exceptionClass)
  length : cs.length = n
  bare : ∀ a ∈ cs, ∃ name base, m.heap.object? a = some (.cls name base [])

namespace Derived

variable {n : Nat} {m : Machine} {c : Handle} {cs : List Handle}

theorem zero : ∃ m, Derived 0 m exceptionClass [] := by
  obtain ⟨m, load, known, config, depth, size, exception⟩ : ∃ m,
      (start .standard).load derivation = .ok (0, m) ∧
      m.library.function? 0 = some deriver ∧ m.config = .standard ∧ m.depth = 0 ∧
      m.heap.size = 28 ∧
      m.heap.object? exceptionClass = some (.exceptionClass .uncaughtException) :=
    ⟨_, rfl, rfl, rfl, rfl, rfl, rfl⟩
  exact ⟨m, .load (.start .standard) load, known, config, depth, size, exception,
    .exceptionClass exception, .outside exception nofun, rfl, fun a ha => by cases ha⟩

/-- One more class is derived. -/
theorem succ (derived : Derived n m c cs) (room : n < 0x40000000) :
    ∃ m' c', Derived (n + 1) m' c' (c' :: cs) := by
  have size := derived.size
  have free : m.depth < m.config.maxDepth := by
    rw [derived.depth, derived.config]
    decide
  obtain ⟨m', ran, heap, library, config, depth⟩ :=
    execute_derive derived.known free (by omega) derived.cls
  have made : m'.heap.object? (m.heap.derive c).1 = some (.cls "A" (some c) []) :=
    heap ▸ Heap.object?_derive (by omega)
  have old : ∀ {a : Handle} {o : Object}, m.heap.object? a = some o → m'.heap.object? a = some o :=
    fun found => heap ▸ Heap.object?_derive_of_old found
  have has : ∀ v ∈ [Value.object c], m.heap.Has v := fun v mem => by
    rw [List.mem_singleton.mp mem]
    exact derived.cls.has
  refine ⟨m', (m.heap.derive c).1, .execute derived.inUse has ran, library ▸ derived.known,
    config.trans derived.config, depth.trans derived.depth, ?_, old derived.exception, .cls made,
    .cls made (heap ▸ derived.lineage.grown (Heap.grows_derive c m.heap)),
    congrArg (· + 1) derived.length, fun a mem => ?_⟩
  · rw [heap, Heap.size_derive]
    omega
  · rcases List.mem_cons.mp mem with rfl | mem
    · exact ⟨_, _, made⟩
    · obtain ⟨name, base, found⟩ := derived.bare a mem
      exact ⟨name, base, old found⟩

/-- Every place in the lineage is taken by a class. -/
theorem exists_at (derived : Derived n m c cs) {i : Nat} (inside : i < n) :
    ∃ a ∈ cs, (cs ++ [exceptionClass])[i]? = some a := by
  obtain ⟨a, stands⟩ : ∃ a, cs[i]? = some a :=
    ⟨_, List.getElem?_eq_getElem (derived.length ▸ inside)⟩
  exact ⟨a, List.mem_of_getElem? stands,
    by rw [List.getElem?_append_left (derived.length ▸ inside), stands]⟩

/-- `Exception` stands behind the classes. -/
theorem at_end (derived : Derived n m c cs) :
    (cs ++ [exceptionClass])[n]? = some exceptionClass := by
  rw [List.getElem?_append_right (Nat.le_of_eq derived.length), derived.length, Nat.sub_self]
  rfl

end Derived

/-- **Programs make lineages of any length.** -/
theorem exists_derived (n : Nat) (room : n ≤ 0x40000000) : ∃ m c cs, Derived n m c cs := by
  induction n with
  | zero =>
    obtain ⟨m, derived⟩ := Derived.zero
    exact ⟨m, _, _, derived⟩
  | succ n ih =>
    obtain ⟨m, c, cs, derived⟩ := ih (Nat.le_of_succ_le room)
    obtain ⟨m', c', derived'⟩ := derived.succ room
    exact ⟨m', c', _, derived'⟩

end Machine

/-! ## Reachable heaps -/

namespace Heap

variable {h : Heap} {c : Handle}

/-- **Class attributes.** On a reachable heap every class has one lineage, and looking for an
attribute on it gives

* the attribute of the nearest class that has it, if that is one of the first `maxBases` classes;
* nothing if no class has it and there are fewer than `maxBases` classes;
* an error about a deep hierarchy in all other cases, so also when there are exactly `maxBases`
  classes and none of them has the attribute. -/
theorem Reachable.class_attribute (reachable : h.Reachable) (has : h.Has (.object c)) :
    ∃ cs last, (∀ cs' last', h.Lineage (some c) cs' last' ↔ cs' = cs ∧ last' = last) ∧
      ∀ name,
        (∀ v, h.classAttribute c name = .ok (some v) ↔
          ∃ before a after, cs = before ++ a :: after ∧ before.length < maxBases ∧
            h.ownAttribute? name a = some v ∧ ∀ b ∈ before, h.ownAttribute? name b = none) ∧
        (h.classAttribute c name = .ok none ↔
          cs.length < maxBases ∧ ∀ a ∈ cs, h.ownAttribute? name a = none) ∧
        (∀ e, h.classAttribute c name = .error e ↔ maxBases ≤ cs.length ∧
          (∀ a ∈ cs.take maxBases, h.ownAttribute? name a = none) ∧
          e = .ofFault .classChainTooDeep) := by
  obtain ⟨functions, sound⟩ := reachable.sound
  obtain ⟨cs, last, only⟩ := exists_lineage sound has
  have lineage := (only cs last).mpr ⟨rfl, rfl⟩
  exact ⟨cs, last, only, fun name => ⟨fun _ => lineage.classAttribute_some_iff,
    lineage.classAttribute_none_iff, fun _ => lineage.classAttribute_error_iff⟩⟩

/-- With exactly as many classes as are looked at, an attribute that all of them lack is refused. -/
theorem Reachable.class_attribute_deep :
    ∃ (h : Heap) (c : Handle) (cs : List Handle) (last : Option Handle) (e : Failure),
      h.Reachable ∧ h.Has (.object c) ∧ h.Lineage (some c) cs last ∧ cs.length = 256 ∧
      (∀ a ∈ cs, h.ownAttribute? "__init__" a = none) ∧
      h.classAttribute c "__init__" = .error e ∧ e.kind = .typeError ∧
      e.message = "class hierarchy is too deep or cyclic" := by
  obtain ⟨m, c, cs, derived⟩ := Machine.exists_derived 256 (by decide)
  have lacking : ∀ a ∈ cs, m.heap.ownAttribute? "__init__" a = none := fun a mem => by
    obtain ⟨name, base, found⟩ := derived.bare a mem
    rw [ownAttribute?, found]
    rfl
  have reachable : m.heap.Reachable := .idle derived.inUse
  obtain ⟨cs', last', only, looked⟩ := Reachable.class_attribute reachable derived.cls.has
  obtain ⟨rfl, rfl⟩ := (only _ _).mp derived.lineage
  obtain ⟨-, -, refused⟩ := looked "__init__"
  exact ⟨m.heap, c, cs, _, _, reachable, derived.cls.has, derived.lineage, derived.length, lacking,
    (refused _).mpr ⟨Nat.le_of_eq derived.length.symm,
      fun a mem => lacking a (List.mem_of_mem_take mem), rfl⟩, rfl, rfl⟩

/-- **Subclasses and instances.** On a reachable heap the question whether a class is a subclass of
another one has an answer. It is a subclass of the first `maxBases` classes of its lineage, the
class at the end included. So, if the lineage is not longer, it is a subclass of all its bases, and
a subclass of a subclass is one too. An instance of the class

* is an instance of a class of a program exactly when its class is a subclass of that, and an
  instance of every class among the first `maxBases` of the lineage;
* is an exception of a kind when the lineage ends in an exception class of the kind, however long
  the lineage is, and an instance of an exception class exactly when it is such an exception. -/
theorem Reachable.subclass (reachable : h.Reachable) (has : h.Has (.object c)) :
    ∃ cs last, (∀ cs' last', h.Lineage (some c) cs' last' ↔ cs' = cs ∧ last' = last) ∧
      (∀ a, ∃ t, h.isSubclass c a = .ok t ∧
        (t = true ↔ a ∈ (cs ++ last.toList).take maxBases)) ∧
      (∀ i a, (cs ++ last.toList)[i]? = some a → (h.isSubclass c a = .ok true ↔ i < maxBases)) ∧
      ((cs ++ last.toList).length ≤ maxBases →
        (∀ a, h.isSubclass c a = .ok true ↔ a ∈ cs ++ last.toList) ∧
        ∀ a b, h.isSubclass c a = .ok true → h.isSubclass a b = .ok true →
          h.isSubclass c b = .ok true) ∧
      ∀ v attributes, h.Stores v (.instanceOf c attributes) →
        (∀ a name base own, h.object? a = some (.cls name base own) →
          h.isInstance v (.object a) = h.isSubclass c a) ∧
        (∀ a, h.IsClass a → a ∈ (cs ++ last.toList).take maxBases →
          h.isInstance v (.object a) = .ok true) ∧
        (∀ e kind, h.object? e = some (.exceptionClass kind) →
          h.isInstance v (.object e) = h.isException v kind) ∧
        ∀ kind, ∃ t, h.isException v kind = .ok t ∧ (t = true ↔ ∃ e other, last = some e ∧
          h.object? e = some (.exceptionClass other) ∧ kind.takesIn other = true) := by
  obtain ⟨functions, sound⟩ := reachable.sound
  obtain ⟨cs, last, only⟩ := exists_lineage sound has
  have lineage := (only cs last).mpr ⟨rfl, rfl⟩
  refine ⟨cs, last, only, fun a => ?_, fun i a => lineage.isSubclass_iff_lt, fun short => ?_,
    fun v attributes stored => ⟨fun a name base own => stored.isInstance_cls,
      fun a cls mem => lineage.isInstance_of_mem sound stored cls mem,
      fun e kind => isInstance_exceptionClass stored.has, lineage.isException sound stored⟩⟩
  · exact ⟨_, lineage.isSubclassWithin_eq a maxBases, decide_eq_true_iff⟩
  · refine ⟨fun a => ?_, fun _ _ => lineage.isSubclass_trans short⟩
    rw [lineage.isSubclass_iff, List.take_of_length_le short]

/-- With exactly as many classes as are looked at, the last one is found, and the exception class
behind it is not. -/
theorem Reachable.subclass_deep :
    ∃ (h : Heap) (c a e : Handle) (cs : List Handle), h.Reachable ∧ h.Has (.object c) ∧
      h.Lineage (some c) cs (some e) ∧ cs.length = 256 ∧ a ∈ cs ∧
      h.isSubclass c a = .ok true ∧ h.isSubclass c e = .ok false := by
  obtain ⟨m, c, cs, derived⟩ := Machine.exists_derived 256 (by decide)
  have lineage := derived.lineage
  have reachable : m.heap.Reachable := .idle derived.inUse
  obtain ⟨_, _, only, -, position, -⟩ := Reachable.subclass reachable derived.cls.has
  obtain ⟨rfl, rfl⟩ := (only _ _).mp lineage
  obtain ⟨a, mem, stands⟩ := derived.exists_at (show 255 < 256 by decide)
  refine ⟨m.heap, c, a, _, cs, reachable, derived.cls.has, lineage, derived.length, mem,
    (position 255 a stands).mpr (by decide), lineage.isSubclass_false fun found => ?_⟩
  exact absurd ((position 256 _ derived.at_end).mp found) (by decide)

/-- **A base is missed** that stands behind the classes looked at, and so is the exception class at
the end of the lineage, although instances of the class are exceptions. -/
theorem Reachable.subclass_missed :
    ∃ (h : Heap) (c a e : Handle) (cs : List Handle), h.Reachable ∧
      h.Lineage (some c) cs (some e) ∧ a ∈ cs ∧ h.isSubclass c a = .ok false ∧
      h.isSubclass c e = .ok false ∧ h.Derives .uncaughtException c := by
  obtain ⟨m, c, cs, derived⟩ := Machine.exists_derived 257 (by decide)
  have lineage := derived.lineage
  have missed : ∀ {i : Nat} {a : Handle}, (cs ++ [Machine.exceptionClass])[i]? = some a →
      maxBases ≤ i → m.heap.isSubclass c a = .ok false := fun stands late =>
    lineage.isSubclass_false fun found =>
      absurd ((lineage.isSubclass_iff_lt stands).mp found) (Nat.not_lt.mpr late)
  obtain ⟨a, mem, stands⟩ := derived.exists_at (show 256 < 257 by decide)
  exact ⟨m.heap, c, a, _, cs, .idle derived.inUse, lineage, mem, missed stands (by decide),
    missed derived.at_end (by decide),
    (lineage.derives_iff rfl _).mpr ⟨_, rfl, derived.exception⟩⟩

end Heap

end RegisterVm
