import RegisterVm.Proofs.Machine.Changes

/-!
# What lasts in the heap of a machine in use

Whatever a host does to a machine in use, and every step of the executions of its calls, changes
the heap as operations on objects do (`Machine.InUse.changed`, `Heap.Turn.changed`). So whatever
comes `Heap.Later` than a reachable heap has all objects of old, immutable ones as they were, with
the keys they had, and its dicts, sets and shared texts are in order. Main statement:
`Heap.Reachable.permanent`.
-/

namespace RegisterVm

open Relation (ReflTransGen)

variable {m m' : Machine} {x : Execution}

/-! ## Machines in use -/

/-- The operations of a host write as operations on objects do. -/
theorem Heap.Helper.writes {h : Heap} {α : Type} {operation : HeapM α}
    (helper : h.Helper α operation) (h' : Heap) : operation.Writes h' := by
  cases helper with
  | setItem => exact HeapM.writes_setItem h' _ _ _
  | append => exact HeapM.writes_append h' _ _
  | extend => exact HeapM.writes_extend h' _ _
  | addInPlace => exact HeapM.writes_addInPlace h' _ _
  | setAttribute => exact HeapM.writes_setAttribute h' _ _ _
  | callMethod => exact HeapM.writes_callMethod h' _ _ _
  | text => exact .ofPrepares (.allocText _)
  | intern => exact .ofPrepares (.intern _)
  | integer => exact .ofPrepares (.allocInteger _)
  | range => exact .ofPrepares (.alloc fun _ => trivial)
  | build => exact .ofPrepares (MachineM.prepares_buildFrom _ _)
  | dict => exact .ofPrepares (HeapM.prepares_allocDict _)
  | binary => exact .ofPrepares (HeapM.prepares_binary _ _ _)
  | compare => exact .ofPrepares (HeapM.prepares_compare _ _ _)
  | unary => exact .ofPrepares (HeapM.prepares_unary _ _)
  | getItem => exact .ofPrepares (HeapM.prepares_getItem _ _)
  | slice => exact .ofPrepares (HeapM.prepares_slice _ _ _)
  | iterator => exact .ofPrepares (HeapM.prepares_iterator _)
  | next => exact .ofPrepares (HeapM.prepares_next _)
  | collect => exact .ofPrepares (HeapM.prepares_collect _)
  | getAttribute => exact .ofPrepares (HeapM.prepares_getAttribute _ _)
  | callableMethod => exact .ofPrepares (HeapM.prepares_callableMethod _ _)
  | newException => exact .ofPrepares (HeapM.prepares_newException _ _)
  | raise => exact .ofPrepares (HeapM.prepares_raise _)
  | callBuiltin => exact .ofPrepares (HeapM.prepares_callBuiltin _ _)

theorem Heap.eq_of_callable_cls {h : Heap} {callee : Value} {handle : Handle}
    (called : h.callable callee = .ok (.cls handle)) :
    callee = .object handle ∧ ∃ name base attributes,
      h.view callee = .ok (some (.cls name base attributes)) := by
  unfold Heap.callable at called
  cases viewed : h.view callee with
  | error e =>
    rw [viewed] at called
    cases called
  | ok o =>
    rw [viewed] at called
    simp only [Bind.bind, Except.bind] at called
    split at called
    case h_2 =>
      split at called
      · cases called
      · split at called <;> cases called
    case h_5 =>
      cases called
      exact ⟨rfl, _, _, _, rfl⟩
    all_goals cases called

namespace Machine

theorem changed_start (config : Config) : Heap.empty.Changed (start config).heap := by
  have named : ∀ (names : List (String × Object)) (h : Heap), (∀ p ∈ names, ∀ h, Heap.Fresh h p.2) →
      h.Changed (h.allocNamed names).2 := by
    intro names
    induction names with
    | nil => exact fun h _ => .refl
    | cons p rest ih =>
      intro h each
      exact .head (.proceeds (.add (each p List.mem_cons_self h)))
        (ih _ fun q hq => each q (List.mem_cons_of_mem p hq))
  refine named Heap.builtinObjects .empty fun p hp h => ?_
  rcases List.mem_append.mp hp with hp | hp
  · obtain ⟨f, -, rfl⟩ := List.mem_map.mp hp
    trivial
  · obtain ⟨kind, -, rfl⟩ := List.mem_map.mp hp
    trivial

theorem alters_prepare (callable : Callable) (args : List Value) :
    (prepare callable args).Alters := by
  cases callable with
  | function => exact .pure _
  | builtin f => exact .bind (MachineM.alters_callBuiltin f args) fun _ => .pure _
  | builtinMethod receiver name =>
    exact .bind (.onHeap fun h => HeapM.writes_callMethod h receiver name args) fun _ => .pure _
  | exceptionClass kind =>
    exact .bind (.quietly (HeapM.prepares_newException kind args)) fun _ => .pure _
  | cls handle =>
    refine .bind (MachineM.alters_instantiate handle _) fun v =>
      .bind (MachineM.alters_initialiser? handle) fun found => ?_
    cases found <;> exact .pure _

theorem Runs.changed {id : FunctionId} {args : List Value} (runs : m.Runs id args x)
    (sound : m.library.Sound) : m.heap.Changed x.machine.heap := by
  obtain ⟨frame, m', entered, leads⟩ := runs
  exact ((MachineM.alters_enter _ _ _).ok entered).trans (leads.changed (enter_sound sound entered))

theorem execute_changed (sound : m.library.Sound) {fuel : Nat} {id : FunctionId}
    {args : List Value} {r : Outcome Value} (ran : m.execute fuel id args = some (m', r)) :
    m.heap.Changed m'.heap := by
  unfold execute at ran
  split at ran
  · rename_i refused
    cases ran
    exact (MachineM.alters_enter _ _ _).error refused
  · rename_i entered
    exact ((MachineM.alters_enter _ _ _).ok entered).trans
      ((enter_sound sound entered).run_changed ran)

theorem call_changed (sound : m.library.Sound) {fuel : Nat} {callee : Value} {args : List Value}
    {r : Outcome Value} (ran : m.call fuel callee args = some (m', r)) :
    m.heap.Changed m'.heap := by
  rw [call_eq] at ran
  split at ran
  · cases ran
    exact .refl
  · rename_i callable _
    split at ran
    · rename_i failed
      cases ran
      exact (alters_prepare callable args).error failed
    · rename_i answered
      cases ran
      exact (alters_prepare callable args).ok answered
    · rename_i entering
      obtain ⟨⟨m₂, r'⟩, executed, same⟩ := Option.map_eq_some_iff.mp ran
      cases same
      have kept := ((steady_prepare _ callable args).ok m _ _ rfl entering).1
      exact ((alters_prepare callable args).ok entering).trans
        (execute_changed (kept.library ▸ sound) executed)

/-- **What a host does to a machine** changes its heap as operations on objects do. -/
theorem InUse.changed_since (h : m.InUse) : (Machine.start .standard).heap.Changed m.heap := by
  induction h with
  | start config => exact .refl
  | load _ loaded ih =>
    unfold Machine.load at loaded
    split at loaded <;> cases loaded
    exact ih
  | execute before _ ran ih => exact ih.trans (execute_changed before.reached.sound ran)
  | call before _ ran ih => exact ih.trans (call_changed before.reached.sound ran)
  | @helper m α operation r _ helper ran ih =>
    have changed := (helper.writes m.heap).after
    rw [HeapM.after, ran] at changed
    exact ih.trans changed
  | profiled _ profiled ih =>
    have heap := congrArg Machine.heap profiled.plain
    exact (show _ = _ from heap) ▸ ih
  | setGlobal _ _ _ ih | takeOutput _ ih | shared _ _ _ ih => exact ih

theorem InUse.changed (h : m.InUse) : Heap.empty.Changed m.heap :=
  (changed_start .standard).trans h.changed_since

/-- The built-in functions stay where they are, `print` in front. -/
theorem InUse.object?_zero (h : m.InUse) : m.heap.object? ⟨0⟩ = some (.builtin .print) := by
  obtain ⟨o, found, becomes⟩ := h.changed_since.grows.object ⟨0⟩ (.builtin .print) rfl
  cases becomes
  exact found

/-- A new instance is added to the heap; the rest of the machine stays. -/
theorem eq_of_instantiate {cls : Handle} {argumentCount : Nat} {v : Value}
    (made : MachineM.instantiate cls argumentCount m = .ok v m') :
    m' = { m with heap := (m.heap.alloc (.instanceOf cls [])).2 } := by
  simp only [MachineM.instantiate, Bind.bind, EStateM.bind, MachineM.onHeap, HeapM.alloc] at made
  split at made
  · simp only [EStateM.bind, MachineM.read] at made
    split at made
    · rename_i checked
      split at checked <;> cases checked
      cases made
      rfl
    · cases made
  · cases made
    rfl

theorem eq_of_initialiser? {cls : Handle} {found : Option FunctionId}
    (ran : MachineM.initialiser? cls m = .ok found m') : m' = m := by
  simp only [MachineM.initialiser?, MachineM.read] at ran
  split at ran <;> cases ran
  rfl

/-- A call of a value comes to the call of a function on a machine in use: when the value is a
class, its heap is the one that raising the class would leave. -/
theorem Starts.inUse {m₁ : Machine} {id : FunctionId} {args : List Value}
    (starts : m.Starts m₁ id args) (inUse : m.InUse) : m₁.InUse := by
  cases starts with
  | execute => exact inUse
  | @call callee args _ _ _ _ enters =>
    obtain ⟨callable, result, called, prepared⟩ := enters
    cases callable with
    | function id receiver =>
      cases prepared
      exact inUse
    | cls handle =>
      obtain ⟨rfl, name, base, attributes, viewed⟩ := Heap.eq_of_callable_cls called
      have raised : (HeapM.raise (.object handle) : HeapM Value) m.heap =
          .error ((m.heap.alloc (.instanceOf handle [])).2.raised
            (.object (m.heap.alloc (.instanceOf handle [])).1))
            (m.heap.alloc (.instanceOf handle [])).2 := by
        simp only [HeapM.raise, HeapM.view, inspect, viewed, Bind.bind, EStateM.bind]
        rfl
      have same : m₁ = { m with heap := (m.heap.alloc (.instanceOf handle [])).2 } := by
        simp only [prepare, Bind.bind, EStateM.bind] at prepared
        split at prepared
        · rename_i made
          split at prepared
          · rename_i found
            have after := eq_of_initialiser? found
            split at prepared <;> cases prepared
            exact after.trans (eq_of_instantiate made)
          · cases prepared
        · cases prepared
      rw [same]
      exact .helper inUse (.raise (.object handle)) raised
    | builtin | builtinMethod | exceptionClass =>
      simp only [prepare, Bind.bind, EStateM.bind] at prepared
      split at prepared <;> cases prepared

theorem Executes.changed (h : m.Executes x) (inUse : m.InUse) :
    m.heap.Changed x.machine.heap := by
  obtain ⟨m₁, id, args, starts, frame, m₂, entered, leads⟩ := h
  have reached := (starts.advances inUse).2.1
  have prepared : m.heap.Changed m₁.heap := by
    cases starts with
    | execute => exact .refl
    | call _ enters =>
      obtain ⟨callable, result, -, prepared⟩ := enters
      exact (alters_prepare callable _).ok prepared
  exact (prepared.trans ((MachineM.alters_enter _ _ _).ok entered)).trans
    (leads.changed (enter_sound reached.sound entered))

/-- What is proved of reachable heaps holds in the midst of calls. -/
theorem Executes.reachable (h : m.Executes x) (inUse : m.InUse) : x.machine.heap.Reachable := by
  obtain ⟨m₁, id, args, starts, runs⟩ := h
  exact .running (starts.inUse inUse) (starts.advances inUse).2.2 runs

end Machine

/-! ## Reachable heaps -/

namespace Heap

variable {h h' : Heap}

theorem Reachable.changed (reachable : h.Reachable) : empty.Changed h := by
  cases reachable with
  | idle inUse => exact inUse.changed
  | running inUse ha runs =>
    exact inUse.changed.trans ((Machine.Executes.ofRuns ha runs).changed inUse)

/-- What happens next to a reachable heap: a host calls a value or uses an operation, or a call is
executed up to some instruction, or one instruction further. All of this may fail. -/
inductive Turn : Heap → Heap → Prop
  | call {m m' : Machine} {fuel : Nat} {callee : Value} {args : List Value} {r : Outcome Value} :
    m.InUse → (∀ v ∈ args, m.heap.Has v) → m.call fuel callee args = some (m', r) →
    Turn m.heap m'.heap
  | helper {h : Heap} {α : Type} {operation : HeapM α} : h.Reachable → h.Helper α operation →
    Turn h (operation.after h)
  | execution {m : Machine} {x : Execution} : m.InUse → m.Executes x →
    Turn m.heap x.machine.heap
  | step {m : Machine} {x : Execution} : m.InUse → m.Executes x → Turn x.machine.heap x.step.heap

/-- What is left of a heap in the end. -/
abbrev Later : Heap → Heap → Prop := ReflTransGen Turn

theorem Turn.changed (turn : h.Turn h') : h.Changed h' := by
  cases turn with
  | call inUse _ ran => exact Machine.call_changed inUse.reached.sound ran
  | helper _ helper => exact (helper.writes h).after
  | execution inUse executes => exact executes.changed inUse
  | step inUse executes => exact (executes.sound inUse).step_changed

theorem Turn.sound (turn : h.Turn h') : ∃ functions, h'.Sound functions := by
  cases turn with
  | call inUse ha ran => exact ⟨_, (Machine.InUse.call inUse ha ran).consistent.heap⟩
  | @helper _ α operation reachable helper =>
    obtain ⟨functions, sound⟩ := reachable.sound
    have keeps : operation.Keeps functions h fun _ _ => True := helper.keeps
    refine ⟨functions, ?_⟩
    rw [HeapM.after]
    cases ran : operation h with
    | ok a h' => exact (keeps.ok h a h' (.refl h) sound ran).2.1
    | error e h' => exact (keeps.error h e h' (.refl h) sound ran).2.1
  | execution inUse executes => exact ⟨_, (executes.consistent inUse).machine.heap⟩
  | @step m x inUse executes =>
    have stepped := (executes.consistent inUse).step (executes.sound inUse)
    cases hs : x.step with
    | running y =>
      rw [hs] at stepped
      exact ⟨_, stepped.machine.heap⟩
    | finished m' r =>
      rw [hs] at stepped
      cases r <;> exact ⟨_, stepped.1.heap⟩

theorem Later.changed (later : h.Later h') : h.Changed h' := by
  induction later with
  | refl => exact .refl
  | tail _ turn ih => exact ih.trans turn.changed

theorem Later.founded (later : h.Later h') (reachable : h.Reachable) : h'.Founded := by
  cases later with
  | refl =>
    obtain ⟨functions, sound⟩ := reachable.sound
    exact sound.founded
  | tail _ turn =>
    obtain ⟨functions, sound⟩ := turn.sound
    exact sound.founded

/-- **What lasts in a reachable heap**, whatever is done later, as long as handles suffice. Every
object stays one of its kind: strings, integers, tuples, ranges, functions, methods, built-in
functions, exceptions and their classes are as they were, a class keeps its name and base and an
instance its class (`Object.Becomes`). A shared text keeps standing for its string. A value keeps
its key, and every dict and set finds its entries by the keys that they have. -/
theorem Reachable.permanent (reachable : h.Reachable) (later : h.Later h')
    (bound : h'.size ≤ 0x100000000) :
    (∀ handle o, h.object? handle = some o →
      ∃ o', h'.object? handle = some o' ∧ o.Becomes o') ∧
    (∀ (s : String) handle, h.interned[s]? = some handle → h'.interned[s]? = some handle ∧
      h.object? handle = some (.str s) ∧ h'.object? handle = some (.str s)) ∧
    (∀ v k, h.key v = .ok k → h'.key v = .ok k) ∧ h'.Indexed := by
  have grows := later.changed.grows
  have founded := later.founded reachable
  have shares : h.Shares := reachable.changed.shares (Nat.le_trans grows.size bound) shares_empty
  refine ⟨grows.object, fun s handle found => ⟨grows.interned s handle found,
    shares s handle found, grows.str (shares s handle found)⟩, fun v k keyed => ?_, ?_⟩
  · exact grows.key (grows.founded founded) keyed
  · have changed : empty.Changed h' := reachable.changed.trans later.changed
    exact changed.indexed founded indexed_empty

/-- A new machine with a text, a tuple of it and an empty list. -/
def tupleAndList : Machine :=
  let text := (HeapM.allocText "a").after (Machine.start .standard).heap
  let tuple := (MachineM.buildFrom .tuple [.object ⟨28⟩]).after text
  { Machine.start .standard with heap := (MachineM.buildFrom .list []).after tuple }

theorem tupleAndList_inUse : tupleAndList.InUse := by
  have text : Machine.InUse { Machine.start .standard with
      heap := (HeapM.allocText "a").after (Machine.start .standard).heap } :=
    .helper (.start .standard) (.text "a") rfl
  have inside : 28 < ((HeapM.allocText "a").after (Machine.start .standard).heap).size := by
    decide +kernel
  have tuple := Machine.InUse.helper text (.build .tuple [.object ⟨28⟩] fun v hv => by
    rw [List.mem_singleton.mp hv]
    exact inside) rfl
  exact .helper tuple (.build .list [] fun v hv => by cases hv) rfl

/-- A list is changed beside a text and a tuple, which stay, with the key of the tuple. -/
theorem Reachable.permanent_append :
    ∃ h' : Heap, tupleAndList.heap.Reachable ∧ tupleAndList.heap.Later h' ∧
      h'.size ≤ 0x100000000 ∧
      tupleAndList.heap.object? ⟨30⟩ = some (.list #[]) ∧
      h'.object? ⟨30⟩ = some (.list #[.int 7]) ∧
      tupleAndList.heap.object? ⟨28⟩ = some (.str "a") ∧ h'.object? ⟨28⟩ = some (.str "a") ∧
      tupleAndList.heap.object? ⟨29⟩ = some (.tuple #[.object ⟨28⟩]) ∧
      h'.object? ⟨29⟩ = some (.tuple #[.object ⟨28⟩]) ∧
      h'.key (.object ⟨29⟩) = .ok (.tuple (.cons (.str "a") .nil)) ∧ h'.Indexed := by
  have reachable : tupleAndList.heap.Reachable := .idle tupleAndList_inUse
  have later : tupleAndList.heap.Later
      ((HeapM.append (.object ⟨30⟩) (.int 7)).after tupleAndList.heap) :=
    .single (.helper reachable (.append _ _ trivial))
  have bound : ((HeapM.append (.object ⟨30⟩) (.int 7)).after tupleAndList.heap).size ≤
      0x100000000 := by decide +kernel
  obtain ⟨objects, -, keys, indexed⟩ := Reachable.permanent reachable later bound
  obtain ⟨o, text, same⟩ := objects ⟨28⟩ (.str "a") rfl
  cases same
  obtain ⟨o, tuple, same⟩ := objects ⟨29⟩ (.tuple #[.object ⟨28⟩]) rfl
  cases same
  exact ⟨_, reachable, later, bound, rfl, rfl, rfl, text, rfl, tuple,
    keys (.object ⟨29⟩) (.tuple (.cons (.str "a") .nil)) rfl, indexed⟩

end Heap

end RegisterVm
