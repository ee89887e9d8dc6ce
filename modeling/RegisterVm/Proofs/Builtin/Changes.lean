import RegisterVm.Proofs.Builtin.Failure
import RegisterVm.Proofs.Heap.Changes

/-!
# What built-in functions and methods change on a heap

Built-in functions only prepare the heap (`HeapM.prepares_callBuiltin`). Methods of built-in types
write to their receivers, after everything that may fail (`HeapM.writes_callMethod`).
-/

namespace RegisterVm.HeapM

/-! ## Methods -/

/-- Reading the arguments of a call. -/
theorem prepares_arguments {α : Type} (o : Outcome α) : Prepares (inspect fun _ => o) :=
  .inspect _

theorem writes_popItem (h : Heap) (list : Value) (index : Option (Option Int64)) :
    Writes h (popItem list index) := by
  refine .bind (.inspect _) fun items h' _ => ?_
  dsimp only
  split
  · exact .bind (.fail _) fun _ _ failed => by cases failed
  · split
    · exact .ofPrepares (.fail _)
    · split
      · exact .ofPrepares (.fail _)
      · exact (Writes.onList list _).give

theorem writes_insertItem (h : Heap) (list : Value) (index : Int64) (item : Value) :
    Writes h (insertItem list index item) :=
  .bind (.inspect _) fun _ _ _ => .onList list _

theorem writes_listMethod (h : Heap) (method : ListMethod) (list : Value) (args : List Value) :
    Writes h (listMethod method list args) := by
  cases method with
  | append => exact .bind (prepares_arguments _) fun item h' _ => (writes_append h' list item).give
  | extend =>
    exact .bind (prepares_arguments _) fun v _ _ => .bind (prepares_collect v) fun items h' _ =>
      (writes_extend h' list items).give
  | pop =>
    refine .bind (prepares_arguments _) fun key h' _ => ?_
    cases key with
    | none => exact writes_popItem h' list none
    | some key => exact .bind (.inspect _) fun index h'' _ => writes_popItem h'' list (some index)
  | insert =>
    exact .bind (prepares_arguments _) fun pair _ _ => .bind (.inspect _) fun index h' _ =>
      (writes_insertItem h' list (index.getD Int64.maxValue) pair.2).give
  | index | count =>
    exact .ofPrepares (.bind (prepares_arguments _) fun _ => .inspect _)

theorem writes_dictPop (h : Heap) (dict key : Value) (default : Option Value) :
    Writes h (dictPop dict key default) := by
  refine .inspectBind fun k _ => .inspectBind fun o viewed => ?_
  dsimp only
  split
  · rename_i v rest removed
    split at removed
    · rename_i d
      obtain ⟨handle, rfl, found⟩ := h.gives_view dict _ viewed (.dict d) rfl
      refine (Writes.modify fun other o same present => .inr ?_).give
      cases same
      cases found.symm.trans present
      exact .removeEntry removed
    · cases removed
  · exact .ofPrepares (.pure _)
  · exact .ofPrepares (.inspect _)

theorem prepares_dictGet (dict key default : Value) : Prepares (dictGet dict key default) :=
  .inspect _

theorem writes_dictMethod (h : Heap) (method : DictMethod) (dict : Value) (args : List Value) :
    Writes h (dictMethod method dict args) := by
  have list : ∀ items, Prepares (alloc (.list items)) := fun _ => .alloc fun _ => trivial
  have pair : ∀ p : Value × Value, Prepares (alloc (.tuple #[p.1, p.2])) :=
    fun _ => .alloc fun _ => trivial
  cases method with
  | get => exact .ofPrepares (.bind (prepares_arguments _) fun _ => prepares_dictGet dict _ _)
  | keys | values =>
    exact .ofPrepares (.bind (prepares_arguments _) fun _ => .bind (.inspect _) fun _ => list _)
  | items =>
    exact .ofPrepares (.bind (prepares_arguments _) fun _ => .bind (.inspect _) fun entries =>
      .bind (.mapM pair entries) fun _ => list _)
  | pop => exact .bind (prepares_arguments _) fun args h' _ => writes_dictPop h' dict _ _

theorem writes_setMethod (h : Heap) (method : SetMethod) (set : Value) (args : List Value) :
    Writes h (setMethod method set args) := by
  cases method with
  | add => exact .inspectBind fun item _ => .inspectBind fun k keyed =>
      (Writes.insertItem set keyed).give

@[grind ←] theorem prepares_optionalText (method : String) (arg : Option Value) :
    Prepares (optionalText method arg) := by
  unfold optionalText
  grind

theorem prepares_oneText (method : String) (args : List Value) : Prepares (oneText method args) :=
  .bind (prepares_arguments _) fun _ => .inspect _

theorem prepares_textMethod (method : TextMethod) (receiver : Value) (args : List Value) :
    Prepares (textMethod method receiver args) := by
  refine .bind (.inspect _) fun s => ?_
  cases method with
  | upper | lower => exact .bind (prepares_arguments _) fun _ => .allocChars _
  | strip =>
    refine .bind (prepares_arguments _) fun arg => .bind (prepares_optionalText _ arg) ?_
    grind
  | split =>
    exact .bind (prepares_arguments _) fun arg => .bind (prepares_optionalText _ arg) fun _ =>
      .bind (prepares_arguments _) fun pieces => .bind (.mapM .allocChars pieces) fun _ =>
        .alloc fun _ => trivial
  | join =>
    exact .bind (prepares_arguments _) fun v => .bind (prepares_collect v) fun _ =>
      .bind (.inspect _) fun _ => .allocText _
  | replace =>
    exact .bind (prepares_arguments _) fun _ => .bind (.inspect _) fun _ =>
      .bind (.inspect _) fun _ => .allocChars _
  | startsWith | endsWith => exact .bind (prepares_oneText _ args) fun _ => .pure _
  | find =>
    refine .bind (prepares_oneText _ args) fun t => ?_
    grind

/-- **Methods of built-in types write only after everything that may fail.** -/
theorem writes_callMethod (h : Heap) (receiver : Value) (name : String) (args : List Value) :
    Writes h (callMethod receiver name args) := by
  refine .bind (prepares_view receiver) fun o h' _ => ?_
  split
  · split
    · exact .ofPrepares (prepares_textMethod _ receiver args)
    · exact .ofPrepares (.fail _)
  · split
    · exact writes_listMethod h' _ receiver args
    · exact .ofPrepares (.fail _)
  · split
    · exact writes_dictMethod h' _ receiver args
    · exact .ofPrepares (.fail _)
  · split
    · exact writes_setMethod h' _ receiver args
    · exact .ofPrepares (.fail _)
  · exact .ofPrepares (.inspect _)

/-! ## Functions -/

@[grind ←] theorem prepares_buildText (parts : List Value) : Prepares (buildText parts) := by
  grind [buildText]

theorem prepares_magnitude (v : Value) : Prepares (magnitude v) := by
  unfold magnitude
  grind

theorem prepares_bestOf (name : String) (better : Ordering → Bool) (candidates : List Value) :
    Prepares (match candidates with
      | [] => fail (.emptySequence name)
      | v :: vs => inspect fun h => h.best better v vs) := by
  cases candidates with
  | nil => exact .fail _
  | cons v vs => exact .inspect _

theorem prepares_extreme (name : String) (better : Ordering → Bool) (args : List Value) :
    Prepares (extreme name better args) := by
  unfold extreme
  split
  · exact .bind (.fail _) (prepares_bestOf name better)
  · exact .bind (.map (prepares_collect _)) (prepares_bestOf name better)
  · exact .bind (.pure _) (prepares_bestOf name better)

theorem prepares_total (args : List Value) : Prepares (total args) := by
  refine .bind (prepares_arguments _) fun args => ?_
  simp only [← Array.foldlM_toList]
  grind

theorem prepares_optionalItems (name : String) (args : List Value) :
    Prepares (optionalItems name args) := by
  refine .bind (prepares_arguments _) fun v => ?_
  grind

@[grind ←] theorem prepares_pairsFrom (position : Nat) (elements : List Value) :
    Prepares (pairsFrom position elements) := by
  induction elements generalizing position with
  | nil => exact .pure _
  | cons element elements ih => simp only [pairsFrom]; grind

@[grind ←] theorem prepares_pairs (v : Value) : Prepares (pairs v) := by
  refine .bind (prepares_view v) fun o => ?_
  grind

@[grind ←] theorem prepares_toInteger (v : Value) : Prepares (toInteger v) := by
  grind [toInteger]

theorem prepares_evaluate (f : Builtin) (args : List Value) : Prepares (evaluate f args) := by
  cases f with
  | print => exact .pure _
  | len => exact .bind (prepares_arguments _) fun _ => .bind (.inspect _) fun _ => .pure _
  | range => exact .bind (.inspect _) fun _ => .alloc fun _ => trivial
  | repr => exact .bind (prepares_arguments _) fun _ => .bind (.inspect _) fun _ => .allocText _
  | str | int | float | bool | dict =>
    refine .bind (prepares_arguments _) fun v => ?_
    grind
  | abs => exact .bind (prepares_arguments _) prepares_magnitude
  | min | max => exact prepares_extreme _ _ args
  | sum => exact prepares_total args
  | list | tuple =>
    exact .bind (prepares_optionalItems _ args) fun _ => .alloc fun _ => trivial
  | set => exact .bind (prepares_optionalItems _ args) fun _ => prepares_allocSet _
  | isInstance =>
    exact .bind (prepares_arguments _) fun _ => .bind (.inspect _) fun _ => .pure _

/-- **Built-in functions write nothing.** -/
theorem prepares_callBuiltin (f : Builtin) (args : List Value) : Prepares (callBuiltin f args) := by
  unfold callBuiltin
  split
  · exact .bind (.inspect _) fun _ => .pure _
  · exact .bind (prepares_evaluate _ args) fun _ => .pure _

end RegisterVm.HeapM
