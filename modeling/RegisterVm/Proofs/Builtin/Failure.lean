import RegisterVm.Builtin.Function
import RegisterVm.Proofs.Heap.Failure

/-!
# How built-in functions and methods fail

Calling a built-in function or a method of a built-in type fails in an orderly way only
(`HeapM.orderly_callBuiltin`, `HeapM.orderly_callMethod`).
-/

namespace RegisterVm

variable {α β : Type}

/-! ## Arguments -/

namespace Outcome.Orderly

@[grind ←] theorem checkArity (name : String) (args : List Value) (least most : Nat) :
    Orderly (checkArity name args least most) := by
  grind [RegisterVm.checkArity, Fault.aboutValues]

@[grind ←] theorem oneArgument (name : String) (args : List Value) :
    Orderly (oneArgument name args) := by
  unfold RegisterVm.oneArgument
  grind [Fault.aboutValues]

@[grind ←] theorem twoArguments (name : String) (args : List Value) :
    Orderly (twoArguments name args) := by
  unfold RegisterVm.twoArguments
  grind [Fault.aboutValues]

@[grind ←] theorem optionalArgument (name : String) (args : List Value) :
    Orderly (optionalArgument name args) := by
  unfold RegisterVm.optionalArgument
  grind [Fault.aboutValues]

@[grind ←] theorem oneOrTwoArguments (name : String) (args : List Value) :
    Orderly (oneOrTwoArguments name args) := by
  unfold RegisterVm.oneOrTwoArguments
  grind [Fault.aboutValues]

end Outcome.Orderly

open Outcome

/-! ## Methods -/

namespace Heap

variable (h : Heap)

@[grind ←] theorem orderly_listItems (v : Value) : Orderly (h.listItems v) := by
  grind [listItems, Fault.aboutValues]

@[grind ←] theorem orderly_dictEntries (v : Value) : Orderly (h.dictEntries v) := by
  grind [dictEntries]

@[grind ←] theorem orderly_firstEqual? (item : Value) (position : Nat) (vs : List Value) :
    Orderly (h.firstEqual? item position vs) := by
  induction vs generalizing position with
  | nil => exact .ok _
  | cons v vs ih => simp only [firstEqual?]; grind

@[grind ←] theorem orderly_countEqual (item : Value) (count : Nat) (vs : List Value) :
    Orderly (h.countEqual item count vs) := by
  induction vs generalizing count with
  | nil => exact .ok _
  | cons v vs ih => simp only [countEqual]; grind

@[grind ←] theorem orderly_textArgument (method : String) (v : Value) :
    Orderly (h.textArgument method v) := by
  grind [textArgument, Fault.aboutValues]

@[grind ←] theorem orderly_joinTexts (position : Nat) (vs : List Value) :
    Orderly (h.joinTexts position vs) := by
  induction vs generalizing position with
  | nil => exact .ok _
  | cons v vs ih => simp only [joinTexts]; grind [Fault.aboutValues]

end Heap

namespace HeapM

@[grind ←] theorem orderly_splitText (s : String) (separator : Option String) :
    Outcome.Orderly (splitText s separator) := by
  unfold splitText
  grind [Fault.aboutValues]

open HeapM (Orderly)

theorem Orderly.const {o : Outcome α} (ho : o.Orderly) :
    Orderly (RegisterVm.inspect fun _ => o) :=
  .inspect fun _ => ho

@[grind ←] theorem orderly_popItem (list : Value) (index : Option (Option Int64)) :
    Orderly (popItem list index) := by
  refine .bind (.inspect fun h => h.orderly_listItems list) fun items => ?_
  grind [Fault.aboutValues]

@[grind ←] theorem orderly_insertItem (list : Value) (index : Int64) (item : Value) :
    Orderly (insertItem list index item) := by
  grind [insertItem]

@[grind ←] theorem orderly_listMethod (method : ListMethod) (list : Value) (args : List Value) :
    Orderly (listMethod method list args) := by
  cases method with
  | append =>
    exact .bind (.const (.oneArgument _ _)) fun v => .bind (orderly_append list v) fun _ => .pure _
  | extend =>
    exact .bind (.const (.oneArgument _ _)) fun v => .bind (orderly_collect v) fun items =>
      .bind (orderly_extend list items) fun _ => .pure _
  | pop =>
    refine .bind (.const (.optionalArgument _ _)) fun key => ?_
    grind
  | insert =>
    refine .bind (.const (.twoArguments _ _)) fun args => ?_
    grind
  | index =>
    refine .bind (.const (.oneArgument _ _)) fun item => .inspect fun h => ?_
    grind [Fault.aboutValues]
  | count =>
    refine .bind (.const (.oneArgument _ _)) fun item => .inspect fun h => ?_
    grind

@[grind ←] theorem orderly_dictGet (dict key default : Value) :
    Orderly (dictGet dict key default) := by
  grind [dictGet]

@[grind ←] theorem orderly_dictPop (dict key : Value) (default : Option Value) :
    Orderly (dictPop dict key default) := by
  grind [dictPop]

@[grind ←] theorem orderly_dictMethod (method : DictMethod) (dict : Value) (args : List Value) :
    Orderly (dictMethod method dict args) := by
  have entries : Orderly (inspect fun h => h.dictEntries dict) :=
    .inspect fun h => h.orderly_dictEntries dict
  cases method with
  | get => exact .bind (.const (.oneOrTwoArguments _ _)) fun args => orderly_dictGet dict _ _
  | keys | values =>
    exact .bind (.const (.checkArity _ _ _ _)) fun _ => .bind entries fun entries => .alloc _
  | items =>
    exact .bind (.const (.checkArity _ _ _ _)) fun _ => .bind entries fun entries =>
      .bind (.mapM (fun _ => .alloc _) entries) fun pairs => .alloc _
  | pop => exact .bind (.const (.oneOrTwoArguments _ _)) fun args => orderly_dictPop dict _ _

@[grind ←] theorem orderly_setMethod (method : SetMethod) (set : Value) (args : List Value) :
    Orderly (setMethod method set args) := by
  cases method with
  | add =>
    refine .bind (.const (.oneArgument _ _)) fun item => ?_
    grind

@[grind ←] theorem orderly_optionalText (method : String) (arg : Option Value) :
    Orderly (optionalText method arg) := by
  unfold optionalText
  grind

@[grind ←] theorem orderly_oneText (method : String) (args : List Value) :
    Orderly (oneText method args) :=
  .bind (.const (.oneArgument method args)) fun v =>
    .inspect fun h => h.orderly_textArgument method v

@[grind ←] theorem orderly_textMethod (method : TextMethod) (receiver : Value)
    (args : List Value) : Orderly (textMethod method receiver args) := by
  refine .bind (.inspect fun h => h.orderly_textArgument _ receiver) fun s => ?_
  cases method with
  | upper | lower => exact .bind (.const (.checkArity _ _ _ _)) fun _ => .allocChars _
  | strip =>
    refine .bind (.const (.optionalArgument _ _)) fun arg => .bind (orderly_optionalText _ arg) ?_
    grind
  | split =>
    exact .bind (.const (.optionalArgument _ _)) fun arg =>
      .bind (orderly_optionalText _ arg) fun separator =>
        .bind (.const (orderly_splitText s separator)) fun pieces =>
          .bind (.mapM .allocChars pieces) fun _ => .alloc _
  | join =>
    refine .bind (.const (.oneArgument _ _)) fun v => ?_
    grind
  | replace =>
    refine .bind (.const (.twoArguments _ _)) fun args => ?_
    grind
  | startsWith | endsWith => exact .bind (orderly_oneText _ args) fun _ => .pure _
  | find =>
    refine .bind (orderly_oneText _ args) fun t => ?_
    grind

/-- **Methods of built-in types fail in an orderly way.** -/
@[grind ←] theorem orderly_callMethod (receiver : Value) (name : String) (args : List Value) :
    Orderly (callMethod receiver name args) := by
  refine .bind (orderly_view receiver) fun o => ?_
  grind [Heap.noAttribute, Fault.aboutValues]

end HeapM

/-! ## Functions -/

namespace Heap

variable (h : Heap)

@[grind ←] theorem orderly_line (args : List Value) : Orderly (h.line args) := by
  grind [line]

@[grind ←] theorem orderly_rangeBound (v : Value) : Orderly (h.rangeBound v) := by
  grind [rangeBound, Fault.aboutValues]

@[grind ←] theorem orderly_rangeOf (args : List Value) : Orderly (h.rangeOf args) := by
  grind [rangeOf, Fault.aboutValues]

@[grind ←] theorem orderly_toInteger (v : Value) : Orderly (h.toInteger v) := by
  unfold toInteger
  grind [Fault.aboutValues]

@[grind ←] theorem orderly_toFloat (v : Value) : Orderly (h.toFloat v) := by
  unfold toFloat
  grind [Fault.aboutValues]

@[grind ←] theorem orderly_best (better : Ordering → Bool) (best : Value) (vs : List Value) :
    Orderly (h.best better best vs) := by
  induction vs generalizing best with
  | nil => exact .ok _
  | cons v vs ih => simp only [Heap.best]; grind

theorem orderly_anyClass {has : Value → Outcome Bool} (hh : ∀ v, Orderly (has v))
    (vs : List Value) : Orderly (anyClass has vs) := by
  induction vs with
  | nil => exact .ok _
  | cons v vs ih => simp only [anyClass]; grind

@[grind ←] theorem orderly_isSubclass (cls ancestor : Handle) :
    Orderly (h.isSubclass cls ancestor) :=
  h.orderly_isSubclassWithin ancestor _ _

@[grind ←] theorem orderly_isInstance (v cls : Value) : Orderly (h.isInstance v cls) := by
  unfold isInstance
  generalize h.size + 1 = depth
  induction depth generalizing cls with
  | zero => exact .ok _
  | succ depth ih =>
    refine .bind (h.orderly_view v) fun o => .bind (h.orderly_view cls) fun c => ?_
    split
    · exact orderly_anyClass ih _
    all_goals grind [Fault.aboutValues]

end Heap

namespace HeapM

open HeapM (Orderly)

@[grind ←] theorem orderly_buildText (parts : List Value) : Orderly (buildText parts) := by
  grind [buildText]

@[grind ←] theorem orderly_magnitude (v : Value) : Orderly (magnitude v) := by
  unfold magnitude
  grind [Fault.aboutValues]

theorem orderly_bestOf (name : String) (better : Ordering → Bool) (candidates : List Value) :
    Orderly (match candidates with
      | [] => fail (.emptySequence name)
      | v :: vs => inspect fun h => h.best better v vs) := by
  cases candidates with
  | nil => exact .fail rfl
  | cons v vs => exact .inspect fun h => h.orderly_best better v vs

@[grind ←] theorem orderly_extreme (name : String) (better : Ordering → Bool)
    (args : List Value) : Orderly (extreme name better args) := by
  unfold extreme
  split
  · exact .bind (.fail rfl) (orderly_bestOf name better)
  · exact .bind (.map (orderly_collect _)) (orderly_bestOf name better)
  · exact .bind (.pure _) (orderly_bestOf name better)

@[grind ←] theorem orderly_total (args : List Value) : Orderly (total args) := by
  refine .bind (.const (.oneOrTwoArguments _ args)) fun args => ?_
  simp only [← Array.foldlM_toList]
  grind [Fault.aboutValues]

@[grind ←] theorem orderly_optionalItems (name : String) (args : List Value) :
    Orderly (optionalItems name args) := by
  refine .bind (.const (.optionalArgument name args)) fun v => ?_
  grind

@[grind ←] theorem orderly_pairsFrom (position : Nat) (elements : List Value) :
    Orderly (pairsFrom position elements) := by
  induction elements generalizing position with
  | nil => exact .pure _
  | cons element elements ih => simp only [pairsFrom]; grind [Fault.aboutValues]

@[grind ←] theorem orderly_pairs (v : Value) : Orderly (pairs v) := by
  refine .bind (orderly_view v) fun o => ?_
  grind

@[grind ←] theorem orderly_toInteger (v : Value) : Orderly (toInteger v) := by
  grind [toInteger]

@[grind ←] theorem orderly_evaluate (f : Builtin) (args : List Value) :
    Orderly (evaluate f args) := by
  cases f with
  | print => exact .pure _
  | len =>
    exact .bind (.const (.oneArgument _ args)) fun v =>
      .bind (.inspect fun h => h.orderly_length v) fun _ => .pure _
  | range => exact .bind (.inspect fun h => h.orderly_rangeOf args) fun _ => .alloc _
  | repr =>
    exact .bind (.const (.oneArgument _ args)) fun v =>
      .bind (.inspect fun h => h.orderly_shown v) fun _ => .allocText _
  | str | int | float | bool | dict =>
    refine .bind (.const (.optionalArgument _ args)) fun v => ?_
    grind
  | abs => exact .bind (.const (.oneArgument _ args)) orderly_magnitude
  | min => exact orderly_extreme _ _ args
  | max => exact orderly_extreme _ _ args
  | sum => exact orderly_total args
  | list => exact .bind (orderly_optionalItems _ args) fun _ => .alloc _
  | tuple => exact .bind (orderly_optionalItems _ args) fun _ => .alloc _
  | set => exact .bind (orderly_optionalItems _ args) fun _ => orderly_allocSet _
  | isInstance =>
    refine .bind (.const (.twoArguments _ args)) fun args => ?_
    grind

/-- **Built-in functions fail in an orderly way.** -/
@[grind ←] theorem orderly_callBuiltin (f : Builtin) (args : List Value) :
    Orderly (callBuiltin f args) := by
  unfold callBuiltin
  split
  · exact .bind (.inspect fun h => h.orderly_line args) fun _ => .pure _
  · exact .bind (orderly_evaluate _ args) fun _ => .pure _

end HeapM

end RegisterVm
