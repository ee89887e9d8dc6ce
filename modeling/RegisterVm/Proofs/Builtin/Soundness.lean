import RegisterVm.Proofs.Builtin.Failure
import RegisterVm.Proofs.Heap.Operators

/-!
# Built-in functions and methods keep heaps sound

A call of a built-in function or of a method of a built-in type makes sound heaps grow into sound
heaps when its arguments are values of the heap, and its result is one too
(`HeapM.keeps_callBuiltin`, `HeapM.keeps_callMethod`).
-/

namespace RegisterVm

open Outcome (Gives)
open HeapM (Keeps)

variable {α : Type} {functions : Nat} {w : Heap}

/-! ## Arguments -/

section Arguments

variable (name : String) (args : List Value)

theorem gives_oneArgument : Gives (oneArgument name args) (· ∈ args) := by
  unfold oneArgument
  split
  · exact .ok List.mem_cons_self
  · exact .refuse _

theorem gives_twoArguments :
    Gives (twoArguments name args) fun p => p.1 ∈ args ∧ p.2 ∈ args := by
  unfold twoArguments
  split
  · exact .ok ⟨List.mem_cons_self, List.mem_cons_of_mem _ List.mem_cons_self⟩
  · exact .refuse _

theorem gives_optionalArgument :
    Gives (optionalArgument name args) fun r => ∀ v, r = some v → v ∈ args := by
  unfold optionalArgument
  split
  · exact .ok fun v hv => by cases hv
  · refine .ok fun v hv => ?_
    cases hv
    exact List.mem_cons_self
  · exact .refuse _

theorem gives_oneOrTwoArguments :
    Gives (oneOrTwoArguments name args) fun p => p.1 ∈ args ∧ ∀ v, p.2 = some v → v ∈ args := by
  unfold oneOrTwoArguments
  split
  · exact .ok ⟨List.mem_cons_self, fun v hv => by cases hv⟩
  · refine .ok ⟨List.mem_cons_self, fun v hv => ?_⟩
    cases hv
    exact List.mem_cons_of_mem _ List.mem_cons_self
  · exact .refuse _

end Arguments

/-- Asking something that does not depend on the heap. -/
theorem HeapM.Keeps.const {o : Outcome α} {p : α → Prop} (ho : o.Orderly) (hp : o.Gives p) :
    Keeps functions w (RegisterVm.inspect fun _ => o) fun _ a => p a :=
  .inspect (fun _ => ho) fun _ _ _ => hp

/-! ## Methods -/

namespace Heap

variable {h : Heap}

theorem gives_listItems (sound : h.Sound functions) (v : Value) :
    Gives (h.listItems v) fun items => ∀ v ∈ items, h.Has v := by
  refine (h.gives_view v).bind fun o stored => ?_
  split
  · have items := sound.stored (stored _ rfl)
    exact .pure items
  · exact .refuse _

theorem gives_dictEntries (sound : h.Sound functions) (v : Value) :
    Gives (h.dictEntries v) fun entries => ∀ e ∈ entries, h.Has e.1 ∧ h.Has e.2 := by
  refine (h.gives_view v).bind fun o stored => ?_
  split
  · have entries := sound.stored (stored _ rfl)
    exact .pure fun e he => entries e (Array.mem_toList_iff.mp he)
  · exact .pure fun e he => by cases he

end Heap

namespace HeapM

theorem keeps_listItems (list : Value) :
    Keeps functions w (inspect fun h => h.listItems list) fun h items => ∀ v ∈ items, h.Has v :=
  .inspect (fun h => h.orderly_listItems list) fun _ _ sound => Heap.gives_listItems sound list

theorem keeps_dictEntries (dict : Value) :
    Keeps functions w (inspect fun h => h.dictEntries dict)
      fun h entries => ∀ e ∈ entries, h.Has e.1 ∧ h.Has e.2 :=
  .inspect (fun h => h.orderly_dictEntries dict) fun _ _ sound => Heap.gives_dictEntries sound dict

theorem keeps_popItem (list : Value) (index : Option (Option Int64)) :
    Keeps functions w (popItem list index) Heap.Has := by
  refine (keeps_listItems list).bind fun w' items _ _ has => ?_
  dsimp only
  split
  · exact .failBind _ _
  · split
    · exact .fail _
    · rename_i i _
      split
      · exact .fail _
      · rename_i v found
        have erased : Keeps functions w' (modify list
            (Object.onList fun items => items.eraseIdxIfInBounds i)) fun _ _ => True :=
          .onList fun h items _ old v mem => old v (mem_of_mem_erase mem)
        exact erased.bind fun _ _ g _ _ => .pure fun _ g' _ =>
          (g.trans g').has (has v (Array.mem_of_getElem? found))

theorem keeps_insertItem (list : Value) (index : Int64) {item : Value} (hi : w.Has item) :
    Keeps functions w (insertItem list index item) fun _ _ => True := by
  refine (keeps_listItems list).bind fun w' items grows _ _ => ?_
  refine .onList fun h items g old v mem => ?_
  unfold Array.insertIdxIfInBounds at mem
  split at mem
  · rcases Array.mem_insertIdx.mp mem with rfl | mem
    · exact (grows.trans g).has hi
    · exact old v mem
  · exact old v mem

theorem keeps_listMethod (method : ListMethod) (list : Value) {args : List Value}
    (ha : ∀ v ∈ args, w.Has v) : Keeps functions w (listMethod method list args) Heap.Has := by
  have one : ∀ name, Keeps functions w (inspect fun _ => oneArgument name args)
      fun _ v => v ∈ args := fun name =>
    .const (Outcome.Orderly.oneArgument name args) (gives_oneArgument name args)
  have nothing : ∀ {w : Heap}, Keeps functions w (Pure.pure Value.none) Heap.Has :=
    .pure fun _ _ _ => trivial
  cases method with
  | append =>
    exact (one "append").bind fun _ v g _ hv =>
      (keeps_append list (g.has (ha v hv))).bind fun _ _ _ _ _ => nothing
  | extend =>
    exact (one "extend").bind fun _ v _ _ _ => (keeps_collect v).bind fun _ items _ _ has =>
      (keeps_extend list has).bind fun _ _ _ _ _ => nothing
  | pop =>
    refine (Keeps.const (Outcome.Orderly.optionalArgument "pop" args)
      (gives_optionalArgument "pop" args)).bind fun _ key _ _ _ => ?_
    cases key with
    | none => exact keeps_popItem list none
    | some key =>
      exact (Keeps.ask fun h => h.orderly_indexOf "list" key).bind fun _ index _ _ _ =>
        keeps_popItem list (some index)
  | insert =>
    exact (Keeps.const (Outcome.Orderly.twoArguments "insert" args)
      (gives_twoArguments "insert" args)).bind fun _ p g _ hp =>
        (Keeps.ask fun h => h.orderly_indexOf "list" p.1).bind fun _ index g' _ _ =>
          (keeps_insertItem list _ (g'.has (g.has (ha _ hp.2)))).bind fun _ _ _ _ _ => nothing
  | index =>
    refine (one "index").bind fun _ item _ _ _ => .inspect (fun h => ?_) fun h _ _ => ?_
    · refine .bind (h.orderly_listItems list) fun items =>
        .bind (h.orderly_firstEqual? item 0 _) fun found => ?_
      split
      · exact .pure _
      · exact .bind (h.orderly_shown item) fun _ => .refuse rfl
    · refine .after fun items => .after fun found => ?_
      split
      · exact .pure trivial
      · exact .after fun _ => .refuse _
  | count =>
    exact (one "count").bind fun _ item _ _ _ => .inspect
      (fun h => .bind (h.orderly_listItems list) fun items =>
        .bind (h.orderly_countEqual item 0 _) fun _ => .pure _)
      fun _ _ _ => .after fun _ => .after fun _ => .pure trivial

/-! ### Dicts and sets -/

theorem keeps_dictGet (dict key : Value) {default : Value} (hd : w.Has default) :
    Keeps functions w (dictGet dict key default) Heap.Has := by
  refine .inspect (fun h => ?_) fun h g sound => ?_
  · refine .bind (h.orderly_key key) fun k => .bind (h.orderly_view dict) fun o => ?_
    split <;> exact .pure _
  · refine .after fun k => (h.gives_view dict).bind fun o stored => ?_
    split
    · rename_i d
      have entries := sound.stored (stored _ rfl)
      refine .pure ?_
      cases found : d.get? k with
      | none => exact g.has hd
      | some v => exact Dict.Within.get? entries found
    · exact .pure (g.has hd)

theorem keeps_dictPop (dict key : Value) {default : Option Value}
    (hd : ∀ v, default = some v → w.Has v) :
    Keeps functions w (dictPop dict key default) Heap.Has := by
  refine (Keeps.ask fun h => h.orderly_key key).bind fun _ k grows _ _ =>
    (Keeps.view dict).bind fun w' o grows' sound stored => ?_
  dsimp only
  split
  · rename_i v rest removed
    split at removed
    · obtain ⟨has, within⟩ := Dict.Within.remove? (sound.stored (stored _ rfl)) removed
      have replaced : Keeps functions w' (modify dict fun _ => .dict rest) fun _ _ => True := by
        refine .replace (stored _ rfl) (fun o' becomes => ?_) fun h _ g _ e he =>
          ⟨g.has (within e he).1, g.has (within e he).2⟩
        cases becomes <;> constructor
      exact replaced.bind fun _ _ g _ _ => .pure fun _ g' _ => (g.trans g').has has
    · cases removed
  · exact .pure fun _ g _ => g.has (grows'.has (grows.has (hd _ rfl)))
  · exact .inspect (fun h => .refuse (h.aboutValues_missingKey key)) fun _ _ _ => .refuse _

theorem keeps_dictMethod (method : DictMethod) (dict : Value) {args : List Value}
    (ha : ∀ v ∈ args, w.Has v) : Keeps functions w (dictMethod method dict args) Heap.Has := by
  have arity : ∀ name, Keeps functions w (inspect fun _ => checkArity name args 0 0)
      fun _ _ => True := fun name =>
    .const (Outcome.Orderly.checkArity name args 0 0) (.anything _)
  have oneOrTwo : ∀ name, Keeps functions w (inspect fun _ => oneOrTwoArguments name args)
      fun _ p => p.1 ∈ args ∧ ∀ v, p.2 = some v → v ∈ args := fun name =>
    .const (Outcome.Orderly.oneOrTwoArguments name args) (gives_oneOrTwoArguments name args)
  cases method with
  | get =>
    refine (oneOrTwo "get").bind fun _ p g _ hp => keeps_dictGet dict p.1 ?_
    cases hdef : p.2 with
    | none => trivial
    | some v => exact g.has (ha v (hp.2 v hdef))
  | keys =>
    refine (arity "keys").bind fun _ _ _ _ _ => (keeps_dictEntries dict).bind
      fun _ entries _ _ has => .allocList fun v hv => ?_
    obtain ⟨e, he, rfl⟩ := List.mem_map.mp (List.mem_toArray.mp hv)
    exact (has e he).1
  | values =>
    refine (arity "values").bind fun _ _ _ _ _ => (keeps_dictEntries dict).bind
      fun _ entries _ _ has => .allocList fun v hv => ?_
    obtain ⟨e, he, rfl⟩ := List.mem_map.mp (List.mem_toArray.mp hv)
    exact (has e he).2
  | items =>
    refine (arity "items").bind fun _ _ _ _ _ => (keeps_dictEntries dict).bind
      fun w' entries _ _ has => ?_
    have pair : ∀ e ∈ entries, Keeps functions w' (HeapM.alloc (.tuple #[e.1, e.2])) Heap.Has := by
      intro e he
      refine .allocTuple fun v hv => ?_
      simp only [List.mem_toArray, List.mem_cons, List.not_mem_nil, or_false] at hv
      rcases hv with rfl | rfl
      · exact (has e he).1
      · exact (has e he).2
    have made : Keeps functions w' (entries.mapM fun e => HeapM.alloc (.tuple #[e.1, e.2]))
        fun h vs => ∀ v ∈ vs, h.Has v := .mapM Heap.Has (fun _ _ _ g hb => g.has hb) pair
    exact made.bind fun _ pairs _ _ hp => .allocList fun v hv => hp v (List.mem_toArray.mp hv)
  | pop =>
    exact (oneOrTwo "pop").bind fun _ p g _ hp => keeps_dictPop dict p.1 fun v hv =>
      g.has (ha v (hp.2 v hv))

theorem keeps_setMethod (method : SetMethod) (set : Value) {args : List Value}
    (ha : ∀ v ∈ args, w.Has v) : Keeps functions w (setMethod method set args) Heap.Has := by
  cases method with
  | add =>
    refine (Keeps.const (Outcome.Orderly.oneArgument "add" args)
      (gives_oneArgument "add" args)).bind fun _ item g _ hi =>
        (Keeps.ask fun h => h.orderly_key item).bind fun w' k g' _ _ => ?_
    have added : Keeps functions w' (modify set (Object.onSet fun s => s.insert k item))
        fun _ _ => True :=
      .onSet fun h s g'' old => old.insert k (g''.has (g'.has (g.has (ha item hi))))
    exact added.bind fun _ _ _ _ _ => .pure fun _ _ _ => trivial

/-! ### Strings -/

theorem keeps_optionalText (method : String) (arg : Option Value) :
    Keeps functions w (optionalText method arg) fun _ _ => True := by
  unfold optionalText
  split
  · exact .pure fun _ _ _ => trivial
  · exact .pure fun _ _ _ => trivial
  · exact (Keeps.ask fun h => h.orderly_textArgument method _).bind
      fun _ _ _ _ _ => .pure fun _ _ _ => trivial

theorem keeps_oneText (method : String) (args : List Value) :
    Keeps functions w (oneText method args) fun _ _ => True :=
  (Keeps.ask fun _ => Outcome.Orderly.oneArgument method args).bind fun _ v _ _ _ =>
    .ask fun h => h.orderly_textArgument method v

theorem keeps_textMethod (method : TextMethod) (receiver : Value) (args : List Value) :
    Keeps functions w (textMethod method receiver args) Heap.Has := by
  refine (Keeps.ask fun h => h.orderly_textArgument method.name receiver).bind
    fun w' s _ _ _ => ?_
  have arity : Keeps functions w' (inspect fun _ => checkArity method.name args 0 0)
      fun _ _ => True := .ask fun _ => .checkArity method.name args 0 0
  have optional : Keeps functions w' (inspect fun _ => optionalArgument method.name args)
      fun _ _ => True := .ask fun _ => .optionalArgument method.name args
  have one : Keeps functions w' (oneText method.name args) fun _ _ => True :=
    keeps_oneText method.name args
  cases method with
  | upper | lower => exact arity.bind fun _ _ _ _ _ => .allocChars _
  | strip =>
    refine optional.bind fun _ arg _ _ _ => (keeps_optionalText _ arg).bind fun _ chars _ _ _ => ?_
    split <;> exact .allocChars _
  | split =>
    refine optional.bind fun _ arg _ _ _ => (keeps_optionalText _ arg).bind
      fun _ separator _ _ _ => (Keeps.ask fun _ => orderly_splitText s separator).bind
        fun w₁ pieces _ _ _ => ?_
    have texts : Keeps functions w₁ (pieces.mapM allocChars) fun h vs => ∀ v ∈ vs, h.Has v :=
      .mapM Heap.Has (fun _ _ _ g hb => g.has hb) fun cs _ => .allocChars cs
    exact texts.bind fun _ vs _ _ hvs => .allocList fun v hv => hvs v (List.mem_toArray.mp hv)
  | join =>
    exact (Keeps.ask fun _ => Outcome.Orderly.oneArgument _ args).bind fun _ v _ _ _ =>
      (keeps_collect v).bind fun _ items _ _ _ =>
        (Keeps.ask fun h => h.orderly_joinTexts 0 items.toList).bind fun _ texts _ _ _ =>
          .allocText _
  | replace =>
    exact (Keeps.ask fun _ => Outcome.Orderly.twoArguments _ args).bind fun _ p _ _ _ =>
      (Keeps.ask fun h => h.orderly_textArgument _ p.1).bind fun _ old _ _ _ =>
        (Keeps.ask fun h => h.orderly_textArgument _ p.2).bind fun _ new _ _ _ => .allocChars _
  | startsWith | endsWith => exact one.bind fun _ _ _ _ _ => .pure fun _ _ _ => trivial
  | find =>
    refine one.bind fun _ text _ _ _ => ?_
    split <;> exact .pure fun _ _ _ => trivial

/-- A method of a built-in type gives a value of the heap. -/
theorem keeps_callMethod (receiver : Value) (name : String) {args : List Value}
    (ha : ∀ v ∈ args, w.Has v) : Keeps functions w (callMethod receiver name args) Heap.Has := by
  refine (Keeps.view receiver).bind fun w' o g _ _ => ?_
  have args : ∀ v ∈ args, w'.Has v := fun v hv => g.has (ha v hv)
  dsimp only
  split
  · split
    · exact keeps_textMethod _ receiver _
    · exact .fail _
  · split
    · exact keeps_listMethod _ receiver args
    · exact .fail _
  · split
    · exact keeps_dictMethod _ receiver args
    · exact .fail _
  · split
    · exact keeps_setMethod _ receiver args
    · exact .fail _
  · exact keeps_noAttribute receiver name

end HeapM

/-! ## Functions -/

namespace Heap

variable {h : Heap}

/-- The best of some values is one of them. -/
theorem gives_best (better : Ordering → Bool) (v : Value) (vs : List Value) :
    Gives (h.best better v vs) (· ∈ v :: vs) := by
  induction vs generalizing v with
  | nil => exact .ok List.mem_cons_self
  | cons u us ih =>
    refine .after fun first => ?_
    have later : ∀ {x}, x ∈ u :: us → x ∈ v :: u :: us := List.mem_cons_of_mem v
    split
    · exact fun x hx => later (ih u x hx)
    · intro x hx
      rcases List.mem_cons.mp (ih v x hx) with rfl | mem
      · exact List.mem_cons_self
      · exact later (List.mem_cons_of_mem u mem)

theorem step_of_rangeOf (args : List Value) :
    Gives (h.rangeOf args) fun r => r.step ≠ 0 := by
  refine .after fun _ => .after fun bounds => ?_
  have checked : ∀ r : IntRange, Gives
      (if r.step = 0 then refuse .zeroRangeStep else return r) fun r => r.step ≠ 0 := by
    intro r
    split
    · exact .refuse _
    · exact .pure ‹_›
  dsimp only
  split <;> exact .after checked

end Heap

namespace HeapM

theorem keeps_buildText (parts : List Value) :
    Keeps functions w (buildText parts) Heap.Has :=
  (Keeps.ask fun h => .mapM (fun v => h.orderly_text v) parts).bind fun _ _ _ _ _ => .allocText _

theorem keeps_magnitude (v : Value) : Keeps functions w (magnitude v) Heap.Has := by
  unfold magnitude
  split
  · exact .pure fun _ _ _ => trivial
  · refine Keeps.get.bind fun _ h _ _ _ => ?_
    split
    · exact .allocInteger _
    · exact .inspect (fun h => .bind (h.orderly_typeName _) fun _ => .refuse rfl)
        fun _ _ _ => .after fun _ => .refuse _

theorem keeps_extreme (name : String) (better : Ordering → Bool) {args : List Value}
    (ha : ∀ v ∈ args, w.Has v) : Keeps functions w (extreme name better args) Heap.Has := by
  have best : ∀ (w : Heap) (v : Value) (vs : List Value), (∀ u ∈ v :: vs, w.Has u) →
      Keeps functions w (inspect fun h => h.best better v vs) Heap.Has :=
    fun w v vs has => .inspect (fun h => h.orderly_best better v vs) fun h g _ x hx =>
      g.has (has x (Heap.gives_best better v vs x hx))
  unfold extreme
  split
  · exact .failBind _ _
  · rename_i v
    have collected : Keeps functions w (Array.toList <$> collect v)
        fun h vs => ∀ v ∈ vs, h.Has v :=
      (keeps_collect v).map fun _ _ _ _ has v hv => has v (Array.mem_toList_iff.mp hv)
    refine collected.bind fun w' candidates _ _ has => ?_
    cases candidates with
    | nil => exact .fail _
    | cons v vs => exact best w' v vs has
  · cases args with
    | nil => exact .fail _
    | cons v vs => exact best w v vs ha

theorem keeps_total {args : List Value} (ha : ∀ v ∈ args, w.Has v) :
    Keeps functions w (total args) Heap.Has := by
  refine (Keeps.const (Outcome.Orderly.oneOrTwoArguments "sum" args)
    (gives_oneOrTwoArguments "sum" args)).bind fun _ p g _ hp =>
      (keeps_collect p.1).bind fun _ items g' _ _ => Keeps.get.bind fun w' h g'' _ _ => ?_
  have start : w'.Has (p.2.getD (.int 0)) := by
    cases hdef : p.2 with
    | none => trivial
    | some v => exact g''.has (g'.has (g.has (ha v (hp.2 v hdef))))
  have summed : Keeps functions w' (items.foldlM (binary .add) (p.2.getD (.int 0))) Heap.Has := by
    rw [← Array.foldlM_toList]
    exact .foldlM Heap.Has (fun _ _ _ g hb => g.has hb) start fun _ b _ _ v _ =>
      keeps_binary .add b v
  dsimp only
  split
  · exact .failBind _ _
  · exact summed

theorem keeps_optionalItems (name : String) (args : List Value) :
    Keeps functions w (optionalItems name args) fun h items => ∀ v ∈ items, h.Has v := by
  refine (Keeps.ask fun _ => Outcome.Orderly.optionalArgument name args).bind
    fun _ found _ _ _ => ?_
  cases found with
  | some v => exact keeps_collect v
  | none => exact .pure fun _ _ _ v hv => by simp at hv

theorem keeps_pairsFrom (position : Nat) (elements : List Value) :
    Keeps functions w (pairsFrom position elements)
      fun h ps => ∀ p ∈ ps, h.Has p.1 ∧ h.Has p.2 := by
  induction elements generalizing w position with
  | nil => exact .pure fun _ _ _ p hp => by cases hp
  | cons element rest ih =>
    refine (keeps_collect element).bind fun _ items _ _ has => ?_
    split
    · rename_i k v two
      have member : ∀ x ∈ [k, v], x ∈ items := fun x hx =>
        Array.mem_toList_iff.mp (two ▸ hx)
      refine (ih (position + 1)).bind fun _ ps g _ hps => .pure fun _ g' _ p hp => ?_
      rcases List.mem_cons.mp hp with rfl | hp
      · exact ⟨(g.trans g').has (has k (member k List.mem_cons_self)),
          (g.trans g').has (has v (member v (List.mem_cons_of_mem k List.mem_cons_self)))⟩
      · exact ⟨g'.has (hps p hp).1, g'.has (hps p hp).2⟩
    · exact .fail _

theorem keeps_pairs (v : Value) :
    Keeps functions w (pairs v) fun h ps => ∀ p ∈ ps, h.Has p.1 ∧ h.Has p.2 := by
  refine (Keeps.view v).bind fun w' o _ sound stored => ?_
  split
  · have entries := sound.stored (stored _ rfl)
    exact .pure fun _ g _ p hp =>
      ⟨g.has (entries p (Array.mem_toList_iff.mp hp)).1,
        g.has (entries p (Array.mem_toList_iff.mp hp)).2⟩
  · exact (keeps_collect v).bind fun _ items _ _ _ => keeps_pairsFrom 0 items.toList

theorem keeps_toInteger {v : Value} (hv : w.Has v) :
    Keeps functions w (toInteger v) Heap.Has := by
  refine Keeps.get.bind fun _ h g _ _ => ?_
  split
  · exact .pure fun _ g' _ => (g.trans g').has hv
  · exact (Keeps.ask fun h => h.orderly_toInteger v).bind fun _ n _ _ _ => .allocInteger n

theorem keeps_evaluate (f : Builtin) {args : List Value} (ha : ∀ v ∈ args, w.Has v) :
    Keeps functions w (evaluate f args) Heap.Has := by
  have one : ∀ name, Keeps functions w (inspect fun _ => oneArgument name args)
      fun _ v => v ∈ args := fun name =>
    .const (Outcome.Orderly.oneArgument name args) (gives_oneArgument name args)
  have optional : ∀ name, Keeps functions w (inspect fun _ => optionalArgument name args)
      fun _ r => ∀ v, r = some v → v ∈ args := fun name =>
    .const (Outcome.Orderly.optionalArgument name args) (gives_optionalArgument name args)
  cases f with
  | print => exact .pure fun _ _ _ => trivial
  | len =>
    exact (one "len").bind fun _ v _ _ _ => (Keeps.ask fun h => h.orderly_length v).bind
      fun _ _ _ _ _ => .pure fun _ _ _ => trivial
  | range =>
    exact (Keeps.inspect (fun h => h.orderly_rangeOf args) fun _ _ _ =>
      Heap.step_of_rangeOf args).bind fun _ r _ _ step => .alloc fun _ _ _ => step
  | str =>
    refine (optional "str").bind fun _ found g _ mem => ?_
    cases found with
    | none => exact .allocText ""
    | some v =>
      refine Keeps.get.bind fun _ h g' _ _ => ?_
      split
      · exact .pure fun _ g'' _ => (g'.trans g'').has (g.has (ha v (mem v rfl)))
      · exact (Keeps.ask fun h => h.orderly_text v).bind fun _ text _ _ _ => .allocText text
  | repr =>
    exact (one "repr").bind fun _ v _ _ _ => (Keeps.ask fun h => h.orderly_shown v).bind
      fun _ text _ _ _ => .allocText text
  | int =>
    refine (optional "int").bind fun _ found g _ mem => ?_
    cases found with
    | none => exact .pure fun _ _ _ => trivial
    | some v => exact keeps_toInteger (g.has (ha v (mem v rfl)))
  | float =>
    refine (optional "float").bind fun _ found _ _ _ => ?_
    cases found with
    | none => exact .pure fun _ _ _ => trivial
    | some v =>
      exact (Keeps.ask fun h => h.orderly_toFloat v).bind fun _ _ _ _ _ =>
        .pure fun _ _ _ => trivial
  | bool =>
    refine (optional "bool").bind fun _ found _ _ _ => ?_
    cases found with
    | none => exact .pure fun _ _ _ => trivial
    | some v =>
      exact (Keeps.ask fun h => h.orderly_truth v).bind fun _ _ _ _ _ =>
        .pure fun _ _ _ => trivial
  | abs => exact (one "abs").bind fun _ v _ _ _ => keeps_magnitude v
  | min | max => exact keeps_extreme _ _ ha
  | sum => exact keeps_total ha
  | list =>
    exact (keeps_optionalItems "list" args).bind fun _ items _ _ has => .allocList has
  | tuple =>
    exact (keeps_optionalItems "tuple" args).bind fun _ items _ _ has => .allocTuple has
  | set =>
    exact (keeps_optionalItems "set" args).bind fun _ items _ _ has =>
      keeps_allocSet fun v hv => has v (Array.mem_toList_iff.mp hv)
  | dict =>
    refine (optional "dict").bind fun _ found _ _ _ => ?_
    cases found with
    | none => exact keeps_allocDict fun p hp => by cases hp
    | some v => exact (keeps_pairs v).bind fun _ ps _ _ has => keeps_allocDict has
  | isInstance =>
    exact (Keeps.ask fun _ => Outcome.Orderly.twoArguments "isinstance" args).bind
      fun _ p _ _ _ => (Keeps.ask fun h => h.orderly_isInstance p.1 p.2).bind
        fun _ _ _ _ _ => .pure fun _ _ _ => trivial

/-- A built-in function gives a value of the heap. -/
theorem keeps_callBuiltin (f : Builtin) {args : List Value} (ha : ∀ v ∈ args, w.Has v) :
    Keeps functions w (callBuiltin f args) fun h reply => h.Has reply.value := by
  have general : Keeps functions w (do return ⟨← evaluate f args, ""⟩ : HeapM Reply)
      fun h reply => h.Has reply.value :=
    (keeps_evaluate f ha).bind fun _ v _ _ has => .pure fun _ g _ => g.has has
  cases f with
  | print =>
    exact (Keeps.ask fun h => h.orderly_line args).bind fun _ _ _ _ _ =>
      .pure fun _ _ _ => trivial
  | _ => exact general

end HeapM

end RegisterVm
