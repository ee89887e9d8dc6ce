import RegisterVm.Proofs.Heap.Growth

/-!
# Operations of the heap keep it sound

One lemma for every operation on containers, iterators, attributes and exceptions: it makes sound
heaps grow into sound heaps when its operands are values of the heap, and its result is one too.
Main statements: `HeapM.keeps_next`, `HeapM.keeps_getAttribute`, `HeapM.keeps_callableMethod`,
`HeapM.keeps_raise`.
-/

namespace RegisterVm

open Outcome (Gives)
open HeapM (Keeps)

variable {α : Type} {functions : Nat} {w : Heap}

/-- What is left of some items after one was removed. -/
theorem mem_of_mem_erase {items : Array α} {i : Nat} {a : α}
    (h : a ∈ items.eraseIdxIfInBounds i) : a ∈ items := by
  rw [← Array.mem_toList_iff, Array.toList_eraseIdxIfInBounds] at h
  exact Array.mem_toList_iff.mp (List.mem_of_mem_eraseIdx h)

/-! ## Tables -/

namespace Dict

variable {size : Nat} {d : Dict}

theorem within_empty (size : Nat) : empty.Within size := by
  intro e he
  simp [empty] at he

theorem Within.get? (h : d.Within size) {key : HashKey} {v : Value} (found : d.get? key = some v) :
    v.Within size := by
  unfold Dict.get? at found
  split at found
  · obtain ⟨e, he, rfl⟩ := Option.map_eq_some_iff.mp found
    exact (h e (Array.mem_of_getElem? he)).2
  · cases found

theorem Within.insert (h : d.Within size) (key : HashKey) {name value : Value}
    (hn : name.Within size) (hv : value.Within size) : (d.insert key name value).Within size := by
  obtain ⟨entries, index⟩ := d
  intro e he
  simp only [Dict.insert] at he
  split at he
  · rename_i i _
    obtain ⟨j, hj⟩ := Array.getElem?_of_mem he
    rw [Array.getElem?_modify] at hj
    split at hj
    · obtain ⟨old, ho, rfl⟩ := Option.map_eq_some_iff.mp hj
      exact ⟨(h old (Array.mem_of_getElem? ho)).1, hv⟩
    · exact h e (Array.mem_of_getElem? hj)
  · rcases Array.mem_push.mp he with old | rfl
    · exact h e old
    · exact ⟨hn, hv⟩

theorem Within.remove? (h : d.Within size) {key : HashKey} {v : Value} {rest : Dict}
    (removed : d.remove? key = some (v, rest)) : v.Within size ∧ rest.Within size := by
  unfold Dict.remove? at removed
  split at removed
  · split at removed
    · rename_i e he
      cases removed
      refine ⟨(h e (Array.mem_of_getElem? he)).2, fun e' he' => h e' ?_⟩
      exact mem_of_mem_erase he'
    · cases removed
  · cases removed

theorem Within.keys (h : d.Within size) : ∀ v ∈ d.keys, v.Within size := by
  intro v hv
  obtain ⟨e, he, rfl⟩ := Array.mem_map.mp hv
  exact (h e he).1

end Dict

namespace KeySet

variable {size : Nat} {s : KeySet}

theorem within_empty (size : Nat) : empty.Within size := by
  intro v hv
  simp [empty] at hv

theorem Within.insert (h : s.Within size) (key : HashKey) {item : Value}
    (hi : item.Within size) : (s.insert key item).Within size := by
  obtain ⟨items, index⟩ := s
  intro v hv
  simp only [KeySet.insert] at hv
  split at hv
  · exact h v hv
  · rcases Array.mem_push.mp hv with old | rfl
    · exact h v old
    · exact hi

end KeySet

namespace Heap

variable {h : Heap}

theorem gives_dictOf {pairs : List (Value × Value)} (hp : ∀ p ∈ pairs, h.Has p.1 ∧ h.Has p.2) :
    Gives (h.dictOf pairs) (·.Within h.size) :=
  .foldlM (Dict.within_empty _) fun _ hd p hmem =>
    .after fun _ => .pure (hd.insert _ (hp p hmem).1 (hp p hmem).2)

theorem gives_setOf {items : List Value} (hi : ∀ v ∈ items, h.Has v) :
    Gives (h.setOf items) (·.Within h.size) :=
  .foldlM (KeySet.within_empty _) fun _ hs v hmem => .after fun _ => .pure (hs.insert _ (hi v hmem))

end Heap

namespace HeapM

theorem keeps_allocDict {pairs : List (Value × Value)} (hp : ∀ p ∈ pairs, w.Has p.1 ∧ w.Has p.2) :
    Keeps functions w (allocDict pairs) Heap.Has :=
  (Keeps.inspect (fun h => h.orderly_dictOf pairs) fun _ g _ =>
      Heap.gives_dictOf fun p hmem => ⟨g.has (hp p hmem).1, g.has (hp p hmem).2⟩).bind
    fun _ _ _ _ hd => .alloc fun _ g _ e he =>
      ⟨(g.has (hd e he).1).mono (Nat.le_succ _), (g.has (hd e he).2).mono (Nat.le_succ _)⟩

theorem keeps_allocSet {items : List Value} (hi : ∀ v ∈ items, w.Has v) :
    Keeps functions w (allocSet items) Heap.Has :=
  (Keeps.inspect (fun h => h.orderly_setOf items) fun _ g _ =>
      Heap.gives_setOf fun v hmem => g.has (hi v hmem)).bind
    fun _ _ _ _ hs => .alloc fun _ g _ v hv => (g.has (hs v hv)).mono (Nat.le_succ _)

end HeapM

/-! ## Changing an object -/

namespace HeapM.Keeps

/-- The items of a list may be replaced by others of the heap. -/
theorem onList {v : Value} {f : Array Value → Array Value}
    (hf : ∀ h items, w.Grows h → (∀ v ∈ items, h.Has v) → ∀ v ∈ f items, h.Has v) :
    Keeps functions w (HeapM.modify v (Object.onList f)) fun _ _ => True := by
  refine modify fun h handle g sound _ => ⟨fun o _ => ?_, fun o ho => ?_⟩
  · cases o <;> constructor
  · have old := sound.at ho
    cases o with
    | list items => exact hf h items g old
    | _ => exact old

theorem onDict {v : Value} {f : Dict → Dict}
    (hf : ∀ h (d : Dict), w.Grows h → d.Within h.size → (f d).Within h.size) :
    Keeps functions w (HeapM.modify v (Object.onDict f)) fun _ _ => True := by
  refine modify fun h handle g sound _ => ⟨fun o _ => ?_, fun o ho => ?_⟩
  · cases o <;> constructor
  · have old := sound.at ho
    cases o with
    | dict d => exact hf h d g old
    | _ => exact old

theorem onSet {v : Value} {f : KeySet → KeySet}
    (hf : ∀ h (s : KeySet), w.Grows h → s.Within h.size → (f s).Within h.size) :
    Keeps functions w (HeapM.modify v (Object.onSet f)) fun _ _ => True := by
  refine modify fun h handle g sound _ => ⟨fun o _ => ?_, fun o ho => ?_⟩
  · cases o <;> constructor
  · have old := sound.at ho
    cases o with
    | set s => exact hf h s g old
    | _ => exact old

/-- An object may become another one. -/
theorem replace {v : Value} {o new : Object} (stored : w.Stores v o)
    (becomes : ∀ o', o.Becomes o' → o'.Becomes new)
    (sound : ∀ h handle, w.Grows h → v = .object handle →
      new.Sound functions h.size handle.index.toNat) :
    Keeps functions w (HeapM.modify v fun _ => new) fun _ _ => True := by
  refine modify fun h handle g _ hv => ⟨fun o' ho' => ?_, fun _ _ => sound h handle g hv⟩
  obtain ⟨o₁, ⟨handle', hv', ho₁⟩, changed⟩ := g.stores stored
  rw [hv] at hv'
  cases hv'
  rw [ho'] at ho₁
  cases ho₁
  exact becomes o' changed

/-- An iterator may go on. -/
theorem advance {it : Value} {state next : IteratorState} (stored : w.Stores it (.iterator state))
    (sound : ∀ h, w.Grows h → next.Sound h.size) :
    Keeps functions w (HeapM.modify it fun _ => .iterator next) fun _ _ => True := by
  refine replace stored (fun o' changed => ?_) fun h _ g _ => sound h g
  cases changed <;> constructor

theorem allocList {items : Array Value} (hi : ∀ v ∈ items, w.Has v) :
    Keeps functions w (HeapM.alloc (.list items)) Heap.Has :=
  alloc fun _ g _ v hv => (g.has (hi v hv)).mono (Nat.le_succ _)

theorem allocTuple {items : Array Value} (hi : ∀ v ∈ items, w.Has v) :
    Keeps functions w (HeapM.alloc (.tuple items)) Heap.Has :=
  alloc fun _ g _ v hv => g.has (hi v hv)

end HeapM.Keeps

/-! ## Containers -/

theorem mem_of_mem_cut {items : List α} {start stop : Option Int64} {a : α}
    (h : a ∈ Heap.cut start stop items) : a ∈ items :=
  List.mem_of_mem_drop (List.mem_of_mem_take h)

theorem mem_of_position {items : Array α} {position : Option Nat} {a : α}
    (h : position.bind (items[·]?) = some a) : a ∈ items := by
  obtain ⟨i, -, found⟩ := Option.bind_eq_some_iff.mp h
  exact Array.mem_of_getElem? found

/-- An item is a value of the heap. -/
theorem Heap.gives_item {h : Heap} (sound : h.Sound functions) (container key : Value) :
    Gives (h.item container key) fun r => ∀ v, r = .inl v → h.Has v := by
  refine (h.gives_view container).bind fun o stored => ?_
  have seen : ∀ o', o = some o' → o'.Sound functions h.size h.size :=
    fun o' ho => sound.stored (stored o' ho)
  split
  · refine .after fun position => ?_
    split
    · rename_i found
      refine .pure fun v hv => ?_
      cases hv
      exact seen _ rfl _ (mem_of_position found)
    · exact .refuse _
  · refine .after fun position => ?_
    split
    · rename_i found
      refine .pure fun v hv => ?_
      cases hv
      exact seen _ rfl _ (mem_of_position found)
    · exact .refuse _
  · refine .after fun k => ?_
    split
    · rename_i found
      refine .pure fun v hv => ?_
      cases hv
      exact Dict.Within.get? (seen _ rfl) found
    · exact .refuse _
  · refine .after fun index => ?_
    split
    · refine .pure fun v hv => ?_
      cases hv
      trivial
    · exact .refuse _
  · refine .after fun index => ?_
    dsimp only
    split
    · exact .pure fun v hv => by cases hv
    · exact .refuse _
  · exact .after fun _ => .refuse _

namespace HeapM

theorem keeps_isList (v : Value) : Keeps functions w (isList v) fun _ _ => True :=
  (Keeps.view v).bind fun _ _ _ _ _ => .pure fun _ _ _ => trivial

theorem keeps_getItem (container key : Value) :
    Keeps functions w (getItem container key) Heap.Has := by
  refine (Keeps.inspect (fun h => h.orderly_item container key) fun _ _ sound =>
    Heap.gives_item sound container key).bind fun _ r _ _ has => ?_
  cases r with
  | inl v => exact .pure fun _ g _ => g.has (has v rfl)
  | inr c => exact .allocChars [c]

theorem keeps_place (container key : Value) :
    Keeps functions w (place container key) fun _ _ => True := by
  refine .ask fun h => .bind (h.orderly_view container) fun o => ?_
  split
  · refine .bind (h.orderly_positionOf _ key _) fun position => ?_
    split
    · exact .pure _
    · exact .refuse rfl
  · exact .bind (h.orderly_key key) fun _ => .pure _
  · exact .bind (h.orderly_typeName container) fun _ => .refuse rfl

theorem keeps_setItem (container : Value) {key value : Value} (hk : w.Has key)
    (hv : w.Has value) : Keeps functions w (setItem container key value) fun _ _ => True := by
  refine (keeps_place container key).bind fun w' place grows _ _ => ?_
  cases place with
  | position i =>
    refine .onList fun h items g old v mem => ?_
    rcases Array.mem_or_eq_of_mem_setIfInBounds mem with mem | rfl
    · exact old v mem
    · exact (grows.trans g).has hv
  | key k =>
    exact .onDict fun h d g old =>
      old.insert k ((grows.trans g).has hk) ((grows.trans g).has hv)

theorem keeps_slice (container start stop : Value) :
    Keeps functions w (slice container start stop) Heap.Has := by
  refine (Keeps.ask fun h => h.orderly_boundOf start).bind fun _ low _ _ _ =>
    (Keeps.ask fun h => h.orderly_boundOf stop).bind fun _ high _ _ _ =>
      (Keeps.view container).bind fun w' o _ sound stored => ?_
  split
  · have old := sound.stored (stored _ rfl)
    refine .allocList fun v hv => old v ?_
    exact Array.mem_toList_iff.mp (mem_of_mem_cut (List.mem_toArray.mp hv))
  · have old := sound.stored (stored _ rfl)
    refine .allocTuple fun v hv => old v ?_
    exact Array.mem_toList_iff.mp (mem_of_mem_cut (List.mem_toArray.mp hv))
  · exact .allocChars _
  · exact .inspect (fun h => .bind (h.orderly_typeName container) fun _ => .refuse rfl)
      fun _ _ _ => .after fun _ => .refuse _

theorem keeps_append (list : Value) {item : Value} (hi : w.Has item) :
    Keeps functions w (append list item) fun _ _ => True := by
  refine (keeps_isList list).bind fun w' isList grows _ _ => ?_
  split
  · refine .onList fun h items g old v mem => ?_
    rcases Array.mem_push.mp mem with mem | rfl
    · exact old v mem
    · exact (grows.trans g).has hi
  · exact .ask fun h => .bind (h.orderly_typeName list) fun _ => .refuse rfl

theorem keeps_extend (list : Value) {items : Array Value} (hi : ∀ v ∈ items, w.Has v) :
    Keeps functions w (extend list items) fun _ _ => True := by
  refine (keeps_isList list).bind fun w' isList grows _ _ => ?_
  split
  · refine .onList fun h old g sound v mem => ?_
    rcases Array.mem_append.mp mem with mem | mem
    · exact sound v mem
    · exact (grows.trans g).has (hi v mem)
  · exact .fail _

/-! ## Iteration -/

theorem keeps_iterator {v : Value} : Keeps functions w (iterator v) Heap.Has := by
  refine (Keeps.view v).bind fun w' o _ sound stored => ?_
  split
  · exact .pure fun _ g _ => g.has (stored _ rfl).has
  · have source := (stored _ rfl).has
    exact .alloc fun _ g _ => Nat.lt_succ_of_lt (g.has source)
  · have source := (stored _ rfl).has
    exact .alloc fun _ g _ => Nat.lt_succ_of_lt (g.has source)
  · have source := (stored _ rfl).has
    exact .alloc fun _ g _ => Nat.lt_succ_of_lt (g.has source)
  · have range := sound.stored (stored _ rfl)
    exact .alloc fun _ _ _ => range
  · have entries := sound.stored (stored _ rfl)
    refine .alloc fun _ g _ v hv => (g.has (Dict.Within.keys entries v ?_)).mono (Nat.le_succ _)
    exact Array.mem_toList_iff.mp hv
  · have items := sound.stored (stored _ rfl)
    refine .alloc fun _ g _ v hv => (g.has (items v ?_)).mono (Nat.le_succ _)
    exact Array.mem_toList_iff.mp hv
  · exact .inspect (fun _ => .refuse rfl) fun _ _ _ => .refuse _

theorem step_of_next? {r rest : IntRange} {i : Int64} (h : r.next? = some (i, rest)) :
    rest.step = r.step := by
  simp only [IntRange.next?, Option.ite_none_left_eq_some, Option.some.injEq, Prod.mk.injEq] at h
  rw [← h.2.2]

theorem keeps_sequenceItem (source : Handle) (index : Nat) :
    Keeps functions w (sequenceItem source index) fun h r => ∀ v, r = some v → h.Has v := by
  refine .inspect (fun h => .bind (h.orderly_get source) fun o => ?_) fun h _ sound =>
    (h.gives_get source).bind fun o ho => ?_
  · split <;> exact .pure _
  · have old := sound.stored ⟨source, rfl, ho⟩
    split
    · exact .pure fun v hv => old v (Array.mem_of_getElem? hv)
    · exact .pure fun v hv => old v (Array.mem_of_getElem? hv)
    · exact .pure fun v hv => by cases hv

theorem keeps_characterAt (source : Handle) (offset : Nat) :
    Keeps functions w (characterAt source offset) fun _ _ => True :=
  .ask fun h => .bind (h.orderly_get source) fun _ => .pure _

/-- The next item of an iterator is a value of the heap. -/
theorem keeps_next (it : Value) :
    Keeps functions w (next it) fun h r => ∀ v, r = some v → h.Has v := by
  refine (Keeps.view it).bind fun w' o _ sound stored => ?_
  split
  · have range := sound.stored (stored _ rfl)
    split
    · rename_i r _ i rest following
      have step : rest.step ≠ 0 := step_of_next? following ▸ range
      have advanced : Keeps functions w' (modify it fun _ => .iterator (.range rest))
          fun _ _ => True := .advance (stored _ rfl) fun _ _ => step
      refine advanced.bind fun _ _ _ _ _ => .pure fun _ _ _ v hv => ?_
      cases hv
      trivial
    · exact .pure fun _ _ _ v hv => by cases hv
  · rename_i v rest
    have values := sound.stored (stored _ rfl)
    have advanced : Keeps functions w' (modify it fun _ => .iterator (.values rest))
        fun _ _ => True :=
      .advance (stored _ rfl) fun _ g v hv => g.has (values v (List.mem_cons_of_mem _ hv))
    refine advanced.bind fun _ _ grows _ _ => .pure fun _ g _ v hv => ?_
    cases hv
    exact (grows.trans g).has (values v List.mem_cons_self)
  · exact .pure fun _ _ _ v hv => by cases hv
  · rename_i source index
    have state := sound.stored (stored _ rfl)
    refine (keeps_sequenceItem source index).bind fun w₁ item grows _ has => ?_
    cases item with
    | some v =>
      obtain ⟨o, stored', becomes⟩ := grows.stores (stored _ rfl)
      have advanced : Keeps functions w₁
          (modify it fun _ => .iterator (.sequence source (index + 1))) fun _ _ => True := by
        cases becomes <;>
          exact .advance stored' fun h g => Nat.lt_of_lt_of_le state (grows.trans g).size
      exact advanced.bind fun _ _ g _ _ => .pure fun _ g' _ v' hv =>
        (g.trans g').has (has v' hv)
    | none => exact .pure fun _ _ _ v hv => by cases hv
  · rename_i source offset
    have state := sound.stored (stored _ rfl)
    refine (keeps_characterAt source offset).bind fun w₁ item grows _ _ => ?_
    cases item with
    | some c =>
      refine (Keeps.allocChars [c]).bind fun w₂ v grows' _ has => ?_
      obtain ⟨o, stored', becomes⟩ := (grows.trans grows').stores (stored _ rfl)
      have advanced : Keeps functions w₂
          (modify it fun _ => .iterator (.chars source (offset + c.utf8Size)))
          fun _ _ => True := by
        cases becomes <;> exact .advance stored' fun h g =>
          Nat.lt_of_lt_of_le state ((grows.trans grows').trans g).size
      refine advanced.bind fun _ _ g _ _ => .pure fun _ g' _ v' hv => ?_
      cases hv
      exact (g.trans g').has has
    | none => exact .pure fun _ _ _ v hv => by cases hv
  · exact .fail _
  · exact .fail _

theorem keeps_remaining (it : Value) : Keeps functions w (remaining it) fun _ _ => True := by
  refine (Keeps.view it).bind fun w' o _ _ _ => ?_
  split
  case h_3 source _ _ | h_4 source _ _ =>
    exact .ask fun h => .bind (h.orderly_get source) fun o => by split <;> exact .pure _
  all_goals exact .pure fun _ _ _ => trivial

theorem keeps_drain (it : Value) (count : Nat) {done : Array Value} (hd : ∀ v ∈ done, w.Has v) :
    Keeps functions w (drain it count done) fun h items => ∀ v ∈ items, h.Has v := by
  induction count generalizing w done with
  | zero => exact .pure fun _ g _ v hv => g.has (hd v hv)
  | succ count ih =>
    refine (keeps_next it).bind fun w' item grows _ has => ?_
    cases item with
    | some v =>
      refine ih fun v' mem => ?_
      rcases Array.mem_push.mp mem with mem | rfl
      · exact grows.has (hd v' mem)
      · exact has _ rfl
    | none => exact .pure fun _ g _ v hv => g.has (grows.has (hd v hv))

/-- The items of a value are values of the heap. -/
theorem keeps_collect (v : Value) :
    Keeps functions w (collect v) fun h items => ∀ v ∈ items, h.Has v := by
  refine (Keeps.view v).bind fun w' o _ sound stored => ?_
  split
  · have items := sound.stored (stored _ rfl)
    exact .pure fun _ g _ v hv => g.has (items v hv)
  · have items := sound.stored (stored _ rfl)
    exact .pure fun _ g _ v hv => g.has (items v hv)
  · have items := sound.stored (stored _ rfl)
    exact .pure fun _ g _ v hv => g.has (items v hv)
  · have entries := sound.stored (stored _ rfl)
    exact .pure fun _ g _ v hv => g.has (Dict.Within.keys entries v hv)
  · exact keeps_iterator.bind fun _ it _ _ _ => (keeps_remaining it).bind fun _ count _ _ _ =>
      keeps_drain it count fun v hv => by simp at hv

end HeapM

/-! ## Attributes and calls -/

/-- What a call runs is there. -/
def Callable.Sound (functions : Nat) (h : Heap) : Callable → Prop
  | function id receiver => id < functions ∧ ∀ v ∈ receiver, h.Has v
  | builtin _ | exceptionClass _ => True
  | builtinMethod receiver _ => h.Has receiver
  | cls handle => handle.index.toNat < h.size

namespace Heap

variable {h : Heap}

theorem gives_classAttributeWithin (sound : h.Sound functions) (name : String) (bases : Nat)
    (cls : Option Handle) :
    Gives (h.classAttributeWithin name bases cls) fun r => ∀ v, r = some v → h.Has v := by
  induction bases generalizing cls with
  | zero => exact .refuse _
  | succ bases ih =>
    cases cls with
    | none => exact .ok fun v hv => by cases hv
    | some handle =>
      refine (h.gives_get handle).bind fun o ho => ?_
      split
      · have attributes := (sound.at ho).2
        split
        · rename_i found
          refine .pure fun v hv => ?_
          cases hv
          exact Bindings.Within.get? attributes found
        · exact ih _
      · exact .pure fun v hv => by cases hv

theorem gives_classAttribute (sound : h.Sound functions) (cls : Handle) (name : String) :
    Gives (h.classAttribute cls name) fun r => ∀ v, r = some v → h.Has v :=
  gives_classAttributeWithin sound name _ _

/-- A function of the heap is loaded. -/
theorem gives_functionOf? (sound : h.Sound functions) (v : Value) :
    Gives (h.functionOf? v) fun r => ∀ id, r = some id → id < functions := by
  refine (h.gives_view v).bind fun o stored => ?_
  split
  · have loaded := sound.stored (stored _ rfl)
    refine .pure fun id hid => ?_
    cases hid
    exact loaded
  · exact .pure fun id hid => by cases hid

theorem gives_method? (sound : h.Sound functions) (obj : Value) (name : String) :
    Gives (h.method? obj name) fun r => ∀ id, r = some id → id < functions := by
  refine (h.gives_view obj).bind fun o _ => ?_
  split
  · split
    · exact .pure fun id hid => by cases hid
    · refine .after fun found => ?_
      split
      · exact gives_functionOf? sound _
      · exact .pure fun id hid => by cases hid
  · exact .pure fun id hid => by cases hid

theorem gives_callable (sound : h.Sound functions) (callee : Value) :
    Gives (h.callable callee) (·.Sound functions h) := by
  refine (h.gives_view callee).bind fun o stored => ?_
  split
  · have loaded := sound.stored (stored _ rfl)
    exact .pure ⟨loaded, fun v hv => by cases hv⟩
  · have bound := sound.stored (stored _ rfl)
    refine (gives_functionOf? sound _).bind fun found loaded => ?_
    split
    · refine .pure ⟨loaded _ rfl, fun v hv => ?_⟩
      cases hv
      exact bound.1
    · exact .refuse _
  · exact .pure trivial
  · have receiver := sound.stored (stored _ rfl)
    exact .pure receiver
  · have cls := (stored _ rfl).has
    exact .pure cls
  · exact .pure trivial
  · exact .refuse _

end Heap

namespace HeapM

/-- A failure for a missing attribute. -/
theorem keeps_noAttribute (v : Value) (name : String) {post : Heap → α → Prop} :
    Keeps functions w (inspect fun h => refuse (h.noAttribute v name)) post :=
  .inspect (fun _ => .refuse rfl) fun _ _ _ => .refuse _

theorem keeps_bind {receiver : Value} (name : String) {found : Option Value}
    (hr : w.Has receiver) (hf : ∀ v, found = some v → w.Has v) :
    Keeps functions w (bind receiver name found) Heap.Has := by
  cases found with
  | none => exact keeps_noAttribute receiver name
  | some v =>
    refine (Keeps.ask fun h => h.orderly_functionOf? v).bind fun w' loaded grows _ _ => ?_
    split
    · exact .alloc fun _ g _ =>
        ⟨(grows.trans g).has hr, (grows.trans g).has (hf v rfl)⟩
    · exact .pure fun _ g _ => (grows.trans g).has (hf v rfl)

theorem keeps_getAttribute (obj : Value) (name : String) :
    Keeps functions w (getAttribute obj name) Heap.Has := by
  refine (Keeps.view obj).bind fun w' o _ sound stored => ?_
  split
  · have attributes := (sound.stored (stored _ rfl)).2
    have receiver := (stored _ rfl).has
    split
    · rename_i found
      exact .pure fun _ g _ => g.has (Bindings.Within.get? attributes found)
    · exact (Keeps.inspect (fun h => h.orderly_classAttribute _ name) fun _ _ sound =>
        Heap.gives_classAttribute sound _ name).bind fun _ found grows _ has =>
          keeps_bind name (grows.has receiver) has
  · refine (Keeps.inspect (fun h => h.orderly_classAttribute _ name) fun _ _ sound =>
      Heap.gives_classAttribute sound _ name).bind fun _ found _ _ has => ?_
    cases found with
    | some v => exact .pure fun _ g _ => g.has (has v rfl)
    | none => exact keeps_noAttribute _ name
  · split
    · refine (Keeps.allocText _).bind fun _ text _ _ has => .allocTuple fun v hv => ?_
      rw [Array.mem_singleton.mp hv]
      exact has
    · exact keeps_noAttribute obj name
  · have receiver := (stored _ rfl).has
    split
    · exact .alloc fun _ g _ => g.has receiver
    · exact keeps_noAttribute obj name
  · exact keeps_noAttribute obj name

theorem keeps_setAttribute (obj : Value) (name : String) {value : Value} (hv : w.Has value) :
    Keeps functions w (setAttribute obj name value) fun _ _ => True := by
  refine (Keeps.view obj).bind fun w' o grows sound stored => ?_
  split
  · rename_i new found
    obtain ⟨old, rfl, changed⟩ := Option.bind_eq_some_iff.mp found
    obtain ⟨handle, rfl, ho⟩ := stored old rfl
    have made := sound.at ho
    have value := grows.has hv
    cases old with
    | cls className base attributes =>
      cases changed
      refine .replace ⟨handle, rfl, ho⟩ (fun o' becomes => ?_) fun h handle' g same => ?_
      · cases becomes <;> constructor
      · cases same
        exact ⟨made.1, fun b hb => g.has (made.2.set name value b hb)⟩
    | instanceOf c attributes =>
      cases changed
      refine .replace ⟨handle, rfl, ho⟩ (fun o' becomes => ?_) fun h handle' g same => ?_
      · cases becomes <;> constructor
      · cases same
        exact ⟨made.1, fun b hb => g.has (made.2.set name value b hb)⟩
    | _ => cases changed
  · exact keeps_noAttribute obj name

/-- What a method call runs is there. -/
theorem keeps_callableMethod {obj : Value} (name : String) (ho : w.Has obj) :
    Keeps functions w (callableMethod obj name) (fun h callable => callable.Sound functions h) := by
  refine (Keeps.inspect (fun h => h.orderly_method? obj name) fun _ _ sound =>
    Heap.gives_method? sound obj name).bind fun w' found grows _ loaded => ?_
  cases found with
  | some id =>
    refine .pure fun h g _ => ⟨loaded id rfl, fun v hv => ?_⟩
    cases hv
    exact (grows.trans g).has ho
  | none =>
    refine (Keeps.view obj).bind fun _ o grows' _ _ => ?_
    split
    · exact .pure fun _ g _ => ((grows.trans grows').trans g).has ho
    · exact (keeps_getAttribute obj name).bind fun _ v _ _ _ =>
        .inspect (fun h => h.orderly_callable v) fun _ _ sound => Heap.gives_callable sound v

/-! ## Exceptions -/

theorem keeps_newException (kind : ErrorKind) (args : List Value) :
    Keeps functions w (newException kind args) Heap.Has := by
  have made : ∀ w message, Keeps functions w (HeapM.alloc (.exception kind message)) Heap.Has :=
    fun _ _ => .alloc fun _ _ _ => trivial
  cases args with
  | nil => exact made w ""
  | cons v vs =>
    exact (Keeps.ask fun h => h.orderly_text v).bind fun w' message _ _ _ => made w' message

/-- A handler receives a value of the heap. -/
theorem keeps_caught {e : Failure} (he : ∀ v, e.exception = some v → w.Has v) :
    Keeps functions w (caught e) Heap.Has := by
  unfold caught
  split
  · rename_i v hv
    exact .pure fun _ g _ => g.has (he v hv)
  · exact .alloc fun _ _ _ => trivial

/-- A raised exception is a value of the heap. -/
theorem keeps_raise (v : Value) {post : Heap → α → Prop} :
    Keeps functions w (raise v : HeapM α) post := by
  have thrown : ∀ (w : Heap) exception, w.Has exception →
      Keeps functions w (do throw ((← get).raised exception) : HeapM α) post := by
    intro w exception has
    refine ⟨fun h a h' _ _ ran => (by cases ran), fun h e h' g sound ran => ?_⟩
    cases ran
    refine ⟨.refl _, sound, fun v hv => ?_⟩
    cases hv
    exact g.has has
  refine (Keeps.view v).bind fun w' o _ sound stored => ?_
  split
  · exact (keeps_newException _ []).bind fun _ exception _ _ has => thrown _ exception has
  · rename_i handle
    have cls := (stored _ rfl).has
    have made : Keeps functions w' (HeapM.alloc (.instanceOf handle [])) Heap.Has :=
      .alloc fun _ g _ => ⟨g.has cls, fun b hb => by cases hb⟩
    exact made.bind fun _ exception _ _ has => thrown _ exception has
  · have has := (stored _ rfl).has
    have given : Keeps functions w' (pure _) Heap.Has := .pure fun _ g _ => g.has has
    exact given.bind fun _ exception _ _ has => thrown _ exception has
  · have has := (stored _ rfl).has
    have given : Keeps functions w' (pure _) Heap.Has := .pure fun _ g _ => g.has has
    exact given.bind fun _ exception _ _ has => thrown _ exception has
  · exact .failBind _ _

end HeapM

end RegisterVm
