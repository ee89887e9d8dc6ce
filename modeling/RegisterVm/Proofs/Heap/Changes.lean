import Mathlib.Logic.Relation
import RegisterVm.Proofs.Heap.Growth

/-!
# What operations change on a heap

The heap changes in few ways. `Heap.Prepares` leaves all objects alone but iterators: an object is
added, a text is shared, an iterator moves on. `Heap.Changes` has the writes too: other items of a
list, an entry put into a dict or a set under its key or taken out of a dict, other attributes of a
class or an instance. `Heap.Prepared` and `Heap.Changed` are chains of such changes.

An iterator that moves on goes from item to item (`Heap.Proceeds`), never back.

An operation `HeapM.Prepares` when it never does more than that, and it `HeapM.Writes` when it only
prepares in case it fails. Main statements: a prepared heap has its old objects, all but iterators,
as they were (`Heap.Prepared.object?`), a changed heap has grown (`Heap.Changed.grows`), and its
iterators are where they were or further (`Heap.Changed.advances`).
-/

namespace RegisterVm

open Relation (ReflTransGen)

namespace IteratorState

/-- One item further; in a string this is the character that starts there. -/
inductive Next (h : Heap) : IteratorState → IteratorState → Prop
  | range {r rest : IntRange} {i : Int64} : r.next? = some (i, rest) →
    Next h (.range r) (.range rest)
  | values (v : Value) (rest : List Value) : Next h (.values (v :: rest)) (.values rest)
  | sequence (source : Handle) (index : Nat) :
    Next h (.sequence source index) (.sequence source (index + 1))
  | chars {source : Handle} {o : Object} {offset : Nat} {c : Char} :
    h.object? source = some o → o.characterAt? offset = some c →
    Next h (.chars source offset) (.chars source (offset + c.utf8Size))

/-- Strings stay, so what is further on a heap is so on what it becomes. -/
theorem Next.grown {h h' : Heap} {state state' : IteratorState} (next : state.Next h state')
    (grows : h.Grows h') : state.Next h' state' := by
  cases next with
  | range given => exact .range given
  | values v rest => exact .values v rest
  | sequence source index => exact .sequence source index
  | chars found given =>
    obtain ⟨o, found', becomes⟩ := grows.object _ _ found
    cases becomes with
    | same => exact .chars found' given
    | _ => cases given

/-- Some items further. -/
abbrev Advances (h : Heap) : IteratorState → IteratorState → Prop := ReflTransGen (Next h)

end IteratorState

/-! ## Changes -/

namespace Heap

variable {h h' : Heap}

/-- The heap with a new string that is shared by its text. -/
def share (s : String) (h : Heap) : Heap :=
  ⟨(h.alloc (.str s)).2.objects, h.interned.insert s (h.alloc (.str s)).1⟩

/-- A new dict or set has its entries under their keys. -/
def Fresh (h : Heap) : Object → Prop
  | .dict d => ∃ pairs, h.dictOf pairs = .ok d
  | .set s => ∃ items, h.setOf items = .ok s
  | _ => True

/-- What is written to an object. -/
inductive Rewrites (h : Heap) : Object → Object → Prop
  | list (items items' : Array Value) : Rewrites h (.list items) (.list items')
  | insertEntry {d : Dict} {k : HashKey} {name value : Value} : h.key name = .ok k →
    Rewrites h (.dict d) (.dict (d.insert k name value))
  | removeEntry {d rest : Dict} {k : HashKey} {v : Value} : d.remove? k = some (v, rest) →
    Rewrites h (.dict d) (.dict rest)
  | insertItem {s : KeySet} {k : HashKey} {item : Value} : h.key item = .ok k →
    Rewrites h (.set s) (.set (s.insert k item))
  | cls (name : String) (base : Option Handle) (attributes attributes' : Bindings) :
    Rewrites h (.cls name base attributes) (.cls name base attributes')
  | instanceOf (c : Handle) (attributes attributes' : Bindings) :
    Rewrites h (.instanceOf c attributes) (.instanceOf c attributes')

theorem Rewrites.becomes {o o' : Object} (rewrites : h.Rewrites o o') : o.Becomes o' := by
  cases rewrites <;> constructor

/-- A change that leaves what the objects are, iterators apart. -/
inductive Prepares (h : Heap) : Heap → Prop
  | add {o : Object} : h.Fresh o → Prepares h (h.alloc o).2
  | share {s : String} : h.interned[s]? = none → Prepares h (h.share s)
  | advance {handle : Handle} {state state' : IteratorState} :
    h.object? handle = some (.iterator state) →
    Prepares h (h.modify handle fun _ => .iterator state')

/-- Each iterator is where it was, or further. -/
def Advances (h h' : Heap) : Prop :=
  ∀ handle state, h.object? handle = some (.iterator state) →
    ∃ state', h'.object? handle = some (.iterator state') ∧ state.Advances h' state'

/-- A change that leaves what the objects are, but for the iterator that goes to its next item. -/
structure Proceeds (h h' : Heap) : Prop where
  prepares : h.Prepares h'
  advances : h.Advances h'

inductive Changes (h : Heap) : Heap → Prop
  | proceeds {h' : Heap} : h.Proceeds h' → Changes h h'
  | write {handle : Handle} {o o' : Object} : h.object? handle = some o → h.Rewrites o o' →
    Changes h (h.modify handle fun _ => o')

/-- What may become of a heap by an operation that fails. -/
abbrev Prepared : Heap → Heap → Prop := ReflTransGen Prepares

/-- The same, where iterators only go on. -/
abbrev Proceeded : Heap → Heap → Prop := ReflTransGen Proceeds

/-- What may become of a heap. -/
abbrev Changed : Heap → Heap → Prop := ReflTransGen Changes

theorem Proceeded.prepared (proceeded : h.Proceeded h') : h.Prepared h' :=
  ReflTransGen.mono (fun _ _ => Proceeds.prepares) h h' proceeded

theorem Proceeded.changed (proceeded : h.Proceeded h') : h.Changed h' :=
  ReflTransGen.mono (fun _ _ => Changes.proceeds) h h' proceeded

/-! ### One object -/

/-- Only what the object is becomes matters to a change of it. -/
theorem modify_congr {handle : Handle} {f g : Object → Object}
    (same : ∀ o, h.object? handle = some o → f o = g o) :
    h.modify handle f = h.modify handle g := by
  obtain ⟨objects, interned⟩ := h
  have objects' : objects.modify handle.index.toNat f = objects.modify handle.index.toNat g := by
    refine Array.ext_getElem? fun i => ?_
    rw [Array.getElem?_modify, Array.getElem?_modify]
    split
    · rename_i here
      cases found : objects[i]? with
      | none => rfl
      | some o =>
        have changed := same o (by rw [object?, here, found])
        simp only [Option.map_some, changed]
    · rfl
  simp only [modify, objects']

theorem modify_eq_self {handle : Handle} {f : Object → Object}
    (same : ∀ o, h.object? handle = some o → f o = o) : h.modify handle f = h := by
  refine (modify_congr (g := id) same).trans ?_
  obtain ⟨objects, interned⟩ := h
  have objects' : objects.modify handle.index.toNat id = objects := by
    refine Array.ext_getElem? fun i => ?_
    rw [Array.getElem?_modify]
    split <;> simp
  simp only [modify, objects']

theorem object?_modify (handle other : Handle) (f : Object → Object) (h : Heap) :
    (h.modify handle f).object? other =
      if other = handle then (h.object? other).map f else h.object? other := by
  rw [object?, getElem?_modify]
  by_cases same : other = handle
  · rw [if_pos same, if_pos (congrArg (fun x : Handle => x.index.toNat) same)]
    rfl
  · have apart : other.index.toNat ≠ handle.index.toNat := by
      intro indices
      obtain ⟨i⟩ := other
      obtain ⟨j⟩ := handle
      exact same (congrArg Handle.mk (UInt32.toNat_inj.mp indices))
    rw [if_neg same, if_neg apart]
    rfl

theorem grows_modify {handle : Handle} {o o' : Object} (ho : h.object? handle = some o)
    (becomes : o.Becomes o') : h.Grows (h.modify handle fun _ => o') where
  size := by simp
  object other old found := by
    rw [object?_modify]
    split
    · rename_i same
      rw [same, ho] at found
      cases found
      exact ⟨o', by rw [same, ho]; rfl, becomes⟩
    · exact ⟨old, found, .same old⟩
  interned s handle found := found

/-! ### Chains -/

theorem object?_share (s : String) (h : Heap) (handle : Handle) :
    (h.share s).object? handle = (h.alloc (.str s)).2.object? handle := rfl

theorem grows_share {s : String} (absent : h.interned[s]? = none) : h.Grows (h.share s) where
  size := (h.grows_alloc (.str s)).size
  object := (h.grows_alloc (.str s)).object
  interned t handle found := by
    rw [share, Std.HashMap.getElem?_insert]
    split
    · rename_i same
      rw [eq_of_beq same, found] at absent
      cases absent
    · exact found

theorem Prepares.grows (prepares : h.Prepares h') : h.Grows h' := by
  cases prepares with
  | add => exact h.grows_alloc _
  | share absent => exact grows_share absent
  | advance found => exact grows_modify found (.iterator _ _)

theorem Changes.grows (changes : h.Changes h') : h.Grows h' := by
  cases changes with
  | proceeds proceeds => exact proceeds.prepares.grows
  | write found rewrites => exact grows_modify found rewrites.becomes

/-- **A heap grows by what is changed on it**: no object goes, and each stays of its kind. -/
theorem Changed.grows (changed : h.Changed h') : h.Grows h' := by
  induction changed with
  | refl => exact .refl h
  | tail _ changes ih => exact ih.trans changes.grows

theorem Prepares.object? (prepares : h.Prepares h') {handle : Handle} {o : Object}
    (found : h.object? handle = some o) (stays : ∀ state, o ≠ .iterator state) :
    h'.object? handle = some o := by
  cases prepares with
  | add => exact kept_alloc found _
  | share => exact (object?_share _ h handle).trans (kept_alloc found _)
  | advance iterator =>
    rw [object?_modify, if_neg, found]
    rintro rfl
    cases found.symm.trans iterator
    exact stays _ rfl

/-- **A prepared heap has its objects, all but iterators, as they were.** -/
theorem Prepared.object? (prepared : h.Prepared h') {handle : Handle} {o : Object}
    (found : h.object? handle = some o) (stays : ∀ state, o ≠ .iterator state) :
    h'.object? handle = some o := by
  induction prepared with
  | refl => exact found
  | tail _ prepares ih => exact prepares.object? ih stays

/-! ### Iterators -/

theorem Advances.refl (h : Heap) : h.Advances h := fun _ state found => ⟨state, found, .refl⟩

theorem Advances.trans {h₁ h₂ : Heap} (first : h.Advances h₁) (second : h₁.Advances h₂)
    (grows : h₁.Grows h₂) : h.Advances h₂ := by
  intro handle state found
  obtain ⟨state₁, found₁, to₁⟩ := first handle state found
  obtain ⟨state₂, found₂, to₂⟩ := second handle state₁ found₁
  have further := ReflTransGen.mono (fun _ _ next => next.grown grows) state state₁ to₁
  exact ⟨state₂, found₂, further.trans to₂⟩

/-- Old iterators stay when they are not touched. -/
theorem advances_of_object? (same : ∀ handle state, h.object? handle = some (.iterator state) →
    h'.object? handle = some (.iterator state)) : h.Advances h' :=
  fun handle state found => ⟨state, same handle state found, .refl⟩

theorem advances_alloc (h : Heap) (o : Object) : h.Advances (h.alloc o).2 :=
  advances_of_object? fun _ _ found => kept_alloc found o

theorem advances_modify {handle : Handle} {o o' : Object} (ho : h.object? handle = some o)
    (becomes : o.Becomes o') (goes : ∀ state, o = .iterator state →
      ∃ state', o' = .iterator state' ∧ state.Next h state') :
    h.Advances (h.modify handle fun _ => o') := by
  intro other state found
  rw [object?_modify]
  split
  · rename_i here
    rw [here, ho] at found
    obtain ⟨state', rfl, next⟩ := goes state (Option.some.inj found)
    exact ⟨state', by rw [here, ho]; rfl, .single (next.grown (grows_modify ho becomes))⟩
  · exact ⟨state, found, .refl⟩

theorem Proceeds.add {o : Object} (fresh : h.Fresh o) : h.Proceeds (h.alloc o).2 :=
  ⟨.add fresh, advances_alloc h o⟩

theorem Proceeds.share {s : String} (absent : h.interned[s]? = none) : h.Proceeds (h.share s) :=
  ⟨.share absent, advances_of_object? fun _ _ found => kept_alloc found (.str s)⟩

theorem Proceeds.advance {handle : Handle} {state state' : IteratorState}
    (found : h.object? handle = some (.iterator state)) (next : state.Next h state') :
    h.Proceeds (h.modify handle fun _ => .iterator state') :=
  ⟨.advance found, advances_modify found (.iterator state state') fun _ same =>
    ⟨state', rfl, Object.iterator.inj same ▸ next⟩⟩

theorem Changes.advances (changes : h.Changes h') : h.Advances h' := by
  cases changes with
  | proceeds proceeds => exact proceeds.advances
  | write found rewrites =>
    refine advances_modify found rewrites.becomes fun state iterates => ?_
    subst iterates
    cases rewrites

/-- **No iterator goes back**, whatever is changed. -/
theorem Changed.advances (changed : h.Changed h') : h.Advances h' := by
  induction changed with
  | refl => exact .refl h
  | tail _ changes ih => exact ih.trans changes.advances changes.grows

end Heap

/-- A string, a list or a tuple. -/
inductive Object.Sequential : Object → Prop
  | str (s : String) : Sequential (.str s)
  | list (items : Array Value) : Sequential (.list items)
  | tuple (items : Array Value) : Sequential (.tuple items)

theorem Object.Sequential.fresh {o : Object} (sequential : o.Sequential) (h : Heap) :
    h.Fresh o := by
  cases sequential <;> trivial

/-! ## Operations -/

namespace HeapM

variable {α β : Type} {operation : HeapM α} {h : Heap}

/-- The heap after an operation, whether it succeeds or fails. -/
def after (operation : HeapM α) (h : Heap) : Heap :=
  match operation h with
  | .ok _ h' | .error _ h' => h'

theorem after_of_ok {a : α} {h' : Heap} (ran : operation h = .ok a h') :
    operation.after h = h' := by
  rw [after, ran]

theorem after_of_error {e : Failure} {h' : Heap} (ran : operation h = .error e h') :
    operation.after h = h' := by
  rw [after, ran]

/-- An operation does no more than to prepare the heap. -/
def Prepares (operation : HeapM α) : Prop := ∀ h : Heap, h.Proceeded (operation.after h)

/-- On `h` an operation only prepares the heap when it fails. -/
structure Writes (h : Heap) (operation : HeapM α) : Prop where
  ok : ∀ a h', operation h = .ok a h' → h.Changed h'
  error : ∀ e h', operation h = .error e h' → h.Proceeded h'

namespace Prepares

@[grind ←] theorem pure (a : α) : Prepares (pure a) := fun _ => .refl

@[grind ←] theorem bind {f : α → HeapM β} (ho : Prepares operation) (hf : ∀ a, Prepares (f a)) :
    Prepares (operation >>= f) := by
  intro h
  have first := ho h
  simp only [after, Bind.bind, EStateM.bind] at first ⊢
  cases ran : operation h with
  | ok a h' =>
    rw [ran] at first
    exact first.trans (hf a h')
  | error e h' =>
    rw [ran] at first
    exact first

@[grind ←] theorem map {f : α → β} (ho : Prepares operation) : Prepares (f <$> operation) := by
  rw [← bind_pure_comp]
  exact ho.bind fun a => pure (f a)

@[grind ←] theorem fail (fault : Fault) : Prepares (fail fault : HeapM α) := fun _ => .refl

@[grind ←] theorem get : Prepares (get : HeapM Heap) := fun _ => .refl

@[grind ←] theorem inspect (f : Heap → Outcome α) : Prepares (inspect f) := by
  intro h
  simp only [after, RegisterVm.inspect]
  cases f h <;> exact .refl

/-- What is done after reading may depend on what was read. -/
theorem inspectBind {f : Heap → Outcome α} {g : α → HeapM β}
    (hg : ∀ h a, f h = .ok a → h.Proceeded ((g a).after h)) :
    Prepares (RegisterVm.inspect f >>= g) := by
  intro h
  simp only [after, Bind.bind, EStateM.bind, RegisterVm.inspect]
  cases read : f h with
  | ok a => exact hg h a read
  | error e => exact .refl

theorem alloc {o : Object} (fresh : ∀ h : Heap, h.Fresh o) : Prepares (alloc o) :=
  fun h => .single (.add (fresh h))

@[grind ←] theorem allocText (s : String) : Prepares (allocText s) := alloc fun _ => trivial

@[grind ←] theorem allocChars (cs : List Char) : Prepares (allocChars cs) := allocText _

@[grind ←] theorem allocInteger (n : Int) : Prepares (allocInteger n) := by
  unfold HeapM.allocInteger
  split
  · exact pure _
  · exact alloc fun _ => trivial

@[grind ←] theorem intern (s : String) : Prepares (intern s) := by
  intro h
  simp only [after, HeapM.intern]
  cases found : h.interned[s]? with
  | some handle => exact .refl
  | none => exact .single (.share found)

@[grind ←] theorem mapM {f : α → HeapM β} (hf : ∀ a, Prepares (f a)) (as : List α) :
    Prepares (as.mapM f) := by
  induction as with
  | nil => exact pure []
  | cons a as ih =>
    rw [List.mapM_cons]
    exact (hf a).bind fun b => ih.bind fun bs => pure (b :: bs)

@[grind ←] theorem foldlM {f : β → α → HeapM β} (hf : ∀ b a, Prepares (f b a)) (b : β)
    (as : List α) : Prepares (as.foldlM f b) := by
  induction as generalizing b with
  | nil => exact pure b
  | cons a as ih => exact (hf b a).bind ih

end Prepares

namespace Writes

/-- What an operation does to the heap that writes nothing. -/
theorem ofPrepares (ho : Prepares operation) : Writes h operation where
  ok _ _ ran := after_of_ok ran ▸ (ho h).changed
  error _ _ ran := after_of_error ran ▸ ho h

theorem after (writes : Writes h operation) : h.Changed (operation.after h) := by
  rw [HeapM.after]
  cases ran : operation h with
  | ok a h' => exact writes.ok a h' ran
  | error e h' => exact (writes.error e h' ran).changed

/-- Whatever precedes the writing only prepares. -/
theorem bind {f : α → HeapM β} (ho : Prepares operation)
    (hf : ∀ a h', operation h = .ok a h' → Writes h' (f a)) : Writes h (operation >>= f) where
  ok b h' ran := by
    simp only [Bind.bind, EStateM.bind] at ran
    split at ran
    · rename_i a h₁ first
      exact (after_of_ok first ▸ (ho h).changed).trans ((hf a h₁ first).ok b h' ran)
    · cases ran
  error e h' ran := by
    simp only [Bind.bind, EStateM.bind] at ran
    split at ran
    · rename_i a h₁ first
      exact (after_of_ok first ▸ ho h).trans ((hf a h₁ first).error e h' ran)
    · rename_i failed
      cases ran
      exact after_of_error failed ▸ ho h

/-- What is written after reading may depend on what was read. -/
theorem inspectBind {f : Heap → Outcome α} {g : α → HeapM β}
    (hg : ∀ a, f h = .ok a → Writes h (g a)) : Writes h (RegisterVm.inspect f >>= g) := by
  refine bind (.inspect f) fun a h' read => ?_
  simp only [RegisterVm.inspect] at read
  split at read <;> cases read
  rename_i read
  exact hg a read

/-- Nothing is done after the writing but to give something back. -/
theorem give {b : β} (ho : Writes h operation) : Writes h (do let _ ← operation; return b) where
  ok c h' ran := by
    simp only [Bind.bind, EStateM.bind] at ran
    split at ran
    · rename_i first
      cases ran
      exact ho.ok _ _ first
    · cases ran
  error e h' ran := by
    simp only [Bind.bind, EStateM.bind] at ran
    split at ran
    · cases ran
    · rename_i failed
      cases ran
      exact ho.error _ _ failed

/-- A change of an object that is a write, or none at all. -/
theorem modify {v : Value} {f : Object → Object}
    (hf : ∀ handle o, v = .object handle → h.object? handle = some o →
      f o = o ∨ h.Rewrites o (f o)) : Writes h (modify v f) where
  ok a h' ran := by
    cases v with
    | object handle =>
      cases ran
      cases found : h.object? handle with
      | none =>
        rw [Heap.modify_eq_self fun o same => by cases found.symm.trans same]
      | some o =>
        have same : ∀ p, h.object? handle = some p → f p = f o := fun p hp => by
          rw [Option.some.inj (hp.symm.trans found)]
        rcases hf handle o rfl found with unchanged | rewrites
        · rw [Heap.modify_eq_self fun p hp => by
            rw [same p hp, unchanged, Option.some.inj (hp.symm.trans found)]]
        · rw [Heap.modify_congr (g := fun _ => f o) same]
          exact .single (.write found rewrites)
    | _ =>
      cases ran
      exact .refl
  error e h' ran := by cases v <;> cases ran

theorem onList (v : Value) (f : Array Value → Array Value) :
    Writes h (HeapM.modify v (Object.onList f)) := by
  refine modify fun handle o _ _ => ?_
  cases o with
  | list items => exact .inr (.list items (f items))
  | _ => exact .inl rfl

/-- An entry is put into a dict under its key. -/
theorem insertEntry (v : Value) {k : HashKey} {name value : Value} (key : h.key name = .ok k) :
    Writes h (HeapM.modify v (Object.onDict fun d => d.insert k name value)) := by
  refine modify fun handle o _ _ => ?_
  cases o with
  | dict d => exact .inr (.insertEntry key)
  | _ => exact .inl rfl

/-- An item is put into a set under its key. -/
theorem insertItem (v : Value) {k : HashKey} {item : Value} (key : h.key item = .ok k) :
    Writes h (HeapM.modify v (Object.onSet fun s => s.insert k item)) := by
  refine modify fun handle o _ _ => ?_
  cases o with
  | set s => exact .inr (.insertItem key)
  | _ => exact .inl rfl

end Writes

/-! ## Containers -/

@[grind ←] theorem prepares_view (v : Value) : Prepares (view v) := .inspect _

@[grind ←] theorem prepares_isList (v : Value) : Prepares (isList v) := by
  grind [isList]

@[grind ←] theorem prepares_getItem (container key : Value) : Prepares (getItem container key) := by
  grind [getItem]

/-- The place of an assignment in a dict is under the key of what is assigned to. -/
theorem key_of_place {container key : Value} {k : HashKey} {h' : Heap}
    (ran : place container key h = .ok (.key k) h') : h' = h ∧ h.key key = .ok k := by
  simp only [place, inspect] at ran
  split at ran <;> cases ran
  rename_i placed
  refine ⟨rfl, ?_⟩
  cases viewed : h.view container with
  | error e =>
    rw [viewed] at placed
    cases placed
  | ok o =>
    rw [viewed] at placed
    simp only [Bind.bind, Except.bind] at placed
    split at placed
    · split at placed
      · cases placed
      · split at placed <;> cases placed
    · split at placed
      · cases placed
      · rename_i keyed
        cases placed
        exact keyed
    · split at placed <;> cases placed

theorem writes_setItem (h : Heap) (container key value : Value) :
    Writes h (setItem container key value) := by
  refine .bind (.inspect _) fun at' h' placed => ?_
  cases at' with
  | position i => exact .onList container _
  | key k =>
    obtain ⟨rfl, keyed⟩ := key_of_place placed
    exact .insertEntry container keyed

@[grind ←] theorem prepares_slice (container start stop : Value) :
    Prepares (slice container start stop) := by
  refine .bind (.inspect _) fun _ => .bind (.inspect _) fun _ => .bind (prepares_view _) fun o => ?_
  split
  · exact .alloc fun _ => trivial
  · exact .alloc fun _ => trivial
  · exact .allocChars _
  · exact .inspect _

theorem writes_append (h : Heap) (list item : Value) : Writes h (append list item) := by
  refine .bind (prepares_isList list) fun isList h' _ => ?_
  split
  · exact .onList list _
  · exact .ofPrepares (.inspect _)

theorem writes_extend (h : Heap) (list : Value) (items : Array Value) :
    Writes h (extend list items) := by
  refine .bind (prepares_isList list) fun isList h' _ => ?_
  split
  · exact .onList list _
  · exact .ofPrepares (.fail _)

@[grind ←] theorem prepares_allocDict (pairs : List (Value × Value)) :
    Prepares (allocDict pairs) :=
  .inspectBind fun _ _ built => .single (.add ⟨pairs, built⟩)

@[grind ←] theorem prepares_allocSet (items : List Value) : Prepares (allocSet items) :=
  .inspectBind fun _ _ built => .single (.add ⟨items, built⟩)

/-! ## Iteration -/

@[grind ←] theorem prepares_iterator (v : Value) : Prepares (iterator v) := by
  have iterates : ∀ state, Prepares (alloc (.iterator state)) := fun _ => .alloc fun _ => trivial
  refine .bind (prepares_view v) fun o => ?_
  grind

/-- An iterator moves on. -/
theorem proceeded_advance {handle : Handle} {state state' : IteratorState} {r : Option Value}
    (found : h.object? handle = some (.iterator state)) (next : state.Next h state') :
    h.Proceeded (after (do
      modify (.object handle) fun _ => .iterator state'
      return r) h) :=
  .single (.advance found next)

@[grind ←] theorem prepares_next (it : Value) : Prepares (next it) := by
  refine .inspectBind fun h o viewed => ?_
  have stored := h.gives_view it o viewed
  split
  · rename_i r
    obtain ⟨handle, rfl, found⟩ := stored _ rfl
    split
    · rename_i given
      exact proceeded_advance found (.range given)
    · exact .refl
  · obtain ⟨handle, rfl, found⟩ := stored _ rfl
    exact proceeded_advance found (.values _ _)
  · exact .refl
  · rename_i source index
    obtain ⟨handle, rfl, found⟩ := stored _ rfl
    simp only [HeapM.after, Bind.bind, EStateM.bind, sequenceItem, RegisterVm.inspect]
    cases (h.get source).bind _ with
    | error e => exact .refl
    | ok item =>
      cases item with
      | none => exact .refl
      | some v => exact proceeded_advance (r := none) found (.sequence source index)
  · rename_i source offset
    obtain ⟨handle, rfl, found⟩ := stored _ rfl
    simp only [HeapM.after, Bind.bind, EStateM.bind, characterAt, RegisterVm.inspect]
    cases got : h.get source with
    | error e => exact .refl
    | ok o =>
      have text := h.gives_get source o got
      cases given : o.characterAt? offset with
      | none =>
        simp only [Except.bind, Pure.pure, Except.pure, given]
        exact .refl
      | some c =>
        have added : h.Proceeds (h.alloc (.str (String.ofList [c]))).2 := .add trivial
        have kept := Heap.kept_alloc found (.str (String.ofList [c]))
        have text' := Heap.kept_alloc text (.str (String.ofList [c]))
        simp only [Except.bind, Pure.pure, Except.pure, given]
        exact .head added (proceeded_advance (r := none) kept (.chars text' given))
  · exact .refl
  · exact .refl

@[grind ←] theorem prepares_remaining (it : Value) : Prepares (remaining it) := by
  refine .bind (prepares_view it) fun o => ?_
  split
  case h_3 | h_4 => exact .inspect _
  all_goals exact .pure _

@[grind ←] theorem prepares_drain (it : Value) (count : Nat) (done : Array Value) :
    Prepares (drain it count done) := by
  induction count generalizing done with
  | zero => exact .pure done
  | succ count ih => simp only [drain]; grind

@[grind ←] theorem prepares_collect (v : Value) : Prepares (collect v) := by
  grind [collect]

/-! ## Arithmetic -/

@[grind ←] theorem prepares_ofInteger (r : Except Fault Integer.Result) :
    Prepares (ofInteger r) := by
  unfold ofInteger
  grind

/-- The result of an operator on sequences is a sequence. -/
theorem sequential_of_binary? {op : BinaryOperator} {a b : Value} {x y : Option Object}
    {o : Object} (result : Sequence.binary? op a b x y = .ok (some o)) : o.Sequential := by
  have repeated : ∀ {sequence : Object} {count : Value},
      Sequence.repeated? sequence count = .ok (some o) → o.Sequential := by
    intro sequence count result
    unfold Sequence.repeated? at result
    split at result <;> first
      | cases result
      | (cases checked : Sequence.checkRepeat _ _ _ <;> rw [checked] at result <;> cases result
         constructor)
  unfold Sequence.binary? at result
  split at result
  case h_4 | h_5 =>
    split at result
    · exact repeated result
    · cases result
  case h_6 => cases result
  all_goals
    split at result <;> cases result
    constructor

@[grind ←] theorem prepares_generalBinary (op : BinaryOperator) (a b : Value) :
    Prepares (generalBinary op a b) := by
  refine .bind .get fun h => ?_
  split
  · exact prepares_ofInteger _
  · split
    · exact .inspect _
    · refine .inspectBind fun h o read => ?_
      cases o with
      | none => exact Prepares.inspect _ h
      | some o =>
        refine .single (.add ?_)
        cases left : h.view a with
        | error e =>
          rw [left] at read
          cases read
        | ok x =>
          cases right : h.view b with
          | error e =>
            rw [left, right] at read
            cases read
          | ok y =>
            rw [left, right] at read
            exact (sequential_of_binary? read).fresh h

@[grind ←] theorem prepares_binary (op : BinaryOperator) (a b : Value) :
    Prepares (binary op a b) := by
  unfold binary
  split
  · split
    · exact .pure _
    · exact prepares_generalBinary op a b
    · exact .inspect _
    · exact .fail _
  · exact prepares_generalBinary op a b

theorem writes_addInPlace (h : Heap) (a b : Value) : Writes h (addInPlace a b) := by
  refine .bind (prepares_isList a) fun isList h' _ => ?_
  split
  · exact .bind (prepares_collect b) fun items h'' _ => (writes_extend h'' a items).give
  · exact .ofPrepares (prepares_binary .add a b)

@[grind ←] theorem prepares_compare (op : CompareOperator) (a b : Value) :
    Prepares (compare op a b) :=
  .inspect _

@[grind ←] theorem prepares_unary (op : UnaryOperator) (a : Value) : Prepares (unary op a) := by
  grind [unary, generalUnary]

/-! ## Attributes -/

@[grind ←] theorem prepares_bind (receiver : Value) (name : String) (found : Option Value) :
    Prepares (bind receiver name found) := by
  have bound : ∀ v, Prepares (alloc (.boundMethod receiver v)) := fun _ => .alloc fun _ => trivial
  unfold bind
  grind

@[grind ←] theorem prepares_getAttribute (obj : Value) (name : String) :
    Prepares (getAttribute obj name) := by
  have method : Prepares (alloc (.builtinMethod obj name)) := .alloc fun _ => trivial
  have arguments : ∀ text, Prepares (alloc (.tuple #[text])) := fun _ => .alloc fun _ => trivial
  refine .bind (prepares_view obj) fun o => ?_
  split <;> grind

theorem writes_setAttribute (h : Heap) (obj : Value) (name : String) (value : Value) :
    Writes h (setAttribute obj name value) := by
  refine .inspectBind fun o viewed => ?_
  split
  · rename_i o' set
    obtain ⟨old, rfl, set⟩ := Option.bind_eq_some_iff.mp set
    obtain ⟨handle, rfl, found⟩ := h.gives_view obj _ viewed old rfl
    refine .modify fun other p same present => .inr ?_
    cases same
    cases found.symm.trans present
    cases old with
    | instanceOf c attributes =>
      cases set
      exact .instanceOf c attributes _
    | cls className base attributes =>
      cases set
      exact .cls className base attributes _
    | _ => cases set
  · exact .ofPrepares (.inspect _)

@[grind ←] theorem prepares_callableMethod (obj : Value) (name : String) :
    Prepares (callableMethod obj name) := by
  grind [callableMethod]

/-! ## Exceptions -/

@[grind ←] theorem prepares_newException (kind : ErrorKind) (args : List Value) :
    Prepares (newException kind args) := by
  have made : ∀ message, Prepares (alloc (.exception kind message)) :=
    fun _ => .alloc fun _ => trivial
  cases args <;> simp only [newException] <;> grind

theorem prepares_caught (e : Failure) : Prepares (caught e) := by
  unfold caught
  split
  · exact .pure _
  · exact .alloc fun _ => trivial

theorem prepares_raise (v : Value) : Prepares (raise v : HeapM α) := by
  intro h
  obtain ⟨e, h', raised, spec⟩ := raise_spec (α := α) v h
  rw [after_of_error raised]
  cases spec with
  | exceptionClass _ made | cls _ _ made =>
    obtain rfl := congrArg Prod.snd made
    exact .single (.add trivial)
  | dangling | exception | instanceOf | refused => exact .refl

end HeapM

end RegisterVm
