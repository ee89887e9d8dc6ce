import RegisterVm.Proofs.Heap.Failure

/-!
# Sound heaps and how they grow

A heap is `Heap.Sound` when every handle stored in it is that of an object, a tuple, class, instance
or method refers to older objects only, every integer object is no word and every function object is
one of the loaded functions. It `Heap.Grows` into another when objects are added and the old ones
keep their handles, their types and all of their contents but items, entries, attributes and the
state of iterators (`Object.Becomes`).

An operation `HeapM.Keeps` this from a heap on when it makes sound heaps grow into sound heaps, also
when it fails. The predicate is closed under sequencing, so each operation needs the lemmas of those
it is made of.
-/

namespace RegisterVm

/-! ## Values and objects -/

/-- The object of a value, if it has one, is among the first `size` objects. -/
def Value.Within (size : Nat) : Value → Prop
  | .object handle => handle.index.toNat < size
  | _ => True

namespace Value

theorem Within.mono {size size' : Nat} (le : size ≤ size') {v : Value} (h : v.Within size) :
    v.Within size' := by
  cases v with
  | object handle => exact Nat.lt_of_lt_of_le h le
  | _ => trivial

@[simp] theorem within_none (size : Nat) : Value.none.Within size := trivial

@[simp] theorem within_bool (size : Nat) (b : Bool) : (Value.bool b).Within size := trivial

@[simp] theorem within_int (size : Nat) (i : Int64) : (Value.int i).Within size := trivial

@[simp] theorem within_float (size : Nat) (x : Float) : (Value.float x).Within size := trivial

end Value

namespace Bindings

/-- Every value of some bindings is among the first `size` objects. -/
def Within (size : Nat) (bs : Bindings) : Prop := ∀ b ∈ bs, b.2.Within size

theorem mem_of_get? {name : String} {bs : Bindings} {v : Value} (h : bs.get? name = some v) :
    ∃ b ∈ bs, b.2 = v := by
  induction bs with
  | nil => cases h
  | cons b bs ih =>
    simp only [get?] at h
    split at h
    · cases h
      exact ⟨b, List.mem_cons_self, rfl⟩
    · obtain ⟨c, hc, value⟩ := ih h
      exact ⟨c, List.mem_cons_of_mem b hc, value⟩

variable {size : Nat} {bs : Bindings}

theorem Within.get? (h : bs.Within size) {name : String} {v : Value}
    (found : bs.get? name = some v) : v.Within size := by
  obtain ⟨b, hb, rfl⟩ := mem_of_get? found
  exact h b hb

theorem Within.set (h : bs.Within size) (name : String) {v : Value} (hv : v.Within size) :
    (bs.set name v).Within size := by
  induction bs with
  | nil => simpa [Bindings.set, Within] using hv
  | cons b bs ih =>
    have tail := ih fun c hc => h c (List.mem_cons_of_mem b hc)
    intro c hc
    simp only [Bindings.set] at hc
    split at hc
    · rcases List.mem_cons.mp hc with rfl | hc
      · exact hv
      · exact h c (List.mem_cons_of_mem b hc)
    · rcases List.mem_cons.mp hc with rfl | hc
      · exact h _ List.mem_cons_self
      · exact tail c hc

end Bindings

/-- The keys and values of a dict are among the first `size` objects. -/
def Dict.Within (size : Nat) (d : Dict) : Prop :=
  ∀ e ∈ d.entries, e.1.Within size ∧ e.2.Within size

def KeySet.Within (size : Nat) (s : KeySet) : Prop := ∀ v ∈ s.items, v.Within size

def IteratorState.Sound (size : Nat) : IteratorState → Prop
  | sequence source _ | chars source _ => source.index.toNat < size
  | range rest => rest.step ≠ 0
  | values rest => ∀ v ∈ rest, v.Within size

namespace Object

/-- What a heap of `size` objects may have at position `age` when `functions` functions are loaded.
What an object was made with is older than the object. -/
def Sound (functions size age : Nat) : Object → Prop
  | str _ | builtin _ | exceptionClass _ | exception _ _ => True
  | big n => Word.fits n = false
  | list items => ∀ v ∈ items, v.Within size
  | tuple items => ∀ v ∈ items, v.Within age
  | dict d => d.Within size
  | set s => s.Within size
  | range r => r.step ≠ 0
  | iterator state => state.Sound size
  | function id _ => id < functions
  | cls _ base attributes => (∀ b ∈ base, b.index.toNat < age) ∧ attributes.Within size
  | instanceOf c attributes => c.index.toNat < age ∧ attributes.Within size
  | boundMethod receiver method => receiver.Within age ∧ method.Within age
  | builtinMethod receiver _ => receiver.Within age

theorem Sound.mono {functions functions' size size' age age' : Nat} {o : Object}
    (h : o.Sound functions size age) (more : functions ≤ functions') (le : size ≤ size')
    (older : age ≤ age') : o.Sound functions' size' age' := by
  have within : ∀ {v : Value}, v.Within size → v.Within size' := Value.Within.mono le
  cases o with
  | list items | set s => exact fun v hv => within (h v hv)
  | tuple items => exact fun v hv => (h v hv).mono older
  | dict d => exact fun e he => ⟨within (h e he).1, within (h e he).2⟩
  | iterator state =>
    cases state with
    | sequence source position | chars source position => exact Nat.lt_of_lt_of_le h le
    | values rest => exact fun v hv => within (h v hv)
    | range rest => exact h
  | function id name => exact Nat.lt_of_lt_of_le h more
  | cls name base attributes =>
    exact ⟨fun b hb => Nat.lt_of_lt_of_le (h.1 b hb) older, fun b hb => within (h.2 b hb)⟩
  | instanceOf c attributes => exact ⟨Nat.lt_of_lt_of_le h.1 older, fun b hb => within (h.2 b hb)⟩
  | boundMethod receiver method => exact ⟨h.1.mono older, h.2.mono older⟩
  | builtinMethod receiver name => exact Value.Within.mono older h
  | _ => exact h

/-- What an object may become: only items, entries, attributes and iterators change. -/
inductive Becomes : Object → Object → Prop
  | same (o : Object) : Becomes o o
  | list (items items' : Array Value) : Becomes (list items) (list items')
  | dict (d d' : Dict) : Becomes (dict d) (dict d')
  | set (s s' : KeySet) : Becomes (set s) (set s')
  | iterator (state state' : IteratorState) : Becomes (iterator state) (iterator state')
  | cls (name : String) (base : Option Handle) (attributes attributes' : Bindings) :
    Becomes (cls name base attributes) (cls name base attributes')
  | instanceOf (c : Handle) (attributes attributes' : Bindings) :
    Becomes (instanceOf c attributes) (instanceOf c attributes')

theorem Becomes.trans {o₁ o₂ o₃ : Object} (h : o₁.Becomes o₂) (h' : o₂.Becomes o₃) :
    o₁.Becomes o₃ := by
  cases h with
  | same => exact h'
  | list | dict | set | iterator | cls | instanceOf => cases h' <;> constructor

end Object

/-! ## Heaps -/

namespace Heap

/-- A value that is no object or one of an object of the heap. -/
abbrev Has (h : Heap) (v : Value) : Prop := v.Within h.size

/-- A value is an object of the heap. -/
def Stores (h : Heap) (v : Value) (o : Object) : Prop :=
  ∃ handle, v = .object handle ∧ h.object? handle = some o

/-- `h'` is what `h` has become: objects were added and old ones changed as they may. -/
structure Grows (h h' : Heap) : Prop where
  size : h.size ≤ h'.size
  object : ∀ handle o, h.object? handle = some o →
    ∃ o', h'.object? handle = some o' ∧ o.Becomes o'
  interned : ∀ (s : String) handle, h.interned[s]? = some handle → h'.interned[s]? = some handle

/-- Every object is sound in its place, and shared strings are objects. -/
structure Sound (functions : Nat) (h : Heap) : Prop where
  object : ∀ (i : Nat) (o : Object), h.objects[i]? = some o → o.Sound functions h.size i
  interned : ∀ (s : String) handle, h.interned[s]? = some handle → handle.index.toNat < h.size

namespace Grows

theorem refl (h : Heap) : h.Grows h :=
  ⟨Nat.le_refl _, fun _ o ho => ⟨o, ho, .same o⟩, fun _ _ found => found⟩

theorem trans {h₁ h₂ h₃ : Heap} (first : h₁.Grows h₂) (second : h₂.Grows h₃) : h₁.Grows h₃ := by
  refine ⟨Nat.le_trans first.size second.size, fun handle o ho => ?_,
    fun s handle found => second.interned s handle (first.interned s handle found)⟩
  obtain ⟨o', ho', becomes⟩ := first.object handle o ho
  obtain ⟨o'', ho'', becomes'⟩ := second.object handle o' ho'
  exact ⟨o'', ho'', becomes.trans becomes'⟩

/-- An object of the heap stays one and changes as it may. -/
theorem stores {h h' : Heap} (grows : h.Grows h') {v : Value} {o : Object} (stored : h.Stores v o) :
    ∃ o', h'.Stores v o' ∧ o.Becomes o' := by
  obtain ⟨handle, rfl, ho⟩ := stored
  obtain ⟨o', ho', becomes⟩ := grows.object handle o ho
  exact ⟨o', ⟨handle, rfl, ho'⟩, becomes⟩

/-- A value stays one of the heap. -/
theorem has {h h' : Heap} (grows : h.Grows h') {v : Value} (hv : h.Has v) : h'.Has v :=
  hv.mono grows.size

end Grows

section Objects

variable {functions : Nat} {h : Heap}

theorem lt_of_object? {handle : Handle} {o : Object} (ho : h.object? handle = some o) :
    handle.index.toNat < h.size :=
  (Array.getElem?_eq_some_iff.mp ho).1

theorem Sound.at (sound : h.Sound functions) {handle : Handle} {o : Object}
    (ho : h.object? handle = some o) : o.Sound functions h.size handle.index.toNat :=
  sound.object _ o ho

theorem Stores.has {v : Value} {o : Object} (stored : h.Stores v o) : h.Has v := by
  obtain ⟨handle, rfl, ho⟩ := stored
  exact lt_of_object? ho

/-- What an object refers to is in the heap. -/
theorem Sound.stored (sound : h.Sound functions) {v : Value} {o : Object}
    (stored : h.Stores v o) : o.Sound functions h.size h.size := by
  obtain ⟨handle, -, ho⟩ := stored
  exact (sound.at ho).mono (Nat.le_refl _) (Nat.le_refl _) (Nat.le_of_lt (lt_of_object? ho))

/-- More functions may be loaded. -/
theorem Sound.more (sound : h.Sound functions) {functions' : Nat} (more : functions ≤ functions') :
    h.Sound functions' :=
  ⟨fun i o ho => (sound.object i o ho).mono more (Nat.le_refl _) (Nat.le_refl _),
    sound.interned⟩

theorem sound_empty (functions : Nat) : empty.Sound functions where
  object i o ho := by simp [empty] at ho
  interned s handle found := by simp [empty] at found

/-! ### Adding an object -/

@[simp] theorem size_alloc (h : Heap) (o : Object) : (h.alloc o).2.size = h.size + 1 := by
  simp [alloc, size]

theorem index_alloc_lt (h : Heap) (o : Object) : (h.alloc o).1.index.toNat < h.size + 1 := by
  simp only [alloc, size, UInt32.toNat_ofNat']
  omega

/-- A new object is one of the heap. -/
theorem has_alloc (h : Heap) (o : Object) : (h.alloc o).2.Has (.object (h.alloc o).1) := by
  rw [Has, size_alloc]
  exact h.index_alloc_lt o

/-- The objects there are stay. -/
theorem kept_alloc {handle : Handle} {o : Object} (found : h.object? handle = some o)
    (new : Object) : (h.alloc new).2.object? handle = some o :=
  (h.object?_of_lt new handle (lt_of_object? found)).trans found

theorem grows_alloc (h : Heap) (o : Object) : h.Grows (h.alloc o).2 where
  size := by simp
  object _ old found := ⟨old, kept_alloc found o, .same old⟩
  interned s handle found := found

theorem Sound.alloc (sound : h.Sound functions) {o : Object}
    (ho : o.Sound functions (h.size + 1) h.size) : (h.alloc o).2.Sound functions where
  object i old found := by
    simp only [Heap.alloc, Array.getElem?_push] at found
    rw [size_alloc]
    split at found
    · cases found
      rename_i same
      exact same ▸ ho
    · exact (sound.object i old found).mono (Nat.le_refl _) (Nat.le_succ _) (Nat.le_refl _)
  interned s handle found := by
    rw [size_alloc]
    exact Nat.lt_succ_of_lt (sound.interned s handle found)

/-! ### Changing an object -/

@[simp] theorem size_modify (handle : Handle) (f : Object → Object) (h : Heap) :
    (h.modify handle f).size = h.size := by
  simp [modify, size]

theorem getElem?_modify (handle : Handle) (f : Object → Object) (h : Heap) (i : Nat) :
    (h.modify handle f).objects[i]? =
      if i = handle.index.toNat then h.objects[i]?.map f else h.objects[i]? := by
  simp only [modify, Array.getElem?_modify, eq_comm (a := i)]

/-- A change of an object that may be made. -/
structure Allows (functions : Nat) (h : Heap) (handle : Handle) (f : Object → Object) : Prop where
  becomes : ∀ o, h.object? handle = some o → o.Becomes (f o)
  sound : ∀ o, h.object? handle = some o → (f o).Sound functions h.size handle.index.toNat

theorem Allows.grows {handle : Handle} {f : Object → Object} (ha : h.Allows functions handle f) :
    h.Grows (h.modify handle f) where
  size := by simp
  object other o found := by
    simp only [object?, getElem?_modify] at found ⊢
    split
    · rename_i same
      rw [found]
      refine ⟨f o, rfl, ha.becomes o ?_⟩
      rw [object?, ← same, found]
    · exact ⟨o, found, .same o⟩
  interned s handle found := found

theorem Sound.modify (sound : h.Sound functions) {handle : Handle} {f : Object → Object}
    (ha : h.Allows functions handle f) : (h.modify handle f).Sound functions where
  object i o found := by
    rw [getElem?_modify] at found
    rw [size_modify]
    split at found
    · rename_i same
      obtain ⟨old, ho, rfl⟩ := Option.map_eq_some_iff.mp found
      subst same
      exact ha.sound old ho
    · exact sound.object i o found
  interned s handle found := by
    rw [size_modify]
    exact sound.interned s handle found

end Objects

end Heap

/-! ## Reading -/

namespace Outcome

variable {α β : Type}

/-- What reading gives has a property. -/
def Gives (o : Outcome α) (post : α → Prop) : Prop := ∀ a, o = .ok a → post a

namespace Gives

variable {o : Outcome α} {post post' : α → Prop}

theorem ok {a : α} (ha : post a) : Gives (.ok a) post := by
  rintro b ⟨⟩
  exact ha

theorem pure {a : α} (ha : post a) : Gives (pure a) post := ok ha

theorem refuse (fault : Fault) : Gives (refuse fault) post := by
  rintro b ⟨⟩

theorem anything (o : Outcome α) : Gives o fun _ => True := fun _ _ => trivial

theorem bind {f : α → Outcome β} {last : β → Prop} (ho : Gives o post)
    (hf : ∀ a, post a → Gives (f a) last) : Gives (o >>= f) last := by
  intro b hb
  cases o with
  | ok a => exact hf a (ho a rfl) b hb
  | error e => cases hb

/-- Reading that nothing needs to be known about. -/
theorem after {f : α → Outcome β} {last : β → Prop} (hf : ∀ a, Gives (f a) last) :
    Gives (o >>= f) last :=
  (anything o).bind fun a _ => hf a

theorem foldlM {f : β → α → Outcome β} {post : β → Prop} {b : β} {as : List α} (hb : post b)
    (hf : ∀ b, post b → ∀ a ∈ as, Gives (f b a) post) : Gives (as.foldlM f b) post := by
  induction as generalizing b with
  | nil => exact pure hb
  | cons a as ih =>
    rw [List.foldlM_cons]
    exact (hf b hb a List.mem_cons_self).bind fun b hb =>
      ih hb fun b hb c hc => hf b hb c (List.mem_cons_of_mem a hc)

end Gives

end Outcome

namespace Heap

open Outcome (Gives)

/-- The object of a value. -/
theorem gives_get (h : Heap) (handle : Handle) :
    Gives (h.get handle) fun o => h.object? handle = some o := by
  unfold get
  split
  · rename_i found
    exact .ok found
  · exact .refuse _

theorem gives_view (h : Heap) (v : Value) :
    Gives (h.view v) fun r => ∀ o, r = some o → h.Stores v o := by
  cases v with
  | object handle =>
    intro r hr
    simp only [view] at hr
    cases got : h.get handle with
    | ok o =>
      rw [got] at hr
      cases hr
      rintro o' ⟨⟩
      exact ⟨handle, rfl, h.gives_get handle o got⟩
    | error e =>
      rw [got] at hr
      cases hr
  | _ => exact .ok fun o ho => by cases ho

end Heap

/-! ## Operations -/

namespace HeapM

variable {α β : Type}

/-- From the heap `w` on an operation makes sound heaps grow into sound heaps, and its results
satisfy `post` there. A failure carries an exception of the heap, if any. -/
structure Keeps (functions : Nat) (w : Heap) (operation : HeapM α) (post : Heap → α → Prop) :
    Prop where
  ok : ∀ h a h', w.Grows h → h.Sound functions → operation h = .ok a h' →
    h.Grows h' ∧ h'.Sound functions ∧ post h' a
  error : ∀ h e h', w.Grows h → h.Sound functions → operation h = .error e h' →
    h.Grows h' ∧ h'.Sound functions ∧ ∀ v, e.exception = some v → h'.Has v

namespace Keeps

variable {functions : Nat} {w : Heap} {operation : HeapM α} {post post' : Heap → α → Prop}

/-- An operation keeps what it keeps from an earlier heap on. -/
theorem later (ho : Keeps functions w operation post) {w' : Heap} (grows : w.Grows w') :
    Keeps functions w' operation post :=
  ⟨fun h a h' g => ho.ok h a h' (grows.trans g), fun h e h' g => ho.error h e h' (grows.trans g)⟩

theorem mono (ho : Keeps functions w operation post)
    (hp : ∀ h a, w.Grows h → h.Sound functions → post h a → post' h a) :
    Keeps functions w operation post' := by
  refine ⟨fun h a h' g s ran => ?_, ho.error⟩
  obtain ⟨grows, sound, ha⟩ := ho.ok h a h' g s ran
  exact ⟨grows, sound, hp h' a (g.trans grows) sound ha⟩

theorem pure {a : α} (ha : ∀ h, w.Grows h → h.Sound functions → post h a) :
    Keeps functions w (pure a) post where
  ok h a' h' g s ran := by
    cases ran
    exact ⟨.refl h, s, ha h g s⟩
  error h e h' g s ran := by cases ran

theorem bind {f : α → HeapM β} {last : Heap → β → Prop} (ho : Keeps functions w operation post)
    (hf : ∀ w' a, w.Grows w' → w'.Sound functions → post w' a → Keeps functions w' (f a) last) :
    Keeps functions w (operation >>= f) last where
  ok h b h' g s ran := by
    simp only [Bind.bind, EStateM.bind] at ran
    split at ran
    · rename_i a h₁ first
      obtain ⟨grows, sound, ha⟩ := ho.ok h a h₁ g s first
      obtain ⟨grows', rest⟩ :=
        (hf h₁ a (g.trans grows) sound ha).ok h₁ b h' (.refl h₁) sound ran
      exact ⟨grows.trans grows', rest⟩
    · cases ran
  error h e h' g s ran := by
    simp only [Bind.bind, EStateM.bind] at ran
    split at ran
    · rename_i a h₁ first
      obtain ⟨grows, sound, ha⟩ := ho.ok h a h₁ g s first
      obtain ⟨grows', rest⟩ :=
        (hf h₁ a (g.trans grows) sound ha).error h₁ e h' (.refl h₁) sound ran
      exact ⟨grows.trans grows', rest⟩
    · rename_i failed
      cases ran
      exact ho.error h e h' g s failed

theorem map {f : α → β} {last : Heap → β → Prop} (ho : Keeps functions w operation post)
    (hf : ∀ h a, w.Grows h → h.Sound functions → post h a → last h (f a)) :
    Keeps functions w (f <$> operation) last where
  ok h b h' g s ran := by
    simp only [Functor.map, EStateM.map] at ran
    split at ran
    · rename_i a h₁ first
      cases ran
      obtain ⟨grows, sound, ha⟩ := ho.ok h a h' g s first
      exact ⟨grows, sound, hf _ a (g.trans grows) sound ha⟩
    · cases ran
  error h e h' g s ran := by
    simp only [Functor.map, EStateM.map] at ran
    split at ran
    · cases ran
    · rename_i failed
      cases ran
      exact ho.error h e h' g s failed

theorem fail (fault : Fault) : Keeps functions w (fail fault : HeapM α) post where
  ok h a h' g s ran := by cases ran
  error h e h' g s ran := by
    cases ran
    exact ⟨.refl h, s, fun v hv => by cases hv⟩

/-- Nothing is done after a fault. -/
theorem failBind (fault : Fault) (f : α → HeapM β) {last : Heap → β → Prop} :
    Keeps functions w (HeapM.fail fault >>= f) last :=
  have failed : Keeps functions w (HeapM.fail fault : HeapM α) fun _ _ => False := fail fault
  failed.bind fun _ _ _ _ impossible => impossible.elim

theorem get : Keeps functions w (get : HeapM Heap) fun h a => a = h where
  ok h a h' g s ran := by
    cases ran
    exact ⟨.refl h, s, rfl⟩
  error h e h' g s ran := by cases ran

/-- Reading the heap. -/
theorem inspect {f : Heap → Outcome α} (orderly : ∀ h, (f h).Orderly)
    (gives : ∀ h, w.Grows h → h.Sound functions → (f h).Gives (post h)) :
    Keeps functions w (inspect f) post where
  ok h a h' g s ran := by
    simp only [RegisterVm.inspect] at ran
    split at ran
    · rename_i read
      cases ran
      exact ⟨.refl _, s, gives _ g s a read⟩
    · cases ran
  error h e h' g s ran := by
    simp only [RegisterVm.inspect] at ran
    split at ran
    · cases ran
    · rename_i failed
      cases ran
      refine ⟨.refl _, s, fun v hv => ?_⟩
      rw [(orderly _ e failed).exception] at hv
      cases hv

/-- Reading that nothing needs to be known about. -/
theorem ask {f : Heap → Outcome α} (orderly : ∀ h, (f h).Orderly) :
    Keeps functions w (RegisterVm.inspect f) fun _ _ => True :=
  inspect orderly fun _ _ _ => .anything _

theorem view (v : Value) :
    Keeps functions w (view v) fun h r => ∀ o, r = some o → h.Stores v o :=
  inspect (fun h => h.orderly_view v) fun h _ _ => h.gives_view v

/-- A new object is sound when it is made of objects there are. -/
theorem alloc {o : Object}
    (ho : ∀ h, w.Grows h → h.Sound functions → o.Sound functions (h.size + 1) h.size) :
    Keeps functions w (alloc o) Heap.Has where
  ok h v h' g s ran := by
    cases ran
    exact ⟨h.grows_alloc o, s.alloc (ho h g s), h.has_alloc o⟩
  error h e h' g s ran := by cases ran

theorem allocText (s : String) : Keeps functions w (allocText s) Heap.Has :=
  alloc fun _ _ _ => trivial

theorem allocChars (cs : List Char) : Keeps functions w (allocChars cs) Heap.Has :=
  allocText _

theorem allocInteger (n : Int) : Keeps functions w (allocInteger n) Heap.Has := by
  unfold HeapM.allocInteger
  split
  · exact pure fun _ _ _ => trivial
  · rename_i none
    refine alloc fun _ _ _ => ?_
    simpa [Word.ofInt?, Object.Sound] using none

theorem modify {v : Value} {f : Object → Object}
    (hf : ∀ h handle, w.Grows h → h.Sound functions → v = .object handle →
      h.Allows functions handle f) :
    Keeps functions w (modify v f) fun _ _ => True where
  ok h a h' g s ran := by
    cases v with
    | object handle =>
      cases ran
      have allowed := hf h handle g s rfl
      exact ⟨allowed.grows, s.modify allowed, trivial⟩
    | _ =>
      cases ran
      exact ⟨.refl h, s, trivial⟩
  error h e h' g s ran := by cases v <;> cases ran

theorem intern (s : String) : Keeps functions w (intern s) Heap.Has where
  ok h v h' g sound ran := by
    simp only [HeapM.intern] at ran
    split at ran
    · rename_i found
      cases ran
      exact ⟨.refl h, sound, sound.interned s _ found⟩
    · rename_i absent
      cases ran
      have grows := h.grows_alloc (.str s)
      have sound' := sound.alloc (o := .str s) trivial
      have bound := h.has_alloc (.str s)
      refine ⟨⟨grows.size, grows.object, fun t handle found => ?_⟩,
        ⟨sound'.object, fun t handle found => ?_⟩, ?_⟩
      · rw [Std.HashMap.getElem?_insert]
        split
        · rename_i same
          rw [eq_of_beq same, found] at absent
          cases absent
        · exact found
      · rw [Std.HashMap.getElem?_insert] at found
        split at found
        · cases found
          exact bound
        · exact sound'.interned t handle found
      · exact bound
  error h e h' g s ran := by
    simp only [HeapM.intern] at ran
    split at ran <;> cases ran

theorem mapM {f : α → HeapM β} (last : Heap → β → Prop)
    (stable : ∀ (h h' : Heap) (b : β), h.Grows h' → last h b → last h' b) {as : List α}
    (hf : ∀ a ∈ as, Keeps functions w (f a) last) :
    Keeps functions w (as.mapM f) fun h bs => ∀ b ∈ bs, last h b := by
  induction as generalizing w with
  | nil => exact pure (by simp)
  | cons a as ih =>
    rw [List.mapM_cons]
    refine (hf a List.mem_cons_self).bind fun w₁ b g₁ _ hb =>
      (ih fun c hc => (hf c (List.mem_cons_of_mem a hc)).later g₁).bind fun w₂ bs g₂ _ hbs =>
        pure fun h g₃ _ => ?_
    intro c hc
    rcases List.mem_cons.mp hc with rfl | hc
    · exact stable _ _ c (g₂.trans g₃) hb
    · exact stable _ _ c g₃ (hbs c hc)

theorem foldlM {f : β → α → HeapM β} (last : Heap → β → Prop)
    (stable : ∀ (h h' : Heap) (b : β), h.Grows h' → last h b → last h' b) {as : List α} {b : β}
    (hb : last w b)
    (hf : ∀ w' b, w.Grows w' → last w' b → ∀ a ∈ as, Keeps functions w' (f b a) last) :
    Keeps functions w (as.foldlM f b) last := by
  induction as generalizing w b with
  | nil => exact pure fun h g _ => stable _ _ b g hb
  | cons a as ih =>
    rw [List.foldlM_cons]
    exact (hf w b (.refl w) hb a List.mem_cons_self).bind fun w₁ b₁ g₁ _ hb₁ =>
      ih hb₁ fun w₂ b₂ g₂ hb₂ c hc => hf w₂ b₂ (g₁.trans g₂) hb₂ c (List.mem_cons_of_mem a hc)

end Keeps

end HeapM

end RegisterVm
