import RegisterVm.Proofs.Heap.Soundness

/-!
# Which values are exceptions

A class derives from an exception class when its chain of bases ends there (`Heap.Derives`), and a
value is an exception when it is an exception object or an instance of such a class
(`Heap.ExceptionOf`). On a sound heap bases are older than the classes made from them, so
`Heap.isException` follows every chain to its end and decides this (`Heap.isException_spec`).

A class or an instance that derives from no exception class is `Heap.Stray`: it is no exception, but
raising takes it.

What a value stores is looked up by `Heap.Stores.view`, and stays when objects are added
(`Heap.Enlarges`).
-/

namespace RegisterVm

namespace Heap

/-- The chain of bases of a class ends in the exception class of `kind`. -/
inductive Derives (h : Heap) (kind : ErrorKind) : Handle → Prop
  | itself {c : Handle} : h.object? c = some (.exceptionClass kind) → Derives h kind c
  | base {c b : Handle} {name : String} {attributes : Bindings} :
    h.object? c = some (.cls name (some b) attributes) → Derives h kind b → Derives h kind c

/-- A value is an exception of `kind`: an exception object, or an instance of a class that derives
from the exception class. -/
inductive ExceptionOf (h : Heap) (kind : ErrorKind) (v : Value) : Prop
  | exception {message : String} : h.Stores v (.exception kind message) → ExceptionOf h kind v
  | instanceOf {c : Handle} {attributes : Bindings} : h.Stores v (.instanceOf c attributes) →
    h.Derives kind c → ExceptionOf h kind v

/-- A value is an exception. -/
def Exceptional (h : Heap) (v : Value) : Prop := ∃ kind, h.ExceptionOf kind v

/-- A class that derives from no exception class, or an instance of one. -/
inductive Stray (h : Heap) (v : Value) : Prop
  | cls {c : Handle} {name : String} {base : Option Handle} {attributes : Bindings} :
    v = .object c → h.object? c = some (.cls name base attributes) →
    (∀ kind, ¬h.Derives kind c) → Stray h v
  | instanceOf {c : Handle} {attributes : Bindings} : h.Stores v (.instanceOf c attributes) →
    (∀ kind, ¬h.Derives kind c) → Stray h v

/-- A value that a raise takes. -/
def Raisable (h : Heap) (v : Value) : Prop := ∃ o, h.Stores v o ∧ o.raisable = true

variable {functions : Nat} {h h' : Heap} {kind : ErrorKind}

/-! ## Objects of values -/

theorem Stores.view {v : Value} {o : Object} (stored : h.Stores v o) : h.view v = .ok (some o) := by
  obtain ⟨handle, rfl, found⟩ := stored
  simp only [Heap.view, get, found]
  rfl

theorem view_object {handle : Handle} {o : Object} (found : h.object? handle = some o) :
    h.view (.object handle) = .ok (some o) :=
  Stores.view ⟨handle, rfl, found⟩

theorem stores_of_view {v : Value} {o : Object} (viewed : h.view v = .ok (some o)) :
    h.Stores v o :=
  h.gives_view v _ viewed o rfl

/-- A value has one object at most. -/
theorem Stores.unique {v : Value} {o o' : Object} (stored : h.Stores v o)
    (stored' : h.Stores v o') : o = o' := by
  have same := stored.view.symm.trans stored'.view
  exact Option.some.inj (Except.ok.inj same)

theorem exists_object {handle : Handle} (inside : handle.index.toNat < h.size) :
    ∃ o, h.object? handle = some o :=
  ⟨_, Array.getElem?_eq_getElem inside⟩

/-- A value of the heap has one of its objects or none. -/
theorem view_of_has {v : Value} (has : h.Has v) :
    h.view v = .ok none ∨ ∃ o, h.view v = .ok (some o) := by
  cases v with
  | object handle =>
    obtain ⟨o, found⟩ := exists_object has
    exact .inr ⟨o, view_object found⟩
  | _ => exact .inl rfl

theorem stores_alloc (h : Heap) (o : Object) (room : h.size < 0x100000000) :
    (h.alloc o).2.Stores (.object (h.alloc o).1) o :=
  ⟨_, rfl, h.object?_alloc o room⟩

/-! ## New objects -/

/-- A heap with more objects, which come after the old ones. -/
structure Enlarges (h h' : Heap) : Prop where
  objects : ∃ new, h'.objects = h.objects ++ new
  interned : h'.interned = h.interned

namespace Enlarges

theorem refl (h : Heap) : h.Enlarges h :=
  ⟨⟨#[], by simp⟩, rfl⟩

theorem trans {h₁ h₂ : Heap} (first : h.Enlarges h₁) (second : h₁.Enlarges h₂) :
    h.Enlarges h₂ := by
  obtain ⟨⟨new, objects⟩, interned⟩ := first
  obtain ⟨⟨new', objects'⟩, interned'⟩ := second
  exact ⟨⟨new ++ new', by rw [objects', objects, Array.append_assoc]⟩, interned'.trans interned⟩

theorem alloc (h : Heap) (o : Object) : h.Enlarges (h.alloc o).2 :=
  ⟨⟨#[o], Array.push_eq_append⟩, rfl⟩

variable {v : Value} {o : Object}

/-- The old objects stay where and as they are. -/
theorem object? (enlarges : h.Enlarges h') {c : Handle} (found : h.object? c = some o) :
    h'.object? c = some o := by
  obtain ⟨new, objects⟩ := enlarges.objects
  rw [Heap.object?, objects, Array.getElem?_append_left (lt_of_object? found)]
  exact found

theorem stores (enlarges : h.Enlarges h') (stored : h.Stores v o) : h'.Stores v o := by
  obtain ⟨c, rfl, found⟩ := stored
  exact ⟨c, rfl, enlarges.object? found⟩

theorem integer? (enlarges : h.Enlarges h') {k : Int} (integer : h.integer? v = some k) :
    h'.integer? v = some k := by
  cases v with
  | object c =>
    simp only [Heap.integer?] at integer ⊢
    split at integer <;> cases integer
    rename_i found
    rw [enlarges.object? found]
  | _ => exact integer

end Enlarges

/-! ## Chains of bases -/

/-- One class of a chain. -/
theorem exceptionBaseWithin_succ {c : Handle} {o : Object} (found : h.object? c = some o)
    (bases : Nat) : h.exceptionBaseWithin (bases + 1) (some c) =
      match o with
      | .cls _ base _ => h.exceptionBaseWithin bases base
      | .exceptionClass kind => .ok (some kind)
      | _ => .ok none := by
  simp only [exceptionBaseWithin, get, found, Bind.bind, Except.bind]
  cases o <;> rfl

theorem exceptionBaseWithin_none (bases : Nat) : h.exceptionBaseWithin bases none = .ok none := by
  cases bases <;> rfl

/-- A chain that is found to end in an exception class does. -/
theorem derives_of_exceptionBaseWithin {bases : Nat} {c : Handle}
    (found : h.exceptionBaseWithin bases (some c) = .ok (some kind)) : h.Derives kind c := by
  induction bases generalizing c with
  | zero => cases found
  | succ bases ih =>
    cases stored : h.object? c with
    | none =>
      simp only [exceptionBaseWithin, get, stored, Bind.bind, Except.bind] at found
      cases found
    | some o =>
      rw [exceptionBaseWithin_succ stored] at found
      cases o with
      | exceptionClass kind' =>
        obtain rfl : kind' = kind := Option.some.inj (Except.ok.inj found)
        exact .itself stored
      | cls name base attributes =>
        cases base with
        | none =>
          have ended : h.exceptionBaseWithin bases none = .ok (some kind) := found
          rw [exceptionBaseWithin_none] at ended
          cases ended
        | some b => exact .base stored (ih found)
      | _ => cases found

/-- A chain is followed to its end. -/
theorem Derives.exceptionBaseWithin (sound : h.Sound functions) {c : Handle}
    (derives : h.Derives kind c) {bases : Nat} (enough : c.index.toNat < bases) :
    h.exceptionBaseWithin bases (some c) = .ok (some kind) := by
  induction derives generalizing bases with
  | itself found =>
    obtain ⟨bases, rfl⟩ := Nat.exists_eq_add_one_of_ne_zero (Nat.ne_zero_of_lt enough)
    rw [exceptionBaseWithin_succ found]
  | base found _ ih =>
    obtain ⟨bases, rfl⟩ := Nat.exists_eq_add_one_of_ne_zero (Nat.ne_zero_of_lt enough)
    rw [exceptionBaseWithin_succ found]
    have older := (sound.at found).1 _ rfl
    exact ih (by omega)

/-- Following the chain of a class of the heap meets no missing class. -/
theorem exists_exceptionBaseWithin (sound : h.Sound functions) (bases : Nat) {c : Handle}
    (inside : c.index.toNat < h.size) : ∃ r, h.exceptionBaseWithin bases (some c) = .ok r := by
  induction bases generalizing c with
  | zero => exact ⟨none, rfl⟩
  | succ bases ih =>
    obtain ⟨o, found⟩ := exists_object inside
    rw [exceptionBaseWithin_succ found]
    cases o with
    | cls name base attributes =>
      cases base with
      | none => exact ⟨none, exceptionBaseWithin_none bases⟩
      | some b => exact ih (Nat.lt_trans ((sound.at found).1 b rfl) inside)
    | _ => exact ⟨_, rfl⟩

/-- The kind at the end of the chain of a class. -/
theorem exceptionBase_spec (sound : h.Sound functions) {c : Handle}
    (inside : c.index.toNat < h.size) :
    ∃ r, h.exceptionBaseWithin (h.size + 1) (some c) = .ok r ∧
      ∀ kind, r = some kind ↔ h.Derives kind c := by
  obtain ⟨r, ended⟩ := exists_exceptionBaseWithin sound (h.size + 1) inside
  refine ⟨r, ended, fun kind => ⟨?_, fun derives => ?_⟩⟩
  · rintro rfl
    exact derives_of_exceptionBaseWithin ended
  · have followed := derives.exceptionBaseWithin sound (Nat.lt_succ_of_lt inside)
    exact Except.ok.inj (ended.symm.trans followed)

/-- A class of the heap derives from the same exception class when the heap has grown. -/
theorem Grows.derives_iff (grows : h.Grows h') (sound : h.Sound functions) {c : Handle}
    (inside : c.index.toNat < h.size) : h'.Derives kind c ↔ h.Derives kind c := by
  constructor
  · intro derives
    induction derives with
    | itself found =>
      obtain ⟨o, old⟩ := exists_object inside
      obtain ⟨o', now, becomes⟩ := grows.object _ o old
      obtain rfl := Option.some.inj (now.symm.trans found)
      cases becomes
      exact .itself old
    | base found _ ih =>
      obtain ⟨o, old⟩ := exists_object inside
      obtain ⟨o', now, becomes⟩ := grows.object _ o old
      obtain rfl := Option.some.inj (now.symm.trans found)
      cases becomes with
      | same | cls => exact .base old (ih (Nat.lt_trans ((sound.at old).1 _ rfl) inside))
  · intro derives
    induction derives with
    | itself found =>
      obtain ⟨o', now, becomes⟩ := grows.object _ _ found
      cases becomes
      exact .itself now
    | base found _ ih =>
      have older := (sound.at found).1 _ rfl
      obtain ⟨o', now, becomes⟩ := grows.object _ _ found
      cases becomes with
      | same | cls => exact .base now (ih (Nat.lt_trans older inside))

/-! ## Exceptions -/

/-- **Whether a value is an exception of a class is always decided**, by the end of the chain of its
class. -/
theorem isException_spec (sound : h.Sound functions) {v : Value} (has : h.Has v)
    (kind : ErrorKind) : ∃ t, h.isException v kind = .ok t ∧
      (t = true ↔ ∃ other, h.ExceptionOf other v ∧ kind.takesIn other = true) := by
  have decided : ∀ {t : Bool}, h.isException v kind = .ok t →
      (t = true ↔ ∃ other, h.ExceptionOf other v ∧ kind.takesIn other = true) →
      ∃ t, h.isException v kind = .ok t ∧
        (t = true ↔ ∃ other, h.ExceptionOf other v ∧ kind.takesIn other = true) :=
    fun eq iff => ⟨_, eq, iff⟩
  rcases view_of_has has with viewed | ⟨o, viewed⟩
  · refine decided (t := false) (by simp only [isException, viewed]; rfl) ?_
    refine ⟨fun wrong => (by cases wrong), ?_⟩
    rintro ⟨other, ⟨stored⟩ | ⟨stored, -⟩, -⟩ <;> cases viewed.symm.trans stored.view
  · have stored := stores_of_view viewed
    have only : ∀ {o' : Object}, h.Stores v o' → o' = o := fun other => other.unique stored
    cases o with
    | exception other message =>
      refine decided (t := kind.takesIn other) (by simp only [isException, viewed]; rfl) ?_
      refine ⟨fun takes => ⟨other, .exception stored, takes⟩, ?_⟩
      rintro ⟨other', ⟨stored'⟩ | ⟨stored', -⟩, takes⟩ <;> cases only stored'
      exact takes
    | instanceOf c attributes =>
      obtain ⟨r, ended, derives⟩ := exceptionBase_spec sound (sound.stored stored).1
      refine decided (t := r.any kind.takesIn) ?_ ?_
      · simp only [isException, viewed, Bind.bind, Except.bind, ended]
        rfl
      · rw [Option.any_eq_true]
        constructor
        · rintro ⟨other, rfl, takes⟩
          exact ⟨other, .instanceOf stored ((derives other).mp rfl), takes⟩
        · rintro ⟨other, ⟨stored'⟩ | ⟨stored', derived⟩, takes⟩ <;> cases only stored'
          exact ⟨other, (derives other).mpr derived, takes⟩
    | _ =>
      refine decided (t := false) (by simp only [isException, viewed]; rfl) ?_
      refine ⟨fun wrong => (by cases wrong), ?_⟩
      rintro ⟨other, ⟨stored'⟩ | ⟨stored', -⟩, -⟩ <;> cases only stored'

/-- Every exception belongs to `Exception`. -/
theorem isException_uncaught (sound : h.Sound functions) {v : Value} (has : h.Has v) :
    ∃ t, h.isException v .uncaughtException = .ok t ∧ (t = true ↔ h.Exceptional v) := by
  obtain ⟨t, eq, iff⟩ := isException_spec sound has .uncaughtException
  refine ⟨t, eq, iff.trans ⟨?_, ?_⟩⟩
  · rintro ⟨kind, exceptional, -⟩
    exact ⟨kind, exceptional⟩
  · rintro ⟨kind, exceptional⟩
    exact ⟨kind, exceptional, rfl⟩

/-- An instance is an exception when its class derives from an exception class. -/
theorem Stores.exceptional_instanceOf {v : Value} {c : Handle} {attributes : Bindings}
    (stored : h.Stores v (.instanceOf c attributes)) :
    h.Exceptional v ↔ ∃ kind, h.Derives kind c := by
  constructor
  · rintro ⟨kind, ⟨stored'⟩ | ⟨stored', derives⟩⟩ <;> cases stored'.unique stored
    exact ⟨kind, derives⟩
  · rintro ⟨kind, derives⟩
    exact ⟨kind, .instanceOf stored derives⟩

/-- An instance is stray when its class derives from no exception class. -/
theorem Stores.stray_instanceOf {v : Value} {c : Handle} {attributes : Bindings}
    (stored : h.Stores v (.instanceOf c attributes)) :
    h.Stray v ↔ ∀ kind, ¬h.Derives kind c := by
  constructor
  · rintro (⟨rfl, found, -⟩ | ⟨stored', free⟩)
    · cases stored.unique ⟨_, rfl, found⟩
    · cases stored'.unique stored
      exact free
  · exact .instanceOf stored

/-- A class is stray when it derives from no exception class. -/
theorem stray_cls {c : Handle} {name : String} {base : Option Handle} {attributes : Bindings}
    (found : h.object? c = some (.cls name base attributes)) :
    h.Stray (.object c) ↔ ∀ kind, ¬h.Derives kind c := by
  constructor
  · rintro (⟨same, -, free⟩ | ⟨stored, -⟩)
    · cases same
      exact free
    · cases stored.unique ⟨c, rfl, found⟩
  · exact .cls rfl found

/-- What is no class and no instance is not stray. -/
theorem Stores.not_stray {v : Value} {o : Object} (stored : h.Stores v o)
    (cls : ∀ name base attributes, o ≠ .cls name base attributes)
    (instanceOf : ∀ c attributes, o ≠ .instanceOf c attributes) : ¬h.Stray v := by
  rintro (⟨rfl, found, -⟩ | ⟨stored', -⟩)
  · exact cls _ _ _ (stored.unique ⟨_, rfl, found⟩)
  · exact instanceOf _ _ (stored.unique stored')

theorem Stray.raisable {v : Value} (stray : h.Stray v) : h.Raisable v := by
  rcases stray with ⟨rfl, found, -⟩ | ⟨stored, -⟩
  · exact ⟨_, ⟨_, rfl, found⟩, rfl⟩
  · exact ⟨_, stored, rfl⟩

end Heap

end RegisterVm
