import RegisterVm.Proofs.Heap.Changes
import RegisterVm.Proofs.Heap.Keys
import RegisterVm.Proofs.Heap.Lineage

/-!
# Walks without a bound

Following the bases of a class, keying a value through tuples and testing it against tuples of
classes have no depth limit. `Heap.BaseWalk`, `Heap.KeyWalk` and `Heap.InstanceWalk` are these
recursions as they are, ended by the heap alone and not by a number of steps. On a reachable heap
bases are older than their classes and items older than their tuples, so every walk ends, with the
answer of the function. Main statement: `Heap.Reachable.walks_end`.
-/

namespace RegisterVm

namespace Heap

variable {functions depth : Nat} {h : Heap} {kind : ErrorKind} {v cls : Value} {c : Handle}

theorem object?_of_get {o : Object} (got : h.get c = .ok o) : h.object? c = some o := by
  unfold get at got
  split at got
  · rename_i found
    cases got
    exact found
  · cases got

/-- A recursion that may look into a tuple may also look into its items, which are older. -/
theorem Sound.items_enough (sound : h.Sound functions) {items : Array Value}
    (found : h.object? c = some (.tuple items))
    (enough : h.Has (.object c) → (Value.object c).Within depth) :
    ∀ v ∈ items.toList, ∃ d, depth = d + 1 ∧ v.Within d := by
  intro v mem
  have within : c.index.toNat < depth := enough (lt_of_object? found)
  obtain ⟨d, rfl⟩ := Nat.exists_eq_add_one_of_ne_zero (Nat.ne_zero_of_lt within)
  exact ⟨d, rfl, within_of_tuple sound found within v (Array.mem_toList_iff.mp mem)⟩

/-! ## Bases -/

/-- The walk from a class along its bases. -/
inductive BaseWalk (h : Heap) : Option Handle → Outcome (Option ErrorKind) → Prop
  | ended : BaseWalk h none (.ok none)
  | lost {c : Handle} {e : Failure} : h.get c = .error e → BaseWalk h (some c) (.error e)
  | cls {c : Handle} {name : String} {base : Option Handle} {attributes : Bindings}
    {r : Outcome (Option ErrorKind)} : h.get c = .ok (.cls name base attributes) →
    BaseWalk h base r → BaseWalk h (some c) r
  | exceptionClass {c : Handle} {kind : ErrorKind} : h.get c = .ok (.exceptionClass kind) →
    BaseWalk h (some c) (.ok (some kind))
  | outside {c : Handle} {o : Object} : h.get c = .ok o →
    (∀ name base attributes, o ≠ .cls name base attributes) →
    (∀ kind, o ≠ .exceptionClass kind) → BaseWalk h (some c) (.ok none)

/-- The base of a class needs a step less than the class. -/
theorem Sound.base_enough (sound : h.Sound functions) {name : String} {base : Option Handle}
    {attributes : Bindings} (got : h.get c = .ok (.cls name base attributes)) {bases : Nat}
    (enough : c.index.toNat < bases + 1) : ∀ b ∈ base, b.index.toNat < bases := by
  intro b hb
  have older : b.index.toNat < c.index.toNat := (sound.at (object?_of_get got)).1 b hb
  exact Nat.lt_of_lt_of_le older (Nat.le_of_lt_succ enough)

/-- With as many steps as there are older objects the bases are followed to their end. -/
theorem baseWalk_within (sound : h.Sound functions) {bases : Nat} {start : Option Handle}
    (enough : ∀ c ∈ start, c.index.toNat < bases) :
    h.BaseWalk start (h.exceptionBaseWithin bases start) := by
  induction bases generalizing start with
  | zero =>
    cases start with
    | none => exact .ended
    | some c => exact absurd (enough c rfl) (Nat.not_lt_zero _)
  | succ bases ih =>
    cases start with
    | none => exact .ended
    | some c =>
      rw [exceptionBaseWithin]
      cases got : h.get c with
      | error e => exact .lost got
      | ok o =>
        cases o with
        | cls name base attributes => exact .cls got (ih (sound.base_enough got (enough c rfl)))
        | exceptionClass kind => exact .exceptionClass got
        | _ => exact .outside got (by simp) (by simp)

/-- A walk along bases ends where they are followed to with enough steps. -/
theorem BaseWalk.exceptionBaseWithin_eq (sound : h.Sound functions) {start : Option Handle}
    {r : Outcome (Option ErrorKind)} (walk : h.BaseWalk start r) {bases : Nat}
    (enough : ∀ c ∈ start, c.index.toNat < bases) : h.exceptionBaseWithin bases start = r := by
  induction bases generalizing start with
  | zero =>
    cases start with
    | none => cases walk; rfl
    | some c => exact absurd (enough c rfl) (Nat.not_lt_zero _)
  | succ bases ih =>
    cases walk with
    | ended => rfl
    | @outside c o got noClass noException =>
      rw [exceptionBaseWithin, got]
      cases o with
      | cls => exact absurd rfl (noClass _ _ _)
      | exceptionClass => exact absurd rfl (noException _)
      | _ => rfl
    | @cls c _ _ _ _ got rest =>
      rw [exceptionBaseWithin, got]
      exact ih rest (sound.base_enough got (enough c rfl))
    | lost got | exceptionClass got =>
      rw [exceptionBaseWithin, got]
      rfl

/-- Whether a value is an exception of the class of `kind`, for which the bases of its class are
followed to their end. -/
inductive ExceptionWalk (h : Heap) (kind : ErrorKind) (v : Value) : Outcome Bool → Prop
  | lost {e : Failure} : h.view v = .error e → ExceptionWalk h kind v (.error e)
  | exception {other : ErrorKind} {message : String} :
    h.view v = .ok (some (.exception other message)) →
    ExceptionWalk h kind v (.ok (kind.takesIn other))
  | instanceOf {c : Handle} {attributes : Bindings} {r : Outcome (Option ErrorKind)} :
    h.view v = .ok (some (.instanceOf c attributes)) → h.BaseWalk (some c) r →
    ExceptionWalk h kind v (r.map fun base => base.any kind.takesIn)
  | outside {o : Option Object} : h.view v = .ok o →
    (∀ other message, o ≠ some (.exception other message)) →
    (∀ c attributes, o ≠ some (.instanceOf c attributes)) → ExceptionWalk h kind v (.ok false)

/-- What `isException` does with an instance. -/
theorem isException_instanceOf {attributes : Bindings}
    (viewed : h.view v = .ok (some (.instanceOf c attributes))) :
    h.isException v kind =
      (h.exceptionBaseWithin (h.size + 1) (some c)).map fun base => base.any kind.takesIn := by
  simp only [isException, viewed, Bind.bind, Except.bind]
  cases h.exceptionBaseWithin (h.size + 1) (some c) <;> rfl

theorem Sound.class_enough (sound : h.Sound functions) {attributes : Bindings}
    (viewed : h.view v = .ok (some (.instanceOf c attributes))) :
    ∀ c' ∈ some c, c'.index.toNat < h.size + 1 := by
  rintro c' ⟨⟩
  exact Nat.lt_succ_of_lt (sound.stored (stores_of_view viewed)).1

/-- **The search for the exception class of a value ends** with the answer of `isException`. -/
theorem exceptionWalk_iff (sound : h.Sound functions) {r : Outcome Bool} :
    h.ExceptionWalk kind v r ↔ h.isException v kind = r := by
  constructor
  · intro walk
    cases walk with
    | lost viewed | exception viewed =>
      rw [isException, viewed]
      rfl
    | instanceOf viewed walk =>
      rw [isException_instanceOf viewed,
        walk.exceptionBaseWithin_eq sound (sound.class_enough viewed)]
    | @outside o viewed noException noInstance =>
      rw [isException, viewed]
      rcases o with _ | o
      · rfl
      · cases o with
        | exception => exact absurd rfl (noException _ _)
        | instanceOf => exact absurd rfl (noInstance _ _)
        | _ => rfl
  · rintro rfl
    cases viewed : h.view v with
    | error e =>
      rw [isException, viewed]
      exact .lost viewed
    | ok o =>
      rcases o with _ | o
      · rw [isException, viewed]
        exact .outside viewed (by simp) (by simp)
      · cases o with
        | instanceOf c attributes =>
          rw [isException_instanceOf viewed]
          exact .instanceOf viewed (baseWalk_within sound (sound.class_enough viewed))
        | exception other message =>
          rw [isException, viewed]
          exact .exception viewed
        | _ =>
          rw [isException, viewed]
          exact .outside viewed (by simp) (by simp)

/-! ## Keys -/

mutual

/-- The recursion that keys a value, through tuples nested in any depth. -/
inductive KeyWalk (h : Heap) : Value → Outcome HashKey → Prop
  | none : KeyWalk h .none (.ok .none)
  | bool (b : Bool) : KeyWalk h (.bool b) (.ok (.int (if b then 1 else 0)))
  | int (i : Int64) : KeyWalk h (.int i) (.ok (.int i))
  | float (x : Float) : KeyWalk h (.float x) (.ok (.ofFloat x))
  | lost {c : Handle} {e : Failure} : h.get c = .error e → KeyWalk h (.object c) (.error e)
  | str {c : Handle} {s : String} : h.get c = .ok (.str s) → KeyWalk h (.object c) (.ok (.str s))
  | big {c : Handle} {n : Int} : h.get c = .ok (.big n) → KeyWalk h (.object c) (.ok (.big n))
  | tuple {c : Handle} {items : Array Value} {r : Outcome HashKeys} :
    h.get c = .ok (.tuple items) → KeysWalk h items.toList r →
    KeyWalk h (.object c) (r.map .tuple)
  | list {c : Handle} {items : Array Value} : h.get c = .ok (.list items) →
    KeyWalk h (.object c) (refuse (.unhashable "list"))
  | dict {c : Handle} {d : Dict} : h.get c = .ok (.dict d) →
    KeyWalk h (.object c) (refuse (.unhashable "dict"))
  | set {c : Handle} {s : KeySet} : h.get c = .ok (.set s) →
    KeyWalk h (.object c) (refuse (.unhashable "set"))
  | identity {c : Handle} {o : Object} : h.get c = .ok o → o.ByIdentity →
    KeyWalk h (.object c) (.ok (.identity c))

/-- The same for several values, one after the other. -/
inductive KeysWalk (h : Heap) : List Value → Outcome HashKeys → Prop
  | nil : KeysWalk h [] (.ok .nil)
  | refused {v : Value} {vs : List Value} {e : Failure} : KeyWalk h v (.error e) →
    KeysWalk h (v :: vs) (.error e)
  | cons {v : Value} {vs : List Value} {k : HashKey} {r : Outcome HashKeys} :
    KeyWalk h v (.ok k) → KeysWalk h vs r → KeysWalk h (v :: vs) (r.map (.cons k))

end

/-- What `keyWithin` does with a tuple. -/
theorem keyWithin_tuple {items : Array Value} (got : h.get c = .ok (.tuple items)) (depth : Nat) :
    h.keyWithin (depth + 1) (.object c) =
      (keysBy (h.keyWithin depth) items.toList).map .tuple := by
  rw [keyWithin, got]
  change (keysBy (h.keyWithin depth) items.toList).bind _ = _
  cases keysBy (h.keyWithin depth) items.toList <;> rfl

theorem keysBy_cons_eq (key : Value → Outcome HashKey) (v : Value) (vs : List Value) :
    keysBy key (v :: vs) = (key v).bind fun k => (keysBy key vs).map (.cons k) := by
  rw [keysBy]
  cases key v with
  | error e => rfl
  | ok k => cases keysBy key vs <;> rfl

theorem keysWalk_of {key : Value → Outcome HashKey} {vs : List Value}
    (each : ∀ v ∈ vs, h.KeyWalk v (key v)) : h.KeysWalk vs (keysBy key vs) := by
  induction vs with
  | nil => exact .nil
  | cons v vs ih =>
    have first := each v List.mem_cons_self
    rw [keysBy_cons_eq]
    cases keyed : key v with
    | error e =>
      rw [keyed] at first
      exact .refused first
    | ok k =>
      rw [keyed] at first
      exact .cons first (ih fun w hw => each w (List.mem_cons_of_mem v hw))

/-- The recursion comes to its end on the first `depth` objects, where it is `depth` tuples deep at
most. -/
theorem keyWalk_within (sound : h.Sound functions) (enough : h.Has v → v.Within depth) :
    h.KeyWalk v (h.keyWithin (depth + 1) v) := by
  induction depth using Nat.strongRecOn generalizing v with
  | ind depth ih =>
    cases v with
    | none => exact .none
    | bool b => exact .bool b
    | int i => exact .int i
    | float x => exact .float x
    | object c =>
      cases got : h.get c with
      | error e =>
        rw [keyWithin, got]
        exact .lost got
      | ok o =>
        cases o with
        | tuple items =>
          have older := sound.items_enough (object?_of_get got) enough
          rw [keyWithin_tuple got]
          refine .tuple got (keysWalk_of fun v hv => ?_)
          obtain ⟨d, rfl, within⟩ := older v hv
          exact ih d (Nat.lt_succ_self d) fun _ => within
        | str s => rw [keyWithin, got]; exact .str got
        | big n => rw [keyWithin, got]; exact .big got
        | list => rw [keyWithin, got]; exact .list got
        | dict => rw [keyWithin, got]; exact .dict got
        | set => rw [keyWithin, got]; exact .set got
        | _ => rw [keyWithin, got]; exact .identity got trivial

mutual

/-- The recursion ends with the key that is found when it may go deep enough. -/
theorem KeyWalk.keyWithin_eq (sound : h.Sound functions) {v : Value} {r : Outcome HashKey}
    {depth : Nat} : h.KeyWalk v r → (h.Has v → v.Within depth) → h.keyWithin (depth + 1) v = r
  | .none, _ | .bool _, _ | .int _, _ | .float _, _ => rfl
  | .lost got, _ | .str got, _ | .big got, _ | .list got, _ | .dict got, _ | .set got, _ => by
    rw [keyWithin, got]
    rfl
  | .identity (o := o) got byIdentity, _ => by
    rw [keyWithin, got]
    cases o <;> first | exact byIdentity.elim | rfl
  | .tuple got walk, enough => by
    rw [keyWithin_tuple got, walk.keysBy_eq sound (sound.items_enough (object?_of_get got) enough)]

theorem KeysWalk.keysBy_eq (sound : h.Sound functions) {vs : List Value}
    {r : Outcome HashKeys} {depth : Nat} : h.KeysWalk vs r →
    (∀ v ∈ vs, ∃ d, depth = d + 1 ∧ v.Within d) → keysBy (h.keyWithin depth) vs = r
  | .nil, _ => rfl
  | .refused first, enough => by
    obtain ⟨d, rfl, within⟩ := enough _ List.mem_cons_self
    rw [keysBy_cons_eq, first.keyWithin_eq sound fun _ => within]
    rfl
  | .cons first rest, enough => by
    have others := rest.keysBy_eq sound fun v hv => enough v (List.mem_cons_of_mem _ hv)
    obtain ⟨d, rfl, within⟩ := enough _ List.mem_cons_self
    rw [keysBy_cons_eq, first.keyWithin_eq sound fun _ => within, others]
    rfl

end

/-- **Keying a value ends** with the answer of `key`. -/
theorem keyWalk_iff (sound : h.Sound functions) {r : Outcome HashKey} :
    h.KeyWalk v r ↔ h.key v = r := by
  constructor
  · exact fun walk => walk.keyWithin_eq sound id
  · rintro rfl
    exact keyWalk_within sound id

/-! ## Instances -/

end Heap

/-- What `isinstance` takes as its second argument: a tuple or a type, as which a built-in function
counts here. -/
def Object.IsTypes : Object → Prop
  | .tuple _ | .cls _ _ _ | .exceptionClass _ | .builtin _ => True
  | _ => False

namespace Heap

variable {functions depth : Nat} {h : Heap} {kind : ErrorKind} {v cls : Value} {c : Handle}

mutual

/-- The recursion that tests a value against a class, or against tuples of classes nested in any
depth. -/
inductive InstanceWalk (h : Heap) (v : Value) : Value → Outcome Bool → Prop
  | lost {cls : Value} {e : Failure} : h.view v = .error e → InstanceWalk h v cls (.error e)
  | lostClass {cls : Value} {o : Option Object} {e : Failure} : h.view v = .ok o →
    h.view cls = .error e → InstanceWalk h v cls (.error e)
  | tuple {cls : Value} {o : Option Object} {options : Array Value} {r : Outcome Bool} :
    h.view v = .ok o → h.view cls = .ok (some (.tuple options)) →
    AnyWalk h v options.toList r → InstanceWalk h v cls r
  | instanceOf {c own : Handle} {attributes attributes' : Bindings} {name : String}
    {base : Option Handle} : h.view v = .ok (some (.instanceOf own attributes)) →
    h.view (.object c) = .ok (some (.cls name base attributes')) →
    InstanceWalk h v (.object c) (h.isSubclass own c)
  | noInstance {c : Handle} {o : Option Object} {attributes : Bindings} {name : String}
    {base : Option Handle} : h.view v = .ok o →
    (∀ own attributes, o ≠ some (.instanceOf own attributes)) →
    h.view (.object c) = .ok (some (.cls name base attributes)) →
    InstanceWalk h v (.object c) (.ok false)
  | exceptionClass {cls : Value} {o : Option Object} {kind : ErrorKind} {r : Outcome Bool} :
    h.view v = .ok o → h.view cls = .ok (some (.exceptionClass kind)) →
    h.ExceptionWalk kind v r → InstanceWalk h v cls r
  | builtin {cls : Value} {o : Option Object} {f : Builtin} {t : Bool} : h.view v = .ok o →
    h.view cls = .ok (some (.builtin f)) → hasBuiltinType? v o f = some t →
    InstanceWalk h v cls (.ok t)
  | noType {cls : Value} {o : Option Object} {f : Builtin} : h.view v = .ok o →
    h.view cls = .ok (some (.builtin f)) → hasBuiltinType? v o f = none →
    InstanceWalk h v cls (refuse .notAClass)
  | noClass {cls : Value} {o p : Option Object} : h.view v = .ok o → h.view cls = .ok p →
    (∀ q ∈ p, ¬q.IsTypes) → InstanceWalk h v cls (refuse .notAClass)

/-- The same for several classes, up to the first one that has the value. -/
inductive AnyWalk (h : Heap) (v : Value) : List Value → Outcome Bool → Prop
  | nil : AnyWalk h v [] (.ok false)
  | refused {cls : Value} {rest : List Value} {e : Failure} : InstanceWalk h v cls (.error e) →
    AnyWalk h v (cls :: rest) (.error e)
  | found {cls : Value} {rest : List Value} : InstanceWalk h v cls (.ok true) →
    AnyWalk h v (cls :: rest) (.ok true)
  | next {cls : Value} {rest : List Value} {r : Outcome Bool} : InstanceWalk h v cls (.ok false) →
    AnyWalk h v rest r → AnyWalk h v (cls :: rest) r

end

theorem anyWalk_of {has : Value → Outcome Bool} {classes : List Value}
    (each : ∀ cls ∈ classes, h.InstanceWalk v cls (has cls)) :
    h.AnyWalk v classes (anyClass has classes) := by
  induction classes with
  | nil => exact .nil
  | cons cls rest ih =>
    have first := each cls List.mem_cons_self
    have others := ih fun c hc => each c (List.mem_cons_of_mem cls hc)
    rw [anyClass]
    cases tested : has cls with
    | error e =>
      rw [tested] at first
      exact .refused first
    | ok t =>
      rw [tested] at first
      cases t with
      | true => exact .found first
      | false => exact .next first others

/-- The recursion comes to its end for classes among the first `depth` objects. -/
theorem instanceWalk_within (sound : h.Sound functions) (v : Value)
    (enough : h.Has cls → cls.Within depth) :
    h.InstanceWalk v cls (h.isInstanceWithin v (depth + 1) cls) := by
  induction depth using Nat.strongRecOn generalizing cls with
  | ind depth ih =>
    rw [isInstanceWithin]
    cases viewed : h.view v with
    | error e => exact .lost viewed
    | ok o =>
      cases viewed' : h.view cls with
      | error e => exact .lostClass viewed viewed'
      | ok p =>
        rcases p with _ | p
        · exact .noClass viewed viewed' (by simp)
        · cases p with
          | tuple options =>
            obtain ⟨c, rfl, found⟩ := stores_of_view viewed'
            have older := sound.items_enough found enough
            refine .tuple viewed viewed' (anyWalk_of fun option mem => ?_)
            obtain ⟨d, rfl, within⟩ := older option mem
            exact ih d (Nat.lt_succ_self d) fun _ => within
          | cls name base attributes =>
            obtain ⟨c, rfl, -⟩ := stores_of_view viewed'
            rcases o with _ | o
            · exact .noInstance viewed (by simp) viewed'
            · cases o with
              | instanceOf own attributes' => exact .instanceOf viewed viewed'
              | _ => exact .noInstance viewed (by simp) viewed'
          | exceptionClass kind =>
            exact .exceptionClass viewed viewed' ((exceptionWalk_iff sound).mpr rfl)
          | builtin f =>
            simp only [Bind.bind, Except.bind]
            cases type : hasBuiltinType? v o f with
            | some t => exact .builtin viewed viewed' type
            | none => exact .noType viewed viewed' type
          | _ =>
            refine .noClass viewed viewed' ?_
            rintro q ⟨⟩
            exact id

mutual

/-- The recursion ends with what is found when it may go deep enough. -/
theorem InstanceWalk.isInstanceWithin_eq (sound : h.Sound functions) {v cls : Value}
    {r : Outcome Bool} {depth : Nat} : h.InstanceWalk v cls r → (h.Has cls → cls.Within depth) →
    h.isInstanceWithin v (depth + 1) cls = r
  | .lost viewed, _ => by
    rw [isInstanceWithin, viewed]
    rfl
  | .lostClass viewed viewed', _ | .instanceOf viewed viewed', _ => by
    rw [isInstanceWithin, viewed, viewed']
    rfl
  | .tuple viewed viewed' walk, enough => by
    obtain ⟨c, rfl, found⟩ := stores_of_view viewed'
    rw [isInstanceWithin, viewed, viewed']
    exact walk.anyClass_eq sound (sound.items_enough found enough)
  | .noInstance (o := o) viewed free viewed', _ => by
    rw [isInstanceWithin, viewed, viewed']
    rcases o with _ | o
    · rfl
    · cases o with
      | instanceOf => exact absurd rfl (free _ _)
      | _ => rfl
  | .exceptionClass viewed viewed' walk, _ => by
    rw [isInstanceWithin, viewed, viewed']
    exact (exceptionWalk_iff sound).mp walk
  | .builtin viewed viewed' type, _ | .noType viewed viewed' type, _ => by
    rw [isInstanceWithin, viewed, viewed']
    simp only [Bind.bind, Except.bind, type, pure, Except.pure]
  | .noClass (p := p) viewed viewed' free, _ => by
    rw [isInstanceWithin, viewed, viewed']
    rcases p with _ | p
    · rfl
    · cases p with
      | tuple | cls | exceptionClass | builtin => exact absurd trivial (free _ rfl)
      | _ => rfl

theorem AnyWalk.anyClass_eq (sound : h.Sound functions) {v : Value} {classes : List Value}
    {r : Outcome Bool} {depth : Nat} : h.AnyWalk v classes r →
    (∀ cls ∈ classes, ∃ d, depth = d + 1 ∧ cls.Within d) →
    anyClass (h.isInstanceWithin v depth) classes = r
  | .nil, _ => rfl
  | .refused first, enough | .found first, enough => by
    obtain ⟨d, rfl, within⟩ := enough _ List.mem_cons_self
    rw [anyClass, first.isInstanceWithin_eq sound fun _ => within]
    rfl
  | .next first rest, enough => by
    have others := rest.anyClass_eq sound fun cls mem => enough cls (List.mem_cons_of_mem _ mem)
    obtain ⟨d, rfl, within⟩ := enough _ List.mem_cons_self
    rw [anyClass, first.isInstanceWithin_eq sound fun _ => within]
    exact others

end

/-- **Testing a value against classes ends** with the answer of `isInstance`. -/
theorem instanceWalk_iff (sound : h.Sound functions) {r : Outcome Bool} :
    h.InstanceWalk v cls r ↔ h.isInstance v cls = r := by
  constructor
  · exact fun walk => walk.isInstanceWithin_eq sound id
  · rintro rfl
    exact instanceWalk_within sound v id

/-! ## Reachable heaps -/

/-- The heap that an operation of a host leaves on a machine in use. -/
theorem Helper.inUse {α : Type} {operation : HeapM α} (helper : h.Helper α operation)
    (inUse : ∃ m : Machine, m.InUse ∧ m.heap = h) :
    ∃ m : Machine, m.InUse ∧ m.heap = operation.after h := by
  obtain ⟨m, inUse, rfl⟩ := inUse
  exact ⟨_, inUse.helper helper rfl, rfl⟩

/-- A host makes a list that contains itself, and a tuple of the list. -/
theorem Reachable.exists_cyclic : ∃ (h : Heap) (c d : Handle), h.Reachable ∧
    h.object? c = some (.list #[.object c]) ∧ h.object? d = some (.tuple #[.object c]) := by
  let c : Handle := ⟨28⟩
  let h₀ := (Machine.start .standard).heap
  let h₁ := (MachineM.buildFrom .list []).after h₀
  let h₂ := (HeapM.append (.object c) (.object c)).after h₁
  have list : h₁.Has (.object c) := (by decide +kernel : 28 < h₁.size)
  have list' : h₂.Has (.object c) := (by decide +kernel : 28 < h₂.size)
  have made : h₀.Helper Value (MachineM.buildFrom .list []) := .build _ _ nofun
  have tuple : h₂.Helper Value (MachineM.buildFrom .tuple [.object c]) :=
    .build _ _ (List.forall_mem_singleton.mpr list')
  obtain ⟨m, inUse, heap⟩ := tuple.inUse <| (Helper.append (.object c) (.object c) list).inUse <|
    made.inUse ⟨_, .start .standard, rfl⟩
  refine ⟨m.heap, c, ⟨29⟩, .idle inUse, ?_⟩
  rw [heap]
  exact ⟨rfl, rfl⟩

/-- **Walks end on reachable heaps.** The base of a class is older than the class, and an object in
a tuple is older than the tuple. So the three walks that have no depth limit end on every value,
also on one whose object is missing, with one answer each: that of `isException`, `key` and
`isInstance`.
Lists, dicts and instances may contain themselves. -/
theorem Reachable.walks_end (reachable : h.Reachable) :
    (∀ c name b attributes, h.object? c = some (.cls name (some b) attributes) →
      b.index.toNat < c.index.toNat) ∧
    (∀ c items b, h.object? c = some (.tuple items) → .object b ∈ items →
      b.index.toNat < c.index.toNat) ∧
    (∀ kind v r, h.ExceptionWalk kind v r ↔ h.isException v kind = r) ∧
    (∀ v r, h.KeyWalk v r ↔ h.key v = r) ∧
    ∀ v cls r, h.InstanceWalk v cls r ↔ h.isInstance v cls = r := by
  obtain ⟨functions, sound⟩ := reachable.sound
  refine ⟨fun c name b attributes found => (sound.at found).1 b rfl, fun c items b found mem => ?_,
    fun kind v r => exceptionWalk_iff sound, fun v r => keyWalk_iff sound,
    fun v cls r => instanceWalk_iff sound⟩
  have older : ∀ v ∈ items, v.Within c.index.toNat := sound.at found
  exact older _ mem

/-- A tuple of a list that contains itself has no key, and is no tuple of classes. -/
theorem Reachable.walks_end_cyclic : ∃ (h : Heap) (c d : Handle), h.Reachable ∧
    h.object? c = some (.list #[.object c]) ∧ h.object? d = some (.tuple #[.object c]) ∧
    c.index.toNat < d.index.toNat ∧
    h.isException (.object c) .uncaughtException = .ok false ∧
    h.key (.object d) = refuse (.unhashable "list") ∧
    h.isInstance (.object c) (.object d) = refuse .notAClass := by
  obtain ⟨h, c, d, reachable, list, tuple⟩ := Reachable.exists_cyclic
  obtain ⟨-, older, exceptions, keys, instances⟩ := Reachable.walks_end reachable
  have viewed := Stores.view ⟨c, rfl, list⟩
  have viewed' := Stores.view ⟨d, rfl, tuple⟩
  have noTypes : ∀ o ∈ some (Object.list #[.object c]), ¬o.IsTypes := by
    rintro o ⟨⟩
    exact id
  refine ⟨h, c, d, reachable, list, tuple, older d _ c tuple (Array.mem_singleton.mpr rfl), ?_, ?_,
    ?_⟩
  · exact (exceptions _ _ _).mp (.outside viewed (by simp) (by simp))
  · exact (keys _ _).mp (.tuple (get_eq_ok tuple) (.refused (.list (get_eq_ok list))))
  · exact (instances _ _ _).mp (.tuple viewed viewed' (.refused (.noClass viewed viewed noTypes)))

end Heap

end RegisterVm
