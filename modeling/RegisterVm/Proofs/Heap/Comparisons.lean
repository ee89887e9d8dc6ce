import RegisterVm.Proofs.Heap.Walks
import RegisterVm.Proofs.Machine.Inline
import RegisterVm.Proofs.Machine.Permanence

/-!
# Symmetry of comparisons

On a reachable heap equality and order do not depend on which operand comes first, as far as both
ways have an answer, and agree with each other on values without a NaN. Equality of dicts and sets
looks at one side alone; since their entries are found by their keys and they have the same size, no
entry of the other side is left out (`Indexes.of_size`). Main statement:
`Heap.Reachable.comparison_symmetric`.
-/

namespace RegisterVm

theorem map_swap_beq_eq (o : Option Ordering) :
    (o.map Ordering.swap == some .eq) = (o == some .eq) := by
  rcases o with _ | o
  · rfl
  · cases o <;> rfl

/-! ## Primitive values -/

namespace Primitive

theorem order_swap (a b : Value) : order b a = (order a b).map (Option.map Ordering.swap) := by
  unfold order
  cases ha : number? a with
  | none => rcases number? b with _ | ⟨_ | _⟩ <;> rfl
  | some p =>
    cases hb : number? b with
    | none => cases p <;> rfl
    | some q =>
      have floats := Binary64.compare?_swap p.toFloat q.toFloat
      cases p with
      | float x => cases q <;> exact congrArg Except.ok floats
      | int i =>
        cases q with
        | float y => exact congrArg Except.ok floats
        | int j => exact congrArg (fun o => Except.ok (some o)) (Int.compare_swap _ _).symm

theorem equal_of_isNumber {a b : Value} (ha : a.isNumber = true) (hb : b.isNumber = true) :
    equal a b = (order a b).map (· == some .eq) := by
  cases a with
  | none | object => cases ha
  | bool | int | float => cases b <;> first | rfl | cases hb

theorem exists_order {a b : Value} (ha : a.isNumber = true) (hb : b.isNumber = true) :
    ∃ o, order a b = .ok o := by
  cases a with
  | none | object => cases ha
  | bool | int | float => cases b <;> first | exact ⟨_, rfl⟩ | cases hb

theorem equal_comm (a b : Value) : equal a b = equal b a := by
  cases ha : a.isNumber with
  | false =>
    cases a with
    | none | object => cases b <;> rfl
    | bool | int | float => cases ha
  | true =>
    cases hb : b.isNumber with
    | false =>
      cases b with
      | none | object => cases a <;> rfl
      | bool | int | float => cases hb
    | true =>
      rw [equal_of_isNumber ha hb, equal_of_isNumber hb ha, order_swap a b]
      cases order a b with
      | error e => rfl
      | ok o => exact congrArg Except.ok (map_swap_beq_eq o).symm

end Primitive

/-! ## Sequences -/

section Sequences

variable {equal : Value → Value → Outcome Bool}
  {order order' : Value → Value → Outcome (Option Ordering)} {x y : Value} {xs ys : List Value}
  {o : Option Ordering} {t : Bool}

theorem sequenceEqual_cons (found : equal x y = .ok t) (xs ys : List Value) :
    sequenceEqual equal (x :: xs) (y :: ys) =
      if t then sequenceEqual equal xs ys else .ok false := by
  rw [sequenceEqual, found]
  rfl

theorem sequenceEqual_true_iff :
    sequenceEqual equal xs ys = .ok true ↔
      List.Forall₂ (fun x y => equal x y = .ok true) xs ys := by
  induction xs generalizing ys with
  | nil => cases ys <;> simp [sequenceEqual]
  | cons x xs ih =>
    cases ys with
    | nil => simp [sequenceEqual]
    | cons y ys =>
      rw [List.forall₂_cons, ← ih]
      cases found : equal x y with
      | error e => simp [sequenceEqual, found, Bind.bind, Except.bind]
      | ok t => cases t <;> simp [sequenceEqual_cons found]

/-- The first items that are not equal decide. -/
theorem sequenceOrder_cons_iff : sequenceOrder equal order (x :: xs) (y :: ys) = .ok o ↔
    equal x y = .ok true ∧ sequenceOrder equal order xs ys = .ok o ∨
      equal x y = .ok false ∧ order x y = .ok o := by
  rw [sequenceOrder]
  cases equal x y with
  | error e => simp [Bind.bind, Except.bind]
  | ok t => cases t <;> simp [Bind.bind, Except.bind]

/-- Sequences are ordered the other way round when their items are. -/
theorem sequenceOrder_swap (symm : ∀ x y, equal x y = .ok true → equal y x = .ok true)
    (swap : ∀ x y o, order x y = .ok o → order' y x = .ok (o.map Ordering.swap) ∧
      (equal x y = .ok false → equal y x = .ok false))
    (ordered : sequenceOrder equal order xs ys = .ok o) :
    sequenceOrder equal order' ys xs = .ok (o.map Ordering.swap) := by
  induction xs generalizing ys with
  | nil => cases ys <;> cases ordered <;> rfl
  | cons x xs ih =>
    cases ys with
    | nil => cases ordered; rfl
    | cons y ys =>
      refine sequenceOrder_cons_iff.mpr ?_
      rcases sequenceOrder_cons_iff.mp ordered with ⟨same, rest⟩ | ⟨apart, decided⟩
      · exact .inl ⟨symm x y same, ih rest⟩
      · obtain ⟨swapped, unequal⟩ := swap x y o decided
        exact .inr ⟨unequal apart, swapped⟩

/-- Sequences that have an order are found to be unequal either way. -/
theorem sequenceEqual_false_swap (symm : ∀ x y, equal x y = .ok true → equal y x = .ok true)
    (swap : ∀ x y o, order x y = .ok o → equal x y = .ok false → equal y x = .ok false)
    (ordered : sequenceOrder equal order xs ys = .ok o)
    (apart : sequenceEqual equal xs ys = .ok false) : sequenceEqual equal ys xs = .ok false := by
  induction xs generalizing ys with
  | nil => cases ys <;> first | rfl | cases apart
  | cons x xs ih =>
    cases ys with
    | nil => rfl
    | cons y ys =>
      rcases sequenceOrder_cons_iff.mp ordered with ⟨same, rest⟩ | ⟨unequal, decided⟩
      · rw [sequenceEqual_cons same] at apart
        rw [sequenceEqual_cons (symm x y same)]
        exact ih rest apart
      · rw [sequenceEqual_cons (swap x y o decided unequal)]
        rfl

/-- Sequences are equal when neither comes first, if that is so for their items. -/
theorem sequenceEqual_of_order
    (coherent : ∀ x ∈ xs, ∀ y ∈ ys, ∀ o, order x y = .ok o → equal x y = .ok (o == some .eq))
    (ordered : sequenceOrder equal order xs ys = .ok o) :
    sequenceEqual equal xs ys = .ok (o == some .eq) := by
  induction xs generalizing ys with
  | nil => cases ys <;> cases ordered <;> rfl
  | cons x xs ih =>
    cases ys with
    | nil => cases ordered; rfl
    | cons y ys =>
      rcases sequenceOrder_cons_iff.mp ordered with ⟨same, rest⟩ | ⟨apart, decided⟩
      · rw [sequenceEqual_cons same]
        exact ih (fun x hx y hy => coherent x (List.mem_cons_of_mem _ hx) y
          (List.mem_cons_of_mem _ hy)) rest
      · have first := coherent x List.mem_cons_self y List.mem_cons_self o decided
        rw [sequenceEqual_cons apart, ← Except.ok.inj (apart.symm.trans first)]
        rfl

/-- A sequence of items that equal themselves equals itself. -/
theorem sequenceOrder_self (refl : ∀ x ∈ xs, ∀ t, equal x x = .ok t → t = true)
    (ordered : sequenceOrder equal order xs xs = .ok o) : o = some .eq := by
  induction xs with
  | nil => cases ordered; rfl
  | cons x xs ih =>
    rcases sequenceOrder_cons_iff.mp ordered with ⟨-, rest⟩ | ⟨apart, -⟩
    · exact ih (fun x hx => refl x (List.mem_cons_of_mem _ hx)) rest
    · cases refl x List.mem_cons_self false apart

end Sequences

/-! ## Entries -/

namespace Indexes

variable {key : Value → Outcome HashKey} {names names' : Array Value}
  {index index' : Std.HashMap HashKey Nat}

/-- The keys of indexed names are all different. -/
theorem exists_keys (h : Indexes key names index) : ∃ ks : List HashKey, ks.Nodup ∧
    ks.length = names.size ∧ ∀ k, k ∈ ks ↔ ∃ v ∈ names, key v = .ok k := by
  have each : ∀ i : Fin names.size, ∃ k, key names[i] = .ok k ∧ index[k]? = some i.val :=
    fun i => h.position i names[i] (Array.getElem?_eq_getElem i.isLt)
  choose k keyed at' using each
  refine ⟨List.ofFn k, List.nodup_ofFn.mpr fun i j same => ?_, List.length_ofFn, fun k' => ?_⟩
  · have position := at' i
    rw [same, at' j] at position
    exact Fin.ext (Option.some.inj position).symm
  · rw [List.mem_ofFn]
    constructor
    · rintro ⟨i, rfl⟩
      exact ⟨names[i], Array.getElem_mem i.isLt, keyed i⟩
    · rintro ⟨v, mem, keyed'⟩
      obtain ⟨i, inside, rfl⟩ := Array.mem_iff_getElem.mp mem
      exact ⟨⟨i, inside⟩, Except.ok.inj ((keyed ⟨i, inside⟩).symm.trans keyed')⟩

/-- When all keys of one table are keys of another one of the same size, the other one has no more
keys. -/
theorem of_size (h : Indexes key names index) (h' : Indexes key names' index')
    (size : names.size = names'.size)
    (sub : ∀ v ∈ names, ∃ k, key v = .ok k ∧ ∃ v' ∈ names', key v' = .ok k) :
    ∀ v' ∈ names', ∃ k, key v' = .ok k ∧ ∃ v ∈ names, key v = .ok k := by
  obtain ⟨ks, nodup, length, mem⟩ := h.exists_keys
  obtain ⟨ks', nodup', length', mem'⟩ := h'.exists_keys
  have among : ks ⊆ ks' := by
    intro k hk
    obtain ⟨v, hv, keyed⟩ := (mem k).mp hk
    obtain ⟨k', keyed', there⟩ := sub v hv
    rw [Except.ok.inj (keyed.symm.trans keyed')]
    exact (mem' k').mpr there
  have perm : ks.Perm ks' := (nodup.subperm among).perm_of_length_le (by omega)
  intro v' hv'
  obtain ⟨i, inside, rfl⟩ := Array.mem_iff_getElem.mp hv'
  obtain ⟨k, keyed, -⟩ := h'.position i names'[i] (Array.getElem?_eq_getElem inside)
  exact ⟨k, keyed, (mem k).mp (perm.mem_iff.mpr ((mem' k).mpr ⟨_, hv', keyed⟩))⟩

end Indexes

/-- What a dict in order gives for a key is the value of the entry with this key. -/
theorem Dict.get?_iff {key : Value → Outcome HashKey} {d : Dict}
    (indexed : Indexes key d.keys d.index) {k : HashKey} {w : Value} :
    d.get? k = some w ↔ ∃ e ∈ d.entries, key e.1 = .ok k ∧ e.2 = w := by
  constructor
  · intro got
    unfold get? at got
    split at got
    · rename_i i found
      obtain ⟨e, at', rfl⟩ := Option.map_eq_some_iff.mp got
      obtain ⟨v, named, keyed⟩ := indexed.name k i found
      rw [keys, Array.getElem?_map, at'] at named
      cases named
      exact ⟨e, Array.mem_of_getElem? at', keyed, rfl⟩
    · cases got
  · rintro ⟨e, mem, keyed, rfl⟩
    obtain ⟨i, inside, rfl⟩ := Array.mem_iff_getElem.mp mem
    obtain ⟨k', keyed', found⟩ := indexed.position i d.entries[i].1 (by simp [keys, inside])
    cases keyed.symm.trans keyed'
    rw [get?, found]
    simp [inside]

theorem KeySet.contains_iff {key : Value → Outcome HashKey} {s : KeySet}
    (indexed : Indexes key s.items s.index) {k : HashKey} :
    s.contains k = true ↔ ∃ v ∈ s.items, key v = .ok k := by
  rw [contains, Std.HashMap.contains_eq_isSome_getElem?, Option.isSome_iff_exists]
  constructor
  · rintro ⟨i, found⟩
    obtain ⟨v, at', keyed⟩ := indexed.name k i found
    exact ⟨v, Array.mem_of_getElem? at', keyed⟩
  · rintro ⟨v, mem, keyed⟩
    obtain ⟨i, inside, rfl⟩ := Array.mem_iff_getElem.mp mem
    obtain ⟨k', keyed', found⟩ := indexed.position i s.items[i] (Array.getElem?_eq_getElem inside)
    cases keyed.symm.trans keyed'
    exact ⟨i, found⟩

namespace Heap

variable {h : Heap} {a b : Value} {levels : Nat} {symbol : String} {o : Option Ordering}

/-! ## Numbers -/

/-- The order of two numbers, which are compared as integers when both are, and else as floats. -/
inductive NumberOrder (h : Heap) (a b : Value) : Option Ordering → Prop
  | integers {m n : Int} : h.integer? a = some m → h.integer? b = some n →
    NumberOrder h a b (some (compare m n))
  | floats {x y : Float} : h.integer? a = none ∨ h.integer? b = none → h.float? a = some x →
    h.float? b = some y → NumberOrder h a b (Binary64.compare? x y)

theorem numberOrder?_eq_some_iff : h.numberOrder? a b = some o ↔ h.NumberOrder a b o := by
  constructor
  · intro ordered
    unfold numberOrder? at ordered
    split at ordered
    · rename_i m n ha hb
      cases ordered
      exact .integers ha hb
    · rename_i mixed
      split at ordered
      · rename_i x y fa fb
        cases ordered
        refine .floats ?_ fa fb
        cases ha : h.integer? a with
        | none => exact .inl rfl
        | some m => exact .inr (Option.eq_none_iff_forall_ne_some.mpr fun n => mixed m n ha)
      · cases ordered
  · intro ordered
    unfold numberOrder?
    cases ordered with
    | integers ha hb => rw [ha, hb]
    | floats either fa fb =>
      rw [fa, fb]
      rcases either with none | none <;> rw [none]
      cases h.integer? a <;> rfl

theorem NumberOrder.symm (ordered : h.NumberOrder a b o) :
    h.NumberOrder b a (o.map Ordering.swap) := by
  cases ordered with
  | @integers m n ha hb =>
    rw [Option.map_some, Int.compare_swap]
    exact .integers hb ha
  | floats either fa fb =>
    rw [← Binary64.compare?_swap]
    exact .floats either.symm fb fa

theorem NumberOrder.largeEqual_eq (ordered : h.NumberOrder a b o) :
    h.largeEqual a b = (o == some .eq) := by
  unfold largeEqual
  cases ordered with
  | @integers m n ha hb =>
    rw [ha, hb, Bool.eq_iff_iff, beq_iff_eq, beq_iff_eq, Option.some.injEq, Int.compare_eq_eq]
  | @floats x y either fa fb =>
    have same : (x == y) = (Binary64.compare? x y == some .eq) := by
      rw [Binary64.beq_eq, Binary64.compare?_eq]
    rw [fa, fb]
    rcases either with none | none <;> rw [none]
    · exact same
    · cases h.integer? a <;> exact same

/-- An object that is no integer is no number. -/
theorem no_number_of_object (object : a.isObject = true) (small : h.isBig a = false) :
    h.integer? a = none ∧ h.float? a = none := by
  cases a with
  | object c =>
    cases found : h.object? c with
    | none => simp [integer?, float?, Value.asFloat?, view, get, found, Except.map, refuse]
    | some o =>
      cases o with
      | big n => rw [isBig_iff.mpr ⟨c, n, rfl, found⟩] at small; cases small
      | _ => simp [integer?, float?, Value.asFloat?, view, get, found, Except.map]
  | _ => cases object

theorem NumberOrder.exists_left (ordered : h.NumberOrder a b o) :
    ¬(h.integer? a = none ∧ h.float? a = none) := by
  rintro ⟨ia, fa⟩
  cases ordered with
  | integers ha => cases ia.symm.trans ha
  | floats _ fa' => cases fa.symm.trans fa'

theorem isNumber_of_primitive (number : ¬(h.integer? a = none ∧ h.float? a = none))
    (primitive : a.isObject = false) : a.isNumber = true := by
  cases a with
  | none => exact absurd ⟨rfl, rfl⟩ number
  | object => cases primitive
  | bool | int | float => rfl

/-- **Numbers are equal when neither comes first**, at any level. -/
theorem NumberOrder.equalWithin_eq (ordered : h.NumberOrder a b o) (levels : Nat) :
    h.equalWithin (levels + 1) a b = .ok (o == some .eq) := by
  have left := ordered.exists_left
  have right := ordered.symm.exists_left
  rw [equalWithin]
  split
  · rename_i primitive
    rw [Bool.and_eq_true, Bool.not_eq_true', Bool.not_eq_true'] at primitive
    have ha := isNumber_of_primitive left primitive.1
    have hb := isNumber_of_primitive right primitive.2
    obtain ⟨o', found⟩ := Primitive.exists_order ha hb
    have same := (numberOrder?_eq_some_iff.mpr ordered).symm.trans
      (h.numberOrder?_of_primitive found)
    rw [Primitive.equal_of_isNumber ha hb, found, Option.some.inj same]
    rfl
  · rename_i object
    split
    · rename_i same
      obtain rfl := Value.eq_of_identical same
      have large : h.isBig a = true := by
        by_contra small
        exact left (no_number_of_object (by simpa using object) (Bool.eq_false_iff.mpr small))
      obtain ⟨c, n, rfl, found⟩ := isBig_iff.mp large
      have whole : h.integer? (.object c) = some n := by rw [integer?, found]
      rw [← ordered.largeEqual_eq, largeEqual, whole]
      exact congrArg Except.ok (beq_self_eq_true n).symm
    · split
      · rw [ordered.largeEqual_eq]
      · rename_i small
        rw [Bool.or_eq_true, not_or, Bool.not_eq_true, Bool.not_eq_true] at small
        cases ha : a.isObject with
        | true => exact (left (no_number_of_object ha small.1)).elim
        | false =>
          have hb : b.isObject = true := by simpa [ha] using object
          exact (right (no_number_of_object hb small.2)).elim

/-! ## Equality -/

theorem largeEqual_comm (a b : Value) : h.largeEqual a b = h.largeEqual b a := by
  unfold largeEqual
  rcases h.integer? a with _ | m <;> rcases h.integer? b with _ | n <;>
    rcases h.float? a with _ | x <;> rcases h.float? b with _ | y <;>
    first | rfl | exact BEq.comm

section Objects

variable {equal : Value → Value → Outcome Bool}

theorem entriesEqual_true_iff {d : Dict} {es : List (Value × Value)} :
    h.entriesEqual equal d es = .ok true ↔
      ∀ e ∈ es, ∃ k w, h.key e.1 = .ok k ∧ d.get? k = some w ∧ equal e.2 w = .ok true := by
  induction es with
  | nil => exact ⟨fun _ => nofun, fun _ => rfl⟩
  | cons e es ih =>
    rw [List.forall_mem_cons, ← ih, entriesEqual]
    cases keyed : h.key e.1 with
    | error e => simp [Bind.bind, Except.bind]
    | ok k =>
      cases got : d.get? k with
      | none => simp [Bind.bind, Except.bind, pure, Except.pure, got]
      | some w =>
        cases found : equal e.2 w with
        | error e => simp [Bind.bind, Except.bind, got, found]
        | ok t => cases t <;> simp [Bind.bind, Except.bind, pure, Except.pure, got, found]

theorem itemsContained_true_iff {s : KeySet} {items : List Value} :
    h.itemsContained s items = .ok true ↔
      ∀ v ∈ items, ∃ k, h.key v = .ok k ∧ s.contains k = true := by
  induction items with
  | nil => exact ⟨fun _ => nofun, fun _ => rfl⟩
  | cons v items ih =>
    rw [List.forall_mem_cons, ← ih, itemsContained]
    cases keyed : h.key v with
    | error e => simp [Bind.bind, Except.bind]
    | ok k => 
      cases held : s.contains k <;> simp [Bind.bind, Except.bind, pure, Except.pure, held]

/-- A dict that has all entries of another one of its size has no more. -/
theorem entriesEqual_symm (symm : ∀ v w, equal v w = .ok true → equal w v = .ok true) {d d' : Dict}
    (indexed : Indexes h.key d.keys d.index) (indexed' : Indexes h.key d'.keys d'.index)
    (size : d.size = d'.size) (same : h.entriesEqual equal d' d.entries.toList = .ok true) :
    h.entriesEqual equal d d'.entries.toList = .ok true := by
  rw [entriesEqual_true_iff] at same ⊢
  have sub : ∀ v ∈ d.keys, ∃ k, h.key v = .ok k ∧ ∃ v' ∈ d'.keys, h.key v' = .ok k := by
    intro v mem
    obtain ⟨e, held, rfl⟩ := Array.mem_map.mp mem
    obtain ⟨k, w, keyed, got, -⟩ := same e (Array.mem_toList_iff.mpr held)
    obtain ⟨e', mem', keyed', -⟩ := (Dict.get?_iff indexed').mp got
    exact ⟨k, keyed, e'.1, Array.mem_map.mpr ⟨e', mem', rfl⟩, keyed'⟩
  have sizes : d.keys.size = d'.keys.size := by
    simpa [Dict.keys, Dict.size] using size
  intro e' mem'
  rw [Array.mem_toList_iff] at mem'
  obtain ⟨k, keyed', v, mem, keyed⟩ :=
    indexed.of_size indexed' sizes sub e'.1 (Array.mem_map.mpr ⟨e', mem', rfl⟩)
  obtain ⟨e, held, rfl⟩ := Array.mem_map.mp mem
  obtain ⟨k', w, keyed'', got, equal'⟩ := same e (Array.mem_toList_iff.mpr held)
  -- The entry that the other dict gave for this key is the one we look at.
  cases keyed.symm.trans keyed''
  have itself := (Dict.get?_iff indexed').mpr ⟨e', mem', keyed', rfl⟩
  rw [Option.some.inj (got.symm.trans itself)] at equal'
  exact ⟨k, e.2, keyed', (Dict.get?_iff indexed).mpr ⟨e, held, keyed, rfl⟩, symm _ _ equal'⟩

theorem itemsContained_symm {s s' : KeySet} (indexed : Indexes h.key s.items s.index)
    (indexed' : Indexes h.key s'.items s'.index) (size : s.size = s'.size)
    (same : h.itemsContained s' s.items.toList = .ok true) :
    h.itemsContained s s'.items.toList = .ok true := by
  rw [itemsContained_true_iff] at same ⊢
  have sub : ∀ v ∈ s.items, ∃ k, h.key v = .ok k ∧ ∃ v' ∈ s'.items, h.key v' = .ok k := by
    intro v mem
    obtain ⟨k, keyed, held⟩ := same v (Array.mem_toList_iff.mpr mem)
    exact ⟨k, keyed, (KeySet.contains_iff indexed').mp held⟩
  intro v' mem'
  obtain ⟨k, keyed', held⟩ :=
    indexed.of_size indexed' size sub v' (Array.mem_toList_iff.mp mem')
  exact ⟨k, keyed', (KeySet.contains_iff indexed).mpr held⟩

theorem sequenceEqual_symm (symm : ∀ v w, equal v w = .ok true → equal w v = .ok true)
    {xs ys : List Value} (same : sequenceEqual equal xs ys = .ok true) :
    sequenceEqual equal ys xs = .ok true := by
  rw [sequenceEqual_true_iff] at same ⊢
  exact List.Forall₂.flip (same.imp symm)

theorem objectsEqual_symm {p q : Option Object}
    (symm : ∀ v w, equal v w = .ok true → equal w v = .ok true)
    (hp : ∀ x ∈ p, x.Indexed h.key) (hq : ∀ x ∈ q, x.Indexed h.key)
    (same : h.objectsEqual equal p q = .ok true) : h.objectsEqual equal q p = .ok true := by
  unfold objectsEqual at same
  split at same
  case h_1 x y =>
    rw [objectsEqual, BEq.comm]
    exact same
  case h_2 x y | h_3 x y =>
    split at same
    · rename_i size
      rw [objectsEqual, if_pos size.symm]
      exact sequenceEqual_symm symm same
    · cases same
  case h_4 x y =>
    split at same
    · rename_i size
      rw [objectsEqual, if_pos size.symm]
      exact entriesEqual_symm symm (hp _ rfl) (hq _ rfl) size same
    · cases same
  case h_5 x y =>
    split at same
    · rename_i size
      rw [objectsEqual, if_pos size.symm]
      exact itemsContained_symm (hp _ rfl) (hq _ rfl) size same
    · cases same
  case h_6 x y =>
    rw [objectsEqual, BEq.comm]
    exact same
  case h_7 => cases same

end Objects

/-- **Equality that is found one way round is found the other way round.** -/
theorem equalWithin_symm (indexed : h.Indexed) (same : h.equalWithin levels a b = .ok true) :
    h.equalWithin levels b a = .ok true := by
  induction levels generalizing a b with
  | zero => cases same
  | succ levels ih =>
    have objects : ∀ v x, h.view v = .ok x → ∀ o ∈ x, o.Indexed h.key := by
      rintro v _ viewed o rfl
      obtain ⟨c, -, found⟩ := stores_of_view viewed
      exact indexed c o found
    by_cases one : a.identical b = true
    · obtain rfl := Value.eq_of_identical one
      exact same
    · have one' : ¬b.identical a = true := fun one' => one (Value.eq_of_identical one' ▸ one')
      rw [equalWithin, if_neg one] at same
      rw [equalWithin, Bool.and_comm, Primitive.equal_comm b a, if_neg one', Bool.or_comm,
        largeEqual_comm b a]
      split at same
      · rename_i primitive
        rw [if_pos primitive]
        exact same
      · rename_i object
        rw [if_neg object]
        split at same
        · rename_i large
          rw [if_pos large]
          exact same
        · rename_i small
          rw [if_neg small]
          cases ha : h.view a with
          | error e => rw [ha] at same; cases same
          | ok p =>
            cases hb : h.view b with
            | error e => rw [ha, hb] at same; cases same
            | ok q =>
              rw [ha, hb] at same
              exact objectsEqual_symm (fun v w => ih) (objects a p ha) (objects b q hb) same

/-! ## Order -/

theorem textOrder_cases (s t : String) :
    s < t ∧ textOrder s t = .lt ∨ s = t ∧ textOrder s t = .eq ∨ t < s ∧ textOrder s t = .gt := by
  unfold textOrder
  rcases lt_trichotomy s t with less | rfl | greater
  · exact .inl ⟨less, if_pos less⟩
  · exact .inr (.inl ⟨rfl, by rw [if_neg (lt_irrefl s), if_pos rfl]⟩)
  · exact .inr (.inr ⟨greater, by rw [if_neg greater.asymm, if_neg greater.ne']⟩)

theorem textOrder_swap (s t : String) : textOrder t s = (textOrder s t).swap := by
  rcases textOrder_cases s t with ⟨less, found⟩ | ⟨rfl, found⟩ | ⟨greater, found⟩
  · rw [found, textOrder, if_neg less.asymm, if_neg less.ne']
    rfl
  · rw [found]
    rfl
  · rw [found]
    exact if_pos greater

theorem beq_eq_textOrder (s t : String) : (s == t) = (some (textOrder s t) == some .eq) := by
  rcases textOrder_cases s t with ⟨less, found⟩ | ⟨rfl, found⟩ | ⟨greater, found⟩ <;>
    rw [found]
  · exact beq_eq_false_iff_ne.mpr less.ne
  · exact beq_self_eq_true s
  · exact beq_eq_false_iff_ne.mpr greater.ne'

/-- Two lists or two tuples. -/
inductive Sequences (h : Heap) (a b : Value) (xs ys : Array Value) : Prop
  | list : h.Stores a (.list xs) → h.Stores b (.list ys) → Sequences h a b xs ys
  | tuple : h.Stores a (.tuple xs) → h.Stores b (.tuple ys) → Sequences h a b xs ys

/-- What has an order: numbers, strings, and lists or tuples whose first unequal items have one. -/
inductive Compared (h : Heap) (symbol : String) (levels : Nat) (a b : Value) :
    Option Ordering → Prop
  | numbers {o : Option Ordering} : h.NumberOrder a b o → Compared h symbol levels a b o
  | texts {s t : String} : h.Stores a (.str s) → h.Stores b (.str t) →
    Compared h symbol levels a b (some (textOrder s t))
  | sequences {xs ys : Array Value} {o : Option Ordering} : h.Sequences a b xs ys →
    sequenceOrder (h.equalWithin levels) (h.orderWithin symbol levels) xs.toList ys.toList = .ok o →
    Compared h symbol levels a b o

theorem Sequences.symm {xs ys : Array Value} (sequences : h.Sequences a b xs ys) :
    h.Sequences b a ys xs := by
  cases sequences with
  | list ha hb => exact .list hb ha
  | tuple ha hb => exact .tuple hb ha

theorem Stores.isBig_eq {p : Object} (stored : h.Stores a p) (small : ∀ n, p ≠ .big n) :
    h.isBig a = false := by
  rw [isBig, stored.view]
  cases p with
  | big n => exact absurd rfl (small n)
  | _ => rfl

theorem Stores.isObject {p : Object} (stored : h.Stores a p) : a.isObject = true := by
  obtain ⟨c, rfl, -⟩ := stored
  rfl

theorem Stores.numberOrder?_eq_none {p : Object} (stored : h.Stores a p)
    (small : ∀ n, p ≠ .big n) (b : Value) : h.numberOrder? a b = none := by
  refine Option.eq_none_iff_forall_ne_some.mpr fun o ordered => ?_
  exact (numberOrder?_eq_some_iff.mp ordered).exists_left
    (no_number_of_object stored.isObject (stored.isBig_eq small))

theorem orderWithin_iff :
    h.orderWithin symbol (levels + 1) a b = .ok o ↔ h.Compared symbol levels a b o := by
  constructor
  · intro ordered
    rw [orderWithin] at ordered
    split at ordered
    · rename_i found
      cases ordered
      exact .numbers (numberOrder?_eq_some_iff.mp found)
    · cases ha : h.view a with
      | error e => rw [ha] at ordered; cases ordered
      | ok p =>
        cases hb : h.view b with
        | error e => rw [ha, hb] at ordered; cases ordered
        | ok q =>
          simp only [ha, hb, Bind.bind, Except.bind] at ordered
          split at ordered
          · cases ordered
            exact .texts (stores_of_view ha) (stores_of_view hb)
          · exact .sequences (.list (stores_of_view ha) (stores_of_view hb)) ordered
          · exact .sequences (.tuple (stores_of_view ha) (stores_of_view hb)) ordered
          · cases type : h.typeName a with
            | error e => rw [type] at ordered; cases ordered
            | ok s =>
              cases type' : h.typeName b with
              | error e => rw [type, type'] at ordered; cases ordered
              | ok t => rw [type, type'] at ordered; cases ordered
  · intro compared
    rw [orderWithin]
    cases compared with
    | numbers ordered => rw [numberOrder?_eq_some_iff.mpr ordered]
    | texts ha hb =>
      simp only [ha.numberOrder?_eq_none (by simp), ha.view, hb.view]
      rfl
    | sequences sequences ordered =>
      cases sequences with
      | list ha hb | tuple ha hb =>
        simp only [ha.numberOrder?_eq_none (by simp), ha.view, hb.view]
        exact ordered

/-- Equality of two objects that are no integers. -/
theorem equalWithin_objects {p q : Object} (ha : h.Stores a p) (hb : h.Stores b q)
    (small : (∀ n, p ≠ .big n) ∧ ∀ n, q ≠ .big n) (levels : Nat) :
    h.equalWithin (levels + 1) a b = if a.identical b then .ok true
      else h.objectsEqual (h.equalWithin levels) (some p) (some q) := by
  simp only [equalWithin, ha.isObject, ha.isBig_eq small.1, hb.isBig_eq small.2, ha.view, hb.view]
  rfl

theorem Sequences.equalWithin_eq {xs ys : Array Value} (sequences : h.Sequences a b xs ys)
    (levels : Nat) : h.equalWithin (levels + 1) a b = if a.identical b then .ok true
      else if xs.size = ys.size then sequenceEqual (h.equalWithin levels) xs.toList ys.toList
      else .ok false := by
  cases sequences with
  | list ha hb | tuple ha hb => exact equalWithin_objects ha hb (by simp) levels

theorem equalWithin_texts {s t : String} (ha : h.Stores a (.str s)) (hb : h.Stores b (.str t))
    (levels : Nat) : h.equalWithin (levels + 1) a b = .ok (s == t) := by
  rw [equalWithin_objects ha hb (by simp)]
  split
  · rename_i same
    obtain rfl := Value.eq_of_identical same
    cases ha.unique hb
    rw [beq_self_eq_true]
  · rfl

/-- **What has an order has the reverse one the other way round**, and if the two are found to be
unequal, they are so the other way round too. -/
theorem orderWithin_swap (indexed : h.Indexed) (symbol' : String)
    (ordered : h.orderWithin symbol levels a b = .ok o) :
    h.orderWithin symbol' levels b a = .ok (o.map Ordering.swap) ∧
      (h.equalWithin levels a b = .ok false → h.equalWithin levels b a = .ok false) := by
  induction levels generalizing a b o with
  | zero => cases ordered
  | succ levels ih =>
    rw [orderWithin_iff] at ordered ⊢
    cases ordered with
    | numbers ordered =>
      refine ⟨.numbers ordered.symm, fun apart => ?_⟩
      rw [ordered.symm.equalWithin_eq, map_swap_beq_eq, ← ordered.equalWithin_eq]
      exact apart
    | texts ha hb =>
      refine ⟨?_, fun apart => ?_⟩
      · rw [Option.map_some, ← textOrder_swap]
        exact .texts hb ha
      · rw [equalWithin_texts hb ha, BEq.comm, ← equalWithin_texts ha hb]
        exact apart
    | sequences sequences ordered =>
      have symm : ∀ x y,
          h.equalWithin levels x y = .ok true → h.equalWithin levels y x = .ok true :=
        fun x y => equalWithin_symm indexed
      refine ⟨.sequences sequences.symm (sequenceOrder_swap symm (fun x y o => ih) ordered),
        fun apart => ?_⟩
      have other : ¬a.identical b = true := fun one => by
        rw [sequences.equalWithin_eq, if_pos one] at apart
        cases apart
      have other' : ¬b.identical a = true := fun one => other (Value.eq_of_identical one ▸ one)
      rw [sequences.equalWithin_eq, if_neg other] at apart
      rw [sequences.symm.equalWithin_eq, if_neg other']
      split at apart
      · rename_i size
        rw [if_pos size.symm]
        exact sequenceEqual_false_swap symm (fun x y o found => (ih found).2) ordered apart
      · rename_i sizes
        rw [if_neg (Ne.symm sizes)]

/-! ## Equality beside order -/

/-- A NaN, or a list or tuple with one in it. -/
inductive HoldsNaN (h : Heap) : Value → Prop
  | float {x : Float} : x.isNaN = true → HoldsNaN h (.float x)
  | list {c : Handle} {items : Array Value} {v : Value} : h.object? c = some (.list items) →
    v ∈ items → HoldsNaN h v → HoldsNaN h (.object c)
  | tuple {c : Handle} {items : Array Value} {v : Value} : h.object? c = some (.tuple items) →
    v ∈ items → HoldsNaN h v → HoldsNaN h (.object c)

/-- A value equals itself, unless it is a NaN. -/
theorem equalWithin_same (number : ∀ x, a = .float x → x.isNaN = false) :
    h.equalWithin (levels + 1) a a = .ok true := by
  cases a with
  | none => rfl
  | object c =>
    have one : (Value.object c).identical (.object c) = true := beq_self_eq_true c
    simp only [equalWithin, Value.isObject, one]
    rfl
  | bool | int =>
    rw [(NumberOrder.integers rfl rfl).equalWithin_eq, Int.compare_eq_eq.mpr rfl]
    rfl
  | float x =>
    have number : ¬x.isNaN = true := ne_true_of_eq_false (number x rfl)
    rw [Float.isNaN_eq_decide_eq_nan, decide_eq_true_iff] at number
    have same : (x == x) = true := Float.beq_self_iff.mpr number
    rw [(NumberOrder.floats (.inl rfl) rfl rfl).equalWithin_eq, Binary64.compare?_eq,
      ← Binary64.beq_eq, same]

/-- What is found about the equality of a value with itself is that it is equal, unless it is a
NaN. -/
theorem equalWithin_self (no_nan : ¬h.HoldsNaN a) {t : Bool}
    (found : h.equalWithin levels a a = .ok t) : t = true := by
  cases levels with
  | zero => cases found
  | succ levels =>
    have number : ∀ x, a = .float x → x.isNaN = false := by
      rintro x rfl
      exact Bool.eq_false_iff.mpr fun nan => no_nan (.float nan)
    exact Except.ok.inj (found.symm.trans (equalWithin_same number))

theorem Sequences.no_nan {xs ys : Array Value} (sequences : h.Sequences a b xs ys)
    (no_nan : ¬h.HoldsNaN a) : ∀ x ∈ xs.toList, ¬h.HoldsNaN x := by
  intro x mem nan
  rw [Array.mem_toList_iff] at mem
  cases sequences with
  | list ha =>
    obtain ⟨c, rfl, found⟩ := ha
    exact no_nan (.list found mem nan)
  | tuple ha =>
    obtain ⟨c, rfl, found⟩ := ha
    exact no_nan (.tuple found mem nan)

theorem Sequences.eq_of_identical {xs ys : Array Value} (sequences : h.Sequences a b xs ys)
    (same : a.identical b = true) : xs = ys := by
  obtain rfl := Value.eq_of_identical same
  cases sequences with
  | list ha hb | tuple ha hb => cases ha.unique hb; rfl

/-- **Values with an order are equal when neither comes first**, if they hold no NaN. -/
theorem equalWithin_of_orderWithin (ha : ¬h.HoldsNaN a) (hb : ¬h.HoldsNaN b)
    (ordered : h.orderWithin symbol levels a b = .ok o) :
    h.equalWithin levels a b = .ok (o == some .eq) := by
  induction levels generalizing a b o with
  | zero => cases ordered
  | succ levels ih =>
    cases orderWithin_iff.mp ordered with
    | numbers ordered => exact ordered.equalWithin_eq levels
    | texts ta tb => rw [equalWithin_texts ta tb, beq_eq_textOrder]
    | @sequences xs ys _ sequences ordered =>
      have na := sequences.no_nan ha
      have nb := sequences.symm.no_nan hb
      rw [sequences.equalWithin_eq]
      split
      · rename_i same
        obtain rfl := sequences.eq_of_identical same
        rw [sequenceOrder_self (fun x hx t => equalWithin_self (na x hx)) ordered]
        rfl
      · have items := sequenceEqual_of_order
          (fun x hx y hy o => ih (na x hx) (nb y hy)) ordered
        split
        · exact items
        · rename_i sizes
          cases equal : o == some .eq with
          | false => rfl
          | true =>
            rw [equal, sequenceEqual_true_iff] at items
            exact absurd (by simpa using items.length_eq) sizes

/-! ## Reachable heaps -/

theorem Reachable.indexed (reachable : h.Reachable) : h.Indexed := by
  obtain ⟨functions, sound⟩ := reachable.sound
  exact reachable.changed.indexed sound.founded indexed_empty

theorem order_swap (indexed : h.Indexed) (symbol' : String) (ordered : h.order symbol a b = .ok o) :
    h.order symbol' b a = .ok (o.map Ordering.swap) :=
  (orderWithin_swap indexed symbol' ordered).1

/-- An order that is accepted one way round is accepted reversed the other way round. -/
theorem ordered_swap (indexed : h.Indexed) {symbol' : String} {accepts accepts' : Ordering → Bool}
    (reversed : ∀ o, accepts' o.swap = accepts o) {t : Bool}
    (found : h.ordered symbol accepts a b = .ok t) : h.ordered symbol' accepts' b a = .ok t := by
  unfold ordered at found ⊢
  cases decided : h.order symbol a b with
  | error e => rw [decided] at found; cases found
  | ok o =>
    rw [decided] at found
    rw [order_swap indexed symbol' decided, ← found]
    cases o with
    | none => rfl
    | some o => exact congrArg Except.ok (reversed o)

/-- **Comparisons are symmetric on reachable heaps**, whatever the values.

* If `a == b` and `b == a` both have an answer it is the same, and if `a == b` is true, `b == a` has
  an answer and is true.
* If `a` and `b` have an order, `b` and `a` have the reverse one, whatever operator asks for it. So
  `a < b` is what `b > a` is, and `a <= b` what `b >= a` is.
* If they have an order and hold no NaN, `a == b` has an answer, and they are equal exactly when
  neither comes first. -/
theorem Reachable.comparison_symmetric (reachable : h.Reachable) (a b : Value) :
    (∀ t t', h.equal a b = .ok t → h.equal b a = .ok t' → t = t') ∧
    (h.equal a b = .ok true ↔ h.equal b a = .ok true) ∧
    (∀ symbol symbol' o, h.order symbol a b = .ok o →
      h.order symbol' b a = .ok (o.map Ordering.swap)) ∧
    (∀ t, h.holds .lt a b = .ok t ↔ h.holds .gt b a = .ok t) ∧
    (∀ t, h.holds .le a b = .ok t ↔ h.holds .ge b a = .ok t) ∧
    (¬h.HoldsNaN a → ¬h.HoldsNaN b → ∀ symbol o, h.order symbol a b = .ok o →
      ∃ t, h.equal a b = .ok t ∧ (t = true ↔ o = some .eq)) := by
  have indexed := reachable.indexed
  have symm : ∀ a b, h.equal a b = .ok true → h.equal b a = .ok true :=
    fun a b => equalWithin_symm indexed
  refine ⟨fun t t' found found' => ?_, ⟨symm a b, symm b a⟩,
    fun symbol symbol' o => order_swap indexed symbol', fun t => ⟨?_, ?_⟩, fun t => ⟨?_, ?_⟩,
    fun ha hb symbol o ordered => ?_⟩
  · cases t with
    | true => exact Except.ok.inj ((symm a b found).symm.trans found')
    | false =>
      cases t' with
      | true => exact Except.ok.inj (found.symm.trans (symm b a found'))
      | false => rfl
  · exact ordered_swap indexed fun o => by cases o <;> rfl
  · exact ordered_swap indexed fun o => by cases o <;> rfl
  · exact ordered_swap indexed fun o => by cases o <;> rfl
  · exact ordered_swap indexed fun o => by cases o <;> rfl
  · exact ⟨_, equalWithin_of_orderWithin ha hb ordered, beq_iff_eq⟩

/-- The tuple `(1, 2)` comes before `(1, 3)`, which comes after it and is another one. -/
theorem Reachable.comparison_symmetric_tuples : ∃ (h : Heap) (a b : Value), h.Reachable ∧
    h.Stores a (.tuple #[.int 1, .int 2]) ∧ h.Stores b (.tuple #[.int 1, .int 3]) ∧
    h.holds .lt a b = .ok true ∧ h.holds .gt b a = .ok true ∧ ¬h.HoldsNaN a ∧ ¬h.HoldsNaN b ∧
    h.equal a b = .ok false := by
  let h₀ := (Machine.start .standard).heap
  let h₁ := (MachineM.buildFrom .tuple [.int 1, .int 2]).after h₀
  let h₂ := (MachineM.buildFrom .tuple [.int 1, .int 3]).after h₁
  have first : h₀.Helper Value (MachineM.buildFrom .tuple [.int 1, .int 2]) :=
    .build _ _ (by simp)
  have second : h₁.Helper Value (MachineM.buildFrom .tuple [.int 1, .int 3]) :=
    .build _ _ (by simp)
  obtain ⟨m, inUse, heap⟩ := second.inUse (first.inUse ⟨_, .start .standard, rfl⟩)
  have reachable : h₂.Reachable := by
    change ((MachineM.buildFrom .tuple [.int 1, .int 3]).after h₁).Reachable
    exact heap ▸ .idle inUse
  have ha : h₂.Stores (.object ⟨28⟩) (.tuple #[.int 1, .int 2]) := ⟨_, rfl, rfl⟩
  have hb : h₂.Stores (.object ⟨29⟩) (.tuple #[.int 1, .int 3]) := ⟨_, rfl, rfl⟩
  have no_nan : ∀ {a : Value} {i j : Int64}, h₂.Stores a (.tuple #[.int i, .int j]) →
      ¬h₂.HoldsNaN a := by
    rintro _ i j ⟨c, rfl, found⟩ nan
    cases nan with
    | list found' => cases found.symm.trans found'
    | tuple found' mem nan =>
      cases found.symm.trans found'
      cases nan <;> simp at mem
  have less : h₂.order "<" (.object ⟨28⟩) (.object ⟨29⟩) = .ok (some .lt) := rfl
  have holds : h₂.holds .lt (.object ⟨28⟩) (.object ⟨29⟩) = .ok true := rfl
  obtain ⟨-, -, -, greater, -, coherent⟩ :=
    Reachable.comparison_symmetric reachable (.object ⟨28⟩) (.object ⟨29⟩)
  obtain ⟨t, equal, iff⟩ := coherent (no_nan ha) (no_nan hb) "<" _ less
  refine ⟨h₂, _, _, reachable, ha, hb, holds, (greater true).mp holds, no_nan ha, no_nan hb, ?_⟩
  cases t with
  | false => exact equal
  | true => cases iff.mp rfl

end Heap

end RegisterVm
