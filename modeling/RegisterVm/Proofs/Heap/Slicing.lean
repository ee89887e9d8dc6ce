import RegisterVm.Proofs.Heap.Comparisons
import RegisterVm.Proofs.Heap.Indexing

/-!
# Slicing

A slice of a sequence has the items from one position up to another (`Object.IsSlice`). A bound
below zero counts from the end, and a bound outside of the sequence is moved to its nearer end
(`boundary`), however large it is (`slicePosition_eq`). So the slices before and after a bound make
up the sequence (`HeapM.rejoin_spec`).

Inserting into a list goes by the same positions, but for integers below all words, which are taken
for ones above all words (`insertPosition_eq`).

Main statements: `Heap.Reachable.indexing`, `Heap.Reachable.insertion`.
-/

namespace RegisterVm

/-! ## Bounds -/

/-- The position at which a slice with a bound starts or stops. -/
def boundary (length default : Nat) : Option Int → Nat
  | none => default
  | some k => (max 0 (min (length : Int) (if k < 0 then k + length else k))).toNat

theorem boundary_le {length default : Nat} (le : default ≤ length) (bound : Option Int) :
    boundary length default bound ≤ length := by
  cases bound with
  | none => exact le
  | some k => simp only [boundary]; omega

theorem Word.toInt_clamp (k : Int) :
    (clamp k).toInt = max (-9223372036854775808) (min 9223372036854775807 k) := by
  unfold clamp
  split
  · simp only [Int64.toInt_minValue]; omega
  · split
    · simp only [Int64.toInt_maxValue]; omega
    · rw [Int64.toInt_ofInt_of_le (by omega) (by omega)]; omega

/-- **A bound of any size is resolved like one without a limit.** -/
theorem Heap.slicePosition_eq {length : Nat} (short : length < 0x8000000000000000) (default : Nat)
    (bound : Option Int) :
    slicePosition (bound.map Word.clamp) length default = boundary length default bound := by
  cases bound with
  | none => rfl
  | some k =>
    have sign : Word.clamp k < 0 ↔ (Word.clamp k).toInt < 0 := Int64.lt_iff_toInt_lt
    simp only [slicePosition, Option.map_some, boundary, sign, Word.toInt_clamp]
    split <;> split <;> omega

/-! ## Parts of sequences -/

namespace Object

variable {o : Object} {xs : List (Value ⊕ Char)} {low high : Nat}

/-- The part of a sequence from one position up to another. -/
def part (low high : Nat) : Object → Object
  | list vs => list ((vs.toList.drop low).take (high - low)).toArray
  | tuple vs => tuple ((vs.toList.drop low).take (high - low)).toArray
  | str s => str (String.ofList ((s.toList.drop low).take (high - low)))
  | o => o

/-- An object has the type of another one, and those of its items that are at the positions from
`low` up to `high`. -/
def IsSlice (low high : Nat) (o part : Object) : Prop :=
  part.typeName = o.typeName ∧ ∃ xs ys, o.items? = some xs ∧ part.items? = some ys ∧
    ∀ i, ys[i]? = if low + i < high then xs[low + i]? else none

theorem Sequential.part (sequential : o.Sequential) (low high : Nat) :
    (o.part low high).Sequential := by
  cases sequential <;> constructor

theorem items?_part (sequential : o.Sequential) (items : o.items? = some xs) (low high : Nat) :
    (o.part low high).items? = some ((xs.drop low).take (high - low)) := by
  cases sequential <;> cases items <;>
    simp only [Object.part, items?, List.map_take, List.map_drop, String.toList_ofList]

theorem isSlice_part (sequential : o.Sequential) (low high : Nat) :
    o.IsSlice low high (o.part low high) := by
  obtain ⟨xs, items⟩ : ∃ xs, o.items? = some xs := by cases sequential <;> exact ⟨_, rfl⟩
  refine ⟨by cases sequential <;> rfl, xs, _, items, items?_part sequential items low high,
    fun i => ?_⟩
  rw [List.getElem?_take, List.getElem?_drop]
  exact if_congr (by omega) rfl rfl

theorem part_zero (vs : Array Value) (p : Nat) :
    (list vs).part 0 p = list (vs.toList.take p).toArray :=
  rfl

theorem part_size (vs : Array Value) (p : Nat) :
    (list vs).part p vs.size = list (vs.toList.drop p).toArray := by
  rw [part, List.take_of_length_le (by simp)]

/-- The parts before and after a position make up the sequence. -/
theorem binary?_parts (sequential : o.Sequential) (items : o.items? = some xs) (p : Nat)
    (a b : Value) :
    Sequence.binary? .add a b (some (o.part 0 p)) (some (o.part p xs.length)) =
      .ok (some o) := by
  have rejoined : ∀ {α : Type} (l : List α),
      (l.drop 0).take (p - 0) ++ (l.drop p).take (l.length - p) = l := by
    intro α l
    rw [List.drop_zero, Nat.sub_zero, List.take_of_length_le (l := l.drop p) (by simp),
      List.take_append_drop]
  cases sequential with
  | list vs | tuple vs =>
    cases items
    have whole := rejoined vs.toList
    simp only [part, Sequence.binary?, if_true, List.length_map, List.append_toArray, whole,
      Array.toArray_toList]
  | str s =>
    cases items
    have whole := rejoined s.toList
    simp only [part, Sequence.binary?, if_true, List.length_map, ← String.ofList_append, whole,
      String.ofList_toList]

end Object

namespace Heap

variable {h : Heap} {o : Object} {a b v : Value} {start : Option Int} {xs : List (Value ⊕ Char)}
  {vs : Array Value}

/-- A value as a bound of a slice: None, or an integer of any size. -/
inductive Bounds (h : Heap) : Value → Option Int → Prop
  | none : Bounds h .none none
  | integer {v : Value} {k : Int} : h.integer? v = some k → Bounds h v (some k)

theorem boundOf_eq (bounds : h.Bounds v start) : h.boundOf v = .ok (start.map Word.clamp) := by
  cases bounds with
  | none => rfl
  | integer integer =>
    cases v with
    | none => cases integer
    | _ => simp only [boundOf, integer, Option.map_some]

/-! ## Equal sequences -/

theorem sequenceEqual_same {equal : Value → Value → Outcome Bool} {ws : List Value}
    (same : ∀ w ∈ ws, equal w w = .ok true) : sequenceEqual equal ws ws = .ok true := by
  induction ws with
  | nil => rfl
  | cons w ws ih =>
    rw [sequenceEqual_cons (same w List.mem_cons_self)]
    exact ih fun w' mem => same w' (List.mem_cons_of_mem w mem)

/-- Lists or tuples with the same items are equal, unless one of the items is a NaN. -/
theorem Sequences.equal_same (sequences : h.Sequences a b vs vs)
    (numbers : ∀ x, .float x ∈ vs.toList → x.isNaN = false) : h.equal a b = .ok true := by
  rw [equal, sequences.equalWithin_eq]
  split
  · rfl
  · rw [if_pos rfl]
    exact sequenceEqual_same fun w mem => equalWithin_same fun x float => numbers x (float ▸ mem)

/-- Sequences with the same items are equal, unless one of the items is a NaN. -/
theorem equal_same (ha : h.Stores a o) (hb : h.Stores b o) (sequential : o.Sequential)
    (items : o.items? = some xs) (numbers : ∀ x, .inl (.float x) ∈ xs → x.isNaN = false) :
    h.equal a b = .ok true := by
  have number : ∀ {ws : List Value}, xs = ws.map .inl →
      ∀ x, .float x ∈ ws → x.isNaN = false := by
    rintro ws rfl x mem
    exact numbers x (List.mem_map_of_mem mem)
  cases sequential with
  | str s => exact (equalWithin_texts ha hb _).trans (by rw [beq_self_eq_true])
  | list vs => exact Sequences.equal_same (.list ha hb) (number (Option.some.inj items).symm)
  | tuple vs => exact Sequences.equal_same (.tuple ha hb) (number (Option.some.inj items).symm)

end Heap

namespace HeapM

open Heap

variable {functions : Nat} {h : Heap} {c : Handle} {o : Object} {a b key : Value} {k : Int}
  {start stop : Option Int} {xs : List (Value ⊕ Char)} {vs : Array Value}

/-- **A slice is a new object with the part of the sequence between its bounds.** -/
theorem slice_eq (found : h.object? c = some o) (sequential : o.Sequential)
    (items : o.items? = some xs) (short : xs.length < 0x8000000000000000)
    (ha : h.Bounds a start) (hb : h.Bounds b stop) :
    slice (.object c) a b h =
      alloc (o.part (boundary xs.length 0 start) (boundary xs.length xs.length stop)) h := by
  have viewed := view_object found
  have cut : ∀ {α : Type} (l : List α), l.length = xs.length →
      Heap.cut (start.map Word.clamp) (stop.map Word.clamp) l =
        (l.drop (boundary xs.length 0 start)).take
          (boundary xs.length xs.length stop - boundary xs.length 0 start) := by
    intro α l same
    simp only [Heap.cut, same, slicePosition_eq short]
  simp only [slice, view, inspect, boundOf_eq ha, boundOf_eq hb, viewed, Bind.bind, EStateM.bind]
  cases sequential with
  | list vs | tuple vs => cases items; simp only [cut vs.toList (by simp), Object.part]
  | str s => cases items; simp only [cut s.toList (by simp), Object.part, allocChars, allocText]

/-- Adding two sequences does no arithmetic. -/
theorem binary_add_eq {x y : Object} (ha : h.Stores a x) (hb : h.Stores b y) (hx : x.Sequential)
    (sum : Sequence.binary? .add a b (some x) (some y) = .ok (some o)) :
    binary .add a b h = alloc o h := by
  have read : (get : HeapM Heap) h = .ok h h := rfl
  have viewed := ha.view
  have viewed' := hb.view
  obtain ⟨c, rfl, found⟩ := ha
  have whole : h.integer? (.object c) = none := by
    simp only [integer?, found]
    cases hx <;> rfl
  have floats : h.mixedFloats? (.object c) b = none := by
    have small : h.float? (.object c) = none := by
      simp only [float?, Value.asFloat?, viewed]
      cases hx <;> rfl
    simp only [mixedFloats?, small]
    split <;> rfl
  have general : binary .add (.object c) b = generalBinary .add (.object c) b := rfl
  simp only [general, generalBinary, Bind.bind, EStateM.bind, read, whole, floats, inspect, viewed,
    viewed', Except.bind, sum]

/-- The slices of a sequence before and after a bound, put together again. -/
def rejoin (sequence bound : Value) : HeapM Value := do
  let before ← slice sequence .none bound
  let after ← slice sequence bound .none
  binary .add before after

/-- **The slices before and after a bound make up the sequence.** -/
theorem rejoin_spec (found : h.object? c = some o) (sequential : o.Sequential)
    (items : o.items? = some xs) (short : xs.length < 0x8000000000000000)
    (room : h.size + 3 ≤ 0x100000000) (integer : h.integer? key = some k) :
    ∃ v h', rejoin (.object c) key h = .ok v h' ∧ h'.Stores v o ∧ h'.Stores (.object c) o := by
  let p := boundary xs.length 0 (some k)
  let left := h.alloc (o.part 0 p)
  let right := left.2.alloc (o.part p xs.length)
  let whole := right.2.alloc o
  have left_size : left.2.size = h.size + 1 := size_alloc h _
  have right_size : right.2.size = h.size + 2 := by rw [size_alloc, left_size]
  have enlarged : h.Enlarges left.2 := .alloc h _
  have enlarged' : left.2.Enlarges right.2 := .alloc left.2 _
  have before : slice (.object c) .none key h = .ok (.object left.1) left.2 :=
    slice_eq found sequential items short .none (.integer integer)
  have after : slice (.object c) key .none left.2 = .ok (.object right.1) right.2 :=
    slice_eq (enlarged.object? found) sequential items short (.integer (enlarged.integer? integer))
      .none
  have sum : binary .add (.object left.1) (.object right.1) right.2 =
      .ok (.object whole.1) whole.2 :=
    binary_add_eq (enlarged'.stores (stores_alloc h _ (by omega)))
      (stores_alloc left.2 _ (by omega))
      (sequential.part 0 p) (Object.binary?_parts sequential items p _ _)
  refine ⟨.object whole.1, whole.2, ?_, stores_alloc right.2 o (by omega),
    ((enlarged.trans enlarged').trans (.alloc right.2 o)).stores ⟨c, rfl, found⟩⟩
  simp only [rejoin, Bind.bind, EStateM.bind, before, after, sum]

/-! ## Inserting -/

/-- **An item is inserted where slices are cut**, but an integer below all words is taken for one
above all words. -/
theorem insertPosition_eq {length : Nat} (short : length < 0x8000000000000000) (k : Int) :
    insertPosition ((Word.ofInt? k).getD Int64.maxValue) length =
      if k < -0x8000000000000000 then length else boundary length 0 (some k) := by
  have word : (Word.ofInt? k).getD Int64.maxValue =
      if k < -0x8000000000000000 then Int64.maxValue else Word.clamp k := by
    grind [Word.ofInt?, Word.fits, Word.clamp]
  have largest : min Int64.maxValue.toInt.toNat length = length := by
    rw [Int64.toInt_maxValue]
    omega
  rw [word]
  split
  · exact largest
  · exact slicePosition_eq short 0 (some k)

theorem insertIdx_eq_append {α : Type} {l : List α} {p : Nat} (le : p ≤ l.length) (x : α) :
    l.insertIdx p x = l.take p ++ x :: l.drop p := by
  induction l generalizing p with
  | nil =>
    cases Nat.le_zero.mp le
    rfl
  | cons y l ih =>
    cases p with
    | zero => rfl
    | succ p => rw [List.insertIdx_succ_cons, ih (Nat.le_of_succ_le_succ le)]; rfl

theorem insertIdxIfInBounds_eq {vs : Array Value} {p : Nat} (le : p ≤ vs.size) (x : Value) :
    vs.insertIdxIfInBounds p x =
      (vs.toList.take p).toArray ++ #[x] ++ (vs.toList.drop p).toArray := by
  rw [Array.insertIdxIfInBounds, dif_pos le, ← Array.toList_inj, Array.toList_insertIdx,
    insertIdx_eq_append (by simpa using le)]
  simp

theorem insertIdxIfInBounds_size (vs : Array Value) (x : Value) :
    vs.insertIdxIfInBounds vs.size x = vs.push x := by
  rw [insertIdxIfInBounds_eq le_rfl, List.take_of_length_le (by simp),
    List.drop_eq_nil_of_le (by simp), Array.toArray_toList, Array.append_empty,
    Array.push_eq_append]

/-- What `insert` does with an integer of any size. -/
theorem insert_eq (sound : h.Sound functions) (found : h.object? c = some (.list vs))
    (short : vs.size < 0x8000000000000000) (integer : h.integer? key = some k) (x : Value) :
    callMethod (.object c) "insert" [key, x] h = .ok .none (h.modify c fun _ =>
      .list (vs.insertIdxIfInBounds
        (if k < -0x8000000000000000 then vs.size else boundary vs.size 0 (some k)) x)) := by
  have viewed := view_object found
  rw [← insertPosition_eq short]
  simp only [callMethod, view, inspect, viewed, Bind.bind, EStateM.bind, ListMethod.ofName?,
    listMethod, twoArguments, indexOf_eq sound integer, insertItem, listItems_eq found]
  refine congrArg _ (modify_congr fun o same => ?_)
  cases found.symm.trans same
  rfl

end HeapM

/-! ## Reachable heaps -/

namespace Heap

variable {h : Heap} {c : Handle} {o : Object} {key : Value} {k : Int}
  {xs : List (Value ⊕ Char)} {vs : Array Value}

/-- A list of words may be found beside an integer that is not a word. -/
theorem Reachable.exists_list {k : Int} (large : Word.fits k = false) (words : List Int64) :
    ∃ (h : Heap) (c : Handle) (key : Value), h.Reachable ∧ h.size + 3 ≤ 0x100000000 ∧
      h.object? c = some (.list (words.map .int).toArray) ∧ h.integer? key = some k := by
  let h₀ := (Machine.start .standard).heap
  let h₁ := (h₀.alloc (.big k)).2
  let h₂ := (h₁.alloc (.list (words.map .int).toArray)).2
  have size₀ : h₀.size = 28 := by decide +kernel
  have size₁ : h₁.size = 29 := by rw [size_alloc, size₀]
  have size₂ : h₂.size = 30 := by rw [size_alloc, size₁]
  have boxed : (HeapM.allocInteger k).after h₀ = h₁ := by
    simp only [HeapM.after, HeapM.allocInteger, Word.ofInt?, large]
    rfl
  obtain ⟨m, inUse, heap⟩ := (Helper.build (h := h₁) .list (words.map .int) (by simp)).inUse <|
    boxed ▸ (Helper.integer (h := h₀) k).inUse ⟨_, .start .standard, rfl⟩
  have reachable : h₂.Reachable := (show m.heap = h₂ from heap) ▸ .idle inUse
  have integer : h₁.integer? (.object (h₀.alloc (.big k)).1) = some k := by
    simp only [integer?, h₁, h₀.object?_alloc _ (by omega)]
  exact ⟨h₂, _, _, reachable, by omega, h₁.object?_alloc _ (by omega),
    (Enlarges.alloc h₁ _).integer? integer⟩

/-- **Indexing and slicing sequences** with integers of any size. An item is read, assigned to or
removed exactly when the index is in range, at the same position by all three. Every slice has the
items at the positions between its bounds, and the slices before and after a bound make up the
sequence. -/
theorem Reachable.indexing (reachable : h.Reachable) (found : h.object? c = some o)
    (sequential : o.Sequential) (items : o.items? = some xs)
    (short : xs.length < 0x8000000000000000) (room : h.size + 3 ≤ 0x100000000) :
    (∀ key k, h.integer? key = some k →
      HeapM.Resolves h xs.length k (HeapM.getItem (.object c) key)
        (fun p v h' => ∃ x, xs[p]? = some x ∧ h'.Presents x v) ∧
      ∀ vs, o = .list vs →
        (∀ value, HeapM.Resolves h xs.length k (HeapM.setItem (.object c) key value)
          fun p _ h' => h' = h.modify c fun _ => .list (vs.setIfInBounds p value)) ∧
        HeapM.Resolves h xs.length k (HeapM.callMethod (.object c) "pop" [key])
          fun p v h' => vs[p]? = some v ∧
            h' = h.modify c fun _ => .list (vs.eraseIdxIfInBounds p)) ∧
    (∀ a b start stop, h.Bounds a start → h.Bounds b stop →
      ∃ v h' part, HeapM.slice (.object c) a b h = .ok v h' ∧ h'.Stores v part ∧
        o.IsSlice (boundary xs.length 0 start) (boundary xs.length xs.length stop) part) ∧
    ∀ key k, h.integer? key = some k →
      ∃ v h', HeapM.rejoin (.object c) key h = .ok v h' ∧ h'.Stores v o ∧
        ((∀ x, .inl (.float x) ∈ xs → x.isNaN = false) →
          h'.equal v (.object c) = .ok true) := by
  obtain ⟨functions, sound⟩ := reachable.sound
  refine ⟨fun key k integer => ⟨?_, ?_⟩, fun a b start stop ha hb => ?_, fun key k integer => ?_⟩
  · exact HeapM.getItem_resolves sound found sequential items short integer
  · rintro vs rfl
    cases items
    simp only [List.length_map, Array.length_toList] at short ⊢
    exact ⟨HeapM.setItem_resolves sound found short integer,
      HeapM.pop_resolves sound found short integer⟩
  · exact ⟨_, _, _, HeapM.slice_eq found sequential items short ha hb,
      stores_alloc h _ (by omega), Object.isSlice_part sequential _ _⟩
  · obtain ⟨v, h', ran, stored, stored'⟩ :=
      HeapM.rejoin_spec found sequential items short room integer
    exact ⟨v, h', ran, stored, equal_same stored stored' sequential items⟩

/-- The list of 1, 2 and 3 at -3 and at 2 ^ 64. -/
theorem Reachable.indexing_list : ∃ (h : Heap) (c : Handle) (key : Value), h.Reachable ∧
    h.object? c = some (.list #[.int 1, .int 2, .int 3]) ∧
    h.integer? key = some 0x10000000000000000 ∧
    (∃ v h', HeapM.getItem (.object c) (.int (-3)) h = .ok v h' ∧ h'.Presents (.inl (.int 1)) v) ∧
    (¬∃ v h', HeapM.callMethod (.object c) "pop" [key] h = .ok v h') ∧
    (∃ v h' part, HeapM.slice (.object c) (.int (-2)) key h = .ok v h' ∧ h'.Stores v part ∧
      Object.IsSlice 1 3 (.list #[.int 1, .int 2, .int 3]) part) ∧
    ∃ v h', HeapM.rejoin (.object c) key h = .ok v h' ∧ h'.equal v (.object c) = .ok true := by
  obtain ⟨h, c, key, reachable, room, found, large⟩ :=
    exists_list (k := 0x10000000000000000) (by decide) [1, 2, 3]
  obtain ⟨at_key, slices, rejoins⟩ :=
    Reachable.indexing reachable found (.list _) rfl (by decide) room
  obtain ⟨read, -⟩ := at_key (.int (-3)) (-3) rfl
  obtain ⟨v, h₁, got⟩ := read.succeeds.mpr (by decide)
  obtain ⟨x, first, presents⟩ := read.picked 0 v h₁ (by decide) got
  cases first
  obtain ⟨-, popped⟩ := (at_key key _ large).2 _ rfl
  obtain ⟨w, h₂, rejoined, -, equal⟩ := rejoins key _ large
  have low : boundary 3 0 (some (-2)) = 1 := by decide
  have high : boundary 3 3 (some 0x10000000000000000) = 3 := by decide
  have sliced := slices (.int (-2)) key (some (-2)) _ (.integer rfl) (.integer large)
  refine ⟨h, c, key, reachable, found, large, ⟨v, h₁, got, presents⟩, ?_, low ▸ high ▸ sliced,
    w, h₂, rejoined, equal (by simp)⟩
  rw [popped.succeeds]
  decide

/-- **Inserting into a list splits it where slicing splits it**, but for an integer below all words:
the slice before it is empty, and yet the item is inserted behind all others. -/
theorem Reachable.insertion (reachable : h.Reachable) (found : h.object? c = some (.list vs))
    (short : vs.size < 0x8000000000000000) (room : h.size < 0x100000000)
    (integer : h.integer? key = some k) (x : Value) :
    ∃ before after a b h₁ h₂, HeapM.slice (.object c) .none key h = .ok a h₁ ∧
      h₁.Stores a (.list before) ∧ HeapM.slice (.object c) key .none h = .ok b h₂ ∧
      h₂.Stores b (.list after) ∧
      HeapM.callMethod (.object c) "insert" [key, x] h = .ok .none (h.modify c fun _ =>
        .list (if k < -0x8000000000000000 then vs.push x else before ++ #[x] ++ after)) ∧
      (k < -0x8000000000000000 → before = #[] ∧ after = vs) := by
  obtain ⟨functions, sound⟩ := reachable.sound
  let p := boundary vs.size 0 (some k)
  have size : (vs.toList.map (Sum.inl (β := Char))).length = vs.size := by simp
  have front : HeapM.slice (.object c) .none key h =
      HeapM.alloc (.list (vs.toList.take p).toArray) h := by
    rw [HeapM.slice_eq found (.list vs) rfl (size ▸ short) .none (.integer integer), size]
    exact congrArg (HeapM.alloc · h) (Object.part_zero vs p)
  have rear : HeapM.slice (.object c) key .none h =
      HeapM.alloc (.list (vs.toList.drop p).toArray) h := by
    rw [HeapM.slice_eq found (.list vs) rfl (size ▸ short) (.integer integer) .none, size]
    exact congrArg (HeapM.alloc · h) (Object.part_size vs p)
  refine ⟨_, _, _, _, _, _, front, stores_alloc h _ room, rear, stores_alloc h _ room, ?_,
    fun small => ?_⟩
  · rw [HeapM.insert_eq sound found short integer x]
    split
    · rw [HeapM.insertIdxIfInBounds_size]
    · rw [HeapM.insertIdxIfInBounds_eq (boundary_le (Nat.zero_le _) _)]
  · have first : p = 0 := by simp only [p, boundary]; omega
    rw [first]
    exact ⟨rfl, Array.toArray_toList⟩

/-- The list of 1 and 2, where 0 is inserted at -2 ^ 64. -/
theorem Reachable.insertion_list : ∃ (h : Heap) (c : Handle) (key : Value), h.Reachable ∧
    h.object? c = some (.list #[.int 1, .int 2]) ∧
    h.integer? key = some (-0x10000000000000000) ∧
    (∃ v h', HeapM.slice (.object c) .none key h = .ok v h' ∧ h'.Stores v (.list #[])) ∧
    (∃ v h', HeapM.slice (.object c) key .none h = .ok v h' ∧
      h'.Stores v (.list #[.int 1, .int 2])) ∧
    HeapM.callMethod (.object c) "insert" [key, .int 0] h =
      .ok .none (h.modify c fun _ => .list #[.int 1, .int 2, .int 0]) := by
  obtain ⟨h, c, key, reachable, room, found, large⟩ :=
    exists_list (k := -0x10000000000000000) (by decide) [1, 2]
  obtain ⟨before, after, a, b, h₁, h₂, front, first, rear, second, inserted, small⟩ :=
    Reachable.insertion reachable found (by decide) (by omega) large (.int 0)
  obtain ⟨rfl, rfl⟩ := small (by decide)
  exact ⟨h, c, key, reachable, found, large, ⟨a, h₁, front, first⟩, ⟨b, h₂, rear, second⟩,
    inserted⟩

end Heap

end RegisterVm
