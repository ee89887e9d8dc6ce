import RegisterVm.Proofs.Heap.Slicing
import RegisterVm.Proofs.Text.Search

/-!
# Strings in strings

A string occurs in another one where the slice of its length equals it (`HeapM.occursAt`), and ends
another one when the slice with the last items equals it (`HeapM.endsIn`). These are programs of
slices, lengths and comparisons. What they answer is said by the characters (`HeapM.occursAt_spec`,
`HeapM.endsIn_spec`), and so is what the methods of strings answer. Main statement, of characters
and of UTF-8 bytes: `Heap.substrings`.
-/

namespace RegisterVm

variable {h : Heap} {s t : Value} {x y : String}

namespace HeapM

open Heap

/-- Whether `s[start : stop] == t`. -/
def sliceEquals (s start stop t : Value) : HeapM Bool := do
  let part ← slice s start stop
  inspect fun h => h.equal part t

/-- Whether `s[k : k + len(t)] == t`. -/
def occursAt (s t : Value) (k : Nat) : HeapM Bool := do
  let length ← inspect fun h => h.length t
  let start ← allocInteger k
  let stop ← allocInteger (k + length.toInt)
  sliceEquals s start stop t

/-- Whether `len(t) <= len(s)` and `s[len(s) - len(t) :] == t`. -/
def endsIn (s t : Value) : HeapM Bool := do
  let whole ← inspect fun h => h.length s
  let length ← inspect fun h => h.length t
  if length ≤ whole then sliceEquals s (.int (whole - length)) .none t else return false

/-! ## Slices of strings -/

theorem length_text (stored : h.Stores s (.str x)) (short : x.length < 0x8000000000000000) :
    ∃ n, h.length s = .ok n ∧ n.toInt = x.toList.length := by
  refine ⟨Int64.ofNat x.length, ?_, ?_⟩
  · simp only [Heap.length, stored.view, Bind.bind, Except.bind]
    rfl
  · rw [String.length_toList, Int64.toInt_ofNat_of_lt short]

/-- Integers are made without changing what is there. -/
theorem allocInteger_enlarges (n : Int) (room : h.size < 0x100000000) :
    ∃ v h', allocInteger n h = .ok v h' ∧ h'.integer? v = some n ∧ h.Enlarges h' ∧
      h'.size ≤ h.size + 1 := by
  obtain ⟨v, h', made, yields⟩ := allocInteger_yields h n
  refine ⟨v, h', made, yields.value room, ?_⟩
  cases fits : Word.fits n with
  | true =>
    obtain ⟨-, rfl⟩ := yields.word fits
    exact ⟨.refl _, Nat.le_succ _⟩
  | false =>
    obtain ⟨-, rfl⟩ := yields.boxed fits
    exact ⟨.alloc h _, Nat.le_of_eq (size_alloc h _)⟩

/-- The characters between two bounds. -/
def between (start stop : Option Int) (l : List Char) : List Char :=
  (l.drop (boundary l.length 0 start)).take
    (boundary l.length l.length stop - boundary l.length 0 start)

/-- A slice of a string is compared by its characters. -/
theorem sliceEquals_spec {a b : Value} {start stop : Option Int} (hs : h.Stores s (.str x))
    (ht : h.Stores t (.str y)) (short : x.length < 0x8000000000000000)
    (room : h.size < 0x100000000) (ha : h.Bounds a start) (hb : h.Bounds b stop) :
    ∃ r h', sliceEquals s a b t h = .ok r h' ∧
      (r = true ↔ between start stop x.toList = y.toList) := by
  obtain ⟨c, rfl, found⟩ := hs
  have size : (x.toList.map (Sum.inr (α := Value))).length = x.toList.length := List.length_map _
  let part := String.ofList (between start stop x.toList)
  let sliced := h.alloc (.str part)
  have made : slice (.object c) a b h = .ok (.object sliced.1) sliced.2 := by
    rw [slice_eq found (.str x) rfl (by rwa [size, String.length_toList]) ha hb, size]
    rfl
  have equal : sliced.2.equal (.object sliced.1) t = .ok (part == y) :=
    equalWithin_texts (stores_alloc h _ room) ((Enlarges.alloc h _).stores ht) _
  refine ⟨part == y, sliced.2, ?_, ?_⟩
  · simp only [sliceEquals, Bind.bind, EStateM.bind, made, inspect, equal]
  · rw [beq_iff_eq, ← String.toList_inj, String.toList_ofList]

theorem boundary_of_nonneg (length default k : Nat) :
    boundary length default (some k) = min k length := by
  simp only [boundary]
  omega

/-- The characters from a position on, as many as there are. -/
theorem between_add (l : List Char) (k count : Nat) :
    between (some k) (some (k + count)) l = (l.drop k).take count := by
  have stop := boundary_of_nonneg l.length l.length (k + count)
  rw [Int.natCast_add] at stop
  have start : l.drop (min k l.length) = l.drop k :=
    List.drop_eq_drop_iff.mpr (by rw [min_assoc, min_self])
  rw [between, boundary_of_nonneg, stop, start, List.take_eq_take_iff, List.length_drop]
  omega

theorem between_none (l : List Char) {k : Nat} (le : k ≤ l.length) :
    between (some k) none l = l.drop k := by
  rw [between, boundary_of_nonneg, Nat.min_eq_left le]
  exact List.take_of_length_le (Nat.le_of_eq List.length_drop)

/-! ## Answers -/

/-- **A string occurs where its characters do.** -/
theorem occursAt_spec (hs : h.Stores s (.str x)) (ht : h.Stores t (.str y))
    (short : x.length < 0x8000000000000000) (short' : y.length < 0x8000000000000000)
    (room : h.size + 3 ≤ 0x100000000) (k : Nat) :
    ∃ r h', occursAt s t k h = .ok r h' ∧ (r = true ↔ y.toList <+: x.toList.drop k) := by
  obtain ⟨n, length, count⟩ := length_text ht short'
  obtain ⟨a, h₁, made, first, enlarged, size⟩ := allocInteger_enlarges (h := h) k (by omega)
  obtain ⟨b, h₂, made', last, enlarged', size'⟩ :=
    allocInteger_enlarges (h := h₁) (k + n.toInt) (by omega)
  have enlarges := enlarged.trans enlarged'
  obtain ⟨r, h', ran, answer⟩ := sliceEquals_spec (enlarges.stores hs) (enlarges.stores ht) short
    (by omega) (.integer (enlarged'.integer? first)) (.integer last)
  refine ⟨r, h', ?_, ?_⟩
  · simp only [occursAt, inspect, length, Bind.bind, EStateM.bind, made, made', ran]
  · rw [answer, count, between_add, List.prefix_iff_eq_take, eq_comm]

/-- **A string ends another one when its characters do.** -/
theorem endsIn_spec (hs : h.Stores s (.str x)) (ht : h.Stores t (.str y))
    (short : x.length < 0x8000000000000000) (short' : y.length < 0x8000000000000000)
    (room : h.size < 0x100000000) :
    ∃ r h', endsIn s t h = .ok r h' ∧ (r = true ↔ y.toList <:+ x.toList) := by
  obtain ⟨n, whole, count⟩ := length_text hs short
  obtain ⟨m, length, count'⟩ := length_text ht short'
  have order : m ≤ n ↔ y.toList.length ≤ x.toList.length := by
    rw [Int64.le_iff_toInt_le, count, count', Int.ofNat_le]
  by_cases le : y.toList.length ≤ x.toList.length
  · have rest : h.integer? (.int (n - m)) =
        some ((x.toList.length - y.toList.length : Nat) : Int) := by
      rw [← String.length_toList] at short short'
      rw [integer?, Int64.toInt_sub, count, count', Int.bmod_eq_of_le (by omega) (by omega),
        Int.ofNat_sub le]
    obtain ⟨r, h', ran, answer⟩ := sliceEquals_spec hs ht short room (.integer rest) .none
    refine ⟨r, h', ?_, ?_⟩
    · simp only [endsIn, inspect, whole, length, Bind.bind, EStateM.bind, if_pos (order.mpr le),
        ran]
    · rw [answer, between_none _ (Nat.sub_le _ _), List.suffix_iff_eq_drop, eq_comm]
  · refine ⟨false, h, ?_, iff_of_false Bool.false_ne_true fun ends => le ends.length_le⟩
    simp only [endsIn, inspect, whole, length, Bind.bind, EStateM.bind, if_neg (mt order.mp le)]
    rfl

/-! ## Methods -/

theorem textArgument_eq (stored : h.Stores s (.str x)) (name : String) :
    h.textArgument name s = .ok x := by
  simp only [textArgument, text?, stored.view]

theorem oneText_eq (stored : h.Stores t (.str y)) (name : String) :
    oneText name [t] h = .ok y h := by
  simp only [oneText, oneArgument, inspect, textArgument_eq stored, Bind.bind, EStateM.bind]

theorem callMethod_text {name : String} {method : TextMethod} (stored : h.Stores s (.str x))
    (known : TextMethod.ofName? name = some method) (args : List Value) :
    callMethod s name args h = textMethod method s args h := by
  simp only [callMethod, view, inspect, stored.view, known, Bind.bind, EStateM.bind]

theorem callMethod_startsWith (hs : h.Stores s (.str x)) (ht : h.Stores t (.str y)) (r : Bool) :
    callMethod s "startswith" [t] h = .ok (.bool r) h ↔ (r = true ↔ y.toList <+: x.toList) := by
  have called : callMethod s "startswith" [t] h =
      .ok (.bool (y.toList.isPrefixOf x.toList)) h := by
    rw [callMethod_text hs (rfl : TextMethod.ofName? "startswith" = some .startsWith)]
    simp only [textMethod, inspect, textArgument_eq hs, oneText_eq ht, Bind.bind, EStateM.bind]
    rfl
  rw [called, EStateM.Result.ok.injEq, and_iff_left rfl, Value.bool.injEq, Bool.eq_iff_iff,
    List.isPrefixOf_iff_prefix]
  exact iff_comm

theorem callMethod_endsWith (hs : h.Stores s (.str x)) (ht : h.Stores t (.str y)) (r : Bool) :
    callMethod s "endswith" [t] h = .ok (.bool r) h ↔ (r = true ↔ y.toList <:+ x.toList) := by
  have called : callMethod s "endswith" [t] h =
      .ok (.bool (y.toList.isSuffixOf x.toList)) h := by
    rw [callMethod_text hs (rfl : TextMethod.ofName? "endswith" = some .endsWith)]
    simp only [textMethod, inspect, textArgument_eq hs, oneText_eq ht, Bind.bind, EStateM.bind]
    rfl
  rw [called, EStateM.Result.ok.injEq, and_iff_left rfl, Value.bool.injEq, Bool.eq_iff_iff,
    List.isSuffixOf_iff_suffix]
  exact iff_comm

theorem callMethod_find (hs : h.Stores s (.str x)) (ht : h.Stores t (.str y)) :
    callMethod s "find" [t] h = .ok (match Text.find? y.toList x.toList with
      | some k => .int (Int64.ofNat k)
      | none => .int (-1)) h := by
  rw [callMethod_text hs (rfl : TextMethod.ofName? "find" = some .find)]
  simp only [textMethod, inspect, textArgument_eq hs, oneText_eq ht, Bind.bind, EStateM.bind]
  cases Text.find? y.toList x.toList <;> rfl

/-- **`find` gives the first position**, or -1. -/
theorem find_spec (hs : h.Stores s (.str x)) (ht : h.Stores t (.str y))
    (short : x.length < 0x8000000000000000) :
    ∃ i, callMethod s "find" [t] h = .ok (.int i) h ∧
      (∀ k : Nat, i.toInt = k ↔ Text.FirstAt y.toList x.toList k) ∧
      (i = -1 ↔ Text.find? y.toList x.toList = none) := by
  have called := callMethod_find hs ht
  cases found : Text.find? y.toList x.toList with
  | some p =>
    have first := Text.find?_eq_some_iff.mp found
    have word : (Int64.ofNat p).toInt = p :=
      Int64.toInt_ofNat_of_lt (Nat.lt_of_le_of_lt (String.length_toList ▸ first.le) short)
    refine ⟨Int64.ofNat p, by rw [called, found], fun k => ?_,
      iff_of_false (fun same => ?_) (Option.some_ne_none p)⟩
    · rw [word, Int.ofNat_inj]
      exact ⟨fun same => same ▸ first, first.unique⟩
    · rw [same] at word
      have negative : (-1 : Int64).toInt = -1 := rfl
      omega
  | none =>
    have nowhere := Text.find?_eq_none_iff.mp found
    refine ⟨-1, by rw [called, found], fun k => iff_of_false (fun same => ?_) fun first => ?_,
      iff_of_true rfl rfl⟩
    · have negative : (-1 : Int64).toInt = -1 := rfl
      omega
    · exact nowhere k first.here

end HeapM

namespace Heap

/-- A string contains another one when that is found in it. -/
theorem contains_text (hs : h.Stores s (.str x)) (ht : h.Stores t (.str y)) :
    h.contains s t = .ok (Text.find? y.toList x.toList).isSome := by
  simp only [contains, text?, hs.view, ht.view, Bind.bind, Except.bind]
  rfl

/-- Whether `s[k : k + len(t)] == t` is true. -/
def Occurs (h : Heap) (s t : Value) (k : Nat) : Prop :=
  ∃ h', HeapM.occursAt s t k h = .ok true h'

/-- **Strings in strings.** The slice of the length of a string at a position can be compared with
the string. `find` gives the smallest position, counted in characters, at which they are equal, and
-1 exactly when there is none. A string contains another one when `find` does not give -1, starts
with it when `find` gives 0, and ends with it when it is not shorter and the slice with as many of
its last characters equals the other.

A search in the UTF-8 bytes comes to the same: as many characters as `find` gives have the bytes
before the first occurrence of the bytes, `find` gives -1 when these occur at no byte, and the bytes
at the end decide how the string ends. -/
theorem substrings (hs : h.Stores s (.str x)) (ht : h.Stores t (.str y))
    (short : x.length < 0x8000000000000000) (short' : y.length < 0x8000000000000000)
    (room : h.size + 3 ≤ 0x100000000) :
    (∀ k, ∃ r h', HeapM.occursAt s t k h = .ok r h') ∧
    ∃ i, HeapM.callMethod s "find" [t] h = .ok (.int i) h ∧
      (∀ k : Nat, i.toInt = k ↔ h.Occurs s t k ∧ ∀ j < k, ¬h.Occurs s t j) ∧
      (i = -1 ↔ ∀ k, ¬h.Occurs s t k) ∧
      h.contains s t = .ok (i != -1) ∧
      HeapM.callMethod s "startswith" [t] h = .ok (.bool (i == 0)) h ∧
      (∃ r h', HeapM.endsIn s t h = .ok r h' ∧
        HeapM.callMethod s "endswith" [t] h = .ok (.bool r) h ∧
        (r = true ↔ Text.bytes y.toList <:+ Text.bytes x.toList)) ∧
      (∀ k : Nat, i.toInt = k ↔ k ≤ x.toList.length ∧ Text.FirstAt (Text.bytes y.toList)
        (Text.bytes x.toList) (Text.offset x.toList k)) ∧
      (i = -1 ↔ ∀ b, ¬Text.bytes y.toList <+: (Text.bytes x.toList).drop b) := by
  have answers := HeapM.occursAt_spec hs ht short short' room
  have occurs : ∀ k, h.Occurs s t k ↔ y.toList <+: x.toList.drop k := by
    intro k
    obtain ⟨r, h', ran, answer⟩ := answers k
    rw [← answer]
    exact ⟨fun ⟨_, ran'⟩ => by cases ran.symm.trans ran'; rfl, fun yes => ⟨h', yes ▸ ran⟩⟩
  obtain ⟨i, called, first, missing⟩ := HeapM.find_spec hs ht short
  obtain ⟨r, h', ran, ends⟩ := HeapM.endsIn_spec hs ht short short' (by omega)
  refine ⟨fun k => ?_, i, called, fun k => ?_, ?_, ?_, ?_, ⟨r, h', ran, ?_, ?_⟩, fun k => ?_, ?_⟩
  · obtain ⟨r, h', ran, -⟩ := answers k
    exact ⟨r, h', ran⟩
  · simp only [first, occurs]
    exact ⟨fun found => ⟨found.here, found.first⟩, fun ⟨here, first⟩ => ⟨here, first⟩⟩
  · simp only [missing, Text.find?_eq_none_iff, occurs]
  · rw [contains_text hs ht, Except.ok.injEq, Bool.eq_iff_iff, bne_iff_ne, Ne, missing,
      Option.isSome_iff_ne_none]
  · rw [HeapM.callMethod_startsWith hs ht, beq_iff_eq, ← Text.FirstAt.zero_iff, ← first,
      ← Int64.toInt_inj]
    rfl
  · rw [HeapM.callMethod_endsWith hs ht, ends]
  · rw [ends, Text.suffix_bytes_iff]
  · rw [first, ← Text.find?_eq_some_iff, Text.find?_eq_some_iff_bytes]
  · rw [missing, Text.find?_eq_none_iff_bytes]

/-- The two bytes of `é` count as one character before the `l`, which is behind three bytes. -/
theorem substrings_accent : ∃ (h : Heap) (s t : Value), h.Reachable ∧
    h.Stores s (.str "héllo") ∧ h.Stores t (.str "l") ∧
    HeapM.callMethod s "find" [t] h = .ok (.int 2) h ∧
    h.Occurs s t 2 ∧ (∀ k < 2, ¬h.Occurs s t k) ∧ h.contains s t = .ok true ∧
    HeapM.callMethod s "startswith" [t] h = .ok (.bool false) h ∧
    Text.FirstAt (Text.bytes "l".toList) (Text.bytes "héllo".toList) 3 := by
  let h₀ := (Machine.start .standard).heap
  let h₁ := (HeapM.allocText "héllo").after h₀
  have room : ((HeapM.allocText "l").after h₁).size + 3 ≤ 0x100000000 := by decide +kernel
  obtain ⟨m, inUse, heap⟩ := (Helper.text (h := h₁) "l").inUse <|
    (Helper.text (h := h₀) "héllo").inUse ⟨_, .start .standard, rfl⟩
  have hs : m.heap.Stores (.object ⟨28⟩) (.str "héllo") := ⟨_, rfl, by rw [heap]; rfl⟩
  have ht : m.heap.Stores (.object ⟨29⟩) (.str "l") := ⟨_, rfl, by rw [heap]; rfl⟩
  have found : HeapM.callMethod (.object ⟨28⟩) "find" [.object ⟨29⟩] m.heap =
      .ok (.int 2) m.heap := HeapM.callMethod_find hs ht
  obtain ⟨-, i, called, first, -, contained, starts, -, inBytes, -⟩ :=
    substrings hs ht (by decide) (by decide) (heap ▸ room)
  cases called.symm.trans found
  obtain ⟨occurs, before⟩ := (first 2).mp rfl
  exact ⟨m.heap, _, _, .idle inUse, hs, ht, found, occurs, before, contained, starts,
    ((inBytes 2).mp rfl).2⟩

end Heap

end RegisterVm
