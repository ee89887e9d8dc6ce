import RegisterVm.Proofs.Heap.Substrings
import RegisterVm.Proofs.Text.Split

/-!
# Splitting and joining strings

The methods `split`, `join` and `replace` of strings answer with new strings, whose texts are those
of `Text.split`, of putting texts together and of `Text.replace` (`HeapM.split_spec`,
`HeapM.join_spec`, `HeapM.replace_spec`). What is known of the texts therefore holds of the strings.
Main statement: `Heap.splitting`.
-/

namespace RegisterVm

variable {h : Heap} {s t u list : Value} {x y z : String}

/-- Values that are strings with the given texts. -/
def Heap.StoresTexts (h : Heap) (vs : List Value) (texts : List String) : Prop :=
  List.Forall₂ (fun v text => h.Stores v (.str text)) vs texts

theorem Heap.Enlarges.storesTexts {h' : Heap} (enlarges : h.Enlarges h') {vs : List Value}
    {texts : List String} (stored : h.StoresTexts vs texts) : h'.StoresTexts vs texts :=
  stored.imp fun _ _ => enlarges.stores

theorem Heap.StoresTexts.exists_of_mem {vs : List Value} {texts : List String}
    (stored : h.StoresTexts vs texts) {v : Value} (hv : v ∈ vs) :
    ∃ text ∈ texts, h.Stores v (.str text) := by
  induction stored with
  | nil => cases hv
  | cons here _ ih =>
    rcases List.mem_cons.mp hv with rfl | hv
    · exact ⟨_, List.mem_cons_self, here⟩
    · obtain ⟨text, member, there⟩ := ih hv
      exact ⟨text, List.mem_cons_of_mem _ member, there⟩

/-- A string that does not occur in another one. -/
theorem Heap.contains_of_not_infix (hs : h.Stores s (.str x)) (ht : h.Stores t (.str y))
    (apart : ¬y.toList <:+: x.toList) : h.contains s t = .ok false := by
  have missing : Text.find? y.toList x.toList = none := Text.find?_eq_none_iff.mpr fun k here =>
    apart (here.isInfix.trans (List.drop_suffix k _).isInfix)
  rw [contains_text hs ht, missing]
  rfl

/-- Strings with one text are equal. -/
theorem Heap.equal_of_text (hs : h.Stores s (.str x)) (ht : h.Stores t (.str x)) :
    h.equal s t = .ok true := by
  have equal : h.equal s t = .ok (x == x) := equalWithin_texts hs ht _
  rwa [beq_self_eq_true] at equal

namespace HeapM

open Heap

/-! ## New strings -/

theorem alloc_stores (o : Object) (room : h.size < 0x100000000) :
    ∃ v h', alloc o h = .ok v h' ∧ h'.Stores v o ∧ h.Enlarges h' ∧ h'.size = h.size + 1 :=
  ⟨_, _, rfl, stores_alloc h o room, .alloc h o, size_alloc h o⟩

/-- Texts are made strings one after the other. -/
theorem mapM_allocChars (texts : List (List Char)) (room : h.size + texts.length ≤ 0x100000000) :
    ∃ vs h', texts.mapM allocChars h = .ok vs h' ∧ h'.StoresTexts vs (texts.map String.ofList) ∧
      h.Enlarges h' ∧ h'.size = h.size + texts.length := by
  induction texts generalizing h with
  | nil => exact ⟨[], h, rfl, .nil, .refl h, rfl⟩
  | cons text texts ih =>
    rw [List.length_cons] at room
    obtain ⟨v, h₁, made, stored, enlarged, size⟩ :=
      alloc_stores (h := h) (.str (String.ofList text)) (by omega)
    obtain ⟨vs, h', mades, storeds, enlarged', size'⟩ := ih (h := h₁) (by omega)
    refine ⟨v :: vs, h', ?_, .cons (enlarged'.stores stored) storeds, enlarged.trans enlarged', ?_⟩
    · rw [List.mapM_cons]
      simp only [allocChars, allocText, made, mades, Bind.bind, EStateM.bind]
      rfl
    · rw [size', size, List.length_cons]
      omega

/-! ## Methods -/

/-- **`split` gives the list of the pieces.** -/
theorem split_spec (hs : h.Stores s (.str x)) (ht : h.Stores t (.str y)) (filled : y ≠ "")
    (room : h.size + (Text.split y.toList x.toList).length < 0x100000000) :
    ∃ list pieces h', callMethod s "split" [t] h = .ok list h' ∧ h'.Stores list (.list pieces) ∧
      h'.StoresTexts pieces.toList ((Text.split y.toList x.toList).map String.ofList) ∧
      h.Enlarges h' ∧ h'.size = h.size + (Text.split y.toList x.toList).length + 1 := by
  obtain ⟨vs, h₁, made, stored, enlarged, size⟩ :=
    mapM_allocChars (h := h) (Text.split y.toList x.toList) (by omega)
  obtain ⟨list, h', made', stored', enlarged', size'⟩ :=
    alloc_stores (h := h₁) (.list vs.toArray) (by omega)
  have separated : splitText x (some y) = .ok (Text.split y.toList x.toList) := by
    rw [splitText, if_neg (by simpa using filled)]
  refine ⟨list, vs.toArray, h', ?_, stored', enlarged'.storesTexts stored,
    enlarged.trans enlarged', by omega⟩
  obtain ⟨c, rfl, found⟩ := ht
  rw [callMethod_text hs (rfl : TextMethod.ofName? "split" = some .split)]
  simp only [textMethod, inspect, textArgument_eq hs, optionalArgument, optionalText,
    textArgument_eq ⟨c, rfl, found⟩, separated, Bind.bind, EStateM.bind, Pure.pure, EStateM.pure,
    made, made']

theorem joinTexts_eq {vs : List Value} {texts : List String} (stored : h.StoresTexts vs texts)
    (position : Nat) : h.joinTexts position vs = .ok texts := by
  induction stored generalizing position with
  | nil => rfl
  | cons here _ ih =>
    simp only [joinTexts, text?, here.view, ih, Bind.bind, Except.bind]
    rfl

/-- **`join` puts the texts of a list together.** -/
theorem join_spec {pieces : Array Value} {texts : List String} (hu : h.Stores u (.str z))
    (listed : h.Stores list (.list pieces)) (stored : h.StoresTexts pieces.toList texts)
    (room : h.size < 0x100000000) :
    ∃ v h', callMethod u "join" [list] h = .ok v h' ∧
      h'.Stores v (.str (z.intercalate texts)) ∧ h.Enlarges h' ∧ h'.size = h.size + 1 := by
  obtain ⟨v, h', made, joined, enlarged, size⟩ :=
    alloc_stores (h := h) (.str (z.intercalate texts)) room
  have collected : collect list h = .ok pieces h := by
    simp only [collect, view, inspect, listed.view, Bind.bind, EStateM.bind]
    rfl
  refine ⟨v, h', ?_, joined, enlarged, size⟩
  rw [callMethod_text hu (rfl : TextMethod.ofName? "join" = some .join)]
  simp only [textMethod, inspect, textArgument_eq hu, oneArgument, collected, joinTexts_eq stored,
    Bind.bind, EStateM.bind, allocText, made]

/-- **`replace` gives the text with another one in place of each occurrence.** -/
theorem replace_spec (hs : h.Stores s (.str x)) (ht : h.Stores t (.str y))
    (hu : h.Stores u (.str z)) (room : h.size < 0x100000000) :
    ∃ v h', callMethod s "replace" [t, u] h = .ok v h' ∧
      h'.Stores v (.str (String.ofList (Text.replace y.toList z.toList x.toList))) ∧
      h.Enlarges h' := by
  obtain ⟨v, h', made, stored, enlarged, -⟩ := alloc_stores (h := h)
    (.str (String.ofList (Text.replace y.toList z.toList x.toList))) room
  refine ⟨v, h', ?_, stored, enlarged⟩
  rw [callMethod_text hs (rfl : TextMethod.ofName? "replace" = some .replace)]
  simp only [textMethod, inspect, textArgument_eq hs, twoArguments, textArgument_eq ht,
    textArgument_eq hu, Bind.bind, EStateM.bind, allocChars, allocText, made]

end HeapM

namespace Heap

/-- **Splitting, joining and replacing.** Splitting a string by one that is not empty makes a list
of new strings. Joined by the separator they are the string again, none of them contains the
separator, and there is one more of them than the separator occurs from left to right. Joined by any
other string they are equal to the string with the separator replaced by that one. -/
theorem splitting (hs : h.Stores s (.str x)) (ht : h.Stores t (.str y)) (filled : y ≠ "")
    (room : h.size + (Text.split y.toList x.toList).length + 3 ≤ 0x100000000) :
    ∃ list pieces h₁, HeapM.callMethod s "split" [t] h = .ok list h₁ ∧ h.Enlarges h₁ ∧
      h₁.Stores list (.list pieces) ∧
      (∃ joined h₂, HeapM.callMethod t "join" [list] h₁ = .ok joined h₂ ∧
        h₂.Stores joined (.str x)) ∧
      (∀ p ∈ pieces, ∃ q, h₁.Stores p (.str q) ∧ h₁.contains p t = .ok false) ∧
      (∃ ks, Text.Occurrences y.toList x.toList 0 ks ∧ pieces.size = ks.length + 1) ∧
      ∀ u z, h₁.Stores u (.str z) → ∃ joined h₂ replaced h₃ w,
        HeapM.callMethod u "join" [list] h₁ = .ok joined h₂ ∧
        HeapM.callMethod s "replace" [t, u] h₂ = .ok replaced h₃ ∧
        h₃.Stores joined (.str w) ∧ h₃.Stores replaced (.str w) ∧
        h₃.equal replaced joined = .ok true := by
  have separator : y.toList ≠ [] := by simpa using filled
  obtain ⟨list, pieces, h₁, called, listed, stored, enlarged, size⟩ :=
    HeapM.split_spec hs ht filled (by omega)
  have joins : ∀ z : String, z.intercalate ((Text.split y.toList x.toList).map String.ofList) =
      String.ofList (z.toList.intercalate (Text.split y.toList x.toList)) := by
    intro z
    rw [← String.toList_inj, String.toList_intercalate, String.toList_ofList, List.map_map]
    simp
  refine ⟨list, pieces, h₁, called, enlarged, listed, ?_, fun p hp => ?_, ?_, fun u z hu => ?_⟩
  · obtain ⟨joined, h₂, called', stored', -⟩ :=
      HeapM.join_spec (enlarged.stores ht) listed stored (by omega)
    rw [joins, Text.intercalate_split separator, String.ofList_toList] at stored'
    exact ⟨joined, h₂, called', stored'⟩
  · obtain ⟨q, hq, here⟩ := stored.exists_of_mem (Array.mem_toList_iff.mpr hp)
    obtain ⟨piece, member, rfl⟩ := List.mem_map.mp hq
    have apart := Text.not_infix_of_mem_split separator member
    exact ⟨_, here, contains_of_not_infix here (enlarged.stores ht) (by simpa using apart)⟩
  · obtain ⟨ks, places, count⟩ := Text.exists_occurrences separator x.toList 0
    have length := stored.length_eq
    rw [List.length_map, Array.length_toList] at length
    exact ⟨ks, places, length.trans count⟩
  · obtain ⟨joined, h₂, called', stored', enlarged', size'⟩ :=
      HeapM.join_spec hu listed stored (by omega)
    have later := enlarged.trans enlarged'
    obtain ⟨replaced, h₃, called'', stored'', enlarged''⟩ :=
      HeapM.replace_spec (later.stores hs) (later.stores ht) (enlarged'.stores hu) (by omega)
    rw [Text.replace_eq_intercalate separator, ← joins] at stored''
    have kept := enlarged''.stores stored'
    exact ⟨joined, h₂, replaced, h₃, _, called', called'', kept, stored'',
      equal_of_text stored'' kept⟩

/-- `aa` overlaps itself in `aaabaa`, where it occurs at 0 and 4: the pieces are empty, `ab` and
empty. -/
theorem splitting_overlapping : ∃ (h : Heap) (s t u : Value), h.Reachable ∧
    h.Stores s (.str "aaabaa") ∧ h.Stores t (.str "aa") ∧ h.Stores u (.str "-") ∧
    ∃ list pieces h₁, HeapM.callMethod s "split" [t] h = .ok list h₁ ∧
      h₁.Stores list (.list pieces) ∧ pieces.size = 3 ∧
      (∃ joined h₂, HeapM.callMethod t "join" [list] h₁ = .ok joined h₂ ∧
        h₂.Stores joined (.str "aaabaa")) ∧
      ∃ joined h₂ replaced h₃, HeapM.callMethod u "join" [list] h₁ = .ok joined h₂ ∧
        HeapM.callMethod s "replace" [t, u] h₂ = .ok replaced h₃ ∧
        h₃.equal replaced joined = .ok true := by
  let h₀ := (Machine.start .standard).heap
  let h₁ := (HeapM.allocText "aaabaa").after h₀
  let h₂ := (HeapM.allocText "aa").after h₁
  have room : ((HeapM.allocText "-").after h₂).size +
      (Text.split "aa".toList "aaabaa".toList).length + 3 ≤ 0x100000000 := by decide +kernel
  obtain ⟨m, inUse, heap⟩ := (Helper.text (h := h₂) "-").inUse <|
    (Helper.text (h := h₁) "aa").inUse <|
    (Helper.text (h := h₀) "aaabaa").inUse ⟨_, .start .standard, rfl⟩
  have hs : m.heap.Stores (.object ⟨28⟩) (.str "aaabaa") := ⟨_, rfl, by rw [heap]; rfl⟩
  have ht : m.heap.Stores (.object ⟨29⟩) (.str "aa") := ⟨_, rfl, by rw [heap]; rfl⟩
  have hu : m.heap.Stores (.object ⟨30⟩) (.str "-") := ⟨_, rfl, by rw [heap]; rfl⟩
  obtain ⟨list, pieces, h₁, called, enlarges, listed, joins, -, ⟨ks, places, count⟩, replaces⟩ :=
    splitting hs ht (by decide) (heap ▸ room)
  obtain ⟨joined, h₂, replaced, h₃, -, called', called'', -, -, equal⟩ :=
    replaces _ _ (enlarges.stores hu)
  have here : Text.Occurrences "aa".toList "aaabaa".toList 0 [0, 4] :=
    .next (k := 0) (Text.find?_eq_some_iff.mp (by decide)) <|
    .next (k := 2) (Text.find?_eq_some_iff.mp (by decide)) <|
    .none (Text.find?_eq_none_iff.mp (by decide))
  rw [places.unique here] at count
  exact ⟨m.heap, _, _, _, .idle inUse, hs, ht, hu, list, pieces, h₁, called, listed, count, joins,
    joined, h₂, replaced, h₃, called', called'', equal⟩

end Heap

end RegisterVm
