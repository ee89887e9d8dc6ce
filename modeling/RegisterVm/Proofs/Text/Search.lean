import Mathlib.Data.List.Basic
import Mathlib.Data.Nat.Find
import Mathlib.Data.String.Basic
import RegisterVm.Text.Search

/-!
# The first occurrence of a text

`find?` gives the first position at which a text occurs (`find?_eq_some_iff`). It may as well be
looked for in the UTF-8 bytes: where the bytes of a text occur, they start with a character
(`prefix_drop_bytes_iff`), so the first occurrence of the bytes is as many characters from the start
as `find?` says (`find?_eq_some_iff_bytes`). In the same way texts start and end with another text
when their bytes do (`prefix_bytes_iff`, `suffix_bytes_iff`).

A character is read where its bytes start (`get?_offset`), and the next one is behind them
(`offset_add_utf8Size`).
-/

namespace RegisterVm.Text

/-! ## Searching -/

section Lists

variable {α : Type} {needle s : List α} {c : α} {k l : Nat}

/-- A list occurs in another one at a position, and not before it. -/
structure FirstAt (needle s : List α) (k : Nat) : Prop where
  here : needle <+: s.drop k
  first : ∀ j < k, ¬needle <+: s.drop j

namespace FirstAt

theorem unique (found : FirstAt needle s k) (found' : FirstAt needle s l) : k = l := by
  rcases Nat.lt_trichotomy k l with lt | rfl | lt
  · exact absurd found.here (found'.first k lt)
  · rfl
  · exact absurd found'.here (found.first l lt)

theorem zero_iff : FirstAt needle s 0 ↔ needle <+: s :=
  ⟨fun found => found.here, fun here => ⟨here, fun j lt => absurd lt (Nat.not_lt_zero j)⟩⟩

theorem succ_iff :
    FirstAt needle (c :: s) (k + 1) ↔ ¬needle <+: c :: s ∧ FirstAt needle s k := by
  constructor
  · rintro ⟨here, first⟩
    exact ⟨first 0 (Nat.succ_pos k), here, fun j lt => first (j + 1) (Nat.succ_lt_succ lt)⟩
  · rintro ⟨other, here, first⟩
    refine ⟨here, fun j lt => ?_⟩
    cases j with
    | zero => exact other
    | succ j => exact first j (Nat.lt_of_succ_lt_succ lt)

/-- Nothing occurs for the first time behind the end. -/
theorem le (found : FirstAt needle s k) : k ≤ s.length := by
  by_contra beyond
  have empty : s.drop k = s.drop s.length := by
    rw [List.drop_length, List.drop_eq_nil_of_le (Nat.le_of_not_le beyond)]
  exact found.first s.length (Nat.lt_of_not_le beyond) (empty ▸ found.here)

/-- Where a list occurs at all, it occurs for the first time. -/
theorem exists_of_prefix (here : needle <+: s.drop k) : ∃ k, FirstAt needle s k := by
  classical
  have some : ∃ k, needle <+: s.drop k := ⟨k, here⟩
  exact ⟨Nat.find some, Nat.find_spec some, fun j => Nat.find_min some⟩

end FirstAt

end Lists

variable {needle s : List Char} {k b : Nat}

/-- **The first occurrence** is the one that is found. -/
theorem find?_eq_some_iff : find? needle s = some k ↔ FirstAt needle s k := by
  induction s generalizing k with
  | nil =>
    cases needle with
    | nil =>
      simp only [find?, List.isEmpty_nil, if_true, Option.some.injEq]
      exact ⟨fun same => same ▸ FirstAt.zero_iff.mpr (List.prefix_refl _),
        fun found => (FirstAt.zero_iff.mpr (List.prefix_refl _)).unique found⟩
    | cons d needle =>
      refine iff_of_false (by simp [find?]) fun found => ?_
      have here := found.here
      rw [List.drop_nil, List.prefix_nil] at here
      cases here
  | cons c s ih =>
    by_cases here : needle <+: c :: s
    · have zero := FirstAt.zero_iff.mpr here
      rw [find?, if_pos (List.isPrefixOf_iff_prefix.mpr here), Option.some.injEq]
      exact ⟨fun same => same ▸ zero, zero.unique⟩
    · rw [find?, if_neg (mt List.isPrefixOf_iff_prefix.mp here), Option.map_eq_some_iff]
      cases k with
      | zero => simp [FirstAt.zero_iff, here]
      | succ k => simp [FirstAt.succ_iff, here, ih]

theorem find?_eq_none_iff : find? needle s = none ↔ ∀ k, ¬needle <+: s.drop k := by
  constructor
  · intro missing k here
    obtain ⟨l, found⟩ := FirstAt.exists_of_prefix here
    rw [find?_eq_some_iff.mpr found] at missing
    cases missing
  · intro missing
    cases found : find? needle s with
    | none => rfl
    | some k => exact absurd (find?_eq_some_iff.mp found).here (missing k)

/-! ## Bytes and characters -/

/-- The UTF-8 bytes of a text. -/
def bytes (s : List Char) : List UInt8 :=
  s.flatMap String.utf8EncodeChar

theorem bytes_append (s t : List Char) : bytes (s ++ t) = bytes s ++ bytes t :=
  List.flatMap_append

theorem length_encode_pos (c : Char) : 0 < (String.utf8EncodeChar c).length :=
  List.length_pos_iff.mpr String.utf8EncodeChar_ne_nil

/-- How many bytes stand before a character. -/
def offset (s : List Char) (k : Nat) : Nat :=
  (bytes (s.take k)).length

theorem drop_offset (s : List Char) (k : Nat) : (bytes s).drop (offset s k) = bytes (s.drop k) := by
  conv_lhs => rw [← List.take_append_drop k s, bytes_append]
  simp only [offset, List.take_append_drop, List.drop_left]

theorem offset_zero (s : List Char) : offset s 0 = 0 :=
  rfl

theorem offset_succ (c : Char) (s : List Char) (k : Nat) :
    offset (c :: s) (k + 1) = (String.utf8EncodeChar c).length + offset s k := by
  simp only [offset, bytes, List.take_succ_cons, List.flatMap_cons, List.length_append]

/-- Later characters stand behind more bytes. -/
theorem offset_lt {j : Nat} (lt : j < k) (inside : j < s.length) : offset s j < offset s k := by
  induction s generalizing j k with
  | nil => cases inside
  | cons c s ih =>
    obtain ⟨k, rfl⟩ : ∃ l, k = l + 1 := ⟨k - 1, by omega⟩
    have size := length_encode_pos c
    cases j with
    | zero => rw [offset_zero, offset_succ]; omega
    | succ j =>
      have := ih (Nat.lt_of_succ_lt_succ lt) (Nat.lt_of_succ_lt_succ inside)
      rw [offset_succ, offset_succ]
      omega

/-- The next character stands behind the bytes of this one. -/
theorem offset_add_utf8Size {c : Char} (here : s[k]? = some c) :
    offset s k + c.utf8Size = offset s (k + 1) := by
  rw [offset, offset, List.take_add_one, here, Option.toList_some, bytes_append,
    List.length_append]
  simp only [bytes, List.flatMap_singleton, String.length_utf8EncodeChar]

theorem length_bytes (s : List Char) : (bytes s).length = String.utf8Len s := by
  induction s with
  | nil => rfl
  | cons c s ih =>
    rw [bytes, List.flatMap_cons, List.length_append, String.length_utf8EncodeChar,
      String.utf8Len_cons, ← ih, Nat.add_comm]
    rfl

theorem length_le_utf8Len (s : List Char) : s.length ≤ String.utf8Len s := by
  induction s with
  | nil => exact Nat.le_refl 0
  | cons c s ih =>
    have size := c.utf8Size_pos
    rw [List.length_cons, String.utf8Len_cons]
    omega

/-- From a character on there are no more characters than bytes. -/
theorem length_drop_le (s : String) (k : Nat) :
    (s.toList.drop k).length ≤ s.utf8ByteSize - offset s.toList k := by
  rw [← String.utf8Len_toList, ← length_bytes, ← List.length_drop, drop_offset, length_bytes]
  exact length_le_utf8Len _

/-- The character that is read at its first byte. -/
theorem get?_offset (s : String) (k : Nat) :
    String.Pos.Raw.get? s ⟨offset s.toList k⟩ = s.toList[k]? := by
  have valid := String.get?_of_valid (s.toList.take k) (s.toList.drop k)
  rwa [List.take_append_drop, String.ofList_toList, ← length_bytes, List.head?_drop] at valid

/-! ## Searching bytes -/

/-- A text starts with another one when its bytes do. -/
theorem prefix_bytes_iff {t : List Char} : bytes t <+: bytes s ↔ t <+: s := by
  constructor
  · rintro ⟨rest, whole⟩
    refine List.isPrefix_of_utf8Encode_append_eq_utf8Encode rest.toByteArray ?_
    rw [List.utf8Encode, List.utf8Encode, ← List.toByteArray_append]
    exact congrArg List.toByteArray whole
  · rintro ⟨rest, rfl⟩
    rw [bytes_append]
    exact List.prefix_append _ _

/-- Inside of the bytes of a character no text starts. -/
theorem not_prefix_drop_encode {c : Char} (filled : needle ≠ []) (positive : 0 < b)
    (inside : b < (String.utf8EncodeChar c).length) (rest : List UInt8) :
    ¬bytes needle <+: (String.utf8EncodeChar c ++ rest).drop b := by
  obtain ⟨d, ds, rfl⟩ := List.exists_cons_of_ne_nil filled
  intro here
  have size := length_encode_pos d
  have starts : (String.utf8EncodeChar d)[0].IsUTF8FirstByte :=
    UInt8.isUTF8FirstByte_getElem_utf8EncodeChar.mpr rfl
  have same : (String.utf8EncodeChar d)[0] = (String.utf8EncodeChar c)[b] := by
    have whole : String.utf8EncodeChar d <+: (String.utf8EncodeChar c ++ rest).drop b :=
      (List.prefix_append _ (bytes ds)).trans here
    rw [whole.getElem size, List.getElem_drop, List.getElem_append_left (by omega)]
    simp
  -- only the byte at position 0 of a character may be the first one of a character
  rw [same, UInt8.isUTF8FirstByte_getElem_utf8EncodeChar] at starts
  omega

theorem offset_le (s : List Char) {j : Nat} (le : k ≤ j) : offset s k ≤ offset s j :=
  (prefix_bytes_iff.mpr (List.take_prefix_take_left le)).length_le

/-- **The bytes of a text occur only where the text does.** -/
theorem prefix_drop_bytes_iff (filled : needle ≠ []) : bytes needle <+: (bytes s).drop b ↔
    ∃ k ≤ s.length, offset s k = b ∧ needle <+: s.drop k := by
  constructor
  · intro here
    induction s generalizing b with
    | nil =>
      have nothing : (bytes []).drop b = bytes [] := List.drop_nil
      rw [nothing, prefix_bytes_iff, List.prefix_nil] at here
      exact absurd here filled
    | cons c s ih =>
      rcases Nat.eq_zero_or_pos b with rfl | positive
      · exact ⟨0, Nat.zero_le _, rfl, prefix_bytes_iff.mp here⟩
      · have split : bytes (c :: s) = String.utf8EncodeChar c ++ bytes s := List.flatMap_cons
        rw [split] at here
        by_cases inside : b < (String.utf8EncodeChar c).length
        · exact absurd here (not_prefix_drop_encode filled positive inside _)
        · rw [List.drop_append, List.drop_eq_nil_of_le (by omega), List.nil_append] at here
          obtain ⟨k, le, same, occurs⟩ := ih here
          exact ⟨k + 1, Nat.succ_le_succ le, by rw [offset_succ]; omega, occurs⟩
  · rintro ⟨k, -, rfl, here⟩
    rw [drop_offset, prefix_bytes_iff]
    exact here

theorem prefix_drop_offset (here : needle <+: s.drop k) :
    bytes needle <+: (bytes s).drop (offset s k) := by
  rwa [drop_offset, prefix_bytes_iff]

/-- Where the bytes of a text occur, the text does, and not later. The empty text occurs at the
start. -/
theorem exists_of_prefix_bytes (here : bytes needle <+: (bytes s).drop b) :
    ∃ k ≤ s.length, offset s k ≤ b ∧ needle <+: s.drop k := by
  by_cases filled : needle = []
  · exact ⟨0, Nat.zero_le _, Nat.zero_le b, filled ▸ List.nil_prefix⟩
  · obtain ⟨k, inside, same, here⟩ := (prefix_drop_bytes_iff filled).mp here
    exact ⟨k, inside, Nat.le_of_eq same, here⟩

/-- **A search in the bytes finds the same**: the bytes before the first occurrence of the bytes of
a text are those of as many characters as `find?` gives. -/
theorem find?_eq_some_iff_bytes : find? needle s = some k ↔
    k ≤ s.length ∧ FirstAt (bytes needle) (bytes s) (offset s k) := by
  rw [find?_eq_some_iff]
  constructor
  · intro found
    refine ⟨found.le, prefix_drop_offset found.here, fun b lt here => ?_⟩
    obtain ⟨j, -, le, here⟩ := exists_of_prefix_bytes here
    have before : j < k := by
      by_contra beyond
      have := offset_le s (Nat.le_of_not_lt beyond)
      omega
    exact found.first j before here
  · rintro ⟨inside, found⟩
    have first : ∀ j < k, ¬needle <+: s.drop j := fun j lt here =>
      found.first _ (offset_lt lt (Nat.lt_of_lt_of_le lt inside)) (prefix_drop_offset here)
    obtain ⟨j, inside', le, here⟩ := exists_of_prefix_bytes found.here
    have same : j = k := by
      rcases Nat.lt_trichotomy j k with before | same | behind
      · exact absurd here (first j before)
      · exact same
      · have := offset_lt behind (Nat.lt_of_lt_of_le behind inside')
        omega
    exact ⟨same ▸ here, first⟩

theorem find?_eq_none_iff_bytes :
    find? needle s = none ↔ ∀ b, ¬bytes needle <+: (bytes s).drop b := by
  rw [find?_eq_none_iff]
  constructor
  · intro missing b here
    obtain ⟨k, -, -, here⟩ := exists_of_prefix_bytes here
    exact missing k here
  · exact fun missing k here => missing _ (prefix_drop_offset here)

theorem bytes_inj {t : List Char} (same : bytes s = bytes t) : s = t := by
  have first : s <+: t := prefix_bytes_iff.mp (same ▸ List.prefix_refl _)
  have second : t <+: s := prefix_bytes_iff.mp (same ▸ List.prefix_refl _)
  exact first.eq_of_length_le second.length_le

/-- A text ends with another one when its bytes do. -/
theorem suffix_bytes_iff {t : List Char} : bytes t <:+ bytes s ↔ t <:+ s := by
  constructor
  · intro ends
    by_cases filled : t = []
    · exact filled ▸ List.nil_suffix
    · have last := List.suffix_iff_eq_drop.mp ends
      have starts : bytes t <+: (bytes s).drop ((bytes s).length - (bytes t).length) :=
        ⟨[], (List.append_nil _).trans last⟩
      obtain ⟨k, -, same, -⟩ := (prefix_drop_bytes_iff filled).mp starts
      rw [← same, drop_offset] at last
      exact bytes_inj last ▸ List.drop_suffix k s
  · rintro ⟨before, rfl⟩
    exact ⟨bytes before, (bytes_append before t).symm⟩

end RegisterVm.Text
