import Mathlib.Data.List.Basic
import RegisterVm.Proofs.Text.Search

/-!
# Splitting, joining and replacing

Splitting a text and replacing in it go from one occurrence to the next: each is the first one in
what is left of the text behind the one before (`Occurrences`). Both scans have the same two
equations, for a text without occurrences (`split_of_missing`, `replaceFrom_of_missing`) and for the
first of them (`split_of_first`, `replaceFrom_of_first`), and everything about them is by induction
on the occurrences (`scan_induction`): the pieces put together again (`intercalate_split`), what is
in them (`not_infix_of_mem_split`), how many there are (`exists_occurrences`), and what replacing
makes of them (`replace_eq_intercalate`).
-/

namespace RegisterVm.Text

variable {t s u : List Char} {k : Nat}

/-! ## From one occurrence to the next -/

/-- What stands before the first occurrence, the occurrence and the rest. -/
theorem FirstAt.parts (found : FirstAt t s k) : s = s.take k ++ (t ++ s.drop (k + t.length)) := by
  obtain ⟨rest, here⟩ := found.here
  have dropped : s.drop (k + t.length) = rest := by
    rw [← List.drop_drop, ← here, List.drop_left]
  rw [dropped, here, List.take_append_drop]

/-- **Induction on the occurrences of a text**, the first of which leaves a shorter text. -/
theorem scan_induction (filled : t ≠ []) {motive : List Char → Prop}
    (missing : ∀ s, (∀ k, ¬t <+: s.drop k) → motive s)
    (found : ∀ s k, FirstAt t s k → motive (s.drop (k + t.length)) → motive s)
    (s : List Char) : motive s := by
  induction hn : s.length using Nat.strongRecOn generalizing s with
  | ind n ih =>
    by_cases occurs : ∃ k, t <+: s.drop k
    · obtain ⟨_, here⟩ := occurs
      obtain ⟨k, first⟩ := FirstAt.exists_of_prefix here
      refine found s k first (ih _ ?_ _ rfl)
      have size := congrArg List.length first.parts
      have positive := List.length_pos_iff.mpr filled
      simp only [List.length_append, List.length_take] at size
      omega
    · exact missing s (not_exists.mp occurs)

/-- Where a text does not occur at all, it does not occur behind the first character. -/
theorem missing_tail {c : Char} (missing : ∀ k, ¬t <+: (c :: s).drop k) (k : Nat) :
    ¬t <+: s.drop k :=
  missing (k + 1)

theorem not_firstAt_nil (filled : t ≠ []) : ¬FirstAt t [] k := fun found =>
  filled (List.prefix_nil.mp (List.drop_nil ▸ found.here))

/-! ## Splitting -/

theorem splitFrom_skip (piece : List Char) (n : Nat) (s : List Char) :
    splitFrom t piece n s = splitFrom t piece 0 (s.drop n) := by
  induction s generalizing n with
  | nil => rw [List.drop_nil, splitFrom, splitFrom]
  | cons c s ih =>
    cases n with
    | zero => rfl
    | succ n => exact ih n

theorem splitFrom_other {c : Char} (piece : List Char) (other : ¬t <+: c :: s) :
    splitFrom t piece 0 (c :: s) = splitFrom t (c :: piece) 0 s := by
  rw [splitFrom, if_neg (mt List.isPrefixOf_iff_prefix.mp other)]

theorem splitFrom_here (filled : t ≠ []) (piece : List Char) (here : t <+: s) :
    splitFrom t piece 0 s = piece.reverse :: split t (s.drop t.length) := by
  obtain ⟨d, ds, rfl⟩ := List.exists_cons_of_ne_nil filled
  cases s with
  | nil => cases List.prefix_nil.mp here
  | cons c s =>
    rw [splitFrom, if_pos (List.isPrefixOf_iff_prefix.mpr here), splitFrom_skip]
    rfl

theorem splitFrom_of_missing (piece : List Char) (missing : ∀ k, ¬t <+: s.drop k) :
    splitFrom t piece 0 s = [piece.reverse ++ s] := by
  induction s generalizing piece with
  | nil => rw [splitFrom, List.append_nil]
  | cons c s ih =>
    rw [splitFrom_other piece (missing 0), ih _ (missing_tail missing), List.reverse_cons,
      List.append_assoc, List.singleton_append]

theorem splitFrom_of_first (filled : t ≠ []) (piece : List Char) (found : FirstAt t s k) :
    splitFrom t piece 0 s = (piece.reverse ++ s.take k) :: split t (s.drop (k + t.length)) := by
  induction s generalizing piece k with
  | nil => exact absurd found (not_firstAt_nil filled)
  | cons c s ih =>
    cases k with
    | zero =>
      rw [splitFrom_here filled piece (FirstAt.zero_iff.mp found), List.take_zero, List.append_nil,
        Nat.zero_add]
    | succ k =>
      obtain ⟨other, found⟩ := FirstAt.succ_iff.mp found
      rw [splitFrom_other piece other, ih _ found, List.reverse_cons, List.append_assoc,
        List.singleton_append, List.take_succ_cons, Nat.add_right_comm, List.drop_succ_cons]

theorem split_of_missing (missing : ∀ k, ¬t <+: s.drop k) : split t s = [s] :=
  splitFrom_of_missing [] missing

theorem split_of_first (filled : t ≠ []) (found : FirstAt t s k) :
    split t s = s.take k :: split t (s.drop (k + t.length)) :=
  splitFrom_of_first filled [] found

theorem split_ne_nil (filled : t ≠ []) (s : List Char) : split t s ≠ [] := by
  induction s using scan_induction filled with
  | missing s missing =>
    rw [split_of_missing missing]
    exact List.cons_ne_nil _ _
  | found s k found =>
    rw [split_of_first filled found]
    exact List.cons_ne_nil _ _

/-- **The pieces of a text joined again are the text.** -/
theorem intercalate_split (filled : t ≠ []) (s : List Char) : t.intercalate (split t s) = s := by
  induction s using scan_induction filled with
  | missing s missing => rw [split_of_missing missing, List.intercalate_singleton]
  | found s k found ih =>
    conv_rhs => rw [found.parts]
    rw [split_of_first filled found, List.intercalate_cons_of_ne_nil (split_ne_nil filled _), ih,
      List.append_assoc]

/-- **No piece contains the separator.** -/
theorem not_infix_of_mem_split (filled : t ≠ []) {p : List Char} (hp : p ∈ split t s) :
    ¬t <:+: p := by
  induction s using scan_induction filled with
  | missing s missing =>
    rw [split_of_missing missing, List.mem_singleton] at hp
    rintro ⟨before, after, inside⟩
    refine missing before.length ⟨after, ?_⟩
    rw [← hp, ← inside, List.append_assoc, List.drop_left]
  | found s k found ih =>
    rw [split_of_first filled found, List.mem_cons] at hp
    rcases hp with rfl | hp
    · rintro ⟨before, after, inside⟩
      have size := congrArg List.length inside
      have positive := List.length_pos_iff.mpr filled
      simp only [List.length_append, List.length_take] at size
      refine found.first before.length (by omega) ?_
      have whole : before ++ (t ++ (after ++ s.drop k)) = s := by
        rw [← List.append_assoc, ← List.append_assoc, inside, List.take_append_drop]
      exact ⟨after ++ s.drop k, by rw [← whole, List.drop_left, whole]⟩
    · exact ih hp

/-! ## Counting -/

/-- The places, from `start` on, at which a text occurs in another one: the first one and, behind
its end, those that follow. -/
inductive Occurrences (t s : List Char) : Nat → List Nat → Prop
  | none {start : Nat} : (∀ k, ¬t <+: (s.drop start).drop k) → Occurrences t s start []
  | next {start k : Nat} {ks : List Nat} : FirstAt t (s.drop start) k →
    Occurrences t s (start + k + t.length) ks → Occurrences t s start ((start + k) :: ks)

theorem Occurrences.unique {start : Nat} {ks ks' : List Nat} (places : Occurrences t s start ks)
    (places' : Occurrences t s start ks') : ks = ks' := by
  induction places generalizing ks' with
  | none missing =>
    cases places' with
    | none => rfl
    | next found => exact absurd found.here (missing _)
  | next found _ ih =>
    cases places' with
    | none missing => exact absurd found.here (missing _)
    | next found' rest' =>
      obtain rfl := found.unique found'
      rw [ih rest']

/-- **There is one piece more than there are occurrences.** -/
theorem exists_occurrences (filled : t ≠ []) (s : List Char) (start : Nat) :
    ∃ ks, Occurrences t s start ks ∧ (split t (s.drop start)).length = ks.length + 1 := by
  induction hr : s.drop start using scan_induction filled generalizing start with
  | missing r missing =>
    subst hr
    exact ⟨[], .none missing, by rw [split_of_missing missing]; rfl⟩
  | found r k found ih =>
    subst hr
    have behind : s.drop (start + k + t.length) = (s.drop start).drop (k + t.length) := by
      rw [List.drop_drop, Nat.add_assoc]
    obtain ⟨ks, places, count⟩ := ih (start + k + t.length) behind
    refine ⟨(start + k) :: ks, .next found places, ?_⟩
    rw [split_of_first filled found, List.length_cons, count, List.length_cons]

/-! ## Replacing -/

theorem replaceFrom_skip (n : Nat) (s : List Char) :
    replaceFrom t u n s = replaceFrom t u 0 (s.drop n) := by
  induction s generalizing n with
  | nil => rw [List.drop_nil, replaceFrom, replaceFrom]
  | cons c s ih =>
    cases n with
    | zero => rfl
    | succ n => exact ih n

theorem replaceFrom_other {c : Char} (other : ¬t <+: c :: s) :
    replaceFrom t u 0 (c :: s) = c :: replaceFrom t u 0 s := by
  rw [replaceFrom, if_neg (mt List.isPrefixOf_iff_prefix.mp other)]

theorem replaceFrom_here (filled : t ≠ []) (here : t <+: s) :
    replaceFrom t u 0 s = u ++ replaceFrom t u 0 (s.drop t.length) := by
  obtain ⟨d, ds, rfl⟩ := List.exists_cons_of_ne_nil filled
  cases s with
  | nil => cases List.prefix_nil.mp here
  | cons c s =>
    rw [replaceFrom, if_pos (List.isPrefixOf_iff_prefix.mpr here), replaceFrom_skip]
    rfl

theorem replaceFrom_of_missing (missing : ∀ k, ¬t <+: s.drop k) : replaceFrom t u 0 s = s := by
  induction s with
  | nil => rw [replaceFrom]
  | cons c s ih => rw [replaceFrom_other (missing 0), ih (missing_tail missing)]

theorem replaceFrom_of_first (filled : t ≠ []) (found : FirstAt t s k) :
    replaceFrom t u 0 s = s.take k ++ (u ++ replaceFrom t u 0 (s.drop (k + t.length))) := by
  induction s generalizing k with
  | nil => exact absurd found (not_firstAt_nil filled)
  | cons c s ih =>
    cases k with
    | zero =>
      rw [replaceFrom_here filled (FirstAt.zero_iff.mp found), List.take_zero, List.nil_append,
        Nat.zero_add]
    | succ k =>
      obtain ⟨other, found⟩ := FirstAt.succ_iff.mp found
      rw [replaceFrom_other other, ih found, List.take_succ_cons, List.cons_append,
        Nat.add_right_comm, List.drop_succ_cons]

/-- **Replacing joins the pieces by the new text.** -/
theorem replace_eq_intercalate (filled : t ≠ []) (u s : List Char) :
    replace t u s = u.intercalate (split t s) := by
  rw [replace, if_neg (by simpa using filled)]
  induction s using scan_induction filled with
  | missing s missing =>
    rw [replaceFrom_of_missing missing, split_of_missing missing, List.intercalate_singleton]
  | found s k found ih =>
    rw [replaceFrom_of_first filled found, ih, split_of_first filled found,
      List.intercalate_cons_of_ne_nil (split_ne_nil filled _), List.append_assoc]

end RegisterVm.Text
