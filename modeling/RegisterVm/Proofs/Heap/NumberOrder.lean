import RegisterVm.Builtin.Function
import RegisterVm.Proofs.Heap.Comparisons
import RegisterVm.Proofs.Number.Rounding

/-!
# The order of numbers

Two integers are compared exactly, an integer and a float as floats. Rounding keeps the order of
integers, so `<` is transitive; but two integers can be equal to one float and not to each other.
Such integers are the only exception to the transitivity of `==` and `<=`, and the smallest of some
numbers does not depend on the order in which they are given. Main statement:
`Heap.numbers_ordered`.
-/

namespace RegisterVm

/-! ## Numerals -/

/-- What counts of a number in comparisons: the integer that it is, if it is one, and the rank of
its float. -/
structure Numeral where
  whole? : Option Int
  rank : Int
  rank_eq : ∀ {n : Int}, whole? = some n → rank = Binary64.wholeRank n

namespace Numeral

variable {p q r : Numeral} {m n : Int}

def compare (p q : Numeral) : Ordering :=
  match p.whole?, q.whole? with
  | some m, some n => Ord.compare m n
  | _, _ => Ord.compare p.rank q.rank

/-- Neither the floats nor, if both are integers, the integers are the other way round. -/
structure Le (p q : Numeral) : Prop where
  rank : p.rank ≤ q.rank
  whole : ∀ {m n : Int}, p.whole? = some m → q.whole? = some n → m ≤ n

/-- Different integers. -/
def Apart (p q : Numeral) : Prop := ∃ m n, p.whole? = some m ∧ q.whole? = some n ∧ m ≠ n

theorem le_iff_whole (hp : p.whole? = some m) (hq : q.whole? = some n) : p.Le q ↔ m ≤ n := by
  refine ⟨fun le => le.whole hp hq, fun le => ⟨?_, fun hp' hq' => ?_⟩⟩
  · rw [p.rank_eq hp, q.rank_eq hq]
    exact Binary64.wholeRank_mono le
  · cases hp.symm.trans hp'
    cases hq.symm.trans hq'
    exact le

theorem le_iff_rank (either : p.whole? = none ∨ q.whole? = none) :
    p.Le q ↔ p.rank ≤ q.rank := by
  refine ⟨Le.rank, fun le => ⟨le, fun hp hq => ?_⟩⟩
  rcases either with none | none
  · cases none.symm.trans hp
  · cases none.symm.trans hq

theorem compare_whole (hp : p.whole? = some m) (hq : q.whole? = some n) :
    p.compare q = Ord.compare m n := by
  rw [compare, hp, hq]

theorem compare_rank (either : p.whole? = none ∨ q.whole? = none) :
    p.compare q = Ord.compare p.rank q.rank := by
  rcases either with none | none <;> rw [compare, none]
  cases p.whole? <;> rfl

theorem compare_swap (p q : Numeral) : q.compare p = (p.compare q).swap := by
  unfold compare
  cases p.whole? <;> cases q.whole? <;> exact (Int.compare_swap _ _).symm

/-- Both are integers, or they are compared as floats. -/
theorem whole_or_rank (p q : Numeral) :
    (∃ m n, p.whole? = some m ∧ q.whole? = some n) ∨ p.whole? = none ∨ q.whole? = none := by
  cases hp : p.whole? with
  | none => exact .inr (.inl rfl)
  | some m =>
    cases hq : q.whole? with
    | none => exact .inr (.inr rfl)
    | some n => exact .inl ⟨m, n, rfl, rfl⟩

theorem isLE_iff : (p.compare q).isLE = true ↔ p.Le q := by
  rcases whole_or_rank p q with ⟨m, n, hp, hq⟩ | either
  · rw [compare_whole hp hq, le_iff_whole hp hq]
    exact Int.isLE_compare
  · rw [compare_rank either, le_iff_rank either]
    exact Int.isLE_compare

theorem isGE_iff : (p.compare q).isGE = true ↔ q.Le p := by
  rw [← isLE_iff, compare_swap p q, Ordering.isLE_swap]

theorem isLT_iff : (p.compare q).isLT = true ↔ ¬q.Le p := by
  rw [← isGE_iff]
  cases p.compare q <;> decide

theorem isGT_iff : (p.compare q).isGT = true ↔ ¬p.Le q := by
  rw [← isLE_iff]
  cases p.compare q <;> decide

theorem isEq_iff : (p.compare q).isEq = true ↔ p.Le q ∧ q.Le p := by
  rw [← isLE_iff, ← isGE_iff]
  cases p.compare q <;> decide

theorem le_total (p q : Numeral) : p.Le q ∨ q.Le p := by
  rw [← isLE_iff, ← isGE_iff]
  cases p.compare q <;> decide

theorem le_refl (p : Numeral) : p.Le p := or_self_iff.mp (p.le_total p)

/-- **What is less than `q` is not greater than what `q` is not greater than.** -/
theorem le_of_lt_of_le (less : ¬q.Le p) (le : q.Le r) : p.Le r := by
  have rank := ((le_total p q).resolve_right less).rank.trans le.rank
  refine ⟨rank, fun {m n} hp hr => ?_⟩
  cases hq : q.whole? with
  | some k =>
    rw [le_iff_whole hq hp] at less
    exact (Int.le_of_lt (Int.not_le.mp less)).trans (le.whole hq hr)
  | none =>
    -- The float is above that of `m`, so that an integer with a float above it is above `m`.
    rw [le_iff_rank (.inl hq)] at less
    have above : p.rank < r.rank := (Int.not_le.mp less).trans_le le.rank
    rw [p.rank_eq hp, r.rank_eq hr] at above
    exact Int.not_lt.mp fun lower =>
      Int.not_le.mpr above (Binary64.wholeRank_mono (Int.le_of_lt lower))

theorem le_of_le_of_lt (le : p.Le q) (less : ¬r.Le q) : p.Le r :=
  Classical.byContradiction fun greater => less (le_of_lt_of_le greater le)

theorem lt_trans (less : ¬q.Le p) (less' : ¬r.Le q) : ¬r.Le p :=
  fun back => less (le_of_lt_of_le less' back)

/-- **The order is transitive, but for integers that are equal to a float between them.** -/
theorem le_or_apart (le : p.Le q) (le' : q.Le r) :
    p.Le r ∨ p.Apart r ∧ q.whole? = none ∧ q.Le p ∧ r.Le q := by
  have rank := le.rank.trans le'.rank
  rcases whole_or_rank p r with ⟨m, n, hp, hr⟩ | either
  · rw [le_iff_whole hp hr]
    refine (le_or_gt m n).imp_right fun greater => ?_
    have back : r.rank ≤ p.rank := by
      rw [p.rank_eq hp, r.rank_eq hr]
      exact Binary64.wholeRank_mono (Int.le_of_lt greater)
    have float : q.whole? = none := by
      cases hq : q.whole? with
      | none => rfl
      | some k => exact absurd ((le.whole hp hq).trans (le'.whole hq hr)) (Int.not_le.mpr greater)
    refine ⟨⟨m, n, hp, hr, (Int.ne_of_lt greater).symm⟩, float, ?_, ?_⟩
    · exact (le_iff_rank (.inl float)).mpr (le'.rank.trans back)
    · exact (le_iff_rank (.inr float)).mpr (back.trans le.rank)
  · exact .inl ((le_iff_rank either).mpr rank)

theorem Apart.not_le_and_ge (apart : p.Apart q) : ¬(p.Le q ∧ q.Le p) := by
  obtain ⟨m, n, hp, hq, ne⟩ := apart
  exact fun both => ne (Int.le_antisymm (both.1.whole hp hq) (both.2.whole hq hp))

theorem Apart.symm (apart : p.Apart q) : q.Apart p := by
  obtain ⟨m, n, hp, hq, ne⟩ := apart
  exact ⟨n, m, hq, hp, ne.symm⟩

end Numeral

/-! ## Values -/

/-- How an order answers a comparison that asks for one. -/
def CompareOperator.accepts? : CompareOperator → Option (Ordering → Bool)
  | .lt => some Ordering.isLT
  | .le => some Ordering.isLE
  | .gt => some Ordering.isGT
  | .ge => some Ordering.isGE
  | .eq => some Ordering.isEq
  | .ne => some Ordering.isNe
  | .is | .isNot | .mem | .notMem => none

namespace Heap

variable {h : Heap} {a b c v : Value} {p q r : Numeral}

/-- An integer, however large, a truth value or a float other than NaN. -/
def IsNumber (h : Heap) (v : Value) : Prop :=
  (∃ n, h.integer? v = some n) ∨ ∃ x, v = .float x ∧ x.isNaN = false

/-- What counts of a value in comparisons. -/
def Denotes (h : Heap) (v : Value) (p : Numeral) : Prop :=
  h.integer? v = p.whole? ∧ ∃ x, h.float? v = some x ∧ Binary64.Ranks x p.rank

theorem float_of_integer {n : Int} (whole : h.integer? v = some n) :
    ∃ x, h.float? v = some x ∧ Binary64.Ranks x (Binary64.wholeRank n) := by
  cases v with
  | none | float => cases whole
  | int i =>
    cases whole
    exact ⟨_, rfl, Binary64.ranks_ofWord i⟩
  | bool t =>
    cases whole
    cases t with
    | true => exact ⟨1.0, rfl, Binary64.ranks_ofWord 1⟩
    | false => exact ⟨0.0, rfl, Binary64.ranks_ofWord 0⟩
  | object c =>
    simp only [integer?] at whole
    split at whole
    · rename_i found
      cases whole
      have viewed : h.view (.object c) = .ok (some (.big n)) := Stores.view ⟨c, rfl, found⟩
      exact ⟨Float.ofInt n, by rw [float?, viewed]; rfl, Binary64.ranks_ofInt n⟩
    · cases whole

theorem IsNumber.exists_numeral (number : h.IsNumber v) : ∃ p, h.Denotes v p := by
  rcases number with ⟨n, whole⟩ | ⟨x, rfl, number⟩
  · exact ⟨⟨some n, Binary64.wholeRank n, fun same => by cases same; rfl⟩, whole,
      float_of_integer whole⟩
  · obtain ⟨r, ranks⟩ := Binary64.exists_ranks number
    exact ⟨⟨none, r, nofun⟩, rfl, x, rfl, ranks⟩

theorem Denotes.numberOrder (ha : h.Denotes a p) (hb : h.Denotes b q) :
    h.NumberOrder a b (some (p.compare q)) := by
  obtain ⟨wholeA, x, floatA, ranksA⟩ := ha
  obtain ⟨wholeB, y, floatB, ranksB⟩ := hb
  rcases Numeral.whole_or_rank p q with ⟨m, n, hp, hq⟩ | either
  · rw [Numeral.compare_whole hp hq]
    exact .integers (wholeA.trans hp) (wholeB.trans hq)
  · rw [Numeral.compare_rank either, ← ranksA.compare?_eq ranksB]
    exact .floats (either.imp wholeA.trans wholeB.trans) floatA floatB

theorem Denotes.ordered (ha : h.Denotes a p) (hb : h.Denotes b q) (symbol : String)
    (accepts : Ordering → Bool) : h.ordered symbol accepts a b = .ok (accepts (p.compare q)) := by
  have decided : h.order symbol a b = .ok (some (p.compare q)) :=
    orderWithin_iff.mpr (.numbers (ha.numberOrder hb))
  rw [Heap.ordered, decided]
  rfl

/-- **Numbers have an order, which answers the six comparisons.** -/
theorem Denotes.holds (ha : h.Denotes a p) (hb : h.Denotes b q) {op : CompareOperator}
    {accepts : Ordering → Bool} (asks : op.accepts? = some accepts) :
    h.holds op a b = .ok (accepts (p.compare q)) := by
  have equal : h.equal a b = .ok (p.compare q).isEq := by
    rw [Heap.equal, (ha.numberOrder hb).equalWithin_eq]
    cases p.compare q <;> rfl
  cases op with
  | lt | le | gt | ge =>
    cases asks
    exact ha.ordered hb _ _
  | eq =>
    cases asks
    exact equal
  | ne =>
    cases asks
    rw [Heap.holds, equal]
    cases p.compare q <;> rfl
  | is | isNot | mem | notMem => cases asks

section Relations

variable (ha : h.Denotes a p) (hb : h.Denotes b q)

include ha hb

theorem Denotes.lt_iff : h.holds .lt a b = .ok true ↔ ¬q.Le p := by
  rw [ha.holds hb rfl, Except.ok.injEq, Numeral.isLT_iff]

theorem Denotes.le_iff : h.holds .le a b = .ok true ↔ p.Le q := by
  rw [ha.holds hb rfl, Except.ok.injEq, Numeral.isLE_iff]

theorem Denotes.ge_iff : h.holds .ge a b = .ok true ↔ q.Le p := by
  rw [ha.holds hb rfl, Except.ok.injEq, Numeral.isGE_iff]

theorem Denotes.eq_iff : h.holds .eq a b = .ok true ↔ p.Le q ∧ q.Le p := by
  rw [ha.holds hb rfl, Except.ok.injEq, Numeral.isEq_iff]

end Relations

/-- Different integers `a` and `c` that are rounded to the same float, `b`. -/
def Rounded (h : Heap) (a b c : Value) : Prop :=
  (∃ m n, h.integer? a = some m ∧ h.integer? c = some n ∧ m ≠ n) ∧ (∃ x, b = .float x) ∧
    h.holds .eq a b = .ok true ∧ h.holds .eq b c = .ok true

theorem Denotes.rounded_iff (ha : h.Denotes a p) (hb : h.Denotes b q) (hc : h.Denotes c r)
    (number : h.IsNumber b) : h.Rounded a b c ↔
      p.Apart r ∧ q.whole? = none ∧ (p.Le q ∧ q.Le p) ∧ q.Le r ∧ r.Le q := by
  have apart : (∃ m n, h.integer? a = some m ∧ h.integer? c = some n ∧ m ≠ n) ↔ p.Apart r := by
    rw [ha.1, hc.1, Numeral.Apart]
  have float : (∃ x, b = .float x) ↔ q.whole? = none := by
    rw [← hb.1]
    constructor
    · rintro ⟨x, rfl⟩
      rfl
    · intro none
      rcases number with ⟨n, whole⟩ | ⟨x, rfl, -⟩
      · cases none.symm.trans whole
      · exact ⟨x, rfl⟩
  rw [Rounded, apart, float, ha.eq_iff hb, hb.eq_iff hc]

/-- **The order of numbers is transitive, but for integers that are rounded.** -/
theorem le_or_rounded (ha : h.IsNumber a) (hb : h.IsNumber b) (hc : h.IsNumber c)
    (le : h.holds .le a b = .ok true) (le' : h.holds .le b c = .ok true) :
    h.holds .le a c = .ok true ∨ h.Rounded a b c ∧ h.holds .lt c a = .ok true := by
  obtain ⟨p, dp⟩ := ha.exists_numeral
  obtain ⟨q, dq⟩ := hb.exists_numeral
  obtain ⟨r, dr⟩ := hc.exists_numeral
  rw [dp.le_iff dq] at le
  rw [dq.le_iff dr] at le'
  rw [dp.le_iff dr, dp.rounded_iff dq dr hb, dr.lt_iff dp]
  by_cases far : p.Le r
  · exact .inl far
  · obtain ⟨apart, float, back, back'⟩ := (Numeral.le_or_apart le le').resolve_left far
    exact .inr ⟨⟨apart, float, ⟨le, back⟩, le', back'⟩, far⟩

/-- Numbers that are equal to the same one are equal, unless they are rounded. -/
theorem eq_iff_not_rounded (ha : h.IsNumber a) (hb : h.IsNumber b) (hc : h.IsNumber c)
    (eq : h.holds .eq a b = .ok true) (eq' : h.holds .eq b c = .ok true) :
    h.holds .eq a c = .ok true ↔ ¬h.Rounded a b c := by
  obtain ⟨p, dp⟩ := ha.exists_numeral
  obtain ⟨q, dq⟩ := hb.exists_numeral
  obtain ⟨r, dr⟩ := hc.exists_numeral
  rw [dp.eq_iff dq] at eq
  rw [dq.eq_iff dr] at eq'
  rw [dp.eq_iff dr, dp.rounded_iff dq dr hb]
  constructor
  · rintro both ⟨apart, -⟩
    exact apart.not_le_and_ge both
  · intro exact
    constructor
    · refine (Numeral.le_or_apart eq.1 eq'.1).resolve_right ?_
      rintro ⟨apart, float, -⟩
      exact exact ⟨apart, float, eq, eq'⟩
    · refine (Numeral.le_or_apart eq'.2 eq.2).resolve_right ?_
      rintro ⟨apart, float, -⟩
      exact exact ⟨apart.symm, float, eq, eq'⟩

theorem holds_lt_trans (ha : h.IsNumber a) (hb : h.IsNumber b) (hc : h.IsNumber c)
    (less : h.holds .lt a b = .ok true) (less' : h.holds .lt b c = .ok true) :
    h.holds .lt a c = .ok true := by
  obtain ⟨p, dp⟩ := ha.exists_numeral
  obtain ⟨q, dq⟩ := hb.exists_numeral
  obtain ⟨r, dr⟩ := hc.exists_numeral
  rw [dp.lt_iff dq] at less
  rw [dq.lt_iff dr] at less'
  rw [dp.lt_iff dr]
  exact Numeral.lt_trans less less'

theorem holds_le_of_eq (ha : h.IsNumber a) (hb : h.IsNumber b) (eq : h.holds .eq a b = .ok true) :
    h.holds .le a b = .ok true := by
  obtain ⟨p, dp⟩ := ha.exists_numeral
  obtain ⟨q, dq⟩ := hb.exists_numeral
  exact (dp.le_iff dq).mpr ((dp.eq_iff dq).mp eq).1

/-- A chain of comparisons holds between its ends, unless they are rounded on the way. -/
theorem chain_le_or_rounded {vs : List Value} (hc : h.IsNumber c) (numbers : ∀ v ∈ vs, h.IsNumber v)
    (ha : h.IsNumber a)
    (chain : List.IsChain (fun u v => h.holds .le u v = .ok true) (a :: vs ++ [c])) :
    h.holds .le a c = .ok true ∨ ∃ b ∈ vs, h.Rounded a b c ∧ h.holds .lt c a = .ok true := by
  induction vs generalizing a with
  | nil => exact .inl (List.isChain_cons_cons.mp chain).1
  | cons v vs ih =>
    obtain ⟨le, rest⟩ := List.isChain_cons_cons.mp chain
    have hv := numbers v List.mem_cons_self
    rcases ih (fun u hu => numbers u (List.mem_cons_of_mem _ hu)) hv rest with
      le' | ⟨b, mem, rounded, -⟩
    · exact (le_or_rounded ha hv hc le le').imp_right fun exception =>
        ⟨v, List.mem_cons_self, exception⟩
    · -- The float that `v` and `c` are rounded to also comes after `a`.
      have hb := numbers b (List.mem_cons_of_mem _ mem)
      obtain ⟨-, ⟨x, rfl⟩, eq, eq'⟩ := rounded
      have near : h.holds .le a (.float x) = .ok true := by
        refine (le_or_rounded ha hv hb le (holds_le_of_eq hv hb eq)).resolve_right ?_
        rintro ⟨⟨⟨m, n, -, whole, -⟩, -⟩, -⟩
        cases whole
      exact (le_or_rounded ha hb hc near (holds_le_of_eq hb hc eq')).imp_right fun exception =>
        ⟨_, List.mem_cons_of_mem _ mem, exception⟩

/-! ## Extremes -/

/-- The values of which the smallest or largest is asked for: the arguments, or the items of the
only one. -/
inductive Operands (h : Heap) : List Value → List Value → Prop
  | arguments (u v : Value) (vs : List Value) : Operands h (u :: v :: vs) (u :: v :: vs)
  | items {v w : Value} {ws : List Value} {all : Array Value} :
    HeapM.collect v h = .ok all h → all.toList = w :: ws → Operands h [v] (w :: ws)

/-- `best` is a relation of numerals that `op` asks for and by which `better` chooses. -/
structure Chooses (better : Ordering → Bool) (op : CompareOperator)
    (best : Numeral → Numeral → Prop) : Prop where
  better_iff {p q : Numeral} : better (q.compare p) = true ↔ ¬best p q
  holds_iff {h : Heap} {a b : Value} {p q : Numeral} : h.Denotes a p → h.Denotes b q →
    (h.holds op a b = .ok true ↔ best p q)
  self (p : Numeral) : best p p
  antisymm {p q : Numeral} : best p q → best q p → p.Le q ∧ q.Le p
  replaced {p q r : Numeral} : ¬best p q → best p r → best q r

theorem chooses_least : Chooses Ordering.isLT .le Numeral.Le where
  better_iff := Numeral.isLT_iff
  holds_iff := Denotes.le_iff
  self := Numeral.le_refl
  antisymm := And.intro
  replaced := Numeral.le_of_lt_of_le

theorem chooses_greatest : Chooses Ordering.isGT .ge fun p q => q.Le p where
  better_iff := Numeral.isGT_iff
  holds_iff := Denotes.ge_iff
  self := Numeral.le_refl
  antisymm le le' := ⟨le', le⟩
  replaced less le := Numeral.le_of_le_of_lt le less

variable {better : Ordering → Bool} {op : CompareOperator} {best : Numeral → Numeral → Prop}

/-- What is the best so far becomes the best of all. -/
theorem Chooses.exists_best (chooses : Chooses better op best) {us vs : List Value} (mem : v ∈ us)
    (numbers : ∀ u ∈ us ++ vs, h.IsNumber u) (so_far : ∀ u ∈ us, h.holds op v u = .ok true) :
    ∃ r ∈ us ++ vs, h.best better v vs = .ok r ∧ ∀ u ∈ us ++ vs, h.holds op r u = .ok true := by
  induction vs generalizing us v with
  | nil =>
    rw [List.append_nil]
    exact ⟨v, mem, rfl, so_far⟩
  | cons w vs ih =>
    obtain ⟨p, dp⟩ := (numbers v (List.mem_append_left _ mem)).exists_numeral
    obtain ⟨q, dq⟩ := (numbers w (List.mem_append_right _ List.mem_cons_self)).exists_numeral
    rw [Heap.best, dq.ordered dp]
    rw [List.append_cons] at numbers ⊢
    cases taken : better (q.compare p) with
    | true =>
      refine ih (List.mem_append_right _ (List.mem_singleton_self w)) numbers fun u hu => ?_
      rcases List.mem_append.mp hu with old | new
      · obtain ⟨r, dr⟩ := (numbers u (List.mem_append_left _ hu)).exists_numeral
        exact (chooses.holds_iff dq dr).mpr (chooses.replaced (chooses.better_iff.mp taken)
          ((chooses.holds_iff dp dr).mp (so_far u old)))
      · rw [List.mem_singleton.mp new]
        exact (chooses.holds_iff dq dq).mpr (chooses.self q)
    | false =>
      refine ih (List.mem_append_left _ mem) numbers fun u hu => ?_
      rcases List.mem_append.mp hu with old | new
      · exact so_far u old
      · rw [List.mem_singleton.mp new, chooses.holds_iff dp dq]
        exact Classical.byContradiction fun other =>
          Bool.false_ne_true (taken.symm.trans (chooses.better_iff.mpr other))

theorem Chooses.holds_self (chooses : Chooses better op best) (number : h.IsNumber v) :
    h.holds op v v = .ok true := by
  obtain ⟨p, dp⟩ := number.exists_numeral
  exact (chooses.holds_iff dp dp).mpr (chooses.self p)

theorem Chooses.holds_eq (chooses : Chooses better op best) (ha : h.IsNumber a)
    (hb : h.IsNumber b) (holds : h.holds op a b = .ok true) (holds' : h.holds op b a = .ok true) :
    h.holds .eq a b = .ok true := by
  obtain ⟨p, dp⟩ := ha.exists_numeral
  obtain ⟨q, dq⟩ := hb.exists_numeral
  exact (dp.eq_iff dq).mpr (chooses.antisymm ((chooses.holds_iff dp dq).mp holds)
    ((chooses.holds_iff dq dp).mp holds'))

theorem Operands.extreme_eq {args vs : List Value} (operands : h.Operands args vs) (name : String)
    (better : Ordering → Bool) : ∃ v ws, vs = v :: ws ∧
      HeapM.extreme name better args h = inspect (fun h => h.best better v ws) h := by
  cases operands with
  | arguments u v vs => exact ⟨u, v :: vs, rfl, rfl⟩
  | @items v w ws all collected listed =>
    refine ⟨w, ws, rfl, ?_⟩
    simp only [HeapM.extreme, Bind.bind, EStateM.bind, Functor.map, EStateM.map, collected, listed]

/-- Whatever the order of some numbers, `f` answers with one of them that is `op` each of them. -/
def Selects (h : Heap) (f : Builtin) (op : CompareOperator) : Prop :=
  ∀ args vs, h.Operands args vs → (∀ v ∈ vs, h.IsNumber v) →
    ∃ r ∈ vs, HeapM.evaluate f args h = .ok r h ∧ (∀ v ∈ vs, h.holds op r v = .ok true) ∧
      ∀ args' vs', h.Operands args' vs' → vs'.Perm vs →
        ∃ r', HeapM.evaluate f args' h = .ok r' h ∧ h.holds .eq r r' = .ok true

theorem Chooses.selects (chooses : Chooses better op best) {f : Builtin} {name : String}
    (evaluate_eq : ∀ args, HeapM.evaluate f args = HeapM.extreme name better args) :
    h.Selects f op := by
  have found : ∀ args vs, h.Operands args vs → (∀ v ∈ vs, h.IsNumber v) →
      ∃ r ∈ vs, HeapM.evaluate f args h = .ok r h ∧ ∀ v ∈ vs, h.holds op r v = .ok true := by
    intro args vs operands numbers
    obtain ⟨v, ws, rfl, same⟩ := operands.extreme_eq name better
    obtain ⟨r, mem, chosen, all⟩ := chooses.exists_best (List.mem_singleton_self v) numbers
      fun u hu => by
        rw [List.mem_singleton.mp hu]
        exact chooses.holds_self (numbers v List.mem_cons_self)
    refine ⟨r, mem, ?_, all⟩
    rw [evaluate_eq, same, inspect, chosen]
  intro args vs operands numbers
  obtain ⟨r, mem, answer, all⟩ := found args vs operands numbers
  refine ⟨r, mem, answer, all, fun args' vs' operands' perm => ?_⟩
  obtain ⟨r', mem', answer', all'⟩ := found args' vs' operands' fun v hv =>
    numbers v (perm.mem_iff.mp hv)
  have mem' := perm.mem_iff.mp mem'
  exact ⟨r', answer', chooses.holds_eq (numbers r mem) (numbers r' mem') (all r' mem')
    (all' r (perm.mem_iff.mpr mem))⟩

/-! ## All numbers -/

/-- **Numbers are ordered**, on any heap, whatever their mix of words, large integers, truth values
and floats, infinities among them.

* Any two are in one of three orders, which answers all six comparisons.
* `<` is transitive, and so is `==` but for different integers that are rounded to one float.
* A chain of `<=` holds between its ends, but for such integers again.
* The smallest and the largest of some numbers are below and above all of them, and do not depend on
  the order in which the numbers are given. -/
theorem numbers_ordered (h : Heap) :
    (∀ a b, h.IsNumber a → h.IsNumber b → ∃ o : Ordering, ∀ op accepts,
      CompareOperator.accepts? op = some accepts → h.holds op a b = .ok (accepts o)) ∧
    (∀ a b c, h.IsNumber a → h.IsNumber b → h.IsNumber c →
      (h.holds .lt a b = .ok true → h.holds .lt b c = .ok true → h.holds .lt a c = .ok true) ∧
      (h.holds .eq a b = .ok true → h.holds .eq b c = .ok true →
        (h.holds .eq a c = .ok true ↔ ¬h.Rounded a b c)) ∧
      (h.holds .le a b = .ok true → h.holds .le b c = .ok true →
        h.holds .le a c = .ok true ∨ h.Rounded a b c ∧ h.holds .lt c a = .ok true)) ∧
    (∀ a vs c, h.IsNumber a → (∀ v ∈ vs, h.IsNumber v) → h.IsNumber c →
      List.IsChain (fun u v => h.holds .le u v = .ok true) (a :: vs ++ [c]) →
      h.holds .le a c = .ok true ∨ ∃ b ∈ vs, h.Rounded a b c ∧ h.holds .lt c a = .ok true) ∧
    h.Selects .min .le ∧ h.Selects .max .ge := by
  refine ⟨fun a b ha hb => ?_, fun a b c ha hb hc => ⟨?_, ?_, ?_⟩, fun a vs c ha numbers hc => ?_,
    ?_, ?_⟩
  · obtain ⟨p, dp⟩ := ha.exists_numeral
    obtain ⟨q, dq⟩ := hb.exists_numeral
    exact ⟨p.compare q, fun op accepts => dp.holds dq⟩
  · exact holds_lt_trans ha hb hc
  · exact eq_iff_not_rounded ha hb hc
  · exact le_or_rounded ha hb hc
  · exact chain_le_or_rounded hc numbers ha
  · exact chooses_least.selects fun args => rfl
  · exact chooses_greatest.selects fun args => rfl

/-- The largest word and the large integer after it are both equal to the float `2 ^ 63`, but not to
each other. The smallest of the three numbers is found in two ways. -/
theorem numbers_ordered_largest_word :
    let h := ((Machine.start .standard).heap.alloc (.big 9223372036854775808)).2
    let word : Value := .int Int64.maxValue
    let float : Value := .float (Float.ofBits 0x43E0000000000000)
    let large : Value := .object ⟨28⟩
    h.IsNumber word ∧ h.IsNumber float ∧ h.IsNumber large ∧ h.Rounded word float large ∧
      h.holds .eq word large ≠ .ok true ∧ h.holds .lt word large = .ok true ∧
      ∃ r r', HeapM.evaluate .min [large, float, word] h = .ok r h ∧
        HeapM.evaluate .min [float, word, large] h = .ok r' h ∧
        h.holds .le r float = .ok true ∧ h.holds .eq r r' = .ok true := by
  intro h word float large
  have hw : h.IsNumber word := .inl ⟨_, rfl⟩
  have hf : h.IsNumber float := .inr ⟨_, rfl, rfl⟩
  have hl : h.IsNumber large := .inl ⟨_, rfl⟩
  have eq : h.holds .eq word float = .ok true := rfl
  have eq' : h.holds .eq float large = .ok true := rfl
  have le : h.holds .le large float = .ok true := rfl
  have le' : h.holds .le float word = .ok true := rfl
  have greater : h.holds .le large word = .ok false := rfl
  have rounded : h.Rounded word float large := ⟨⟨_, _, rfl, rfl, by decide⟩, ⟨_, rfl⟩, eq, eq'⟩
  obtain ⟨-, three, -, least, -⟩ := numbers_ordered h
  have unequal := mt ((three word float large hw hf hl).2.1 eq eq').mp (not_not.mpr rounded)
  obtain ⟨-, less⟩ := ((three large float word hl hf hw).2.2 le le').resolve_left fun back => by
    cases greater.symm.trans back
  have numbers : ∀ v ∈ [large, float, word], h.IsNumber v := by
    rintro v (_ | ⟨_, _ | ⟨_, _ | ⟨_, none⟩⟩⟩)
    · exact hl
    · exact hf
    · exact hw
    · cases none
  obtain ⟨r, -, answer, all, order⟩ := least _ _ (.arguments large float [word]) numbers
  obtain ⟨r', answer', same⟩ := order _ _ (.arguments float word [large])
    (List.perm_append_singleton large [float, word])
  exact ⟨hw, hf, hl, rounded, unequal, less, r, r', answer, answer',
    all float (List.mem_cons_of_mem _ List.mem_cons_self), same⟩

/-- **Neither `==` nor `<=` is transitive**: two words are rounded to the float `2 ^ 53`. -/
theorem rounded_not_transitive :
    let h := (Machine.start .standard).heap
    let word : Value := .int 9007199254740992
    let float : Value := .float (Float.ofBits 0x4340000000000000)
    let next : Value := .int 9007199254740993
    h.Reachable ∧ h.IsNumber word ∧ h.IsNumber float ∧ h.IsNumber next ∧
      h.holds .eq word float = .ok true ∧ h.holds .eq float next = .ok true ∧
      h.holds .eq word next = .ok false ∧
      h.holds .le next float = .ok true ∧ h.holds .le float word = .ok true ∧
      h.holds .le next word = .ok false :=
  ⟨.idle (.start .standard), .inl ⟨_, rfl⟩, .inr ⟨_, rfl, rfl⟩, .inl ⟨_, rfl⟩, rfl, rfl, rfl, rfl,
    rfl, rfl⟩

end Heap

end RegisterVm
