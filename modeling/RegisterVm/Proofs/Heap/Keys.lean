import RegisterVm.Proofs.Machine.InUse
import RegisterVm.Proofs.Number.FloatOrder
import RegisterVm.Proofs.Number.WholeFloat

/-!
# Keys and equality

Values with one key are equal, and equal values have one key unless a word beside a float was
rounded to be compared with it, or objects are compared that are keyed more finely than they are
compared (`Heap.Split`). Main statement: `Heap.Reachable.keys_agree`.
-/

namespace RegisterVm

open Binary64 (IsInteger)

/-- How a comparison stands to the keys of what is compared: it never denies equality to values with
one key, and values that it finds equal have one key when they are not `split`. -/
structure KeysAgree {κ : Type} (equal : Outcome Bool) (ka kb : κ) (split : Prop) : Prop where
  equal_of_key : ka = kb → ∀ t, equal = .ok t → t = true
  key_of_equal : equal = .ok true → ¬split → ka = kb

namespace KeysAgree

variable {κ : Type} {equal : Outcome Bool} {ka kb : κ} {split : Prop}

theorem of_eq (same : ka = kb) : KeysAgree (.ok true) ka kb split :=
  ⟨fun _ _ ht => (Except.ok.inj ht).symm, fun _ _ => same⟩

theorem of_ne (apart : ka ≠ kb) : KeysAgree (.ok false) ka kb split :=
  ⟨fun same => absurd same apart, fun equal => Bool.noConfusion (Except.ok.inj equal)⟩

theorem of_error (failure : Failure) : KeysAgree (.error failure) ka kb split :=
  ⟨nofun, nofun⟩

/-- A comparison that decides whether the keys are one. -/
theorem of_iff {t : Bool} (decides : t = true ↔ ka = kb) : KeysAgree (.ok t) ka kb split := by
  cases t with
  | true => exact of_eq (decides.mp rfl)
  | false => exact of_ne fun same => Bool.noConfusion (decides.mpr same)

/-- A comparison of values that are split. -/
theorem of_split {t : Bool} (apart : ka ≠ kb) (apart' : split) :
    KeysAgree (.ok t) ka kb split :=
  ⟨fun same => absurd same apart, fun _ whole => absurd apart' whole⟩

theorem mono {split' : Prop} (h : KeysAgree equal ka kb split) (more : split → split') :
    KeysAgree equal ka kb split' :=
  ⟨h.equal_of_key, fun equal whole => h.key_of_equal equal (mt more whole)⟩

theorem map {κ' : Type} {f : κ → κ'} (h : KeysAgree equal ka kb split)
    (injective : f ka = f kb → ka = kb) : KeysAgree equal (f ka) (f kb) split :=
  ⟨fun same => h.equal_of_key (injective same),
    fun equal whole => congrArg f (h.key_of_equal equal whole)⟩

end KeysAgree

/-! ## Numbers -/

namespace HashKey

variable {x y : Float} {i : Int64}

/-- A float has the key of a word when its value is the word. -/
theorem ofFloat_eq_int_iff : ofFloat x = .int i ↔ IsInteger x i.toInt := by
  unfold IsInteger ofFloat
  cases found : Binary64.scaled? x with
  | none => simp
  | some s =>
    simp only [Option.some.injEq, exists_eq_left', s.value_eq_iff]
    cases whole : s.isWhole with
    | false => simp
    | true =>
      simp only [if_true, true_and]
      cases word : Word.ofInt? s.floor with
      | none =>
        simp only [reduceCtorEq, false_iff]
        intro same
        rw [same, Word.ofInt?_toInt] at word
        cases word
      | some j =>
        simp only [int.injEq, ← Word.toInt_of_ofInt? word, Int64.toInt_inj]

theorem ofFloat_cases (x : Float) : (∃ i, ofFloat x = .int i) ∨ ofFloat x = .float x.toBits := by
  unfold ofFloat
  split
  · split
    · split
      · exact .inl ⟨_, rfl⟩
      · exact .inr rfl
    · exact .inr rfl
  · exact .inr rfl

/-- **Floats have one key when they are equal**, which the two zeros are. -/
theorem ofFloat_eq_iff (number : x.isNaN = false) :
    ofFloat x = ofFloat y ↔ (x == y) = true := by
  constructor
  · intro same
    rcases ofFloat_cases x with ⟨i, hx⟩ | hx
    · have left := Binary64.ofWord_beq (ofFloat_eq_int_iff.mp hx)
      have right := Binary64.ofWord_beq (ofFloat_eq_int_iff.mp (same ▸ hx))
      exact PartialEquivBEq.trans (PartialEquivBEq.symm left) right
    · rcases ofFloat_cases y with ⟨i, hy⟩ | hy
      · rw [hx, hy] at same
        cases same
      · rw [hx, hy, float.injEq, Float.toBits_inj] at same
        rw [Float.isNaN_eq_decide_eq_nan, decide_eq_false_iff_not] at number
        exact same ▸ Float.beq_self_iff.mpr number
  · intro equal
    have zeros : ofFloat 0 = ofFloat (-0) := by decide +kernel
    obtain ⟨-, -, same | ⟨hx, hy⟩ | ⟨hx, hy⟩⟩ := Float.beq_iff_ne_nan_and_eq.mp equal
    · rw [same]
    · rw [hx, hy, zeros]
    · rw [hx, hy, zeros]

/-- The key of an integer of any size. -/
def ofInteger (n : Int) : HashKey :=
  match Word.ofInt? n with
  | some i => .int i
  | Option.none => .big n

theorem ofInteger_of_large {n : Int} (large : Word.fits n = false) : ofInteger n = .big n := by
  simp [ofInteger, Word.ofInt?, large]

theorem ofInteger_inj {m n : Int} : ofInteger m = ofInteger n ↔ m = n := by
  refine ⟨fun same => ?_, congrArg ofInteger⟩
  unfold ofInteger at same
  cases hm : Word.ofInt? m with
  | none =>
    cases hn : Word.ofInt? n with
    | none => simpa [hm, hn] using same
    | some j => simp [hm, hn] at same
  | some i =>
    cases hn : Word.ofInt? n with
    | none => simp [hm, hn] at same
    | some j =>
      rw [hm, hn, int.injEq] at same
      rw [← Word.toInt_of_ofInt? hm, ← Word.toInt_of_ofInt? hn, same]

end HashKey

namespace Primitive

namespace Number

/-- The key of a primitive number. -/
def key : Number → HashKey
  | int i => .int i
  | float x => .ofFloat x

/-- Equality of primitive numbers; a word beside a float is made a float. -/
def equal : Number → Number → Bool
  | int i, int j => i == j
  | p, q => p.toFloat == q.toFloat

/-- A word and a float that are not the same number. -/
def Mixed : Number → Number → Prop
  | int i, float x => ¬IsInteger x i.toInt
  | float x, int i => ¬IsInteger x i.toInt
  | _, _ => False

def IsNaN : Number → Prop
  | int _ => False
  | float x => x.isNaN = true

theorem equal_agrees {p q : Number} (hp : ¬p.IsNaN) :
    KeysAgree (.ok (p.equal q)) p.key q.key (p.Mixed q) := by
  cases p with
  | int i =>
    cases q with
    | int j => exact .of_iff (by simp [equal, key])
    | float x =>
      by_cases exact : IsInteger x i.toInt
      · have one : key (int i) = key (float x) := (HashKey.ofFloat_eq_int_iff.mpr exact).symm
        exact .of_iff ⟨fun _ => one, fun _ => Binary64.ofWord_beq exact⟩
      · exact .of_split (fun one => exact (HashKey.ofFloat_eq_int_iff.mp one.symm)) exact
  | float x =>
    cases q with
    | int i =>
      by_cases exact : IsInteger x i.toInt
      · have one : key (float x) = key (int i) := HashKey.ofFloat_eq_int_iff.mpr exact
        exact .of_iff ⟨fun _ => one, fun _ => PartialEquivBEq.symm (Binary64.ofWord_beq exact)⟩
      · exact .of_split (fun one => exact (HashKey.ofFloat_eq_int_iff.mp one)) exact
    | float y => exact .of_iff (HashKey.ofFloat_eq_iff (Bool.eq_false_iff.mpr hp)).symm

end Number

variable {a b : Value} {p q : Number}

theorem equal_of_number? (ha : number? a = some p) (hb : number? b = some q) :
    equal a b = .ok (p.equal q) := by
  have compared : (order a b).map (· == some .eq) = .ok (p.equal q) := by
    unfold order
    rw [ha, hb]
    cases p with
    | int i =>
      cases q with
      | int j =>
        refine congrArg Except.ok (Bool.eq_iff_iff.mpr ?_)
        simp [Number.equal, Int64.toInt_inj]
      | float y =>
        simp only [Binary64.compare?_eq]
        rfl
    | float x =>
      simp only [Binary64.compare?_eq]
      cases q <;> rfl
  cases a with
  | none | object => cases ha
  | bool | int | float =>
    cases b with
    | none | object => cases hb
    | bool | int | float => exact compared

end Primitive

/-! ## Objects -/

theorem Value.eq_of_identical {a b : Value} (same : a.identical b = true) : a = b := by
  cases a with
  | none => cases b <;> first | rfl | cases same
  | bool | int | object =>
    cases b <;> first | cases same | exact congrArg _ (beq_iff_eq.mp same)
  | float x =>
    cases b with
    | float y => exact congrArg _ (Float.toBits_inj.mp (beq_iff_eq.mp same))
    | _ => cases same

/-- Objects that are keyed by which they are, whatever they hold. -/
def Object.ByIdentity : Object → Prop
  | .str _ | .big _ | .tuple _ | .list _ | .dict _ | .set _ => False
  | _ => True

namespace Heap

variable {h : Heap}

/-- A NaN, or a tuple with one in it. -/
inductive HasNaN (h : Heap) : Value → Prop
  | float {x : Float} : x.isNaN = true → HasNaN h (.float x)
  | item {handle : Handle} {items : Array Value} {v : Value} :
    h.object? handle = some (.tuple items) → v ∈ items → HasNaN h v → HasNaN h (.object handle)

/-- Values that may be equal with different keys: an integer beside a float when the integer is no
word or not the value of the float, two range objects with the same bounds, and tuples with such
values at one position. -/
inductive Split (h : Heap) : Value → Value → Prop
  | integerFloat {a : Value} {n : Int} {x : Float} : h.integer? a = some n →
    ¬(Word.fits n = true ∧ IsInteger x n) → Split h a (.float x)
  | floatInteger {b : Value} {n : Int} {x : Float} : h.integer? b = some n →
    ¬(Word.fits n = true ∧ IsInteger x n) → Split h (.float x) b
  | ranges {a b : Handle} {r : IntRange} : a ≠ b → h.object? a = some (.range r) →
    h.object? b = some (.range r) → Split h (.object a) (.object b)
  | items {a b : Handle} {xs ys : Array Value} {i : Nat} {x y : Value} :
    h.object? a = some (.tuple xs) → h.object? b = some (.tuple ys) → xs[i]? = some x →
    ys[i]? = some y → Split h x y → Split h (.object a) (.object b)

/-- The key of an object with a handle, tuples nested less than `depth` deep in it. -/
inductive Keyed (h : Heap) (depth : Nat) (handle : Handle) : Object → HashKey → Prop
  | str (s : String) : Keyed h depth handle (.str s) (.str s)
  | big (n : Int) : Keyed h depth handle (.big n) (.big n)
  | tuple {items : Array Value} {ks : HashKeys} :
    keysBy (h.keyWithin depth) items.toList = .ok ks →
    Keyed h depth handle (.tuple items) (.tuple ks)
  | identity {o : Object} : o.ByIdentity → Keyed h depth handle o (.identity handle)

theorem keyWithin_object {depth : Nat} {handle : Handle} {k : HashKey}
    (keyed : h.keyWithin (depth + 1) (.object handle) = .ok k) :
    ∃ o, h.object? handle = some o ∧ h.Keyed depth handle o k := by
  rw [keyWithin] at keyed
  cases found : h.object? handle with
  | none =>
    simp only [get, found] at keyed
    cases keyed
  | some o =>
    simp only [get, found] at keyed
    refine ⟨o, rfl, ?_⟩
    cases o with
    | str s => cases keyed; exact .str s
    | big n => cases keyed; exact .big n
    | tuple items =>
      change (do return HashKey.tuple (← keysBy (h.keyWithin depth) items.toList)) = _ at keyed
      cases keys : keysBy (h.keyWithin depth) items.toList with
      | error e => rw [keys] at keyed; cases keyed
      | ok ks => rw [keys] at keyed; cases keyed; exact .tuple keys
    | list | dict | set => cases keyed
    | _ => cases keyed; exact .identity trivial

theorem keyWithin_number {a : Value} {p : Primitive.Number} (ha : Primitive.number? a = some p)
    (depth : Nat) : h.keyWithin depth a = .ok p.key := by
  cases a with
  | none | object => cases ha
  | bool | int | float => cases ha; cases depth <;> rfl

theorem keyWithin_none (depth : Nat) : h.keyWithin depth .none = .ok .none := by
  cases depth <;> rfl

theorem keysBy_cons {key : Value → Outcome HashKey} {v : Value} {vs : List Value} {ks : HashKeys}
    (keyed : keysBy key (v :: vs) = .ok ks) :
    ∃ k rest, key v = .ok k ∧ keysBy key vs = .ok rest ∧ ks = .cons k rest := by
  rw [keysBy] at keyed
  cases head : key v with
  | error e => rw [head] at keyed; cases keyed
  | ok k =>
    cases tail : keysBy key vs with
    | error e => rw [head, tail] at keyed; cases keyed
    | ok rest => rw [head, tail] at keyed; cases keyed; exact ⟨k, rest, rfl, rfl, rfl⟩

theorem length_eq_of_keysBy {key : Value → Outcome HashKey} :
    ∀ {xs ys : List Value} {ks : HashKeys}, keysBy key xs = .ok ks → keysBy key ys = .ok ks →
      xs.length = ys.length := by
  intro xs
  induction xs with
  | nil =>
    intro ys ks hx hy
    cases hx
    cases ys with
    | nil => rfl
    | cons y ys =>
      obtain ⟨k, rest, -, -, same⟩ := keysBy_cons hy
      cases same
  | cons x xs ih =>
    intro ys ks hx hy
    obtain ⟨k, rest, -, tail, rfl⟩ := keysBy_cons hx
    cases ys with
    | nil => cases hy
    | cons y ys =>
      obtain ⟨k', rest', -, tail', same⟩ := keysBy_cons hy
      cases same
      exact congrArg Nat.succ (ih tail tail')

/-- Items that agree one by one agree as sequences. -/
theorem keysAgree_sequence {key : Value → Outcome HashKey} {equal : Value → Value → Outcome Bool}
    {split : Value → Value → Prop} : ∀ {xs ys : List Value} {ks ks' : HashKeys},
    keysBy key xs = .ok ks → keysBy key ys = .ok ks' →
    (∀ x ∈ xs, ∀ y ∈ ys, ∀ k k', key x = .ok k → key y = .ok k' →
      KeysAgree (equal x y) k k' (split x y)) →
    KeysAgree (sequenceEqual equal xs ys) ks ks'
      (∃ (i : Nat) (x y : Value), xs[i]? = some x ∧ ys[i]? = some y ∧ split x y) := by
  intro xs
  induction xs with
  | nil =>
    intro ys ks ks' hx hy _
    cases hx
    cases ys with
    | nil => cases hy; exact .of_eq rfl
    | cons y ys =>
      obtain ⟨k, rest, -, -, rfl⟩ := keysBy_cons hy
      exact .of_ne fun same => by cases same
  | cons x xs ih =>
    intro ys ks ks' hx hy agree
    obtain ⟨k, rest, head, tail, rfl⟩ := keysBy_cons hx
    cases ys with
    | nil => cases hy; exact .of_ne fun same => by cases same
    | cons y ys =>
      obtain ⟨k', rest', head', tail', rfl⟩ := keysBy_cons hy
      have first := agree x List.mem_cons_self y List.mem_cons_self k k' head head'
      have others := ih tail tail' fun x hx y hy =>
        agree x (List.mem_cons_of_mem _ hx) y (List.mem_cons_of_mem _ hy)
      rw [sequenceEqual]
      cases compared : equal x y with
      | error e => exact .of_error e
      | ok t =>
        rw [compared] at first
        cases t with
        | false =>
          refine .of_ne fun same => ?_
          cases same
          exact Bool.noConfusion (first.equal_of_key rfl false rfl)
        | true =>
          change KeysAgree (sequenceEqual equal xs ys) _ _ _
          refine ⟨fun same => others.equal_of_key (HashKeys.cons.inj same).2, fun equal whole => ?_⟩
          have one := first.key_of_equal rfl fun s => whole ⟨0, x, y, rfl, rfl, s⟩
          have rest := others.key_of_equal equal <| by
            rintro ⟨i, x, y, hx, hy, s⟩
            exact whole ⟨i + 1, x, y, hx, hy, s⟩
          rw [one, rest]

/-! ## Integers of any size -/

theorem isBig_iff {a : Value} :
    h.isBig a = true ↔ ∃ handle n, a = .object handle ∧ h.object? handle = some (.big n) := by
  cases a with
  | object handle =>
    cases found : h.object? handle with
    | none => simp [isBig, view, get, found, Except.map, refuse]
    | some o => cases o <;> simp [isBig, view, get, found, Except.map]
  | _ => simp [isBig, view]

/-- In a sound heap the value of an integer decides how it is kept and keyed. -/
theorem key_of_integer {functions depth : Nat} (sound : h.Sound functions) {a : Value} {n : Int}
    {k : HashKey} (integer : h.integer? a = some n) (within : a.Within depth)
    (keyed : h.keyWithin depth a = .ok k) :
    k = .ofInteger n ∧ (h.isBig a = true → Word.fits n = false) := by
  have word : ∀ i : Int64, HashKey.int i = .ofInteger i.toInt := fun i => by
    rw [HashKey.ofInteger, Word.ofInt?_toInt]
  cases a with
  | none | float => cases integer
  | int i =>
    cases integer
    rw [keyWithin_number rfl] at keyed
    cases keyed
    exact ⟨word i, nofun⟩
  | bool t =>
    cases integer
    rw [keyWithin_number rfl] at keyed
    cases keyed
    cases t with
    | false => exact ⟨word 0, nofun⟩
    | true => exact ⟨word 1, nofun⟩
  | object handle =>
    cases depth with
    | zero => exact absurd within (Nat.not_lt_zero _)
    | succ depth =>
      obtain ⟨o, found, keyed⟩ := keyWithin_object keyed
      simp only [integer?, found] at integer
      cases o with
      | big m =>
        cases integer
        have large : Word.fits n = false := sound.at found
        refine ⟨?_, fun _ => large⟩
        cases keyed with
        | big => exact (HashKey.ofInteger_of_large large).symm
        | identity other => exact absurd other not_false
      | _ => cases integer

/-- What is no integer is a float or no number, and its key is not that of an integer object. -/
theorem key_of_no_integer {depth : Nat} {a : Value} {k : HashKey} (integer : h.integer? a = none)
    (within : a.Within depth) (keyed : h.keyWithin depth a = .ok k) :
    ((∃ x, a = .float x) ∨ h.float? a = none) ∧ ∀ n, k ≠ .big n := by
  cases a with
  | int | bool => cases integer
  | none =>
    rw [keyWithin_none] at keyed
    cases keyed
    exact ⟨.inr rfl, fun n same => by cases same⟩
  | float x =>
    rw [keyWithin_number rfl] at keyed
    cases keyed
    refine ⟨.inl ⟨x, rfl⟩, fun n same => ?_⟩
    rcases HashKey.ofFloat_cases x with ⟨i, hx⟩ | hx
    · cases hx.symm.trans same
    · cases hx.symm.trans same
  | object handle =>
    cases depth with
    | zero => exact absurd within (Nat.not_lt_zero _)
    | succ depth =>
      obtain ⟨o, found, keyed⟩ := keyWithin_object keyed
      simp only [integer?, found] at integer
      cases keyed with
      | big => cases integer
      | str | tuple =>
        exact ⟨.inr (by simp [float?, Value.asFloat?, view, get, found, Except.map]),
          fun n same => by cases same⟩
      | identity other =>
        refine ⟨.inr ?_, fun n same => by cases same⟩
        cases o with
        | big => exact absurd other not_false
        | _ => simp [float?, Value.asFloat?, view, get, found, Except.map]

/-- Numbers of which one is an integer object agree with their keys. -/
theorem keysAgree_large {functions depth : Nat} (sound : h.Sound functions) {a b : Value}
    {ka kb : HashKey} (large : (h.isBig a || h.isBig b) = true) (ha : a.Within depth)
    (hb : b.Within depth) (hka : h.keyWithin depth a = .ok ka)
    (hkb : h.keyWithin depth b = .ok kb) :
    KeysAgree (.ok (h.largeEqual a b)) ka kb (h.Split a b) := by
  have no_big : ∀ {c : Value}, h.integer? c = none → h.isBig c = false := fun {c} none => by
    refine Bool.eq_false_iff.mpr fun big => ?_
    obtain ⟨handle, n, rfl, found⟩ := isBig_iff.mp big
    simp [integer?, found] at none
  cases xa : h.integer? a with
  | some x =>
    obtain ⟨rfl, size⟩ := key_of_integer sound xa ha hka
    cases xb : h.integer? b with
    | some y =>
      obtain ⟨rfl, -⟩ := key_of_integer sound xb hb hkb
      rw [largeEqual, xa, xb]
      exact .of_iff (beq_iff_eq.trans HashKey.ofInteger_inj.symm)
    | none =>
      rw [no_big xb, Bool.or_false] at large
      have beyond := size large
      rw [HashKey.ofInteger_of_large beyond]
      obtain ⟨⟨y, rfl⟩ | no_number, other⟩ := key_of_no_integer xb hb hkb
      · exact .of_split (other x).symm (.integerFloat xa (by simp [beyond]))
      · have unequal : h.largeEqual a b = false := by simp [largeEqual, xa, xb, no_number]
        rw [unequal]
        exact .of_ne (other x).symm
  | none =>
    cases xb : h.integer? b with
    | none => simp [no_big xa, no_big xb] at large
    | some y =>
      obtain ⟨rfl, size⟩ := key_of_integer sound xb hb hkb
      rw [no_big xa, Bool.false_or] at large
      have beyond := size large
      rw [HashKey.ofInteger_of_large beyond]
      obtain ⟨⟨x, rfl⟩ | no_number, other⟩ := key_of_no_integer xa ha hka
      · exact .of_split (other y) (.floatInteger xb (by simp [beyond]))
      · have unequal : h.largeEqual a b = false := by simp [largeEqual, xa, xb, no_number]
        rw [unequal]
        exact .of_ne (other y)

/-! ## All values -/

/-- Only ranges are compared by more than their identity among the objects that are keyed by it. -/
theorem objectsEqual_byIdentity (h : Heap) (equal : Value → Value → Outcome Bool) {o p : Object}
    (either : o.ByIdentity ∨ p.ByIdentity) :
    ∃ t, h.objectsEqual equal (some o) (some p) = .ok t ∧
      (t = true → ∃ r, o = .range r ∧ p = .range r) := by
  unfold objectsEqual
  split
  case h_6 x y left right =>
    cases left
    cases right
    exact ⟨_, rfl, fun same => ⟨x, rfl, congrArg Object.range (beq_iff_eq.mp same).symm⟩⟩
  case h_7 => exact ⟨false, rfl, nofun⟩
  all_goals
    rename_i left right
    cases left
    cases right
    exact (or_self_iff.mp either).elim

/-- Two objects agree with their keys when the items of tuples do. -/
theorem keysAgree_objects {depth : Nat} {equal : Value → Value → Outcome Bool} {a b : Handle}
    {o p : Object} {ka kb : HashKey} (apart : a ≠ b) (ha : h.object? a = some o)
    (hb : h.object? b = some p) (hka : h.Keyed depth a o ka) (hkb : h.Keyed depth b p kb)
    (small : h.isBig (.object a) = false ∧ h.isBig (.object b) = false)
    (agree : ∀ xs ys, o = .tuple xs → p = .tuple ys → ∀ x ∈ xs, ∀ y ∈ ys, ∀ k k',
      h.keyWithin depth x = .ok k → h.keyWithin depth y = .ok k' →
        KeysAgree (equal x y) k k' (h.Split x y)) :
    KeysAgree (h.objectsEqual equal (some o) (some p)) ka kb (h.Split (.object a) (.object b)) := by
  have by_identity : o.ByIdentity ∨ p.ByIdentity → ka ≠ kb →
      KeysAgree (h.objectsEqual equal (some o) (some p)) ka kb
        (h.Split (.object a) (.object b)) := by
    intro either other
    obtain ⟨t, compared, ranges⟩ := objectsEqual_byIdentity h equal either
    rw [compared]
    cases t with
    | false => exact .of_ne other
    | true =>
      obtain ⟨r, rfl, rfl⟩ := ranges rfl
      exact .of_split other (.ranges apart ha hb)
  have no_big : ∀ {c : Handle} {n : Int}, h.object? c = some (.big n) →
      h.isBig (.object c) ≠ false := fun {c n} found none => by
    rw [isBig_iff.mpr ⟨c, n, rfl, found⟩] at none
    cases none
  cases hka with
  | big n => exact absurd small.1 (no_big ha)
  | identity left =>
    refine by_identity (.inl left) fun same => ?_
    cases hkb with
    | identity => cases same; exact apart rfl
    | _ => cases same
  | str s =>
    cases hkb with
    | big n => exact absurd small.2 (no_big hb)
    | identity right => exact by_identity (.inr right) nofun
    | tuple => exact .of_ne nofun
    | str s' => exact .of_iff (beq_iff_eq.trans (by simp))
  | @tuple xs ks left =>
    cases hkb with
    | big n => exact absurd small.2 (no_big hb)
    | identity right => exact by_identity (.inr right) nofun
    | str => exact .of_ne nofun
    | @tuple ys ks' right =>
      have items : ∀ x ∈ xs.toList, ∀ y ∈ ys.toList, ∀ k k', h.keyWithin depth x = .ok k →
          h.keyWithin depth y = .ok k' → KeysAgree (equal x y) k k' (h.Split x y) :=
        fun x hx y hy =>
          agree xs ys rfl rfl x (Array.mem_toList_iff.mp hx) y (Array.mem_toList_iff.mp hy)
      rw [objectsEqual]
      split
      · refine ((keysAgree_sequence left right items).map HashKey.tuple.inj).mono ?_
        rintro ⟨i, x, y, hx, hy, split⟩
        exact .items ha hb (by simpa using hx) (by simpa using hy) split
      · rename_i sizes
        refine .of_ne fun same => sizes ?_
        cases same
        simpa using length_eq_of_keysBy left right

theorem integer?_of_number? {a : Value} {i : Int64} (ha : Primitive.number? a = some (.int i)) :
    h.integer? a = some i.toInt := by
  cases a with
  | none | float | object => cases ha
  | int => cases ha; rfl
  | bool t => cases t <;> cases ha <;> rfl

theorem eq_float_of_number? {a : Value} {x : Float} (ha : Primitive.number? a = some (.float x)) :
    a = .float x := by
  cases a <;> cases ha
  rfl

theorem split_of_mixed {a b : Value} {p q : Primitive.Number} (ha : Primitive.number? a = some p)
    (hb : Primitive.number? b = some q) (mixed : p.Mixed q) : h.Split a b := by
  cases p with
  | int i =>
    cases q with
    | int => exact mixed.elim
    | float x =>
      rw [eq_float_of_number? hb]
      exact .integerFloat (integer?_of_number? ha) fun exact => mixed exact.2
  | float x =>
    cases q with
    | float => exact mixed.elim
    | int i =>
      rw [eq_float_of_number? ha]
      exact .floatInteger (integer?_of_number? hb) fun exact => mixed exact.2

/-- A primitive value is a number or `None`. -/
theorem none_or_number {a : Value} (primitive : a.isObject = false) :
    a = .none ∨ ∃ p, Primitive.number? a = some p := by
  cases a with
  | none => exact .inl rfl
  | object => cases primitive
  | bool | int | float => exact .inr ⟨_, rfl⟩

theorem keysAgree_primitive {depth : Nat} {a b : Value} {ka kb : HashKey}
    (primitive : a.isObject = false ∧ b.isObject = false) (no_nan : ¬h.HasNaN a)
    (hka : h.keyWithin depth a = .ok ka) (hkb : h.keyWithin depth b = .ok kb) :
    KeysAgree ((Primitive.equal a b).mapError fun kind => .ofFault (.signal kind)) ka kb
      (h.Split a b) := by
  have no_number : ∀ p : Primitive.Number, p.key ≠ .none := by
    intro p same
    cases p with
    | int => cases same
    | float x => rcases HashKey.ofFloat_cases x with ⟨i, hx⟩ | hx <;> cases hx.symm.trans same
  rcases none_or_number primitive.1 with rfl | ⟨p, ha⟩
  · rw [keyWithin_none] at hka
    cases hka
    rcases none_or_number primitive.2 with rfl | ⟨q, hb⟩
    · rw [keyWithin_none] at hkb
      cases hkb
      exact .of_eq rfl
    · rw [keyWithin_number hb] at hkb
      cases hkb
      cases b with
      | none | object => cases hb
      | bool | int | float => exact .of_ne (no_number q).symm
  · rw [keyWithin_number ha] at hka
    cases hka
    rcases none_or_number primitive.2 with rfl | ⟨q, hb⟩
    · rw [keyWithin_none] at hkb
      cases hkb
      cases a with
      | none | object => cases ha
      | bool | int | float => exact .of_ne (no_number p)
    · rw [keyWithin_number hb] at hkb
      cases hkb
      rw [Primitive.equal_of_number? ha hb]
      refine (Primitive.Number.equal_agrees fun nan => no_nan ?_).mono (split_of_mixed ha hb)
      cases p with
      | int => exact nan.elim
      | float x =>
        rw [eq_float_of_number? ha]
        exact .float nan

/-- The keys of primitive values are not those of objects. -/
theorem Keyed.ne_primitive {depth depth' : Nat} {handle : Handle} {o : Object} {b : Value}
    {ka kb : HashKey} (hka : h.Keyed depth handle o ka) (primitive : b.isObject = false)
    (hkb : h.keyWithin depth' b = .ok kb) : ka ≠ kb := by
  rcases none_or_number primitive with rfl | ⟨p, hb⟩
  · rw [keyWithin_none] at hkb
    cases hkb
    cases hka <;> nofun
  · rw [keyWithin_number hb] at hkb
    cases hkb
    cases p with
    | int => cases hka <;> nofun
    | float x =>
      rw [Primitive.Number.key]
      rcases HashKey.ofFloat_cases x with ⟨i, hx⟩ | hx <;> rw [hx] <;> cases hka <;> nofun

theorem view_primitive {a : Value} (primitive : a.isObject = false) : h.view a = .ok none := by
  cases a with
  | object => cases primitive
  | _ => rfl

/-- An object that has a key. -/
theorem keyed_of_isObject {depth : Nat} {a : Value} {k : HashKey} (object : a.isObject = true)
    (within : a.Within depth) (keyed : h.keyWithin depth a = .ok k) :
    ∃ handle o d, a = .object handle ∧ depth = d + 1 ∧ h.object? handle = some o ∧
      h.view a = .ok (some o) ∧ h.Keyed d handle o k := by
  cases a with
  | object handle =>
    cases depth with
    | zero => exact absurd within (Nat.not_lt_zero _)
    | succ d =>
      obtain ⟨o, found, keyed⟩ := keyWithin_object keyed
      refine ⟨handle, o, d, rfl, rfl, found, ?_, keyed⟩
      simp [view, get, found, Except.map]
  | _ => cases object

/-- A primitive value differs from an object, and so do their keys. -/
theorem keysAgree_mixed {depth depth' : Nat} {a b : Value} {equal : Value → Value → Outcome Bool}
    {ka kb : HashKey} (one : a.isObject ≠ b.isObject) (ha : a.Within depth) (hb : b.Within depth')
    (hka : h.keyWithin depth a = .ok ka) (hkb : h.keyWithin depth' b = .ok kb) :
    KeysAgree (do h.objectsEqual equal (← h.view a) (← h.view b)) ka kb (h.Split a b) := by
  cases left : a.isObject with
  | false =>
    have right : b.isObject = true := by simpa [left] using one
    obtain ⟨y, p, d, rfl, rfl, -, view, keyed⟩ := keyed_of_isObject right hb hkb
    rw [view_primitive left, view]
    exact .of_ne (keyed.ne_primitive left hka).symm
  | true =>
    have right : b.isObject = false := by simpa [left] using one
    obtain ⟨x, o, d, rfl, rfl, -, view, keyed⟩ := keyed_of_isObject left ha hka
    have unequal : h.objectsEqual equal (some o) none = .ok false := by cases o <;> rfl
    rw [view_primitive right, view]
    change KeysAgree (h.objectsEqual equal (some o) none) ka kb _
    rw [unequal]
    exact .of_ne (keyed.ne_primitive right hkb)

/-- The items of a tuple are older than it. -/
theorem within_of_tuple {functions depth : Nat} (sound : h.Sound functions) {handle : Handle}
    {items : Array Value} (found : h.object? handle = some (.tuple items))
    (young : (Value.object handle).Within (depth + 1)) : ∀ v ∈ items, v.Within depth := by
  have older : ∀ v ∈ items, v.Within handle.index.toNat := sound.at found
  exact fun v mem => (older v mem).mono (Nat.le_of_lt_succ young)

/-- **Equality and keys agree** at any depth. -/
theorem keysAgree_within {functions : Nat} (sound : h.Sound functions) (levels : Nat) :
    ∀ {depth : Nat} {a b : Value} {ka kb : HashKey}, a.Within depth → b.Within depth →
      h.keyWithin depth a = .ok ka → h.keyWithin depth b = .ok kb → ¬h.HasNaN a →
      KeysAgree (h.equalWithin levels a b) ka kb (h.Split a b) := by
  induction levels with
  | zero => exact fun _ _ _ _ _ => .of_error _
  | succ levels ih =>
    intro depth a b ka kb ha hb hka hkb no_nan
    rw [equalWithin]
    split
    · rename_i primitive
      exact keysAgree_primitive (by simpa using primitive) no_nan hka hkb
    · rename_i object
      split
      · rename_i same
        rw [Value.eq_of_identical same, hkb] at hka
        cases hka
        exact .of_eq rfl
      · rename_i apart
        split
        · rename_i large
          exact keysAgree_large sound large ha hb hka hkb
        · rename_i small
          by_cases both : a.isObject = b.isObject
          · have right : b.isObject = true := by simpa [both] using object
            obtain ⟨x, o, d, rfl, rfl, found, view, keyed⟩ :=
              keyed_of_isObject (both.trans right) ha hka
            obtain ⟨y, p, d', rfl, depth, found', view', keyed'⟩ := keyed_of_isObject right hb hkb
            cases depth
            rw [view, view']
            have handles : x ≠ y := fun same => apart (by simp [same, Value.identical])
            refine keysAgree_objects handles found found' keyed keyed' (by simpa using small) ?_
            rintro xs ys rfl rfl v hv w hw k k' hk hk'
            exact ih (within_of_tuple sound found ha v hv) (within_of_tuple sound found' hb w hw)
              hk hk' fun nan => no_nan (.item found hv nan)
          · exact keysAgree_mixed both ha hb hka hkb

/-- A value with a key is a value of the heap. -/
theorem has_of_key {a : Value} {k : HashKey} (keyed : h.key a = .ok k) : a.Within (h.size + 1) := by
  cases a with
  | object handle =>
    obtain ⟨o, found, -⟩ := keyWithin_object keyed
    exact Nat.lt_succ_of_lt (Array.getElem?_eq_some_iff.mp found).1
  | _ => trivial

/-- **In a reachable heap equality agrees with keys**, for hashable values `a` and `b` without a NaN
in `a`. Values with one key are equal wherever the comparison is not refused for its depth, and
equal values have one key, unless they are `Split`. -/
theorem Reachable.keys_agree (reachable : h.Reachable) {a b : Value} {ka kb : HashKey}
    (hka : h.key a = .ok ka) (hkb : h.key b = .ok kb) (no_nan : ¬h.HasNaN a) :
    (ka = kb → ∀ t, h.equal a b = .ok t → t = true) ∧
      (h.equal a b = .ok true → ¬h.Split a b → ka = kb) := by
  obtain ⟨functions, sound⟩ := reachable.sound
  have agree := keysAgree_within sound (comparisonDepth + 1) (has_of_key hka) (has_of_key hkb)
    hka hkb no_nan
  exact ⟨agree.equal_of_key, agree.key_of_equal⟩

/-- Two to the 53rd is one number, whether it is a word or a float. -/
theorem Reachable.keys_agree_float :
    (Machine.start .standard).heap.key (.int 9007199254740992) = .ok (.int 9007199254740992) ∧
      (Machine.start .standard).heap.key (.float (Float.ofBits 0x4340000000000000)) =
        .ok (.int 9007199254740992) ∧
      ∀ t, (Machine.start .standard).heap.equal (.int 9007199254740992)
        (.float (Float.ofBits 0x4340000000000000)) = .ok t → t = true := by
  let h := (Machine.start .standard).heap
  have word : h.key (.int 9007199254740992) = .ok (.int 9007199254740992) := rfl
  have float : h.key (.float (Float.ofBits 0x4340000000000000)) =
      .ok (.int 9007199254740992) := rfl
  have no_nan : ¬h.HasNaN (.int 9007199254740992) := fun nan => by cases nan
  obtain ⟨equal, -⟩ := Reachable.keys_agree (.idle (.start .standard)) word float no_nan
  exact ⟨word, float, equal rfl⟩

/-- The next word is rounded to the same float: it is equal to the float, but has another key. -/
theorem Reachable.keys_apart_rounded :
    (Machine.start .standard).heap.Reachable ∧
      (Machine.start .standard).heap.key (.int 9007199254740993) = .ok (.int 9007199254740993) ∧
      (Machine.start .standard).heap.key (.float (Float.ofBits 0x4340000000000000)) =
        .ok (.int 9007199254740992) ∧
      ¬(Machine.start .standard).heap.HasNaN (.int 9007199254740993) ∧
      ¬(Machine.start .standard).heap.HasNaN (.float (Float.ofBits 0x4340000000000000)) ∧
      (Machine.start .standard).heap.equal (.int 9007199254740993)
        (.float (Float.ofBits 0x4340000000000000)) = .ok true ∧
      HashKey.int 9007199254740993 ≠ HashKey.int 9007199254740992 := by
  refine ⟨.idle (.start .standard), rfl, rfl, fun nan => ?_, fun nan => ?_, rfl, by decide⟩
  · cases nan
  · cases nan with
    | float isNaN => exact absurd isNaN (by decide)

end Heap

end RegisterVm
