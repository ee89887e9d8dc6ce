import RegisterVm.Builtin.Function
import RegisterVm.Proofs.Heap.Exceptions

/-!
# Classes and their bases

The lineage of a class are the classes of a program from it along the bases, and the class that is
no class of a program at the end, if there is one (`Heap.Lineage`). On a sound heap every class has
one lineage (`Heap.exists_lineage`). Three searches go along it:

* an attribute is looked for on the first classes, and a lineage that is not shorter than the number
  of classes looked at is refused (`Heap.Lineage.classAttributeWithin_eq`);
* an ancestor is looked for among the first classes too, but is not found behind them
  (`Heap.Lineage.isSubclassWithin_eq`);
* the exception class at the end is found however long the lineage is (`Heap.Lineage.isException`).
-/

namespace RegisterVm

namespace Heap

/-- The classes of a program from `start` along the bases. The last base is either missing or no
class of a program. -/
inductive Lineage (h : Heap) : Option Handle → List Handle → Option Handle → Prop
  | missing : Lineage h none [] none
  | outside {c : Handle} {o : Object} : h.object? c = some o →
    (∀ name base attributes, o ≠ .cls name base attributes) → Lineage h (some c) [] (some c)
  | cls {c : Handle} {name : String} {base : Option Handle} {attributes : Bindings}
    {cs : List Handle} {last : Option Handle} : h.object? c = some (.cls name base attributes) →
    Lineage h base cs last → Lineage h (some c) (c :: cs) last

/-- A class of a program or an exception class. -/
inductive IsClass (h : Heap) (c : Handle) : Prop
  | cls {name : String} {base : Option Handle} {attributes : Bindings} :
    h.object? c = some (.cls name base attributes) → IsClass h c
  | exceptionClass {kind : ErrorKind} : h.object? c = some (.exceptionClass kind) → IsClass h c

/-- The attribute of a class itself. -/
def ownAttribute? (h : Heap) (name : String) (c : Handle) : Option Value :=
  match h.object? c with
  | some (.cls _ _ attributes) => attributes.get? name
  | _ => none

variable {functions : Nat} {h h' : Heap} {start last : Option Handle} {cs : List Handle}
  {c : Handle}

theorem IsClass.has (cls : h.IsClass c) : h.Has (.object c) := by
  cases cls with
  | cls found | exceptionClass found => exact lt_of_object? found

theorem IsClass.grown (cls : h.IsClass c) (grows : h.Grows h') : h'.IsClass c := by
  cases cls with
  | cls found =>
    obtain ⟨o', now, becomes⟩ := grows.object _ _ found
    cases becomes <;> exact .cls now
  | exceptionClass found =>
    obtain ⟨o', now, becomes⟩ := grows.object _ _ found
    cases becomes
    exact .exceptionClass now

/-! ## One lineage -/

namespace Lineage

/-- A class has one lineage at most. -/
theorem unique (lineage : h.Lineage start cs last) {cs' : List Handle} {last' : Option Handle}
    (lineage' : h.Lineage start cs' last') : cs' = cs ∧ last' = last := by
  induction lineage generalizing cs' with
  | missing =>
    cases lineage'
    exact ⟨rfl, rfl⟩
  | outside found free =>
    cases lineage' with
    | outside => exact ⟨rfl, rfl⟩
    | cls found' => exact absurd (Option.some.inj (found.symm.trans found')) (free _ _ _)
  | cls found _ ih =>
    cases lineage' with
    | outside found' free => exact absurd (Option.some.inj (found'.symm.trans found)) (free _ _ _)
    | cls found' rest =>
      cases Option.some.inj (found.symm.trans found')
      obtain ⟨rfl, rfl⟩ := ih rest
      exact ⟨rfl, rfl⟩

/-- The lineage of a class stays when the heap grows. -/
theorem grown (lineage : h.Lineage start cs last) (grows : h.Grows h') :
    h'.Lineage start cs last := by
  induction lineage with
  | missing => exact .missing
  | outside found free =>
    obtain ⟨o', now, becomes⟩ := grows.object _ _ found
    refine .outside now fun name base attributes same => ?_
    subst same
    cases becomes <;> exact free _ _ _ rfl
  | cls found _ ih =>
    obtain ⟨o', now, becomes⟩ := grows.object _ _ found
    cases becomes with
    | same | cls => exact .cls now ih

/-- The lineage of a base is the rest of the lineage. -/
theorem of_mem (lineage : h.Lineage start cs last) {a : Handle} (mem : a ∈ cs) :
    ∃ before after, cs = before ++ a :: after ∧ h.Lineage (some a) (a :: after) last := by
  induction lineage with
  | missing | outside => cases mem
  | @cls c _ _ _ cs last found rest ih =>
    rcases List.mem_cons.mp mem with rfl | mem
    · exact ⟨[], cs, rfl, .cls found rest⟩
    · obtain ⟨before, after, rfl, lineage⟩ := ih mem
      exact ⟨c :: before, after, rfl, lineage⟩

/-- The end of a lineage has no classes after it. -/
theorem of_last {e : Handle} (lineage : h.Lineage start cs last) (ended : last = some e) :
    h.Lineage (some e) [] (some e) := by
  induction lineage with
  | missing => cases ended
  | outside found free =>
    cases ended
    exact .outside found free
  | cls _ _ ih => exact ih ended

/-- A class that is not the end of a lineage is a class of a program. -/
theorem cls_of_mem (lineage : h.Lineage start cs last) {a : Handle} (mem : a ∈ cs) :
    ∃ name base attributes, h.object? a = some (.cls name base attributes) := by
  obtain ⟨_, _, -, lineage⟩ := lineage.of_mem mem
  cases lineage with
  | cls found _ => exact ⟨_, _, _, found⟩

/-- Nothing stands twice in a lineage. -/
theorem nodup (lineage : h.Lineage start cs last) : (cs ++ last.toList).Nodup := by
  induction lineage with
  | missing => exact List.nodup_nil
  | outside => exact List.nodup_cons.mpr ⟨List.not_mem_nil, List.nodup_nil⟩
  | @cls c _ _ _ cs last found rest ih =>
    refine List.nodup_cons.mpr ⟨fun mem => ?_, ih⟩
    have whole := Lineage.cls found rest
    rcases List.mem_append.mp mem with mem | mem
    · obtain ⟨before, after, rfl, again⟩ := rest.of_mem mem
      have same := congrArg List.length (whole.unique again).1
      simp only [List.length_cons, List.length_append] at same
      omega
    · cases (whole.unique (rest.of_last (Option.mem_toList.mp mem))).1

end Lineage

/-- **On a sound heap every class has one lineage**, since bases are older. -/
theorem exists_lineage (sound : h.Sound functions) (inside : c.index.toNat < h.size) :
    ∃ cs last, ∀ cs' last', h.Lineage (some c) cs' last' ↔ cs' = cs ∧ last' = last := by
  suffices some_lineage : ∃ cs last, h.Lineage (some c) cs last by
    obtain ⟨cs, last, lineage⟩ := some_lineage
    refine ⟨cs, last, fun cs' last' => ⟨lineage.unique, ?_⟩⟩
    rintro ⟨rfl, rfl⟩
    exact lineage
  induction age : c.index.toNat using Nat.strongRecOn generalizing c with
  | ind n ih =>
    obtain ⟨o, found⟩ := exists_object inside
    cases o with
    | cls name base attributes =>
      cases base with
      | none => exact ⟨_, _, .cls found .missing⟩
      | some b =>
        have older := (sound.at found).1 b rfl
        obtain ⟨cs, last, lineage⟩ := ih _ (age ▸ older) (Nat.lt_trans older inside) rfl
        exact ⟨_, _, .cls found lineage⟩
    | _ => exact ⟨_, _, .outside found nofun⟩

/-! ## Attributes -/

theorem get_eq_ok {o : Object} (found : h.object? c = some o) : h.get c = .ok o := by
  rw [get, found]

theorem classAttributeWithin_succ {o : Object} (found : h.object? c = some o) (name : String)
    (bases : Nat) : h.classAttributeWithin name (bases + 1) (some c) =
      match o with
      | .cls _ base attributes =>
        match attributes.get? name with
        | some v => .ok (some v)
        | none => h.classAttributeWithin name bases base
      | _ => .ok none := by
  simp only [classAttributeWithin, get_eq_ok found, Bind.bind, Except.bind]
  cases o <;> rfl

/-- **Looking for an attribute** on the first classes of a lineage. -/
theorem Lineage.classAttributeWithin_eq (lineage : h.Lineage start cs last) (name : String)
    (bases : Nat) : h.classAttributeWithin name bases start =
      match (cs.take bases).findSome? (h.ownAttribute? name) with
      | some v => .ok (some v)
      | none => if cs.length < bases then .ok none else refuse .classChainTooDeep := by
  induction lineage generalizing bases with
  | missing => cases bases <;> rfl
  | @outside c o found free =>
    cases bases with
    | zero => rfl
    | succ bases =>
      rw [classAttributeWithin_succ found]
      cases o with
      | cls => exact absurd rfl (free _ _ _)
      | _ => rfl
  | @cls c className base attributes cs last found _ ih =>
    cases bases with
    | zero => rfl
    | succ bases =>
      have own : h.ownAttribute? name c = attributes.get? name := by rw [ownAttribute?, found]
      simp only [classAttributeWithin_succ found, ih bases, List.take_succ_cons,
        List.findSome?_cons, own, List.length_cons, Nat.succ_lt_succ_iff]
      cases attributes.get? name <;> rfl

namespace Lineage

variable {name : String}

/-- An attribute is found when it belongs to one of the first classes, and then it is that of the
first class that has it. -/
theorem classAttribute_some_iff (lineage : h.Lineage (some c) cs last) {v : Value} :
    h.classAttribute c name = .ok (some v) ↔ ∃ before a after, cs = before ++ a :: after ∧
      before.length < maxBases ∧ h.ownAttribute? name a = some v ∧
      ∀ b ∈ before, h.ownAttribute? name b = none := by
  have found : h.classAttribute c name = .ok (some v) ↔
      (cs.take maxBases).findSome? (h.ownAttribute? name) = some v := by
    rw [classAttribute, lineage.classAttributeWithin_eq]
    cases (cs.take maxBases).findSome? (h.ownAttribute? name) with
    | some w => simp only [Except.ok.injEq]
    | none =>
      refine iff_of_false (fun wrong => ?_) nofun
      by_cases short : cs.length < maxBases
      · cases wrong.symm.trans (if_pos short)
      · cases wrong.symm.trans (if_neg short)
  rw [found, List.findSome?_eq_some_iff]
  constructor
  · rintro ⟨before, a, after, split, own, none⟩
    refine ⟨before, a, after ++ cs.drop maxBases, ?_, ?_, own, none⟩
    · rw [← List.cons_append, ← List.append_assoc, ← split, List.take_append_drop]
    · have bound := List.length_take_le maxBases cs
      rw [split, List.length_append, List.length_cons] at bound
      omega
  · rintro ⟨before, a, after, rfl, bound, own, none⟩
    obtain ⟨rest, enough⟩ := Nat.exists_eq_add_of_lt bound
    refine ⟨before, a, after.take rest, ?_, own, none⟩
    rw [List.take_append, List.take_of_length_le (Nat.le_of_lt bound),
      show maxBases - before.length = rest + 1 by omega, List.take_succ_cons]

theorem findSome?_take (none : ∀ a ∈ cs.take maxBases, h.ownAttribute? name a = none) :
    (cs.take maxBases).findSome? (h.ownAttribute? name) = .none :=
  List.findSome?_eq_none_iff.mpr none

/-- An attribute is found to be missing when all classes of a short lineage lack it. -/
theorem classAttribute_none_iff (lineage : h.Lineage (some c) cs last) :
    h.classAttribute c name = .ok none ↔
      cs.length < maxBases ∧ ∀ a ∈ cs, h.ownAttribute? name a = none := by
  rw [classAttribute, lineage.classAttributeWithin_eq]
  constructor
  · intro missing
    split at missing
    · cases missing
    · rename_i lacking
      split at missing
      · rename_i short
        rw [List.take_of_length_le (Nat.le_of_lt short)] at lacking
        exact ⟨short, List.findSome?_eq_none_iff.mp lacking⟩
      · cases missing
  · rintro ⟨short, lacking⟩
    rw [findSome?_take fun a mem => lacking a (List.mem_of_mem_take mem)]
    exact if_pos short

/-- A lineage is refused when it is not shorter than the classes looked at and these lack the
attribute. -/
theorem classAttribute_error_iff (lineage : h.Lineage (some c) cs last) {e : Failure} :
    h.classAttribute c name = .error e ↔ maxBases ≤ cs.length ∧
      (∀ a ∈ cs.take maxBases, h.ownAttribute? name a = none) ∧
      e = .ofFault .classChainTooDeep := by
  rw [classAttribute, lineage.classAttributeWithin_eq]
  constructor
  · intro refused
    split at refused
    · cases refused
    · rename_i lacking
      split at refused
      · cases refused
      · rename_i long
        cases refused
        exact ⟨Nat.not_lt.mp long, List.findSome?_eq_none_iff.mp lacking, rfl⟩
  · rintro ⟨long, lacking, rfl⟩
    rw [findSome?_take lacking]
    exact if_neg (Nat.not_lt.mpr long)

end Lineage

/-! ## Ancestors -/

theorem isSubclassWithin_succ {o : Object} (found : h.object? c = some o) (a : Handle)
    (bases : Nat) : h.isSubclassWithin a (bases + 1) (some c) =
      if c = a then .ok true
      else match o with
        | .cls _ base _ => h.isSubclassWithin a bases base
        | _ => .ok false := by
  simp only [isSubclassWithin, get_eq_ok found, Bind.bind, Except.bind]
  cases o <;> rfl

/-- **Looking for an ancestor** among the first classes of a lineage. -/
theorem Lineage.isSubclassWithin_eq (lineage : h.Lineage start cs last) (a : Handle)
    (bases : Nat) :
    h.isSubclassWithin a bases start = .ok (decide (a ∈ (cs ++ last.toList).take bases)) := by
  induction lineage generalizing bases with
  | missing => cases bases <;> rfl
  | @outside c o found free =>
    cases bases with
    | zero => rfl
    | succ bases =>
      rw [isSubclassWithin_succ found]
      split
      · rename_i same
        subst same
        simp
      · rename_i apart
        have other : a ≠ c := Ne.symm apart
        cases o with
        | cls => exact absurd rfl (free _ _ _)
        | _ => simp [other]
  | @cls c _ _ _ cs last found _ ih =>
    cases bases with
    | zero => rfl
    | succ bases =>
      rw [isSubclassWithin_succ found]
      simp only [ih bases, List.cons_append, List.take_succ_cons, List.mem_cons]
      split
      · rename_i same
        subst same
        simp
      · rename_i apart
        have other : a ≠ c := Ne.symm apart
        simp [other]

namespace Lineage

/-- A class derives from the first classes of its lineage. -/
theorem isSubclass_iff (lineage : h.Lineage (some c) cs last) (a : Handle) :
    h.isSubclass c a = .ok true ↔ a ∈ (cs ++ last.toList).take maxBases := by
  rw [isSubclass, lineage.isSubclassWithin_eq, Except.ok.injEq, decide_eq_true_eq]

theorem isSubclass_false (lineage : h.Lineage (some c) cs last) {a : Handle}
    (other : h.isSubclass c a ≠ .ok true) : h.isSubclass c a = .ok false := by
  rw [isSubclass, lineage.isSubclassWithin_eq] at other ⊢
  cases found : decide (a ∈ (cs ++ last.toList).take maxBases) with
  | true => exact absurd (congrArg Except.ok found) other
  | false => rfl

/-- The position in the lineage decides. -/
theorem isSubclass_iff_lt (lineage : h.Lineage (some c) cs last) {i : Nat} {a : Handle}
    (stands : (cs ++ last.toList)[i]? = some a) : h.isSubclass c a = .ok true ↔ i < maxBases := by
  rw [lineage.isSubclass_iff, List.mem_iff_getElem?]
  constructor
  · rintro ⟨j, stands'⟩
    rw [List.getElem?_take] at stands'
    split at stands'
    · rename_i early
      obtain ⟨inside, -⟩ := List.getElem?_eq_some_iff.mp stands
      rwa [(List.getElem?_inj inside lineage.nodup).mp (stands.trans stands'.symm)]
    · cases stands'
  · intro early
    exact ⟨i, by rw [List.getElem?_take, if_pos early, stands]⟩

/-- A base of a base is a base, as long as the lineage is short. -/
theorem isSubclass_trans (lineage : h.Lineage (some c) cs last)
    (short : (cs ++ last.toList).length ≤ maxBases) {a b : Handle}
    (first : h.isSubclass c a = .ok true) (second : h.isSubclass a b = .ok true) :
    h.isSubclass c b = .ok true := by
  rw [lineage.isSubclass_iff, List.take_of_length_le short] at first ⊢
  rcases List.mem_append.mp first with mem | mem
  · obtain ⟨before, after, rfl, rest⟩ := lineage.of_mem mem
    have later := List.mem_of_mem_take ((rest.isSubclass_iff b).mp second)
    rw [List.append_assoc]
    exact List.mem_append_right before later
  · have ended := lineage.of_last (Option.mem_toList.mp mem)
    have itself := List.mem_of_mem_take ((ended.isSubclass_iff b).mp second)
    rw [List.mem_singleton.mp itself]
    exact first

end Lineage

/-! ## Instances -/

/-- A class derives from the exception class at the end of its lineage. -/
theorem Lineage.derives_iff (lineage : h.Lineage start cs last) (same : start = some c)
    (kind : ErrorKind) :
    h.Derives kind c ↔ ∃ e, last = some e ∧ h.object? e = some (.exceptionClass kind) := by
  induction lineage generalizing c with
  | missing => cases same
  | outside found free =>
    cases same
    constructor
    · intro derives
      cases derives with
      | itself found => exact ⟨_, rfl, found⟩
      | base found' => exact absurd (Option.some.inj (found.symm.trans found')) (free _ _ _)
    · rintro ⟨e, ⟨⟩, found⟩
      exact .itself found
  | @cls c name base attributes cs last found rest ih =>
    cases same
    constructor
    · intro derives
      cases derives with
      | itself found' => cases found.symm.trans found'
      | base found' derives =>
        cases found.symm.trans found'
        exact (ih rfl).mp derives
    · intro ended
      cases base with
      | none =>
        cases rest
        obtain ⟨e, ⟨⟩, -⟩ := ended
      | some b => exact .base found ((ih rfl).mpr ended)

/-- **Whether an instance is an exception** is decided by the end of the lineage of its class. -/
theorem Lineage.isException (sound : h.Sound functions) (lineage : h.Lineage (some c) cs last)
    {v : Value} {attributes : Bindings} (stored : h.Stores v (.instanceOf c attributes))
    (kind : ErrorKind) : ∃ t, h.isException v kind = .ok t ∧
      (t = true ↔ ∃ e other, last = some e ∧ h.object? e = some (.exceptionClass other) ∧
        kind.takesIn other = true) := by
  obtain ⟨t, answer, iff⟩ := isException_spec sound stored.has kind
  refine ⟨t, answer, iff.trans ⟨?_, ?_⟩⟩
  · rintro ⟨other, ⟨stored'⟩ | ⟨stored', derives⟩, takes⟩ <;> cases stored'.unique stored
    obtain ⟨e, ended, found⟩ := (lineage.derives_iff rfl other).mp derives
    exact ⟨e, other, ended, found, takes⟩
  · rintro ⟨e, other, ended, found, takes⟩
    exact ⟨other, .instanceOf stored ((lineage.derives_iff rfl other).mpr ⟨e, ended, found⟩), takes⟩

/-- An instance of a class is an instance of another one when the classes say so. -/
theorem Stores.isInstance_cls {v : Value} {attributes attributes' : Bindings} {a : Handle}
    {name : String} {base : Option Handle} (stored : h.Stores v (.instanceOf c attributes))
    (found : h.object? a = some (.cls name base attributes')) :
    h.isInstance v (.object a) = h.isSubclass c a := by
  have ancestor : h.view (.object a) = .ok (some (.cls name base attributes')) :=
    Stores.view ⟨a, rfl, found⟩
  simp only [isInstance, isInstanceWithin, stored.view, ancestor, Bind.bind, Except.bind]

/-- A value is an instance of an exception class when it is such an exception. -/
theorem isInstance_exceptionClass {v : Value} (has : h.Has v) {e : Handle} {kind : ErrorKind}
    (found : h.object? e = some (.exceptionClass kind)) :
    h.isInstance v (.object e) = h.isException v kind := by
  have cls : h.view (.object e) = .ok (some (.exceptionClass kind)) :=
    Stores.view ⟨e, rfl, found⟩
  rcases view_of_has has with viewed | ⟨o, viewed⟩ <;>
    simp only [isInstance, isInstanceWithin, viewed, cls, Bind.bind, Except.bind]

/-- An instance of a class is an instance of the first classes of the lineage. -/
theorem Lineage.isInstance_of_mem (sound : h.Sound functions)
    (lineage : h.Lineage (some c) cs last) {v : Value} {attributes : Bindings}
    (stored : h.Stores v (.instanceOf c attributes)) {a : Handle} (cls : h.IsClass a)
    (mem : a ∈ (cs ++ last.toList).take maxBases) : h.isInstance v (.object a) = .ok true := by
  cases cls with
  | cls found => rw [stored.isInstance_cls found, (lineage.isSubclass_iff a).mpr mem]
  | @exceptionClass kind found =>
    have ended : last = some a := by
      rcases List.mem_append.mp (List.mem_of_mem_take mem) with mem | mem
      · obtain ⟨name, base, attributes, found'⟩ := lineage.cls_of_mem mem
        cases found.symm.trans found'
      · exact Option.mem_toList.mp mem
    obtain ⟨t, answer, iff⟩ := lineage.isException sound stored kind
    have takes : kind.takesIn kind = true := by simp [ErrorKind.takesIn]
    rw [isInstance_exceptionClass stored.has found, answer, iff.mpr ⟨a, kind, ended, found, takes⟩]

end Heap

end RegisterVm
