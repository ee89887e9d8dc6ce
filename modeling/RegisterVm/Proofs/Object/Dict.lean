import Mathlib.Data.List.InsertIdx
import Mathlib.Data.List.Nodup
import RegisterVm.Object.Dict

/-!
# The order of insertion

What a dict means is an association list, `Dict.Associations`: a key that is there gets another
value and keeps its name and its place, a new key goes to the end, and removing takes out one entry
and leaves the order of the others. A set means the list of its `KeySet.Members`.

A dict keeps its entries and an index of their positions apart. The two go together (`Positions`):
the index has the position of every key and no other positions, so it answers as a search through
the keys does (`Positions.findIdx?_eq`). Every operation keeps this, also removing, which renumbers
the positions behind the entry (`Positions.erase`). So whatever is done one after the other, dicts
and sets go on agreeing with their lists (`tables_keep_order`).
-/

namespace RegisterVm

/-! ## Positions -/

/-- An index has the position of each of some keys, and nothing else. -/
structure Positions (keys : List HashKey) (index : Std.HashMap HashKey Nat) : Prop where
  size : index.size = keys.length
  slot : ∀ (k : HashKey) (i : Nat), index[k]? = some i ↔ keys[i]? = some k

namespace Positions

variable {keys : List HashKey} {index : Std.HashMap HashKey Nat} {k : HashKey} {i : Nat}

theorem empty : Positions [] ∅ := ⟨by simp, by simp⟩

/-- An index without one key, the positions behind `i` being one less. -/
theorem getElem?_renumbered (index : Std.HashMap HashKey Nat) (k k' : HashKey) (i : Nat) :
    ((index.erase k).map fun _ j => if i < j then j - 1 else j)[k']? =
      if k = k' then none else index[k']?.map fun j => if i < j then j - 1 else j := by
  rw [Std.HashMap.getElem?_map, Std.HashMap.getElem?_erase]
  simp only [beq_iff_eq]
  split <;> rfl

theorem nodup (h : Positions keys index) : keys.Nodup := by
  rw [List.nodup_iff_getElem?_ne_getElem?]
  intro i j before inside same
  have here := (h.slot keys[j] j).mpr (List.getElem?_eq_getElem inside)
  have there := (h.slot keys[j] i).mpr (same.trans (List.getElem?_eq_getElem inside))
  exact absurd (Option.some.inj (there.symm.trans here)) (Nat.ne_of_lt before)

theorem getElem?_eq_none_iff (h : Positions keys index) : index[k]? = none ↔ k ∉ keys := by
  rw [List.mem_iff_getElem?, Option.eq_none_iff_forall_ne_some, not_exists]
  exact forall_congr' fun i => not_congr (h.slot k i)

/-- **The index answers as a search through the keys does.** -/
theorem findIdx?_eq (h : Positions keys index) (k : HashKey) :
    keys.findIdx? (· = k) = index[k]? := by
  cases found : index[k]? with
  | none =>
    have absent := h.getElem?_eq_none_iff.mp found
    rw [List.findIdx?_eq_none_iff]
    intro k' mem
    exact decide_eq_false fun same => absent (same ▸ mem)
  | some i =>
    obtain ⟨inside, here⟩ := List.getElem?_eq_some_iff.mp ((h.slot k i).mp found)
    refine List.findIdx?_eq_some_iff_getElem.mpr ⟨inside, by simpa using here, ?_⟩
    intro j before same
    have there : keys[j]? = some k :=
      List.getElem?_eq_some_iff.mpr ⟨Nat.lt_trans before inside, by simpa using same⟩
    rw [(h.slot k j).mpr there] at found
    exact absurd (Option.some.inj found) (Nat.ne_of_lt before)

/-- A new key goes to the end. -/
theorem push (h : Positions keys index) (absent : index[k]? = none) :
    Positions (keys ++ [k]) (index.insert k keys.length) where
  size := by
    have new : k ∉ index := by simpa using absent
    rw [Std.HashMap.size_insert, if_neg new, h.size, List.length_append, List.length_singleton]
  slot k' i := by
    rw [Std.HashMap.getElem?_insert, List.getElem?_append]
    by_cases same : k = k'
    · subst same
      have elsewhere : keys[i]? ≠ some k := fun here => by
        rw [(h.slot k i).mpr here] at absent
        cases absent
      rw [if_pos (beq_self_eq_true k), Option.some_inj]
      split
      · rename_i inside
        exact iff_of_false (Nat.ne_of_gt inside) elsewhere
      · rename_i outside
        rw [List.getElem?_singleton]
        split <;> simp <;> omega
    · rw [if_neg (by simpa using same), h.slot]
      split
      · rfl
      · rename_i outside
        rw [List.getElem?_eq_none (Nat.not_lt.mp outside), List.getElem?_singleton]
        split <;> simp [same]

/-- A key is taken out, and those behind it move up. -/
theorem erase (h : Positions keys index) (found : index[k]? = some i) :
    Positions (keys.eraseIdx i) ((index.erase k).map fun _ j => if i < j then j - 1 else j) where
  size := by
    have inside := (List.getElem?_eq_some_iff.mp ((h.slot k i).mp found)).1
    have present : k ∈ index := Std.HashMap.mem_iff_isSome_getElem?.mpr (by rw [found]; rfl)
    rw [Std.HashMap.size_map, Std.HashMap.size_erase, if_pos present, h.size,
      List.length_eraseIdx_of_lt inside]
  slot k' j := by
    rw [getElem?_renumbered, List.getElem?_eraseIdx]
    by_cases same : k = k'
    · subst same
      rw [if_pos rfl]
      have elsewhere : ∀ j, j ≠ i → keys[j]? ≠ some k := by
        intro j other here
        rw [← h.slot, found] at here
        exact other (Option.some.inj here).symm
      split
      · exact iff_of_false nofun (elsewhere j (by omega))
      · exact iff_of_false nofun (elsewhere (j + 1) (by omega))
    · have apart : ∀ j, index[k']? = some j → j ≠ i := by
        rintro j there rfl
        have here := (h.slot k j).mp found
        exact same (Option.some.inj (here.symm.trans ((h.slot k' j).mp there)))
      rw [if_neg same, Option.map_eq_some_iff]
      split <;> rename_i place <;> rw [← h.slot]
      · constructor
        · rintro ⟨j', there, moved⟩
          have := apart j' there
          split at moved
          · omega
          · rw [there, moved]
        · exact fun there => ⟨j, there, if_neg (by omega)⟩
      · constructor
        · rintro ⟨j', there, moved⟩
          have := apart j' there
          split at moved
          · rw [there]
            congr
            omega
          · omega
        · exact fun there => ⟨j + 1, there, by rw [if_pos (by omega), Nat.add_sub_cancel]⟩

end Positions

/-- Does some operations one after the other and collects what they answer. -/
def runAll {σ ω α : Type} (perform : ω → σ → α × σ) : List ω → σ → List α × σ
  | [], s => ([], s)
  | op :: ops, s =>
    let (a, s) := perform op s
    let (as, s) := runAll perform ops s
    (a :: as, s)

/-- A relation that each operation keeps, with equal answers, is kept by all of them. -/
theorem runAll_agrees {σ τ ω α : Type} {left : ω → σ → α × σ} {right : ω → τ → α × τ}
    {R : σ → τ → Prop}
    (step : ∀ op s t, R s t → (left op s).1 = (right op t).1 ∧ R (left op s).2 (right op t).2)
    (ops : List ω) {s : σ} {t : τ} (related : R s t) :
    (runAll left ops s).1 = (runAll right ops t).1 ∧
      R (runAll left ops s).2 (runAll right ops t).2 := by
  induction ops generalizing s t with
  | nil => exact ⟨rfl, related⟩
  | cons op ops ih =>
    obtain ⟨answer, related⟩ := step op s t related
    obtain ⟨answers, related⟩ := ih related
    exact ⟨congrArg₂ List.cons answer answers, related⟩

namespace Dict

/-! ## Association lists -/

/-- An entry with its key. -/
structure Association where
  key : HashKey
  name : Value
  value : Value

/-- What a dict means. -/
abbrev Associations := List Association

namespace Associations

def keys (l : Associations) : List HashKey := l.map (·.key)

def get? (key : HashKey) (l : Associations) : Option Value :=
  (l.find? (·.key = key)).map (·.value)

def contains (key : HashKey) (l : Associations) : Bool := l.any (·.key = key)

/-- A key that is there gets the value, a new one goes to the end. -/
def insert (key : HashKey) (name value : Value) (l : Associations) : Associations :=
  if l.contains key then l.map fun e => if e.key = key then { e with value } else e
  else l ++ [⟨key, name, value⟩]

def erase (key : HashKey) (l : Associations) : Associations := l.eraseP (·.key = key)

end Associations

/-- A dict has the entries of an association list, and the index has their positions. -/
structure Lists (d : Dict) (l : Associations) : Prop where
  entries : d.entries.toList = l.map fun e => (e.name, e.value)
  positions : Positions l.keys d.index

namespace Lists

variable {d : Dict} {l : Associations}

theorem empty : Lists .empty [] := ⟨rfl, .empty⟩

theorem size_eq (h : d.Lists l) : d.size = l.length := by
  rw [size, ← Array.length_toList, h.entries, List.length_map]

theorem search (h : d.Lists l) (key : HashKey) : l.findIdx? (·.key = key) = d.index[key]? := by
  rw [← h.positions.findIdx?_eq key, Associations.keys, List.findIdx?_map]
  rfl

theorem entry (h : d.Lists l) (i : Nat) :
    d.entries[i]? = l[i]?.map fun e => (e.name, e.value) := by
  rw [← Array.getElem?_toList, h.entries, List.getElem?_map]

theorem contains_eq (h : d.Lists l) (key : HashKey) : d.contains key = l.contains key := by
  rw [contains, Std.HashMap.contains_eq_isSome_getElem?, ← h.search, Associations.contains,
    List.findIdx?_isSome]

theorem get?_eq (h : d.Lists l) (key : HashKey) : d.get? key = l.get? key := by
  rw [Dict.get?, Associations.get?, List.find?_eq_bind_findIdx?_getElem?, h.search]
  cases d.index[key]? with
  | none => rfl
  | some i =>
    simp only [h.entry, Option.map_map, Option.bind_some]
    rfl

/-- The entry that the index gives for a key is there and has this key. -/
theorem exists_of_index (h : d.Lists l) {key : HashKey} {i : Nat}
    (found : d.index[key]? = some i) : ∃ e, l[i]? = some e ∧ e.key = key := by
  have here := (h.positions.slot key i).mp found
  rwa [Associations.keys, List.getElem?_map, Option.map_eq_some_iff] at here

theorem map_modify {α β : Type} {f : α → β} {g : α → α} {g' : β → β}
    (commutes : ∀ a, f (g a) = g' (f a)) (l : List α) (i : Nat) :
    (l.modify i g).map f = (l.map f).modify i g' := by
  refine List.ext_getElem? fun j => ?_
  rw [List.getElem?_map, List.getElem?_modify, List.getElem?_modify, List.getElem?_map]
  cases l[j]? with
  | none => rfl
  | some a =>
    simp only [Option.map_some, Option.map_eq_map]
    split
    · rw [commutes]
    · rfl

/-- The entries with a key are the one at the position that the index gives. -/
theorem replace_eq (h : d.Lists l) {key : HashKey} {i : Nat} (found : d.index[key]? = some i)
    (value : Value) : (l.map fun e => if e.key = key then { e with value } else e) =
      l.modify i fun e => { e with value } := by
  refine List.ext_getElem? fun j => ?_
  rw [List.getElem?_map, List.getElem?_modify]
  cases there : l[j]? with
  | none => rfl
  | some e =>
    have place : e.key = key ↔ i = j := by
      have slot := h.positions.slot key j
      rw [found, Associations.keys, List.getElem?_map, there] at slot
      simpa [eq_comm] using slot.symm
    simp only [Option.map_some, Option.map_eq_map, place]

theorem insert (h : d.Lists l) (key : HashKey) (name value : Value) :
    (d.insert key name value).Lists (l.insert key name value) := by
  have there := h.contains_eq key
  obtain ⟨entries, index⟩ := d
  rw [contains, Std.HashMap.contains_eq_isSome_getElem?] at there
  simp only [Dict.insert, Associations.insert, ← there]
  cases found : index[key]? with
  | none =>
    refine ⟨?_, ?_⟩
    · simpa using h.entries
    · have size : entries.size = l.keys.length := by
        rw [Associations.keys, List.length_map, ← h.size_eq, Dict.size]
      have pushed := h.positions.push found
      rw [← size] at pushed
      simpa [Associations.keys] using pushed
  | some i =>
    simp only [Option.isSome_some, if_true, h.replace_eq found]
    refine ⟨?_, ?_⟩
    · rw [Array.toList_modify, h.entries]
      have renewed : ∀ e : Association, ({ e with value }.name, { e with value }.value) =
          ((e.name, e.value).1, value) := fun _ => rfl
      exact (map_modify renewed l i).symm
    · have kept : ∀ e : Association, { e with value }.key = id e.key := fun _ => rfl
      rw [Associations.keys, map_modify kept, List.modify_id]
      exact h.positions

/-- Removing takes the value and the entry of a key, if it is there. -/
theorem remove? (h : d.Lists l) (key : HashKey) :
    (l.get? key = none ∧ d.remove? key = none ∧ l.erase key = l) ∨
      ∃ v rest, l.get? key = some v ∧ d.remove? key = some (v, rest) ∧
        rest.Lists (l.erase key) := by
  have answer := h.get?_eq key
  have erased : l.erase key = match d.index[key]? with
      | none => l
      | some i => l.eraseIdx i := by
    rw [← h.search, Associations.erase, List.eraseP_eq_eraseIdx]
    rfl
  rw [Dict.get?] at answer
  cases found : d.index[key]? with
  | none =>
    rw [found] at answer erased
    exact .inl ⟨answer.symm, by rw [Dict.remove?, found], erased⟩
  | some i =>
    obtain ⟨e, here, -⟩ := h.exists_of_index found
    have entry : d.entries[i]? = some (e.name, e.value) := by rw [h.entry, here]; rfl
    rw [found] at answer erased
    simp only [entry] at answer
    refine .inr ⟨e.value, _, answer.symm, by simp only [Dict.remove?, found, entry]; rfl, ?_⟩
    rw [erased]
    refine ⟨?_, ?_⟩
    · rw [Array.toList_eraseIdxIfInBounds, h.entries, List.eraseIdx_map]
    · rw [Associations.keys, ← List.eraseIdx_map]
      exact h.positions.erase found

end Lists

/-! ## Operations -/

inductive Operation where
  | insert (key : HashKey) (name value : Value)
  | remove (key : HashKey)
  | get (key : HashKey)
  | contains (key : HashKey)

/-- What an operation answers. -/
inductive Response where
  | done
  | value (v : Option Value)
  | truth (t : Bool)

def perform : Operation → Dict → Response × Dict
  | .insert key name value, d => (.done, d.insert key name value)
  | .remove key, d =>
    match d.remove? key with
    | some (v, rest) => (.value (some v), rest)
    | none => (.value none, d)
  | .get key, d => (.value (d.get? key), d)
  | .contains key, d => (.truth (d.contains key), d)

def Associations.perform : Operation → Associations → Response × Associations
  | .insert key name value, l => (.done, l.insert key name value)
  | .remove key, l => (.value (l.get? key), l.erase key)
  | .get key, l => (.value (l.get? key), l)
  | .contains key, l => (.truth (l.contains key), l)

theorem Lists.perform {d : Dict} {l : Associations} (h : d.Lists l) (op : Operation) :
    (d.perform op).1 = (l.perform op).1 ∧ (d.perform op).2.Lists (l.perform op).2 := by
  cases op with
  | insert key name value => exact ⟨rfl, h.insert key name value⟩
  | get key => exact ⟨congrArg Response.value (h.get?_eq key), h⟩
  | contains key => exact ⟨congrArg Response.truth (h.contains_eq key), h⟩
  | remove key =>
    simp only [Dict.perform, Associations.perform]
    rcases h.remove? key with ⟨answer, absent, same⟩ | ⟨v, rest, answer, removed, rests⟩
    · rw [answer, absent, same]
      exact ⟨rfl, h⟩
    · rw [answer, removed]
      exact ⟨rfl, rests⟩

end Dict

namespace KeySet

/-- What a set means: its items with their keys. -/
abbrev Members := List (HashKey × Value)

namespace Members

def contains (key : HashKey) (l : Members) : Bool := l.any (·.1 = key)

/-- Of the items with one key the first stays. -/
def insert (key : HashKey) (item : Value) (l : Members) : Members :=
  if l.contains key then l else l ++ [(key, item)]

end Members

/-- A set has the items of a list, and the index has their positions. -/
structure Lists (s : KeySet) (l : Members) : Prop where
  items : s.items.toList = l.map (·.2)
  positions : Positions (l.map (·.1)) s.index

namespace Lists

variable {s : KeySet} {l : Members}

theorem empty : Lists .empty [] := ⟨rfl, .empty⟩

theorem size_eq (h : s.Lists l) : s.size = l.length := by
  rw [size, ← Array.length_toList, h.items, List.length_map]

theorem contains_eq (h : s.Lists l) (key : HashKey) : s.contains key = l.contains key := by
  rw [contains, Std.HashMap.contains_eq_isSome_getElem?, ← h.positions.findIdx?_eq,
    Members.contains, List.findIdx?_map, List.findIdx?_isSome]
  rfl

theorem insert (h : s.Lists l) (key : HashKey) (item : Value) :
    (s.insert key item).Lists (l.insert key item) := by
  have there := h.contains_eq key
  obtain ⟨items, index⟩ := s
  rw [contains] at there
  simp only [KeySet.insert, Members.insert, ← there]
  split
  · exact h
  · rename_i absent
    refine ⟨by simpa using h.items, ?_⟩
    have size : items.size = (l.map (·.1)).length := by
      rw [List.length_map, ← h.size_eq, KeySet.size]
    have pushed := h.positions.push (k := key) (by simpa using absent)
    rw [← size] at pushed
    simpa using pushed

end Lists

inductive Operation where
  | insert (key : HashKey) (item : Value)
  | contains (key : HashKey)

/-- Only a test for membership has an answer. -/
def perform : Operation → KeySet → Option Bool × KeySet
  | .insert key item, s => (none, s.insert key item)
  | .contains key, s => (some (s.contains key), s)

def Members.perform : Operation → Members → Option Bool × Members
  | .insert key item, l => (none, l.insert key item)
  | .contains key, l => (some (l.contains key), l)

theorem Lists.perform {s : KeySet} {l : Members} (h : s.Lists l) (op : Operation) :
    (s.perform op).1 = (l.perform op).1 ∧ (s.perform op).2.Lists (l.perform op).2 := by
  cases op with
  | insert key item => exact ⟨rfl, h.insert key item⟩
  | contains key => exact ⟨congrArg some (h.contains_eq key), h⟩

end KeySet

/-! ## Runs -/

/-- **Dicts and sets keep the order of insertion.** Whatever operations are done one after the other
on the empty dict, it answers as the association list does. It has as many entries as the list and
the same ones in the same order, the look-ups of every key agree, and the index has one position for
every entry: that of the entry with the key. The same holds of sets, whose items have different
keys. -/
theorem tables_keep_order :
    (∀ ops : List Dict.Operation,
      let answers := runAll Dict.perform ops .empty
      let expected := runAll Dict.Associations.perform ops []
      let d := answers.2
      let l := expected.2
      answers.1 = expected.1 ∧ d.size = l.length ∧
        d.entries.toList = l.map (fun e => (e.name, e.value)) ∧
        (∀ key, d.get? key = l.get? key) ∧ (∀ key, d.contains key = l.contains key) ∧
        d.index.size = d.size ∧ l.keys.Nodup ∧
        ∀ (key : HashKey) (i : Nat), d.index[key]? = some i ↔ ∃ e, l[i]? = some e ∧ e.key = key) ∧
    ∀ ops : List KeySet.Operation,
      let answers := runAll KeySet.perform ops .empty
      let expected := runAll KeySet.Members.perform ops []
      let s := answers.2
      let l := expected.2
      answers.1 = expected.1 ∧ s.size = l.length ∧ s.items.toList = l.map (·.2) ∧
        (∀ key, s.contains key = l.contains key) ∧ s.index.size = s.size ∧
        (l.map (·.1)).Nodup ∧
        ∀ (key : HashKey) (i : Nat), s.index[key]? = some i ↔ ∃ e, l[i]? = some e ∧ e.1 = key := by
  refine ⟨fun ops => ?_, fun ops => ?_⟩
  · obtain ⟨answers, lists⟩ := runAll_agrees (R := Dict.Lists)
      (fun op _ _ related => related.perform op) ops .empty
    refine ⟨answers, lists.size_eq, lists.entries, lists.get?_eq, lists.contains_eq, ?_,
      lists.positions.nodup, fun key i => ?_⟩
    · rw [lists.positions.size, lists.size_eq, Dict.Associations.keys, List.length_map]
    · rw [lists.positions.slot, Dict.Associations.keys, List.getElem?_map, Option.map_eq_some_iff]
  · obtain ⟨answers, lists⟩ := runAll_agrees (R := KeySet.Lists)
      (fun op _ _ related => related.perform op) ops .empty
    refine ⟨answers, lists.size_eq, lists.items, lists.contains_eq, ?_, lists.positions.nodup,
      fun key i => ?_⟩
    · rw [lists.positions.size, lists.size_eq, List.length_map]
    · rw [lists.positions.slot, List.getElem?_map, Option.map_eq_some_iff]

end RegisterVm
