import RegisterVm.Proofs.Heap.Changes
import RegisterVm.Proofs.Heap.Keys
import RegisterVm.Proofs.Object.Dict

/-!
# Keys and tables of a changing heap

A value keeps its key while the heap changes, because what it is keyed by never changes: strings,
integers and tuples are as they were made, and the rest is keyed by identity (`Heap.Grows.key`). So
dicts and sets, whose indexes are filled with the keys of the day, go on finding every entry by the
key that it has now (`Heap.Changed.indexed`). Shared texts go on standing for their strings
(`Heap.Changed.shares`).
-/

namespace RegisterVm

/-! ## Keys -/

namespace Heap

variable {h h' : Heap}

/-- The items of a tuple are older than it. -/
def Founded (h : Heap) : Prop :=
  ∀ handle items, h.object? handle = some (.tuple items) → ∀ v ∈ items,
    v.Within handle.index.toNat

theorem Sound.founded {functions : Nat} (sound : h.Sound functions) : h.Founded :=
  fun _ _ found => sound.at found

/-- Tuples are as they were made, so the tuples of old are founded when all are. -/
theorem Grows.founded (grows : h.Grows h') (founded : h'.Founded) : h.Founded := by
  intro handle items found
  obtain ⟨o, found', becomes⟩ := grows.object handle _ found
  cases becomes
  exact founded handle items found'

theorem keysBy_mono {key key' : Value → Outcome HashKey} {vs : List Value} {ks : HashKeys}
    (more : ∀ v ∈ vs, ∀ k, key v = .ok k → key' v = .ok k) (keyed : keysBy key vs = .ok ks) :
    keysBy key' vs = .ok ks := by
  induction vs generalizing ks with
  | nil => exact keyed
  | cons v vs ih =>
    obtain ⟨k, rest, head, tail, rfl⟩ := keysBy_cons keyed
    rw [keysBy, more v List.mem_cons_self k head,
      ih (fun w hw => more w (List.mem_cons_of_mem v hw)) tail]
    rfl

theorem keyWithin_of_keyed {depth : Nat} {handle : Handle} {o : Object} {k : HashKey}
    (found : h.object? handle = some o) (keyed : h.Keyed depth handle o k) :
    h.keyWithin (depth + 1) (.object handle) = .ok k := by
  rw [keyWithin]
  simp only [get, found]
  cases keyed with
  | str | big => rfl
  | tuple keys =>
    change (do return HashKey.tuple (← keysBy (h.keyWithin depth) _)) = _
    rw [keys]
    rfl
  | identity other => cases o <;> first | rfl | exact other.elim

/-- The key of an object depends on nothing of it that may change. -/
theorem Keyed.mono {depth depth' : Nat} {handle : Handle} {o o' : Object} {k : HashKey}
    (keyed : h.Keyed depth handle o k) (becomes : o.Becomes o')
    (items : ∀ vs, o = .tuple vs → ∀ v ∈ vs.toList, ∀ k, h.keyWithin depth v = .ok k →
      h'.keyWithin depth' v = .ok k) : h'.Keyed depth' handle o' k := by
  cases keyed with
  | str s => cases becomes; exact .str s
  | big n => cases becomes; exact .big n
  | tuple keys => cases becomes; exact .tuple (keysBy_mono (items _ rfl) keys)
  | identity other => cases becomes <;> exact .identity other

theorem Grows.keyWithin (grows : h.Grows h') (founded : h.Founded) {depth : Nat} :
    ∀ {depth' : Nat} {v : Value} {k : HashKey}, v.Within depth → v.Within depth' →
      h.keyWithin depth v = .ok k → h'.keyWithin depth' v = .ok k := by
  induction depth with
  | zero =>
    intro depth' v k within _ keyed
    cases v with
    | object handle => exact absurd within (Nat.not_lt_zero _)
    | _ => cases depth' <;> exact keyed
  | succ depth ih =>
    intro depth' v k within within' keyed
    cases v with
    | object handle =>
      obtain ⟨depth', rfl⟩ := Nat.exists_eq_add_one_of_ne_zero (Nat.ne_zero_of_lt within')
      obtain ⟨o, found, keyed⟩ := keyWithin_object keyed
      obtain ⟨o', found', becomes⟩ := grows.object handle o found
      refine keyWithin_of_keyed found' (keyed.mono becomes ?_)
      rintro vs rfl v hv k keyed
      have older := founded handle vs found v (Array.mem_toList_iff.mp hv)
      exact ih (older.mono (Nat.le_of_lt_succ within)) (older.mono (Nat.le_of_lt_succ within'))
        keyed
    | _ => cases depth' <;> exact keyed

/-- **A value keeps its key while the heap grows.** -/
theorem Grows.key (grows : h.Grows h') (founded : h.Founded) {v : Value} {k : HashKey}
    (keyed : h.key v = .ok k) : h'.key v = .ok k :=
  have within := has_of_key keyed
  grows.keyWithin founded within (within.mono (Nat.succ_le_succ grows.size)) keyed

end Heap

/-! ## Indexes -/

/-- An index has the position of each of some names under the key of the name, and no other
positions. -/
structure Indexes (key : Value → Outcome HashKey) (names : Array Value)
    (index : Std.HashMap HashKey Nat) : Prop where
  position : ∀ i v, names[i]? = some v → ∃ k, key v = .ok k ∧ index[k]? = some i
  name : ∀ k i, index[k]? = some i → ∃ v, names[i]? = some v ∧ key v = .ok k

namespace Indexes

variable {key key' : Value → Outcome HashKey} {names : Array Value}
  {index : Std.HashMap HashKey Nat}

theorem empty : Indexes key #[] ∅ :=
  ⟨fun i v found => by simp at found, fun k i found => by simp at found⟩

/-- Names that keep their keys stay indexed. -/
theorem mono (h : Indexes key names index) (more : ∀ v k, key v = .ok k → key' v = .ok k) :
    Indexes key' names index where
  position i v found := by
    obtain ⟨k, keyed, at'⟩ := h.position i v found
    exact ⟨k, more v k keyed, at'⟩
  name k i found := by
    obtain ⟨v, at', keyed⟩ := h.name k i found
    exact ⟨v, at', more v k keyed⟩

/-- A name with a new key goes to the end. -/
theorem push (h : Indexes key names index) {k : HashKey} {v : Value} (absent : index[k]? = none)
    (keyed : key v = .ok k) : Indexes key (names.push v) (index.insert k names.size) where
  position i w found := by
    rw [Array.getElem?_push] at found
    split at found
    · rename_i last
      cases found
      exact ⟨k, keyed, by simp [last]⟩
    · obtain ⟨k', keyed', at'⟩ := h.position i w found
      refine ⟨k', keyed', ?_⟩
      rw [Std.HashMap.getElem?_insert, if_neg, at']
      intro same
      rw [eq_of_beq same, at'] at absent
      cases absent
  name k' i found := by
    rw [Std.HashMap.getElem?_insert] at found
    split at found
    · rename_i same
      cases found
      exact ⟨v, by simp, eq_of_beq same ▸ keyed⟩
    · obtain ⟨w, at', keyed'⟩ := h.name k' i found
      have inside := (Array.getElem?_eq_some_iff.mp at').1
      exact ⟨w, by rw [Array.getElem?_push, if_neg (Nat.ne_of_lt inside), at'], keyed'⟩

theorem getElem?_names_erase (names : Array Value) (i j : Nat) :
    (names.eraseIdxIfInBounds i)[j]? = if j < i then names[j]? else names[j + 1]? := by
  rw [← Array.getElem?_toList, Array.toList_eraseIdxIfInBounds, List.getElem?_eraseIdx]
  simp only [Array.getElem?_toList]

/-- A name is taken out, and those behind it move up. -/
theorem erase (h : Indexes key names index) {k : HashKey} {i : Nat} (found : index[k]? = some i) :
    Indexes key (names.eraseIdxIfInBounds i)
      ((index.erase k).map fun _ j => if i < j then j - 1 else j) := by
  constructor
  · intro j v at'
    rw [getElem?_names_erase] at at'
    split at at'
    · rename_i before
      obtain ⟨k', keyed, there⟩ := h.position j v at'
      have other : k ≠ k' := by
        rintro rfl
        exact absurd (Option.some.inj (there.symm.trans found)) (Nat.ne_of_lt before)
      refine ⟨k', keyed, ?_⟩
      rw [Positions.getElem?_renumbered, if_neg other, there, Option.map_some,
        if_neg (Nat.lt_asymm before)]
    · rename_i behind
      obtain ⟨k', keyed, there⟩ := h.position (j + 1) v at'
      have behind : i < j + 1 := by omega
      have other : k ≠ k' := by
        rintro rfl
        exact absurd (Option.some.inj (there.symm.trans found)) (Nat.ne_of_gt behind)
      refine ⟨k', keyed, ?_⟩
      rw [Positions.getElem?_renumbered, if_neg other, there, Option.map_some, if_pos behind,
        Nat.add_sub_cancel]
  · intro k' j there
    rw [Positions.getElem?_renumbered] at there
    split at there
    · cases there
    · rename_i other
      obtain ⟨j', before, rfl⟩ := Option.map_eq_some_iff.mp there
      obtain ⟨v, at', keyed⟩ := h.name k' j' before
      have apart : j' ≠ i := by
        rintro rfl
        obtain ⟨v', at'', keyed'⟩ := h.name k j' found
        cases at'.symm.trans at''
        exact other (Except.ok.inj (keyed'.symm.trans keyed))
      refine ⟨v, ?_, keyed⟩
      rw [getElem?_names_erase]
      split
      · rename_i behind
        rw [if_neg (by omega), Nat.sub_add_cancel (by omega), at']
      · rw [if_pos (by omega), at']

end Indexes

/-- The entries of a dict or a set are found by their keys. -/
def Object.Indexed (key : Value → Outcome HashKey) : Object → Prop
  | .dict d => Indexes key d.keys d.index
  | .set s => Indexes key s.items s.index
  | _ => True

namespace Heap

variable {h h' : Heap}

/-- Every dict and every set finds its entries by the keys that they have. -/
def Indexed (h : Heap) : Prop := ∀ handle o, h.object? handle = some o → o.Indexed h.key

theorem indexed_empty : empty.Indexed := fun handle o found => by simp [object?, empty] at found

end Heap

namespace Dict

variable {key : Value → Outcome HashKey} {d : Dict}

theorem indexes_insert (h : Indexes key d.keys d.index) {k : HashKey} {name value : Value}
    (keyed : key name = .ok k) :
    Indexes key (d.insert k name value).keys (d.insert k name value).index := by
  obtain ⟨entries, index⟩ := d
  simp only [insert, keys] at h ⊢
  split
  · rename_i i found
    have same : (entries.modify i fun e => (e.1, value)).map (·.1) = entries.map (·.1) := by
      refine Array.ext_getElem? fun j => ?_
      rw [Array.getElem?_map, Array.getElem?_modify, Array.getElem?_map]
      split
      · rw [Option.map_map]
        rfl
      · rfl
    rw [same]
    exact h
  · rename_i absent
    rw [Array.map_push, ← Array.size_map (f := fun e : Value × Value => e.1)]
    exact h.push absent keyed

theorem indexes_remove? (h : Indexes key d.keys d.index) {k : HashKey} {v : Value} {rest : Dict}
    (removed : d.remove? k = some (v, rest)) : Indexes key rest.keys rest.index := by
  obtain ⟨entries, index⟩ := d
  simp only [remove?] at removed
  split at removed
  · rename_i i found
    split at removed
    · cases removed
      have same : (entries.eraseIdxIfInBounds i).map (·.1) =
          (entries.map (·.1)).eraseIdxIfInBounds i := by
        refine Array.toList_inj.mp ?_
        simp only [Array.toList_map, Array.toList_eraseIdxIfInBounds, List.eraseIdx_map]
      rw [keys, same]
      exact h.erase found
    · cases removed
  · cases removed

end Dict

theorem KeySet.indexes_insert {key : Value → Outcome HashKey} {s : KeySet}
    (h : Indexes key s.items s.index) {k : HashKey} {item : Value} (keyed : key item = .ok k) :
    Indexes key (s.insert k item).items (s.insert k item).index := by
  obtain ⟨items, index⟩ := s
  simp only [insert]
  split
  · exact h
  · rename_i absent
    refine h.push ?_ keyed
    simpa using absent

namespace Heap

open Outcome (Gives)

variable {h h' : Heap}

theorem Fresh.indexed {o : Object} (fresh : h.Fresh o) : o.Indexed h.key := by
  cases o with
  | dict d =>
    obtain ⟨pairs, built⟩ := fresh
    have none : Indexes h.key Dict.empty.keys Dict.empty.index := by
      simpa [Dict.empty, Dict.keys] using Indexes.empty
    have gives : Gives (h.dictOf pairs) fun d => Indexes h.key d.keys d.index := by
      refine .foldlM none fun d indexed pair _ => ?_
      intro d' inserted
      cases keyed : h.key pair.1 with
      | error e =>
        rw [keyed] at inserted
        cases inserted
      | ok k =>
        rw [keyed] at inserted
        cases inserted
        exact Dict.indexes_insert indexed keyed
    exact gives d built
  | set s =>
    obtain ⟨items, built⟩ := fresh
    have gives : Gives (h.setOf items) fun s => Indexes h.key s.items s.index := by
      refine .foldlM .empty fun s indexed item _ => ?_
      intro s' inserted
      cases keyed : h.key item with
      | error e =>
        rw [keyed] at inserted
        cases inserted
      | ok k =>
        rw [keyed] at inserted
        cases inserted
        exact KeySet.indexes_insert indexed keyed
    exact gives s built
  | _ => trivial

theorem Rewrites.indexed {o o' : Object} (rewrites : h.Rewrites o o') (indexed : o.Indexed h.key) :
    o'.Indexed h.key := by
  cases rewrites with
  | insertEntry keyed => exact Dict.indexes_insert indexed keyed
  | removeEntry removed => exact Dict.indexes_remove? indexed removed
  | insertItem keyed => exact KeySet.indexes_insert indexed keyed
  | list | cls | instanceOf => trivial

end Heap

theorem Object.Indexed.mono {key key' : Value → Outcome HashKey} {o : Object}
    (indexed : o.Indexed key) (more : ∀ v k, key v = .ok k → key' v = .ok k) : o.Indexed key' := by
  cases o with
  | dict | set => exact Indexes.mono indexed more
  | _ => trivial

namespace Heap

variable {h h' : Heap}

/-- What an object of a heap was before a change: it is new, was written to or is as it was. -/
theorem Changes.object? (changes : h.Changes h') {handle : Handle} {o : Object}
    (found : h'.object? handle = some o) :
    h.object? handle = some o ∨ h.Fresh o ∨ ∃ o', h.object? handle = some o' ∧ h.Rewrites o' o := by
  have added : ∀ {p : Object}, h.Fresh p → (h.alloc p).2.object? handle = some o →
      h.object? handle = some o ∨ h.Fresh o := by
    intro p fresh found
    simp only [alloc, Heap.object?, Array.getElem?_push] at found
    split at found
    · cases found
      exact .inr fresh
    · exact .inl found
  have written : ∀ {other : Handle} {p : Object},
      (h.modify other fun _ => p).object? handle = some o →
      h.object? handle = some o ∨ o = p ∧ handle = other := by
    intro other p found
    rw [object?_modify] at found
    split at found
    · rename_i same
      obtain ⟨old, -, rfl⟩ := Option.map_eq_some_iff.mp found
      exact .inr ⟨rfl, same⟩
    · exact .inl found
  cases changes with
  | proceeds proceeds =>
    cases proceeds.prepares with
    | add fresh => exact (added fresh found).imp_right .inl
    | share => exact (added (p := .str _) trivial found).imp_right .inl
    | advance =>
      refine (written found).imp_right fun same => .inl ?_
      rw [same.1]
      trivial
  | write old rewrites =>
    refine (written found).imp_right fun same => .inr ⟨_, ?_, same.1 ▸ rewrites⟩
    rw [same.2, old]

theorem Changes.indexed (changes : h.Changes h') (founded : h.Founded) (indexed : h.Indexed) :
    h'.Indexed := by
  have kept : ∀ v k, h.key v = .ok k → h'.key v = .ok k :=
    fun v k keyed => changes.grows.key founded keyed
  intro handle o found
  rcases changes.object? found with same | fresh | ⟨o', old, rewrites⟩
  · exact (indexed handle o same).mono kept
  · exact fresh.indexed.mono kept
  · exact (rewrites.indexed (indexed handle o' old)).mono kept

/-- **Dicts and sets go on finding their entries by their keys**, which are those of today: a key
never changes. -/
theorem Changed.indexed (changed : h.Changed h') (founded : h'.Founded) (indexed : h.Indexed) :
    h'.Indexed := by
  induction changed with
  | refl => exact indexed
  | tail _ changes ih =>
    have before := changes.grows.founded founded
    exact changes.indexed before (ih before)

/-! ## Shared texts -/

/-- A shared text stands for a string with this text. -/
def Shares (h : Heap) : Prop :=
  ∀ (s : String) handle, h.interned[s]? = some handle → h.object? handle = some (.str s)

theorem shares_empty : empty.Shares := fun s handle found => by simp [empty] at found

theorem Grows.str (grows : h.Grows h') {handle : Handle} {s : String}
    (found : h.object? handle = some (.str s)) : h'.object? handle = some (.str s) := by
  obtain ⟨o, found', becomes⟩ := grows.object handle _ found
  cases becomes
  exact found'

theorem Changes.shares (changes : h.Changes h') (bound : h'.size ≤ 0x100000000)
    (shares : h.Shares) : h'.Shares := by
  have kept : ∀ (s : String) handle, h.interned[s]? = some handle →
      h'.object? handle = some (.str s) :=
    fun s handle found => changes.grows.str (shares s handle found)
  intro t handle found
  cases changes with
  | write => exact kept t handle found
  | proceeds proceeds =>
    cases proceeds.prepares with
    | add | advance => exact kept t handle found
    | @share s absent =>
      rw [share, Std.HashMap.getElem?_insert] at found
      split at found
      · rename_i same
        cases found
        have size : (h.share s).size = h.size + 1 := h.size_alloc (.str s)
        rw [← eq_of_beq same]
        exact h.object?_alloc (.str s) (by omega)
      · exact kept t handle found

/-- **Shared texts go on standing for their strings** as long as handles suffice. -/
theorem Changed.shares (changed : h.Changed h') (bound : h'.size ≤ 0x100000000)
    (shares : h.Shares) : h'.Shares := by
  induction changed with
  | refl => exact shares
  | tail _ changes ih =>
    exact changes.shares bound (ih (Nat.le_trans changes.grows.size bound))

end Heap

end RegisterVm
