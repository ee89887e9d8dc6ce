import RegisterVm.Proofs.Heap.Walks

/-!
# Literal forms of cyclic containers

`Heap.Shows` says how the literal form of a value is made up: an object that stands inside itself is
abbreviated, and every other one is written out once, around the literal forms of what it holds. No
object is written out inside itself, so at most as many are nested as the heap has, and one more is
looked at. On a reachable heap every value has a literal form and a text, also when containers hold
themselves. Main statement: `Heap.Reachable.shown_total`.
-/

namespace RegisterVm

/-- The values that the literal form of an object shows. -/
def Object.contents : Object → List Value
  | .list items | .tuple items => items.toList
  | .dict d => d.entries.toList.flatMap fun e => [e.1, e.2]
  | .set s => s.items.toList
  | _ => []

/-- A list of results, all of which are known. -/
theorem Outcome.mapM_of_ok {α β : Type} {f : α → Outcome β} {g : α → β} {as : List α}
    (each : ∀ a ∈ as, f a = .ok (g a)) : as.mapM f = .ok (as.map g) := by
  induction as with
  | nil => rfl
  | cons a as ih =>
    have rest := ih fun b hb => each b (List.mem_cons_of_mem a hb)
    rw [List.mapM_cons, each a List.mem_cons_self, rest]
    rfl

namespace Heap

variable {functions : Nat} {h : Heap} {v : Value} {c : Handle} {o : Object}

/-- The literal form `s` of a value inside the objects `around`, which is put together with at most
`depth` values one inside the other. -/
inductive Shows (h : Heap) : (depth : Nat) → (around : List Handle) → Value → String → Prop
  | none {depth : Nat} {around : List Handle} : Shows h (depth + 1) around .none "None"
  | bool {depth : Nat} {around : List Handle} (b : Bool) :
    Shows h (depth + 1) around (.bool b) (Value.boolText b)
  | int {depth : Nat} {around : List Handle} (i : Int64) :
    Shows h (depth + 1) around (.int i) (toString i.toInt)
  | float {depth : Nat} {around : List Handle} (x : Float) :
    Shows h (depth + 1) around (.float x) (Binary64.shown x)
  | inside {depth : Nat} {around : List Handle} {c : Handle} {o : Object} :
    h.object? c = some o → c ∈ around →
    Shows h (depth + 1) around (.object c) (abbreviation o)
  | whole {depth : Nat} {around : List Handle} {c : Handle} {o : Object} {text : Value → String}
    {s : String} : h.object? c = some o → c ∉ around →
    (∀ v ∈ o.contents, Shows h depth (c :: around) v (text v)) →
    h.objectText (fun v => .ok (text v)) (.object c) o = .ok s →
    Shows h (depth + 1) around (.object c) s

/-! ## One object -/

/-- The entry of a dict in its literal form, of texts that are known. -/
theorem mapM_entries {item : Value → Outcome String} {text : Value → String} {d : Dict}
    (each : ∀ v ∈ (Object.dict d).contents, item v = .ok (text v)) :
    (d.entries.toList.mapM fun (k, v) => do return (← item k) ++ ": " ++ (← item v)) =
      .ok (d.entries.toList.map fun e => text e.1 ++ ": " ++ text e.2) := by
  refine Outcome.mapM_of_ok fun e mem => ?_
  have held : ∀ v ∈ [e.1, e.2], item v = .ok (text v) := fun v hv =>
    each v (List.mem_flatMap.mpr ⟨e, mem, hv⟩)
  simp only [held e.1 List.mem_cons_self, held e.2 (List.mem_cons_of_mem _ List.mem_cons_self)]
  rfl

/-- Only what an object holds counts for its literal form. -/
theorem objectText_eq {item : Value → Outcome String} {text : Value → String}
    (each : ∀ v ∈ o.contents, item v = .ok (text v)) (w : Value) :
    h.objectText item w o = h.objectText (fun v => .ok (text v)) w o := by
  have known : ∀ vs : List Value, (vs.mapM fun v => (.ok (text v) : Outcome String)) =
      .ok (vs.map text) := fun vs => Outcome.mapM_of_ok fun _ _ => rfl
  cases o with
  | list items | tuple items =>
    have listed : items.toList.mapM item = .ok (items.toList.map text) := Outcome.mapM_of_ok each
    simp only [objectText, listed, known]
  | set s =>
    have listed : s.items.toList.mapM item = .ok (s.items.toList.map text) :=
      Outcome.mapM_of_ok each
    simp only [objectText, listed, known]
  | dict d => simp only [objectText, mapM_entries each, mapM_entries fun _ _ => rfl]
  | _ => rfl

theorem exists_typeName (sound : h.Sound functions) (has : h.Has v) :
    ∃ name, h.typeName v = .ok name := by
  rcases view_of_has has with viewed | ⟨o, viewed⟩
  · exact ⟨_, by rw [typeName, viewed]; rfl⟩
  · rw [typeName, viewed]
    cases o with
    | instanceOf cls attributes =>
      have older : cls.index.toNat < h.size := (sound.stored (stores_of_view viewed)).1
      obtain ⟨p, found⟩ := exists_object older
      simp only [Bind.bind, Except.bind, get_eq_ok found]
      cases p <;> exact ⟨_, rfl⟩
    | _ => exact ⟨_, rfl⟩

/-- An object has a literal form when what it holds has. -/
theorem exists_objectText (sound : h.Sound functions) (found : h.object? c = some o)
    (text : Value → String) : ∃ s, h.objectText (fun v => .ok (text v)) (.object c) o = .ok s := by
  have items : ∀ vs : List Value, (vs.mapM fun v => (.ok (text v) : Outcome String)) =
      .ok (vs.map text) := fun vs => Outcome.mapM_of_ok fun _ _ => rfl
  have stored : o.Sound functions h.size h.size := sound.stored ⟨c, rfl, found⟩
  cases o with
  | list vs | tuple vs =>
    simp only [objectText, items]
    exact ⟨_, rfl⟩
  | set s =>
    simp only [objectText, items]
    split <;> exact ⟨_, rfl⟩
  | dict d =>
    have held : ∀ v ∈ (Object.dict d).contents, (.ok (text v) : Outcome String) = .ok (text v) :=
      fun _ _ => rfl
    simp only [objectText, mapM_entries held]
    exact ⟨_, rfl⟩
  | instanceOf cls attributes =>
    have has : h.Has (.object c) := lt_of_object? found
    obtain ⟨name, known⟩ := exists_typeName sound has
    simp only [objectText, known]
    exact ⟨_, rfl⟩
  | boundMethod receiver method =>
    have has : h.Has method := stored.2
    rcases view_of_has has with viewed | ⟨p, viewed⟩
    · simp only [objectText, viewed]
      exact ⟨_, rfl⟩
    · simp only [objectText, viewed]
      cases p <;> exact ⟨_, rfl⟩
  | builtinMethod receiver name =>
    have has : h.Has receiver := stored
    obtain ⟨type, known⟩ := exists_typeName sound has
    simp only [objectText, known]
    exact ⟨_, rfl⟩
  | _ => exact ⟨_, rfl⟩

/-- What an object of the heap holds is of the heap. -/
theorem Sound.contents (sound : h.Sound functions) (found : h.object? c = some o) :
    ∀ v ∈ o.contents, h.Has v := by
  have stored : o.Sound functions h.size h.size := sound.stored ⟨c, rfl, found⟩
  intro v mem
  cases o with
  | list items | tuple items | set s => exact stored v (Array.mem_toList_iff.mp mem)
  | dict d =>
    obtain ⟨e, mem, held⟩ := List.mem_flatMap.mp mem
    obtain ⟨name, value⟩ := stored e (Array.mem_toList_iff.mp mem)
    rcases List.mem_cons.mp held with rfl | held
    · exact name
    · exact List.mem_singleton.mp held ▸ value
  | _ => cases mem

/-! ## All objects -/

/-- Objects of the heap that are all different are not more than it has. -/
theorem length_le_of_nodup {around : List Handle} (nodup : around.Nodup)
    (inside : ∀ c ∈ around, c.index.toNat < h.size) : around.length ≤ h.size := by
  have positions : (around.map fun c => c.index.toNat).Nodup := by
    refine nodup.map fun c d same => ?_
    cases c
    cases d
    exact congrArg Handle.mk (UInt32.toNat_inj.mp same)
  have among : (around.map fun c => c.index.toNat) ⊆ List.range h.size := by
    intro i mem
    obtain ⟨c, hc, rfl⟩ := List.mem_map.mp mem
    exact List.mem_range.mpr (inside c hc)
  have bound := (positions.subperm among).length_le
  rwa [List.length_map, List.length_range] at bound

/-- The literal form is found inside the objects `around` when it may be as deep as there are other
objects, and one deeper. -/
theorem exists_shownWithin (sound : h.Sound functions) {depth : Nat} {around : List Handle}
    (nodup : around.Nodup) (inside : ∀ c ∈ around, c.index.toNat < h.size)
    (enough : h.size < depth + around.length) (has : h.Has v) :
    ∃ s, h.shownWithin depth around v = .ok s ∧ h.Shows depth around v s := by
  induction depth generalizing v around with
  | zero =>
    have bound := length_le_of_nodup nodup inside
    omega
  | succ depth ih =>
    cases v with
    | none => exact ⟨_, rfl, .none⟩
    | bool b => exact ⟨_, rfl, .bool b⟩
    | int i => exact ⟨_, rfl, .int i⟩
    | float x => exact ⟨_, rfl, .float x⟩
    | object c =>
      obtain ⟨o, found⟩ := exists_object has
      by_cases mem : c ∈ around
      · refine ⟨_, ?_, .inside found mem⟩
        simp only [shownWithin, get_eq_ok found, Bind.bind, Except.bind,
          List.contains_iff_mem.mpr mem, if_true]
        rfl
      · have inner : ∀ v ∈ o.contents, ∃ s, h.shownWithin depth (c :: around) v = .ok s ∧
            h.Shows depth (c :: around) v s := by
          intro v held
          refine ih (List.nodup_cons.mpr ⟨mem, nodup⟩) (List.forall_mem_cons.mpr ⟨has, inside⟩) ?_
            (sound.contents found v held)
          rw [List.length_cons]
          omega
        choose! text shown shows using inner
        obtain ⟨s, put⟩ := exists_objectText sound found text
        refine ⟨s, ?_, .whole found mem shows put⟩
        have outside : around.contains c = false := by simpa using mem
        simp only [shownWithin, get_eq_ok found, Bind.bind, Except.bind, outside]
        exact (objectText_eq shown _).trans put

/-- A value has one literal form, however deep it may be. -/
theorem Shows.unique {depth depth' : Nat} {around : List Handle} {s s' : String}
    (shows : h.Shows depth around v s) (shows' : h.Shows depth' around v s') : s = s' := by
  induction shows generalizing depth' s' with
  | none | bool | int | float => cases shows'; rfl
  | inside found mem =>
    cases shows' with
    | inside found' => rw [Option.some.inj (found.symm.trans found')]
    | whole _ outside => exact absurd mem outside
  | whole found outside _ put ih =>
    cases shows' with
    | inside _ mem => exact absurd mem outside
    | whole found' _ shows' put' =>
      obtain rfl := Option.some.inj (found.symm.trans found')
      refine Except.ok.inj (put.symm.trans (.trans ?_ put'))
      exact objectText_eq (fun v held => congrArg Except.ok (ih v held (shows' v held))) _

/-! ## Reachable heaps -/

/-- The text of a value with the literal form `s`: strings and exceptions have one of their own. -/
def ownText (h : Heap) (v : Value) (s : String) : String :=
  match h.view v with
  | .ok (some (.str t)) => t
  | .ok (some (.exception _ message)) => message
  | _ => s

theorem text_eq {s : String} (has : h.Has v) (found : h.shown v = .ok s) :
    h.text v = .ok (h.ownText v s) := by
  rcases view_of_has has with viewed | ⟨o, viewed⟩
  · rw [text, ownText, viewed]
    exact found
  · rw [text, ownText, viewed]
    cases o with
    | str | exception => rfl
    | _ => exact found

/-- **Every value has a literal form and a text** on a reachable heap, whatever contains itself. The
literal form is the only one that `Shows` allows, and is put together with no more values inside
each other than the heap has objects and one. The text is that of a string, the message of an
exception, and the literal form of everything else. -/
theorem Reachable.shown_total (reachable : h.Reachable) (has : h.Has v) :
    ∃ s, h.shown v = .ok s ∧ h.Shows (h.size + 1) [] v s ∧
      (∀ depth s', h.Shows depth [] v s' → s' = s) ∧ h.text v = .ok (h.ownText v s) := by
  obtain ⟨functions, sound⟩ := reachable.sound
  have enough : h.size < h.size + 1 + ([] : List Handle).length := Nat.lt_succ_self _
  obtain ⟨s, found, shows⟩ := exists_shownWithin sound .nil nofun enough has
  exact ⟨s, found, shows, fun depth s' shows' => shows'.unique shows, text_eq has found⟩

/-- A list that contains itself alone, and a tuple of it. -/
theorem Reachable.shown_total_cyclic : ∃ (h : Heap) (c d : Handle), h.Reachable ∧
    h.object? c = some (.list #[.object c]) ∧ h.object? d = some (.tuple #[.object c]) ∧
    h.text (.object c) = .ok "[[...]]" ∧ h.text (.object d) = .ok "([[...]],)" := by
  obtain ⟨h, c, d, reachable, list, tuple⟩ := Reachable.exists_cyclic
  have has : h.Has (.object c) := lt_of_object? list
  have has' : h.Has (.object d) := lt_of_object? tuple
  have apart : c ≠ d := by
    rintro rfl
    cases list.symm.trans tuple
  have item : ∀ {around : List Handle} {depth : Nat} {text : String},
      h.Shows depth around (.object c) text → ∀ v ∈ [Value.object c], h.Shows depth around v text :=
    fun shows v mem => List.mem_singleton.mp mem ▸ shows
  have shows : h.Shows 2 [] (.object c) "[[...]]" :=
    .whole list List.not_mem_nil (item (.inside list List.mem_cons_self)) rfl
  have shows' : h.Shows 3 [] (.object d) "([[...]],)" :=
    .whole tuple List.not_mem_nil (item (.whole list (mt List.mem_singleton.mp apart)
      (item (.inside list List.mem_cons_self)) rfl)) rfl
  obtain ⟨s, -, -, only, text⟩ := Reachable.shown_total reachable has
  obtain ⟨t, -, -, only', text'⟩ := Reachable.shown_total reachable has'
  have own : h.ownText (.object c) s = s := by rw [ownText, Stores.view ⟨c, rfl, list⟩]
  have own' : h.ownText (.object d) t = t := by rw [ownText, Stores.view ⟨d, rfl, tuple⟩]
  rw [own, ← only _ _ shows] at text
  rw [own', ← only' _ _ shows'] at text'
  exact ⟨h, c, d, reachable, list, tuple, text, text'⟩

end Heap

end RegisterVm
