import RegisterVm.Proofs.Json.Text

/-!
# Decoding the documents that were written

What each way to decode makes of the documents that are written for it: lists (`Decoder.list_map`),
records with their fields in order, of which some may be missing (`Decoder.record_chain`), and
variants (`Decoder.tagged_record`). A document that can be written and is no deeper than brackets
may be nested has no error (`Document.Written.readError?`).
-/

namespace RegisterVm.Json

/-! ## Nesting -/

namespace Document

mutual

/-- How deep brackets are nested. -/
def depth : Document → Nat
  | array items _ _ => itemsDepth items + 1
  | object members _ _ _ => membersDepth members + 1
  | _ => 0

def itemsDepth : List Document → Nat
  | [] => 0
  | d :: ds => max d.depth (itemsDepth ds)

def membersDepth : List (Option String × Document) → Nat
  | [] => 0
  | (_, d) :: ms => max d.depth (membersDepth ms)

end

theorem depth_le_itemsDepth {d : Document} {ds : List Document} (h : d ∈ ds) :
    d.depth ≤ itemsDepth ds := by
  induction ds with
  | nil => cases h
  | cons e ds ih =>
    rw [itemsDepth]
    rcases List.mem_cons.mp h with rfl | h
    · exact Nat.le_max_left _ _
    · exact Nat.le_trans (ih h) (Nat.le_max_right _ _)

theorem depth_le_membersDepth {m : String × Document} {ms : List (String × Document)} (h : m ∈ ms) :
    m.2.depth ≤ membersDepth (ms.map fun m => (some m.1, m.2)) := by
  induction ms with
  | nil => cases h
  | cons e ms ih =>
    rw [List.map_cons, membersDepth]
    rcases List.mem_cons.mp h with rfl | h
    · exact Nat.le_max_left _ _
    · exact Nat.le_trans (ih h) (Nat.le_max_right _ _)

theorem itemsDepth_le {n : Nat} {ds : List Document} (each : ∀ d ∈ ds, d.depth ≤ n) :
    itemsDepth ds ≤ n := by
  induction ds with
  | nil => exact Nat.zero_le n
  | cons d ds ih =>
    obtain ⟨head, tail⟩ := List.forall_mem_cons.mp each
    exact Nat.max_le.mpr ⟨head, ih tail⟩

theorem membersDepth_le {n : Nat} {ms : List (String × Document)} (each : ∀ m ∈ ms, m.2.depth ≤ n) :
    membersDepth (ms.map fun m => (some m.1, m.2)) ≤ n := by
  induction ms with
  | nil => exact Nat.zero_le n
  | cons m ms ih =>
    obtain ⟨head, tail⟩ := List.forall_mem_cons.mp each
    exact Nat.max_le.mpr ⟨head, ih tail⟩

/-- A list takes one bracket, and its items are as deep as is left. -/
theorem budget_list {ds : List Document} {budget : Nat} (shallow : (list ds).depth ≤ budget) :
    ∃ left, budget = left + 1 ∧ ∀ d ∈ ds, d.depth ≤ left := by
  rw [list, depth] at shallow
  exact ⟨budget - 1, by omega, fun d hd => by
    have := depth_le_itemsDepth hd
    omega⟩

/-- A record takes one bracket, and its members are as deep as is left. -/
theorem budget_record {ms : List (String × Document)} {budget : Nat}
    (shallow : (record ms).depth ≤ budget) :
    ∃ left, budget = left + 1 ∧ ∀ m ∈ ms, m.2.depth ≤ left := by
  rw [record, depth] at shallow
  exact ⟨budget - 1, by omega, fun m hm => by
    have := depth_le_membersDepth hm
    omega⟩

theorem itemsError?_eq_none {budget : Nat} {ds : List Document}
    (each : ∀ d ∈ ds, d.readError? budget = none) : itemsError? budget ds = none := by
  induction ds with
  | nil => rfl
  | cons d ds ih =>
    obtain ⟨head, tail⟩ := List.forall_mem_cons.mp each
    rw [itemsError?, head, ih tail]
    rfl

theorem membersError?_eq_none {budget : Nat} {ms : List (String × Document)}
    (each : ∀ m ∈ ms, m.2.readError? budget = none) :
    membersError? budget (ms.map fun m => (some m.1, m.2)) = none := by
  induction ms with
  | nil => rfl
  | cons m ms ih =>
    obtain ⟨head, tail⟩ := List.forall_mem_cons.mp each
    rw [List.map_cons, membersError?, head, ih tail]
    rfl

/-- **A document that can be written has no error** unless it is too deep. -/
theorem Written.readError? {d : Document} (h : d.Written) {budget : Nat}
    (shallow : d.depth ≤ budget) : d.readError? budget = none := by
  induction h generalizing budget with
  | null | bool => simp [Document.readError?]
  | number _ _ valued =>
    simp [Document.readError?, numberError?, Option.isNone_eq_false_iff.mpr valued]
  | text s => rfl
  | list _ ih =>
    obtain ⟨left, rfl, inside⟩ := budget_list shallow
    have items := itemsError?_eq_none fun d hd => ih d hd (inside d hd)
    simp [Document.list, Document.readError?, items]
  | record _ ih =>
    obtain ⟨left, rfl, inside⟩ := budget_record shallow
    have members := membersError?_eq_none fun m hm => ih m hm (inside m hm)
    simp [Document.record, Document.readError?, members]

/-! ## Integers -/

section Integers

variable {i : Int} (low : -0x8000000000000000 ≤ i) (high : i < 0x10000000000000000)

include low high

theorem int?_int : (int i).int? = some i := by
  simp only [int, int?, NumberText.value?_ofInt low high]

theorem written_int : (int i).Written :=
  .number (NumberText.written_ofInt i) (NumberText.padded_ofInt i)
    (by rw [NumberText.value?_ofInt low high]; rfl)

end Integers

end Document

/-! ## Floats -/

/-- The text of a float is read as the float. Readers and writers round, so this is no matter of
course. -/
def Faithful (x : Float) : Prop := Decoder.float.run (Document.float x).pretty = .ok x

/-- A float whose text is read as the float has a document that can be written, and that is decoded
as the float inside other documents too. -/
theorem Faithful.document {x : Float} (h : Faithful x) :
    (Document.float x).Written ∧ ∀ budget, Decoder.float budget (Document.float x) = .ok x := by
  unfold Faithful Decoder.run at h
  cases scaled : Binary64.scaled? x with
  | none =>
    have null : Document.float x = .null := by rw [Document.float, scaled]
    rw [null, Document.ofText_pretty .null] at h
    cases h
  | some s =>
    have number : Document.float x = .number (.ofScaled s) := by rw [Document.float, scaled]
    have written := NumberText.written_ofScaled s
    rw [number] at h ⊢
    cases bare : (NumberText.ofScaled s).padded with
    | true =>
      rw [Document.ofText_padded written bare] at h
      cases h
    | false =>
      have text : (Document.number (.ofScaled s)).pretty.toList = (NumberText.ofScaled s).text :=
        String.toList_ofList
      rw [Document.ofText_readBack (text ▸ readBack_number written bare)] at h
      have read : Decoder.float maxDepth (.number (.ofScaled s)) = .ok x := by
        cases read : Decoder.float maxDepth (.number (.ofScaled s)) with
        | error e =>
          simp only [read] at h
          cases h
        | ok y =>
          simp only [read] at h
          exact h
      refine ⟨.number written bare ?_, fun _ => read⟩
      by_contra none
      simp only [Bool.not_eq_true, Option.isSome_eq_false_iff, Option.isNone_iff_eq_none] at none
      simp only [Decoder.float, Decoder.leaf, none] at read
      cases read

/-! ## Lists -/

namespace Decoder

variable {α : Type}

/-- **A list is decoded item by item**, each with the budget that is left inside of the list. -/
theorem list_map {item : Decoder α} {write : α → Document} {as : List α} {budget : Nat}
    (shallow : (Document.list (as.map write)).depth ≤ budget)
    (each : ∀ a ∈ as, ∀ left, (write a).depth ≤ left → item left (write a) = .ok a) :
    item.list budget (.list (as.map write)) = .ok as := by
  obtain ⟨left, rfl, inside⟩ := Document.budget_list shallow
  have read : (as.map write).mapM (item left) = .ok as := by
    clear shallow
    induction as with
    | nil => rfl
    | cons a as ih =>
      rw [List.map_cons, List.forall_mem_cons] at inside
      obtain ⟨first, others⟩ := List.forall_mem_cons.mp each
      rw [List.map_cons, List.mapM_cons, first left inside.1, ih others inside.2]
      rfl
  simp only [list, Document.list, read]
  rfl

end Decoder

/-! ## Records -/

namespace RecordField

variable {σ : Type} {budget : Nat}

/-- What some fields make of a value, from the members of an object that has them in order. Fields
that an object need not have may be missing. -/
inductive Chain (budget : Nat) :
    List (RecordField σ) → σ → List (String × Document) → σ → Prop
  | done (s : σ) : Chain budget [] s [] s
  | field {f : RecordField σ} {fs : List (RecordField σ)} {s s' s'' : σ} {d : Document}
    {ms : List (String × Document)} : f.read s budget d = .ok s' → Chain budget fs s' ms s'' →
    Chain budget (f :: fs) s ((f.name, d) :: ms) s''
  | missing {f : RecordField σ} {fs : List (RecordField σ)} {s s' : σ}
    {ms : List (String × Document)} : f.inObject = false → Chain budget fs s ms s' →
    Chain budget (f :: fs) s ms s'

/-- A field is found by its name. -/
theorem find?_name {all : List (RecordField σ)} (names : (all.map name).Nodup)
    {f : RecordField σ} (hf : f ∈ all) : (all.find? fun g => g.name = f.name) = some f := by
  induction all with
  | nil => cases hf
  | cons g all ih =>
    obtain ⟨fresh, names⟩ := List.nodup_cons.mp names
    rcases List.mem_cons.mp hf with rfl | hf
    · simp
    · have other : g.name ≠ f.name := fun same =>
        fresh (same ▸ List.mem_map_of_mem hf)
      rw [List.find?_cons_of_neg (by simp [other]), ih names hf]

/-- **The members of an object are read in order**, and all fields that it must have are seen. -/
theorem readMembers_chain {all : List (RecordField σ)} (names : (all.map name).Nodup)
    {fs : List (RecordField σ)} {s s' : σ} {ms : List (String × Document)}
    (chain : Chain budget fs s ms s') (part : fs.Sublist all) (seen : List String)
    (fresh : ∀ f ∈ fs, f.name ∉ seen) :
    ∃ seen', readMembers budget all s seen (ms.map fun m => (some m.1, m.2)) = .ok (s', seen') ∧
      (∀ name ∈ seen, name ∈ seen') ∧ ∀ f ∈ fs, f.inObject = true → f.name ∈ seen' := by
  induction chain generalizing seen with
  | done s => exact ⟨seen, rfl, fun _ h => h, fun _ h => by cases h⟩
  | @field f fs s s' s'' d ms read _ ih =>
    have own : ((f :: fs).map name).Nodup := (part.map _).nodup names
    obtain ⟨distinct, -⟩ := List.nodup_cons.mp own
    obtain ⟨seen', rest, kept, required⟩ := ih ((List.sublist_cons_self f fs).trans part)
      (f.name :: seen) fun g hg known => by
        rcases List.mem_cons.mp known with same | known
        · exact distinct (same ▸ List.mem_map_of_mem hg)
        · exact fresh g (List.mem_cons_of_mem _ hg) known
    have found := find?_name names (part.subset List.mem_cons_self)
    have unseen : seen.contains f.name = false := by
      simpa using fresh f List.mem_cons_self
    refine ⟨seen', ?_, fun name h => kept name (List.mem_cons_of_mem _ h), fun g hg must => ?_⟩
    · simp only [List.map_cons, readMembers, found, unseen, read, Bool.false_eq_true, if_false]
      exact rest
    · rcases List.mem_cons.mp hg with rfl | hg
      · exact kept _ List.mem_cons_self
      · exact required g hg must
  | @missing f fs s s' ms free _ ih =>
    obtain ⟨seen', rest, kept, required⟩ := ih ((List.sublist_cons_self f fs).trans part) seen
      fun g hg => fresh g (List.mem_cons_of_mem _ hg)
    refine ⟨seen', rest, kept, fun g hg must => ?_⟩
    rcases List.mem_cons.mp hg with rfl | hg
    · rw [free] at must
      cases must
    · exact required g hg must

end RecordField

namespace Decoder

variable {σ : Type}

/-- **A record is decoded from its fields in order.** -/
theorem record_chain {fields : List (RecordField σ)} {defaults s : σ} {budget : Nat}
    {ms : List (String × Document)} (chain : RecordField.Chain budget fields defaults ms s)
    (names : (fields.map RecordField.name).Nodup) :
    record fields defaults (budget + 1) (.record ms) = .ok s := by
  obtain ⟨seen, read, -, required⟩ := RecordField.readMembers_chain names chain
    (List.Sublist.refl _) [] fun _ _ none => by cases none
  have complete : (fields.any fun f => f.inObject && !seen.contains f.name) = false := by
    rw [List.any_eq_false]
    intro f hf missing
    obtain ⟨must, unseen⟩ := Bool.and_eq_true_iff.mp missing
    simp [required f hf must] at unseen
  simp only [record, Document.record, read, Bind.bind, Except.bind, closed, complete]
  rfl

/-! ## Variants -/

variable {α : Type} {unit? : String → Option α} {variant? : String → Option (Decoder α)}
  {name : String} {a : α} {budget : Nat}

/-- A variant without content is its name. -/
theorem tagged_text (known : unit? name = some a) :
    tagged unit? variant? budget (.text name) = .ok a := by
  simp only [tagged, Document.text, known]

/-- **A variant with content** is decoded by the decoder that its name stands for. -/
theorem tagged_record (filled : unit? name = none) {item : Decoder α}
    (known : variant? name = some item) {content : Document} (read : item budget content = .ok a) :
    tagged unit? variant? (budget + 1) (.record [(name, content)]) = .ok a := by
  simp only [tagged, Document.record, List.map_cons, List.map_nil, filled, known, read]
  rfl

end Decoder

end RegisterVm.Json
