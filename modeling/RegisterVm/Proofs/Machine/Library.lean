import RegisterVm.Machine.Library
import RegisterVm.Proofs.Bytecode.Verifier
import RegisterVm.Proofs.Loop.Compiled

/-!
# Sound libraries

A library is `Library.Sound` when all its functions were verified and every loop record belongs to
a loop of its function. The empty library is sound; loading a verified chunk (`Library.load_sound`)
and storing a record (`Library.setRecord_sound`) keep it so, whatever the records count.
-/

namespace RegisterVm

/-- A function whose instructions fit it. -/
structure LoadedFunction.Valid (f : LoadedFunction) : Prop where
  params : f.chunk.paramCount.toNat ≤ f.chunk.registerCount.toNat
  instruction : ∀ pc op, f.chunk.opcode? pc = some op → op.Fits f.chunk f.children.size pc
  loops : f.loops = f.chunk.loops

/-- A record of a loop of a function; code that is there is the code of the loop. The count and the
state are arbitrary. -/
structure LoopRecord.Valid (f : LoadedFunction) (r : LoopRecord) : Prop where
  range : r.range ∈ f.loops
  compiled : ∀ code, r.compiled = some code → CompiledLoop.compile f.chunk r.range = .ok code

namespace Library

/-- Every record belongs to a loop of its function. -/
def Profile (l : Library) : Prop :=
  ∀ id header r, l.record? id header = some r →
    r.range.header = header ∧ ∃ f, l.function? id = some f ∧ r.Valid f

structure Sound (l : Library) : Prop where
  function : ∀ id f, l.function? id = some f → f.Valid
  child : ∀ id f, l.function? id = some f → ∀ c ∈ f.children, c < l.functions.size
  record : l.Profile

theorem sound_empty : empty.Sound where
  function id f h := by simp [function?, empty] at h
  child id f h := by simp [function?, empty] at h
  record id header r h := by simp [record?, empty] at h

/-! ## Records -/

theorem record?_setRecord (id other : FunctionId) (header : Nat) (r : LoopRecord) (l : Library) :
    (l.setRecord id r).record? other header =
      if id = other ∧ r.range.header = header then some r else l.record? other header := by
  obtain ⟨functions, records⟩ := l
  simp only [setRecord, record?, Std.HashMap.getElem?_insert, beq_iff_eq, Prod.mk.injEq]

theorem setRecord_sound {l : Library} (h : l.Sound) {id : FunctionId} {f : LoadedFunction}
    {r : LoopRecord} (hf : l.function? id = some f) (hr : r.Valid f) :
    (l.setRecord id r).Sound where
  function := h.function
  child := h.child
  record other header r' h' := by
    rw [record?_setRecord] at h'
    split at h'
    · rename_i same
      cases h'
      exact ⟨same.2, f, same.1 ▸ hf, hr⟩
    · exact h.record other header r' h'

/-- The record of a loop, a new one included, is valid. -/
theorem recordOf?_valid {l : Library} (h : l.Sound) {id : FunctionId} {f : LoadedFunction}
    (hf : l.function? id = some f) {header : Nat} {r : LoopRecord}
    (hr : l.recordOf? id f header = some r) : r.range.header = header ∧ r.Valid f := by
  unfold recordOf? at hr
  split at hr
  · rename_i found
    cases hr
    obtain ⟨same, g, hg, valid⟩ := h.record id header _ found
    rw [hf] at hg
    cases hg
    exact ⟨same, valid⟩
  · obtain ⟨range, found, rfl⟩ := Option.map_eq_some_iff.mp hr
    have same := List.find?_some found
    exact ⟨of_decide_eq_true same, List.mem_of_find?_eq_some found, fun code h => by cases h⟩

/-! ## Loading -/

/-- A library with more functions. -/
structure Extends (l l' : Library) : Prop where
  size : l.functions.size ≤ l'.functions.size
  function : ∀ id f, l.function? id = some f → l'.function? id = some f

namespace Extends

theorem refl (l : Library) : Extends l l := ⟨Nat.le_refl _, fun _ _ h => h⟩

theorem trans {l₁ l₂ l₃ : Library} (h : Extends l₁ l₂) (h' : Extends l₂ l₃) : Extends l₁ l₃ :=
  ⟨Nat.le_trans h.size h'.size, fun id f hf => h'.function id f (h.function id f hf)⟩

end Extends

theorem function?_push (l : Library) (f : LoadedFunction) (id : FunctionId) :
    function? { l with functions := l.functions.push f } id =
      if id = l.functions.size then some f else l.function? id := by
  simp only [function?, Array.getElem?_push]

theorem extends_push (l : Library) (f : LoadedFunction) :
    Extends l { l with functions := l.functions.push f } where
  size := by simp
  function id g h := by
    have bound : id < l.functions.size := (Array.getElem?_eq_some_iff.mp h).1
    rw [function?_push, if_neg (Nat.ne_of_lt bound), h]

theorem push_sound {l : Library} (h : l.Sound) {f : LoadedFunction} (hf : f.Valid)
    (hc : ∀ c ∈ f.children, c < l.functions.size) :
    Sound { l with functions := l.functions.push f } where
  function id g hg := by
    rw [function?_push] at hg
    split at hg
    · cases hg
      exact hf
    · exact h.function id g hg
  child id g hg c hmem := by
    simp only [Array.size_push]
    rw [function?_push] at hg
    split at hg
    · cases hg
      exact Nat.lt_succ_of_lt (hc c hmem)
    · exact Nat.lt_succ_of_lt (h.child id g hg c hmem)
  record id header r hr := by
    obtain ⟨same, g, hg, valid⟩ := h.record id header r hr
    exact ⟨same, g, (extends_push l f).function id g hg, valid⟩

mutual

/-- Loading a chunk keeps the library sound. -/
theorem load_sound {l : Library} (h : l.Sound) : (c : Chunk) → c.FitsDeep →
    (l.load c).2.Sound ∧ Extends l (l.load c).2 ∧ (l.load c).1 < (l.load c).2.functions.size
  | ⟨name, instructions, constants, registerCount, paramCount, nested⟩, fits => by
    obtain ⟨fits, deep⟩ := fits
    obtain ⟨sound, extended, bound, length⟩ := loadAll_sound h nested deep
    simp only [load]
    refine ⟨push_sound sound ⟨fits.params, ?_, rfl⟩ (by simpa using bound), ?_, by simp⟩
    · intro pc op hop
      have := fits.instruction pc op hop
      simp only [List.size_toArray, length]
      exact ⟨this.spans, this.constant, this.name, this.target, this.forward, this.child⟩
    · exact extended.trans (extends_push _ _)

theorem loadAll_sound {l : Library} (h : l.Sound) : (cs : List Chunk) → Chunk.AllFitDeep cs →
    (l.loadAll cs).2.Sound ∧ Extends l (l.loadAll cs).2 ∧
      (∀ id ∈ (l.loadAll cs).1, id < (l.loadAll cs).2.functions.size) ∧
      (l.loadAll cs).1.length = cs.length
  | [], _ => ⟨h, .refl l, fun _ h => (by cases h), rfl⟩
  | c :: cs, fits => by
    obtain ⟨sound, extended, bound⟩ := load_sound h c fits.1
    obtain ⟨sound', extended', bound', length⟩ := loadAll_sound sound cs fits.2
    simp only [loadAll]
    refine ⟨sound', extended.trans extended', ?_, by simp [length]⟩
    intro id hid
    rcases List.mem_cons.mp hid with rfl | hid
    · exact Nat.lt_of_lt_of_le bound extended'.size
    · exact bound' id hid

end

end Library

end RegisterVm
