import RegisterVm.Bytecode.Verifier

/-!
# What verification establishes

An instruction without a defect is `Opcode.Fits` its chunk: every register it names, every
constant, branch target and nested function exists. `Chunk.verify_ok_iff` says that verification
accepts exactly the chunks all of whose instructions fit, those of nested functions included.
-/

namespace RegisterVm

/-! ## Spans of registers -/

namespace RegisterSpan

theorem firstFrom?_eq_none (s : RegisterSpan) (bound : UInt32) :
    s.firstFrom? bound = none ↔ (0 < s.count → s.start.toNat + s.count ≤ bound.toNat) := by
  simp only [firstFrom?, UInt32.le_iff_toNat_le, Register.toNat]
  by_cases empty : s.count = 0
  · simp [empty]
  · by_cases above : bound.toNat ≤ s.start.index.toNat
    · simp [empty, above]
      omega
    · by_cases across : bound.toNat < s.start.index.toNat + s.count
      · simp [empty, above, across]
        omega
      · simp [empty, above, across]
        omega

/-- The registers of a span that ends below a 32-bit number: the numbering does not wrap. -/
theorem mem_toList {s : RegisterSpan} {bound : UInt32} {r : Register}
    (fits : 0 < s.count → s.start.toNat + s.count ≤ bound.toNat) :
    r ∈ s.toList ↔ s.start.toNat ≤ r.toNat ∧ r.toNat < s.start.toNat + s.count := by
  have limit := bound.toNat_lt
  have offset : ∀ i < s.count, (s.start.offset i).toNat = s.start.toNat + i := by
    intro i hi
    have := fits (by omega)
    simp only [Register.offset, Register.toNat, UInt32.toNat_add, UInt32.toNat_ofNat'] at this ⊢
    omega
  simp only [toList, List.mem_map, List.mem_range]
  constructor
  · rintro ⟨i, hi, rfl⟩
    rw [offset i hi]
    omega
  · rintro ⟨low, high⟩
    refine ⟨r.toNat - s.start.toNat, by omega, ?_⟩
    have := offset (r.toNat - s.start.toNat) (by omega)
    rcases r with ⟨index⟩
    simp only [Register.offset, Register.mk.injEq]
    apply UInt32.toNat_inj.mp
    simp only [Register.offset, Register.toNat] at this low ⊢
    omega

theorem mem_toList_single (r s : Register) : r ∈ (single s).toList ↔ r = s := by
  have : s.offset 0 = s := by
    simp [Register.offset]
  simp [single, toList, this]

end RegisterSpan

/-! ## Instructions -/

/-- Every operand of an instruction at address `pc` exists in a chunk with `children` nested
functions. -/
structure Opcode.Fits (op : Opcode) (c : Chunk) (children pc : Nat) : Prop where
  spans : ∀ s ∈ op.spans, 0 < s.count → s.start.toNat + s.count ≤ c.registerCount.toNat
  constant : ∀ dst index, op = .loadConst dst index → index.toNat < c.constants.size
  name : ∀ index, op.nameOperand? = some index → ∃ text, c.nameAt? index = some text
  target : ∀ target, op.branchTarget? = some target → target < c.instructions.size
  forward : ∀ target, op.branchTarget? = some target → op.isForwardOnly → pc < target
  child : ∀ dst index, op = .makeFunction dst index → index.toNat < children

namespace Opcode

/-- A register that an instruction names exists. -/
theorem Fits.register {op : Opcode} {c : Chunk} {children pc : Nat} (h : op.Fits c children pc)
    {r : Register} (hr : r ∈ op.registers) : r.toNat < c.registerCount.toNat := by
  obtain ⟨s, hs, hr⟩ := List.mem_flatMap.mp hr
  have bound := h.spans s hs
  rw [RegisterSpan.mem_toList bound] at hr
  have := bound (by omega)
  omega

/-- A position in an operand range is that of a register. -/
theorem Fits.register_of_span {op : Opcode} {c : Chunk} {children pc : Nat}
    (h : op.Fits c children pc) {s : RegisterSpan} (hs : s ∈ op.spans) {i : Nat}
    (low : s.start.toNat ≤ i) (high : i < s.start.toNat + s.count) :
    ∃ r ∈ op.registers, r.toNat = i := by
  have bound := h.spans s hs
  have limit := c.registerCount.toNat_lt
  have same : (⟨UInt32.ofNat i⟩ : Register).toNat = i := by
    have := bound (by omega)
    simp only [Register.toNat, UInt32.toNat_ofNat']
    omega
  refine ⟨⟨UInt32.ofNat i⟩, List.mem_flatMap.mpr ⟨s, hs, ?_⟩, same⟩
  rw [RegisterSpan.mem_toList bound, same]
  exact ⟨low, high⟩

end Opcode

namespace Chunk

theorem registerDefect?_eq_none (c : Chunk) (op : Opcode) :
    c.registerDefect? op = none ↔
      ∀ s ∈ op.spans, 0 < s.count → s.start.toNat + s.count ≤ c.registerCount.toNat := by
  simp only [registerDefect?, Option.map_eq_none_iff, List.findSome?_eq_none_iff,
    RegisterSpan.firstFrom?_eq_none]

theorem constantDefect?_eq_none (c : Chunk) (op : Opcode) :
    c.constantDefect? op = none ↔
      ∀ dst index, op = .loadConst dst index → index.toNat < c.constants.size := by
  cases op <;> simp [constantDefect?]

theorem nameDefect?_eq_none (c : Chunk) (op : Opcode) :
    c.nameDefect? op = none ↔
      ∀ index, op.nameOperand? = some index → ∃ text, c.nameAt? index = some text := by
  simp only [nameDefect?, nameAt?]
  cases op.nameOperand? with
  | none => simp
  | some index =>
    simp only [Option.bind_some, Option.some.injEq, forall_eq']
    cases c.constants[index.toNat]? with
    | none => simp
    | some k => cases k <;> simp [Constant.text?]

theorem targetDefect?_eq_none (c : Chunk) (pc : Nat) (op : Opcode) :
    c.targetDefect? pc op = none ↔
      ∀ target, op.branchTarget? = some target →
        target < c.instructions.size ∧ (op.isForwardOnly → pc < target) := by
  simp only [targetDefect?]
  cases op.branchTarget? with
  | none => simp
  | some target =>
    simp only [Option.bind_some, Option.some.injEq, forall_eq']
    split
    · simp; omega
    · split
      · simp_all
      · simp_all

theorem functionDefect?_eq_none (c : Chunk) (op : Opcode) :
    c.functionDefect? op = none ↔
      ∀ dst index, op = .makeFunction dst index → index.toNat < c.nested.length := by
  cases op <;> simp [functionDefect?]

/-- An instruction without a defect fits its chunk. -/
theorem defect?_eq_none (c : Chunk) (pc : Nat) (op : Opcode) :
    c.defect? pc op = none ↔ op.Fits c c.nested.length pc := by
  simp only [defect?, Option.or_eq_none_iff, registerDefect?_eq_none, constantDefect?_eq_none,
    nameDefect?_eq_none, targetDefect?_eq_none, functionDefect?_eq_none]
  constructor
  · rintro ⟨spans, constant, name, target, child⟩
    exact ⟨spans, constant, name, fun t h => (target t h).1, fun t h => (target t h).2, child⟩
  · rintro ⟨spans, constant, name, target, forward, child⟩
    exact ⟨spans, constant, name, fun t h => ⟨target t h, forward t h⟩, child⟩

theorem firstDefect?_eq_none (c : Chunk) (address : Nat) (ops : List Opcode) :
    c.firstDefect? address ops = none ↔
      ∀ (i : Nat) (op : Opcode), ops[i]? = some op → op.Fits c c.nested.length (address + i) := by
  induction ops generalizing address with
  | nil => simp [firstDefect?]
  | cons op ops ih =>
    simp only [firstDefect?]
    cases h : c.defect? address op with
    | some d =>
      simp only [reduceCtorEq, false_iff]
      intro all
      have := (c.defect?_eq_none address op).mpr (all 0 op rfl)
      rw [h] at this
      cases this
    | none =>
      rw [defect?_eq_none] at h
      simp only [ih]
      constructor
      · intro rest i op' hi
        cases i with
        | zero =>
          cases hi
          exact h
        | succ i =>
          have := rest i op' hi
          rwa [Nat.add_assoc, Nat.add_comm 1 i] at this
      · intro all i op' hi
        have := all (i + 1) op' hi
        rwa [Nat.add_comm i 1, ← Nat.add_assoc] at this

/-! ## Chunks -/

/-- Every instruction of a chunk fits it, and the parameters have registers. -/
structure Fits (c : Chunk) : Prop where
  params : c.paramCount.toNat ≤ c.registerCount.toNat
  instruction : ∀ pc op, c.opcode? pc = some op → op.Fits c c.nested.length pc

theorem verifyOwn_ok_iff (c : Chunk) : c.verifyOwn = .ok () ↔ c.Fits := by
  have instructions : ∀ i, (c.instructions.toList.map (·.opcode))[i]? = c.opcode? i := by
    intro i
    rw [List.getElem?_map, Array.getElem?_toList]
    rfl
  have all := c.firstDefect?_eq_none 0 (c.instructions.toList.map (·.opcode))
  simp only [instructions, Nat.zero_add] at all
  simp only [verifyOwn, UInt32.lt_iff_toNat_lt]
  split
  · rename_i few
    exact ⟨fun h => (by cases h), fun h => absurd h.params (by omega)⟩
  · rename_i enough
    cases h : c.firstDefect? 0 (c.instructions.toList.map (·.opcode)) with
    | none =>
      rw [h] at all
      exact ⟨fun _ => ⟨by omega, all.mp rfl⟩, fun _ => rfl⟩
    | some d =>
      rw [h] at all
      exact ⟨fun h => (by cases h), fun h => absurd (all.mpr h.instruction) (by simp)⟩

mutual

/-- A chunk fits and so do the functions nested in it, at every depth. -/
def FitsDeep : Chunk → Prop
  | ⟨name, instructions, constants, registerCount, paramCount, nested⟩ =>
    Fits ⟨name, instructions, constants, registerCount, paramCount, nested⟩ ∧ AllFitDeep nested

def AllFitDeep : List Chunk → Prop
  | [] => True
  | c :: cs => c.FitsDeep ∧ AllFitDeep cs

end

theorem FitsDeep.fits {c : Chunk} (h : c.FitsDeep) : c.Fits := by
  obtain ⟨name, instructions, constants, registerCount, paramCount, nested⟩ := c
  exact h.1

mutual

/-- **Verification accepts exactly the chunks whose instructions fit.** -/
theorem verify_ok_iff : (c : Chunk) → (c.verify = .ok () ↔ c.FitsDeep)
  | ⟨name, instructions, constants, registerCount, paramCount, nested⟩ => by
    have own := verifyOwn_ok_iff ⟨name, instructions, constants, registerCount, paramCount, nested⟩
    have deep := verifyAll_ok_iff nested
    simp only [verify, FitsDeep, ← own, ← deep]
    cases h : verifyOwn ⟨name, instructions, constants, registerCount, paramCount, nested⟩ with
    | error e => simp
    | ok _ => simp

theorem verifyAll_ok_iff : (cs : List Chunk) → (verifyAll cs = .ok () ↔ AllFitDeep cs)
  | [] => by simp [verifyAll, AllFitDeep]
  | c :: cs => by
    have head := verify_ok_iff c
    have tail := verifyAll_ok_iff cs
    simp only [verifyAll, AllFitDeep, ← head, ← tail]
    cases h : c.verify with
    | error e => simp
    | ok _ => simp

end

end Chunk

end RegisterVm
