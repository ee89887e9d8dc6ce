import RegisterVm.Loop.Compiled
import RegisterVm.Proofs.Bytecode.Loop

/-!
# What compiling a loop establishes

`CompiledLoop.Translates` says that a compiled loop has the form of every instruction of its range
and maps exactly the registers that these instructions name. `CompiledLoop.translates_of_compile`
derives it from a successful compilation. The loops of a chunk end at or after their headers
(`Chunk.header_le_backEdge`).
-/

namespace RegisterVm

/-! ## Sorted registers -/

theorem mem_insertRegister {r s : Register} {rs : List Register} :
    s ∈ insertRegister r rs ↔ s = r ∨ s ∈ rs := by
  induction rs with
  | nil => simp [insertRegister]
  | cons t ts ih =>
    simp only [insertRegister]
    split
    · simp
    · split
      · simp_all
      · simp only [List.mem_cons, ih]
        constructor
        · rintro (h | h | h) <;> simp [h]
        · rintro (h | h | h) <;> simp [h]

theorem mem_sortRegisters {s : Register} {rs : List Register} : s ∈ sortRegisters rs ↔ s ∈ rs := by
  have from_ : ∀ sorted : List Register,
      s ∈ rs.foldl (fun sorted r => insertRegister r sorted) sorted ↔ s ∈ sorted ∨ s ∈ rs := by
    induction rs with
    | nil => simp
    | cons r rs ih =>
      intro sorted
      simp only [List.foldl_cons, ih, mem_insertRegister, List.mem_cons]
      constructor
      · rintro ((h | h) | h) <;> simp [h]
      · rintro (h | h | h) <;> simp [h]
  rw [sortRegisters, from_ []]
  simp

/-- Inserting a register keeps a list strictly increasing. -/
theorem pairwise_insertRegister {r : Register} {rs : List Register}
    (h : rs.Pairwise fun r s => r.index < s.index) :
    (insertRegister r rs).Pairwise fun r s => r.index < s.index := by
  induction rs with
  | nil => exact List.pairwise_singleton _ _
  | cons t ts ih =>
    obtain ⟨first, rest⟩ := List.pairwise_cons.mp h
    simp only [insertRegister]
    split
    · rename_i before
      refine List.pairwise_cons.mpr ⟨fun s hs => ?_, h⟩
      rcases List.mem_cons.mp hs with rfl | hs
      · exact before
      · exact UInt32.lt_trans before (first s hs)
    · split
      · exact h
      · rename_i notBefore other
        have after : t.index < r.index := by
          refine UInt32.lt_of_le_of_ne (UInt32.not_lt.mp notBefore) fun same => other ?_
          exact congrArg Register.mk same.symm
        refine List.pairwise_cons.mpr ⟨fun s hs => ?_, ih rest⟩
        rcases mem_insertRegister.mp hs with rfl | hs
        · exact after
        · exact first s hs

/-- **Sorted registers increase strictly.** -/
theorem pairwise_sortRegisters (rs : List Register) :
    (sortRegisters rs).Pairwise fun r s => r.index < s.index :=
  List.foldlRecOn rs _ List.Pairwise.nil fun _ increasing _ _ => pairwise_insertRegister increasing

/-! ## Ranges -/

/-- A loop ends at or after its header. -/
theorem Chunk.header_le_backEdge {c : Chunk} {l : LoopRange} (h : l ∈ c.loops) :
    l.header ≤ l.backEdge :=
  (jumpsBack_of_mem_loops h).1

/-! ## Compiled code -/

namespace CompiledLoop

/-- A compiled loop stands for the instructions of its range. -/
structure Translates (code : CompiledLoop) (c : Chunk) : Prop where
  bound : code.range.backEdge < c.instructions.size
  form : ∀ pc op, code.range.contains pc = true → c.opcode? pc = some op →
    code.forms[pc - code.range.header]? = some (NativeForm.ofOpcode c op)
  noHandler : ∀ pc op, code.range.contains pc = true → c.opcode? pc = some op →
    handlerFault? pc op = none
  mapped : ∀ pc op, code.range.contains pc = true → c.opcode? pc = some op →
    ∀ r ∈ op.registers, r ∈ code.registers
  named : ∀ r ∈ code.registers, ∃ pc op, code.range.contains pc = true ∧ c.opcode? pc = some op ∧
    r ∈ op.registers

/-- There is an instruction at every address of a compiled loop. -/
theorem Translates.opcode {code : CompiledLoop} {c : Chunk} (h : code.Translates c) {pc : Nat}
    (inside : code.range.contains pc = true) : ∃ op, c.opcode? pc = some op := by
  have bound := h.bound
  simp only [LoopRange.contains, Bool.and_eq_true, decide_eq_true_eq] at inside
  have here : pc < c.instructions.size := by omega
  exact ⟨_, congrArg (Option.map _) (Array.getElem?_eq_getElem here)⟩

theorem opcodes_getElem? (c : Chunk) (l : LoopRange) (i : Nat) :
    (opcodes c l)[i]? = if i < l.size then c.opcode? (l.header + i) else none := by
  simp only [opcodes, List.getElem?_map, List.getElem?_take, List.getElem?_drop,
    Array.getElem?_toList, Chunk.opcode?]
  split <;> rfl

theorem contains_iff {l : LoopRange} {pc : Nat} :
    l.contains pc = true ↔ l.header ≤ pc ∧ pc - l.header < l.size := by
  simp only [LoopRange.contains, LoopRange.size, Bool.and_eq_true, decide_eq_true_eq]
  omega

theorem opcodes_of_contains {c : Chunk} {l : LoopRange} {pc : Nat} (inside : l.contains pc = true) :
    (opcodes c l)[pc - l.header]? = c.opcode? pc := by
  obtain ⟨low, high⟩ := contains_iff.mp inside
  rw [opcodes_getElem?, if_pos high, Nat.add_sub_of_le low]

theorem mem_opcodes {c : Chunk} {l : LoopRange} {op : Opcode} :
    op ∈ opcodes c l ↔ ∃ pc, l.contains pc = true ∧ c.opcode? pc = some op := by
  rw [List.mem_iff_getElem?]
  constructor
  · rintro ⟨i, h⟩
    rw [opcodes_getElem?] at h
    split at h
    · exact ⟨l.header + i, contains_iff.mpr (by omega), h⟩
    · cases h
  · rintro ⟨pc, inside, h⟩
    exact ⟨pc - l.header, by rw [opcodes_of_contains inside, h]⟩

theorem mem_loopRegisters {c : Chunk} {l : LoopRange} {r : Register} :
    r ∈ c.loopRegisters l ↔ ∃ op ∈ opcodes c l, r ∈ op.registers := by
  simp only [Chunk.loopRegisters, mem_sortRegisters, opcodes, List.mem_flatMap, List.mem_map]
  constructor
  · rintro ⟨i, hi, hr⟩
    exact ⟨i.opcode, ⟨i, hi, rfl⟩, hr⟩
  · rintro ⟨op, ⟨i, hi, rfl⟩, hr⟩
    exact ⟨i, hi, hr⟩

theorem firstFault?_eq_none {address : Nat} {ops : List Opcode}
    (h : firstFault? address ops = none) {i : Nat} {op : Opcode} (hi : ops[i]? = some op) :
    handlerFault? (address + i) op = none := by
  induction ops generalizing address i with
  | nil => cases hi
  | cons o ops ih =>
    rw [firstFault?, Option.or_eq_none_iff] at h
    cases i with
    | zero =>
      cases hi
      exact h.1
    | succ i =>
      rw [← Nat.add_assoc, Nat.add_right_comm]
      exact ih h.2 hi

/-- What `check` lets pass. -/
theorem check_ok {c : Chunk} {l : LoopRange} (h : check c l = .ok ()) :
    l.backEdge < c.instructions.size ∧ firstFault? l.header (opcodes c l) = none := by
  unfold check at h
  split at h
  · cases h
  · split at h
    · cases h
    · exact ⟨by omega, by assumption⟩

theorem registerMap_ok {c : Chunk} {l : LoopRange} {registers : List Register}
    (h : registerMap c l = .ok registers) : registers = c.loopRegisters l := by
  simp only [registerMap] at h
  split at h
  · cases h
  · exact (Except.ok.inj h).symm

theorem compile_ok {c : Chunk} {l : LoopRange} {code : CompiledLoop} (h : compile c l = .ok code) :
    check c l = .ok () ∧
      code = ⟨l, c.loopRegisters l, ((opcodes c l).map (NativeForm.ofOpcode c)).toArray⟩ := by
  cases hr : registerMap c l with
  | error e =>
    simp only [compile, hr] at h
    cases h
  | ok registers =>
    cases hc : check c l with
    | error e =>
      simp only [compile, hr, hc] at h
      cases h
    | ok _ =>
      simp only [compile, hr, hc, bind, Except.bind] at h
      split at h
      · cases h
      · refine ⟨rfl, ?_⟩
        rw [← registerMap_ok hr]
        exact (Except.ok.inj h).symm

/-- A loop is compiled when it passes the check and its registers have slots. -/
theorem compile_ok_iff {c : Chunk} {l : LoopRange} :
    (∃ code, compile c l = .ok code) ↔
      check c l = .ok () ∧ ∃ registers, registerMap c l = .ok registers := by
  constructor
  · rintro ⟨code, h⟩
    refine ⟨(compile_ok h).1, ?_⟩
    cases hr : registerMap c l with
    | error e =>
      simp only [compile, hr] at h
      cases h
    | ok registers => exact ⟨registers, rfl⟩
  · rintro ⟨checked, registers, mapped⟩
    have all : unmapped? registers (opcodes c l) = none := by
      refine List.find?_eq_none.mpr fun r hr => ?_
      obtain ⟨op, hop, hr⟩ := List.mem_flatMap.mp hr
      have named : r ∈ registers :=
        registerMap_ok mapped ▸ mem_loopRegisters.mpr ⟨op, hop, hr⟩
      simpa using named
    simp only [compile, mapped, checked, all, bind, Except.bind]
    exact ⟨_, rfl⟩

/-- **A loop that is compiled is translated.** -/
theorem translates_of_compile {c : Chunk} {l : LoopRange} {code : CompiledLoop}
    (h : compile c l = .ok code) : code.range = l ∧ code.Translates c := by
  obtain ⟨checked, rfl⟩ := compile_ok h
  obtain ⟨bound, noFault⟩ := check_ok checked
  refine ⟨rfl, bound, ?_, ?_, ?_, ?_⟩
  · intro pc op inside hop
    simp only [List.getElem?_toArray, List.getElem?_map] at inside ⊢
    rw [opcodes_of_contains inside, hop]
    rfl
  · intro pc op inside hop
    have here := firstFault?_eq_none noFault ((opcodes_of_contains inside).trans hop)
    rwa [Nat.add_sub_of_le (contains_iff.mp inside).1] at here
  · intro pc op inside hop r hr
    exact mem_loopRegisters.mpr ⟨op, mem_opcodes.mpr ⟨pc, inside, hop⟩, hr⟩
  · intro r hr
    obtain ⟨op, hop, hr⟩ := mem_loopRegisters.mp hr
    obtain ⟨pc, inside, hop⟩ := mem_opcodes.mp hop
    exact ⟨pc, op, inside, hop, hr⟩

end CompiledLoop

end RegisterVm
