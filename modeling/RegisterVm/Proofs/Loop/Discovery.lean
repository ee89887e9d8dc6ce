import RegisterVm.Proofs.Loop.Compiled
import RegisterVm.Proofs.Machine.Registers

/-!
# Loops and their registers

What `Chunk.loops` finds, and what compiled code of a loop knows about its registers: its map has
every register that an instruction of the loop names (`Chunk.Names`), so none is missing when the
loop is compiled. Main statement: `Chunk.loops_mapped`.
-/

namespace RegisterVm

/-- An instruction of a range names a register. -/
def Chunk.Names (c : Chunk) (l : LoopRange) (r : Register) : Prop :=
  ∃ pc op, l.contains pc = true ∧ c.opcode? pc = some op ∧ r ∈ op.registers

namespace CompiledLoop

variable {c : Chunk} {l : LoopRange} {fault : Fault}

theorem mem_loopRegisters_iff {r : Register} : r ∈ c.loopRegisters l ↔ c.Names l r := by
  rw [mem_loopRegisters]
  constructor
  · rintro ⟨op, hop, hr⟩
    obtain ⟨pc, inside, hop⟩ := mem_opcodes.mp hop
    exact ⟨pc, op, inside, hop, hr⟩
  · rintro ⟨pc, op, inside, hop, hr⟩
    exact ⟨op, mem_opcodes.mpr ⟨pc, inside, hop⟩, hr⟩

/-! ## Refusals -/

/-- A map is refused only for a register of the loop that has no slot. -/
theorem registerMap_refused (h : registerMap c l = .error fault) :
    ∃ r, c.Names l r ∧ maxRegister < r.index ∧ fault = .registerBeyondSlots r.toNat := by
  simp only [registerMap] at h
  split at h
  · rename_i r found
    cases h
    exact ⟨r, mem_loopRegisters_iff.mp (List.mem_of_find?_eq_some found),
      by simpa using List.find?_some found, rfl⟩
  · cases h

theorem firstFault?_eq_some {ops : List Opcode} {address : Nat}
    (h : firstFault? address ops = some fault) :
    ∃ mnemonic address, fault = .handlerInLoop mnemonic address := by
  induction ops generalizing address with
  | nil => cases h
  | cons op ops ih =>
    rcases Option.or_eq_some_iff.mp h with here | ⟨-, later⟩
    · unfold handlerFault? at here
      split at here <;> cases here <;> exact ⟨_, _, rfl⟩
    · exact ih later

/-- A range is refused when it is too long or has a handler. -/
theorem check_refused (h : check c l = .error fault) :
    fault = .loopTooLong l.header l.backEdge c.instructions.size ∨
      ∃ mnemonic address, fault = .handlerInLoop mnemonic address := by
  unfold check at h
  split at h
  · cases h
    exact .inl rfl
  · split at h
    · rename_i found
      cases h
      exact .inr (firstFault?_eq_some found)
    · cases h

/-- A loop that is not compiled has no map or does not pass the check. -/
theorem compile_refused (h : compile c l = .error fault) :
    registerMap c l = .error fault ∨ check c l = .error fault := by
  cases hr : registerMap c l with
  | error e =>
    simp only [compile, hr] at h
    cases h
    exact .inl rfl
  | ok registers =>
    cases hc : check c l with
    | error e =>
      simp only [compile, hr, hc, bind, Except.bind] at h
      cases h
      exact .inr rfl
    | ok _ =>
      obtain ⟨code, compiled⟩ := compile_ok_iff.mpr ⟨hc, registers, hr⟩
      cases h.symm.trans compiled

/-- **The compiler misses no register.** -/
theorem compile_ne_registerNotMapped (h : compile c l = .error fault) (index : Nat) :
    fault ≠ .registerNotMapped index := by
  rintro rfl
  rcases compile_refused h with refused | refused
  · obtain ⟨r, -, -, same⟩ := registerMap_refused refused
    cases same
  · rcases check_refused refused with same | ⟨mnemonic, address, same⟩ <;> cases same

end CompiledLoop

/-- A frame that enters a compiled loop has a slot and a variable for every register of it. -/
theorem Frame.slots_of_enterLoop {code : CompiledLoop} {frame : Frame} {n : NativeRegisters}
    (entered : (frame.enterLoop code).native = some n) :
    n.slots.size = frame.file.values.size ∧ n.vars.size = frame.file.values.size := by
  cases entered
  simp

namespace Chunk

/-- A register that an instruction of a verified chunk names exists. -/
theorem Names.exists {c : Chunk} {l : LoopRange} {r : Register} (named : c.Names l r)
    (verified : c.verify = .ok ()) : r.toNat < c.registerCount.toNat := by
  obtain ⟨pc, op, -, hop, hr⟩ := named
  exact (((c.verify_ok_iff.mp verified).fits).instruction pc op hop).register hr

/-- **Loops and their registers.** The loops of a chunk come with strictly increasing headers. A
range is one of them exactly when its last instruction jumps back to its header and no later one
does.

In a verified chunk the code of a loop has a map of registers, unless a register of the loop has no
slot. The map is strictly increasing and has the registers that the instructions of the loop name,
all of which exist. So the compiler misses no register, and a frame of the function that enters the
loop has a slot and a variable for each of them. -/
theorem loops_mapped (c : Chunk) :
    (c.loops.Pairwise fun l k => l.header < k.header) ∧
    (∀ l, l ∈ c.loops ↔ c.JumpsBack l.header l.backEdge ∧
      ∀ address, c.JumpsBack l.header address → address ≤ l.backEdge) ∧
    (c.verify = .ok () → ∀ l ∈ c.loops,
      (∀ fault, CompiledLoop.registerMap c l = .error fault → ∃ r, c.Names l r ∧
        CompiledLoop.maxRegister < r.index ∧ fault = .registerBeyondSlots r.toNat) ∧
      (∀ registers, CompiledLoop.registerMap c l = .ok registers →
        (registers.Pairwise fun r s => r.index < s.index) ∧
        (∀ r, r ∈ registers ↔ c.Names l r) ∧
        ∀ r ∈ registers, r.toNat < c.registerCount.toNat) ∧
      (∀ fault, CompiledLoop.compile c l = .error fault →
        ∀ index, fault ≠ .registerNotMapped index) ∧
      ∀ code, CompiledLoop.compile c l = .ok code → ∀ (frame : Frame) (n : NativeRegisters),
        frame.file.values.size = c.registerCount.toNat →
        (frame.enterLoop code).native = some n →
        ∀ r ∈ code.registers, r.toNat < n.slots.size ∧ r.toNat < n.vars.size) := by
  refine ⟨c.loops_sorted, fun l => mem_loops, fun verified l _ => ⟨?_, ?_, ?_, ?_⟩⟩
  · exact fun fault refused => CompiledLoop.registerMap_refused refused
  · intro registers mapped
    have members : ∀ r, r ∈ registers ↔ c.Names l r := fun r =>
      CompiledLoop.registerMap_ok mapped ▸ CompiledLoop.mem_loopRegisters_iff
    refine ⟨?_, members, fun r hr => ((members r).mp hr).exists verified⟩
    exact CompiledLoop.registerMap_ok mapped ▸ pairwise_sortRegisters _
  · exact fun fault refused => CompiledLoop.compile_ne_registerNotMapped refused
  · intro code compiled frame n size entered r hr
    obtain ⟨-, rfl⟩ := CompiledLoop.compile_ok compiled
    have bound := (CompiledLoop.mem_loopRegisters_iff.mp hr).exists verified
    obtain ⟨slots, vars⟩ := Frame.slots_of_enterLoop entered
    rw [slots, vars, size]
    exact ⟨bound, bound⟩

/-- Two loops, one inside the other, in a function with a register that neither of them names. -/
theorem loops_mapped_nested :
    ∃ c : Chunk, c.verify = .ok () ∧ c.loops = [⟨1, 5⟩, ⟨2, 3⟩] ∧ c.registerCount = 3 ∧
      CompiledLoop.registerMap c ⟨1, 5⟩ = .ok [⟨0⟩, ⟨1⟩] ∧
      CompiledLoop.registerMap c ⟨2, 3⟩ = .ok [⟨1⟩] ∧
      (∀ r, r ∈ [(⟨1⟩ : Register)] ↔ c.Names ⟨2, 3⟩ r) ∧
      ∀ address, c.JumpsBack 1 address → address ≤ 5 := by
  let c : Chunk := ⟨"nested", #[⟨.loadInt ⟨0⟩ 3, none⟩, ⟨.loadInt ⟨1⟩ 2, none⟩,
    ⟨.decrement ⟨1⟩, none⟩, ⟨.branch true ⟨1⟩ 2, none⟩, ⟨.decrement ⟨0⟩, none⟩,
    ⟨.branch true ⟨0⟩ 1, none⟩, ⟨.ret ⟨2⟩, none⟩], #[], 3, 0, []⟩
  have verified : c.verify = .ok () := by decide
  have loops : c.loops = [⟨1, 5⟩, ⟨2, 3⟩] := by decide
  have inner : CompiledLoop.registerMap c ⟨2, 3⟩ = .ok [⟨1⟩] := rfl
  obtain ⟨-, found, mapped⟩ := loops_mapped c
  have listed : ⟨2, 3⟩ ∈ c.loops := by simp [loops]
  obtain ⟨-, registers, -⟩ := mapped verified ⟨2, 3⟩ listed
  obtain ⟨-, furthest⟩ := (found ⟨1, 5⟩).mp (by simp [loops])
  exact ⟨c, verified, loops, rfl, rfl, inner, (registers _ inner).2.1, furthest⟩

end Chunk

end RegisterVm
