import RegisterVm.Machine.Native
import RegisterVm.Proofs.Machine.Effect
import RegisterVm.Proofs.Value.Slot

/-!
# Registers of compiled loops

A frame in a compiled loop keeps the registers of the loop in variables and the others in its
register file. `NativeRegisters.Holds` says which values both together stand for. Entering a loop
establishes it (`Holds.ofEnter`), storing to a variable and passing registers to a helper step and
back preserve it (`Holds.store`, `Holds.reload`), and leaving the loop gives exactly these values
(`Holds.leave`).
-/

namespace RegisterVm

theorem Register.toNat_inj {r s : Register} : r.toNat = s.toNat ↔ r = s := by
  refine ⟨fun h => ?_, fun h => h ▸ rfl⟩
  obtain ⟨i⟩ := r
  obtain ⟨j⟩ := s
  exact congrArg Register.mk (UInt32.toNat_inj.mp h)

/-! ## Arrays of slots -/

@[simp] theorem size_storeSlot (slots : Array Slot) (r : Register) (s : Slot) :
    (storeSlot slots r s).size = slots.size := by
  simp [storeSlot]

theorem loadSlot_storeSlot {slots : Array Slot} {r : Register} (h : r.toNat < slots.size)
    (other : Register) (s : Slot) :
    loadSlot (storeSlot slots r s) other = if other = r then s else loadSlot slots other := by
  simp only [loadSlot, storeSlot, Array.getElem?_setIfInBounds, ← Register.toNat_inj]
  split
  · rename_i same
    rw [if_pos same.symm]
    rfl
  · rename_i ne
    rw [if_neg fun e => ne e.symm]

/-- Storing a slot for each of some registers. -/
theorem loadSlot_foldl {registers : List Register} {slots : Array Slot} (f : Register → Slot)
    (h : ∀ r ∈ registers, r.toNat < slots.size) (other : Register) :
    loadSlot (registers.foldl (fun slots r => storeSlot slots r (f r)) slots) other =
      if other ∈ registers then f other else loadSlot slots other := by
  induction registers generalizing slots with
  | nil => rfl
  | cons r rs ih =>
    rw [List.foldl_cons, ih (by simpa using fun s hs => h s (List.mem_cons_of_mem _ hs)),
      loadSlot_storeSlot (h r List.mem_cons_self)]
    by_cases same : other = r
    · simp [same]
    · simp [same]

theorem size_foldl_storeSlot (registers : List Register) (slots : Array Slot)
    (f : Register → Slot) :
    (registers.foldl (fun slots r => storeSlot slots r (f r)) slots).size = slots.size := by
  induction registers generalizing slots with
  | nil => rfl
  | cons r rs ih => rw [List.foldl_cons, ih, size_storeSlot]

@[simp] theorem size_copySlots (registers : List Register) (source target : Array Slot) :
    (copySlots registers source target).size = target.size :=
  size_foldl_storeSlot ..

@[simp] theorem size_encodeRegisters (registers : List Register) (values : Array Value)
    (slots : Array Slot) : (encodeRegisters registers values slots).size = slots.size :=
  size_foldl_storeSlot ..

theorem loadSlot_copySlots {registers : List Register} {source target : Array Slot}
    (h : ∀ r ∈ registers, r.toNat < target.size) (other : Register) :
    loadSlot (copySlots registers source target) other =
      if other ∈ registers then loadSlot source other else loadSlot target other :=
  loadSlot_foldl _ h other

theorem loadSlot_encodeRegisters {registers : List Register} {values : Array Value}
    {slots : Array Slot} (h : ∀ r ∈ registers, r.toNat < slots.size) (other : Register) :
    loadSlot (encodeRegisters registers values slots) other =
      if other ∈ registers then .ofValue ((values[other.toNat]?).getD .none)
      else loadSlot slots other :=
  loadSlot_foldl _ h other

/-- `ws` are the registers `values` after some of them were read from slots. -/
structure Reads (registers : List Register) (slots : Array Slot) (values ws : Array Value) :
    Prop where
  size : ws.size = values.size
  read : ∀ r ∈ registers, ws[r.toNat]? = (loadSlot slots r).value?
  others : ∀ i, (∀ r ∈ registers, r.toNat ≠ i) → ws[i]? = values[i]?

/-- Registers can be read from slots that have values. -/
theorem decodeRegisters_reads {registers : List Register} {slots : Array Slot}
    {values : Array Value} (inside : ∀ r ∈ registers, r.toNat < values.size)
    (encode : ∀ r ∈ registers, ∃ v, (loadSlot slots r).value? = some v) :
    ∃ ws, decodeRegisters registers slots values = .ok ws ∧ Reads registers slots values ws := by
  induction registers generalizing values with
  | nil => exact ⟨values, rfl, rfl, fun r h => (by cases h), fun _ _ => rfl⟩
  | cons r rs ih =>
    have bound := inside r List.mem_cons_self
    obtain ⟨v, first⟩ := encode r List.mem_cons_self
    have set : RegisterFile.set values r v = .ok (values.setIfInBounds r.toNat v) := if_pos bound
    have inside' : ∀ s ∈ rs, s.toNat < (values.setIfInBounds r.toNat v).size :=
      fun s hs => by simpa using inside s (List.mem_cons_of_mem _ hs)
    obtain ⟨ws, decoded, reads⟩ := ih inside' fun s hs => encode s (List.mem_cons_of_mem _ hs)
    refine ⟨ws, ?_, by simpa using reads.size, ?_, ?_⟩
    · simp only [decodeRegisters, List.foldlM_cons, first, set]
      exact decoded
    · intro s hs
      by_cases tail : s ∈ rs
      · exact reads.read s tail
      · obtain rfl : s = r := by simpa [tail] using hs
        rw [reads.others s.toNat fun t ht e => tail (Register.toNat_inj.mp e ▸ ht),
          Array.getElem?_setIfInBounds_self_of_lt bound, first]
    · intro i hi
      rw [reads.others i fun s hs => hi s (List.mem_cons_of_mem _ hs),
        Array.getElem?_setIfInBounds_ne (hi r List.mem_cons_self)]

/-- Reading back slots that hold the values of `ws`: the registers read have these values
afterwards, the others those they had. -/
theorem decodeRegisters_ok {registers : List Register} {slots : Array Slot}
    {values ws : Array Value} (size : values.size = ws.size)
    (inside : ∀ r ∈ registers, r.toNat < ws.size)
    (held : ∀ r ∈ registers, loadSlot slots r = .ofValue ((ws[r.toNat]?).getD .none)) :
    ∃ values', decodeRegisters registers slots values = .ok values' ∧ values'.size = values.size ∧
      (∀ r ∈ registers, values'[r.toNat]? = ws[r.toNat]?) ∧
      ∀ i, (∀ r ∈ registers, r.toNat ≠ i) → values'[i]? = values[i]? := by
  have read : ∀ r ∈ registers, (loadSlot slots r).value? = ws[r.toNat]? := by
    intro r hr
    rw [held r hr, Slot.value?_ofValue, Array.getElem?_eq_getElem (inside r hr)]
    rfl
  obtain ⟨values', decoded, reads⟩ := decodeRegisters_reads (fun r hr => size ▸ inside r hr)
    fun r hr => ⟨_, (read r hr).trans (Array.getElem?_eq_getElem (inside r hr))⟩
  exact ⟨values', decoded, reads.size, fun r hr => (reads.read r hr).trans (read r hr),
    reads.others⟩

/-! ## Values of a frame in a loop -/

/-- The variables of a compiled loop and a register file together hold the values `ws`: those of the
loop are in the variables, the others in the file. -/
structure NativeRegisters.Holds (n : NativeRegisters) (values ws : Array Value) : Prop where
  size : values.size = ws.size
  varsSize : n.vars.size = ws.size
  slotsSize : n.slots.size = ws.size
  inside : ∀ r ∈ n.loop.registers, r.toNat < ws.size
  held : ∀ r ∈ n.loop.registers, loadSlot n.vars r = .ofValue ((ws[r.toNat]?).getD .none)
  others : ∀ i, (∀ r ∈ n.loop.registers, r.toNat ≠ i) → values[i]? = ws[i]?

/-- The registers of a loop after some of them were taken back from a frame through slots. -/
def NativeRegisters.taking (registers : List Register) (values : Array Value) (slots : Array Slot)
    (n : NativeRegisters) : NativeRegisters :=
  let slots := encodeRegisters registers values slots
  ⟨n.loop, copySlots registers slots n.vars, slots⟩

namespace NativeRegisters.Holds

variable {n : NativeRegisters} {values ws : Array Value}

theorem ofEnter {loop : CompiledLoop} (inside : ∀ r ∈ loop.registers, r.toNat < values.size) :
    Holds ⟨loop, encodeRegisters loop.registers values
      (Array.replicate values.size (Slot.ofValue .none)),
      encodeRegisters loop.registers values (Array.replicate values.size (Slot.ofValue .none))⟩
      values values where
  size := rfl
  varsSize := by simp
  slotsSize := by simp
  inside := inside
  held r hr := by
    rw [loadSlot_encodeRegisters (by simpa using inside), if_pos hr]
  others _ _ := rfl

theorem store (h : n.Holds values ws) {r : Register} (hr : r ∈ n.loop.registers) (v : Value) :
    Holds { n with vars := storeSlot n.vars r (.ofValue v) } values
      (ws.setIfInBounds r.toNat v) where
  size := by simpa using h.size
  varsSize := by simpa using h.varsSize
  slotsSize := by simpa using h.slotsSize
  inside := by simpa using h.inside
  held s hs := by
    rw [loadSlot_storeSlot (h.varsSize ▸ h.inside r hr)]
    by_cases same : s = r
    · subst same
      rw [if_pos rfl, Array.getElem?_setIfInBounds_self_of_lt (h.inside s hr)]
      rfl
    · rw [if_neg same, Array.getElem?_setIfInBounds_ne fun e => same (Register.toNat_inj.mp e).symm]
      exact h.held s hs
  others i hi := by
    rw [Array.getElem?_setIfInBounds_ne (hi r hr)]
    exact h.others i hi

/-- Handing over some registers of the loop. -/
theorem decode (h : n.Holds values ws) {registers : List Register}
    (mapped : ∀ r ∈ registers, r ∈ n.loop.registers) :
    ∃ values', decodeRegisters registers (copySlots registers n.vars n.slots) values = .ok values' ∧
      n.Holds values' ws ∧ ∀ r ∈ registers, values'[r.toNat]? = ws[r.toNat]? := by
  have copied : ∀ r ∈ registers, loadSlot (copySlots registers n.vars n.slots) r =
      .ofValue ((ws[r.toNat]?).getD .none) := by
    intro r hr
    rw [loadSlot_copySlots (fun r hr => h.slotsSize ▸ h.inside r (mapped r hr)), if_pos hr]
    exact h.held r (mapped r hr)
  obtain ⟨values', decoded, size, registers', others⟩ :=
    decodeRegisters_ok h.size (fun r hr => h.inside r (mapped r hr)) copied
  refine ⟨values', decoded, { h with size := size.trans h.size, others := fun i hi => ?_ },
    registers'⟩
  rw [others i fun r hr => hi r (mapped r hr)]
  exact h.others i hi

/-- Taking back some registers of the loop after they changed. -/
theorem reload (h : n.Holds values ws) {registers : List Register}
    (mapped : ∀ r ∈ registers, r ∈ n.loop.registers) {slots : Array Slot}
    (slotsSize : slots.size = ws.size) {values' ws' : Array Value} (size : values'.size = ws'.size)
    (size' : ws'.size = ws.size) (taken : ∀ r ∈ registers, values'[r.toNat]? = ws'[r.toNat]?)
    (kept : ∀ i, (∀ r ∈ registers, r.toNat ≠ i) → values'[i]? = values[i]? ∧ ws'[i]? = ws[i]?) :
    (n.taking registers values' slots).Holds values' ws' where
  size := size
  varsSize := by simpa [taking, size'] using h.varsSize
  slotsSize := by simpa [taking, size'] using slotsSize
  inside r hr := size' ▸ h.inside r hr
  held r hr := by
    change loadSlot (copySlots registers (encodeRegisters registers values' slots) n.vars) r = _
    rw [loadSlot_copySlots fun r hr => h.varsSize ▸ h.inside r (mapped r hr),
      loadSlot_encodeRegisters fun r hr => slotsSize ▸ h.inside r (mapped r hr)]
    by_cases mem : r ∈ registers
    · rw [if_pos mem, if_pos mem, taken r mem]
    · rw [if_neg mem, (kept r.toNat fun s hs e => mem (Register.toNat_inj.mp e ▸ hs)).2]
      exact h.held r hr
  others i hi := by
    obtain ⟨file, held⟩ := kept i fun r hr => hi r (mapped r hr)
    rw [file, held]
    exact h.others i hi

theorem size_copySlots (h : n.Holds values ws) (registers : List Register) :
    (copySlots registers n.vars n.slots).size = ws.size := by
  simpa using h.slotsSize

/-- **Leaving a compiled loop gives back the values that were held.** -/
theorem leave {frame : Frame} (h : n.Holds frame.file.values ws) :
    frame.leaveLoop n = .ok { frame.withValues ws with native := none } := by
  obtain ⟨values', decoded, held, registers⟩ := h.decode fun _ hr => hr
  have same : values' = ws := by
    apply Array.ext_getElem?
    intro i
    by_cases named : ∃ r ∈ n.loop.registers, r.toNat = i
    · obtain ⟨r, hr, rfl⟩ := named
      exact registers r hr
    · exact held.others i fun r hr e => named ⟨r, hr, e⟩
  simp only [Frame.leaveLoop, decoded, same]
  rfl

end NativeRegisters.Holds

end RegisterVm
