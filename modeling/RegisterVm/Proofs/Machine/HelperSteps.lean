import RegisterVm.Proofs.Machine.Calls

/-!
# Helper steps

Compiled code hands the registers of an instruction over in slots and lets a helper step execute it.
`Machine.complete` is the execution of an instruction to its end on the registers of a frame: a
frame that the instruction calls runs until it has a result. Main statement:
`Machine.helper_steps_complete`, by which a helper step does to slots what that does to registers.
-/

namespace RegisterVm

/-! ## Instructions that run to their end -/

/-- What an instruction that has run to its end leaves to its frame. -/
structure Completed where
  values : Array Value
  handlers : List Handler
  /-- Whether it branched, or how it failed. -/
  result : Outcome Bool

/-- What the result of a called frame leaves to the frame of the call. -/
def Frame.completed (callee : Frame) (values : Array Value) (handlers : List Handler) :
    Outcome Value → Completed
  | .ok v =>
    match callee.caller with
    | some link => ⟨values.setIfInBounds link.dst.toNat v, handlers, .ok false⟩
    | none => ⟨values, handlers, .ok false⟩
  | .error e => ⟨values, handlers, .error e⟩

namespace Machine

/-- Runs a called frame to its end, as if it had been called from outside. -/
def runCallee (fuel : Nat) (callee : Frame) (m : Machine) : Answer :=
  (Execution.run fuel ⟨m.descend, { callee with caller := none }, []⟩).map fun (m, r) =>
    (m, r.map (callee.caller.bind (·.result)).getD)

/-- Does what an effect asks for, to its end. A return leaves nothing to its frame. -/
def completeEffect (fuel : Nat) (values : Array Value) (handlers : List Handler) (m : Machine) :
    Effect → Option (Machine × Completed)
  | .next => some (m, ⟨values, handlers, .ok false⟩)
  | .write dst v => some (m, ⟨values.setIfInBounds dst.toNat v, handlers, .ok false⟩)
  | .jump _ => some (m, ⟨values, handlers, .ok true⟩)
  | .ret _ => none
  | .call callee => (m.runCallee fuel callee).map fun (m, r) =>
    (m, callee.completed values handlers r)
  | .guard h => some (m, ⟨values, h :: handlers, .ok false⟩)
  | .unguard => some (m, ⟨values, handlers.tail, .ok false⟩)

/-- Executes an instruction to its end. There is no answer when a frame that it calls needs more
fuel. -/
def complete (fuel : Nat) (f : LoadedFunction) (op : Opcode) (pc : Nat) (values : Array Value)
    (handlers : List Handler) (m : Machine) : Option (Machine × Completed) :=
  match MachineM.exec f values pc op m with
  | .error e m => some (m, ⟨values, handlers, .error e⟩)
  | .ok effect m => m.completeEffect fuel values handlers effect

end Machine

/-- How compiled code goes on after an instruction of its loop: at the target when it branched, else
at the next instruction. -/
def Completed.goOn (done : Completed) (target : Option Nat) (n : NativeRegisters) (m : Machine)
    (frame : Frame) (callers : List Frame) : Status :=
  let frame := { frame.withValues done.values with handlers := done.handlers }
  match done.result with
  | .ok branched =>
    continueAt n (if branched then target.getD (frame.pc + 1) else frame.pc + 1) m frame callers
  | .error e => unwind e m { frame with native := some n } callers

namespace Status

/-- The status is `t`, or comes to it when the frames on top of `callers` have ended. -/
inductive Becomes (callers : List Frame) : Status → Status → Prop
  | now {t : Status} : Becomes callers t t
  | later {t : Status} {y z : Execution} : callers.length < y.callers.length → y.Over callers z →
    z.step = t → Becomes callers (.running y) t

/-- Frames on top of `callers` run and never end. -/
inductive Lasts (callers : List Frame) : Status → Prop
  | running {y : Execution} : callers.length < y.callers.length →
    (∀ z, y.Over callers z → ∃ z', z.step = .running z' ∧ y.Over callers z') →
    Lasts callers (.running y)

end Status

/-! ## Slots written back -/

/-- Slots after the values of some registers were written to them. -/
structure Writes (registers : List Register) (values : Array Value) (slots after : Array Slot) :
    Prop where
  size : after.size = slots.size
  written : ∀ r ∈ registers, after[r.toNat]? = values[r.toNat]?.map Slot.ofValue
  others : ∀ i, (∀ r ∈ registers, r.toNat ≠ i) → after[i]? = slots[i]?

/-- The registers of a loop after some of them were written back. -/
structure NativeRegisters.WrittenBack (registers : List Register) (values : Array Value)
    (n after : NativeRegisters) : Prop where
  loop : after.loop = n.loop
  slots : Writes registers values n.slots after.slots
  vars : Writes registers values n.vars after.vars

section Slots

variable {registers : List Register} {values values' : Array Value}

/-- What is read from slots is determined by them. -/
theorem Reads.unique {slots : Array Slot} {ws ws' : Array Value}
    (h : Reads registers slots values ws) (h' : Reads registers slots values ws') : ws = ws' := by
  apply Array.ext_getElem?
  intro i
  by_cases named : ∃ r ∈ registers, r.toNat = i
  · obtain ⟨r, hr, rfl⟩ := named
    exact (h.read r hr).trans (h'.read r hr).symm
  · have other : ∀ r ∈ registers, r.toNat ≠ i := fun r hr e => named ⟨r, hr, e⟩
    exact (h.others i other).trans (h'.others i other).symm

theorem getElem?_foldl_storeSlot {slots : Array Slot} (f : Register → Slot) {i : Nat}
    (h : ∀ r ∈ registers, r.toNat ≠ i) :
    (registers.foldl (fun slots r => storeSlot slots r (f r)) slots)[i]? = slots[i]? := by
  induction registers generalizing slots with
  | nil => rfl
  | cons r rs ih =>
    rw [List.foldl_cons, ih fun s hs => h s (List.mem_cons_of_mem _ hs)]
    exact Array.getElem?_setIfInBounds_ne (h r List.mem_cons_self)

theorem getElem?_eq_loadSlot {slots : Array Slot} {r : Register} (h : r.toNat < slots.size) :
    slots[r.toNat]? = some (loadSlot slots r) := by
  simp [loadSlot, h]

theorem writes_encodeRegisters {slots : Array Slot} (size : slots.size = values.size)
    (inside : ∀ r ∈ registers, r.toNat < values.size) :
    Writes registers values slots (encodeRegisters registers values slots) where
  size := by simp
  written r hr := by
    rw [getElem?_eq_loadSlot (by simpa [size] using inside r hr),
      loadSlot_encodeRegisters (fun r hr => size ▸ inside r hr), if_pos hr,
      Array.getElem?_eq_getElem (inside r hr)]
    rfl
  others _ hi := getElem?_foldl_storeSlot _ hi

theorem Writes.trans {a b c : Array Slot} (h : Writes registers values a b)
    (h' : Writes registers values' b c) : Writes registers values' a c :=
  ⟨h'.size.trans h.size, h'.written, fun i hi => (h'.others i hi).trans (h.others i hi)⟩

/-- What was written can be copied. -/
theorem Writes.copy {slots after target : Array Slot} (h : Writes registers values slots after)
    (size : after.size = values.size) (size' : target.size = values.size)
    (inside : ∀ r ∈ registers, r.toNat < values.size) :
    Writes registers values target (copySlots registers after target) where
  size := by simp
  written r hr := by
    rw [getElem?_eq_loadSlot (by simpa [size'] using inside r hr),
      loadSlot_copySlots (fun r hr => size' ▸ inside r hr), if_pos hr,
      ← getElem?_eq_loadSlot (size ▸ inside r hr)]
    exact h.written r hr
  others _ hi := getElem?_foldl_storeSlot _ hi

namespace NativeRegisters

variable {n n₁ n₂ : NativeRegisters}

theorem WrittenBack.trans (h : WrittenBack registers values n n₁)
    (h' : WrittenBack registers values' n₁ n₂) : WrittenBack registers values' n n₂ :=
  ⟨h'.loop.trans h.loop, h.slots.trans h'.slots, h.vars.trans h'.vars⟩

/-- Registers are taken back through slots in which the others are as before. -/
theorem writtenBack_taking {slots : Array Slot} (size : n.slots.size = values.size)
    (varsSize : n.vars.size = values.size) (inside : ∀ r ∈ registers, r.toNat < values.size)
    (same : slots.size = n.slots.size)
    (others : ∀ i, (∀ r ∈ registers, r.toNat ≠ i) → slots[i]? = n.slots[i]?) :
    WrittenBack registers values n (n.taking registers values slots) := by
  have encoded : Writes registers values slots (encodeRegisters registers values slots) :=
    writes_encodeRegisters (same.trans size) inside
  have encodedSize := encoded.size.trans (same.trans size)
  exact ⟨rfl, ⟨encoded.size.trans same, encoded.written, fun i hi =>
    (encoded.others i hi).trans (others i hi)⟩, encoded.copy encodedSize varsSize inside⟩

end NativeRegisters

end Slots

/-! ## Called frames -/

section Called

variable {m m' : Machine} {callee g : Frame} {callers : List Frame} {link : CallerLink}

/-- A called frame can run alone. -/
theorem Frame.Fresh.alone (fresh : callee.Fresh m.library.functions (some link))
    (library : m.library.Sound) :
    Execution.Sound m.depth ⟨m.descend, { callee with caller := none }, []⟩ where
  library := library
  frame := by
    obtain ⟨f, hf, size⟩ := fresh.file
    refine ⟨f, hf, size, ?_, ?_, ?_⟩
    · simp only [fresh.pc, Nat.zero_le]
    · simp [fresh.handlers]
    · simp [fresh.native]
  waiting := .outside
  depth := by simp

theorem Frame.Fresh.above (fresh : callee.Fresh m.library.functions (some link)) (g : Frame)
    (callers : List Frame) : Execution.mk m.descend callee (g :: callers) =
      Execution.above ⟨link, g, callers⟩ ⟨m.descend, { callee with caller := none }, []⟩ := by
  obtain ⟨function, file, pc, handlers, caller, native⟩ := callee
  cases fresh.caller
  rfl

/-- The result of a called frame that runs alone arrives at its call site when the frame runs on
top of it. -/
theorem becomes_of_runCallee (fresh : callee.Fresh m.library.functions (some link))
    (library : m.library.Sound) {fuel : Nat} {r : Outcome Value}
    (ran : m.runCallee fuel callee = some (m', r)) (g : Frame) (callers : List Frame) :
    ∃ r₀, r = r₀.map link.result.getD ∧ m.Continues m' ∧
      (Status.running ⟨m.descend, callee, g :: callers⟩).Becomes callers
        (CallSite.receive ⟨link, g, callers⟩ m' r₀) := by
  have alone := fresh.alone library
  obtain ⟨⟨m₁, r₀⟩, ran₀, same⟩ := Option.map_eq_some_iff.mp ran
  rw [fresh.caller] at same
  cases same
  obtain ⟨y, leads, ended⟩ := Execution.ends_of_run ran₀
  have finishing := Execution.Leads.sound leads alone
  have advanced := (leads.continues alone).trans (finishing.continues_of_finished ended)
  have run := leads.over alone ⟨link, g, callers⟩
  have received : (y.above ⟨link, g, callers⟩).step =
      CallSite.receive ⟨link, g, callers⟩ m' r₀ := by
    rw [finishing.step_above, ended]
    rfl
  refine ⟨r₀, rfl, ⟨advanced.functions, advanced.settings⟩, ?_⟩
  rw [fresh.above]
  exact .later (Execution.length_above ⟨link, g, callers⟩ _) run received

/-- A called frame that never ends alone does not end on top of its call site. -/
theorem lasts_of_runCallee (fresh : callee.Fresh m.library.functions (some link))
    (library : m.library.Sound) (never : ∀ fuel, m.runCallee fuel callee = none) (g : Frame)
    (callers : List Frame) :
    (Status.running ⟨m.descend, callee, g :: callers⟩).Lasts callers := by
  have alone := fresh.alone library
  have running : ∀ y, Execution.Leads ⟨m.descend, { callee with caller := none }, []⟩ y →
      ∃ y', y.step = .running y' := by
    intro y leads
    cases ended : y.step with
    | running y' => exact ⟨y', rfl⟩
    | finished m' r =>
      obtain ⟨fuel, ran⟩ := leads.run (Execution.run_finished ended 0)
      have answer := never fuel
      rw [Machine.runCallee, ran] at answer
      cases answer
  let site : CallSite := ⟨link, g, callers⟩
  rw [fresh.above]
  refine .running (Execution.length_above site _) fun z run => ?_
  have run : Execution.Over site.callers _ z := run
  obtain ⟨y, leads, rfl⟩ := run.above alone running
  obtain ⟨y', next⟩ := running y leads
  refine ⟨y'.above site, ?_, Execution.Leads.over (leads.tail next) alone site⟩
  rw [(Execution.Leads.sound leads alone).step_above, next]
  rfl

end Called

/-! ## Helper steps -/

section HelperSteps

variable {m m' : Machine} {f : LoadedFunction} {op : Opcode} {n n₀ : NativeRegisters}
  {frame : Frame} {callers : List Frame} {ws ws' : Array Value} {effect : Effect}

theorem help_of_error {e : Failure} (frame : Frame) (target : Option Nat)
    (decoded : decodeRegisters op.registers (copySlots op.registers n.vars n.slots)
      frame.file.values = .ok ws) (result : MachineM.exec f ws frame.pc op m = .error e m') :
    help f op target n m frame callers = unwind e m' { frame.withValues ws with
      native := some (n.taking op.registers ws (copySlots op.registers n.vars n.slots)) }
      callers := by
  simp only [help, MachineM.helperStep, decoded, result]
  rfl

theorem help_of_ok (frame : Frame) (target : Option Nat)
    (decoded : decodeRegisters op.registers (copySlots op.registers n.vars n.slots)
      frame.file.values = .ok ws) (result : MachineM.exec f ws frame.pc op m = .ok effect m')
    (applied : effect.apply ws = .ok ws') :
    help f op target n m frame callers = afterHelper effect target
      (n.taking op.registers ws' (copySlots op.registers n.vars n.slots)) m'
      (frame.withValues ws') callers := by
  simp only [help, MachineM.helperStep, decoded, result, applied]
  rfl

/-- The site of a call in compiled code receives a result as the call leaves it to its frame, with
the registers of the call written back. -/
theorem receive_completed {link : CallerLink} {callee : Frame} (target : Option Nat)
    (hf : m.library.function? frame.function = some f) (hop : f.chunk.opcode? frame.pc = some op)
    (hn : frame.native = none) (own : callee.caller = some link) (address : link.callPc = frame.pc)
    (size : n.slots.size = ws.size) (varsSize : n.vars.size = ws.size)
    (inside : ∀ r ∈ op.registers, r.toNat < ws.size) (back : n₀.WrittenBack op.registers ws n)
    (callers : List Frame) (r : Outcome Value) :
    let done := callee.completed ws frame.handlers (r.map link.result.getD)
    ∃ n', n₀.WrittenBack op.registers done.values n' ∧
      CallSite.receive ⟨link, { frame.withValues ws with native := some n }, callers⟩ m r =
        done.goOn target n' m frame callers := by
  obtain ⟨function, ⟨values, allocated⟩, pc, handlers, caller, native⟩ := frame
  obtain rfl : native = none := hn
  cases r with
  | error e =>
    refine ⟨n, back, ?_⟩
    obtain ⟨dst, callPc, result⟩ := link
    obtain rfl : callPc = pc := address
    rfl
  | ok v =>
    let stored := ws.setIfInBounds link.dst.toNat (link.result.getD v)
    have storedSize : stored.size = ws.size := by simp [stored]
    have taken : n.WrittenBack op.registers stored (n.taking op.registers stored n.slots) :=
      NativeRegisters.writtenBack_taking (size.trans storedSize.symm)
        (varsSize.trans storedSize.symm) (fun r hr => storedSize ▸ inside r hr) rfl fun _ _ => rfl
    have known : (m.library.function? function).bind (·.chunk.opcode? pc) = some op :=
      Option.bind_eq_some_iff.mpr ⟨f, hf, hop⟩
    refine ⟨n.taking op.registers stored n.slots, ?_, ?_⟩
    · simpa only [Frame.completed, own, Except.map] using back.trans taken
    · simp only [CallSite.receive, resume, Frame.withValues, known, Frame.completed, own,
        Except.map, Completed.goOn]
      rfl

/-- What follows an effect in compiled code is the effect run to its end. -/
theorem afterHelper_completes (frame : Frame) (library : m.library.Sound)
    (hf : m.library.function? frame.function = some f) (hop : f.chunk.opcode? frame.pc = some op)
    (hn : frame.native = none) (of : effect.Of m.library.functions op frame.pc)
    (noReturn : ¬op.IsReturn) (applied : effect.apply ws = .ok ws') (size : n.slots.size = ws'.size)
    (varsSize : n.vars.size = ws'.size) (inside : ∀ r ∈ op.registers, r.toNat < ws'.size)
    (back : n₀.WrittenBack op.registers ws' n) (target : Option Nat) (callers : List Frame) :
    (∀ fuel m' done, m.completeEffect fuel ws frame.handlers effect = some (m', done) →
      ∃ n', n₀.WrittenBack op.registers done.values n' ∧
        (afterHelper effect target n m (frame.withValues ws') callers).Becomes callers
          (done.goOn target n' m' frame callers)) ∧
    ((∀ fuel, m.completeEffect fuel ws frame.handlers effect = none) →
      (afterHelper effect target n m (frame.withValues ws') callers).Lasts callers) := by
  cases effect with
  | next | jump | guard | unguard =>
    cases applied
    refine ⟨fun fuel m' done completed => ?_, fun never => by cases never 0⟩
    cases completed
    exact ⟨n, back, .now⟩
  | write dst v =>
    obtain rfl : ws.setIfInBounds dst.toNat v = ws' := by
      simp only [Effect.apply, RegisterFile.set] at applied
      split at applied <;> cases applied
      rfl
    refine ⟨fun fuel m' done completed => ?_, fun never => by cases never 0⟩
    cases completed
    exact ⟨n, back, .now⟩
  | ret v => exact absurd of noReturn
  | call callee =>
    cases applied
    obtain ⟨isCall, dst, result, hdst, fresh⟩ := of
    constructor
    · intro fuel m' done completed
      obtain ⟨⟨m₁, r⟩, ran, same⟩ := Option.map_eq_some_iff.mp completed
      cases same
      obtain ⟨r₀, rfl, continues, becomes⟩ := becomes_of_runCallee fresh library ran
        { frame.withValues ws with native := some n } callers
      have hf' := (continues.function? frame.function).trans hf
      obtain ⟨n', back', received⟩ := receive_completed target hf' hop hn fresh.caller rfl size
        varsSize inside back callers r₀
      exact ⟨n', back', received ▸ becomes⟩
    · intro never
      refine lasts_of_runCallee fresh library (fun fuel => ?_) _ callers
      exact Option.map_eq_none_iff.mp (never fuel)

end HelperSteps

namespace Machine

/-- **Helper steps.** An execution of a machine in use runs the function `f`, and a helper step for
an instruction of `f` other than a return, at any address, gets slots for the registers of the
frame. The slots of the registers that the instruction names have values; `ws` are the registers of
the frame with these values.

* The helper step comes to what the instruction comes to when it is executed on `ws` to its end: it
  leaves the same machine, goes on at the target when the instruction branched and else at the next
  address, or fails with the same failure.
* The slots of the registers that the instruction names hold their values then, also when it
  failed; all other slots are as before.
* When the instruction never comes to its end, the helper step lasts. -/
theorem helper_steps_complete {m : Machine} (inUse : m.InUse) {x : Execution}
    (executes : m.Executes x) {f : LoadedFunction} {op : Opcode} {pc : Nat} {n : NativeRegisters}
    (hf : x.machine.library.function? x.frame.function = some f)
    (hop : f.chunk.opcode? pc = some op) (noReturn : ¬op.IsReturn)
    (varsSize : n.vars.size = x.frame.file.values.size)
    (slotsSize : n.slots.size = x.frame.file.values.size)
    (encode : ∀ r ∈ op.registers, ∃ v, (loadSlot n.vars r).value? = some v) (target : Option Nat) :
    ∃ ws, Reads op.registers n.vars x.frame.file.values ws ∧
      (∀ fuel m' done, x.machine.complete fuel f op pc ws x.frame.handlers = some (m', done) →
        ∃ n', n.WrittenBack op.registers done.values n' ∧
          (help f op target n x.machine { x.frame with pc, native := none } x.callers).Becomes
            x.callers (done.goOn target n' m' { x.frame with pc, native := none } x.callers)) ∧
      ((∀ fuel, x.machine.complete fuel f op pc ws x.frame.handlers = none) →
        (help f op target n x.machine { x.frame with pc, native := none } x.callers).Lasts
          x.callers) := by
  let frame : Frame := { x.frame with pc, native := none }
  let passed := copySlots op.registers n.vars n.slots
  have sound := executes.sound inUse
  have fits := (sound.library.function _ f hf).instruction pc op hop
  have size : x.frame.file.values.size = f.chunk.registerCount.toNat := (sound.here hf).size
  have inside : ∀ r ∈ op.registers, r.toNat < x.frame.file.values.size :=
    fun r hr => size ▸ fits.register hr
  have load : ∀ r ∈ op.registers, loadSlot passed r = loadSlot n.vars r := fun r hr => by
    rw [loadSlot_copySlots (fun r hr => slotsSize ▸ inside r hr), if_pos hr]
  obtain ⟨ws, decoded, reads⟩ : ∃ ws, decodeRegisters op.registers passed x.frame.file.values =
      .ok ws ∧ Reads op.registers passed x.frame.file.values ws :=
    decodeRegisters_reads inside fun r hr => load r hr ▸ encode r hr
  have taken : ∀ values : Array Value, values.size = x.frame.file.values.size →
      n.WrittenBack op.registers values (n.taking op.registers values passed) :=
    fun values same => NativeRegisters.writtenBack_taking (slotsSize.trans same.symm)
      (varsSize.trans same.symm) (fun r hr => same ▸ inside r hr) (by simp [passed])
      fun i hi => getElem?_foldl_storeSlot _ hi
  refine ⟨ws, ⟨reads.size, fun r hr => (reads.read r hr).trans (by rw [load r hr]), reads.others⟩,
    ?_⟩
  cases result : MachineM.exec f ws pc op x.machine with
  | error e m' =>
    simp only [complete, result]
    refine ⟨fun fuel m'' done completed => ?_, fun never => by cases never 0⟩
    cases completed
    refine ⟨_, taken ws reads.size, ?_⟩
    rw [help_of_error frame target decoded result]
    exact .now
  | ok effect m' =>
    have steady : MachineM.Steady x.machine.library.functions (MachineM.exec f ws pc op) _ _ :=
      MachineM.exec_steady fits (reads.size.trans size)
    obtain ⟨kept, of⟩ := steady.ok x.machine effect m' rfl result
    obtain ⟨-, ws', -, applied, size', -, -⟩ :=
      of.apply ⟨rfl, fun _ _ => rfl⟩ fun r hr => reads.size ▸ inside r hr
    have sized : ws'.size = x.frame.file.values.size := size'.trans reads.size
    have back := taken ws' sized
    have library : m'.library.Sound := kept.library ▸ sound.library
    have hf' : m'.library.function? x.frame.function = some f := kept.library ▸ hf
    have of' : effect.Of m'.library.functions op pc := kept.library ▸ of
    simp only [complete, result]
    rw [help_of_ok frame target decoded result applied]
    exact afterHelper_completes frame library hf' hop rfl of' noReturn applied
      (back.slots.size.trans (slotsSize.trans sized.symm))
      (back.vars.size.trans (varsSize.trans sized.symm)) (fun r hr => sized ▸ inside r hr) back
      target x.callers

/-- A helper step calls a function that gives 7. Its slot holds the result afterwards. -/
theorem helper_steps_complete_call :
    ∃ (c : Chunk) (m m₁ m' : Machine) (frame : Frame) (f : LoadedFunction) (n n' : NativeRegisters)
      (ws : Array Value),
      (start .standard).load c = .ok (1, m) ∧ m.Executes ⟨m₁, frame, []⟩ ∧
      m₁.complete 2 f (.call ⟨1⟩ ⟨0⟩ ⟨0⟩ 0) 1 ws [] =
        some (m', ⟨ws.setIfInBounds 1 (.int 7), [], .ok false⟩) ∧
      n'.slots[1]? = some (.ofInt 7) ∧
      (help f (.call ⟨1⟩ ⟨0⟩ ⟨0⟩ 0) none n m₁ frame []).Becomes []
        (Completed.goOn ⟨ws.setIfInBounds 1 (.int 7), [], .ok false⟩ none n' m' frame []) := by
  let seven : Chunk := ⟨"seven", #[⟨.loadInt ⟨0⟩ 7, none⟩, ⟨.ret ⟨0⟩, none⟩], #[], 1, 0, []⟩
  let c : Chunk := ⟨"main", #[⟨.makeFunction ⟨0⟩ 0, none⟩, ⟨.call ⟨1⟩ ⟨0⟩ ⟨0⟩ 0, none⟩,
    ⟨.ret ⟨1⟩, none⟩], #[], 2, 0, [seven]⟩
  let op : Opcode := .call ⟨1⟩ ⟨0⟩ ⟨0⟩ 0
  let frame (h : Handle) : Frame := ⟨1, ⟨#[.object h, .none], true⟩, 1, [], none, none⟩
  obtain ⟨m, load, m₁, h, runs, f, hf, hop, m', completed⟩ : ∃ m,
      (start .standard).load c = .ok (1, m) ∧ ∃ m₁ h, m.Runs 1 [] ⟨m₁, frame h, []⟩ ∧
        ∃ f, m₁.library.function? 1 = some f ∧ f.chunk.opcode? 1 = some op ∧
          ∃ m', m₁.complete 2 f op 1 #[.object h, .none] [] =
            some (m', ⟨#[.object h, .int 7], [], .ok false⟩) := by
    exact ⟨_, rfl, _, _, ⟨_, _, rfl, .tail .refl rfl⟩, _, rfl, rfl, _, rfl⟩
  let slots : Array Slot := #[.ofValue (.object h), .ofValue .none]
  let n : NativeRegisters := ⟨⟨⟨0, 1⟩, [], #[]⟩, slots, slots⟩
  have executes : m.Executes ⟨m₁, frame h, []⟩ := .ofRuns (fun v hv => by cases hv) runs
  have registers : op.registers = [⟨1⟩, ⟨0⟩] := rfl
  have held : ∀ r ∈ op.registers, ∃ v, (loadSlot n.vars r).value? = some v := by
    simp only [registers, List.forall_mem_cons]
    have loaded : loadSlot n.vars ⟨0⟩ = .ofValue (.object h) := rfl
    exact ⟨⟨.none, rfl⟩, ⟨.object h, loaded ▸ Slot.value?_ofValue _⟩, by simp⟩
  obtain ⟨ws, reads, agrees, -⟩ := helper_steps_complete (.load (.start .standard) load) executes hf
    hop (by simp [op, Opcode.IsReturn]) rfl rfl held none
  have kept : Reads op.registers n.vars #[.object h, .none] #[.object h, .none] := by
    refine ⟨rfl, ?_, fun _ _ => rfl⟩
    simp only [registers, List.forall_mem_cons]
    exact ⟨rfl, (Slot.value?_ofValue (.object h)).symm, by simp⟩
  obtain rfl : ws = #[.object h, .none] := reads.unique kept
  obtain ⟨n', back, becomes⟩ := agrees 2 m' _ completed
  have stored := back.slots.written ⟨1⟩ (by simp [registers])
  exact ⟨c, m, m₁, m', frame h, f, n, n', _, load, executes, completed, stored, becomes⟩

end Machine

end RegisterVm
