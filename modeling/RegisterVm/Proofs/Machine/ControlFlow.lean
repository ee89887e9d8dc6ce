import RegisterVm.Proofs.Bytecode.Loop
import RegisterVm.Proofs.Machine.InUse

/-!
# Control flow of verified code

Frames stand at instructions of their functions (`Frame.Placed`), and what the instructions of a
loaded function name is there (`LoadedFunction.Resolves`): branch targets, constants, names, nested
functions, and for every backward jump the record of a loop around it. `Machine.control_flow` says
so for every execution of a call, and that no error of an execution is about something missing.
-/

namespace RegisterVm

/-- A frame has the registers of its function, it stands at an instruction or at the end, and its
handlers are at instructions. -/
structure Frame.Placed (f : LoadedFunction) (frame : Frame) : Prop where
  pc : frame.pc ≤ f.chunk.instructions.size
  registers : frame.file.values.size = f.chunk.registerCount.toNat
  handlers : ∀ h ∈ frame.handlers, ∃ op, f.chunk.opcode? h.address = some op

/-- There is a record of the loop at `header`, and the loop reaches as far as `pc`. -/
def Library.Tracks (l : Library) (id : FunctionId) (f : LoadedFunction) (header pc : Nat) : Prop :=
  ∃ record, l.recordOf? id f header = some record ∧ record.range.header = header ∧
    record.range.contains pc = true

/-- Whatever the instructions of a function name is there. -/
structure LoadedFunction.Resolves (l : Library) (id : FunctionId) (f : LoadedFunction) :
    Prop where
  target : ∀ pc op target, f.chunk.opcode? pc = some op → op.branchTarget? = some target →
    ∃ op', f.chunk.opcode? target = some op'
  constant : ∀ pc dst index, f.chunk.opcode? pc = some (.loadConst dst index) →
    ∃ k, f.chunk.constants[index.toNat]? = some k
  name : ∀ pc op index, f.chunk.opcode? pc = some op → op.nameOperand? = some index →
    ∃ text, f.chunk.nameAt? index = some text
  child : ∀ pc dst index, f.chunk.opcode? pc = some (.makeFunction dst index) →
    ∃ child g, f.children[index.toNat]? = some child ∧ l.function? child = some g
  loop : ∀ pc op target, f.chunk.opcode? pc = some op → op.jumpTarget? = some target →
    target ≤ pc → l.Tracks id f target pc

theorem Chunk.opcode?_of_lt {c : Chunk} {pc : Nat} (h : pc < c.instructions.size) :
    ∃ op, c.opcode? pc = some op :=
  ⟨_, by rw [Chunk.opcode?, Array.getElem?_eq_getElem h]; rfl⟩

theorem Frame.Sound.placed {f : LoadedFunction} {frame : Frame} (h : frame.Sound f) :
    frame.Placed f where
  pc := h.pc
  registers := h.size
  handlers g hg := Chunk.opcode?_of_lt (h.handlers g hg).1

/-- Only jumps can lead back. -/
theorem Opcode.Fits.jumpTarget {op : Opcode} {c : Chunk} {children pc target : Nat}
    (h : op.Fits c children pc) (branch : op.branchTarget? = some target) (back : target ≤ pc) :
    op.jumpTarget? = some target := by
  have forward : op.isForwardOnly = false := by
    cases only : op.isForwardOnly with
    | false => rfl
    | true =>
      have := h.forward target branch only
      omega
  cases op with
  | forIter | pushTry => cases forward
  | _ => exact branch

namespace Library.Sound

variable {l : Library} {id : FunctionId} {f : LoadedFunction}

/-- **A backward jump has a record of its loop.** -/
theorem tracks (h : l.Sound) (hf : l.function? id = some f) {pc target : Nat} {op : Opcode}
    (hop : f.chunk.opcode? pc = some op) (jumps : op.jumpTarget? = some target)
    (back : target ≤ pc) : l.Tracks id f target pc := by
  have loops := (h.function id f hf).loops
  obtain ⟨range, hr, header, contains⟩ := Chunk.exists_loop hop jumps back
  obtain ⟨record, found⟩ : ∃ record, l.recordOf? id f target = some record := by
    unfold Library.recordOf?
    cases l.record? id target with
    | some record => exact ⟨record, rfl⟩
    | none =>
      have known : (f.loops.find? fun range => range.header = target).isSome :=
        List.find?_isSome.mpr ⟨range, loops ▸ hr, decide_eq_true header⟩
      obtain ⟨range', found⟩ := Option.isSome_iff_exists.mp known
      exact ⟨.start range', by simp only [found, Option.map_some]⟩
  obtain ⟨same, valid⟩ := recordOf?_valid h hf found
  have around : record.range = range :=
    Chunk.loop_unique (loops ▸ valid.range) hr (same.trans header.symm)
  exact ⟨record, found, same, around ▸ contains⟩

/-- **The instructions of a loaded function name nothing that is missing.** -/
theorem resolves (h : l.Sound) (hf : l.function? id = some f) : f.Resolves l id where
  target _ _ target hop branch :=
    Chunk.opcode?_of_lt (((h.function id f hf).instruction _ _ hop).target target branch)
  constant _ dst index hop :=
    ⟨_, Array.getElem?_eq_getElem
      (((h.function id f hf).instruction _ _ hop).constant dst index rfl)⟩
  name _ _ index hop named := ((h.function id f hf).instruction _ _ hop).name index named
  child _ dst index hop := by
    have bound := ((h.function id f hf).instruction _ _ hop).child dst index rfl
    have known := h.child id f hf f.children[index.toNat] (Array.getElem_mem bound)
    exact ⟨_, _, Array.getElem?_eq_getElem bound, Array.getElem?_eq_getElem known⟩
  loop _ _ _ hop jumps back := h.tracks hf hop jumps back

end Library.Sound

/-- A frame has a link exactly when there is a frame outside, which waits at a call. -/
theorem Waiting.linked {fs : Array LoadedFunction} {link : Option CallerLink}
    {callers : List Frame} (h : Waiting fs link callers) {frame a : Frame}
    {inner outer : List Frame} (hl : frame.caller = link)
    (split : frame :: callers = inner ++ a :: outer) :
    (a.caller = none ∧ outer = []) ∨
      ∃ b rest link g op, outer = b :: rest ∧ a.caller = some link ∧ fs[b.function]? = some g ∧
        g.chunk.opcode? link.callPc = some op ∧ op.IsCall := by
  induction h generalizing frame inner with
  | outside =>
    cases inner with
    | nil =>
      obtain ⟨rfl, rfl⟩ := List.cons.inj split
      exact .inl ⟨hl, rfl⟩
    | cons c inner => simp at split
  | call hf waits _ ih =>
    cases inner with
    | nil =>
      obtain ⟨rfl, rfl⟩ := List.cons.inj split
      exact .inr ⟨_, _, _, _, _, rfl, hl, hf, waits.opcode, waits.isCall⟩
    | cons c inner => exact ih rfl (List.cons.inj split).2

namespace Machine

/-- **Control flow of verified code.** In every execution of a call on values of the machine:

* every active frame stands in its function with the registers of the function, and its handlers
  are at instructions;
* a frame has a link exactly when another frame waits for its result, at a call instruction, and
  the depth counts the active frames;
* every branch target, constant, name and nested function that a loaded function names is there,
  and every function object stands for a loaded function;
* a jump that is taken leads to an instruction, and a jump back finds the record of a loop that
  has its target as header and the jump inside;
* no error is about a constant, a name or a function that is missing. -/
theorem control_flow {m : Machine} {id : FunctionId} {args : List Value} {x : Execution}
    (inUse : m.InUse) (ha : ∀ v ∈ args, m.heap.Has v) (runs : m.Runs id args x) :
    (∀ a ∈ x.frame :: x.callers,
      ∃ f, x.machine.library.function? a.function = some f ∧ a.Placed f) ∧
    (∀ {inner outer : List Frame} {a : Frame}, x.frame :: x.callers = inner ++ a :: outer →
      (a.caller = none ∧ outer = []) ∨
        ∃ b rest link g op, outer = b :: rest ∧ a.caller = some link ∧
          x.machine.library.function? b.function = some g ∧
          g.chunk.opcode? link.callPc = some op ∧ op.IsCall) ∧
    x.machine.depth = m.depth + x.callers.length + 1 ∧
    (∀ id f, x.machine.library.function? id = some f → f.Resolves x.machine.library id) ∧
    (∀ handle id name, x.machine.heap.object? handle = some (.function id name) →
      ∃ f, x.machine.library.function? id = some f) ∧
    (∀ {f : LoadedFunction} {op : Opcode} {target : Nat} {m' : Machine},
      x.machine.library.function? x.frame.function = some f →
      f.chunk.opcode? x.frame.pc = some op →
      MachineM.exec f x.frame.settled.file.values x.frame.pc op x.machine =
        .ok (.jump target) m' →
      (∃ op', f.chunk.opcode? target = some op') ∧
        (target ≤ x.frame.pc →
          m'.library.Tracks x.frame.function f target x.frame.pc)) ∧
    (∀ {e : Failure} {m' : Machine}, x.Fails e m' → e.fault.unresolved = false) ∧
    ∀ {e : Failure} {m' : Machine}, x.step = .finished m' (.error e) →
      e.fault.unresolved = false := by
  have sound := runs.sound inUse.reached
  have consistent := runs.consistent inUse ha
  refine ⟨fun a mem => ?_, fun split => sound.waiting.linked rfl split, sound.depth,
    fun id f hf => sound.library.resolves hf, fun handle id name found => ?_,
    fun {f op target m'} hf hop taken => ?_,
    fun fails => (consistent.fails sound fails).resolved, fun ended => ?_⟩
  · rcases List.mem_cons.mp mem with rfl | mem
    · obtain ⟨f, hf, hs⟩ := sound.frame
      exact ⟨f, hf, hs.placed⟩
    · obtain ⟨f, hf, hs⟩ := sound.waiting.sound mem
      exact ⟨f, hf, hs.placed⟩
  · have known := consistent.machine.heap.at found
    exact ⟨_, Array.getElem?_eq_getElem known⟩
  · have fits := (sound.library.function _ f hf).instruction _ op hop
    have size := (sound.here hf).settled.size
    obtain ⟨kept, branch⟩ := (MachineM.exec_steady fits size).ok _ _ m' rfl taken
    refine ⟨Chunk.opcode?_of_lt (fits.target target branch), fun back => ?_⟩
    rw [kept.library]
    exact sound.library.tracks hf hop (fits.jumpTarget branch back) back
  · have stepped := consistent.step sound
    rw [ended] at stepped
    exact stepped.2.resolved

/-- The jump of an endless loop finds the record of the loop. -/
theorem control_flow_endless :
    ∃ (c : Chunk) (id : FunctionId) (m : Machine) (x : Execution) (f : LoadedFunction),
      (start .standard).load c = .ok (id, m) ∧ m.Runs id [] x ∧ x.frame.pc = 1 ∧
      x.machine.library.function? x.frame.function = some f ∧
      ∃ m', MachineM.exec f x.frame.settled.file.values 1 (.jump 0) x.machine = .ok (.jump 0) m' ∧
        m'.library.Tracks x.frame.function f 0 1 := by
  let c : Chunk := ⟨"main", #[⟨.nop, none⟩, ⟨.jump 0, none⟩], #[], 0, 0, []⟩
  obtain ⟨m, load, x, runs, pc, f, hf, hop⟩ : ∃ m, (start .standard).load c = .ok (0, m) ∧
      ∃ x, m.Runs 0 [] x ∧ x.frame.pc = 1 ∧ ∃ f,
        x.machine.library.function? x.frame.function = some f ∧
        f.chunk.opcode? 1 = some (.jump 0) :=
    ⟨_, rfl, _, ⟨_, _, rfl, .single rfl⟩, rfl, _, rfl, rfl⟩
  obtain ⟨-, -, -, -, -, taken, -⟩ :=
    control_flow (.load (.start .standard) load) (fun v hv => by cases hv) runs
  rw [pc] at taken
  obtain ⟨-, back⟩ := taken hf hop rfl
  exact ⟨c, 0, m, x, f, load, runs, pc, hf, _, rfl, back (Nat.zero_le 1)⟩

end Machine

end RegisterVm
