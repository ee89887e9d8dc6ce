import Mathlib.Logic.Relation
import RegisterVm.Machine.Call
import RegisterVm.Proofs.Machine.Simulation

/-!
# Reachable machines and executions

`Machine.Reached` are the machines that loading and calling can lead to, with any settings and any
profile of loops in between, and `Machine.Runs` the executions that a call on a machine goes
through. The library of a reached machine is sound (`Machine.Reached.sound`), and so is every
execution of a call (`Machine.Runs.sound`).
-/

namespace RegisterVm

/-- One execution is followed by another. -/
def Execution.Next (x y : Execution) : Prop := x.step = .running y

/-- One execution leads to another. -/
abbrev Execution.Leads : Execution → Execution → Prop := Relation.ReflTransGen Execution.Next

/-! ## Fuel -/

namespace Execution

variable {x : Execution}

/-- More fuel does not change an answer. -/
theorem run_mono {fuel fuel' : Nat} (le : fuel ≤ fuel') {a : Machine × Outcome Value}
    (h : x.run fuel = some a) : x.run fuel' = some a := by
  induction fuel generalizing x fuel' with
  | zero => cases h
  | succ fuel ih =>
    obtain ⟨fuel', rfl⟩ : ∃ k, fuel' = k + 1 := ⟨fuel' - 1, by omega⟩
    rw [run.eq_def] at h ⊢
    cases hs : x.step with
    | running y =>
      simp only [hs] at h ⊢
      exact ih (by omega) h
    | finished m r =>
      simp only [hs] at h ⊢
      exact h

/-- An execution has one answer. -/
theorem run_unique {fuel fuel' : Nat} {a a' : Machine × Outcome Value}
    (h : x.run fuel = some a) (h' : x.run fuel' = some a') : a = a' := by
  have first := run_mono (Nat.le_max_left fuel fuel') h
  have second := run_mono (Nat.le_max_right fuel fuel') h'
  exact Option.some.inj (first.symm.trans second)

theorem run_step {z : Execution} (h : x.step = .running z) (fuel : Nat) :
    x.run (fuel + 1) = z.run fuel := by
  rw [run.eq_def]
  simp only [h]

theorem run_finished {m : Machine} {r : Outcome Value} (h : x.step = .finished m r) (fuel : Nat) :
    x.run (fuel + 1) = some (m, r) := by
  rw [run.eq_def]
  simp only [h]

/-- An answer is that of every execution before. -/
theorem Leads.run {s : Execution} (h : s.Leads x) {fuel : Nat} {a : Machine × Outcome Value}
    (ran : x.run fuel = some a) : ∃ fuel', s.run fuel' = some a := by
  induction h generalizing fuel with
  | refl => exact ⟨fuel, ran⟩
  | tail _ next ih => exact ih ((run_step next fuel).trans ran)

end Execution

/-! ## Reachable machines -/

namespace Machine

/-- `m'` differs from `m` in the settings of compiled loops, the profile of loops and the events at
most. -/
structure Profiled (m m' : Machine) : Prop where
  plain : m'.plain = m.plain
  profile : m'.library.Profile

/-- The machines that start, loading and calling lead to. Whatever else is done to a machine in
between leaves its library alone. -/
inductive Reached : Machine → Prop
  | start (config : Config) : Reached (.start config)
  | load {m m' : Machine} {c : Chunk} {id : FunctionId} : Reached m → m.load c = .ok (id, m') →
    Reached m'
  | execute {m m' : Machine} {fuel : Nat} {id : FunctionId} {args : List Value}
    {r : Outcome Value} : Reached m → m.execute fuel id args = some (m', r) → Reached m'
  | profiled {m m' : Machine} : Reached m → m.Profiled m' → Reached m'
  | other {m m' : Machine} : Reached m → m'.library = m.library → Reached m'

/-- The executions that a call of a function goes through. -/
def Runs (m : Machine) (id : FunctionId) (args : List Value) (x : Execution) : Prop :=
  ∃ frame m', MachineM.enter id args none m = .ok frame m' ∧
    Execution.Leads ⟨m'.descend, frame, []⟩ x

/-! ## Calls of sound machines -/

variable {m m' : Machine} {id : FunctionId} {args : List Value}

/-- Entering a function, or the failure to do so. -/
theorem steady_enter (m : Machine) (id : FunctionId) (args : List Value) :
    MachineM.Steady m.library.functions (MachineM.enter id args none)
      (Frame.Fresh m.library.functions none) fun fault => fault.ofInstruction = true := by
  exact .enter id args none
    ⟨fun _ about => Fault.ofInstruction_of_aboutValues about, fun _ => rfl, rfl, fun _ _ _ => rfl⟩

theorem enter_sound (sound : m.library.Sound) {frame : Frame}
    (h : MachineM.enter id args none m = .ok frame m') :
    Execution.Sound m.depth ⟨m'.descend, frame, []⟩ := by
  obtain ⟨kept, fresh⟩ := (steady_enter m id args).ok m frame m' rfl h
  obtain ⟨f, hf, size⟩ := fresh.file
  refine ⟨kept.library ▸ sound, ⟨f, ?_, size, ?_, ?_, fun n hn => ?_⟩, ?_, ?_⟩
  · rw [library_descend, kept.library]
    exact hf
  · rw [fresh.pc]
    exact Nat.zero_le _
  · rw [fresh.handlers]
    simp
  · rw [fresh.native] at hn
    cases hn
  · rw [fresh.caller]
    exact .outside
  · rw [depth_descend, kept.depth]
    rfl

end Machine

namespace Execution

/-- What a sound execution leads to is sound. -/
theorem Leads.sound {base : Nat} {x y : Execution} (h : x.Leads y) (sound : x.Sound base) :
    y.Sound base := by
  induction h with
  | refl => exact sound
  | tail _ next ih =>
    have stepped := ih.step
    rw [next] at stepped
    exact stepped

end Execution

/-- A run of a sound execution ends on a sound machine, at the depth at which it began. -/
theorem Execution.Sound.run {base : Nat} {x : Execution} (h : x.Sound base) {fuel : Nat}
    {m : Machine} {r : Outcome Value} (ran : x.run fuel = some (m, r)) :
    m.library.Sound ∧ m.depth = base := by
  induction fuel generalizing x with
  | zero => cases ran
  | succ fuel ih =>
    have sound := h.step
    rw [Execution.run.eq_def] at ran
    cases hs : x.step with
    | running y =>
      rw [hs] at sound
      simp only [hs] at ran
      exact ih sound ran
    | finished m' r' =>
      rw [hs] at sound
      simp only [hs, Option.some.injEq, Prod.mk.injEq] at ran
      exact ran.1 ▸ sound

namespace Machine

variable {m m' : Machine} {id : FunctionId} {args : List Value}

theorem load_sound {c : Chunk} (sound : m.library.Sound) (h : m.load c = .ok (id, m')) :
    m'.library.Sound := by
  unfold load at h
  split at h
  · cases h
  · rename_i verified
    cases h
    exact (Library.load_sound sound c ((Chunk.verify_ok_iff c).mp verified)).1

theorem execute_sound {fuel : Nat} {r : Outcome Value} (sound : m.library.Sound)
    (h : m.execute fuel id args = some (m', r)) : m'.library.Sound ∧ m'.depth = m.depth := by
  unfold execute at h
  split at h
  · rename_i failed
    cases h
    obtain ⟨kept, -⟩ := (steady_enter m id args).error m _ _ rfl failed
    exact ⟨kept.library ▸ sound, kept.depth⟩
  · rename_i entered
    exact (enter_sound sound entered).run h

theorem Profiled.heap (h : m.Profiled m') : m'.heap = m.heap := (congrArg Machine.heap h.plain :)

theorem Profiled.functionObjects (h : m.Profiled m') : m'.functionObjects = m.functionObjects :=
  (congrArg Machine.functionObjects h.plain :)

theorem Profiled.depth (h : m.Profiled m') : m'.depth = m.depth :=
  (congrArg Machine.depth h.plain :)

theorem Profiled.maxDepth (h : m.Profiled m') : m'.config.maxDepth = m.config.maxDepth :=
  (congrArg (fun m => m.config.maxDepth) h.plain :)

theorem Profiled.function? (h : m.Profiled m') (id : FunctionId) :
    m'.library.function? id = m.library.function? id := by
  rw [← function?_plain, h.plain, function?_plain]

theorem Profiled.sound (h : m.Profiled m') (sound : m.library.Sound) : m'.library.Sound := by
  have functions : m'.library.functions = m.library.functions := by
    rw [← functions_plain, h.plain, functions_plain]
  have same : ∀ id, m'.library.function? id = m.library.function? id := fun id => by
    simp only [Library.function?, functions]
  refine ⟨fun id f hf => sound.function id f (same id ▸ hf), fun id f hf c hc => ?_, h.profile⟩
  rw [functions]
  exact sound.child id f (same id ▸ hf) c hc

/-- A call has one answer. -/
theorem execute_unique {m : Machine} {fuel fuel' : Nat} {a a' : Machine × Outcome Value}
    (h : m.execute fuel id args = some a) (h' : m.execute fuel' id args = some a') : a = a' := by
  unfold execute at h h'
  split at h
  · rename_i failed
    rw [failed] at h'
    exact Option.some.inj (h.symm.trans h')
  · rename_i entered
    rw [entered] at h'
    exact Execution.run_unique h h'

/-- **The library of a reached machine is sound.** -/
theorem Reached.sound (h : m.Reached) : m.library.Sound := by
  induction h with
  | start config => exact Library.sound_empty
  | load _ loaded ih => exact load_sound ih loaded
  | execute _ ran ih => exact (execute_sound ih ran).1
  | profiled _ profiled ih => exact profiled.sound ih
  | other _ same ih => exact same ▸ ih

/-- **Every execution of a call is sound.** -/
theorem Runs.sound {x : Execution} (h : m.Runs id args x) (reached : m.Reached) :
    x.Sound m.depth := by
  obtain ⟨frame, m', entered, leads⟩ := h
  exact leads.sound (enter_sound reached.sound entered)

namespace Runs

variable {x y : Execution}

/-- What an execution of a call leads to is one of the same call. -/
theorem leads (runs : m.Runs id args x) (h : x.Leads y) : m.Runs id args y := by
  obtain ⟨frame, m', entered, begun⟩ := runs
  exact ⟨frame, m', entered, begun.trans h⟩

/-- The answer of an execution of a call is that of the call. -/
theorem answers (runs : m.Runs id args x) {fuel : Nat} {a : Machine × Outcome Value}
    (ran : x.run fuel = some a) : ∃ fuel', m.execute fuel' id args = some a := by
  obtain ⟨frame, m', entered, begun⟩ := runs
  obtain ⟨fuel', ran'⟩ := begun.run ran
  exact ⟨fuel', by rw [execute, entered]; exact ran'⟩

end Runs

end Machine

end RegisterVm
