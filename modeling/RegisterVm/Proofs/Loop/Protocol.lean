import Mathlib.Logic.Function.Basic
import Mathlib.Logic.Relation
import RegisterVm.Config
import RegisterVm.Loop.Record

/-!
# The protocol of promotion

Machines that run one function share the records of its loops: a count, a state and a slot for
code, each read and written by itself. What a machine does at a backward branch is a sequence of
tasks that touch one of these each (`Task.advance`), and the tasks of several machines interleave in
any way (`Step`, `Runs`).

The life of a loop is the same in every interleaving (`System.Sound`, kept by `System.Sound.step`):
nobody has claimed the loop, or one machine is at work on it, or that machine is done with it for
good. Main statements: `Runs.sound`, `Life.history`, `Life.code`, `Runs.becomes`, and for a machine
that is alone `Runs.paced`.
-/

namespace RegisterVm

open Function (update)

/-! ## Tasks -/

/-- Compiles a loop of a chunk or refuses it. As a loop is compiled at most once, a function stands
for any compiler. -/
abbrev LoopCompiler := Chunk → LoopRange → Except Fault CompiledLoop

/-- What a machine is to do about hot loops. -/
structure LoopPolicy where
  threshold : Nat
  enabled : Bool
  compiler : Option LoopCompiler

/-- The compiler that is used. -/
def LoopPolicy.active? (p : LoopPolicy) : Option LoopCompiler :=
  if p.enabled then p.compiler else none

/-- The policy of a machine with this configuration. -/
def Config.policy (c : Config) : LoopPolicy :=
  ⟨c.threshold.toNat, c.compileLoops, some CompiledLoop.compile⟩

/-- The count at which a machine alone claims a loop. -/
def LoopPolicy.due (p : LoopPolicy) : Nat := max p.threshold 1

namespace LoopRecord

/-- The record with one more backward branch. -/
def counted (r : LoopRecord) : LoopRecord :=
  { r with counter := { r.counter with count := r.counter.count + 1 } }

/-- The record with code in its slot, unless there is code already. -/
def publish (code : CompiledLoop) (r : LoopRecord) : LoopRecord :=
  { r with compiled := r.compiled.or (some code) }

/-- The record marked as installed. -/
def markInstalled (r : LoopRecord) : LoopRecord := { r with counter := r.counter.install }

end LoopRecord

/-- The states that a loop goes through, one after the other. -/
inductive LoopState.Moves : LoopState → LoopState → Prop
  | stay (s : LoopState) : Moves s s
  | claim : Moves .counting .compiling
  | install : Moves .compiling .installed
  | reject : Moves .compiling .notPromotable

theorem LoopState.Moves.final {s s' : LoopState} (h : s.Moves s')
    (final : s = .installed ∨ s = .notPromotable) : s' = s := by
  cases h with
  | stay => rfl
  | claim | install | reject => rcases final with same | same <;> cases same

/-- What one task may change of a record: the count grows, the state moves on, code stays. -/
structure LoopRecord.Follows (r r' : LoopRecord) : Prop where
  range : r'.range = r.range
  count : r.counter.count ≤ r'.counter.count
  state : r.counter.state.Moves r'.counter.state
  code : ∀ code, r.compiled = some code → r'.compiled = some code

theorem LoopRecord.Follows.refl (r : LoopRecord) : r.Follows r :=
  ⟨rfl, Nat.le_refl _, .stay _, fun _ h => h⟩

/-- What any number of tasks may change of a record. -/
def LoopRecord.Becomes : LoopRecord → LoopRecord → Prop := Relation.ReflTransGen LoopRecord.Follows

namespace LoopRecord.Becomes

variable {r r' : LoopRecord}

theorem state (h : r.Becomes r') :
    Relation.ReflTransGen LoopState.Moves r.counter.state r'.counter.state := by
  induction h with
  | refl => exact .refl
  | tail _ follows ih => exact .tail ih follows.state

/-- Installed loops stay installed and loops that are given up stay so. -/
theorem final (h : r.Becomes r')
    (final : r.counter.state = .installed ∨ r.counter.state = .notPromotable) :
    r'.counter.state = r.counter.state := by
  induction h with
  | refl => rfl
  | tail _ follows ih => exact (follows.state.final (ih ▸ final)).trans ih

theorem code (h : r.Becomes r') {code : CompiledLoop} (there : r.compiled = some code) :
    r'.compiled = some code := by
  induction h with
  | refl => exact there
  | tail _ follows ih => exact follows.code code ih

end LoopRecord.Becomes

/-- The event of an installed loop. -/
def CompiledLoop.event (name : String) (range : LoopRange) (code : CompiledLoop) : LoopEvent :=
  .compiled name range.header range.backEdge code.registers.length

/-- The event of a loop that is refused. -/
def Fault.loopEvent (name : String) (range : LoopRange) (fault : Fault) : LoopEvent :=
  .rejected name range.header fault.message

/-- Whether a loop was compiled. -/
def LoopEvent.isCompiled : LoopEvent → Bool
  | compiled _ _ _ _ => true
  | rejected _ _ _ => false

namespace Promotion

/-- What a machine does next about a loop. -/
inductive Task where
  | count
  /-- Compare a count with the threshold, and look whether the loop is still counting. -/
  | test (count : Nat)
  | claim
  | compile (compiler : LoopCompiler)
  | publish (code : CompiledLoop)
  | install (code : CompiledLoop)
  | reject (fault : Fault)
  | log (event : LoopEvent)

/-- What is recorded of the work of the machines. -/
inductive Action where
  /-- The right to compile was claimed, with success. -/
  | claimed
  /-- The compiler was called. -/
  | called
  | logged (event : LoopEvent)

/-- What a task leads to: the next task at the loop, the record and what is recorded. -/
structure Advance where
  next : Option Task
  record : LoopRecord
  action : Option Action

namespace Task

/-- The effect of a task on the record of its loop. -/
def advance (policy : LoopPolicy) (chunk : Chunk) (r : LoopRecord) : Task → Advance
  | count => ⟨some (.test (r.counter.count + 1)), r.counted, none⟩
  | test n =>
    ⟨if policy.threshold ≤ n ∧ r.counter.state = .counting then some .claim else none, r, none⟩
  | claim =>
    match policy.active?, r.counter.claim? with
    | some compiler, some counter => ⟨some (.compile compiler), { r with counter }, some .claimed⟩
    | _, _ => ⟨none, r, none⟩
  | compile compiler =>
    match compiler chunk r.range with
    | .ok code => ⟨some (.publish code), r, some .called⟩
    | .error fault => ⟨some (.reject fault), r, some .called⟩
  | publish code => ⟨some (.install code), r.publish code, none⟩
  | install code => ⟨some (.log (code.event chunk.name r.range)), r.markInstalled, none⟩
  | reject fault => ⟨some (.log (fault.loopEvent chunk.name r.range)), r.reject, none⟩
  | log event => ⟨none, r, some (.logged event)⟩

/-- Whether the task is part of an attempt to compile, which begins with a claim. -/
def Attempts : Task → Prop
  | count | test _ | claim => False
  | _ => True

end Task

/-- Records that differ in their count at most. -/
structure SameProgress (r r' : LoopRecord) : Prop where
  range : r'.range = r.range
  state : r'.counter.state = r.counter.state
  compiled : r'.compiled = r.compiled

section

variable {r : LoopRecord} {chunk : Chunk} {task : Task}

theorem claim?_eq_some {c c' : HotCounter} (claimed : c.claim? = some c') :
    c.state = .counting ∧ c' = { c with state := .compiling } := by
  unfold HotCounter.claim? at claimed
  split at claimed
  · rename_i counting
    exact ⟨counting, (Option.some.inj claimed).symm⟩
  · cases claimed

namespace Task

variable {p : LoopPolicy}

/-- A task that is no part of an attempt claims the loop or leaves all but the count as it is. -/
theorem advance_of_not_attempts (p : LoopPolicy) (chunk : Chunk) (r : LoopRecord)
    (idle : ¬task.Attempts) :
    (∃ compiler, task = .claim ∧ p.active? = some compiler ∧ r.counter.state = .counting ∧
      task.advance p chunk r = ⟨some (.compile compiler),
        { r with counter := { r.counter with state := .compiling } }, some .claimed⟩) ∨
    (SameProgress r (task.advance p chunk r).record ∧ (task.advance p chunk r).action = none ∧
      ∀ next, (task.advance p chunk r).next = some next → ¬next.Attempts) := by
  cases task with
  | count => exact .inr ⟨⟨rfl, rfl, rfl⟩, rfl, fun next h => by cases h; exact id⟩
  | test n =>
    refine .inr ⟨⟨rfl, rfl, rfl⟩, rfl, fun next h => ?_⟩
    simp only [advance] at h
    split at h
    · cases h
      exact id
    · cases h
  | claim =>
    simp only [advance]
    split
    · rename_i compiler counter active claimed
      obtain ⟨counting, rfl⟩ := claim?_eq_some claimed
      exact .inl ⟨compiler, trivial, active, counting, rfl⟩
    · exact .inr ⟨⟨rfl, rfl, rfl⟩, rfl, nofun⟩
  | _ => exact absurd trivial idle

theorem advance_range (task : Task) : (task.advance p chunk r).record.range = r.range := by
  by_cases attempts : task.Attempts
  · cases task with
    | compile compiler =>
      simp only [advance]
      split <;> rfl
    | publish | install | reject | log => rfl
    | _ => exact absurd attempts id
  · obtain ⟨compiler, -, -, -, result⟩ | ⟨same, -⟩ := advance_of_not_attempts p chunk r attempts
    · rw [result]
    · exact same.range

/-- No task makes the count smaller. -/
theorem le_count (task : Task) :
    r.counter.count ≤ (task.advance p chunk r).record.counter.count := by
  cases task with
  | count => exact Nat.le_succ _
  | claim =>
    simp only [advance]
    split
    · rename_i claimed
      exact Nat.le_of_eq (congrArg HotCounter.count (claim?_eq_some claimed).2).symm
    · exact Nat.le_refl _
  | compile compiler =>
    simp only [advance]
    split <;> exact Nat.le_refl _
  | _ => exact Nat.le_refl _

/-- The task before a test. -/
theorem of_test {n : Nat} (next : (task.advance p chunk r).next = some (.test n)) :
    task = .count ∧ n = r.counter.count + 1 := by
  cases task with
  | count => cases next; exact ⟨rfl, rfl⟩
  | test m => simp only [advance] at next; split at next <;> cases next
  | claim => simp only [advance] at next; split at next <;> cases next
  | compile compiler => simp only [advance] at next; split at next <;> cases next
  | _ => cases next

/-- The task before a claim. -/
theorem of_claim (next : (task.advance p chunk r).next = some .claim) :
    ∃ n, task = .test n ∧ p.threshold ≤ n ∧ r.counter.state = .counting := by
  cases task with
  | test n =>
    simp only [advance] at next
    split at next
    · rename_i hot
      exact ⟨n, rfl, hot⟩
    · cases next
  | claim => simp only [advance] at next; split at next <;> cases next
  | compile compiler => simp only [advance] at next; split at next <;> cases next
  | _ => cases next

/-- The task that claims a loop. -/
theorem of_claimed (claimed : (task.advance p chunk r).action = some .claimed) :
    task = .claim ∧ r.counter.state = .counting := by
  by_cases attempts : task.Attempts
  · cases task with
    | compile compiler => simp only [advance] at claimed; split at claimed <;> cases claimed
    | publish | install | reject | log => cases claimed
    | _ => exact absurd attempts id
  · obtain ⟨compiler, same, -, counting, -⟩ | ⟨-, none, -⟩ :=
      advance_of_not_attempts p chunk r attempts
    · exact ⟨same, counting⟩
    · rw [none] at claimed
      cases claimed

end Task

end

/-! ## The life of a loop -/

section

variable {V : Type} (policy : V → LoopPolicy) (chunk : Chunk)

/-- What the compiler of a machine has made of a loop, and the event that says so. -/
inductive Settled (v : V) (r : LoopRecord) : LoopEvent → Prop
  | installed {compiler : LoopCompiler} {code : CompiledLoop} : (policy v).active? = some compiler →
    compiler chunk r.range = .ok code → r.counter.state = .installed → r.compiled = some code →
    Settled v r (code.event chunk.name r.range)
  | rejected {compiler : LoopCompiler} {fault : Fault} : (policy v).active? = some compiler →
    compiler chunk r.range = .error fault → r.counter.state = .notPromotable → r.compiled = none →
    Settled v r (fault.loopEvent chunk.name r.range)

/-- An attempt of a machine to compile a loop: its next task, the record and what was done. -/
inductive Attempt (v : V) (r : LoopRecord) : Task → List (V × Action) → Prop
  | claimed {compiler : LoopCompiler} : (policy v).active? = some compiler →
    r.counter.state = .compiling → r.compiled = none →
    Attempt v r (.compile compiler) [(v, .claimed)]
  | accepted {compiler : LoopCompiler} {code : CompiledLoop} : (policy v).active? = some compiler →
    compiler chunk r.range = .ok code → r.counter.state = .compiling → r.compiled = none →
    Attempt v r (.publish code) [(v, .called), (v, .claimed)]
  | refused {compiler : LoopCompiler} {fault : Fault} : (policy v).active? = some compiler →
    compiler chunk r.range = .error fault → r.counter.state = .compiling → r.compiled = none →
    Attempt v r (.reject fault) [(v, .called), (v, .claimed)]
  | published {compiler : LoopCompiler} {code : CompiledLoop} : (policy v).active? = some compiler →
    compiler chunk r.range = .ok code → r.counter.state = .compiling → r.compiled = some code →
    Attempt v r (.install code) [(v, .called), (v, .claimed)]
  | settled {event : LoopEvent} : Settled policy chunk v r event →
    Attempt v r (.log event) [(v, .called), (v, .claimed)]

/-- The life of a loop: nobody has claimed it, or one machine is at work on it or done with it. -/
inductive Life (tasks : V → Option (Nat × Task)) (header : Nat) (r : LoopRecord) :
    List (V × Action) → Prop
  | unclaimed : (∀ w task, tasks w = some (header, task) → ¬task.Attempts) →
    r.counter.state = .counting → r.compiled = none → Life tasks header r []
  | attempted {v : V} {task : Task} {done : List (V × Action)} : tasks v = some (header, task) →
    (∀ w task', w ≠ v → tasks w = some (header, task') → ¬task'.Attempts) →
    Attempt policy chunk v r task done → Life tasks header r done
  | ended {v : V} {event : LoopEvent} :
    (∀ w task, tasks w = some (header, task) → ¬task.Attempts) →
    Settled policy chunk v r event →
    Life tasks header r [(v, .logged event), (v, .called), (v, .claimed)]

variable {policy chunk} {v : V} {r r' : LoopRecord} {header : Nat} {task : Task}
  {tasks tasks' : V → Option (Nat × Task)} {done : List (V × Action)}

theorem Settled.congr {event : LoopEvent} (h : Settled policy chunk v r event)
    (same : SameProgress r r') : Settled policy chunk v r' event := by
  obtain ⟨range, state, compiled⟩ := same
  cases h with
  | installed active accepts h₁ h₂ =>
    rw [← range] at accepts ⊢
    exact .installed active accepts (state.trans h₁) (compiled.trans h₂)
  | rejected active refuses h₁ h₂ =>
    rw [← range] at refuses ⊢
    exact .rejected active refuses (state.trans h₁) (compiled.trans h₂)

/-- The event says whether the compiler has accepted the loop. -/
theorem Settled.isCompiled_iff {event : LoopEvent} (h : Settled policy chunk v r event)
    {compiler : LoopCompiler} (active : (policy v).active? = some compiler) :
    event.isCompiled = true ↔ ∃ code, compiler chunk r.range = .ok code := by
  cases h with
  | @installed _ code active' accepts =>
    rw [active] at active'
    cases active'
    exact ⟨fun _ => ⟨code, accepts⟩, fun _ => rfl⟩
  | rejected active' refuses =>
    rw [active] at active'
    cases active'
    refine ⟨nofun, fun ⟨code, accepts⟩ => ?_⟩
    rw [refuses] at accepts
    cases accepts

theorem Attempt.congr (h : Attempt policy chunk v r task done) (same : SameProgress r r') :
    Attempt policy chunk v r' task done := by
  have same' := same
  obtain ⟨range, state, compiled⟩ := same'
  cases h with
  | claimed active h₁ h₂ => exact .claimed active (state.trans h₁) (compiled.trans h₂)
  | accepted active accepts h₁ h₂ =>
    exact .accepted active (range ▸ accepts) (state.trans h₁) (compiled.trans h₂)
  | refused active refuses h₁ h₂ =>
    exact .refused active (range ▸ refuses) (state.trans h₁) (compiled.trans h₂)
  | published active accepts h₁ h₂ =>
    exact .published active (range ▸ accepts) (state.trans h₁) (compiled.trans h₂)
  | settled settled => exact .settled (settled.congr same)

namespace Life

/-- Only the tasks of attempts matter to the life of a loop. -/
theorem congr (h : Life policy chunk tasks header r done) (same : SameProgress r r')
    (alike : ∀ w task, task.Attempts →
      (tasks' w = some (header, task) ↔ tasks w = some (header, task))) :
    Life policy chunk tasks' header r' done := by
  have rest : ∀ {w task}, (tasks w = some (header, task) → ¬task.Attempts) →
      tasks' w = some (header, task) → ¬task.Attempts :=
    fun none there attempts => none ((alike _ _ attempts).mp there) attempts
  cases h with
  | unclaimed none state compiled =>
    exact .unclaimed (fun w task => rest (none w task)) (same.state.trans state)
      (same.compiled.trans compiled)
  | @attempted v task _ here others attempt =>
    have attempts : task.Attempts := by cases attempt <;> trivial
    exact .attempted ((alike v task attempts).mpr here) (fun w task' ne => rest (others w task' ne))
      (attempt.congr same)
  | ended none settled => exact .ended (fun w task => rest (none w task)) (settled.congr same)

/-- While a loop is counting, nobody has claimed it. -/
theorem of_counting (h : Life policy chunk tasks header r done)
    (counting : r.counter.state = .counting) :
    done = [] ∧ r.compiled = none ∧ ∀ w task, tasks w = some (header, task) → ¬task.Attempts := by
  have other : ∀ {state : LoopState}, r.counter.state = state → state ≠ .counting → False :=
    fun same ne => ne (same.symm.trans counting)
  cases h with
  | unclaimed none _ compiled => exact ⟨rfl, compiled, none⟩
  | attempted _ _ attempt =>
    cases attempt with
    | claimed _ state => exact (other state nofun).elim
    | accepted _ _ state | refused _ _ state | published _ _ state => exact (other state nofun).elim
    | settled settled =>
      cases settled with
      | installed _ _ state | rejected _ _ state => exact (other state nofun).elim
  | ended _ settled =>
    cases settled with
    | installed _ _ state | rejected _ _ state => exact (other state nofun).elim

/-- A machine that does a task of an attempt is the only one. -/
theorem of_attempts (h : Life policy chunk tasks header r done)
    (here : tasks v = some (header, task)) (attempts : task.Attempts) :
    Attempt policy chunk v r task done ∧
      ∀ w task', w ≠ v → tasks w = some (header, task') → ¬task'.Attempts := by
  cases h with
  | unclaimed none => exact absurd attempts (none v task here)
  | ended none => exact absurd attempts (none v task here)
  | @attempted v' task' _ there others attempt =>
    by_cases same : v = v'
    · subst same
      rw [here] at there
      cases there
      exact ⟨attempt, others⟩
    · exact absurd attempts (others v task same here)

end Life

/-- **A task of an attempt** leads to the next one or ends the attempt. -/
theorem Attempt.advance (h : Attempt policy chunk v r task done) :
    (∃ next, (task.advance (policy v) chunk r).next = some next ∧ next.Attempts ∧
      Attempt policy chunk v (task.advance (policy v) chunk r).record next
        ((task.advance (policy v) chunk r).action.toList.map (v, ·) ++ done)) ∨
    ∃ event, (task.advance (policy v) chunk r).next = none ∧
      Settled policy chunk v (task.advance (policy v) chunk r).record event ∧
      (task.advance (policy v) chunk r).action.toList.map (v, ·) ++ done =
        [(v, .logged event), (v, .called), (v, .claimed)] := by
  cases h with
  | @claimed compiler active state compiled =>
    refine .inl ?_
    cases answer : compiler chunk r.range with
    | ok code =>
      simp only [Task.advance, answer]
      exact ⟨_, rfl, trivial, .accepted active answer state compiled⟩
    | error fault =>
      simp only [Task.advance, answer]
      exact ⟨_, rfl, trivial, .refused active answer state compiled⟩
  | @accepted compiler code active accepts state compiled =>
    refine .inl ⟨.install code, rfl, trivial, .published active accepts state ?_⟩
    simp only [Task.advance, LoopRecord.publish, compiled]
    rfl
  | refused active refuses state compiled =>
    exact .inl ⟨_, rfl, trivial, .settled (.rejected active refuses rfl compiled)⟩
  | published active accepts state compiled =>
    exact .inl ⟨_, rfl, trivial, .settled (.installed active accepts rfl compiled)⟩
  | @settled event settled => exact .inr ⟨event, rfl, settled, rfl⟩

theorem Attempt.follows (h : Attempt policy chunk v r task done) :
    r.Follows (task.advance (policy v) chunk r).record := by
  cases h with
  | @claimed compiler =>
    simp only [Task.advance]
    split <;> exact .refl r
  | accepted _ _ state compiled =>
    exact ⟨rfl, Nat.le_refl _, .stay _, fun code there => nomatch compiled.symm.trans there⟩
  | refused _ _ state => exact ⟨rfl, Nat.le_refl _, by rw [state]; exact .reject, fun _ h => h⟩
  | published _ _ state => exact ⟨rfl, Nat.le_refl _, by rw [state]; exact .install, fun _ h => h⟩
  | settled => exact .refl r

/-- What a task does to the record of its loop. -/
theorem Life.follows {tasks : V → Option (Nat × Task)} {done : List (V × Action)}
    (life : Life policy chunk tasks header r done) (busy : tasks v = some (header, task)) :
    r.Follows (task.advance (policy v) chunk r).record := by
  by_cases attempts : task.Attempts
  · exact (life.of_attempts busy attempts).1.follows
  · refine ⟨task.advance_range, task.le_count, ?_, ?_⟩
    all_goals
      obtain ⟨compiler, -, -, counting, result⟩ | ⟨same, -⟩ :=
        Task.advance_of_not_attempts (policy v) chunk r attempts
    · rw [result, counting]
      exact .claim
    · rw [same.state]
      exact .stay _
    · rw [result]
      exact fun _ h => h
    · rw [same.compiled]
      exact fun _ h => h

end

/-! ## Interleaving -/

section

variable {V : Type} [DecidableEq V] (policy : V → LoopPolicy) (chunk : Chunk)

/-- Machines that share the records of a function. -/
structure System (V : Type) where
  /-- The records by header. -/
  records : Nat → Option LoopRecord
  /-- The headers of the loops that machines are at, with what they do next there. -/
  tasks : V → Option (Nat × Task)

/-- What machines did about loops, the last first. -/
abbrev Trace (V : Type) := List (V × Nat × Action)

/-- What was done about the loop at a header. -/
def Trace.history {V : Type} (header : Nat) (trace : Trace V) : List (V × Action) :=
  (trace.filter fun entry => entry.2.1 = header).map fun entry => (entry.1, entry.2.2)

namespace System

/-- Machines that have not begun. -/
def start (V : Type) (records : Nat → Option LoopRecord) : System V := ⟨records, fun _ => none⟩

/-- A machine comes to a backward branch. Only where there is no code for the loop is there anything
to do about it. -/
def enter (sys : System V) (v : V) (header : Nat) (r : LoopRecord) : System V :=
  { sys with
    tasks := update sys.tasks v (if r.compiled.isSome then none else some (header, .count)) }

/-- A machine does its task. -/
def advance (sys : System V) (v : V) (header : Nat) (a : Advance) : System V :=
  ⟨update sys.records header (some a.record), update sys.tasks v (a.next.map (header, ·))⟩

end System

/-- One atomic step of a machine, with what is recorded of it. -/
inductive Step : System V → V → Option (Nat × Action) → System V → Prop
  | enter {sys : System V} {v : V} {header : Nat} {r : LoopRecord} : sys.tasks v = none →
    sys.records header = some r → Step sys v none (sys.enter v header r)
  | advance {sys : System V} {v : V} {header : Nat} {task : Task} {r : LoopRecord} :
    sys.tasks v = some (header, task) → sys.records header = some r →
    Step sys v ((task.advance (policy v) chunk r).action.map (header, ·))
      (sys.advance v header (task.advance (policy v) chunk r))

/-- What is done about loops in any sequence of steps of any machines. -/
inductive Runs : System V → Trace V → System V → Prop
  | refl (sys : System V) : Runs sys [] sys
  | step {sys sys' sys'' : System V} {trace : Trace V} {v : V} {a : Option (Nat × Action)} :
    Runs sys trace sys' → Step policy chunk sys' v a sys'' →
    Runs sys (a.toList.map (v, ·) ++ trace) sys''

/-- What holds of machines that have left a trace. -/
structure System.Sound (trace : Trace V) (sys : System V) : Prop where
  range : ∀ header r, sys.records header = some r → r.range.header = header
  /-- A count at hand is not above the count of the record, which only grows. -/
  test : ∀ v header n r, sys.tasks v = some (header, .test n) → sys.records header = some r →
    n ≤ r.counter.count
  claim : ∀ v header r, sys.tasks v = some (header, .claim) → sys.records header = some r →
    (policy v).threshold ≤ r.counter.count
  life : ∀ header r, sys.records header = some r →
    Life policy chunk sys.tasks header r (trace.history header)

variable {policy chunk} {sys sys' : System V} {v : V} {header : Nat} {task : Task} {r : LoopRecord}
  {trace : Trace V} {a : Option (Nat × Action)}

omit [DecidableEq V] in
theorem history_of_ne {other : Nat} (ne : header ≠ other) (a : Option Action) :
    Trace.history other ((a.map (header, ·)).toList.map (v, ·) ++ trace) = trace.history other := by
  cases a with
  | none => rfl
  | some a => simp [Trace.history, ne]

omit [DecidableEq V] in
theorem history_self (a : Option Action) :
    Trace.history header ((a.map (header, ·)).toList.map (v, ·) ++ trace) =
      a.toList.map (v, ·) ++ trace.history header := by
  cases a with
  | none => rfl
  | some a => simp [Trace.history]

omit [DecidableEq V] in
/-- The machines have not done anything yet. -/
theorem System.sound_start {records : Nat → Option LoopRecord}
    (fresh : ∀ header r, records header = some r → r = .start r.range ∧ r.range.header = header) :
    (System.start V records).Sound policy chunk [] where
  range header r hr := (fresh header r hr).2
  test v header n r busy := nomatch busy
  claim v header r busy := nomatch busy
  life header r hr := by
    obtain ⟨same, -⟩ := fresh header r hr
    rw [same]
    exact .unclaimed (fun w task busy => nomatch busy) rfl rfl

/-! ### Steps -/

namespace System

variable {w : V} {other : Nat} {x : Advance}

@[simp] theorem tasks_enter_self : (sys.enter v header r).tasks v =
    if r.compiled.isSome then none else some (header, .count) := Function.update_self ..

theorem tasks_enter_of_ne (ne : w ≠ v) : (sys.enter v header r).tasks w = sys.tasks w :=
  Function.update_of_ne ne ..

@[simp] theorem records_advance_self : (sys.advance v header x).records header = some x.record :=
  Function.update_self ..

theorem records_advance_of_ne (ne : other ≠ header) :
    (sys.advance v header x).records other = sys.records other := Function.update_of_ne ne ..

@[simp] theorem tasks_advance_self :
    (sys.advance v header x).tasks v = x.next.map (header, ·) := Function.update_self ..

theorem tasks_advance_of_ne (ne : w ≠ v) : (sys.advance v header x).tasks w = sys.tasks w :=
  Function.update_of_ne ne ..

end System

/-- A machine at a loop is at no other. -/
theorem map_ne_of_ne {other : Nat} (ne : header ≠ other) (task? : Option Task) :
    task?.map (header, ·) ≠ some (other, task) := by
  intro there
  obtain ⟨_, -, same⟩ := Option.map_eq_some_iff.mp there
  exact ne (Prod.mk.inj same).1

/-- The records after a step: only that of the task of the machine is another. -/
theorem Step.of_record (step : Step policy chunk sys v a sys') {header : Nat} {r' : LoopRecord}
    (found : sys'.records header = some r') :
    sys.records header = some r' ∨ ∃ task r, sys.tasks v = some (header, task) ∧
      sys.records header = some r ∧ r' = (task.advance (policy v) chunk r).record := by
  cases step with
  | enter => exact .inl found
  | @advance h task r busy here =>
    by_cases same : header = h
    · subst same
      rw [System.records_advance_self, Option.some.injEq] at found
      exact .inr ⟨task, r, busy, here, found.symm⟩
    · exact .inl ((System.records_advance_of_ne same).symm.trans found)

/-- The tasks after a step: that of the machine is the first or the next one. -/
theorem Step.of_task (step : Step policy chunk sys v a sys') {w : V} {header : Nat} {next : Task}
    (there : sys'.tasks w = some (header, next)) :
    sys.tasks w = some (header, next) ∨ next = .count ∨ w = v ∧ ∃ task r,
      sys.tasks v = some (header, task) ∧ sys.records header = some r ∧
      sys'.records header = some (task.advance (policy v) chunk r).record ∧
      (task.advance (policy v) chunk r).next = some next := by
  cases step with
  | @enter h r idle found =>
    by_cases same : w = v
    · subst same
      rw [System.tasks_enter_self] at there
      split at there
      · cases there
      · cases there
        exact .inr (.inl rfl)
    · exact .inl ((System.tasks_enter_of_ne same).symm.trans there)
  | @advance h task r busy found =>
    by_cases same : w = v
    · subst same
      rw [System.tasks_advance_self] at there
      obtain ⟨next', hnext, same⟩ := Option.map_eq_some_iff.mp there
      cases same
      exact .inr (.inr ⟨rfl, task, r, busy, found, System.records_advance_self, hnext⟩)
    · exact .inl ((System.tasks_advance_of_ne same).symm.trans there)

/-- Records are kept, and their counts do not fall. -/
theorem Step.grows (step : Step policy chunk sys v a sys') {header : Nat} {r' : LoopRecord}
    (found : sys'.records header = some r') :
    ∃ r, sys.records header = some r ∧ r.counter.count ≤ r'.counter.count := by
  obtain same | ⟨task, r, -, here, rfl⟩ := step.of_record found
  · exact ⟨r', same, Nat.le_refl _⟩
  · exact ⟨r, here, task.le_count⟩

namespace Life

variable {done : List (V × Action)}

/-- Whoever begins at a backward branch has not claimed anything. -/
theorem enter (life : Life policy chunk sys.tasks header r done) (idle : sys.tasks v = none)
    {h : Nat} {r₀ : LoopRecord} : Life policy chunk (sys.enter v h r₀).tasks header r done := by
  refine life.congr ⟨rfl, rfl, rfl⟩ fun w task attempts => ?_
  by_cases same : w = v
  · subst same
    simp only [System.tasks_enter_self, idle, reduceCtorEq, iff_false]
    split
    · nofun
    · intro there
      cases there
      exact attempts
  · rw [System.tasks_enter_of_ne same]

/-- A task at one loop is no part of the life of another. -/
theorem elsewhere (life : Life policy chunk sys.tasks header r done) {h : Nat}
    (busy : sys.tasks v = some (h, task)) (ne : h ≠ header) {x : Advance} :
    Life policy chunk (sys.advance v h x).tasks header r done := by
  refine life.congr ⟨rfl, rfl, rfl⟩ fun w task' _ => ?_
  by_cases same : w = v
  · subst same
    rw [System.tasks_advance_self, busy]
    exact iff_of_false (map_ne_of_ne ne _) (map_ne_of_ne ne (some task))
  · rw [System.tasks_advance_of_ne same]

/-- A task of an attempt continues the life of its loop. -/
theorem advance_of_attempts (life : Life policy chunk sys.tasks header r done)
    (busy : sys.tasks v = some (header, task)) (attempts : task.Attempts) :
    Life policy chunk (sys.advance v header (task.advance (policy v) chunk r)).tasks header
      (task.advance (policy v) chunk r).record
      ((task.advance (policy v) chunk r).action.toList.map (v, ·) ++ done) := by
  obtain ⟨attempt, alone⟩ := life.of_attempts busy attempts
  have rest : ∀ w task', w ≠ v →
      (sys.advance v header (task.advance (policy v) chunk r)).tasks w = some (header, task') →
      ¬task'.Attempts :=
    fun w task' ne there => alone w task' ne ((System.tasks_advance_of_ne ne).symm.trans there)
  obtain ⟨next, hnext, -, attempt⟩ | ⟨event, none, settled, done⟩ := attempt.advance
  · exact .attempted (by rw [System.tasks_advance_self, hnext]; rfl) rest attempt
  · rw [done]
    refine .ended (fun w task' there => ?_) settled
    by_cases same : w = v
    · subst same
      rw [System.tasks_advance_self, none] at there
      cases there
    · exact rest w task' same there

/-- A task that is no part of an attempt leaves the life of its loop as it is, unless it is the
claim of a loop that is counting. -/
theorem advance_of_not_attempts (life : Life policy chunk sys.tasks header r done)
    (busy : sys.tasks v = some (header, task)) (idle : ¬task.Attempts) :
    Life policy chunk (sys.advance v header (task.advance (policy v) chunk r)).tasks header
      (task.advance (policy v) chunk r).record
      ((task.advance (policy v) chunk r).action.toList.map (v, ·) ++ done) := by
  obtain ⟨compiler, rfl, active, counting, result⟩ | ⟨progress, none, still⟩ :=
    Task.advance_of_not_attempts (policy v) chunk r idle
  · obtain ⟨rfl, compiled, nobody⟩ := life.of_counting counting
    rw [result]
    exact .attempted System.tasks_advance_self
      (fun w task' ne there => nobody w task' ((System.tasks_advance_of_ne ne).symm.trans there))
      (.claimed active rfl compiled)
  · rw [none]
    refine life.congr progress fun w task' attempts => ?_
    by_cases same : w = v
    · subst same
      rw [System.tasks_advance_self, busy]
      refine iff_of_false (fun there => ?_) (fun there => ?_)
      · obtain ⟨next, hnext, eq⟩ := Option.map_eq_some_iff.mp there
        cases eq
        exact still _ hnext attempts
      · cases there
        exact idle attempts
    · rw [System.tasks_advance_of_ne same]

/-- **Every task continues the life of its loop.** -/
theorem advance (life : Life policy chunk sys.tasks header r done)
    (busy : sys.tasks v = some (header, task)) :
    Life policy chunk (sys.advance v header (task.advance (policy v) chunk r)).tasks header
      (task.advance (policy v) chunk r).record
      ((task.advance (policy v) chunk r).action.toList.map (v, ·) ++ done) := by
  by_cases attempts : task.Attempts
  · exact life.advance_of_attempts busy attempts
  · exact life.advance_of_not_attempts busy attempts

end Life

namespace System.Sound

theorem range_step (sound : sys.Sound policy chunk trace) (step : Step policy chunk sys v a sys')
    {header : Nat} {r' : LoopRecord} (found : sys'.records header = some r') :
    r'.range.header = header := by
  obtain same | ⟨task, r, -, here, rfl⟩ := step.of_record found
  · exact sound.range header r' same
  · exact (congrArg LoopRange.header task.advance_range).trans (sound.range header r here)

theorem test_step (sound : sys.Sound policy chunk trace) (step : Step policy chunk sys v a sys')
    {w : V} {header n : Nat} {r' : LoopRecord} (there : sys'.tasks w = some (header, .test n))
    (found : sys'.records header = some r') : n ≤ r'.counter.count := by
  obtain before | first | ⟨-, task, r, busy, here, found', next⟩ := step.of_task there
  · obtain ⟨r, here, grows⟩ := step.grows found
    exact Nat.le_trans (sound.test w header n r before here) grows
  · cases first
  · obtain ⟨rfl, rfl⟩ := Task.of_test next
    rw [found'] at found
    cases found
    exact Nat.le_refl _

theorem claim_step (sound : sys.Sound policy chunk trace) (step : Step policy chunk sys v a sys')
    {w : V} {header : Nat} {r' : LoopRecord} (there : sys'.tasks w = some (header, .claim))
    (found : sys'.records header = some r') : (policy w).threshold ≤ r'.counter.count := by
  obtain ⟨r₀, here₀, grows⟩ := step.grows found
  obtain before | first | ⟨rfl, task, r, busy, here, -, next⟩ := step.of_task there
  · exact Nat.le_trans (sound.claim w header r₀ before here₀) grows
  · cases first
  · obtain ⟨n, rfl, hot, -⟩ := Task.of_claim next
    rw [here] at here₀
    cases here₀
    exact Nat.le_trans (Nat.le_trans hot (sound.test w header n r₀ busy here)) grows

theorem life_step (sound : sys.Sound policy chunk trace) (step : Step policy chunk sys v a sys')
    {header : Nat} {r' : LoopRecord} (found : sys'.records header = some r') :
    Life policy chunk sys'.tasks header r'
      (Trace.history header (a.toList.map (v, ·) ++ trace)) := by
  cases step with
  | enter idle => exact (sound.life header r' found).enter idle
  | @advance h task r busy here =>
    by_cases same : h = header
    · subst same
      rw [System.records_advance_self, Option.some.injEq] at found
      rw [history_self, ← found]
      exact (sound.life h r here).advance busy
    · rw [System.records_advance_of_ne fun eq => same eq.symm] at found
      rw [history_of_ne same]
      exact (sound.life header r' found).elsewhere busy same

/-- **Every step keeps the system sound.** -/
theorem step (sound : sys.Sound policy chunk trace) (step : Step policy chunk sys v a sys') :
    sys'.Sound policy chunk (a.toList.map (v, ·) ++ trace) where
  range _ _ found := sound.range_step step found
  test _ _ _ _ there found := sound.test_step step there found
  claim _ _ _ there found := sound.claim_step step there found
  life _ _ found := sound.life_step step found

end System.Sound

/-- **Every run keeps the system sound.** -/
theorem Runs.sound {before : Trace V} (sound : sys.Sound policy chunk before)
    (runs : Runs policy chunk sys trace sys') : sys'.Sound policy chunk (trace ++ before) := by
  induction runs with
  | refl => exact sound
  | step _ step ih => exact List.append_assoc _ _ before ▸ ih.step step

/-! ### Progress -/

/-- No record is lost in a step. -/
theorem Step.keeps (step : Step policy chunk sys v a sys') {header : Nat} {r : LoopRecord}
    (found : sys.records header = some r) : ∃ r', sys'.records header = some r' := by
  cases step with
  | enter => exact ⟨r, found⟩
  | @advance h task r₀ busy here =>
    by_cases same : header = h
    · subst same
      exact ⟨_, System.records_advance_self⟩
    · exact ⟨r, (System.records_advance_of_ne same).trans found⟩

/-- **A step lets every record go on.** -/
theorem Step.follows (sound : sys.Sound policy chunk trace) (step : Step policy chunk sys v a sys')
    {header : Nat} {r r' : LoopRecord} (before : sys.records header = some r)
    (after : sys'.records header = some r') : r.Follows r' := by
  obtain same | ⟨task, r₀, busy, here, rfl⟩ := step.of_record after
  · rw [before] at same
    cases same
    exact .refl r
  · rw [before] at here
    cases here
    exact (sound.life header r before).follows busy

/-- **A run lets every record go on.** -/
theorem Runs.becomes {before : Trace V} (sound : sys.Sound policy chunk before)
    (runs : Runs policy chunk sys trace sys') {header : Nat} {r : LoopRecord}
    (found : sys.records header = some r) :
    ∃ r', sys'.records header = some r' ∧ r.Becomes r' := by
  induction runs with
  | refl => exact ⟨r, found, .refl⟩
  | step runs step ih =>
    obtain ⟨r₁, found₁, becomes⟩ := ih
    obtain ⟨r₂, found₂⟩ := step.keeps found₁
    exact ⟨r₂, found₂, .tail becomes (step.follows (runs.sound sound) found₁ found₂)⟩

omit [DecidableEq V] in
/-- What was done about a loop is the beginning of one attempt. -/
theorem Life.history {tasks : V → Option (Nat × Task)} {done : List (V × Action)}
    (life : Life policy chunk tasks header r done) :
    done = [] ∨ ∃ v event, done <:+ [(v, .logged event), (v, .called), (v, .claimed)] := by
  cases life with
  | unclaimed => exact .inl rfl
  | @attempted v _ _ _ _ attempt =>
    refine .inr ⟨v, .rejected "" 0 "", ?_⟩
    cases attempt with
    | claimed => exact ⟨[(v, _), (v, .called)], rfl⟩
    | accepted | refused | published | settled => exact ⟨[(v, _)], rfl⟩
  | ended => exact .inr ⟨_, _, List.suffix_refl _⟩

omit [DecidableEq V] in
/-- There is code for installed loops and none for loops that are given up. -/
theorem Life.code {tasks : V → Option (Nat × Task)} {done : List (V × Action)}
    (life : Life policy chunk tasks header r done) :
    (r.counter.state = .installed → r.compiled.isSome = true) ∧
      (r.counter.state = .notPromotable → r.compiled = none) := by
  have of_settled : ∀ {v event}, Settled policy chunk v r event →
      (r.counter.state = .installed → r.compiled.isSome = true) ∧
        (r.counter.state = .notPromotable → r.compiled = none) := by
    intro v event settled
    cases settled with
    | installed _ _ state compiled => rw [state, compiled]; exact ⟨fun _ => rfl, nofun⟩
    | rejected _ _ state compiled => rw [state, compiled]; exact ⟨nofun, fun _ => rfl⟩
  cases life with
  | unclaimed _ state compiled => rw [state]; exact ⟨nofun, nofun⟩
  | attempted _ _ attempt =>
    cases attempt with
    | claimed _ state => rw [state]; exact ⟨nofun, nofun⟩
    | accepted _ _ state | refused _ _ state | published _ _ state =>
      rw [state]; exact ⟨nofun, nofun⟩
    | settled settled => exact of_settled settled
  | ended _ settled => exact of_settled settled

theorem Step.claimed {header : Nat}
    (step : Step policy chunk sys v (some (header, .claimed)) sys') :
    sys.tasks v = some (header, .claim) ∧
      ∀ r, sys.records header = some r → r.counter.state = .counting := by
  generalize act : some (header, Action.claimed) = a at step
  cases step with
  | enter => cases act
  | @advance h task r busy found =>
    obtain ⟨action, claimed, same⟩ := Option.map_eq_some_iff.mp act.symm
    cases same
    obtain ⟨rfl, counting⟩ := Task.of_claimed claimed
    refine ⟨busy, fun r' found' => ?_⟩
    rw [found] at found'
    cases found'
    exact counting

/-! ### One machine -/

/-- Where a machine that is alone stands with a loop, which is due at a count. -/
inductive Paced (due header : Nat) (task? : Option (Nat × Task)) (r : LoopRecord) : Prop
  | early : r.counter.state = .counting → r.counter.count < due →
    (∀ n, task? ≠ some (header, .test n)) → task? ≠ some (header, .claim) →
    Paced due header task? r
  | counted : r.counter.state = .counting → task? = some (header, .test r.counter.count) →
    1 ≤ r.counter.count → r.counter.count ≤ due → Paced due header task? r
  | due : r.counter.state = .counting → task? = some (header, .claim) → r.counter.count = due →
    Paced due header task? r
  | past : r.counter.state ≠ .counting → due ≤ r.counter.count → Paced due header task? r

namespace Paced

variable {p : LoopPolicy}

omit [DecidableEq V] in
theorem congr {due : Nat} {task? task?' : Option (Nat × Task)} (h : Paced due header task? r)
    (here : ∀ task, task? ≠ some (header, task))
    (test : ∀ n, task?' ≠ some (header, .test n)) (claim : task?' ≠ some (header, .claim)) :
    Paced due header task?' r := by
  cases h with
  | early counting early => exact .early counting early test claim
  | counted _ busy | due _ busy => exact absurd busy (here _)
  | past claimed late => exact .past claimed late

omit [DecidableEq V] in
theorem advance (h : Paced p.due header (some (header, task)) r) (active : p.active?.isSome = true)
    (attempt : task.Attempts → r.counter.state ≠ .counting)
    (follows : r.Follows (task.advance p chunk r).record) :
    Paced p.due header ((task.advance p chunk r).next.map (header, ·))
      (task.advance p chunk r).record := by
  have late : p.due = max p.threshold 1 := rfl
  cases h with
  | early counting early no_test no_claim =>
    cases task with
    | count => exact .counted counting rfl (Nat.le_add_left 1 _) early
    | test n => exact absurd rfl (no_test n)
    | claim => exact absurd rfl no_claim
    | _ => exact absurd counting (attempt trivial)
  | counted counting busy one count =>
    cases busy
    by_cases hot : p.threshold ≤ r.counter.count
    · simp only [Task.advance, hot, counting, true_and, if_true]
      exact .due counting rfl (by omega)
    · simp only [Task.advance, hot, false_and, if_false]
      exact .early counting (by omega) nofun nofun
  | due counting busy count =>
    cases busy
    obtain ⟨compiler, active⟩ := Option.isSome_iff_exists.mp active
    simp only [Task.advance, active, HotCounter.claim?, counting, if_true]
    exact .past nofun (Nat.le_of_eq count.symm)
  | past claimed late =>
    refine .past (fun counting => claimed ?_) (Nat.le_trans late follows.count)
    have moved := follows.state
    rw [counting] at moved
    generalize r.counter.state = before at moved
    cases moved with
    | stay => rfl

end Paced

theorem Step.paced (sound : sys.Sound policy chunk trace) (step : Step policy chunk sys v a sys')
    (active : (policy v).active?.isSome = true)
    (paced : ∀ header r, sys.records header = some r → Paced (policy v).due header (sys.tasks v) r)
    {header : Nat} {r' : LoopRecord} (found : sys'.records header = some r') :
    Paced (policy v).due header (sys'.tasks v) r' := by
  cases step with
  | @enter h r idle here =>
    rw [System.tasks_enter_self]
    refine (paced header r' found).congr (fun task busy => ?_) (fun n => ?_) ?_
    · rw [idle] at busy
      cases busy
    all_goals split <;> nofun
  | @advance h task r busy here =>
    rw [System.tasks_advance_self]
    by_cases same : h = header
    · subst same
      rw [System.records_advance_self, Option.some.injEq] at found
      subst found
      have life := sound.life h r here
      refine (busy ▸ paced h r here).advance active (fun attempts counting => ?_)
        (life.follows busy)
      obtain ⟨-, -, nobody⟩ := life.of_counting counting
      exact nobody v task busy attempts
    · rw [System.records_advance_of_ne fun eq => same eq.symm] at found
      refine (paced header r' found).congr (fun t => ?_) (fun n => map_ne_of_ne same _)
        (map_ne_of_ne same _)
      rw [busy]
      exact map_ne_of_ne same (some task)

/-- **A machine alone keeps pace**: it claims a loop when it is due, not before and not later. -/
theorem Runs.paced {records : Nat → Option LoopRecord}
    (fresh : ∀ header r, records header = some r → r = .start r.range ∧ r.range.header = header)
    (runs : Runs policy chunk (.start V records) trace sys) (alone : ∀ w, w = v)
    (active : (policy v).active?.isSome = true) {header : Nat} {r : LoopRecord}
    (found : sys.records header = some r) : Paced (policy v).due header (sys.tasks v) r := by
  generalize begin : System.start V records = start at runs
  induction runs generalizing header r with
  | refl =>
    subst begin
    obtain ⟨new, -⟩ := fresh header r found
    refine .early (by rw [new]; rfl) ?_ nofun nofun
    rw [new]
    exact Nat.lt_of_lt_of_le Nat.one_pos (Nat.le_max_right _ 1)
  | @step _ _ _ w _ runs step ih =>
    subst begin
    cases alone w
    exact step.paced (runs.sound (System.sound_start fresh)) active (fun _ _ => ih) found

omit [DecidableEq V] in
/-- A machine alone claims a loop when it is due. -/
theorem Paced.of_claimed {due : Nat} (h : Paced due header (some (header, .claim)) r)
    (counting : r.counter.state = .counting) : r.counter.count = due := by
  cases h with
  | early _ _ _ no_claim => exact absurd rfl no_claim
  | counted _ busy => cases busy
  | due _ _ count => exact count
  | past claimed => exact absurd counting claimed

omit [DecidableEq V] in
/-- Between backward branches a machine alone is done with the loops that are due, and with no
other. -/
theorem Paced.of_idle {due : Nat} {tasks : V → Option (Nat × Task)} {done : List (V × Action)}
    (h : Paced due header (tasks v) r) (life : Life policy chunk tasks header r done)
    (alone : ∀ w, w = v) (idle : tasks v = none) :
    (r.counter.count < due → done = []) ∧ (due ≤ r.counter.count → ∃ event,
      Settled policy chunk v r event ∧
      done = [(v, .logged event), (v, .called), (v, .claimed)]) := by
  rw [idle] at h
  cases h with
  | early counting early =>
    exact ⟨fun _ => (life.of_counting counting).1, fun late => absurd late (Nat.not_le_of_lt early)⟩
  | counted _ busy | due _ busy => cases busy
  | past claimed late =>
    refine ⟨fun early => absurd late (Nat.not_le_of_lt early), fun _ => ?_⟩
    cases life with
    | unclaimed _ counting => exact absurd counting claimed
    | @attempted w _ _ busy =>
      cases alone w
      rw [idle] at busy
      cases busy
    | @ended w event _ settled =>
      cases alone w
      exact ⟨event, settled, rfl⟩

end

end Promotion

end RegisterVm
