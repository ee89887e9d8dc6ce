import RegisterVm.Proofs.Loop.Protocol
import RegisterVm.Proofs.Machine.Promotion

/-!
# Machines that share a function

A machine that is not interfered with at a backward branch does one round of the tasks of the
protocol (`backEdge_works`), so what holds of every interleaving holds of machines that run a loaded
function in any way. Main statement: `Promotion.shared_loops`.
-/

namespace RegisterVm

open Function (update)

/-! ## Records of a loaded function -/

namespace Library

variable {l : Library} {id : FunctionId} {f : LoadedFunction}

theorem recordOf?_setRecord (r : LoopRecord) (header : Nat) :
    (l.setRecord id r).recordOf? id f header =
      if r.range.header = header then some r else l.recordOf? id f header := by
  simp only [recordOf?, record?_setRecord, true_and]
  by_cases same : r.range.header = header
  · simp only [if_pos same]
  · simp only [if_neg same]

mutual

theorem records_load (l : Library) : (c : Chunk) → (l.load c).2.records = l.records
  | ⟨_, _, _, _, _, nested⟩ => records_loadAll l nested

theorem records_loadAll (l : Library) : (cs : List Chunk) → (l.loadAll cs).2.records = l.records
  | [] => rfl
  | c :: cs => (records_loadAll _ cs).trans (records_load l c)

end

/-- A function that has just been loaded has new records only. -/
theorem recordOf?_load (sound : l.Sound) (c : Chunk) (new : l.functions.size ≤ id) {header : Nat}
    {r : LoopRecord} (found : (l.load c).2.recordOf? id f header = some r) :
    r = .start r.range ∧ r.range.header = header := by
  have none : (l.load c).2.record? id header = none := by
    rw [record?, records_load]
    refine Option.eq_none_iff_forall_ne_some.mpr fun old there => ?_
    obtain ⟨-, g, hg, -⟩ := sound.record id header old there
    have := (Array.getElem?_eq_some_iff.mp hg).1
    omega
  simp only [recordOf?, none] at found
  obtain ⟨range, there, rfl⟩ := Option.map_eq_some_iff.mp found
  have same := List.find?_some there
  exact ⟨rfl, of_decide_eq_true same⟩

end Library

/-! ## Rounds -/

namespace Promotion

/-- The work of one machine at one loop, from a task to the end, without interference. -/
inductive Works (p : LoopPolicy) (chunk : Chunk) :
    Option Task → LoopRecord → List Action → LoopRecord → Prop
  | rest (r : LoopRecord) : Works p chunk none r [] r
  | task {task : Task} {r r' : LoopRecord} {actions : List Action} :
    Works p chunk (task.advance p chunk r).next (task.advance p chunk r).record actions r' →
    Works p chunk (some task) r ((task.advance p chunk r).action.toList ++ actions) r'

def Action.event? : Action → Option LoopEvent
  | logged event => some event
  | _ => none

section

variable {V : Type} [DecidableEq V] {policy : V → LoopPolicy} {chunk : Chunk}
  {sys sys' sys'' : System V} {trace trace' : Trace V} {v : V}

theorem Runs.trans (first : Runs policy chunk sys trace sys')
    (second : Runs policy chunk sys' trace' sys'') :
    Runs policy chunk sys (trace' ++ trace) sys'' := by
  induction second with
  | refl => exact first
  | step _ step ih => exact List.append_assoc _ _ trace ▸ .step ih step

/-- Work without interference is a run. -/
theorem Works.runs {task? : Option Task} {header : Nat} {r r' : LoopRecord} {actions : List Action}
    (works : Works (policy v) chunk task? r actions r') (found : sys.records header = some r)
    (busy : sys.tasks v = task?.map (header, ·)) :
    Runs policy chunk sys (actions.reverse.map fun a => (v, header, a))
      ⟨update sys.records header (some r'), update sys.tasks v none⟩ := by
  induction works generalizing sys with
  | rest r =>
    have idle : sys.tasks v = none := busy
    have same :
        (⟨update sys.records header (some r), update sys.tasks v none⟩ : System V) = sys := by
      rw [← found, Function.update_eq_self, ← idle, Function.update_eq_self]
    rw [same]
    exact .refl sys
  | @task task r r' actions works ih =>
    have step : Runs policy chunk sys _ (sys.advance v header (task.advance (policy v) chunk r)) :=
      .step (.refl sys) (.advance busy found)
    have rest := @ih (sys.advance v header (task.advance (policy v) chunk r))
      (Function.update_self ..) (Function.update_self ..)
    simp only [System.advance, Function.update_idem] at rest
    have entries : (((task.advance (policy v) chunk r).action.toList ++ actions).reverse.map
        fun a => (v, header, a)) = (actions.reverse.map fun a => (v, header, a)) ++
          (((task.advance (policy v) chunk r).action.map (header, ·)).toList.map (v, ·) ++ []) := by
      cases (task.advance (policy v) chunk r).action <;> simp
    rw [entries]
    exact step.trans rest

end

theorem Works.of_eq {p : LoopPolicy} {chunk : Chunk} {task : Task} {next : Option Task}
    {r r₁ r' : LoopRecord} {action : Option Action} {actions : List Action}
    (advance : task.advance p chunk r = ⟨next, r₁, action⟩)
    (works : Works p chunk next r₁ actions r') :
    Works p chunk (some task) r (action.toList ++ actions) r' := by
  have step := @Works.task p chunk task r r' actions
  rw [advance] at step
  exact step works

variable {m : Machine} {id : FunctionId} {f : LoadedFunction} {header : Nat} {record : LoopRecord}

/-- Compiling a claimed loop is the work of an attempt. -/
theorem promote_works (m : Machine) (id : FunctionId) (f : LoadedFunction) (record : LoopRecord)
    (p : LoopPolicy) (frame : Frame) :
    ∃ actions record',
      Works p f.chunk (some (.compile CompiledLoop.compile)) record actions record' ∧
      record'.range = record.range ∧
      (promote id f record m frame).1.library = m.library.setRecord id record' ∧
      (promote id f record m frame).1.events.toList =
        m.events.toList ++ actions.filterMap Action.event? := by
  cases answer : CompiledLoop.compile f.chunk record.range with
  | ok code =>
    have called : (Task.compile CompiledLoop.compile).advance p f.chunk record =
        ⟨some (.publish code), record, some .called⟩ := by
      simp only [Task.advance, answer]
    refine ⟨_, record.install code, .of_eq called (.task (.task (.task (.rest _)))), rfl, ?_⟩
    simp only [promote, answer, Machine.record, Machine.mapLibrary, Array.toList_push,
      true_and]
    rfl
  | error fault =>
    have called : (Task.compile CompiledLoop.compile).advance p f.chunk record =
        ⟨some (.reject fault), record, some .called⟩ := by
      simp only [Task.advance, answer]
    refine ⟨_, record.reject, .of_eq called (.task (.task (.rest _))), rfl, ?_⟩
    simp only [promote, answer, Machine.record, Machine.mapLibrary, Array.toList_push,
      true_and]
    rfl

/-- What a backward branch does at a loop for which there is no code. -/
theorem backEdge_eq (found : m.library.recordOf? id f header = some record)
    (empty : record.compiled = none) (frame : Frame) :
    backEdge id f header m frame =
      if m.config.threshold.toNat ≤ record.counter.count + 1 ∧ record.counter.state = .counting ∧
          m.config.compileLoops = true then
        promote id f ⟨record.range, ⟨record.counter.count + 1, .compiling⟩, none⟩ m frame
      else (m.mapLibrary (Library.setRecord id record.counted), frame) := by
  obtain ⟨range, ⟨count, state⟩, compiled⟩ := record
  cases empty
  simp only [backEdge, found, HotCounter.record, HotCounter.claim?, Bool.and_eq_true,
    decide_eq_true_eq]
  by_cases hot : m.config.threshold.toNat ≤ count + 1
  · by_cases counting : state = .counting
    · cases m.config.compileLoops <;> simp [hot, counting, LoopRecord.counted]
    · simp [counting, LoopRecord.counted]
  · simp [hot, LoopRecord.counted]

/-- **A backward branch is a round of tasks** at a loop for which there is no code. -/
theorem backEdge_works (found : m.library.recordOf? id f header = some record)
    (empty : record.compiled = none) (frame : Frame) :
    ∃ actions record', Works m.config.policy f.chunk (some .count) record actions record' ∧
      record'.range = record.range ∧
      (backEdge id f header m frame).1.library = m.library.setRecord id record' ∧
      (backEdge id f header m frame).1.events.toList =
        m.events.toList ++ actions.filterMap Action.event? := by
  have counted : Task.count.advance m.config.policy f.chunk record =
      ⟨some (.test (record.counter.count + 1)), record.counted, none⟩ := rfl
  rw [backEdge_eq found empty frame]
  by_cases hot : m.config.threshold.toNat ≤ record.counter.count + 1 ∧
      record.counter.state = .counting
  · have tested : (Task.test (record.counter.count + 1)).advance m.config.policy f.chunk
        record.counted = ⟨some .claim, record.counted, none⟩ :=
      congrArg (Advance.mk · record.counted none) (if_pos hot)
    cases enabled : m.config.compileLoops with
    | false =>
      have refused : Task.claim.advance m.config.policy f.chunk record.counted =
          ⟨none, record.counted, none⟩ := by
        simp only [Task.advance, LoopPolicy.active?, Config.policy, enabled]
        rfl
      rw [if_neg fun all => Bool.noConfusion all.2.2]
      exact ⟨_, _, .of_eq counted (.of_eq tested (.of_eq refused (.rest _))), rfl, rfl,
        (List.append_nil _).symm⟩
    | true =>
      let claimed : LoopRecord := ⟨record.range, ⟨record.counter.count + 1, .compiling⟩, none⟩
      have claims : Task.claim.advance m.config.policy f.chunk record.counted =
          ⟨some (.compile CompiledLoop.compile), claimed, some .claimed⟩ := by
        have counting : record.counted.counter.state = .counting := hot.2
        have still : record.counted.compiled = none := empty
        simp only [Task.advance, LoopPolicy.active?, Config.policy, enabled, HotCounter.claim?,
          counting, still, if_true]
        rfl
      rw [if_pos ⟨hot.1, hot.2, rfl⟩]
      obtain ⟨actions, record', works, range, library, events⟩ :=
        promote_works m id f claimed m.config.policy frame
      exact ⟨_, record', .of_eq counted (.of_eq tested (.of_eq claims works)), range, library,
        events⟩
  · have tested : (Task.test (record.counter.count + 1)).advance m.config.policy f.chunk
        record.counted = ⟨none, record.counted, none⟩ :=
      congrArg (Advance.mk · record.counted none) (if_neg hot)
    rw [if_neg fun all => hot ⟨all.1, all.2.1⟩]
    exact ⟨_, _, .of_eq counted (.of_eq tested (.rest _)), rfl, rfl, (List.append_nil _).symm⟩

/-- **A backward branch without interference is a run.** -/
theorem backEdge_runs {V : Type} [DecidableEq V] {policy : V → LoopPolicy} {sys : System V} {v : V}
    (config : m.config.policy = policy v)
    (same : ∀ header, m.library.recordOf? id f header = sys.records header)
    (idle : sys.tasks v = none)
    (range : ∀ header r, sys.records header = some r → r.range.header = header) (header : Nat)
    (frame : Frame) :
    ∃ trace sys', Runs policy f.chunk sys trace sys' ∧ sys'.tasks = sys.tasks ∧
      (∀ other, (backEdge id f header m frame).1.library.recordOf? id f other =
        sys'.records other) ∧
      (backEdge id f header m frame).1.events.toList =
        m.events.toList ++ (trace.filterMap (·.2.2.event?)).reverse := by
  have rested : update sys.tasks v none = sys.tasks := by rw [← idle, Function.update_eq_self]
  cases found : m.library.recordOf? id f header with
  | none =>
    have nothing : backEdge id f header m frame = (m, frame) := by simp only [backEdge, found]
    rw [nothing]
    exact ⟨[], sys, .refl sys, rfl, same, (List.append_nil _).symm⟩
  | some record =>
    have here : sys.records header = some record := (same header).symm.trans found
    have entered : Runs policy f.chunk sys [] (sys.enter v header record) :=
      .step (.refl sys) (.enter idle here)
    cases compiled : record.compiled with
    | some code =>
      have nothing : (backEdge id f header m frame).1 = m := by
        simp only [backEdge, found, compiled]
      rw [nothing]
      refine ⟨_, _, entered, ?_, same, (List.append_nil _).symm⟩
      simp only [System.enter, compiled, Option.isSome_some, if_true]
      exact rested
    | none =>
      obtain ⟨actions, record', works, kept, library, events⟩ := backEdge_works found compiled frame
      rw [config] at works
      have begun : (sys.enter v header record).tasks v = some (header, .count) := by
        rw [System.tasks_enter_self, compiled]
        rfl
      have worked : Runs policy f.chunk (sys.enter v header record) _ _ := works.runs here begun
      refine ⟨_, _, entered.trans worked, ?_, fun other => ?_, ?_⟩
      · simp only [System.enter, Function.update_idem]
        exact rested
      · have at_header : record'.range.header = header := by rw [kept, range header record here]
        rw [library, Library.recordOf?_setRecord, at_header, same other]
        by_cases other_header : other = header
        · rw [other_header, if_pos rfl]
          simp only [Function.update_self]
        · rw [if_neg fun eq => other_header eq.symm]
          simp only [Function.update_of_ne other_header, System.enter]
      · rw [events]
        congr 1
        simp only [List.append_nil, List.filterMap_map,
          List.filterMap_reverse, List.reverse_reverse]
        rfl

/-! ## The protocol of machines -/

/-- **Promotion of shared loops.** Machines with any policies run a function that was just loaded,
their steps at its loops interleaved in any way. In every state that they reach:

* all that was done about a loop is the beginning of one claim, one call of the compiler and one
  event, all of one machine; there is code when the loop is installed and none when it is given up;
* a step moves the state of a loop on and keeps its code, and it claims the loop only when the count
  has reached the threshold of the machine;
* whatever happens later, final states and code stay;
* a machine that is alone, is enabled and has a compiler claims a loop when the count is the
  threshold, or one if that is zero. Between backward branches it has done so just when the
  count is not below, and the event is that of a compiled loop just when the compiler accepts it,
  which the compiler of machines does when `check` and `registerMap` do;
* a backward branch of a machine that is not interfered with is a sequence of these steps. -/
theorem shared_loops {V : Type} [DecidableEq V] {policy : V → LoopPolicy}
    {m loaded : Machine} {c : Chunk} {id main : FunctionId} {f : LoadedFunction}
    (reached : m.Reached) (load : m.load c = .ok (main, loaded))
    (new : m.library.functions.size ≤ id) (hf : loaded.library.function? id = some f)
    {trace : Trace V} {sys : System V}
    (runs : Runs policy f.chunk (.start V (loaded.library.recordOf? id f)) trace sys) :
    (∀ header r, sys.records header = some r →
      (trace.history header = [] ∨ ∃ v event,
        trace.history header <:+ [(v, .logged event), (v, .called), (v, .claimed)]) ∧
      (r.counter.state = .installed → r.compiled.isSome = true) ∧
      (r.counter.state = .notPromotable → r.compiled = none)) ∧
    (∀ {v a sys'}, Step policy f.chunk sys v a sys' → ∀ header r, sys.records header = some r →
      (∃ r', sys'.records header = some r' ∧ r.Follows r') ∧
      (a = some (header, .claimed) → (policy v).threshold ≤ r.counter.count)) ∧
    (∀ {later sys'}, Runs policy f.chunk sys later sys' → ∀ header r, sys.records header = some r →
      ∃ r', sys'.records header = some r' ∧
        Relation.ReflTransGen LoopState.Moves r.counter.state r'.counter.state ∧
        (r.counter.state = .installed ∨ r.counter.state = .notPromotable →
          r'.counter.state = r.counter.state) ∧
        (∀ code, r.compiled = some code → r'.compiled = some code)) ∧
    (∀ v, (∀ w, w = v) → (policy v).enabled = true →
      ∀ compiler, (policy v).compiler = some compiler → ∀ header r, sys.records header = some r →
      (∀ sys', Step policy f.chunk sys v (some (header, .claimed)) sys' →
        r.counter.count = max (policy v).threshold 1) ∧
      (sys.tasks v = none → r.counter.count < max (policy v).threshold 1 →
        trace.history header = []) ∧
      (sys.tasks v = none → max (policy v).threshold 1 ≤ r.counter.count → ∃ event,
        trace.history header = [(v, .logged event), (v, .called), (v, .claimed)] ∧
        (event.isCompiled = true ↔ ∃ code, compiler f.chunk r.range = .ok code) ∧
        (compiler = CompiledLoop.compile →
          (event.isCompiled = true ↔ CompiledLoop.check f.chunk r.range = .ok () ∧
            ∃ registers, CompiledLoop.registerMap f.chunk r.range = .ok registers)))) ∧
    (∀ {v} {running : Machine}, running.config.policy = policy v →
      (∀ header, running.library.recordOf? id f header = sys.records header) →
      sys.tasks v = none → ∀ header frame, ∃ later sys',
        Runs policy f.chunk sys later sys' ∧ sys'.tasks = sys.tasks ∧
        (∀ other, (backEdge id f header running frame).1.library.recordOf? id f other =
          sys'.records other) ∧
        (backEdge id f header running frame).1.events.toList =
          running.events.toList ++ (later.filterMap (·.2.2.event?)).reverse) := by
  have fresh : ∀ header r, loaded.library.recordOf? id f header = some r →
      r = .start r.range ∧ r.range.header = header := by
    intro header r found
    unfold Machine.load at load
    split at load
    · cases load
    · cases load
      exact Library.recordOf?_load reached.sound c new found
  have sound : sys.Sound policy f.chunk trace := by
    have all := runs.sound (System.sound_start fresh)
    rwa [List.append_nil] at all
  refine ⟨fun header r found => ?_, fun {v a sys'} step header r found => ?_,
    fun {later sys'} continued header r found => ?_,
    fun v alone enabled compiler there header r found => ?_,
    fun {v running} config same idle header frame => ?_⟩
  · have life := sound.life header r found
    exact ⟨life.history, life.code⟩
  · obtain ⟨r', found'⟩ := step.keeps found
    refine ⟨⟨r', found', step.follows sound found found'⟩, ?_⟩
    rintro rfl
    exact sound.claim v header r step.claimed.1 found
  · obtain ⟨r', found', becomes⟩ := continued.becomes sound found
    exact ⟨r', found', becomes.state, becomes.final, fun _ => becomes.code⟩
  · have active : (policy v).active? = some compiler := by
      rw [LoopPolicy.active?, enabled, if_pos rfl, there]
    have paced := runs.paced fresh alone (by rw [active]; rfl) found
    refine ⟨fun sys' step => ?_, fun idle => ?_, fun idle due => ?_⟩
    · obtain ⟨claims, counting⟩ := step.claimed
      rw [claims] at paced
      exact paced.of_claimed (counting r found)
    · exact (paced.of_idle (sound.life header r found) alone idle).1
    · obtain ⟨event, settled, done⟩ := (paced.of_idle (sound.life header r found) alone idle).2 due
      have accepted := settled.isCompiled_iff active
      refine ⟨event, done, accepted, ?_⟩
      rintro rfl
      exact accepted.trans CompiledLoop.compile_ok_iff
  · exact backEdge_runs config same idle sound.range header frame

/-- A machine without a compiler and one that compiles at once share a countdown. At its first
backward branch the second claims the loop: what is done so far is the beginning of one attempt. -/
theorem shared_loops_countdown :
    ∃ (c : Chunk) (loaded : Machine) (f : LoadedFunction) (trace : Trace Bool) (sys : System Bool)
      (r : LoopRecord), (Machine.start .standard).load c = .ok (0, loaded) ∧
      loaded.library.function? 0 = some f ∧
      Runs (fun v => if v then ⟨1, true, some CompiledLoop.compile⟩ else ⟨1, true, none⟩) f.chunk
        (.start Bool (loaded.library.recordOf? 0 f)) trace sys ∧
      sys.records 1 = some r ∧ trace.history 1 = [(true, .claimed)] ∧
      ∃ v event,
        [(true, Action.claimed)] <:+ [(v, .logged event), (v, .called), (v, .claimed)] := by
  obtain ⟨loaded, f, load, hf, records, loops⟩ : ∃ loaded f,
      (Machine.start .standard).load .countdown = .ok (0, loaded) ∧
      loaded.library.function? 0 = some f ∧ loaded.library.records = ∅ ∧ f.loops = [⟨1, 2⟩] :=
    ⟨_, _, rfl, rfl, rfl, rfl⟩
  have found : loaded.library.recordOf? 0 f 1 = some (.start ⟨1, 2⟩) := by
    simp [Library.recordOf?, Library.record?, records, loops]
  let policy : Bool → LoopPolicy :=
    fun v => if v then ⟨1, true, some CompiledLoop.compile⟩ else ⟨1, true, none⟩
  have entered : Runs policy f.chunk (.start Bool (loaded.library.recordOf? 0 f)) _ _ :=
    .step (.refl _) (.enter (v := true) rfl found)
  have counted := Runs.step entered (.advance (v := true) rfl found)
  have tested := Runs.step counted (.advance (v := true) rfl rfl)
  have claimed := Runs.step tested (.advance (v := true) rfl rfl)
  obtain ⟨loops, -⟩ := shared_loops (.start .standard) load (Nat.zero_le 0) hf claimed
  obtain ⟨none | attempt, -, -⟩ := loops 1 _ rfl
  · have nothing : [(true, Action.claimed)] = [] := none
    cases nothing
  · exact ⟨.countdown, loaded, f, _, _, _, load, hf, claimed, rfl, rfl, attempt⟩

end Promotion

end RegisterVm
