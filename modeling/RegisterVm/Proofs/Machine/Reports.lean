import RegisterVm.Proofs.Machine.Unobserved
import RegisterVm.Report

/-!
# What reports of runs cover

A report shows the loop events of its own run, whatever was run before. The text it shows is what
was printed since the last report: that of its own run, but also that of the runs which failed in
between. `Machine.runs` runs chunks one after another and keeps, beside each report, what the run
prints and records on a machine where nothing was printed or recorded before (`Machine.blank`). Main
statement: `Machine.reports_cover`.
-/

namespace RegisterVm

namespace Machine

/-- The machine where nothing was printed or recorded yet. -/
def blank (m : Machine) : Machine := { m with output := "", events := #[] }

/-- Loads a chunk and runs it. -/
def launch (fuel : Nat) (c : Chunk) (m : Machine) : Answer :=
  match m.load c with
  | .error e => some (m, .error e)
  | .ok (id, m) => m.execute fuel id []

theorem resembles_blank (m : Machine) : m.blank.Resembles ⟨m.output, m.events⟩ m :=
  ⟨m.arena, by simp [behind, blank]⟩

/-- A run prints and records the same whatever was printed and recorded before. -/
theorem launch_blank (fuel : Nat) (c : Chunk) (m : Machine) :
    Execution.AnswersResemble ⟨m.output, m.events⟩ (m.blank.launch fuel c) (m.launch fuel c) := by
  simp only [launch, load]
  cases c.verify with
  | error e => exact .some ⟨m.resembles_blank, rfl⟩
  | ok =>
    have loaded : Resembles ⟨m.output, m.events⟩
        { m.blank with library := (m.library.load c).2 }
        { m with library := (m.library.load c).2 } :=
      resembles_blank { m with library := (m.library.load c).2 }
    exact loaded.execute fuel _ []

/-! ## One run -/

theorem report_eq (fuel : Nat) (c : Chunk) (m : Machine) :
    m.report fuel c = (m.launch fuel c).map fun (after, result) =>
      match result.bind after.heap.shown with
      | .error e => (after, .error e)
      | .ok shown => ({ after with output := "" },
          .ok ⟨c.name, shown, after.output, after.events.toList.drop m.events.size⟩) := by
  simp only [report, launch]
  cases loaded : m.load c with
  | error e => rfl
  | ok p =>
    simp only
    rfl

/-- A run in a sequence of runs. -/
structure Run where
  /-- What the run prints by itself. -/
  printed : String
  /-- What the run records by itself. -/
  recorded : List LoopEvent
  report : Outcome Report

/-- Runs a chunk and keeps what it prints and records by itself. -/
def observe (fuel : Nat) (c : Chunk) (m : Machine) : Option (Machine × Run) := do
  let (own, _) ← m.blank.launch fuel c
  let (after, report) ← m.report fuel c
  return (after, ⟨own.output, own.events.toList, report⟩)

/-- What is waiting for a report after a run. -/
def Run.left (before : String) (run : Run) : String :=
  match run.report with
  | .ok _ => ""
  | .error _ => before ++ run.printed

/-- What a run adds to a machine and to its report. -/
structure Run.Covers (before after : Machine) (run : Run) : Prop where
  output : after.output = run.left before.output
  report : ∀ report, run.report = .ok report →
    report.output = before.output ++ run.printed ∧ report.events = run.recorded

theorem observe_covers {fuel : Nat} {c : Chunk} {m after : Machine} {run : Run}
    (ran : m.observe fuel c = some (after, run)) : run.Covers m after := by
  have launched := m.launch_blank fuel c
  simp only [observe, report_eq] at ran
  generalize m.blank.launch fuel c = own, m.launch fuel c = answer at launched ran
  cases launched with
  | none => cases ran
  | @some p q alike =>
    obtain ⟨own, result⟩ := p
    obtain ⟨n, result'⟩ := q
    obtain ⟨⟨arena, rfl⟩, same⟩ := alike
    cases same
    have heap : (own.behind ⟨m.output, m.events⟩ arena).heap = own.heap := rfl
    simp only [Option.bind_eq_bind, Option.bind_some, Option.map_some, heap] at ran
    cases shown : result.bind own.heap.shown with
    | error e =>
      simp only [shown] at ran
      cases ran
      exact ⟨rfl, nofun⟩
    | ok text =>
      simp only [shown] at ran
      cases ran
      refine ⟨rfl, fun report made => ?_⟩
      cases made
      exact ⟨rfl, by simp [behind]⟩

/-- A run ends by itself exactly when its report does. -/
theorem observe_eq_none {fuel : Nat} {c : Chunk} {m : Machine} :
    m.observe fuel c = none ↔ m.report fuel c = none := by
  have launched := m.launch_blank fuel c
  simp only [observe, report_eq]
  generalize m.blank.launch fuel c = own, m.launch fuel c = answer at launched
  cases launched <;> simp

/-! ## Sequences of runs -/

/-- Runs chunks one after another. -/
def runs (fuel : Nat) : List Chunk → Machine → Option (Machine × List Run)
  | [], m => some (m, [])
  | c :: cs, m => do
    let (m, run) ← m.observe fuel c
    let (m, runs) ← runs fuel cs m
    return (m, run :: runs)

/-- What is waiting for a report after some runs. -/
def Run.leftAfter (before : String) (runs : List Run) : String := runs.foldl Run.left before

/-- **What reports cover.** Chunks are run one after another on a machine. A successful run reports
the events that it recorded, and no others. Its output is what it printed, after what was printed by
the runs that failed since the last report; so it is what it printed exactly when those printed
nothing. -/
theorem reports_cover {fuel : Nat} {cs : List Chunk} {m after : Machine} {runs : List Run}
    (ran : m.runs fuel cs = some (after, runs)) {i : Nat} {run : Run} (here : runs[i]? = some run)
    {report : Report} (succeeded : run.report = .ok report) :
    report.events = run.recorded ∧
      report.output = Run.leftAfter m.output (runs.take i) ++ run.printed ∧
      (report.output = run.printed ↔ Run.leftAfter m.output (runs.take i) = "") := by
  have covered : report.output = Run.leftAfter m.output (runs.take i) ++ run.printed ∧
      report.events = run.recorded := by
    induction cs generalizing m runs i with
    | nil =>
      cases ran
      cases here
    | cons c cs ih =>
      simp only [Machine.runs, Option.bind_eq_bind, Option.bind_eq_some_iff, Option.pure_def,
        Option.some.injEq, Prod.mk.injEq, Prod.exists] at ran
      obtain ⟨next, first, observed, last, rest, ran, rfl, rfl⟩ := ran
      have covers := observe_covers observed
      cases i with
      | zero =>
        cases here
        exact covers.report report succeeded
      | succ i =>
        have later := ih ran here
        rw [covers.output] at later
        exact later
  obtain ⟨output, events⟩ := covered
  refine ⟨events, output, ?_⟩
  rw [output]
  simp

/-- A program that prints a truth value and then runs one more instruction. -/
def printing (t : Bool) (last : Opcode) : Chunk :=
  ⟨"main", #[⟨.loadGlobal ⟨0⟩ 0, none⟩, ⟨.loadBool ⟨1⟩ t, none⟩, ⟨.call ⟨2⟩ ⟨0⟩ ⟨1⟩ 1, none⟩,
    ⟨last, none⟩], #[.str "print"], 3, 0, []⟩

/-- The first run prints and then raises None, which is no exception. The second run prints too and
ends, and its report shows both lines. -/
theorem reports_cover_failed_run :
    ∃ after first second report,
      (start .standard).runs 4 [printing false (.raise ⟨2⟩), printing true .retNone] =
        some (after, [first, second]) ∧
      (∃ e, first.report = .error e) ∧ second.report = .ok report ∧
      second.printed = "True\n" ∧ second.recorded = [] ∧
      report.events = [] ∧ report.output = "False\nTrue\n" ∧ report.output ≠ second.printed := by
  obtain ⟨after, first, second, report, ran, left, failed, succeeded, printed, recorded⟩ :
      ∃ after first second report,
        (start .standard).runs 4 [printing false (.raise ⟨2⟩), printing true .retNone] =
          some (after, [first, second]) ∧
        Run.leftAfter "" [first] = "False\n" ∧ (∃ e, first.report = .error e) ∧
        second.report = .ok report ∧ second.printed = "True\n" ∧ second.recorded = [] :=
    ⟨_, _, _, _, rfl, rfl, ⟨_, rfl⟩, rfl, rfl, rfl⟩
  obtain ⟨events, output, own⟩ := reports_cover ran (i := 1) rfl succeeded
  have left' : Run.leftAfter (start .standard).output ([first, second].take 1) = "False\n" := left
  rw [left'] at output own
  refine ⟨after, first, second, report, ran, failed, succeeded, printed, recorded,
    events.trans recorded, output.trans ?_, fun same => ?_⟩
  · rw [printed]
    rfl
  · exact absurd (own.mp same) (by decide)

end Machine

end RegisterVm
