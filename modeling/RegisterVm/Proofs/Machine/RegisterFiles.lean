import RegisterVm.Proofs.Machine.Unobserved

/-!
# Register files

An arena keeps the register files of finished calls and hands them out again. `Arena.Use` is one use
of an arena, and `Arena.Use.Answered` says what must be handed out: a file of the size asked for,
with the arguments in front and None in every other register. Main statement: whatever an arena was
used for, it answers so and keeps 128 files at most, and calls do not depend on the files it keeps
(`Machine.activations_isolated`).
-/

namespace RegisterVm

/-- A file of `count` registers that holds the given values in front and None elsewhere. -/
structure RegisterFile.Holds (count : Nat) (given : List Value) (file : RegisterFile) : Prop where
  size : file.values.size = count
  register : ∀ i < count, file.values[i]? = some ((given[i]?).getD .none)

/-- The values in front are followed by None. -/
theorem RegisterFile.Holds.values_eq {count : Nat} {given : List Value} {file : RegisterFile}
    (h : file.Holds count given) (fits : given.length ≤ count) :
    file.values = given.toArray ++ Array.replicate (count - given.length) .none := by
  apply Array.ext_getElem?
  intro i
  by_cases inside : i < count
  · rw [h.register i inside]
    grind
  · have beyond : file.values.size ≤ i := h.size ▸ Nat.le_of_not_lt inside
    grind

/-! ## What is handed out -/

theorem Arena.holds_take (count : Nat) (a : Arena) : (a.take count).1.Holds count [] where
  size := a.size_take count
  register i inside := by simp [values_take, inside]

theorem RegisterFile.size_stored (given : List Value) (values : Array Value) (start : Nat) :
    (given.foldl (fun (values, i) v => (values.setIfInBounds i v, i + 1))
      (values, start)).1.size = values.size := by
  induction given generalizing values start with
  | nil => rfl
  | cons v given ih => rw [List.foldl_cons, ih, Array.size_setIfInBounds]

/-- Storing values in consecutive registers, as far as there are any. -/
theorem RegisterFile.getElem?_stored (given : List Value) (values : Array Value) (start i : Nat) :
    (given.foldl (fun (values, i) v => (values.setIfInBounds i v, i + 1)) (values, start)).1[i]? =
      if start ≤ i ∧ i < values.size then some ((given[i - start]?).getD (values[i]?.getD .none))
      else values[i]? := by
  induction given generalizing values start with
  | nil => grind
  | cons v given ih =>
    rw [List.foldl_cons, ih]
    grind

namespace Frame

variable {f : LoadedFunction} {args : List Value}

/-- A call with the right number of arguments takes one file, which holds them. -/
theorem enter_of_count (id : FunctionId) (link : Option CallerLink)
    (count : args.length = f.chunk.paramCount.toNat) (a : Arena) :
    ∃ file, enter id f args link a =
        .ok (⟨id, file, 0, [], link, none⟩, (a.take f.chunk.registerCount.toNat).2) ∧
      file.Holds f.chunk.registerCount.toNat args := by
  simp only [enter]
  rw [if_neg (not_not_intro count)]
  refine ⟨_, rfl, ?_, fun i inside => ?_⟩
  · exact (RegisterFile.size_stored args _ 0).trans (a.size_take _)
  · simp [RegisterFile.getElem?_stored, Arena.values_take, inside]

/-- A call with a wrong number of arguments takes no file. -/
theorem enter_of_count_ne (id : FunctionId) (link : Option CallerLink)
    (count : args.length ≠ f.chunk.paramCount.toNat) (a : Arena) :
    enter id f args link a =
      .error (.wrongPositionalCount f.chunk.name f.chunk.paramCount.toNat args.length) :=
  if_pos count

end Frame

namespace Arena

/-! ## Uses of an arena -/

/-- A use of an arena. -/
inductive Use where
  | take (count : Nat)
  /-- A frame for a call with a receiver, if there is one, and arguments. -/
  | enter (id : FunctionId) (f : LoadedFunction) (receiver : Option Value) (args : List Value)
    (link : Option CallerLink)
  | release (file : RegisterFile)

namespace Use

/-- The register file that a use hands out, if any, and the arena afterwards. -/
def run : Use → Arena → Except Fault (Option RegisterFile) × Arena
  | take count, a =>
    let (file, a) := a.take count
    (.ok (some file), a)
  | enter id f receiver args link, a =>
    match Frame.enter id f (receiver.toList ++ args) link a with
    | .ok (frame, a) => (.ok (some frame.file), a)
    | .error fault => (.error fault, a)
  | release file, a => (.ok none, a.release file)

/-- The answer that a use must get. -/
def Answered : Use → Except Fault (Option RegisterFile) → Prop
  | take count, answer => ∃ file, answer = .ok (some file) ∧ file.Holds count []
  | enter _ f receiver args _, answer =>
    let given := receiver.toList ++ args
    let expected := f.chunk.paramCount.toNat
    if given.length = expected then
      ∃ file, answer = .ok (some file) ∧ file.Holds f.chunk.registerCount.toNat given
    else answer = .error (.wrongPositionalCount f.chunk.name expected given.length)
  | release _, answer => answer = .ok none

theorem answered_run (use : Use) (a : Arena) : use.Answered (use.run a).1 := by
  cases use with
  | take count => exact ⟨_, rfl, holds_take count a⟩
  | release file => rfl
  | enter id f receiver args link =>
    simp only [Answered, run]
    split
    · rename_i count
      obtain ⟨file, entered, holds⟩ := Frame.enter_of_count id link count a
      rw [entered]
      exact ⟨file, rfl, holds⟩
    · rename_i count
      rw [Frame.enter_of_count_ne id link count]

/-- A refused use leaves the arena alone. -/
theorem run_of_error {use : Use} {a : Arena} {fault : Fault}
    (refused : (use.run a).1 = .error fault) : (use.run a).2 = a := by
  cases use with
  | take count | release file => cases refused
  | enter id f receiver args link =>
    simp only [run] at refused ⊢
    cases entered : Frame.enter id f (receiver.toList ++ args) link a with
    | error fault => rfl
    | ok p =>
      rw [entered] at refused
      cases refused

/-- One use keeps the number of free files within bounds. -/
theorem length_free_run (use : Use) {a : Arena} (few : a.free.length ≤ capacity) :
    (use.run a).2.free.length ≤ capacity := by
  have taken : ∀ count, (a.take count).2.free.length ≤ capacity := by
    intro count
    unfold Arena.take
    split
    · exact few
    · rename_i free
      rw [free, List.length_cons] at few
      exact Nat.le_of_succ_le few
  cases use with
  | take count => exact taken count
  | release file =>
    simp only [run, Arena.release]
    grind
  | enter id f receiver args link =>
    by_cases count : (receiver.toList ++ args).length = f.chunk.paramCount.toNat
    · obtain ⟨frame, entered, -⟩ := Frame.enter_of_count id link count a
      simp only [run, entered]
      exact taken _
    · simp only [run, Frame.enter_of_count_ne id link count]
      exact few

end Use

/-- The arena after some uses, whatever they handed out. -/
def after (uses : List Use) (a : Arena) : Arena := uses.foldl (fun a use => (use.run a).2) a

theorem length_free_after (uses : List Use) {a : Arena} (few : a.free.length ≤ capacity) :
    (a.after uses).free.length ≤ capacity := by
  induction uses generalizing a with
  | nil => exact few
  | cons use uses ih => exact ih (use.length_free_run few)

end Arena

/-! ## Calls -/

namespace Machine

/-- The machine but for its free register files. -/
def withoutFiles (m : Machine) : Machine := { m with arena := .empty }

/-- Machines that differ in their free register files only resemble each other. -/
theorem resembles_of_withoutFiles {m n : Machine} (same : m.withoutFiles = n.withoutFiles) :
    m.Resembles ⟨"", #[]⟩ n := by
  obtain ⟨heap, library, output, globals, builtins, objects, config, events, arena, depth⟩ := m
  obtain ⟨heap', library', output', globals', builtins', objects', config', events', arena',
    depth'⟩ := n
  simp only [withoutFiles, mk.injEq] at same
  obtain ⟨rfl, rfl, rfl, rfl, rfl, rfl, rfl, rfl, -, rfl⟩ := same
  exact ⟨arena', by simp [behind]⟩

theorem Resembles.withoutFiles {m n : Machine} (h : m.Resembles ⟨"", #[]⟩ n) :
    m.withoutFiles = n.withoutFiles := by
  obtain ⟨arena, rfl⟩ := h
  simp [Machine.withoutFiles, behind]

/-- What a call comes to, but for the free register files. -/
def Answer.withoutFiles (a : Answer) : Answer := a.map fun (m, result) => (m.withoutFiles, result)

/-- **Activations are isolated.** An arena hands out what it must, whatever files were given back to
it, refuses a wrong number of arguments without taking a file and keeps 128 files at most. Calls on
machines that differ in their free files only come to the same. -/
theorem activations_isolated :
    (∀ uses : List Arena.Use,
      let arena := Arena.empty.after uses
      arena.free.length ≤ 128 ∧
      ∀ use : Arena.Use, use.Answered (use.run arena).1 ∧
        ∀ fault, (use.run arena).1 = .error fault → (use.run arena).2 = arena) ∧
    (∀ m n : Machine, m.withoutFiles = n.withoutFiles → ∀ fuel id args,
      Answer.withoutFiles (m.execute fuel id args) =
        Answer.withoutFiles (n.execute fuel id args)) := by
  constructor
  · intro uses arena
    exact ⟨Arena.length_free_after uses (Nat.zero_le _),
      fun use => ⟨use.answered_run arena, fun fault => use.run_of_error⟩⟩
  · intro m n same fuel id args
    have called := (resembles_of_withoutFiles same).execute fuel id args
    generalize m.execute fuel id args = answer, n.execute fuel id args = answer' at called
    cases called with
    | none => rfl
    | @some p q alike =>
      obtain ⟨m, result⟩ := p
      obtain ⟨n, result'⟩ := q
      obtain ⟨resembles, rfl⟩ := alike
      simp only [Answer.withoutFiles, Option.map_some, resembles.withoutFiles]

/-- A file that is given back with a value in every register is handed out cleared, and a function
that returns its second register returns None, not the 7 of the file that it gets. -/
theorem activations_isolated_recycled :
    (∃ file, (Arena.Use.run (.take 3) (Arena.empty.after [.release ⟨#[.int 7, .int 7], true⟩])).1 =
      .ok (some file) ∧ file.Holds 3 []) ∧
    ∃ m, Answer.withoutFiles (({ Machine.start .standard with
        library := ⟨#[⟨⟨"second", #[⟨.ret ⟨1⟩, none⟩], #[], 2, 1, []⟩, #[], []⟩], ∅⟩
        arena := ⟨[⟨#[.int 7, .int 7], true⟩]⟩ } : Machine).execute 1 0 [.int 5]) =
      some (m, .ok .none) := by
  obtain ⟨handed, calls⟩ := activations_isolated
  refine ⟨((handed [.release ⟨#[.int 7, .int 7], true⟩]).2 (.take 3)).1, ?_⟩
  refine ⟨_, (calls _ { Machine.start .standard with
    library := ⟨#[⟨⟨"second", #[⟨.ret ⟨1⟩, none⟩], #[], 2, 1, []⟩, #[], []⟩], ∅⟩ } rfl 1 0
    [.int 5]).trans rfl⟩

end Machine

end RegisterVm
