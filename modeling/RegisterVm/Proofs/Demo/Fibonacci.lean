import Mathlib.Data.Nat.Fib.Basic
import RegisterVm.Proofs.Demo
import RegisterVm.Proofs.Machine.CallPoints

/-!
# What the recursive demonstration computes

`fibonacciFunction` finds itself under its global name (`Demo.Knows`) and calls itself twice. A call
of it needs as many frames as its argument, at least one. Where the limit allows them it gives a
Fibonacci number (`Demo.executes`), as long as there are handles for the sums that are no words
(`Demo.wraps`); where not its first calls reach the limit (`Demo.Calling.reaches_limit`). Main
statement: `Demo.fibonacci_limited`.
-/

namespace RegisterVm

namespace Demo

variable {id : FunctionId} {fn : Value} {limit base : Nat} {x y : Execution} {m : Machine}
  {h : Heap} {i : Int64}

/-! ## The name of the function -/

/-- The machine knows the function under its global name, and allows `limit` active frames. -/
structure Knows (id : FunctionId) (fn : Value) (limit : Nat) (m : Machine) : Prop where
  library : m.library.Sound
  function : m.library.function? id = some (alone fibonacciFunction)
  object : m.heap.Stores fn (.function id "fib")
  global : m.globals.get? "fib" = some fn
  limit : m.config.maxDepth = limit

namespace Knows

theorem callable (knows : Knows id fn limit m) :
    m.heap.callable fn = .ok (.function id none) := by
  simp only [Heap.callable, knows.object.view]
  rfl

/-- A call of the name is a call of the function. -/
theorem call (knows : Knows id fn limit m) (fuel : Nat) (args : List Value) :
    m.call fuel fn args = m.execute fuel id args := by
  simp only [Machine.call, knows.callable]
  rfl

theorem stays {m' : Machine} (knows : Knows id fn limit m) (sound : m'.library.Sound)
    (continues : m.Continues m') (globals : m'.globals = m.globals)
    (grows : m.heap.Grows m'.heap) : Knows id fn limit m' := by
  obtain ⟨handle, value, found⟩ := knows.object
  obtain ⟨o, found', becomes⟩ := grows.object handle _ found
  cases becomes
  exact ⟨sound, (continues.function? id).trans knows.function, ⟨handle, value, found'⟩,
    globals ▸ knows.global, continues.maxDepth.trans knows.limit⟩

theorem later (knows : Knows id fn limit x.machine) (sound : x.Sound base) (leads : x.Leads y)
    (globals : y.machine.globals = x.machine.globals) : Knows id fn limit y.machine :=
  knows.stays (Execution.Leads.sound leads sound).library (leads.continues sound) globals
    (leads.changed sound).grows

end Knows

/-! ## The function -/

/-- The registers of the function. -/
def registers (i : Int64) (step : Value) (test : Bool) (fn first second : Value) : Array Value :=
  #[.int i, step, .bool test, fn, first, second]

/-- Where a call of the function begins. -/
def start (h : Heap) (i : Int64) : Point := ⟨h, #[.int i, .none, .none, .none, .none, .none], 0⟩

theorem takes_one (i : Int64) : [Value.int i].length = fibonacciFunction.paramCount.toNat := rfl

theorem fits_one (i : Int64) : [Value.int i].length ≤ fibonacciFunction.registerCount.toNat :=
  Nat.le_add_left 1 5

/-- The sums that a call of the function makes, in order. -/
def made : Nat → List Int
  | 0 | 1 => []
  | n + 2 => made (n + 1) ++ made n ++ [(Nat.fib (n + 2) : Int)]

theorem boxed_made_succ (n : Nat) : Heap.boxed (made (n + 2)) =
    Heap.boxed (made (n + 1)) + Heap.boxed (made n) + Heap.boxed [(Nat.fib (n + 2) : Int)] := by
  rw [made, Heap.boxed_append, Heap.boxed_append]

/-- Fibonacci numbers are words up to the 92nd. -/
theorem boxed_fib (k : Nat) : Heap.boxed [(Nat.fib k : Int)] = if k < 93 then 0 else 1 := by
  rw [Heap.boxed_singleton]
  simp only [Word.fits, Bool.and_eq_true, decide_eq_true_eq]
  refine if_congr ?_ rfl rfl
  by_cases few : k < 93
  · have small : Nat.fib k ≤ 7540113804746346429 :=
      (Nat.fib_mono (Nat.le_of_lt_succ few)).trans (by decide +kernel)
    simp only [few, iff_true]
    omega
  · have large : 12200160415121876738 ≤ Nat.fib k :=
      Nat.le_trans (by decide +kernel) (Nat.fib_mono (Nat.le_of_not_lt few))
    simp only [few, iff_false]
    omega

/-- The objects of the function and its sums are as many as a Fibonacci number says. -/
theorem boxed_made (k : Nat) : 1 + Heap.boxed (made k) = max 1 (Nat.fib (k - 90)) := by
  induction k using made.induct with
  | case1 | case2 => rfl
  | case3 n first second =>
    change 1 + Heap.boxed (made (n + 2)) = max 1 (Nat.fib (n + 2 - 90))
    rw [boxed_made_succ, boxed_fib]
    by_cases few : n + 2 < 93
    · have small : ∀ k ≤ 92, Nat.fib (k - 90) ≤ 1 := fun k hk =>
        (Nat.fib_mono (show k - 90 ≤ 2 by omega)).trans (by decide)
      have := small (n + 2) (by omega)
      have := small (n + 1) (by omega)
      have := small n (by omega)
      rw [if_pos few]
      omega
    · have next : n + 2 - 90 = (n - 90) + 2 := by omega
      have before : n + 1 - 90 = (n - 90) + 1 := by omega
      have := Nat.fib_pos.mpr (show 0 < n - 90 by omega)
      have := Nat.fib_pos.mpr (show 0 < n - 90 + 1 by omega)
      rw [before] at first
      rw [next, Nat.fib_add_two, if_neg few]
      omega

/-- Arguments of the calls are words. -/
theorem subtract_word (h : Heap) (i c : Int64) (fits : Word.fits (i.toInt - c.toInt) = true) :
    ∃ j : Int64, j.toInt = i.toInt - c.toInt ∧
      HeapM.binary .sub (.int i) (.int c) h = .ok (.int j) h := by
  have word := Word.ofInt?_of_fits fits
  have counted : HeapM.binary .sub (.int i) (.int c) =
      pure (.int (Int64.ofInt (i.toInt - c.toInt))) :=
    HeapM.binary_of_primitive (congrArg Primitive.checked word)
  exact ⟨_, Word.toInt_of_ofInt? word, congrFun counted h⟩

/-- The function begins with the test whether it is to call itself. -/
theorem tests (h : Heap) (i : Int64) : (alone fibonacciFunction).Leads (start h i)
    ⟨h, registers i (.int 2) (i.toInt < 2) .none .none .none, if i.toInt < 2 then 3 else 4⟩ := by
  have tested := (LoadedFunction.Leads.loadInt (f := alone fibonacciFunction)
    (p := start h i) rfl).trans
    (.binary (r 2) (r 0) (r 1) rfl rfl rfl rfl (compare_words h i 2))
  have branched := tested.trans (.branch rfl rfl)
  have target : (if decide (i.toInt < 2) = false then 4 else 3) = if i.toInt < 2 then 3 else 4 := by
    by_cases below : i.toInt < 2 <;> simp [below]
  exact target ▸ branched

/-- An argument one or two smaller. -/
theorem smaller (h : Heap) {c : Int64} (enough : 2 ≤ i.toInt) (few : c = 1 ∨ c = 2) :
    ∃ j : Int64, j.toInt = i.toInt - c.toInt ∧
      HeapM.binary .sub (.int i) (.int c) h = .ok (.int j) h := by
  refine subtract_word h i c ?_
  have above := Int64.toInt_lt i
  have one : (1 : Int64).toInt = 1 := rfl
  have two : (2 : Int64).toInt = 2 := rfl
  simp only [Word.fits, Bool.and_eq_true, decide_eq_true_eq]
  rcases few with rfl | rfl <;> omega

/-- From two on the function comes to the call for the argument before. -/
theorem calls_first (stands : x.At base (alone fibonacciFunction) (start h i))
    (knows : Knows id fn limit x.machine) (enough : 2 ≤ i.toInt) :
    ∃ y j, x.Leads y ∧ x.Keeps y ∧ j.toInt = i.toInt - 1 ∧ y.At base (alone fibonacciFunction)
        ⟨h, registers i (.int 1) false fn (.int j) .none, 7⟩ := by
  obtain ⟨x₁, leads₁, stands₁, kept₁⟩ := tests h i base x stands
  simp only [Int.not_lt.mpr enough, decide_false, if_false] at stands₁
  obtain ⟨x₂, leads₂, stands₂, kept₂⟩ :=
    stands₁.loadGlobal rfl rfl (kept₁.globals ▸ knows.global)
  obtain ⟨j, same, subtracted⟩ := smaller h enough (.inl rfl)
  have argument := (LoadedFunction.Leads.loadInt (f := alone fibonacciFunction)
    (p := ⟨h, registers i (.int 2) false fn .none .none, 5⟩) rfl).trans
    (.binary (r 4) (r 0) (r 1) rfl rfl rfl rfl subtracted)
  obtain ⟨y, leads₃, stands₃, kept₃⟩ := argument base x₂ stands₂
  exact ⟨y, j, (leads₁.trans leads₂).trans leads₃, (kept₁.trans kept₂).trans kept₃, same, stands₃⟩

/-- After the first call the function comes to the call for the argument before that one. -/
theorem calls_second (h : Heap) (enough : 2 ≤ i.toInt) (fn v : Value) :
    ∃ j, j.toInt = i.toInt - 2 ∧ (alone fibonacciFunction).Leads
      ⟨h, registers i (.int 1) false fn v .none, 8⟩
      ⟨h, registers i (.int 2) false fn v (.int j), 10⟩ := by
  obtain ⟨j, same, subtracted⟩ := smaller h enough (.inr rfl)
  exact ⟨j, same, (LoadedFunction.Leads.loadInt (f := alone fibonacciFunction)
    (p := ⟨h, registers i (.int 1) false fn v .none, 8⟩) rfl).trans
    (.binary (r 5) (r 0) (r 1) rfl rfl rfl rfl subtracted)⟩

/-! ## Calls from outside -/

/-- A call of the function from outside, on the machine `m` with the argument `i`, has come to a
point. -/
structure InCall (id : FunctionId) (fn : Value) (limit : Nat) (m : Machine) (i : Int64) (p : Point)
    (x : Execution) : Prop where
  sound : m.library.Sound
  runs : m.Runs id [.int i] x
  stands : x.At m.depth (alone fibonacciFunction) p
  knows : Knows id fn limit x.machine
  callers : x.callers = []
  handlers : x.frame.handlers = []
  globals : x.machine.globals = m.globals

/-- A call ends with a failure. -/
def Fails (id : FunctionId) (m : Machine) (i : Int64) : Prop :=
  ∃ fuel after e, m.execute fuel id [.int i] = some (after, .error e)

/-- What a call gives and leaves: an integer, the objects made on the way, and the names as they
were. -/
structure Gives (m : Machine) (n : Int) (objects : Nat) (v : Value) (after : Machine) : Prop where
  integer : after.heap.IsInt v n
  size : after.heap.size = m.heap.size + objects
  globals : after.globals = m.globals

namespace InCall

variable {p q : Point}

theorem depth (call : InCall id fn limit m i p x) : x.machine.depth = m.depth + 1 := by
  rw [call.stands.sound.depth, call.callers, List.length_nil]

theorem grows (call : InCall id fn limit m i p x) : m.heap.Grows p.heap := by
  rw [← call.stands.heap]
  exact (call.runs.changed call.sound).grows

/-- The call goes on. -/
theorem trans (call : InCall id fn limit m i p x) (leads : x.Leads y)
    (stands : y.At m.depth (alone fibonacciFunction) q) (remains : x.Remains y)
    (globals : y.machine.globals = x.machine.globals) : InCall id fn limit m i q y :=
  ⟨call.sound, call.runs.leads leads, stands, call.knows.later call.stands.sound leads globals,
    remains.callers.trans call.callers, remains.handlers.trans call.handlers,
    globals.trans call.globals⟩

theorem leads (call : InCall id fn limit m i p x) (leads : (alone fibonacciFunction).Leads p q) :
    ∃ y, InCall id fn limit m i q y := by
  obtain ⟨y, reached, stands, kept⟩ := leads _ x call.stands
  exact ⟨y, call.trans reached stands kept.toRemains kept.globals⟩

/-- The call comes to a call that has an answer, and goes on with it. -/
theorem answered (call : InCall id fn limit m i p x) {dst : Register} {j : Int64} {fuel : Nat}
    {after : Machine} {v : Value} (stands : x.AtCall dst fn [.int j])
    (ran : x.machine.execute fuel id [.int j] = some (after, .ok v))
    (kept : after.globals = x.machine.globals) :
    ∃ y, InCall id fn limit m i
      ⟨after.heap, p.values.setIfInBounds dst.toNat v, p.pc + 1⟩ y := by
  obtain ⟨y, leads, stands', globals, remains⟩ :=
    call.stands.answered call.callers stands ((call.knows.call fuel _).trans ran)
  exact ⟨y, call.trans leads stands' remains (globals.trans kept)⟩

/-- The call comes to a call that fails, and fails too. -/
theorem failed (call : InCall id fn limit m i p x) {dst : Register} {j : Int64}
    (stands : x.AtCall dst fn [.int j]) (fails : Fails id x.machine j) : Fails id m i := by
  obtain ⟨fuel, after, e, ran⟩ := fails
  obtain ⟨fuel', after', e', ran'⟩ := call.stands.failed call.callers call.handlers stands
    ((call.knows.call fuel _).trans ran)
  obtain ⟨fuel'', ran''⟩ := call.runs.answers ran'
  exact ⟨fuel'', after', e', ran''⟩

/-- The call comes to an instruction that fails. -/
theorem breaks (call : InCall id fn limit m i p x) (breaks : (alone fibonacciFunction).Breaks p) :
    Fails id m i := by
  obtain ⟨y, e, m', leads, fails, remains⟩ := breaks _ x call.stands
  obtain ⟨fuel, after, e', ran⟩ := (Execution.Leads.sound leads call.stands.sound).fails_ends
    (remains.callers.trans call.callers) (remains.handlers.trans call.handlers) fails
  obtain ⟨fuel', ran'⟩ := (call.runs.leads leads).answers ran
  exact ⟨fuel', after, e', ran'⟩

/-- The call returns. -/
theorem returns (call : InCall id fn limit m i p x) {src : Register}
    (hop : fibonacciFunction.opcode? p.pc = some (.ret src)) {v : Value}
    (value : p.values[src.toNat]? = some v) :
    ∃ fuel after, m.execute fuel id [.int i] = some (after, .ok v) ∧ after.heap = p.heap ∧
      after.globals = m.globals := by
  obtain ⟨fuel, after, ran, heap, globals, -⟩ := call.stands.returns call.callers hop value
  obtain ⟨fuel', ran'⟩ := call.runs.answers ran
  exact ⟨fuel', after, ran', heap, globals.trans call.globals⟩

/-- After the first call the function comes to the second one. -/
theorem second {v : Value} (call : InCall id fn limit m i
      ⟨h, registers i (.int 1) false fn v .none, 8⟩ x) (enough : 2 ≤ i.toInt) :
    ∃ j y, j.toInt = i.toInt - 2 ∧ y.machine.heap = h ∧ y.machine.depth = m.depth + 1 ∧
      InCall id fn limit m i ⟨h, registers i (.int 2) false fn v (.int j), 10⟩ y := by
  obtain ⟨j, same, argument⟩ := calls_second h enough fn v
  obtain ⟨y, call'⟩ := call.leads argument
  exact ⟨j, y, same, call'.stands.heap, call'.depth, call'⟩

/-- The second call has an answer, with which the function goes on. -/
theorem given {v w : Value} {j : Int64} {fuel : Nat} {after : Machine}
    (call : InCall id fn limit m i ⟨h, registers i (.int 2) false fn v (.int j), 10⟩ x)
    (ran : x.machine.execute fuel id [.int j] = some (after, .ok w))
    (kept : after.globals = x.machine.globals) : h.Grows after.heap ∧
      ∃ y, InCall id fn limit m i ⟨after.heap, registers i (.int 2) false fn v w, 11⟩ y := by
  have grown := (Machine.execute_changed call.knows.library ran).grows
  have heap : x.machine.heap = h := call.stands.heap
  exact ⟨heap ▸ grown, call.answered (call.stands.atCall rfl rfl rfl) ran kept⟩

/-- After both calls the function returns the sum of what they gave, -/
theorem adds {v w u : Value} {h' : Heap} (call : InCall id fn limit m i
      ⟨h, registers i (.int 2) false fn v w, 11⟩ x)
    (added : HeapM.binary .add v w h = .ok u h') :
    ∃ fuel after, m.execute fuel id [.int i] = some (after, .ok u) ∧ after.heap = h' ∧
      after.globals = m.globals := by
  obtain ⟨y, call'⟩ := call.leads (.binary (r 4) (r 4) (r 5) rfl rfl rfl rfl added)
  exact call'.returns rfl rfl

/-- or fails with their sum. -/
theorem refuses {v w : Value} {e : Failure} {h' : Heap} (call : InCall id fn limit m i
      ⟨h, registers i (.int 2) false fn v w, 11⟩ x)
    (refused : HeapM.binary .add v w h = .error e h') : Fails id m i :=
  call.breaks (.binary (r 4) (r 4) (r 5) rfl rfl rfl rfl refused)

end InCall

namespace Knows

/-- A call begins with the argument in the first register. -/
theorem begins (knows : Knows id fn limit m) (shallow : m.depth < limit) (i : Int64) :
    ∃ x, InCall id fn limit m i (start m.heap i) x := by
  obtain ⟨x, stands, begins⟩ := Machine.execute_at knows.library knows.function (takes_one i)
    (fits_one i) (knows.limit ▸ shallow)
  have knows' : Knows id fn limit x.machine :=
    knows.stays stands.sound.library begins.continues begins.globals (stands.heap ▸ .refl _)
  exact ⟨x, knows.library, begins.runs, stands, knows', begins.callers, begins.handlers,
    begins.globals⟩

/-- From two on a call comes to the first call. -/
theorem first (knows : Knows id fn limit m) (shallow : m.depth < limit) (enough : 2 ≤ i.toInt) :
    ∃ j x, j.toInt = i.toInt - 1 ∧ x.machine.heap = m.heap ∧ x.machine.depth = m.depth + 1 ∧
      InCall id fn limit m i ⟨m.heap, registers i (.int 1) false fn (.int j) .none, 7⟩ x := by
  obtain ⟨x, begins⟩ := knows.begins shallow i
  obtain ⟨y, j, leads, kept, same, stands⟩ := calls_first begins.stands begins.knows enough
  have call := begins.trans leads stands kept.toRemains kept.globals
  exact ⟨j, y, same, stands.heap, call.depth, call⟩

/-- Below two a call gives its argument. -/
theorem executes_small (knows : Knows id fn limit m) (shallow : m.depth < limit)
    (small : i.toInt < 2) : ∃ fuel after v, m.execute fuel id [.int i] = some (after, .ok v) ∧
      Gives m i.toInt 0 v after := by
  obtain ⟨x, begins⟩ := knows.begins shallow i
  obtain ⟨y, tested⟩ := begins.leads (tests m.heap i)
  rw [if_pos small] at tested
  obtain ⟨fuel, after, ran, heap, globals⟩ := tested.returns rfl rfl
  exact ⟨fuel, after, _, ran, heap ▸ m.heap.isInt_word i, congrArg Heap.size heap, globals⟩

end Knows

theorem fib_succ (n : Nat) : (Nat.fib (n + 2) : Int) = Nat.fib (n + 1) + Nat.fib n := by
  rw [Nat.fib_add_two, Nat.cast_add, Int.add_comm]

/-- **A call gives a Fibonacci number** when the limit allows as many frames as its argument, and at
least one, and the heap has room for the sums. -/
theorem executes {k : Nat} (same : i.toInt = k) (knows : Knows id fn limit m)
    (shallow : m.depth + max k 1 ≤ limit) (room : m.heap.RoomFor (made k)) :
    ∃ fuel after v, m.execute fuel id [.int i] = some (after, .ok v) ∧
      Gives m (Nat.fib k) (Heap.boxed (made k)) v after := by
  -- On the recursion of the function: the frames of both calls are on top of that of the function.
  induction k using made.induct generalizing m i with
  | case1 | case2 =>
    obtain ⟨fuel, after, v, ran, gives⟩ := knows.executes_small (by omega) (i := i) (by omega)
    exact ⟨fuel, after, v, ran, same ▸ gives⟩
  | case3 n first second =>
    have enough : 2 ≤ i.toInt := by omega
    rw [Heap.RoomFor, boxed_made_succ] at room
    obtain ⟨j₁, x₁, same₁, heap₁, depth₁, call₁⟩ := knows.first (by omega) enough
    obtain ⟨fuel₁, m₁, v₁, ran₁, gives₁⟩ := first (i := j₁) (by omega) call₁.knows (by omega)
      (by rw [Heap.RoomFor, heap₁]; omega)
    obtain ⟨x₂, call₂⟩ := call₁.answered (call₁.stands.atCall rfl rfl rfl) ran₁ gives₁.globals
    obtain ⟨j₂, x₃, same₂, heap₃, depth₃, call₃⟩ := call₂.second enough
    have size₁ := gives₁.size
    rw [heap₁] at size₁
    obtain ⟨fuel₃, m₃, v₃, ran₃, gives₃⟩ := second (i := j₂) (by omega) call₃.knows (by omega)
      (by rw [Heap.RoomFor, heap₃]; omega)
    obtain ⟨grown, x₄, call₄⟩ := call₃.given ran₃ gives₃.globals
    have size₃ := gives₃.size
    rw [heap₃] at size₃
    obtain ⟨u, h', added, makes⟩ := HeapM.binary_makes .add (by simp) (by simp)
      (gives₁.integer.grows grown) gives₃.integer rfl (fib_succ n ▸ by rw [Heap.RoomFor]; omega)
    obtain ⟨fuel, after, ran, rfl, globals⟩ := call₄.adds added
    have size := makes.size
    rw [← fib_succ] at makes size
    exact ⟨fuel, after, u, ran, makes.integer, by rw [boxed_made_succ]; omega, globals⟩

/-- A call ends, whatever is in the heap, when the limit allows its frames. -/
theorem ends {k : Nat} (same : i.toInt = k) (knows : Knows id fn limit m)
    (shallow : m.depth + max k 1 ≤ limit) :
    Fails id m i ∨ ∃ fuel after v, m.execute fuel id [.int i] = some (after, .ok v) ∧
      after.globals = m.globals := by
  induction k using made.induct generalizing m i with
  | case1 | case2 =>
    obtain ⟨fuel, after, v, ran, gives⟩ := knows.executes_small (by omega) (i := i) (by omega)
    exact .inr ⟨fuel, after, v, ran, gives.globals⟩
  | case3 n first second =>
    have enough : 2 ≤ i.toInt := by omega
    obtain ⟨j₁, x₁, same₁, -, depth₁, call₁⟩ := knows.first (by omega) enough
    rcases first (i := j₁) (by omega) call₁.knows (by omega) with
      fails | ⟨fuel₁, m₁, v₁, ran₁, kept₁⟩
    · exact .inl (call₁.failed (call₁.stands.atCall rfl rfl rfl) fails)
    obtain ⟨x₂, call₂⟩ := call₁.answered (call₁.stands.atCall rfl rfl rfl) ran₁ kept₁
    obtain ⟨j₂, x₃, same₂, -, depth₃, call₃⟩ := call₂.second enough
    rcases second (i := j₂) (by omega) call₃.knows (by omega) with
      fails | ⟨fuel₃, m₃, v₃, ran₃, kept₃⟩
    · exact .inl (call₃.failed (call₃.stands.atCall rfl rfl rfl) fails)
    obtain ⟨-, x₄, call₄⟩ := call₃.given ran₃ kept₃
    cases added : HeapM.binary .add v₁ v₃ m₃.heap with
    | error e h' => exact .inl (call₄.refuses added)
    | ok u h' =>
      obtain ⟨fuel, after, ran, -, globals⟩ := call₄.adds added
      exact .inr ⟨fuel, after, u, ran, globals⟩

/-- When the first call gave a built-in function, the call fails, whatever the second one gives. -/
theorem InCall.fails_of_first {n : Nat} {v : Value} (call : InCall id fn limit m i
      ⟨h, registers i (.int 1) false fn v .none, 8⟩ x) (same : i.toInt = (n + 2 : Nat))
    (shallow : m.depth + max (n + 2) 1 ≤ limit) (builtIn : h.BuiltIn v) : Fails id m i := by
  obtain ⟨j, y, same', -, depth, call'⟩ := call.second (by omega)
  rcases ends (i := j) (k := n) (by omega) call'.knows (by omega) with
    fails | ⟨fuel, after, w, ran, kept⟩
  · exact call'.failed (call'.stands.atCall rfl rfl rfl) fails
  · obtain ⟨grown, z, call''⟩ := call'.given ran kept
    obtain ⟨e, refused⟩ := HeapM.binary_builtIn_left .add (builtIn.grows grown) w
    exact call''.refuses refused

/-- **Without room** for a sum a call fails or gives a built-in function. -/
theorem wraps {k : Nat} (same : i.toInt = k) (knows : Knows id fn limit m)
    (shallow : m.depth + max k 1 ≤ limit) (first : m.heap.BuiltIn (.object ⟨0⟩))
    (within : m.heap.size ≤ 0x100000000) (noRoom : ¬m.heap.RoomFor (made k)) :
    Fails id m i ∨ ∃ fuel after v, m.execute fuel id [.int i] = some (after, .ok v) ∧
      after.heap.BuiltIn v ∧ after.globals = m.globals := by
  -- On the recursion of the function, up to the call whose sums find no room.
  induction k using made.induct generalizing m i with
  | case1 | case2 => exact absurd within noRoom
  | case3 n earlier later =>
    have enough : 2 ≤ i.toInt := by omega
    rw [Heap.RoomFor, boxed_made_succ] at noRoom
    obtain ⟨j₁, x₁, same₁, heap₁, depth₁, call₁⟩ := knows.first (by omega) enough
    by_cases room₁ : m.heap.RoomFor (made (n + 1))
    case neg =>
      rcases earlier (i := j₁) (by omega) call₁.knows (by omega) (heap₁ ▸ first)
        (heap₁ ▸ within) (heap₁ ▸ room₁) with fails | ⟨fuel₁, m₁, v₁, ran₁, builtIn, kept₁⟩
      · exact .inl (call₁.failed (call₁.stands.atCall rfl rfl rfl) fails)
      · obtain ⟨x₂, call₂⟩ := call₁.answered (call₁.stands.atCall rfl rfl rfl) ran₁ kept₁
        exact .inl (call₂.fails_of_first same shallow builtIn)
    obtain ⟨fuel₁, m₁, v₁, ran₁, gives₁⟩ :=
      executes (i := j₁) (by omega) call₁.knows (by omega) (heap₁ ▸ room₁)
    obtain ⟨x₂, call₂⟩ := call₁.answered (call₁.stands.atCall rfl rfl rfl) ran₁ gives₁.globals
    obtain ⟨j₂, x₃, same₂, heap₃, depth₃, call₃⟩ := call₂.second enough
    have first₁ : m₁.heap.BuiltIn (.object ⟨0⟩) := first.grows call₂.grows
    have size₁ := gives₁.size
    rw [heap₁] at size₁
    rw [Heap.RoomFor] at room₁
    by_cases room₃ : m₁.heap.RoomFor (made n)
    case neg =>
      rcases later (i := j₂) (by omega) call₃.knows (by omega) (heap₃ ▸ first₁)
        (by rw [heap₃]; omega) (heap₃ ▸ room₃) with fails | ⟨fuel₃, m₃, v₃, ran₃, builtIn, kept₃⟩
      · exact .inl (call₃.failed (call₃.stands.atCall rfl rfl rfl) fails)
      · obtain ⟨-, x₄, call₄⟩ := call₃.given ran₃ kept₃
        obtain ⟨e, refused⟩ := HeapM.binary_builtIn_right .add v₁ builtIn
        exact .inl (call₄.refuses refused)
    -- Both calls give integers, and their sum has no handle.
    obtain ⟨fuel₃, m₃, v₃, ran₃, gives₃⟩ :=
      executes (i := j₂) (by omega) call₃.knows (by omega) (heap₃ ▸ room₃)
    obtain ⟨grown, x₄, call₄⟩ := call₃.given ran₃ gives₃.globals
    have size₃ := gives₃.size
    rw [heap₃] at size₃
    rw [Heap.RoomFor] at room₃
    obtain ⟨u, h', added, builtIn⟩ := HeapM.binary_wraps .add (by simp) (by simp)
      (gives₁.integer.grows grown) gives₃.integer rfl (first₁.grows grown) (by omega)
      (fib_succ n ▸ by rw [Heap.RoomFor]; omega)
    obtain ⟨fuel, after, ran, rfl, globals⟩ := call₄.adds added
    exact .inr ⟨fuel, after, u, ran, builtIn, globals⟩

/-! ## Calls that reach the limit -/

/-- The execution stands at a call of the function with the argument `k`. No frame has a handler,
and the outermost one is of the function `outer`. -/
structure Calling (id : FunctionId) (fn : Value) (limit base : Nat) (outer : FunctionId) (k : Nat)
    (x : Execution) : Prop where
  sound : x.Sound base
  knows : Knows id fn limit x.machine
  call : ∃ dst i, x.AtCall dst fn [.int i] ∧ i.toInt = k
  free : ∀ a ∈ x.frame :: x.callers, a.handlers = []
  outermost : ((x.frame :: x.callers).map Frame.function).getLast? = some outer

namespace Calling

variable {outer : FunctionId} {k : Nat}

/-- From two on a call of the function comes to the call for the argument before, one frame
deeper. -/
theorem deeper (calling : Calling id fn limit base outer (k + 2) x)
    (shallow : x.machine.depth < limit) :
    ∃ y, x.Leads y ∧ Calling id fn limit base outer (k + 1) y ∧
      y.machine.depth = x.machine.depth + 1 := by
  obtain ⟨dst, i, stands, same⟩ := calling.call
  obtain ⟨x₁, stands₁, enters⟩ := stands.enters calling.sound calling.knows.callable
    calling.knows.function (takes_one i) (fits_one i) (calling.knows.limit ▸ shallow)
  have knows₁ : Knows id fn limit x₁.machine :=
    calling.knows.later calling.sound (.single enters.next) enters.globals
  obtain ⟨y, j, leads, kept, same', stands'⟩ := calls_first stands₁ knows₁ (by omega)
  have knows' : Knows id fn limit y.machine := knows₁.later stands₁.sound leads kept.globals
  obtain ⟨caller, calls⟩ := enters.calls
  have callers : y.callers = caller :: x.callers := kept.callers.trans calls.callers
  have handlers : y.frame.handlers = [] := kept.handlers.trans enters.handlers
  refine ⟨y, .head enters.next leads, ⟨stands'.sound, knows',
    ⟨_, j, stands'.atCall rfl rfl rfl, by omega⟩, ?_, ?_⟩, ?_⟩
  · rw [callers]
    intro a ha
    rcases List.mem_cons.mp ha with rfl | ha
    · exact handlers
    · exact free_of_alike calls.handlers calling.free a ha
  · rw [callers, List.map_cons, List.map_cons, List.getLast?_cons_cons, calls.function]
    exact calling.outermost
  · rw [stands'.sound.depth, calling.sound.depth, callers, List.length_cons]
    omega

/-- **The limit is reached** when it allows fewer frames than the argument, or none. -/
theorem reaches_limit {left : Nat} (calling : Calling id fn limit base outer k x)
    (depth : x.machine.depth + left = limit) (deep : left < max k 1) :
    ∃ y k', x.Leads y ∧ Calling id fn limit base outer k' y ∧ y.machine.depth = limit := by
  -- On the frames that are left; each of them takes one off the argument.
  induction left generalizing k x with
  | zero => exact ⟨x, k, .refl, calling, depth⟩
  | succ left ih =>
    obtain ⟨k, rfl⟩ : ∃ l, k = l + 2 := ⟨k - 2, by omega⟩
    obtain ⟨y, leads, calling', one⟩ := calling.deeper (by omega)
    obtain ⟨z, k', leads', calling'', reached⟩ := ih calling' (by omega) (by omega)
    exact ⟨z, k', leads.trans leads', calling'', reached⟩

/-- At the limit the call ends with a failure, whose trace has an entry for each frame. -/
theorem overflows {args : List Value} (calling : Calling id fn limit m.depth outer k x)
    (reached : m.Reached) (runs : m.Runs outer args x) (depth : x.machine.depth = limit)
    {f : LoadedFunction} (hf : x.machine.library.function? outer = some f) :
    ∃ fuel after e, m.execute fuel outer args = some (after, .error e) ∧ e.kind = .stackOverflow ∧
      m.depth + e.trace.length = limit ∧
      e.trace.getLast?.map TraceEntry.function = some f.chunk.name := by
  obtain ⟨dst, i, stands, -⟩ := calling.call
  have fails := stands.refused calling.knows.callable calling.knows.function
    (calling.knows.limit.trans depth.symm).le
  obtain ⟨trace, after, fuel, traced, length, -, ran⟩ :=
    runs.escapes reached fails calling.free
  refine ⟨fuel, after, _, ran, rfl, ?_, traced.last calling.outermost hf⟩
  rw [length, ← Nat.add_assoc, ← calling.sound.depth, depth]

end Calling

/-! ## The program -/

/-- The program without the function, which is loaded before it. -/
def entryChunk (n : Int64) : Chunk := { fibonacci n with nested := [] }

/-- The program when its function is loaded as `id`. -/
def entry (n : Int64) (id : FunctionId) : LoadedFunction :=
  ⟨entryChunk n, #[id], (entryChunk n).loops⟩

/-- The machine has loaded the program, whose function has no object yet. -/
structure Loaded (n : Int64) (id : FunctionId) (m : Machine) : Prop where
  library : m.library.Sound
  function : m.library.function? id = some (alone fibonacciFunction)
  main : m.library.function? (id + 1) = some (entry n id)
  unlisted : m.functionObjects.lookup id = none

/-- Loading adds both functions and leaves the rest of the machine as it is. -/
theorem load_fibonacci (inUse : m.InUse) (n : Int64) :
    ∃ loaded : Machine, m.load (fibonacci n) = .ok (m.library.functions.size + 1, loaded) ∧
      Loaded n m.library.functions.size loaded ∧ loaded.heap = m.heap ∧
      loaded.config = m.config := by
  let inner : Library :=
    { m.library with functions := m.library.functions.push (alone fibonacciFunction) }
  let library : Library :=
    { inner with functions := inner.functions.push (entry n m.library.functions.size) }
  have size : inner.functions.size = m.library.functions.size + 1 := Array.size_push _
  have load : m.load (fibonacci n) = .ok (m.library.functions.size + 1, { m with library }) := by
    have verified : (fibonacci n).verify = .ok () := rfl
    simp only [Machine.load, verified, ← size]
    rfl
  refine ⟨_, load, ⟨Machine.load_sound inUse.reached.sound load, ?_, ?_,
    inUse.functionObject_eq_none (Nat.le_refl _)⟩, rfl, rfl⟩
  · have older : m.library.functions.size ≠ inner.functions.size := by omega
    rw [Library.function?_push, if_neg older, Library.function?_push, if_pos rfl]
  · rw [Library.function?_push, if_pos size.symm]

/-- The heap when the function has its object. -/
def withFunction (id : FunctionId) (h : Heap) : Heap := (h.alloc (.function id "fib")).2

/-- The value that the program takes for the function. -/
def functionValue (id : FunctionId) (h : Heap) : Value := .object (h.alloc (.function id "fib")).1

/-- The program has come to its call of the function. -/
structure Entered (n : Int64) (id : FunctionId) (m : Machine) (x : Execution) : Prop where
  runs : m.Runs (id + 1) [] x
  stands : x.At m.depth (entry n id)
    ⟨withFunction id m.heap, #[functionValue id m.heap, .int n, .none], 3⟩
  known : x.machine.library.function? id = some (alone fibonacciFunction)
  global : x.machine.globals.get? "fib" = some (functionValue id m.heap)
  limit : x.machine.config.maxDepth = m.config.maxDepth
  function : x.frame.function = id + 1
  handlers : x.frame.handlers = []
  callers : x.callers = []

/-- The program makes the function, defines its name and comes to the call. -/
theorem Loaded.comes {n : Int64} (loaded : Loaded n id m) (shallow : m.depth < m.config.maxDepth) :
    ∃ x, Entered n id m x := by
  have count : ([] : List Value).length = (entry n id).chunk.paramCount.toNat := rfl
  obtain ⟨x, stands, begins⟩ :=
    Machine.execute_at loaded.library loaded.main count (Nat.zero_le _) shallow
  have known : x.machine.library.function? id = some (alone fibonacciFunction) := by
    rw [begins.continues.function?]
    exact loaded.function
  have unlisted : x.machine.functionObjects.lookup id = none :=
    begins.functionObjects ▸ loaded.unlisted
  obtain ⟨x₁, leads₁, made, kept₁⟩ := stands.makeFunction rfl rfl known unlisted
  have stands₁ : x₁.At m.depth (entry n id)
    ⟨withFunction id m.heap, #[functionValue id m.heap, .none, .none], 1⟩ := made
  obtain ⟨x₂, leads₂, stands₂, globals₂, remains₂⟩ :=
    stands₁.storeGlobal (v := functionValue id m.heap) rfl rfl rfl
  obtain ⟨x₃, leads₃, stands₃, kept₃⟩ :=
    LoadedFunction.Leads.loadInt (f := entry n id) rfl _ x₂ stands₂
  have leads : x.Leads x₃ := (leads₁.trans leads₂).trans leads₃
  have remains := (kept₁.toRemains.trans remains₂).trans kept₃.toRemains
  have continues := begins.continues.trans (leads.continues stands.sound)
  refine ⟨x₃, begins.runs.leads leads, stands₃, ?_, ?_, continues.maxDepth,
    remains.function.trans begins.function, remains.handlers.trans begins.handlers,
    remains.callers.trans begins.callers⟩
  · rw [continues.function?]
    exact loaded.function
  · rw [kept₃.globals, globals₂, Bindings.get?_set, if_pos rfl]

theorem Loaded.profiled {n : Int64} {m' : Machine} (loaded : Loaded n id m)
    (profiled : m.Profiled m') : Loaded n id m' :=
  ⟨profiled.sound loaded.library, (profiled.function? _).trans loaded.function,
    (profiled.function? _).trans loaded.main, profiled.functionObjects ▸ loaded.unlisted⟩

/-- A call of `print` fails or gives None. -/
theorem call_print {v : Value} (stored : m.heap.Stores v (.builtin .print)) (args : List Value) :
    (∃ after e, m.call 0 v args = some (after, .error e)) ∨
      ∃ after, m.call 0 v args = some (after, .ok .none) := by
  have callable : m.heap.callable v = .ok (.builtin .print) := by
    simp only [Heap.callable, stored.view]
    rfl
  simp only [Machine.call, callable, Machine.answer, MachineM.callBuiltin, HeapM.callBuiltin,
    MachineM.onHeap, inspect, Bind.bind, EStateM.bind]
  cases m.heap.line args with
  | error e => exact .inl ⟨_, _, rfl⟩
  | ok text => exact .inr ⟨_, rfl⟩

namespace Entered

variable {n : Int64} {k : Nat}

theorem depth (entered : Entered n id m x) : x.machine.depth = m.depth + 1 := by
  rw [entered.stands.sound.depth, entered.callers, List.length_nil]

theorem atCall (entered : Entered n id m x) :
    x.AtCall (r 2) (functionValue id m.heap) [.int n] :=
  entered.stands.atCall rfl rfl rfl

/-- As long as there is a handle for it, the function is known. -/
theorem knows (entered : Entered n id m x) (free : m.heap.size < 0x100000000) :
    Knows id (functionValue id m.heap) m.config.maxDepth x.machine := by
  refine ⟨entered.stands.sound.library, entered.known, ?_, entered.global, entered.limit⟩
  rw [entered.stands.heap]
  exact m.heap.stores_alloc _ free

/-- The program gives what the call gives, -/
theorem returns (entered : Entered n id m x) {fuel : Nat} {v : Value} {m₁ : Machine}
    (ran : x.machine.call fuel (functionValue id m.heap) [.int n] = some (m₁, .ok v)) :
    ∃ fuel after, m.execute fuel (id + 1) [] = some (after, .ok v) ∧ after.heap = m₁.heap := by
  obtain ⟨y, leads, stands, -, remains⟩ :=
    entered.stands.answered entered.callers entered.atCall ran
  obtain ⟨fuel₁, after, returned, heap, -⟩ :=
    stands.returns (remains.callers.trans entered.callers) rfl rfl
  obtain ⟨fuel₂, answered⟩ := (entered.runs.leads leads).answers returned
  exact ⟨fuel₂, after, answered, heap⟩

/-- and fails when the call fails. -/
theorem failed (entered : Entered n id m x) {fuel : Nat} {e : Failure} {m₁ : Machine}
    (ran : x.machine.call fuel (functionValue id m.heap) [.int n] = some (m₁, .error e)) :
    ∃ fuel after e, m.execute fuel (id + 1) [] = some (after, .error e) := by
  obtain ⟨fuel₁, after, e', ended⟩ :=
    entered.stands.failed entered.callers entered.handlers entered.atCall ran
  obtain ⟨fuel₂, answered⟩ := entered.runs.answers ended
  exact ⟨fuel₂, after, e', answered⟩

theorem computes (entered : Entered n id m x) (same : n.toInt = k)
    (shallow : m.depth + (max k 1 + 1) ≤ m.config.maxDepth)
    (room : m.heap.size + 1 + Heap.boxed (made k) ≤ 0x100000000) :
    ∃ fuel after v, m.execute fuel (id + 1) [] = some (after, .ok v) ∧
      after.heap.IsInt v (Nat.fib k) := by
  have knows := entered.knows (by omega)
  have depth := entered.depth
  have room' : x.machine.heap.RoomFor (made k) := by
    rwa [entered.stands.heap, Heap.RoomFor, withFunction, Heap.size_alloc]
  obtain ⟨fuel, m₁, v, ran, gives⟩ := executes same knows (by omega) room'
  obtain ⟨fuel', after, answered, heap⟩ := entered.returns ((knows.call fuel _).trans ran)
  exact ⟨fuel', after, v, answered, heap ▸ gives.integer⟩

/-- Without room for the function and for its sums the program fails or gives no integer. -/
theorem misses (entered : Entered n id m x) (same : n.toInt = k)
    (first : m.heap.object? ⟨0⟩ = some (.builtin .print)) (within : m.heap.size ≤ 0x100000000)
    (noRoom : 0x100000000 < m.heap.size + 1 + Heap.boxed (made k))
    (shallow : m.heap.size < 0x100000000 → m.depth + (max k 1 + 1) ≤ m.config.maxDepth) :
    ∃ fuel after r, m.execute fuel (id + 1) [] = some (after, r) ∧
      ∀ v, r = .ok v → ∀ x, ¬after.heap.IsInt v x := by
  have heap : x.machine.heap = withFunction id m.heap := entered.stands.heap
  have grown : m.heap.Grows x.machine.heap := heap ▸ m.heap.grows_alloc _
  obtain ⟨o, first', becomes⟩ := grown.object ⟨0⟩ _ first
  cases becomes
  have size : x.machine.heap.size = m.heap.size + 1 := by
    rw [heap, withFunction, Heap.size_alloc]
  rcases Nat.lt_or_eq_of_le within with free | full
  · have knows := entered.knows free
    have depth := entered.depth
    rcases wraps same knows (by have := shallow free; omega) ⟨_, _, rfl, first'⟩ (by omega)
      (by rw [Heap.RoomFor]; omega) with ⟨fuel, m₁, e, ran⟩ | ⟨fuel, m₁, v, ran, builtIn, -⟩
    · obtain ⟨fuel', after, e', ended⟩ := entered.failed ((knows.call fuel _).trans ran)
      exact ⟨fuel', after, _, ended, fun v same => by cases same⟩
    · obtain ⟨fuel', after, answered, heap'⟩ := entered.returns ((knows.call fuel _).trans ran)
      refine ⟨fuel', after, _, answered, fun w same => ?_⟩
      cases same
      exact heap' ▸ builtIn.not_isInt
  · -- The value that the program takes for the function is `print`.
    have value : functionValue id m.heap = .object ⟨0⟩ :=
      congrArg Value.object (Heap.alloc_full full _)
    rcases call_print ⟨_, value, first'⟩ [.int n] with ⟨m₁, e, ran⟩ | ⟨m₁, ran⟩
    · obtain ⟨fuel', after, e', ended⟩ := entered.failed ran
      exact ⟨fuel', after, _, ended, fun v same => by cases same⟩
    · obtain ⟨fuel', after, answered, -⟩ := entered.returns ran
      refine ⟨fuel', after, _, answered, fun w same x integer => ?_⟩
      cases same
      rcases integer with ⟨i, same, -⟩ | ⟨-, c, same, -⟩ <;> cases same

theorem calling (entered : Entered n id m x) (same : n.toInt = k)
    (free : m.heap.size < 0x100000000) :
    Calling id (functionValue id m.heap) m.config.maxDepth m.depth (id + 1) k x := by
  refine ⟨entered.stands.sound, entered.knows free, ⟨_, n, entered.atCall, same⟩, ?_, ?_⟩
  · rw [entered.callers]
    intro a ha
    rw [List.mem_singleton.mp ha]
    exact entered.handlers
  · rw [entered.callers, ← entered.function]
    rfl

/-- The program ends with a stack overflow where the limit is too low for the call. -/
theorem overflows (entered : Entered n id m x) (reached : m.Reached) (same : n.toInt = k)
    (free : m.heap.size < 0x100000000) (shallow : m.depth < m.config.maxDepth)
    (deep : m.config.maxDepth < m.depth + (max k 1 + 1)) :
    ∃ fuel after e, m.execute fuel (id + 1) [] = some (after, .error e) ∧
      e.kind = .stackOverflow ∧ m.depth + e.trace.length = m.config.maxDepth ∧
      e.trace.getLast?.map TraceEntry.function = some (fibonacci n).name := by
  obtain ⟨left, limit⟩ := Nat.exists_eq_add_of_le' shallow
  have below : x.machine.depth + left = m.config.maxDepth := by
    rw [entered.depth]
    omega
  obtain ⟨y, k', leads, calling, depth⟩ :=
    (entered.calling same free).reaches_limit below (by omega)
  have main : y.machine.library.function? (id + 1) = some (entry n id) := by
    rw [(leads.continues entered.stands.sound).function?, ← entered.function]
    exact entered.stands.function
  exact calling.overflows reached (entered.runs.leads leads) depth main

end Entered

end Demo

/-- Loaded into the machine and called, with any settings and any profile of compiled loops, the
chunk ends with a stack overflow and leaves as many active frames as there were. The trace has an
entry for each frame that the limit allows, and the last one is that of the chunk. -/
def Machine.Overflows (m : Machine) (c : Chunk) : Prop :=
  ∃ id loaded, m.load c = .ok (id, loaded) ∧ ∀ m₁, loaded.Profiled m₁ →
    ∃ fuel after e, m₁.execute fuel id [] = some (after, .error e) ∧ e.kind = .stackOverflow ∧
      e.trace.length = m.config.maxDepth ∧
      e.trace.getLast?.map TraceEntry.function = some c.name ∧ after.depth = m.depth

namespace Demo

variable {m : Machine} {n : Int64} {k : Nat}

/-- Loaded into a machine in use and called, the program comes to its call of the function, with any
settings and any profile of compiled loops. -/
theorem enters (inUse : m.InUse) (positive : 1 ≤ m.config.maxDepth) (n : Int64) :
    ∃ id loaded, m.load (fibonacci n) = .ok (id + 1, loaded) ∧ ∀ m₁, loaded.Profiled m₁ →
      m₁.InUse ∧ m₁.heap = m.heap ∧ m₁.config.maxDepth = m.config.maxDepth ∧
        ∃ x, Entered n id m₁ x := by
  obtain ⟨loaded, load, ready, heap, config⟩ := load_fibonacci inUse n
  refine ⟨_, loaded, load, fun m₁ profiled => ?_⟩
  have inUse₁ : m₁.InUse := .profiled (.load inUse load) profiled
  have limit : m₁.config.maxDepth = m.config.maxDepth :=
    profiled.maxDepth.trans (congrArg Config.maxDepth config)
  have shallow : m₁.depth < m₁.config.maxDepth := by
    rw [inUse₁.depth_eq_zero, limit]
    exact positive
  exact ⟨inUse₁, profiled.heap.trans heap, limit, (ready.profiled profiled).comes shallow⟩

/-- Without a handle for the function or for one of its sums the program misses. -/
theorem fibonacci_misses (inUse : m.InUse) (positive : 1 ≤ m.config.maxDepth)
    (within : m.heap.size ≤ 2 ^ 32) (same : n.toInt = k)
    (noRoom : 2 ^ 32 < m.heap.size + max 1 (Nat.fib (k - 90)))
    (shallow : m.heap.size < 2 ^ 32 → max k 1 + 1 ≤ m.config.maxDepth) :
    m.Misses (fibonacci n) := by
  have idle := inUse.depth_eq_zero
  have objects := boxed_made k
  obtain ⟨id, loaded, load, comes⟩ := enters inUse positive n
  refine ⟨_, loaded, load, fun m₁ profiled => ?_⟩
  obtain ⟨inUse₁, heap, limit, x, entered⟩ := comes m₁ profiled
  have idle₁ := inUse₁.depth_eq_zero
  obtain ⟨fuel, after, r, ran, no⟩ := entered.misses same inUse₁.object?_zero (heap ▸ within)
    (by rw [heap]; omega) (fun free => by have := shallow (heap ▸ free); omega)
  have depth := (Machine.execute_sound inUse₁.reached.sound ran).2
  exact ⟨fuel, after, r, ran, no, depth.trans (idle₁.trans idle.symm)⟩

/-- **The recursive demonstration and the limit.** Started on a machine in use, so with no active
frame, for a natural number and with any limit of at least one frame, the program gives the
Fibonacci number of its argument when the limit allows a frame for the program and as many as the
argument, at least one, for the calls of the function. Otherwise it ends with a stack overflow,
whose trace has as many entries as the limit allows, the last one for the program. No frame is
active afterwards.

It does so exactly as long as there are handles for the function and for the sums that are no words,
which are a Fibonacci number together. When there are fewer, the program ends with an error or gives
what is no integer. -/
theorem fibonacci_limited (inUse : m.InUse) (positive : 1 ≤ m.config.maxDepth)
    (within : m.heap.size ≤ 2 ^ 32) (same : n.toInt = k) :
    m.depth = 0 ∧
    (max k 1 + 1 ≤ m.config.maxDepth →
      (m.heap.size + max 1 (Nat.fib (k - 90)) ≤ 2 ^ 32 → m.Computes (fibonacci n) (Nat.fib k)) ∧
      (2 ^ 32 < m.heap.size + max 1 (Nat.fib (k - 90)) → m.Misses (fibonacci n))) ∧
    (m.config.maxDepth < max k 1 + 1 →
      (m.heap.size < 2 ^ 32 → m.Overflows (fibonacci n)) ∧
      (m.heap.size = 2 ^ 32 → m.Misses (fibonacci n))) := by
  have idle := inUse.depth_eq_zero
  have objects := boxed_made k
  obtain ⟨id, loaded, load, comes⟩ := enters inUse positive n
  have misses := fibonacci_misses inUse positive within same
  refine ⟨idle, fun shallow => ⟨fun room => ?_, fun noRoom => misses noRoom fun _ => shallow⟩,
    fun deep => ⟨fun free => ?_, fun full => misses (by omega) fun free => by omega⟩⟩
  · refine ⟨_, loaded, load, fun m₁ profiled => ?_⟩
    obtain ⟨inUse₁, heap, limit, x, entered⟩ := comes m₁ profiled
    have idle₁ := inUse₁.depth_eq_zero
    obtain ⟨fuel, after, v, ran, integer⟩ :=
      entered.computes same (by omega) (by rw [heap]; omega)
    have depth := (Machine.execute_sound inUse₁.reached.sound ran).2
    exact ⟨fuel, after, v, ran, integer, depth.trans (idle₁.trans idle.symm)⟩
  · refine ⟨_, loaded, load, fun m₁ profiled => ?_⟩
    obtain ⟨inUse₁, heap, limit, x, entered⟩ := comes m₁ profiled
    have idle₁ := inUse₁.depth_eq_zero
    obtain ⟨fuel, after, e, ran, kind, length, last⟩ :=
      entered.overflows inUse₁.reached same (heap ▸ free) (by omega) (by omega)
    have depth := (Machine.execute_sound inUse₁.reached.sound ran).2
    exact ⟨fuel, after, e, ran, kind, by omega, last, depth.trans (idle₁.trans idle.symm)⟩

/-- The tenth Fibonacci number takes eleven frames, and with ten frames the argument 25 is too
large. The 93rd Fibonacci number is no word, and for the 150th there are too few handles. -/
theorem fibonacci_limited_start :
    (Machine.start { Config.standard with maxDepth := 11 }).Computes (fibonacci 10) 55 ∧
    (Machine.start { Config.standard with maxDepth := 10 }).Overflows (fibonacci 25) ∧
    (Machine.start .standard).Computes (fibonacci 93) 12200160415121876738 ∧
    Word.fits 12200160415121876738 = false ∧
    (Machine.start .standard).Misses (fibonacci 150) := by
  obtain ⟨-, computes, -⟩ := fibonacci_limited (n := 10) (k := 10)
    (Machine.InUse.start { Config.standard with maxDepth := 11 }) (by decide) (by decide) rfl
  obtain ⟨-, -, overflows⟩ := fibonacci_limited (n := 25) (k := 25)
    (Machine.InUse.start { Config.standard with maxDepth := 10 }) (by decide) (by decide) rfl
  obtain ⟨-, boxes, -⟩ := fibonacci_limited (n := 93) (k := 93)
    (Machine.InUse.start .standard) (by decide) (by decide) rfl
  obtain ⟨-, misses, -⟩ := fibonacci_limited (n := 150) (k := 150)
    (Machine.InUse.start .standard) (by decide) (by decide) rfl
  have number : ((Nat.fib 93 : Nat) : Int) = 12200160415121876738 :=
    congrArg Nat.cast (show Nat.fib 93 = 12200160415121876738 by decide +kernel)
  refine ⟨(computes (by decide)).1 (by decide), (overflows (by decide)).1 (by decide), ?_,
    by decide, (misses (by decide)).2 (by decide +kernel)⟩
  rw [← number]
  exact (boxes (by decide)).1 (by decide)

/-- Calls the program for `n`, so that a frame is active when this begins. -/
def fibonacciWithin (n : Int64) : Chunk :=
  assemble "outer" 1 0 #[] [fibonacci n]
    [.makeFunction (r 0) 0, .call (r 0) (r 0) (r 0) 0, .ret (r 0)]

/-- The limit of a new machine allows the frames of the argument 150, but its handles are too few.
Where a frame is active already, eleven frames are too few for the argument 10. -/
theorem fibonacci_not_computed :
    (max 150 1 + 1 ≤ (Machine.start .standard).config.maxDepth ∧
      ¬(Machine.start .standard).Computes (fibonacci 150) (Nat.fib 150)) ∧
    max 10 1 + 1 ≤ 11 ∧
      ¬(Machine.start { Config.standard with maxDepth := 11 }).Computes (fibonacciWithin 10)
        (Nat.fib 10) := by
  have misses := fibonacci_misses (n := 150) (k := 150) (Machine.InUse.start .standard)
    (by decide) (by decide) rfl (by decide +kernel) fun _ => by decide
  refine ⟨⟨by decide, misses.not_computes (.start .standard) _⟩, by decide, ?_⟩
  rintro ⟨id, loaded, load, computes⟩
  have sound := Machine.load_sound (Machine.Reached.start _).sound load
  obtain ⟨fuel, after, v, ran, -⟩ := computes loaded ⟨rfl, sound.record⟩
  have fails : (((Machine.start { Config.standard with maxDepth := 11 }).load
      (fibonacciWithin 10)).toOption.bind fun (id, loaded) => loaded.execute 100 id []).map
      (fun answer => answer.2.toBool) = some false := by decide +kernel
  rw [load] at fails
  obtain ⟨answer, ran', error⟩ := Option.map_eq_some_iff.mp fails
  cases Machine.execute_unique ran ran'
  cases error

end Demo

end RegisterVm
