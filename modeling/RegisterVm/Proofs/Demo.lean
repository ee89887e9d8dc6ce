import Mathlib.Algebra.BigOperators.Group.Finset.Basic
import RegisterVm.Demo
import RegisterVm.Proofs.Heap.Boxing
import RegisterVm.Proofs.Machine.Permanence
import RegisterVm.Proofs.Machine.Points
import RegisterVm.Proofs.Number.Length

/-!
# What the demonstrations of loops compute

`sumBelow`, `tripleSum` and `powerOfThree` count in a loop (`Demo.Counts`) and change a total in its
body. `Demo.Stands` is the invariant of the loop, `Demo.Iterates` says that the body keeps it, and
`Demo.Counts.leads` carries it through all iterations, whatever the settings of compiled loops. When
there are too few handles for the integers on the way, the loop fails or leaves with a built-in
function (`Demo.Counts.wraps`). Main statement: `Demo.closed_forms`.
-/

namespace RegisterVm

namespace Demo

/-! ## Counting loops -/

/-- The function counts in a loop: while the counter is below the bound, it runs the body between
the test at `header` and the increment at `count`. At `exit` it returns the total. -/
structure Counts (f : LoadedFunction) (header count exit : UInt32) : Prop where
  test : f.chunk.opcode? header.toNat = some (.fastLess (r 3) (r 1) (r 2))
  leave : f.chunk.opcode? (header.toNat + 1) = some (.branch false (r 3) exit)
  increment : f.chunk.opcode? count.toNat = some (.increment (r 1))
  again : f.chunk.opcode? (count.toNat + 1) = some (.jump header)
  result : f.chunk.opcode? exit.toNat = some (.ret (r 0))

/-- The registers in the loop: the total, the counter, the bound, the outcome of the test, and,
where there are more, the factor. -/
structure Stands (registers : Nat) (n : Int64) (total : Value) (k : Nat) (values : Array Value) :
    Prop where
  enough : 4 ≤ registers
  size : values.size = registers
  total : values[0]? = some total
  counter : ∃ i : Int64, values[1]? = some (.int i) ∧ i.toInt = (k : Int)
  bound : values[2]? = some (.int n)
  factor : 4 < registers → values[4]? = some (.int 3)

namespace Stands

variable {registers : Nat} {n : Int64} {total v : Value} {k k' : Nat} {values : Array Value}

/-- The outcome of the test, and products, can be stored. -/
theorem scratch (stands : Stands registers n total k values) {dst : Nat}
    (free : dst = 3 ∨ dst = 5) : Stands registers n total k (values.setIfInBounds dst v) := by
  obtain ⟨enough, size, ht, ⟨i, hi, same⟩, bound, factor⟩ := stands
  refine ⟨enough, by simpa using size, ?_, ⟨i, ?_, same⟩, ?_, fun more => ?_⟩ <;>
    rw [Array.getElem?_setIfInBounds_ne (by omega)]
  · exact ht
  · exact hi
  · exact bound
  · exact factor more

theorem setTotal (stands : Stands registers n total k values) :
    Stands registers n v k (values.setIfInBounds 0 v) := by
  obtain ⟨enough, size, -, ⟨i, hi, same⟩, bound, factor⟩ := stands
  refine ⟨enough, by simpa using size, ?_, ⟨i, ?_, same⟩, ?_, fun more => ?_⟩
  · exact Array.getElem?_setIfInBounds_self_of_lt (by omega)
  all_goals rw [Array.getElem?_setIfInBounds_ne (by omega)]
  · exact hi
  · exact bound
  · exact factor more

theorem setCounter (stands : Stands registers n total k values) {i : Int64}
    (same : i.toInt = (k' : Int)) :
    Stands registers n total k' (values.setIfInBounds 1 (.int i)) := by
  obtain ⟨enough, size, ht, -, bound, factor⟩ := stands
  refine ⟨enough, by simpa using size, ?_, ⟨i, ?_, same⟩, ?_, fun more => ?_⟩
  · rw [Array.getElem?_setIfInBounds_ne (by omega), ht]
  · exact Array.getElem?_setIfInBounds_self_of_lt (by omega)
  all_goals rw [Array.getElem?_setIfInBounds_ne (by omega)]
  · exact bound
  · exact factor more

end Stands

/-- The function begins with instructions that come to the loop with a total for no iterations. -/
def Starts (f : LoadedFunction) (header : UInt32) (registers : Nat) (n : Int64) (total : Int) :
    Prop :=
  ∀ h, ∃ v values, f.Leads ⟨h, Array.replicate registers .none, 0⟩ ⟨h, values, header.toNat⟩ ∧
    Stands registers n v 0 values ∧ h.IsInt v total

/-- The body of the loop goes from each total to the next one, and makes integers on the way. A
built-in function is no total; it takes the place of one when the heap has no room. -/
structure Iterates (f : LoadedFunction) (header count : UInt32) (registers : Nat) (n : Int64)
    (totals : Nat → Int) (made : Nat → List Int) : Prop where
  goes {k : Nat} {h : Heap} {v : Value} {values : Array Value} : (k : Int) < n.toInt →
    Stands registers n v k values → h.IsInt v (totals k) → h.RoomFor (made k) →
    ∃ h' v' values', f.Leads ⟨h, values, header.toNat + 2⟩ ⟨h', values', count.toNat⟩ ∧
      Stands registers n v' k values' ∧ h'.IsInt v' (totals (k + 1)) ∧ h.Grows h' ∧
      h'.size = h.size + Heap.boxed (made k)
  wraps {k : Nat} {h : Heap} {v : Value} {values : Array Value} : (k : Int) < n.toInt →
    Stands registers n v k values → h.IsInt v (totals k) → h.BuiltIn (.object ⟨0⟩) →
    h.size ≤ 0x100000000 → ¬h.RoomFor (made k) →
    f.Breaks ⟨h, values, header.toNat + 2⟩ ∨
    ∃ h' v' values', f.Leads ⟨h, values, header.toNat + 2⟩ ⟨h', values', count.toNat⟩ ∧
      Stands registers n v' k values' ∧ h'.BuiltIn v'
  breaks {k : Nat} {h : Heap} {v : Value} {values : Array Value} : (k : Int) < n.toInt →
    Stands registers n v k values → h.BuiltIn v → f.Breaks ⟨h, values, header.toNat + 2⟩

theorem compare_words (h : Heap) (i j : Int64) :
    HeapM.compare .lt (.int i) (.int j) h = .ok (.bool (i.toInt < j.toInt)) h := by
  have primitive : Primitive.compare .lt (.int i) (.int j) = .ok (.bool (i.toInt < j.toInt)) := by
    have less : (Ord.compare i.toInt j.toInt).isLT = decide (i.toInt < j.toInt) := by
      rw [Bool.eq_iff_iff, decide_eq_true_eq, Ordering.isLT_iff_eq_lt, Std.compare_eq_lt]
    exact congrArg (fun t => Except.ok (Value.bool t)) less
  rw [HeapM.compare_of_primitive primitive]
  rfl

namespace Counts

variable {f : LoadedFunction} {header count exit : UInt32} {registers : Nat} {n : Int64}
  {k : Nat} {h : Heap} {v : Value} {values : Array Value}

/-- The test goes on with the body or leaves the loop. -/
theorem test_leads (loop : Counts f header count exit) (stands : Stands registers n v k values)
    (h : Heap) : ∃ values', f.Leads ⟨h, values, header.toNat⟩
        ⟨h, values', if (k : Int) < n.toInt then header.toNat + 2 else exit.toNat⟩ ∧
      Stands registers n v k values' := by
  obtain ⟨i, hi, same⟩ := stands.counter
  have tested := LoadedFunction.Leads.binary (p := ⟨h, values, header.toNat⟩) _ _ _ loop.test rfl
    hi stands.bound (compare_words h i n)
  have branched := tested.trans
    (.branch loop.leave (Array.getElem?_setIfInBounds_self_of_lt (stands.size ▸ stands.enough)))
  have target : (if decide (i.toInt < n.toInt) = false then exit.toNat else header.toNat + 1 + 1) =
      if (k : Int) < n.toInt then header.toNat + 2 else exit.toNat := by
    rw [same]
    by_cases below : (k : Int) < n.toInt <;> simp [below]
  exact ⟨_, target ▸ branched, stands.scratch (.inl rfl)⟩

/-- The loop goes back to the test with the counter one higher. -/
theorem again_leads (loop : Counts f header count exit) (stands : Stands registers n v k values)
    (below : (k : Int) < n.toInt) (h : Heap) :
    ∃ values', f.Leads ⟨h, values, count.toNat⟩ ⟨h, values', header.toNat⟩ ∧
      Stands registers n v (k + 1) values' := by
  obtain ⟨i, hi, same⟩ := stands.counter
  have fits : Word.fits (i.toInt + 1) = true := by
    have := Int64.toInt_lt n
    simp only [Word.fits, Bool.and_eq_true, decide_eq_true_eq]
    omega
  have word := Word.ofInt?_of_fits fits
  have counted : HeapM.binary .add (.int i) (.int 1) = pure (.int (Int64.ofInt (i.toInt + 1))) :=
    HeapM.binary_of_primitive (congrArg Primitive.checked word)
  have next : (Int64.ofInt (i.toInt + 1)).toInt = ((k + 1 : Nat) : Int) := by
    rw [Word.toInt_of_ofInt? word, same, Int.natCast_succ]
  have stepped := LoadedFunction.Leads.increment (p := ⟨h, values, count.toNat⟩) loop.increment hi
    (congrFun counted h)
  exact ⟨_, stepped.trans (.goto loop.again), stands.setCounter next⟩

/-- What the loop ends with: it leaves with the value `v'`. -/
def Leaves (f : LoadedFunction) (header exit : UInt32) (h : Heap) (values : Array Value)
    (h' : Heap) (v' : Value) : Prop :=
  ∃ values', f.Leads ⟨h, values, header.toNat⟩ ⟨h', values', exit.toNat⟩ ∧ values'[0]? = some v'

variable {totals : Nat → Int} {made : Nat → List Int}

/-- **The loop** runs its body for every value of the counter and leaves with the last total. -/
theorem leads (loop : Counts f header count exit)
    (body : Iterates f header count registers n totals made)
    {m : Nat} (left : k + m = n.toInt.toNat) (stands : Stands registers n v k values)
    (integer : h.IsInt v (totals k)) (room : h.RoomFor ((List.range' k m).flatMap made)) :
    ∃ h' v', Leaves f header exit h values h' v' ∧ h'.IsInt v' (totals n.toInt.toNat) := by
  -- On the iterations that are left; before each one the total so far and the room are right.
  induction m generalizing k h v values with
  | zero =>
    obtain ⟨values', tested, stands'⟩ := loop.test_leads stands h
    rw [if_neg (by omega)] at tested
    obtain rfl : k = n.toInt.toNat := left
    exact ⟨h, v, ⟨values', tested, stands'.total⟩, integer⟩
  | succ m ih =>
    have below : (k : Int) < n.toInt := by omega
    obtain ⟨values₁, tested, stands₁⟩ := loop.test_leads stands h
    rw [if_pos below] at tested
    rw [List.range'_succ, List.flatMap_cons, Heap.RoomFor, Heap.boxed_append] at room
    have room₁ : h.RoomFor (made k) := by
      rw [Heap.RoomFor]
      omega
    obtain ⟨h₂, v₂, values₂, worked, stands₂, integer₂, -, size⟩ :=
      body.goes below stands₁ integer room₁
    have room₂ : h₂.RoomFor ((List.range' (k + 1) m).flatMap made) := by
      rw [Heap.RoomFor]
      omega
    obtain ⟨values₃, again, stands₃⟩ := loop.again_leads stands₂ below h₂
    obtain ⟨h₄, v₄, ⟨values₄, later, total⟩, integer₄⟩ := ih (by omega) stands₃ integer₂ room₂
    exact ⟨h₄, v₄, ⟨values₄, ((tested.trans worked).trans again).trans later, total⟩, integer₄⟩

/-- With a built-in function in place of the total the loop breaks, unless it is over. -/
theorem breaks_or_leaves (loop : Counts f header count exit)
    (body : Iterates f header count registers n totals made)
    (stands : Stands registers n v k values) (builtIn : h.BuiltIn v) :
    f.Breaks ⟨h, values, header.toNat⟩ ∨ Leaves f header exit h values h v := by
  obtain ⟨values', tested, stands'⟩ := loop.test_leads stands h
  split at tested
  · rename_i below
    exact .inl (tested.breaks (body.breaks below stands' builtIn))
  · exact .inr ⟨values', tested, stands'.total⟩

/-- **Without room** for an integer that it makes the loop breaks or leaves with a built-in
function. -/
theorem wraps (loop : Counts f header count exit)
    (body : Iterates f header count registers n totals made)
    {m : Nat} (left : k + m = n.toInt.toNat) (stands : Stands registers n v k values)
    (integer : h.IsInt v (totals k)) (first : h.BuiltIn (.object ⟨0⟩))
    (within : h.size ≤ 0x100000000) (noRoom : ¬h.RoomFor ((List.range' k m).flatMap made)) :
    f.Breaks ⟨h, values, header.toNat⟩ ∨
      ∃ h' v', Leaves f header exit h values h' v' ∧ h'.BuiltIn v' := by
  -- On the iterations that are left, up to the one whose integers find no room.
  induction m generalizing k h v values with
  | zero => exact absurd within noRoom
  | succ m ih =>
    have below : (k : Int) < n.toInt := by omega
    obtain ⟨values₁, tested, stands₁⟩ := loop.test_leads stands h
    rw [if_pos below] at tested
    rw [List.range'_succ, List.flatMap_cons, Heap.RoomFor, Heap.boxed_append] at noRoom
    by_cases room : h.RoomFor (made k)
    · obtain ⟨h₂, v₂, values₂, worked, stands₂, integer₂, grows, size⟩ :=
        body.goes below stands₁ integer room
      rw [Heap.RoomFor] at room
      have noRoom₂ : ¬h₂.RoomFor ((List.range' (k + 1) m).flatMap made) := by
        rw [Heap.RoomFor]
        omega
      obtain ⟨values₃, again, stands₃⟩ := loop.again_leads stands₂ below h₂
      have round := (tested.trans worked).trans again
      rcases ih (by omega) stands₃ integer₂ (first.grows grows) (by omega) noRoom₂ with
        breaks | ⟨h₄, v₄, ⟨values₄, later, total⟩, builtIn⟩
      · exact .inl (round.breaks breaks)
      · exact .inr ⟨h₄, v₄, ⟨values₄, round.trans later, total⟩, builtIn⟩
    · rcases body.wraps below stands₁ integer first within room with
        breaks | ⟨h₂, v₂, values₂, worked, stands₂, builtIn⟩
      · exact .inl (tested.breaks breaks)
      · obtain ⟨values₃, again, stands₃⟩ := loop.again_leads stands₂ below h₂
        have round := (tested.trans worked).trans again
        rcases loop.breaks_or_leaves body stands₃ builtIn with breaks | ⟨values₄, later, total⟩
        · exact .inl (round.breaks breaks)
        · exact .inr ⟨h₂, v₂, ⟨values₄, round.trans later, total⟩, builtIn⟩

end Counts

/-! ## Programs -/

/-- The function of a chunk without nested functions. -/
def alone (c : Chunk) : LoadedFunction := ⟨c, #[], c.loops⟩

end Demo

/-- Loaded into the machine and called, with any settings and any profile of compiled loops, the
chunk gives the integer and no error, and leaves as many active frames as there were. -/
def Machine.Computes (m : Machine) (c : Chunk) (x : Int) : Prop :=
  ∃ id loaded, m.load c = .ok (id, loaded) ∧ ∀ m₁, loaded.Profiled m₁ →
    ∃ fuel after v, m₁.execute fuel id [] = some (after, .ok v) ∧ after.heap.IsInt v x ∧
      after.depth = m.depth

/-- Loaded into the machine and called, with any settings and any profile of compiled loops, the
chunk ends with an error or gives what is no integer, and leaves as many active frames as there
were. -/
def Machine.Misses (m : Machine) (c : Chunk) : Prop :=
  ∃ id loaded, m.load c = .ok (id, loaded) ∧ ∀ m₁, loaded.Profiled m₁ →
    ∃ fuel after r, m₁.execute fuel id [] = some (after, r) ∧
      (∀ v, r = .ok v → ∀ x, ¬after.heap.IsInt v x) ∧ after.depth = m.depth

/-- A chunk that misses computes nothing. -/
theorem Machine.Misses.not_computes {m : Machine} {c : Chunk} (misses : m.Misses c)
    (reached : m.Reached) (x : Int) : ¬m.Computes c x := by
  rintro ⟨id, loaded, load, computes⟩
  obtain ⟨id', loaded', load', misses⟩ := misses
  cases load.symm.trans load'
  have itself : loaded.Profiled loaded := ⟨rfl, (Machine.load_sound reached.sound load).record⟩
  obtain ⟨fuel, after, v, ran, integer, -⟩ := computes loaded itself
  obtain ⟨fuel', after', r, ran', no, -⟩ := misses loaded itself
  cases Machine.execute_unique ran ran'
  exact no v rfl x integer

namespace Demo

open Finset (range)

variable {m : Machine} {n : Int64}

/-- A chunk that is loaded and called on its own. -/
structure Plain (c : Chunk) : Prop where
  nested : c.nested = []
  verified : c.verify = .ok ()
  params : c.paramCount = 0

namespace Plain

variable {c : Chunk} {q : Point} {src : Register} {v : Value}

/-- Loading adds the function and leaves the rest of the machine as it is. -/
theorem loads (plain : Plain c) (reached : m.Reached) :
    ∃ id loaded, m.load c = .ok (id, loaded) ∧ ∀ m₁, loaded.Profiled m₁ →
      m₁.Reached ∧ m₁.library.function? id = some (alone c) ∧ m₁.heap = m.heap ∧
      m₁.depth = m.depth ∧ m₁.config.maxDepth = m.config.maxDepth := by
  obtain ⟨nested, verified, -⟩ := plain
  have load : ∃ loaded : Machine, m.load c = .ok (m.library.functions.size, loaded) ∧
      loaded.library.function? m.library.functions.size = some (alone c) ∧
      loaded.heap = m.heap ∧ loaded.depth = m.depth ∧ loaded.config = m.config := by
    obtain ⟨name, instructions, constants, registerCount, paramCount, inner⟩ := c
    obtain rfl : inner = [] := nested
    simp only [Machine.load, verified]
    exact ⟨_, rfl, by simp [Library.load, Library.loadAll, Library.function?, alone], rfl, rfl, rfl⟩
  obtain ⟨loaded, load, function, heap, depth, config⟩ := load
  exact ⟨_, loaded, load, fun m₁ profiled => ⟨.profiled (.load reached load) profiled,
    (profiled.function? _).trans function, profiled.heap.trans heap, profiled.depth.trans depth,
    profiled.maxDepth.trans (congrArg Config.maxDepth config)⟩⟩

/-- A chunk that comes to a return with an integer computes it. -/
theorem computes (plain : Plain c) (reached : m.Reached) (shallow : m.depth < m.config.maxDepth)
    (leads : (alone c).Leads ⟨m.heap, Array.replicate c.registerCount.toNat .none, 0⟩ q)
    (hop : c.opcode? q.pc = some (.ret src)) (value : q.values[src.toNat]? = some v) {x : Int}
    (integer : q.heap.IsInt v x) : m.Computes c x := by
  obtain ⟨id, loaded, load, ready⟩ := plain.loads reached
  refine ⟨id, loaded, load, fun m₁ profiled => ?_⟩
  obtain ⟨reached₁, known, heap, depth, limit⟩ := ready m₁ profiled
  obtain ⟨fuel, after, ran, heap', depth'⟩ := Machine.execute_returns reached₁.sound known
    plain.params (by rwa [depth, limit]) (heap ▸ leads) hop value
  exact ⟨fuel, after, v, ran, heap' ▸ integer, depth'.trans depth⟩

/-- A chunk that comes to a return with what is no integer misses. -/
theorem misses (plain : Plain c) (reached : m.Reached) (shallow : m.depth < m.config.maxDepth)
    (leads : (alone c).Leads ⟨m.heap, Array.replicate c.registerCount.toNat .none, 0⟩ q)
    (hop : c.opcode? q.pc = some (.ret src)) (value : q.values[src.toNat]? = some v)
    (no : ∀ x, ¬q.heap.IsInt v x) : m.Misses c := by
  obtain ⟨id, loaded, load, ready⟩ := plain.loads reached
  refine ⟨id, loaded, load, fun m₁ profiled => ?_⟩
  obtain ⟨reached₁, known, heap, depth, limit⟩ := ready m₁ profiled
  obtain ⟨fuel, after, ran, heap', depth'⟩ := Machine.execute_returns reached₁.sound known
    plain.params (by rwa [depth, limit]) (heap ▸ leads) hop value
  refine ⟨fuel, after, _, ran, fun w same => ?_, depth'.trans depth⟩
  cases same
  exact heap' ▸ no

/-- A chunk that breaks misses. -/
theorem misses_of_breaks (plain : Plain c) (reached : m.Reached)
    (shallow : m.depth < m.config.maxDepth)
    (breaks : (alone c).Breaks ⟨m.heap, Array.replicate c.registerCount.toNat .none, 0⟩) :
    m.Misses c := by
  obtain ⟨id, loaded, load, ready⟩ := plain.loads reached
  refine ⟨id, loaded, load, fun m₁ profiled => ?_⟩
  obtain ⟨reached₁, known, heap, depth, limit⟩ := ready m₁ profiled
  obtain ⟨fuel, after, e, ran⟩ := Machine.execute_breaks reached₁.sound known plain.params
    (by rwa [depth, limit]) (heap ▸ breaks)
  exact ⟨fuel, after, _, ran, fun v same => (by cases same),
    (Machine.execute_sound reached₁.sound ran).2.trans depth⟩

/-- At the limit no chunk runs. -/
theorem misses_of_deep (plain : Plain c) (reached : m.Reached)
    (deep : m.config.maxDepth ≤ m.depth) : m.Misses c := by
  obtain ⟨id, loaded, load, ready⟩ := plain.loads reached
  refine ⟨id, loaded, load, fun m₁ profiled => ?_⟩
  obtain ⟨reached₁, known, heap, depth, limit⟩ := ready m₁ profiled
  have refused : MachineM.enter id [] none m₁ = _ :=
    Machine.enter_of_deep known (by rwa [depth, limit]) none
  exact ⟨0, m₁, .error (.ofFault .recursionLimit), by simp only [Machine.execute, refused],
    fun v same => (by cases same), depth⟩

end Plain

namespace Counts

variable {c : Chunk} {header count exit : UInt32} {totals : Nat → Int} {made : Nat → List Int}

/-- A chunk that loads its registers and then counts in a loop computes the last total. -/
theorem computes (loop : Counts (alone c) header count exit) (plain : Plain c)
    (starts : Starts (alone c) header c.registerCount.toNat n (totals 0))
    (body : Iterates (alone c) header count c.registerCount.toNat n totals made)
    (reached : m.Reached) (shallow : m.depth < m.config.maxDepth)
    (room : m.heap.RoomFor ((List.range n.toInt.toNat).flatMap made)) :
    m.Computes c (totals n.toInt.toNat) := by
  obtain ⟨v, values, began, stands, integer⟩ := starts m.heap
  obtain ⟨h', v', ⟨values', counted, total⟩, integer'⟩ :=
    loop.leads body (Nat.zero_add _) stands integer (by rwa [← List.range_eq_range'])
  exact plain.computes reached shallow (began.trans counted) loop.result total integer'

/-- Without room for an integer that it makes the chunk misses. -/
theorem misses (loop : Counts (alone c) header count exit) (plain : Plain c)
    (starts : Starts (alone c) header c.registerCount.toNat n (totals 0))
    (body : Iterates (alone c) header count c.registerCount.toNat n totals made)
    (reached : m.Reached) (shallow : m.depth < m.config.maxDepth)
    (first : m.heap.BuiltIn (.object ⟨0⟩)) (within : m.heap.size ≤ 0x100000000)
    (noRoom : ¬m.heap.RoomFor ((List.range n.toInt.toNat).flatMap made)) : m.Misses c := by
  obtain ⟨v, values, began, stands, integer⟩ := starts m.heap
  rcases loop.wraps body (Nat.zero_add _) stands integer first within
    (by rwa [← List.range_eq_range']) with breaks | ⟨h', v', ⟨values', counted, total⟩, builtIn⟩
  · exact plain.misses_of_breaks reached shallow (began.breaks breaks)
  · exact plain.misses reached shallow (began.trans counted) loop.result total builtIn.not_isInt

/-- **What a chunk with a loop comes to**: it computes the last total exactly as long as there are
handles for the objects that it makes. -/
theorem outcome (loop : Counts (alone c) header count exit) (plain : Plain c)
    (totals : Nat → Int) (made : Nat → List Int)
    (starts : Starts (alone c) header c.registerCount.toNat n (totals 0))
    (body : Iterates (alone c) header count c.registerCount.toNat n totals made)
    (inUse : m.InUse) (positive : 1 ≤ m.config.maxDepth) (within : m.heap.size ≤ 0x100000000) :
    (m.heap.RoomFor ((List.range n.toInt.toNat).flatMap made) →
      m.Computes c (totals n.toInt.toNat)) ∧
    (¬m.heap.RoomFor ((List.range n.toInt.toNat).flatMap made) → m.Misses c) := by
  have shallow : m.depth < m.config.maxDepth := inUse.depth_eq_zero ▸ positive
  have first : m.heap.BuiltIn (.object ⟨0⟩) := ⟨_, _, rfl, inUse.object?_zero⟩
  exact ⟨loop.computes plain starts body inUse.reached shallow,
    loop.misses plain starts body inUse.reached shallow first within⟩

end Counts

/-! ### Sums -/

/-- The sum of the integers from 0 up to but without `k`. -/
def total (k : Nat) : Int := ∑ i ∈ range k, (i : Int)

theorem total_succ (k : Nat) : total (k + 1) = total k + k := Finset.sum_range_succ _ k

/-- The integers that `sumBelow` makes in one iteration. -/
def sums (k : Nat) : List Int := [total (k + 1)]

/-- The integers that `tripleSum` makes in one iteration. -/
def tripleSums (k : Nat) : List Int := [3 * k, 3 * total (k + 1)]

/-- Three times a short integer is not too large. -/
theorem multiply_three {x : Int} (short : Bits.length x + 2 ≤ maxBits) :
    Integer.binary .mul x 3 = .ok (.int (x * 3)) := by
  have three : Bits.length 3 = 2 := by decide
  simp only [Integer.binary, Integer.multiply, three]
  exact if_neg (Nat.not_lt_of_le short)

theorem sumBelow_starts (n : Int64) : Starts (alone (sumBelow n)) 3 4 n (total 0) := by
  intro h
  have began := ((LoadedFunction.Leads.loadInt (f := alone (sumBelow n))
    (p := ⟨h, Array.replicate 4 .none, 0⟩) rfl).trans (.loadInt rfl)).trans (.loadInt rfl)
  exact ⟨.int 0, #[.int 0, .int 0, .int n, .none], began, ⟨Nat.le_refl 4, rfl, rfl,
    ⟨_, rfl, rfl⟩, rfl, fun more => absurd more (Nat.lt_irrefl 4)⟩, h.isInt_word 0⟩

theorem sumBelow_iterates (n : Int64) : Iterates (alone (sumBelow n)) 3 6 4 n total sums where
  goes {k h v values} _ stands integer room := by
    obtain ⟨i, hi, same⟩ := stands.counter
    obtain ⟨w, h', added, makes⟩ := HeapM.binary_makes .add (by simp) (by simp) integer
      (same ▸ h.isInt_word i) rfl (total_succ k ▸ room)
    rw [← HeapM.addInPlace_of_integer integer] at added
    have sized : h'.size = h.size + Heap.boxed (sums k) := by
      rw [sums, total_succ]
      exact makes.size
    exact ⟨h', w, _, .binary (r 0) (r 0) (r 1) rfl rfl stands.total hi added, stands.setTotal,
      total_succ k ▸ makes.integer, makes.grows, sized⟩
  wraps {k h v values} _ stands integer first within noRoom := by
    obtain ⟨i, hi, same⟩ := stands.counter
    obtain ⟨w, h', added, builtIn⟩ := HeapM.binary_wraps .add (by simp) (by simp) integer
      (same ▸ h.isInt_word i) rfl first within (total_succ k ▸ noRoom)
    rw [← HeapM.addInPlace_of_integer integer] at added
    exact .inr ⟨h', w, _, .binary (r 0) (r 0) (r 1) rfl rfl stands.total hi added,
      stands.setTotal, builtIn⟩
  breaks {k h v values} _ stands builtIn := by
    obtain ⟨i, hi, -⟩ := stands.counter
    obtain ⟨e, refused⟩ := HeapM.addInPlace_builtIn_left builtIn (.int i)
    exact .binary (r 0) (r 0) (r 1) rfl rfl stands.total hi refused

theorem sumBelow_counts (n : Int64) : Counts (alone (sumBelow n)) 3 6 8 := ⟨rfl, rfl, rfl, rfl, rfl⟩

theorem sumBelow_plain (n : Int64) : Plain (sumBelow n) := ⟨rfl, rfl, rfl⟩

theorem tripleSum_starts (n : Int64) : Starts (alone (tripleSum n)) 4 6 n (3 * total 0) := by
  intro h
  have began := (((LoadedFunction.Leads.loadInt (f := alone (tripleSum n))
    (p := ⟨h, Array.replicate 6 .none, 0⟩) rfl).trans (.loadInt rfl)).trans (.loadInt rfl)).trans
    (.loadConst rfl rfl)
  exact ⟨.int 0, #[.int 0, .int 0, .int n, .none, .int 3, .none], began, ⟨by decide, rfl, rfl,
    ⟨_, rfl, rfl⟩, rfl, fun _ => rfl⟩, h.isInt_word 0⟩

/-- The product of the counter is no longer than 65 bits. -/
theorem multiply_counter {k : Nat} (below : (k : Int) < n.toInt) :
    Integer.binary .mul k 3 = .ok (.int (3 * k)) := by
  have short : Bits.length (k : Int) ≤ 63 := by
    have := Int64.toInt_lt n
    rw [Bits.length_le_iff]
    omega
  exact (multiply_three ((Nat.add_le_add_right short 2).trans (by decide))).trans
    (by rw [Int.mul_comm])

theorem triple_total_succ (k : Nat) : 3 * total (k + 1) = 3 * total k + 3 * (k : Int) := by
  rw [total_succ, Int.mul_add]

/-- `tripleSum` with a product in its register. -/
theorem tripleSum_multiplies {k : Nat} {h h₁ : Heap} {v w : Value} {i : Int64}
    {values : Array Value} (stands : Stands 6 n v k values) (hi : values[1]? = some (.int i))
    (multiplied : HeapM.binary .mul (.int i) (.int 3) h = .ok w h₁) :
    (alone (tripleSum n)).Leads ⟨h, values, 6⟩ ⟨h₁, values.setIfInBounds 5 w, 7⟩ ∧
      Stands 6 n v k (values.setIfInBounds 5 w) ∧
      (values.setIfInBounds 5 w)[5]? = some w := by
  have inside : 5 < values.size := by
    rw [stands.size]
    decide
  exact ⟨.binary (r 5) (r 1) (r 4) rfl rfl hi (stands.factor (by decide)) multiplied,
    stands.scratch (.inr rfl), Array.getElem?_setIfInBounds_self_of_lt inside⟩

theorem tripleSum_iterates (n : Int64) :
    Iterates (alone (tripleSum n)) 4 8 6 n (3 * total ·) tripleSums where
  goes {k h v values} below stands integer room := by
    obtain ⟨i, hi, same⟩ := stands.counter
    have split : Heap.boxed (tripleSums k) =
        Heap.boxed [3 * (k : Int)] + Heap.boxed [3 * total (k + 1)] := Heap.boxed_append [_] [_]
    rw [Heap.RoomFor, split] at room
    -- The product goes to a register of its own and is then added to the total.
    obtain ⟨w, h₁, multiplied, makes⟩ := HeapM.binary_makes .mul (by simp) (by simp)
      (same ▸ h.isInt_word i) (h.isInt_word 3) (multiply_counter below)
      (by rw [Heap.RoomFor]; omega)
    obtain ⟨multiplies, stands₁, stored⟩ := tripleSum_multiplies stands hi multiplied
    have size := makes.size
    obtain ⟨u, h₂, added, makes'⟩ := HeapM.binary_makes .add (by simp) (by simp)
      (integer.grows makes.grows) makes.integer
      (congrArg (fun x => Except.ok (Integer.Result.int x)) (triple_total_succ k).symm)
      (by rw [Heap.RoomFor]; omega)
    have sized : h₂.size = h.size + Heap.boxed (tripleSums k) := by
      have size' := makes'.size
      omega
    exact ⟨h₂, u, _,
      multiplies.trans (.binary (r 0) (r 0) (r 5) rfl rfl stands₁.total stored added),
      stands₁.setTotal, makes'.integer, makes.grows.trans makes'.grows, sized⟩
  wraps {k h v values} below stands integer first within noRoom := by
    obtain ⟨i, hi, same⟩ := stands.counter
    have split : Heap.boxed (tripleSums k) =
        Heap.boxed [3 * (k : Int)] + Heap.boxed [3 * total (k + 1)] := Heap.boxed_append [_] [_]
    rw [Heap.RoomFor, split] at noRoom
    by_cases room : h.RoomFor [3 * (k : Int)]
    · obtain ⟨w, h₁, multiplied, makes⟩ := HeapM.binary_makes .mul (by simp) (by simp)
        (same ▸ h.isInt_word i) (h.isInt_word 3) (multiply_counter below) room
      obtain ⟨multiplies, stands₁, stored⟩ := tripleSum_multiplies stands hi multiplied
      rw [Heap.RoomFor] at room
      have size := makes.size
      obtain ⟨u, h₂, added, builtIn⟩ := HeapM.binary_wraps .add (by simp) (by simp)
        (integer.grows makes.grows) makes.integer
        (congrArg (fun x => Except.ok (Integer.Result.int x)) (triple_total_succ k).symm)
        (first.grows makes.grows) (by omega) (by rw [Heap.RoomFor]; omega)
      exact .inr ⟨h₂, u, _,
        multiplies.trans (.binary (r 0) (r 0) (r 5) rfl rfl stands₁.total stored added),
        stands₁.setTotal, builtIn⟩
    · obtain ⟨w, h₁, multiplied, builtIn⟩ := HeapM.binary_wraps .mul (by simp) (by simp)
        (same ▸ h.isInt_word i) (h.isInt_word 3) (multiply_counter below) first within room
      obtain ⟨multiplies, stands₁, stored⟩ := tripleSum_multiplies stands hi multiplied
      obtain ⟨e, refused⟩ := HeapM.binary_builtIn_right .add v builtIn
      exact .inl (multiplies.breaks
        (.binary (r 0) (r 0) (r 5) rfl rfl stands₁.total stored refused))
  breaks {k h v values} below stands builtIn := by
    obtain ⟨i, hi, same⟩ := stands.counter
    obtain ⟨w, h₁, multiplied, yields⟩ := HeapM.binary_yields .mul (by simp) (by simp)
      (same ▸ h.isInt_word i) (h.isInt_word 3) (multiply_counter below)
    obtain ⟨multiplies, stands₁, stored⟩ := tripleSum_multiplies stands hi multiplied
    obtain ⟨e, refused⟩ := HeapM.binary_builtIn_left .add (builtIn.grows yields.grows) w
    exact multiplies.breaks (.binary (r 0) (r 0) (r 5) rfl rfl stands₁.total stored refused)

theorem tripleSum_counts (n : Int64) : Counts (alone (tripleSum n)) 4 8 10 :=
  ⟨rfl, rfl, rfl, rfl, rfl⟩

theorem tripleSum_plain (n : Int64) : Plain (tripleSum n) := ⟨rfl, rfl, rfl⟩

/-! ### Powers -/

/-- The integers that `powerOfThree` makes in one iteration. -/
def powers (k : Nat) : List Int := [3 ^ (k + 1)]

/-- Powers of three below the last one are shorter. -/
theorem length_pow_three {k : Nat}
    (small : n.toInt ≤ 1 ∨ Bits.length (3 ^ (n.toInt - 1).toNat) + 2 ≤ maxBits)
    (below : (k : Int) < n.toInt) : Bits.length (3 ^ k) + 2 ≤ maxBits := by
  rcases small with one | small
  · obtain rfl : k = 0 := by omega
    decide
  · have shorter : Bits.length ((3 : Int) ^ k) ≤ Bits.length ((3 : Int) ^ (n.toInt - 1).toNat) := by
      refine Bits.length_le_of_natAbs_le ?_ (Nat.le_refl _)
      rw [Int.natAbs_pow, Int.natAbs_pow]
      exact Nat.pow_le_pow_right (by decide) (by omega)
    omega

theorem powerOfThree_starts (n : Int64) : Starts (alone (powerOfThree n)) 4 5 n (3 ^ 0) := by
  intro h
  have began := (((LoadedFunction.Leads.loadInt (f := alone (powerOfThree n))
    (p := ⟨h, Array.replicate 5 .none, 0⟩) rfl).trans (.loadInt rfl)).trans (.loadInt rfl)).trans
    (.loadInt rfl)
  exact ⟨.int 1, #[.int 1, .int 0, .int n, .none, .int 3], began, ⟨by decide, rfl, rfl,
    ⟨_, rfl, rfl⟩, rfl, fun _ => rfl⟩, h.isInt_word 1⟩

theorem powerOfThree_iterates
    (small : n.toInt ≤ 1 ∨ Bits.length (3 ^ (n.toInt - 1).toNat) + 2 ≤ maxBits) :
    Iterates (alone (powerOfThree n)) 4 7 5 n (3 ^ ·) powers where
  goes {k h v values} below stands integer room := by
    obtain ⟨w, h', multiplied, makes⟩ := HeapM.binary_makes .mul (by simp) (by simp) integer
      (h.isInt_word 3) (multiply_three (length_pow_three small below)) room
    exact ⟨h', w, _,
      .binary (r 0) (r 0) (r 4) rfl rfl stands.total (stands.factor (by decide)) multiplied,
      stands.setTotal, makes.integer, makes.grows, makes.size⟩
  wraps {k h v values} below stands integer first within noRoom := by
    obtain ⟨w, h', multiplied, builtIn⟩ := HeapM.binary_wraps .mul (by simp) (by simp) integer
      (h.isInt_word 3) (multiply_three (length_pow_three small below)) first within noRoom
    exact .inr ⟨h', w, _,
      .binary (r 0) (r 0) (r 4) rfl rfl stands.total (stands.factor (by decide)) multiplied,
      stands.setTotal, builtIn⟩
  breaks {k h v values} _ stands builtIn := by
    obtain ⟨e, refused⟩ := HeapM.binary_builtIn_left .mul builtIn (.int 3)
    exact .binary (r 0) (r 0) (r 4) rfl rfl stands.total (stands.factor (by decide)) refused

theorem powerOfThree_counts (n : Int64) : Counts (alone (powerOfThree n)) 4 7 9 :=
  ⟨rfl, rfl, rfl, rfl, rfl⟩

theorem powerOfThree_plain (n : Int64) : Plain (powerOfThree n) := ⟨rfl, rfl, rfl⟩

/-! ## Room

How many integers the programs make that are no words, so that a heap has room for them. -/

theorem boxed_range_succ (made : Nat → List Int) (n : Nat) :
    Heap.boxed ((List.range (n + 1)).flatMap made) =
      Heap.boxed ((List.range n).flatMap made) + Heap.boxed (made n) := by
  rw [List.range_succ, List.flatMap_append, Heap.boxed_append, List.flatMap_singleton]

/-- Integers that are no words from the iteration `t` on. -/
theorem boxed_range {made : Nat → List Int} {t : Nat}
    (steps : ∀ k, Heap.boxed (made k) = if k < t then 0 else 1) (n : Nat) :
    Heap.boxed ((List.range n).flatMap made) = n - t := by
  induction n with
  | zero => exact (Nat.zero_sub t).symm
  | succ n ih =>
    rw [boxed_range_succ, ih, steps]
    split <;> omega

theorem two_mul_total (k : Nat) : 2 * total (k + 1) = k * (k + 1) := by
  induction k with
  | zero => rfl
  | succ k ih =>
    rw [total_succ, Int.mul_add, ih]
    push_cast
    ring

theorem total_nonneg (k : Nat) : 0 ≤ total k := Finset.sum_nonneg fun i _ => Int.natCast_nonneg i

/-- The sums of `sumBelow` are words up to the iteration 2 ^ 32. -/
theorem boxed_sums (k : Nat) : Heap.boxed (sums k) = if k < 0x100000000 then 0 else 1 := by
  have double := two_mul_total k
  have nonneg := total_nonneg (k + 1)
  rw [sums, Heap.boxed_singleton]
  simp only [Word.fits, Bool.and_eq_true, decide_eq_true_eq]
  refine if_congr ?_ rfl rfl
  by_cases few : k < 0x100000000
  · have small : (k : Int) * (k + 1) ≤ 0xffffffff * 0x100000000 := by
      exact_mod_cast Nat.mul_le_mul (Nat.le_of_lt_succ few) few
    simp only [few, iff_true]
    omega
  · have large : (0x100000000 : Int) * 0x100000001 ≤ k * (k + 1) := by
      exact_mod_cast Nat.mul_le_mul (Nat.le_of_not_lt few) (Nat.succ_le_succ (Nat.le_of_not_lt few))
    simp only [few, iff_false]
    omega

theorem boxed_tripleSums (k : Nat) : Heap.boxed (tripleSums k) =
    (if k < 3074457345618258603 then 0 else 1) + if k < 2479700525 then 0 else 1 := by
  have double := two_mul_total k
  have nonneg := total_nonneg (k + 1)
  have split : Heap.boxed (tripleSums k) =
      Heap.boxed [3 * (k : Int)] + Heap.boxed [3 * total (k + 1)] := Heap.boxed_append [_] [_]
  rw [split, Heap.boxed_singleton, Heap.boxed_singleton]
  simp only [Word.fits, Bool.and_eq_true, decide_eq_true_eq]
  congr 1
  · exact if_congr (by omega) rfl rfl
  · refine if_congr ?_ rfl rfl
    by_cases few : k < 2479700525
    · have small : (k : Int) * (k + 1) ≤ 2479700524 * 2479700525 := by
        exact_mod_cast Nat.mul_le_mul (Nat.le_of_lt_succ few) few
      simp only [few, iff_true]
      omega
    · have large : (2479700525 : Int) * 2479700526 ≤ k * (k + 1) := by
        exact_mod_cast
          Nat.mul_le_mul (Nat.le_of_not_lt few) (Nat.succ_le_succ (Nat.le_of_not_lt few))
      simp only [few, iff_false]
      omega

theorem boxed_range_tripleSums (n : Nat) : Heap.boxed ((List.range n).flatMap tripleSums) =
    (n - 3074457345618258603) + (n - 2479700525) := by
  induction n with
  | zero => rfl
  | succ n ih =>
    rw [boxed_range_succ, ih, boxed_tripleSums]
    split <;> split <;> omega

theorem boxed_powers (k : Nat) : Heap.boxed (powers k) = if k < 39 then 0 else 1 := by
  rw [powers, Heap.boxed_singleton]
  simp only [Word.fits, Bool.and_eq_true, decide_eq_true_eq]
  refine if_congr ?_ rfl rfl
  by_cases few : k < 39
  · have small : (3 : Int) ^ (k + 1) ≤ 3 ^ 39 := by
      exact_mod_cast Nat.pow_le_pow_right (Nat.succ_pos 2) few
    have positive : (0 : Int) < 3 ^ (k + 1) := by positivity
    simp only [few, iff_true]
    omega
  · have large : (3 : Int) ^ 40 ≤ 3 ^ (k + 1) := by
      exact_mod_cast Nat.pow_le_pow_right (Nat.succ_pos 2) (Nat.succ_le_succ (Nat.le_of_not_lt few))
    simp only [few, iff_false]
    omega

/-! ## Closed forms -/

/-- **The demonstrations of loops compute their closed forms** on a machine in use that allows a
frame, with any settings and any profile of compiled loops: the sum of the integers from 0 up to but
without `n`, three times that sum, and the power of three with exponent `n`, which counts as 0 when
it is negative. Powers are bounded by the largest size of a product.

They do so exactly as long as there are handles: a sum takes an object for each term from 2 ^ 32 on,
three times a sum for each from 2479700525 on, and a power for each factor after the 39th. When that
is more than are left, the program ends with an error or gives what is no integer. -/
theorem closed_forms (inUse : m.InUse) (positive : 1 ≤ m.config.maxDepth)
    (within : m.heap.size ≤ 2 ^ 32) (n : Int64) :
    m.depth = 0 ∧
    ((m.heap.size + (n.toInt.toNat - 2 ^ 32) ≤ 2 ^ 32 →
      m.Computes (sumBelow n) (∑ i ∈ range n.toInt.toNat, (i : Int))) ∧
    (2 ^ 32 < m.heap.size + (n.toInt.toNat - 2 ^ 32) → m.Misses (sumBelow n))) ∧
    ((m.heap.size + (n.toInt.toNat - 2479700525) ≤ 2 ^ 32 →
      m.Computes (tripleSum n) (3 * ∑ i ∈ range n.toInt.toNat, (i : Int))) ∧
    (2 ^ 32 < m.heap.size + (n.toInt.toNat - 2479700525) → m.Misses (tripleSum n))) ∧
    (n.toInt ≤ 1 ∨ Bits.length (3 ^ (n.toInt - 1).toNat) + 2 ≤ 2 ^ 24 →
      (m.heap.size + (n.toInt.toNat - 39) ≤ 2 ^ 32 →
        m.Computes (powerOfThree n) (3 ^ (max n.toInt 0).toNat)) ∧
      (2 ^ 32 < m.heap.size + (n.toInt.toNat - 39) → m.Misses (powerOfThree n))) := by
  have largest := Int64.toInt_lt n
  have exponent : (max n.toInt 0).toNat = n.toInt.toNat := by omega
  have sum := (sumBelow_counts n).outcome (sumBelow_plain n) total sums (sumBelow_starts n)
    (sumBelow_iterates n) inUse positive within
  have triple := (tripleSum_counts n).outcome (tripleSum_plain n) (3 * total ·) tripleSums
    (tripleSum_starts n) (tripleSum_iterates n) inUse positive within
  rw [Heap.RoomFor, boxed_range boxed_sums] at sum
  rw [Heap.RoomFor, boxed_range_tripleSums] at triple
  refine ⟨inUse.depth_eq_zero, ⟨sum.1, fun noRoom => sum.2 (Nat.not_le_of_lt noRoom)⟩,
    ⟨fun room => triple.1 (by omega), fun noRoom => triple.2 (by omega)⟩, fun small => ?_⟩
  have power := (powerOfThree_counts n).outcome (powerOfThree_plain n) (3 ^ ·) powers
    (powerOfThree_starts n) (powerOfThree_iterates small) inUse positive within
  rw [Heap.RoomFor, boxed_range boxed_powers] at power
  rw [exponent]
  exact ⟨power.1, fun noRoom => power.2 (Nat.not_le_of_lt noRoom)⟩

/-- Sums below 4, a power of three that is no word, and a sum of too many terms. -/
theorem closed_forms_fresh :
    (Machine.start .standard).Computes (sumBelow 4) 6 ∧
    (Machine.start .standard).Computes (tripleSum 4) 18 ∧
    (Machine.start .standard).Computes (powerOfThree 50) (3 ^ 50) ∧ Word.fits (3 ^ 50) = false ∧
    (Machine.start .standard).Misses (sumBelow 0x200000000) := by
  have inUse := Machine.InUse.start .standard
  have within : (Machine.start .standard).heap.size ≤ 2 ^ 32 := by decide
  obtain ⟨-, ⟨sum, -⟩, ⟨triple, -⟩, -⟩ := closed_forms inUse (by decide) within 4
  obtain ⟨-, -, -, power⟩ := closed_forms inUse (by decide) within 50
  obtain ⟨-, ⟨-, misses⟩, -⟩ := closed_forms inUse (by decide) within 0x200000000
  exact ⟨sum (by decide), triple (by decide), (power (.inr (by decide +kernel))).1 (by decide),
    by decide, misses (by decide)⟩

/-- A new machine has too few handles for the sum of the integers below 2 ^ 33, and one without
frames runs nothing. -/
theorem sum_not_computed :
    ¬(Machine.start .standard).Computes (sumBelow 0x200000000)
      (∑ i ∈ range (2 ^ 33), (i : Int)) ∧
    ¬(Machine.start { Config.standard with maxDepth := 0 }).Computes (sumBelow 10)
      (∑ i ∈ range 10, (i : Int)) := by
  have reached := Machine.Reached.start .standard
  obtain ⟨-, misses⟩ := (sumBelow_counts 0x200000000).outcome (sumBelow_plain _) total sums
    (sumBelow_starts _) (sumBelow_iterates _) (Machine.InUse.start .standard) (by decide)
    (by decide)
  rw [Heap.RoomFor, boxed_range boxed_sums] at misses
  have deep := (sumBelow_plain 10).misses_of_deep
    (.start { Config.standard with maxDepth := 0 }) (Nat.le_refl 0)
  exact ⟨(misses (by decide)).not_computes reached _, deep.not_computes (.start _) _⟩

end Demo

end RegisterVm
