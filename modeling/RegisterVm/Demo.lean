import RegisterVm.Bytecode.Chunk

/-!
# Demonstration programs

Small chunks that exercise loops, calls, strings and exception handlers, each for any bound:
`sumBelow`, `tripleSum`, `powerOfThree`, `fibonacci`, `itemList` and `guardedCount`.
-/

namespace RegisterVm

namespace Demo

def r (n : UInt32) : Register := ⟨n⟩

/-- The chunk of a function with the given instructions. -/
def assemble (name : String) (registers params : UInt32) (constants : Array Constant)
    (nested : List Chunk) (ops : List Opcode) : Chunk :=
  ⟨name, (ops.map Instruction.bare).toArray, constants, registers, params, nested⟩

/-- Adds the integers from 0 up to but without `n`. -/
def sumBelow (n : Int64) : Chunk :=
  assemble "sum" 4 0 #[] []
    [.loadInt (r 0) 0,
      .loadInt (r 1) 0,
      .loadInt (r 2) n,
      .fastLess (r 3) (r 1) (r 2),
      .branch false (r 3) 8,
      .update .add (r 0) (r 1),
      .increment (r 1),
      .jump 3,
      .ret (r 0)]

/-- Adds three times the integers from 0 up to but without `n`. -/
def tripleSum (n : Int64) : Chunk :=
  assemble "triple" 6 0 #[.int 3] []
    [.loadInt (r 0) 0,
      .loadInt (r 1) 0,
      .loadInt (r 2) n,
      .loadConst (r 4) 0,
      .fastLess (r 3) (r 1) (r 2),
      .branch false (r 3) 10,
      .binary .mul (r 5) (r 1) (r 4),
      .binary .add (r 0) (r 0) (r 5),
      .increment (r 1),
      .jump 4,
      .ret (r 0)]

/-- Multiplies 1 by 3, `n` times. -/
def powerOfThree (n : Int64) : Chunk :=
  assemble "power" 5 0 #[] []
    [.loadInt (r 0) 1,
      .loadInt (r 1) 0,
      .loadInt (r 2) n,
      .loadInt (r 4) 3,
      .fastLess (r 3) (r 1) (r 2),
      .branch false (r 3) 9,
      .update .mul (r 0) (r 4),
      .increment (r 1),
      .jump 4,
      .ret (r 0)]

/-- A Fibonacci number by the recursion `fib n = fib (n - 1) + fib (n - 2)`, with `fib n = n` below
2. The function finds itself under its global name. -/
def fibonacciFunction : Chunk :=
  assemble "fib" 6 1 #[.str "fib"] []
    [.loadInt (r 1) 2,
      .fastLess (r 2) (r 0) (r 1),
      .branch false (r 2) 4,
      .ret (r 0),
      .loadGlobal (r 3) 0,
      .loadInt (r 1) 1,
      .fast .intSub (r 4) (r 0) (r 1),
      .call (r 4) (r 3) (r 4) 1,
      .loadInt (r 1) 2,
      .fast .intSub (r 5) (r 0) (r 1),
      .call (r 5) (r 3) (r 5) 1,
      .binary .add (r 4) (r 4) (r 5),
      .ret (r 4)]

/-- Defines `fibonacciFunction` and calls it. -/
def fibonacci (n : Int64) : Chunk :=
  assemble "main" 3 0 #[.str "fib"] [fibonacciFunction]
    [.makeFunction (r 0) 0,
      .storeGlobal 0 (r 0),
      .loadInt (r 1) n,
      .call (r 2) (r 0) (r 1) 1,
      .ret (r 2)]

/-- Makes a list of `n` strings and prints it. -/
def itemList (n : Int64) : Chunk :=
  assemble "strings" 10 0 #[.str "item", .str "print"] []
    [.build .list (r 0) (r 1) 0,
      .loadInt (r 1) 0,
      .loadInt (r 2) n,
      .fastLess (r 3) (r 1) (r 2),
      .branch false (r 3) 11,
      .loadConst (r 5) 0,
      .move (r 6) (r 1),
      .build .string (r 4) (r 5) 2,
      .append (r 0) (r 4),
      .increment (r 1),
      .jump 3,
      .loadGlobal (r 7) 1,
      .len (r 8) (r 0),
      .move (r 9) (r 0),
      .call (r 7) (r 7) (r 8) 2,
      .ret (r 0)]

/-- Counts up to `n` in a loop with an exception handler, which is never compiled. -/
def guardedCount (n : Int64) : Chunk :=
  assemble "guarded" 4 0 #[] []
    [.loadInt (r 0) 0,
      .loadInt (r 1) n,
      .fastLess (r 2) (r 0) (r 1),
      .branch false (r 2) 9,
      .pushTry 7 (r 3),
      .popTry,
      .jump 7,
      .increment (r 0),
      .jump 2,
      .ret (r 0)]

end Demo

/-- The demonstrations that can be chosen by name. -/
inductive Demo where
  | sum | triple | power | fib | strings | guarded
  deriving DecidableEq

namespace Demo

def ofName? : String → Option Demo
  | "sum" => some .sum
  | "triple" => some .triple
  | "power" => some .power
  | "fib" => some .fib
  | "strings" => some .strings
  | "guarded" => some .guarded
  | _ => none

def chunk : Demo → Chunk
  | sum => sumBelow 50000
  | triple => tripleSum 40000
  | power => powerOfThree 100
  | fib => fibonacci 25
  | strings => itemList 5
  | guarded => guardedCount 50

end Demo

end RegisterVm
