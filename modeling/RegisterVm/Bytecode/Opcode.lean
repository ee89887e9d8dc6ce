import RegisterVm.Operator

/-!
# Instructions of the register machine

Every operand is explicit: a register, an index into the constant pool or the nested functions, or
the address of an instruction. `Opcode.spans` lists the registers an instruction reads or writes,
an operand range being one span; `Opcode.registers` lists them one by one.
-/

namespace RegisterVm

/-- The number of a register. -/
structure Register where
  index : UInt32
  deriving DecidableEq

namespace Register

/-- The position in a register file. -/
def toNat (r : Register) : Nat := r.index.toNat

/-- The `n`-th register after `r`; the numbering wraps at 32 bits. -/
def offset (r : Register) (n : Nat) : Register := ⟨r.index + UInt32.ofNat n⟩

end Register

/-- The `count` registers from `start` on. -/
structure RegisterSpan where
  start : Register
  count : Nat
  deriving DecidableEq

namespace RegisterSpan

def single (r : Register) : RegisterSpan := ⟨r, 1⟩

def toList (s : RegisterSpan) : List Register :=
  (List.range s.count).map s.start.offset

/-- The first register of the span that is not below `bound`. The registers count upwards, so it is
the first one, or else `bound` itself. -/
def firstFrom? (s : RegisterSpan) (bound : UInt32) : Option Register :=
  if s.count = 0 then none
  else if bound ≤ s.start.index then some s.start
  else if bound.toNat < s.start.toNat + s.count then some ⟨bound⟩
  else none

end RegisterSpan

/-- Arithmetic emitted where the operands are expected to be of one number type. It means the same
as the generic instruction. -/
inductive FastForm where
  | intAdd | intSub | intMul | floatAdd | floatSub | floatMul | floatDiv
  deriving DecidableEq

def FastForm.operator : FastForm → BinaryOperator
  | intAdd | floatAdd => .add
  | intSub | floatSub => .sub
  | intMul | floatMul => .mul
  | floatDiv => .div

/-- Operators fused with the store into their left operand. -/
inductive UpdateForm where
  | add | sub | mul | div
  deriving DecidableEq

def UpdateForm.operator : UpdateForm → BinaryOperator
  | add => .add
  | sub => .sub
  | mul => .mul
  | div => .div

/-- What is built from a range of registers. -/
inductive BuildForm where
  | list | tuple | set | dict | string
  deriving DecidableEq

inductive Opcode where
  | loadConst (dst : Register) (index : UInt32)
  | loadInt (dst : Register) (value : Int64)
  | loadBool (dst : Register) (value : Bool)
  | loadNone (dst : Register)
  | move (dst src : Register)
  | loadGlobal (dst : Register) (name : UInt32)
  | storeGlobal (name : UInt32) (src : Register)
  | binary (op : BinaryOperator) (dst lhs rhs : Register)
  | compare (op : CompareOperator) (dst lhs rhs : Register)
  | unary (op : UnaryOperator) (dst src : Register)
  | fast (form : FastForm) (dst lhs rhs : Register)
  /-- The comparison `<` where both operands are expected to be words. -/
  | fastLess (dst lhs rhs : Register)
  | increment (reg : Register)
  | decrement (reg : Register)
  | update (form : UpdateForm) (reg src : Register)
  | jump (target : UInt32)
  /-- Jump when the truth of `cond` is `on`. -/
  | branch (on : Bool) (cond : Register) (target : UInt32)
  | ret (src : Register)
  | retNone
  | nop
  /-- Build from `count` registers, or from `count` pairs of registers for a dict. -/
  | build (form : BuildForm) (dst start : Register) (count : UInt32)
  | getItem (dst container key : Register)
  | setItem (container key src : Register)
  | slice (dst container start stop : Register)
  | append (list src : Register)
  | len (dst src : Register)
  | getIter (dst src : Register)
  /-- The next item of an iterator, or a jump to `exit` when there is none. -/
  | forIter (dst iter : Register) (exit : UInt32)
  | getAttr (dst obj : Register) (name : UInt32)
  | setAttr (obj : Register) (name : UInt32) (src : Register)
  | callMethod (dst obj : Register) (name : UInt32) (args : Register) (argc : UInt32)
  | call (dst callee args : Register) (argc : UInt32)
  | makeFunction (dst : Register) (function : UInt32)
  | makeClass (dst : Register) (name : UInt32) (body : Register) (base : Option Register)
  /-- On an error store the exception in `dst` and continue at `handler`. -/
  | pushTry (handler : UInt32) (dst : Register)
  | popTry
  | raise (src : Register)
  deriving DecidableEq

/-- The number of registers a `build` instruction reads; twice the count of a dict stops at the
largest 32-bit number. -/
def BuildForm.width (form : BuildForm) (count : UInt32) : Nat :=
  match form with
  | dict => min (2 * count.toNat) 4294967295
  | _ => count.toNat

namespace Opcode

/-- The short name of an instruction in a listing. -/
def mnemonic : Opcode → String
  | loadConst _ _ => "load_const"
  | loadInt _ _ => "load_int"
  | loadBool _ _ => "load_bool"
  | loadNone _ => "load_none"
  | move _ _ => "move"
  | loadGlobal _ _ => "load_global"
  | storeGlobal _ _ => "store_global"
  | binary _ _ _ _ => "binary"
  | compare _ _ _ _ => "compare"
  | unary _ _ _ => "unary"
  | fast .intAdd _ _ _ => "int_add"
  | fast .intSub _ _ _ => "int_sub"
  | fast .intMul _ _ _ => "int_mul"
  | fastLess _ _ _ => "int_lt"
  | fast .floatAdd _ _ _ => "float_add"
  | fast .floatSub _ _ _ => "float_sub"
  | fast .floatMul _ _ _ => "float_mul"
  | fast .floatDiv _ _ _ => "float_div"
  | increment _ => "inc"
  | decrement _ => "dec"
  | update .add _ _ => "add_store"
  | update .sub _ _ => "sub_store"
  | update .mul _ _ => "mul_store"
  | update .div _ _ => "div_store"
  | jump _ => "jump"
  | branch true _ _ => "jump_if_true"
  | branch false _ _ => "jump_if_false"
  | ret _ => "return"
  | retNone => "return_none"
  | nop => "nop"
  | build .list _ _ _ => "build_list"
  | build .tuple _ _ _ => "build_tuple"
  | build .set _ _ _ => "build_set"
  | build .dict _ _ _ => "build_dict"
  | build .string _ _ _ => "build_string"
  | getItem _ _ _ => "get_item"
  | setItem _ _ _ => "set_item"
  | slice _ _ _ _ => "slice"
  | append _ _ => "append"
  | len _ _ => "len"
  | getIter _ _ => "get_iter"
  | forIter _ _ _ => "for_iter"
  | getAttr _ _ _ => "get_attr"
  | setAttr _ _ _ => "set_attr"
  | callMethod _ _ _ _ _ => "call_method"
  | call _ _ _ _ => "call"
  | makeFunction _ _ => "make_function"
  | makeClass _ _ _ _ => "make_class"
  | pushTry _ _ => "push_try"
  | popTry => "pop_try"
  | raise _ => "raise"

/-- The target of a jump, which may close a loop. -/
def jumpTarget? : Opcode → Option Nat
  | jump target | branch _ _ target => some target.toNat
  | _ => none

/-- Any address other than the next one that control can go to. -/
def branchTarget? : Opcode → Option Nat
  | forIter _ _ exit => some exit.toNat
  | pushTry handler _ => some handler.toNat
  | op => op.jumpTarget?

/-- Whether control never goes on to the next instruction. -/
def isTerminator : Opcode → Bool
  | jump _ | ret _ | retNone | raise _ => true
  | _ => false

/-- Whether the branch target must come after the instruction. -/
def isForwardOnly : Opcode → Bool
  | forIter _ _ _ | pushTry _ _ => true
  | _ => false

/-- The constant that names a global, an attribute or a class. -/
def nameOperand? : Opcode → Option UInt32
  | loadGlobal _ name | storeGlobal name _ | getAttr _ _ name | setAttr _ name _
  | callMethod _ _ name _ _ | makeClass _ name _ _ => some name
  | _ => none

/-- The registers that are read or written, ranges kept together. -/
def spans : Opcode → List RegisterSpan
  | loadConst dst _ | loadInt dst _ | loadBool dst _ | loadNone dst | loadGlobal dst _
  | makeFunction dst _ | pushTry _ dst => [.single dst]
  | storeGlobal _ src | ret src | raise src => [.single src]
  | move dst src | unary _ dst src | len dst src | getIter dst src => [.single dst, .single src]
  | binary _ dst lhs rhs | compare _ dst lhs rhs | fast _ dst lhs rhs | fastLess dst lhs rhs =>
    [.single dst, .single lhs, .single rhs]
  | increment reg | decrement reg => [.single reg]
  | update _ reg src => [.single reg, .single src]
  | branch _ cond _ => [.single cond]
  | jump _ | retNone | nop | popTry => []
  | build form dst start count => [.single dst, ⟨start, form.width count⟩]
  | getItem dst container key => [.single dst, .single container, .single key]
  | setItem container key src => [.single container, .single key, .single src]
  | slice dst container start stop =>
    [.single dst, .single container, .single start, .single stop]
  | append list src => [.single list, .single src]
  | forIter dst iter _ => [.single dst, .single iter]
  | getAttr dst obj _ => [.single dst, .single obj]
  | setAttr obj _ src => [.single obj, .single src]
  | callMethod dst obj _ args argc => [.single dst, .single obj, ⟨args, argc.toNat⟩]
  | call dst callee args argc => [.single dst, .single callee, ⟨args, argc.toNat⟩]
  | makeClass dst _ body base => .single dst :: .single body :: (base.map .single).toList

/-- The registers that are read or written, in operand order. -/
def registers (op : Opcode) : List Register := op.spans.flatMap RegisterSpan.toList

end Opcode

end RegisterVm
