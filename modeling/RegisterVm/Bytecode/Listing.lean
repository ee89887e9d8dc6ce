import RegisterVm.Bytecode.Loop
import RegisterVm.Number.Decimal
import RegisterVm.Text.Escaped

/-!
# Listings

The text of a chunk: a heading, the constants, one line per instruction with loop headers marked,
and the nested functions after an empty line each.
-/

namespace RegisterVm

namespace Constant

def listed : Constant → String
  | int i => toString i.toInt
  | float x => Binary64.listed x
  | str s => String.ofList (Text.escaped s.toList)
  | bool b => if b then "True" else "False"
  | none => "None"

end Constant

namespace Listing

/-- `s` followed by spaces up to a width. -/
def padRight (width : Nat) (s : String) : String :=
  s ++ String.ofList (List.replicate (width - s.length) ' ')

/-- `s` after spaces up to a width. -/
def padLeft (width : Nat) (s : String) : String :=
  String.ofList (List.replicate (width - s.length) ' ') ++ s

def register (r : Register) : String := s!"r{r.toNat}"

/-- An operand range, from its first register to its last. -/
def range (start : Register) (count : Nat) : String :=
  if count = 0 then "()"
  else
    let last := start.toNat + count - 1
    s!"{register start}..r{last}"

/-- A name operand: its text, or the index of a constant that is no string. -/
def name (c : Chunk) (index : UInt32) : String :=
  (c.nameAt? index).getD s!"#{index.toNat}"

/-- The operands of an instruction. -/
def operands (c : Chunk) : Opcode → String
  | .loadConst dst index =>
    match c.constants[index.toNat]? with
    | some k => s!"{register dst}, {k.listed}"
    | none => s!"{register dst}, #{index.toNat}"
  | .loadInt dst value => s!"{register dst}, {value.toInt}"
  | .loadBool dst value => s!"{register dst}, {value}"
  | .loadNone dst => register dst
  | .move dst src => s!"{register dst}, {register src}"
  | .loadGlobal dst n => s!"{register dst}, {name c n}"
  | .storeGlobal n src => s!"{name c n}, {register src}"
  | .binary op dst lhs rhs => s!"{register dst} = {register lhs} {op.symbol} {register rhs}"
  | .compare op dst lhs rhs => s!"{register dst} = {register lhs} {op.symbol} {register rhs}"
  | .unary op dst src => s!"{register dst} = {op.name} {register src}"
  | .fast _ dst lhs rhs | .fastLess dst lhs rhs =>
    s!"{register dst}, {register lhs}, {register rhs}"
  | .increment reg | .decrement reg => register reg
  | .update _ reg src => s!"{register reg}, {register src}"
  | .jump target => s!"-> {target.toNat}"
  | .branch _ cond target => s!"{register cond} -> {target.toNat}"
  | .ret src | .raise src => register src
  | .retNone | .nop | .popTry => ""
  | .build form dst start count => s!"{register dst}, {range start (form.width count)}"
  | .getItem dst container key => s!"{register dst} = {register container}[{register key}]"
  | .setItem container key src => s!"{register container}[{register key}] = {register src}"
  | .slice dst container start stop =>
    s!"{register dst} = {register container}[{register start}:{register stop}]"
  | .append list src => s!"{register list}, {register src}"
  | .len dst src | .getIter dst src => s!"{register dst}, {register src}"
  | .forIter dst iter exit => s!"{register dst}, {register iter} else -> {exit.toNat}"
  | .getAttr dst obj n => s!"{register dst} = {register obj}.{name c n}"
  | .setAttr obj n src => s!"{register obj}.{name c n} = {register src}"
  | .callMethod dst obj n args argc =>
    s!"{register dst} = {register obj}.{name c n}({range args argc.toNat})"
  | .call dst callee args argc => s!"{register dst} = {register callee}({range args argc.toNat})"
  | .makeFunction dst function =>
    let child := ((c.nested[function.toNat]?).map (·.name)).getD "?"
    s!"{register dst}, <{child}>"
  | .makeClass dst n body base =>
    match base with
    | some b => s!"{register dst}, {name c n}({register b}), {register body}"
    | none => s!"{register dst}, {name c n}, {register body}"
  | .pushTry handler dst => s!"{register dst} -> {handler.toNat}"

def constantLine (index : Nat) (k : Constant) : String :=
  s!"    #{padRight 3 (toString index)} {k.listed}\n"

def instructionLine (c : Chunk) (headers : List Nat) (address : Nat) (op : Opcode) : String :=
  let marker := if headers.contains address then ">>" else "  "
  s!"  {marker}{padLeft 4 (toString address)}  {padRight 14 op.mnemonic}{operands c op}\n"

/-- The listing of a chunk without its nested functions. -/
def ownText (c : Chunk) : String :=
  let heading :=
    s!"function {c.name} (params {c.paramCount.toNat}, registers {c.registerCount.toNat})\n"
  let constants :=
    if c.constants.isEmpty then ""
    else "  constants:\n" ++ String.join (c.constants.toList.mapIdx constantLine)
  let headers := c.loops.map (·.header)
  let instructions := c.instructions.toList.mapIdx fun address i =>
    instructionLine c headers address i.opcode
  heading ++ constants ++ String.join instructions

end Listing

namespace Chunk

mutual

/-- The listing of a chunk. -/
def listing : Chunk → String
  | ⟨name, instructions, constants, registerCount, paramCount, nested⟩ =>
    Listing.ownText ⟨name, instructions, constants, registerCount, paramCount, nested⟩ ++
      listings nested

def listings : List Chunk → String
  | [] => ""
  | c :: cs => "\n" ++ c.listing ++ listings cs

end

end Chunk

end RegisterVm
