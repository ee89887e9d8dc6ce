import RegisterVm.Bytecode.Chunk
import RegisterVm.Json.Decoder
import RegisterVm.Json.Printer

/-!
# Bytecode files

A chunk as a JSON document. `Chunk.document` writes every field; `Chunk.decoder` also takes a chunk
without the fields that have defaults, and an instruction that is just its opcode.
-/

namespace RegisterVm

open Json

/-! ## Writing -/

namespace FastForm

/-- The name of the instruction in a file. -/
def variant : FastForm → String
  | intAdd => "FastIntAdd"
  | intSub => "FastIntSub"
  | intMul => "FastIntMul"
  | floatAdd => "FastFloatAdd"
  | floatSub => "FastFloatSub"
  | floatMul => "FastFloatMul"
  | floatDiv => "FastFloatDiv"

end FastForm

namespace UpdateForm

def variant : UpdateForm → String
  | add => "LoadAddStore"
  | sub => "LoadSubStore"
  | mul => "LoadMulStore"
  | div => "LoadDivStore"

end UpdateForm

namespace BuildForm

def variant : BuildForm → String
  | list => "BuildList"
  | tuple => "BuildTuple"
  | set => "BuildSet"
  | dict => "BuildDict"
  | string => "BuildString"

end BuildForm

def natDocument (n : UInt32) : Document := .int n.toNat

def Register.document (r : Register) : Document := natDocument r.index

namespace Opcode

/-- The name of an instruction in a file. -/
def variant : Opcode → String
  | loadConst _ _ => "LoadConst"
  | loadInt _ _ => "LoadInt"
  | loadBool _ _ => "LoadBool"
  | loadNone _ => "LoadNone"
  | move _ _ => "MoveReg"
  | loadGlobal _ _ => "LoadGlobal"
  | storeGlobal _ _ => "StoreGlobal"
  | binary _ _ _ _ => "Binary"
  | compare _ _ _ _ => "Compare"
  | unary _ _ _ => "Unary"
  | fast form _ _ _ => form.variant
  | fastLess _ _ _ => "FastIntLt"
  | increment _ => "IncLocal"
  | decrement _ => "DecLocal"
  | update form _ _ => form.variant
  | jump _ => "Jump"
  | branch true _ _ => "JumpIfTrue"
  | branch false _ _ => "JumpIfFalse"
  | ret _ => "Return"
  | retNone => "ReturnNone"
  | nop => "Nop"
  | build form _ _ _ => form.variant
  | getItem _ _ _ => "GetItem"
  | setItem _ _ _ => "SetItem"
  | slice _ _ _ _ => "Slice"
  | append _ _ => "Append"
  | len _ _ => "Len"
  | getIter _ _ => "GetIter"
  | forIter _ _ _ => "ForIter"
  | getAttr _ _ _ => "GetAttr"
  | setAttr _ _ _ => "SetAttr"
  | callMethod _ _ _ _ _ => "CallMethod"
  | call _ _ _ _ => "Call"
  | makeFunction _ _ => "MakeFunction"
  | makeClass _ _ _ _ => "MakeClass"
  | pushTry _ _ => "PushTry"
  | popTry => "PopTry"
  | raise _ => "Raise"

/-- The operands of an instruction, in the order in which a file has them. -/
def members : Opcode → List (String × Document)
  | loadConst dst index => [("dst", dst.document), ("index", natDocument index)]
  | loadInt dst value => [("dst", dst.document), ("value", .int value.toInt)]
  | loadBool dst value => [("dst", dst.document), ("value", .bool value)]
  | loadNone dst => [("dst", dst.document)]
  | move dst src | len dst src | getIter dst src =>
    [("dst", dst.document), ("src", src.document)]
  | loadGlobal dst name => [("dst", dst.document), ("name", natDocument name)]
  | storeGlobal name src => [("name", natDocument name), ("src", src.document)]
  | binary op dst lhs rhs =>
    [("op", .text op.name), ("dst", dst.document), ("lhs", lhs.document), ("rhs", rhs.document)]
  | compare op dst lhs rhs =>
    [("op", .text op.name), ("dst", dst.document), ("lhs", lhs.document), ("rhs", rhs.document)]
  | unary op dst src => [("op", .text op.name), ("dst", dst.document), ("src", src.document)]
  | fast _ dst lhs rhs | fastLess dst lhs rhs =>
    [("dst", dst.document), ("lhs", lhs.document), ("rhs", rhs.document)]
  | increment reg | decrement reg => [("reg", reg.document)]
  | update _ reg src => [("reg", reg.document), ("src", src.document)]
  | jump target => [("target", natDocument target)]
  | branch _ cond target => [("cond", cond.document), ("target", natDocument target)]
  | ret src | raise src => [("src", src.document)]
  | retNone | nop | popTry => []
  | build _ dst start count =>
    [("dst", dst.document), ("start", start.document), ("count", natDocument count)]
  | getItem dst container key =>
    [("dst", dst.document), ("container", container.document), ("key", key.document)]
  | setItem container key src =>
    [("container", container.document), ("key", key.document), ("src", src.document)]
  | slice dst container start stop =>
    [("dst", dst.document), ("container", container.document), ("start", start.document),
      ("stop", stop.document)]
  | append list src => [("list", list.document), ("src", src.document)]
  | forIter dst iter exit =>
    [("dst", dst.document), ("iter", iter.document), ("exit", natDocument exit)]
  | getAttr dst obj name =>
    [("dst", dst.document), ("obj", obj.document), ("name", natDocument name)]
  | setAttr obj name src =>
    [("obj", obj.document), ("name", natDocument name), ("src", src.document)]
  | callMethod dst obj name args argc =>
    [("dst", dst.document), ("obj", obj.document), ("name", natDocument name),
      ("args", args.document), ("argc", natDocument argc)]
  | call dst callee args argc =>
    [("dst", dst.document), ("callee", callee.document), ("args", args.document),
      ("argc", natDocument argc)]
  | makeFunction dst function => [("dst", dst.document), ("function", natDocument function)]
  | makeClass dst name body base =>
    [("dst", dst.document), ("name", natDocument name), ("namespace", body.document),
      ("base", (base.map Register.document).getD .null)]
  | pushTry handler dst => [("handler", natDocument handler), ("dst", dst.document)]

def document (op : Opcode) : Document :=
  match op.members with
  | [] => .text op.variant
  | members => .record [(op.variant, .record members)]

end Opcode

def SourcePosition.document (p : SourcePosition) : Document :=
  .record [("line", natDocument p.line), ("column", natDocument p.column)]

def Instruction.document (i : Instruction) : Document :=
  .record <| ("opcode", i.opcode.document) ::
    (i.position.map fun p => ("source_position", p.document)).toList

def Constant.document : Constant → Document
  | int i => .record [("Int", .int i.toInt)]
  | float x => .record [("Float", .float x)]
  | str s => .record [("Str", .text s)]
  | bool b => .record [("Bool", .bool b)]
  | none => .text "None"

namespace Chunk

mutual

def document : Chunk → Document
  | ⟨name, instructions, constants, registerCount, paramCount, nested⟩ =>
    .record
      [("name", .text name),
        ("instructions", .list (instructions.toList.map Instruction.document)),
        ("constants", .list (constants.toList.map Constant.document)),
        ("register_count", natDocument registerCount),
        ("param_count", natDocument paramCount),
        ("nested_functions", .list (documents nested))]

def documents : List Chunk → List Document
  | [] => []
  | c :: cs => c.document :: documents cs

end

/-- The text of a chunk file. -/
def json (c : Chunk) : String := c.document.pretty

end Chunk

/-! ## Reading -/

/-- An operand of an instruction: its name, how it is read, and a value to start from. -/
structure OperandField (α : Type) where
  name : String
  item : Decoder α
  blank : α

def OperandField.set {α σ : Type} (o : OperandField α) (update : σ → α → σ) : RecordField σ :=
  .required o.name o.item update

namespace Json.Decoder

variable {α β γ δ ε ζ : Type}

/-- An instruction with one operand. -/
def one (a : OperandField α) (make : α → ζ) : Decoder ζ :=
  (Decoder.record [a.set fun _ x => x] a.blank).map make

def two (a : OperandField α) (b : OperandField β) (make : α → β → ζ) : Decoder ζ :=
  (Decoder.record [a.set fun s x => (x, s.2), b.set fun s y => (s.1, y)] (a.blank, b.blank)).map
    fun s => make s.1 s.2

def three (a : OperandField α) (b : OperandField β) (c : OperandField γ) (make : α → β → γ → ζ) :
    Decoder ζ :=
  (Decoder.record
    [a.set fun s x => (x, s.2), b.set fun s y => (s.1, y, s.2.2),
      c.set fun s z => (s.1, s.2.1, z)] (a.blank, b.blank, c.blank)).map
    fun s => make s.1 s.2.1 s.2.2

def four (a : OperandField α) (b : OperandField β) (c : OperandField γ) (d : OperandField δ)
    (make : α → β → γ → δ → ζ) : Decoder ζ :=
  (Decoder.record
    [a.set fun s x => (x, s.2), b.set fun s y => (s.1, y, s.2.2),
      c.set fun s z => (s.1, s.2.1, z, s.2.2.2), d.set fun s w => (s.1, s.2.1, s.2.2.1, w)]
    (a.blank, b.blank, c.blank, d.blank)).map
    fun s => make s.1 s.2.1 s.2.2.1 s.2.2.2

def five (a : OperandField α) (b : OperandField β) (c : OperandField γ) (d : OperandField δ)
    (e : OperandField ε) (make : α → β → γ → δ → ε → ζ) : Decoder ζ :=
  (Decoder.record
    [a.set fun s x => (x, s.2), b.set fun s y => (s.1, y, s.2.2),
      c.set fun s z => (s.1, s.2.1, z, s.2.2.2),
      d.set fun s w => (s.1, s.2.1, s.2.2.1, w, s.2.2.2.2),
      e.set fun s v => (s.1, s.2.1, s.2.2.1, s.2.2.2.1, v)]
    (a.blank, b.blank, c.blank, d.blank, e.blank)).map
    fun s => make s.1 s.2.1 s.2.2.1 s.2.2.2.1 s.2.2.2.2

end Json.Decoder

namespace Opcode

def registerDecoder : Decoder Register := Decoder.uint32.map Register.mk

def register (name : String) : OperandField Register := ⟨name, registerDecoder, ⟨0⟩⟩

def index (name : String) : OperandField UInt32 := ⟨name, .uint32, 0⟩

/-- A variant that has no content. -/
def plain {α : Type} (ofName? : String → Option α) : Decoder α :=
  Decoder.tagged ofName? fun _ => none

def binaryOperator : OperandField BinaryOperator := ⟨"op", plain BinaryOperator.ofName?, .add⟩

def compareOperator : OperandField CompareOperator := ⟨"op", plain CompareOperator.ofName?, .lt⟩

def unaryOperator : OperandField UnaryOperator := ⟨"op", plain UnaryOperator.ofName?, .neg⟩

def threeRegisters (make : Register → Register → Register → Opcode) : Decoder Opcode :=
  .three (register "dst") (register "lhs") (register "rhs") make

def buildDecoder (form : BuildForm) : Decoder Opcode :=
  .three (register "dst") (register "start") (index "count") (build form)

def branchDecoder (on : Bool) : Decoder Opcode :=
  .two (register "cond") (index "target") (branch on)

/-- The base of a class may be missing from an object. -/
def makeClassDecoder : Decoder Opcode :=
  (Decoder.record
    [.required "dst" registerDecoder fun s x => (x, s.2),
      .required "name" .uint32 fun s x => (s.1, x, s.2.2),
      .required "namespace" registerDecoder fun s x => (s.1, s.2.1, x, s.2.2.2),
      .nullable "base" registerDecoder fun s x => (s.1, s.2.1, s.2.2.1, x)]
    (⟨0⟩, 0, ⟨0⟩, none)).map
    fun s => makeClass s.1 s.2.1 s.2.2.1 s.2.2.2

/-- The instructions without operands. -/
def unit? : String → Option Opcode
  | "ReturnNone" => some retNone
  | "Nop" => some nop
  | "PopTry" => some popTry
  | _ => none

/-- How the operands of an instruction are read. -/
def variant? : String → Option (Decoder Opcode)
  | "LoadConst" => some (.two (register "dst") (index "index") loadConst)
  | "LoadInt" => some (.two (register "dst") ⟨"value", .word, 0⟩ loadInt)
  | "LoadBool" => some (.two (register "dst") ⟨"value", .bool, false⟩ loadBool)
  | "LoadNone" => some (.one (register "dst") loadNone)
  | "MoveReg" => some (.two (register "dst") (register "src") move)
  | "LoadGlobal" => some (.two (register "dst") (index "name") loadGlobal)
  | "StoreGlobal" => some (.two (index "name") (register "src") storeGlobal)
  | "Binary" =>
    some (.four binaryOperator (register "dst") (register "lhs") (register "rhs") binary)
  | "Compare" =>
    some (.four compareOperator (register "dst") (register "lhs") (register "rhs") compare)
  | "Unary" => some (.three unaryOperator (register "dst") (register "src") unary)
  | "FastIntAdd" => some (threeRegisters (fast .intAdd))
  | "FastIntSub" => some (threeRegisters (fast .intSub))
  | "FastIntMul" => some (threeRegisters (fast .intMul))
  | "FastIntLt" => some (threeRegisters fastLess)
  | "FastFloatAdd" => some (threeRegisters (fast .floatAdd))
  | "FastFloatSub" => some (threeRegisters (fast .floatSub))
  | "FastFloatMul" => some (threeRegisters (fast .floatMul))
  | "FastFloatDiv" => some (threeRegisters (fast .floatDiv))
  | "IncLocal" => some (.one (register "reg") increment)
  | "DecLocal" => some (.one (register "reg") decrement)
  | "LoadAddStore" => some (.two (register "reg") (register "src") (update .add))
  | "LoadSubStore" => some (.two (register "reg") (register "src") (update .sub))
  | "LoadMulStore" => some (.two (register "reg") (register "src") (update .mul))
  | "LoadDivStore" => some (.two (register "reg") (register "src") (update .div))
  | "Jump" => some (.one (index "target") jump)
  | "JumpIfTrue" => some (branchDecoder true)
  | "JumpIfFalse" => some (branchDecoder false)
  | "Return" => some (.one (register "src") ret)
  | "BuildList" => some (buildDecoder .list)
  | "BuildTuple" => some (buildDecoder .tuple)
  | "BuildSet" => some (buildDecoder .set)
  | "BuildDict" => some (buildDecoder .dict)
  | "BuildString" => some (buildDecoder .string)
  | "GetItem" => some (.three (register "dst") (register "container") (register "key") getItem)
  | "SetItem" => some (.three (register "container") (register "key") (register "src") setItem)
  | "Slice" =>
    some (.four (register "dst") (register "container") (register "start") (register "stop") slice)
  | "Append" => some (.two (register "list") (register "src") append)
  | "Len" => some (.two (register "dst") (register "src") len)
  | "GetIter" => some (.two (register "dst") (register "src") getIter)
  | "ForIter" => some (.three (register "dst") (register "iter") (index "exit") forIter)
  | "GetAttr" => some (.three (register "dst") (register "obj") (index "name") getAttr)
  | "SetAttr" => some (.three (register "obj") (index "name") (register "src") setAttr)
  | "CallMethod" =>
    some (.five (register "dst") (register "obj") (index "name") (register "args") (index "argc")
      callMethod)
  | "Call" =>
    some (.four (register "dst") (register "callee") (register "args") (index "argc") call)
  | "MakeFunction" => some (.two (register "dst") (index "function") makeFunction)
  | "MakeClass" => some makeClassDecoder
  | "PushTry" => some (.two (index "handler") (register "dst") pushTry)
  | "Raise" => some (.one (register "src") raise)
  | _ => none

def decoder : Decoder Opcode := Decoder.tagged unit? variant?

end Opcode

def SourcePosition.decoder : Decoder SourcePosition :=
  .two (Opcode.index "line") (Opcode.index "column") SourcePosition.mk

namespace Instruction

/-- An instruction with its position, which may be missing or null. -/
def fullDecoder : Decoder Instruction :=
  Decoder.record
    [.required "opcode" Opcode.decoder fun i op => { i with opcode := op },
      .withDefault "source_position" SourcePosition.decoder.optional
        fun i position => { i with position }]
    (bare .nop)

/-- An instruction that is just an opcode, or else one written as an object with its position. -/
def ofDocument? (d : Document) : Option Instruction :=
  match Opcode.decoder maxDepth d with
  | .ok op => some (bare op)
  | .error _ =>
    match d with
    | .object _ _ _ _ => (fullDecoder maxDepth d).toOption
    | _ => none

def decoder : Decoder Instruction := Decoder.whole ofDocument?

end Instruction

namespace Constant

def unit? : String → Option Constant
  | "None" => some none
  | _ => Option.none

def variant? : String → Option (Decoder Constant)
  | "Int" => some (Decoder.word.map int)
  | "Float" => some (Decoder.float.map float)
  | "Str" => some (Decoder.text.map str)
  | "Bool" => some (Decoder.bool.map bool)
  | _ => Option.none

def decoder : Decoder Constant := Decoder.tagged unit? variant?

end Constant

namespace Chunk

/-- A chunk in which functions are nested at most `depth` deep. -/
def decoderWithin : (depth : Nat) → Decoder Chunk
  | 0 => fun _ d => .error (Decoder.mismatch d)
  | depth + 1 =>
    Decoder.record
      [.withDefault "name" .text fun c name => { c with name },
        .required "instructions" Instruction.decoder.list
          fun c instructions => { c with instructions := instructions.toArray },
        .withDefault "constants" Constant.decoder.list
          fun c constants => { c with constants := constants.toArray },
        .required "register_count" .uint32 fun c registerCount => { c with registerCount },
        .withDefault "param_count" .uint32 fun c paramCount => { c with paramCount },
        .withDefault "nested_functions" (decoderWithin depth).list
          fun c nested => { c with nested }]
      (empty defaultName)

/-- Functions cannot be nested deeper than brackets. -/
def decoder : Decoder Chunk := decoderWithin maxDepth

/-- The chunk of a chunk file. -/
def ofJson (text : String) : Except ReadError Chunk := decoder.run text

end Chunk

end RegisterVm
