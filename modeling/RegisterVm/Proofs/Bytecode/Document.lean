import RegisterVm.Bytecode.Document
import RegisterVm.Proofs.Json.Decoder

/-!
# Reading chunk files back

A chunk is read from its file as it was written (`Chunk.ofJson_json`), unless brackets are nested
deeper in the file than a reader takes, or a float is rounded on the way. What an instruction is
written as is decoded as this instruction and no other (`Opcode.decoder_document`), and what it is
written as together with its position is never taken for an instruction alone
(`Instruction.opcode_decoder_document`).
-/

namespace RegisterVm

open Json

/-! ## Operands -/

theorem natDocument_bounds (n : UInt32) :
    -0x8000000000000000 ≤ (n.toNat : Int) ∧ (n.toNat : Int) < 0x10000000000000000 := by
  have := n.toNat_lt
  omega

theorem written_natDocument (n : UInt32) : (natDocument n).Written :=
  Document.written_int (natDocument_bounds n).1 (natDocument_bounds n).2

theorem uint32_natDocument (n : UInt32) (budget : Nat) :
    Decoder.uint32 budget (natDocument n) = .ok n := by
  have value := Document.int?_int (natDocument_bounds n).1 (natDocument_bounds n).2
  have small : (n.toNat : Int) < 4294967296 := by
    have := n.toNat_lt
    omega
  simp [Decoder.uint32, Decoder.leaf, natDocument, value, small]

theorem word_bounds (a : Int64) :
    -0x8000000000000000 ≤ a.toInt ∧ a.toInt < 0x10000000000000000 := by
  have := Int64.le_toInt a
  have := Int64.toInt_lt a
  omega

theorem written_word (a : Int64) : (Document.int a.toInt).Written :=
  Document.written_int (word_bounds a).1 (word_bounds a).2

theorem word_int (a : Int64) (budget : Nat) : Decoder.word budget (.int a.toInt) = .ok a := by
  have value := Document.int?_int (word_bounds a).1 (word_bounds a).2
  simp [Decoder.word, Decoder.leaf, value, Word.ofInt?_toInt]

theorem Register.written_document (r : Register) : r.document.Written := written_natDocument r.index

theorem Register.decoder_document (r : Register) (budget : Nat) :
    Opcode.registerDecoder budget r.document = .ok r := by
  simp only [Opcode.registerDecoder, Decoder.map, Register.document, uint32_natDocument]
  rfl

/-- An operator is decoded from its name. -/
theorem Opcode.plain_text {α : Type} {ofName? : String → Option α} {name : String} {a : α}
    (known : ofName? name = some a) (budget : Nat) :
    plain ofName? budget (.text name) = .ok a :=
  Decoder.tagged_text known

/-! ## Records of operands -/

namespace Json.Decoder

variable {α β γ δ ε ζ : Type} {budget : Nat} {dx dy dz dw dv : Document} {x : α} {y : β} {z : γ}
  {w : δ} {v : ε}

/-- A field of which a value was written. -/
theorem chain_field {σ : Type} {f : RecordField σ} {item : Decoder α} {set : σ → α → σ}
    (reads : f.read = fun s budget d => (item budget d).map (set s))
    (read : item budget dx = .ok x) {fs : List (RecordField σ)} {s s' : σ}
    {ms : List (String × Document)} (rest : RecordField.Chain budget fs (set s x) ms s') :
    RecordField.Chain budget (f :: fs) s ((f.name, dx) :: ms) s' := by
  have read : f.read s budget dx = .ok (set s x) := by
    simp only [reads, read]
    rfl
  exact .field read rest

/-- An operand that was written. -/
theorem chain_operand {σ : Type} {o : OperandField α} {set : σ → α → σ}
    (read : o.item budget dx = .ok x) {fs : List (RecordField σ)} {s s' : σ}
    {ms : List (String × Document)} (rest : RecordField.Chain budget fs (set s x) ms s') :
    RecordField.Chain budget (o.set set :: fs) s ((o.name, dx) :: ms) s' :=
  chain_field (f := o.set set) rfl read rest

variable {a : OperandField α} {b : OperandField β} {c : OperandField γ} {d : OperandField δ}
  {e : OperandField ε}

/-- What is made of a record that is decoded. -/
theorem map_record {σ : Type} {fields : List (RecordField σ)} {defaults s : σ}
    {ms : List (String × Document)} (chain : RecordField.Chain budget fields defaults ms s)
    (names : (fields.map RecordField.name).Nodup) (make : σ → ζ) :
    (record fields defaults).map make (budget + 1) (.record ms) = .ok (make s) := by
  simp only [map, record_chain chain names]
  rfl

theorem one_record (make : α → ζ) (hx : a.item budget dx = .ok x) :
    one a make (budget + 1) (.record [(a.name, dx)]) = .ok (make x) :=
  map_record (chain_operand hx (.done _)) (by simp) make

theorem two_record (make : α → β → ζ) (names : [a.name, b.name].Nodup)
    (hx : a.item budget dx = .ok x) (hy : b.item budget dy = .ok y) :
    two a b make (budget + 1) (.record [(a.name, dx), (b.name, dy)]) = .ok (make x y) :=
  map_record (chain_operand hx (chain_operand hy (.done _))) names _

theorem three_record (make : α → β → γ → ζ) (names : [a.name, b.name, c.name].Nodup)
    (hx : a.item budget dx = .ok x) (hy : b.item budget dy = .ok y)
    (hz : c.item budget dz = .ok z) :
    three a b c make (budget + 1) (.record [(a.name, dx), (b.name, dy), (c.name, dz)]) =
      .ok (make x y z) :=
  map_record (chain_operand hx (chain_operand hy (chain_operand hz (.done _)))) names _

theorem four_record (make : α → β → γ → δ → ζ) (names : [a.name, b.name, c.name, d.name].Nodup)
    (hx : a.item budget dx = .ok x) (hy : b.item budget dy = .ok y)
    (hz : c.item budget dz = .ok z) (hw : d.item budget dw = .ok w) :
    four a b c d make (budget + 1)
      (.record [(a.name, dx), (b.name, dy), (c.name, dz), (d.name, dw)]) = .ok (make x y z w) :=
  map_record
    (chain_operand hx (chain_operand hy (chain_operand hz (chain_operand hw (.done _))))) names _

theorem five_record (make : α → β → γ → δ → ε → ζ)
    (names : [a.name, b.name, c.name, d.name, e.name].Nodup)
    (hx : a.item budget dx = .ok x) (hy : b.item budget dy = .ok y)
    (hz : c.item budget dz = .ok z) (hw : d.item budget dw = .ok w)
    (hv : e.item budget dv = .ok v) :
    five a b c d e make (budget + 1)
      (.record [(a.name, dx), (b.name, dy), (c.name, dz), (d.name, dw), (e.name, dv)]) =
      .ok (make x y z w v) :=
  map_record (chain_operand hx (chain_operand hy (chain_operand hz (chain_operand hw
    (chain_operand hv (.done _)))))) names _

end Json.Decoder

/-! ## Instructions -/

namespace Opcode

theorem written_members (op : Opcode) : ∀ m ∈ op.members, m.2.Written := by
  have text (s : String) : (Document.text s).Written := .text s
  have bool (b : Bool) : (Document.bool b).Written := .bool b
  have base (r : Option Register) : ((r.map Register.document).getD .null).Written := by
    cases r with
    | none => exact .null
    | some r => exact r.written_document
  cases op <;>
    simp [members, written_natDocument, written_word, Register.written_document, text, bool, base]

theorem written_document (op : Opcode) : op.document.Written := by
  unfold document
  split
  · exact .text _
  · have inner : (Document.record op.members).Written := .record op.written_members
    exact .record fun m hm => by
      rw [List.mem_singleton.mp hm]
      exact inner

/-- An instruction with operands is decoded by the decoder that its name stands for. -/
theorem decoder_variant {name : String} {ms : List (String × Document)} {op : Opcode}
    {item : Decoder Opcode} {budget : Nat} (filled : unit? name = none)
    (known : variant? name = some item) (read : item (budget + 1) (.record ms) = .ok op) :
    decoder (budget + 2) (.record [(name, .record ms)]) = .ok op :=
  Decoder.tagged_record filled known read

/-- **An instruction is decoded as it was written**: no other instruction has its document. -/
theorem decoder_document (op : Opcode) (budget : Nat) :
    decoder (budget + 2) op.document = .ok op := by
  have reg (r : Register) : registerDecoder budget r.document = .ok r :=
    r.decoder_document budget
  have nat (n : UInt32) : Decoder.uint32 budget (natDocument n) = .ok n :=
    uint32_natDocument n budget
  have word (a : Int64) : Decoder.word budget (.int a.toInt) = .ok a := word_int a budget
  cases op with
  | loadConst dst index =>
    exact decoder_variant rfl rfl (Decoder.two_record _ (by decide) (reg dst) (nat index))
  | loadInt dst value =>
    exact decoder_variant rfl rfl (Decoder.two_record _ (by decide) (reg dst) (word value))
  | loadBool dst value =>
    exact decoder_variant rfl rfl (Decoder.two_record _ (by decide) (reg dst) rfl)
  | loadNone dst => exact decoder_variant rfl rfl (Decoder.one_record _ (reg dst))
  | move dst src | len dst src | getIter dst src | append list src =>
    exact decoder_variant rfl rfl (Decoder.two_record _ (by decide) (reg _) (reg _))
  | loadGlobal dst name =>
    exact decoder_variant rfl rfl (Decoder.two_record _ (by decide) (reg dst) (nat name))
  | storeGlobal name src =>
    exact decoder_variant rfl rfl (Decoder.two_record _ (by decide) (nat name) (reg src))
  | binary op dst lhs rhs | compare op dst lhs rhs =>
    exact decoder_variant rfl rfl
      (Decoder.four_record _ (by decide) (plain_text op.ofName?_name budget) (reg dst) (reg lhs)
        (reg rhs))
  | unary op dst src =>
    exact decoder_variant rfl rfl
      (Decoder.three_record _ (by decide) (plain_text op.ofName?_name budget) (reg dst) (reg src))
  | fast form dst lhs rhs =>
    cases form <;>
      exact decoder_variant rfl rfl
        (Decoder.three_record _ (by decide) (reg dst) (reg lhs) (reg rhs))
  | fastLess dst lhs rhs =>
    exact decoder_variant rfl rfl
      (Decoder.three_record _ (by decide) (reg dst) (reg lhs) (reg rhs))
  | increment reg' | decrement reg' =>
    exact decoder_variant rfl rfl (Decoder.one_record _ (reg reg'))
  | update form reg' src =>
    cases form <;>
      exact decoder_variant rfl rfl (Decoder.two_record _ (by decide) (reg reg') (reg src))
  | jump target => exact decoder_variant rfl rfl (Decoder.one_record _ (nat target))
  | branch on cond target =>
    cases on <;>
      exact decoder_variant rfl rfl (Decoder.two_record _ (by decide) (reg cond) (nat target))
  | ret src | raise src => exact decoder_variant rfl rfl (Decoder.one_record _ (reg src))
  | retNone | nop | popTry => exact Decoder.tagged_text rfl
  | build form dst start count =>
    cases form <;>
      exact decoder_variant rfl rfl
        (Decoder.three_record _ (by decide) (reg dst) (reg start) (nat count))
  | getItem dst container key =>
    exact decoder_variant rfl rfl
      (Decoder.three_record _ (by decide) (reg dst) (reg container) (reg key))
  | setItem container key src =>
    exact decoder_variant rfl rfl
      (Decoder.three_record _ (by decide) (reg container) (reg key) (reg src))
  | slice dst container start stop =>
    exact decoder_variant rfl rfl
      (Decoder.four_record _ (by decide) (reg dst) (reg container) (reg start) (reg stop))
  | forIter dst iter exit =>
    exact decoder_variant rfl rfl
      (Decoder.three_record _ (by decide) (reg dst) (reg iter) (nat exit))
  | getAttr dst obj name =>
    exact decoder_variant rfl rfl
      (Decoder.three_record _ (by decide) (reg dst) (reg obj) (nat name))
  | setAttr obj name src =>
    exact decoder_variant rfl rfl
      (Decoder.three_record _ (by decide) (reg obj) (nat name) (reg src))
  | callMethod dst obj name args argc =>
    exact decoder_variant rfl rfl
      (Decoder.five_record _ (by decide) (reg dst) (reg obj) (nat name) (reg args) (nat argc))
  | call dst callee args argc =>
    exact decoder_variant rfl rfl
      (Decoder.four_record _ (by decide) (reg dst) (reg callee) (reg args) (nat argc))
  | makeFunction dst function =>
    exact decoder_variant rfl rfl (Decoder.two_record _ (by decide) (reg dst) (nat function))
  | makeClass dst name body base =>
    have base' : registerDecoder.optional budget ((base.map Register.document).getD .null) =
        .ok base := by
      cases base with
      | none => rfl
      | some r => exact congrArg (Except.map some) (reg r)
    refine decoder_variant rfl rfl ?_
    rw [makeClassDecoder]
    exact Decoder.map_record (s := (dst, name, body, base))
      (Decoder.chain_field rfl (reg dst) (Decoder.chain_field rfl (nat name)
        (Decoder.chain_field rfl (reg body) (Decoder.chain_field rfl base' (.done _)))))
      (by decide) _
  | pushTry handler dst =>
    exact decoder_variant rfl rfl (Decoder.two_record _ (by decide) (nat handler) (reg dst))

theorem depth_members (op : Opcode) : ∀ m ∈ op.members, m.2.depth = 0 := by
  have base (r : Option Register) : ((r.map Register.document).getD .null).depth = 0 := by
    cases r <;> rfl
  cases op <;>
    simp [members, natDocument, Register.document, Document.int, Document.text, Document.depth,
      base]

theorem depth_document_le (op : Opcode) : op.document.depth ≤ 2 := by
  unfold document
  split
  · exact Nat.zero_le _
  · have inner := Document.membersDepth_le fun m hm =>
      Nat.le_of_eq (op.depth_members m hm)
    simp only [Document.record, Document.depth, Document.membersDepth, List.map_cons, List.map_nil]
      at inner ⊢
    omega

end Opcode

theorem SourcePosition.written_document (p : SourcePosition) : p.document.Written :=
  .record <| by simp [written_natDocument]

theorem SourcePosition.decoder_document (p : SourcePosition) (budget : Nat) :
    decoder (budget + 1) p.document = .ok p :=
  Decoder.two_record SourcePosition.mk (by decide) (uint32_natDocument p.line budget)
    (uint32_natDocument p.column budget)

namespace Instruction

theorem depth_document_le (i : Instruction) : i.document.depth ≤ 3 := by
  obtain ⟨op, position⟩ := i
  have opcode := op.depth_document_le
  cases position with
  | none =>
    simp only [document, Document.record, Document.depth, Document.membersDepth, List.map_cons,
      List.map_nil, Option.map_none, Option.toList_none]
    omega
  | some p =>
    simp only [document, Document.record, Document.depth, Document.membersDepth, List.map_cons,
      List.map_nil, Option.map_some, Option.toList_some, SourcePosition.document, natDocument,
      Document.int]
    omega

theorem written_document (i : Instruction) : i.document.Written := by
  obtain ⟨op, position⟩ := i
  refine .record fun m hm => ?_
  cases position with
  | none =>
    rw [List.mem_singleton.mp hm]
    exact op.written_document
  | some p =>
    rcases List.mem_cons.mp hm with rfl | hm
    · exact op.written_document
    · rw [List.mem_singleton.mp hm]
      exact p.written_document

/-- An instruction that is written in full is none that is written as just its opcode. -/
theorem opcode_decoder_document (i : Instruction) :
    ∃ e, Opcode.decoder maxDepth i.document = .error e := ⟨_, rfl⟩

theorem fullDecoder_document (i : Instruction) :
    fullDecoder maxDepth i.document = .ok i := by
  obtain ⟨op, position⟩ := i
  have opcode := op.decoder_document 124
  cases position with
  | none =>
    exact Decoder.record_chain (Decoder.chain_field rfl opcode (.missing rfl (.done _))) (by decide)
  | some p =>
    have read : SourcePosition.decoder.optional 126 p.document = .ok (some p) :=
      congrArg (Except.map some) (p.decoder_document 125)
    exact Decoder.record_chain
      (Decoder.chain_field rfl opcode (Decoder.chain_field rfl read (.done _))) (by decide)

/-- **An instruction is decoded as it was written**, with its position when it has one. -/
theorem decoder_document (i : Instruction) {budget : Nat} (shallow : i.document.depth ≤ budget) :
    decoder budget i.document = .ok i := by
  obtain ⟨e, bare⟩ := i.opcode_decoder_document
  have full : ofDocument? i.document = some i := by
    unfold ofDocument?
    rw [bare]
    exact congrArg Except.toOption i.fullDecoder_document
  simp only [decoder, Decoder.whole, i.written_document.readError? shallow, full]

end Instruction

/-! ## Constants -/

namespace Constant

/-- The constant is no float, or else one whose text is read as the float. -/
def Faithful (k : Constant) : Prop := ∀ x, k = .float x → Json.Faithful x

theorem depth_document_le (k : Constant) : k.document.depth ≤ 1 := by
  have float (x : Float) : (Document.float x).depth = 0 := by
    unfold Document.float
    split <;> rfl
  cases k <;>
    simp [document, Document.record, Document.depth, Document.membersDepth, Document.int,
      Document.text, float]

theorem written_document {k : Constant} (faithful : k.Faithful) : k.document.Written := by
  cases k with
  | int i => exact .record (by simp [written_word])
  | float x => exact .record (by simp [(faithful x rfl).document.1])
  | str s => exact .record (by simp [Document.Written.text])
  | bool b => exact .record (by simp [Document.Written.bool])
  | none => exact .text "None"

/-- **A constant is decoded as it was written.** -/
theorem decoder_document {k : Constant} (faithful : k.Faithful) {budget : Nat}
    (shallow : k.document.depth ≤ budget) : decoder budget k.document = .ok k := by
  cases k with
  | int i =>
    obtain ⟨left, rfl, -⟩ := Document.budget_record shallow
    exact Decoder.tagged_record rfl rfl (congrArg (Except.map int) (word_int i left))
  | float x =>
    obtain ⟨left, rfl, -⟩ := Document.budget_record shallow
    exact Decoder.tagged_record rfl rfl
      (congrArg (Except.map float) ((faithful x rfl).document.2 left))
  | str s | bool b =>
    obtain ⟨left, rfl, -⟩ := Document.budget_record shallow
    exact Decoder.tagged_record rfl rfl rfl
  | none => exact Decoder.tagged_text rfl

end Constant

/-! ## Chunks -/

namespace Chunk

mutual

/-- The constants of a chunk and of the functions nested in it, at every depth. -/
def allConstants : Chunk → List Constant
  | ⟨_, _, constants, _, _, nested⟩ => constants.toList ++ nestedConstants nested

def nestedConstants : List Chunk → List Constant
  | [] => []
  | c :: cs => c.allConstants ++ nestedConstants cs

end

theorem documents_eq_map (cs : List Chunk) : documents cs = cs.map document := by
  induction cs with
  | nil => rfl
  | cons c cs ih => rw [documents, ih, List.map_cons]

theorem allConstants_subset {c : Chunk} {cs : List Chunk} (h : c ∈ cs) :
    c.allConstants ⊆ nestedConstants cs := by
  induction cs with
  | nil => cases h
  | cons d cs ih =>
    rw [nestedConstants]
    rcases List.mem_cons.mp h with rfl | h
    · exact List.subset_append_left _ _
    · exact fun k hk => List.mem_append_right _ (ih h hk)

theorem written_map {α : Type} {write : α → Document} {as : List α}
    (each : ∀ a ∈ as, (write a).Written) : (Document.list (as.map write)).Written :=
  .list fun _ hd => by
    obtain ⟨a, ha, rfl⟩ := List.mem_map.mp hd
    exact each a ha

mutual

/-- The document of a chunk can be written. -/
theorem written_document : (c : Chunk) → (∀ k ∈ c.allConstants, k.Faithful) → c.document.Written
  | ⟨name, instructions, constants, registerCount, paramCount, nested⟩, faithful => by
    rw [allConstants] at faithful
    have own := written_map fun i (_ : i ∈ instructions.toList) => i.written_document
    have pool := written_map fun k hk =>
      Constant.written_document (faithful k (List.mem_append_left _ hk))
    have inner := written_documents nested fun k hk => faithful k (List.mem_append_right _ hk)
    refine .record ?_
    simp only [List.mem_cons, List.not_mem_nil, or_false, forall_eq_or_imp, forall_eq]
    exact ⟨.text name, own, pool, written_natDocument _, written_natDocument _, .list inner⟩

theorem written_documents : (cs : List Chunk) → (∀ k ∈ nestedConstants cs, k.Faithful) →
    ∀ d ∈ documents cs, d.Written
  | [], _ => nofun
  | c :: cs, faithful => by
    rw [nestedConstants] at faithful
    rw [documents, List.forall_mem_cons]
    exact ⟨written_document c fun k hk => faithful k (List.mem_append_left _ hk),
      written_documents cs fun k hk => faithful k (List.mem_append_right _ hk)⟩

end

/-- **A chunk is decoded as it was written**, and so are the functions nested in it. -/
theorem decoderWithin_document (depth : Nat) {c : Chunk} {budget : Nat}
    (inside : c.document.depth ≤ depth) (shallow : c.document.depth ≤ budget)
    (faithful : ∀ k ∈ c.allConstants, k.Faithful) :
    decoderWithin depth budget c.document = .ok c := by
  -- A nested function is less deep than the chunk, so both `depth` and `budget` go down.
  induction depth generalizing c budget with
  | zero =>
    obtain ⟨name, instructions, constants, registerCount, paramCount, nested⟩ := c
    rw [document, Document.record, Document.depth] at inside
    omega
  | succ depth ih =>
    obtain ⟨name, instructions, constants, registerCount, paramCount, nested⟩ := c
    rw [allConstants] at faithful
    rw [document, documents_eq_map] at inside shallow ⊢
    obtain ⟨_, same, within⟩ := Document.budget_record inside
    obtain rfl := Nat.succ.inj same
    obtain ⟨left, rfl, members⟩ := Document.budget_record shallow
    simp only [List.mem_cons, List.not_mem_nil, or_false, forall_eq_or_imp, forall_eq]
      at within members
    obtain ⟨-, -, -, -, -, within⟩ := within
    obtain ⟨-, own, pool, -, -, inner⟩ := members
    obtain ⟨_, same, children⟩ := Document.budget_list within
    have readInstructions := Decoder.list_map own fun i _ _ fits => i.decoder_document fits
    have readConstants := Decoder.list_map pool fun k hk _ fits =>
      Constant.decoder_document (faithful k (List.mem_append_left _ hk)) fits
    have readNested : (decoderWithin depth).list left (.list (nested.map document)) = .ok nested :=
      Decoder.list_map inner fun child h _ fits =>
        ih (by
          have := children _ (List.mem_map_of_mem h)
          omega) fits
          fun k hk => faithful k (List.mem_append_right _ (allConstants_subset h hk))
    have names : ["name", "instructions", "constants", "register_count", "param_count",
        "nested_functions"].Nodup := by decide
    rw [decoderWithin]
    exact Decoder.record_chain
      (Decoder.chain_field rfl rfl (Decoder.chain_field rfl readInstructions
        (Decoder.chain_field rfl readConstants
          (Decoder.chain_field rfl (uint32_natDocument registerCount left)
            (Decoder.chain_field rfl (uint32_natDocument paramCount left)
              (Decoder.chain_field rfl readNested (.done _))))))) names

/-! ### How deep brackets are nested -/

mutual

/-- How deep functions are nested in a chunk. -/
def height : Chunk → Nat
  | ⟨_, _, _, _, _, nested⟩ => heights nested

def heights : List Chunk → Nat
  | [] => 0
  | c :: cs => max (c.height + 1) (heights cs)

end

mutual

/-- Every nested function takes two brackets. So functions may be nested 61 deep in a file. -/
theorem depth_document_le : (c : Chunk) → c.document.depth ≤ 2 * c.height + 5
  | ⟨name, instructions, constants, registerCount, paramCount, nested⟩ => by
    have own : Document.itemsDepth (instructions.toList.map Instruction.document) ≤ 3 :=
      Document.itemsDepth_le fun d hd => by
        obtain ⟨i, -, rfl⟩ := List.mem_map.mp hd
        exact i.depth_document_le
    have pool : Document.itemsDepth (constants.toList.map Constant.document) ≤ 1 :=
      Document.itemsDepth_le fun d hd => by
        obtain ⟨k, -, rfl⟩ := List.mem_map.mp hd
        exact k.depth_document_le
    have inner := itemsDepth_documents_le nested
    simp only [document, Document.record, Document.depth, Document.membersDepth, List.map_cons,
      List.map_nil, Document.list, Document.text, natDocument, Document.int, height]
    omega

theorem itemsDepth_documents_le : (cs : List Chunk) →
    Document.itemsDepth (documents cs) ≤ 2 * heights cs + 3
  | [] => Nat.zero_le _
  | c :: cs => by
    have first := depth_document_le c
    have others := itemsDepth_documents_le cs
    rw [documents, Document.itemsDepth, heights]
    omega

end

/-! ### Files -/

/-- **Bytecode files round-trip.** A chunk whose brackets are nested no deeper than a reader takes,
and whose floats are read as they were written, is read from its file as it was. -/
theorem ofJson_json (c : Chunk) (shallow : c.document.depth ≤ Json.maxDepth)
    (faithful : ∀ x, .float x ∈ c.allConstants → Json.Faithful x) : ofJson c.json = .ok c := by
  have faithful : ∀ k ∈ c.allConstants, k.Faithful := fun k hk x same => faithful x (same ▸ hk)
  have read := Document.ofText_pretty (c.written_document faithful)
  have decoded := decoderWithin_document maxDepth shallow shallow faithful
  simp only [ofJson, Decoder.run, json, read, decoder, decoded]
  rfl

/-- A chunk with a nested function, with instructions that have a position and ones that have none,
and with constants of every kind. -/
theorem ofJson_json_nested :
    let inner : Chunk := ⟨"area", #[⟨.binary .mul ⟨1⟩ ⟨0⟩ ⟨0⟩, some ⟨2, 5⟩⟩, .bare (.ret ⟨1⟩)],
      #[.float 1.5], 2, 1, []⟩
    let outer : Chunk := ⟨"main", #[.bare (.makeClass ⟨0⟩ 0 ⟨1⟩ none), ⟨.retNone, some ⟨1, 1⟩⟩],
      #[.str "a\n", .int (-7), .float (-0.25), .bool true, .none], 2, 0, [inner]⟩
    ofJson outer.json = .ok outer := by
  intro inner outer
  refine ofJson_json outer (by decide) fun x hx => ?_
  have either : x = -0.25 ∨ x = 1.5 := by
    simpa [outer, inner, allConstants, nestedConstants] using hx
  rcases either with rfl | rfl
  all_goals
    unfold Json.Faithful
    decide +kernel

end Chunk

end RegisterVm
