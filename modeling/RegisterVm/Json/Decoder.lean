import RegisterVm.Json.Reader

/-!
# Decoding documents

A decoder reads a document as a value of some type, in the order in which the text has it, so the
first error of the text is the one that is reported. `RecordField` describes a member of a record,
which may be written as an object or as an array of its fields in order.
-/

namespace RegisterVm.Json

/-- Reads a document in which at most the given number of brackets may be nested. -/
abbrev Decoder (α : Type) := Nat → Document → Except ReadError α

/-- How deep brackets may be nested in a text. -/
def maxDepth : Nat := 127

namespace Decoder

/-- The error of a document that has not the expected shape. The inside of brackets is not read. -/
def mismatch (d : Document) : ReadError :=
  match d with
  | .broken cut => cut.read
  | .number n => (Document.numberError? n).getD .mismatched
  | .string s => (Document.stringError? s).getD .mismatched
  | _ => .mismatched

/-- A document without brackets. -/
def leaf {α : Type} (f : Document → Option α) : Decoder α := fun _ d =>
  match f d with
  | some a => .ok a
  | none => .error (mismatch d)

def bool : Decoder Bool := leaf Document.bool?

def text : Decoder String := leaf Document.text?

/-- An unsigned 32-bit number. -/
def uint32 : Decoder UInt32 := leaf fun d =>
  match d.int? with
  | some i => if 0 ≤ i && i < 4294967296 then some (UInt32.ofNat i.toNat) else none
  | none => none

/-- An unsigned number of 64 bits. -/
def natural : Decoder Nat := leaf fun d =>
  match d.int? with
  | some i => if 0 ≤ i then some i.toNat else none
  | none => none

def word : Decoder Int64 := leaf fun d => d.int?.bind Word.ofInt?

/-- A float, or the nearest one to an integer. -/
def float : Decoder Float := leaf fun d =>
  match d with
  | .number n =>
    match n.value? with
    | some (.int i) => some (Float.ofInt i)
    | some (.float x) => some x
    | none => none
  | _ => none

def unit : Decoder Unit := leaf fun d =>
  match d with
  | .null => some ()
  | _ => none

def optional {α : Type} (item : Decoder α) : Decoder (Option α) := fun budget d =>
  match d with
  | .null => .ok none
  | d => (item budget d).map some

def closed (cut : Option Cut) : Except ReadError Unit :=
  match cut with
  | none => .ok ()
  | some cut => .error cut.read

def list {α : Type} (item : Decoder α) : Decoder (List α) := fun budget d =>
  match d, budget with
  | .array _ _ _, 0 => .error .malformed
  | .array items cut _, budget + 1 => do
    let values ← items.mapM (item budget)
    closed cut
    return values
  | d, _ => .error (mismatch d)

def map {α β : Type} (f : α → β) (item : Decoder α) : Decoder β := fun budget d =>
  (item budget d).map f

/-- A document all of which is read before its shape is looked at. -/
def whole {α : Type} (f : Document → Option α) : Decoder α := fun budget d =>
  match d.readError? budget with
  | some e => .error e
  | none =>
    match f d with
    | some a => .ok a
    | none => .error .mismatched

end Decoder

/-- A field of a record that is built up in a `σ`. -/
structure RecordField (σ : Type) where
  name : String
  /-- Whether an object must have the field. -/
  inObject : Bool
  /-- Whether an array must have the field. -/
  inArray : Bool
  read : σ → Decoder σ

namespace RecordField

variable {σ α : Type}

/-- A field that must be there. -/
def required (name : String) (item : Decoder α) (set : σ → α → σ) : RecordField σ :=
  ⟨name, true, true, fun s budget d => (item budget d).map (set s)⟩

/-- A field that keeps its default when it is missing. -/
def withDefault (name : String) (item : Decoder α) (set : σ → α → σ) : RecordField σ :=
  ⟨name, false, false, fun s budget d => (item budget d).map (set s)⟩

/-- A field that may be missing from an object or be null. -/
def nullable (name : String) (item : Decoder α) (set : σ → Option α → σ) : RecordField σ :=
  ⟨name, false, true, fun s budget d => (item.optional budget d).map (set s)⟩

/-- The fields in order, as far as the items go; the items that are left. -/
def readItems (budget : Nat) : List (RecordField σ) → σ → List Document →
    Except ReadError (σ × List (RecordField σ) × List Document)
  | [], s, items => .ok (s, [], items)
  | fields, s, [] => .ok (s, fields, [])
  | f :: fields, s, d :: ds => do readItems budget fields (← f.read s budget d) ds

/-- The members of an object. A field may come once; members that are no fields are passed over. -/
def readMembers (budget : Nat) (fields : List (RecordField σ)) (s : σ) (seen : List String) :
    List (Option String × Document) → Except ReadError (σ × List String)
  | [] => .ok (s, seen)
  | (none, _) :: _ => .error .malformed
  | (some key, d) :: ms =>
    match fields.find? fun f => f.name = key with
    | some f =>
      if seen.contains key then .error .mismatched
      else do readMembers budget fields (← f.read s budget d) (key :: seen) ms
    | none =>
      match d.skipError? with
      | some e => .error e
      | none => readMembers budget fields s seen ms

/-- The error of an array that is not closed after all fields were read. -/
def afterFields (items : List Document) (cut : Option Cut) (afterComma : Bool) :
    Except ReadError Unit :=
  if !items.isEmpty || afterComma then .error .malformed else Decoder.closed cut

end RecordField

namespace Decoder

variable {σ : Type}

/-- A record, from its fields and the values of those that are missing. -/
def record (fields : List (RecordField σ)) (defaults : σ) : Decoder σ := fun budget d =>
  match d, budget with
  | .array _ _ _, 0 | .object _ _ _ _, 0 => .error .malformed
  | .array items cut afterComma, budget + 1 => do
    let (s, missing, rest) ← RecordField.readItems budget fields defaults items
    if missing.isEmpty then
      RecordField.afterFields rest cut afterComma
    else
      closed cut
      if missing.any (·.inArray) then throw .mismatched
    return s
  | .object members cut _ _, budget + 1 => do
    let (s, seen) ← RecordField.readMembers budget fields defaults [] members
    closed cut
    if fields.any fun f => f.inObject && !seen.contains f.name then throw .mismatched
    return s
  | d, _ => .error (mismatch d)

/-- One of several variants: the name of a variant without content, or an object whose only member
is named for the variant and holds its content. `variant?` gives the decoder of the content, and
`unit?` the variants that need none. -/
def tagged {α : Type} (unit? : String → Option α) (variant? : String → Option (Decoder α)) :
    Decoder α := fun budget d =>
  match d, budget with
  | .broken cut, _ => .error cut.read
  | .string none, _ => .error .malformed
  | .string (some name), _ =>
    match unit? name with
    | some a => .ok a
    | none => .error .mismatched
  | .object _ _ _ _, 0 => .error .malformed
  | .object [] cut _ oddKey, _ + 1 =>
    match oddKey with
    | some key => .error (mismatch key)
    | none => .error ((cut.map (·.read)).getD .malformed)
  | .object ((none, _) :: _) _ _ _, _ + 1 => .error .malformed
  | .object ((some name, content) :: more) cut afterComma _, budget + 1 => do
    let value ← match unit? name, variant? name with
      | some a, _ => (unit budget content).map fun () => a
      | none, some item => item budget content
      | none, none => throw .mismatched
    RecordField.afterFields (more.map (·.2)) cut afterComma
    return value
  | _, _ => .error .malformed

end Decoder

/-- Reads a text, after which only white space may follow. -/
def Decoder.run {α : Type} (decode : Decoder α) (text : String) : Except ReadError α := do
  let (document, trailing) := Document.ofText text
  let a ← decode maxDepth document
  if trailing then throw .malformed
  return a

end RegisterVm.Json
