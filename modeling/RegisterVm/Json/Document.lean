import RegisterVm.Json.Number

/-!
# JSON documents

The tree of a JSON text. A text that stops being JSON still has a tree, which ends where the text
went wrong: what is read first decides which error a reader reports, and a value that is passed
over is held to less than one that is read.
-/

namespace RegisterVm.Json

/-- Why a text could not be read: it ends too early, it is no JSON, or it is JSON of another
shape. -/
inductive ReadError where
  | ended
  | malformed
  | mismatched
  deriving DecidableEq

def ReadError.category : ReadError → String
  | ended => "Eof"
  | malformed => "Syntax"
  | mismatched => "Data"

/-- A place where a text stops being JSON: what is reported when the value there is read, and when
it is passed over. -/
structure Cut where
  read : ReadError
  skipped : ReadError
  deriving DecidableEq

namespace Cut

def ended : Cut := ⟨.ended, .ended⟩

def malformed : Cut := ⟨.malformed, .malformed⟩

/-- A number that the end of the text cuts off. -/
def openNumber : Cut := ⟨.ended, .malformed⟩

end Cut

inductive Document where
  /-- A value that cannot be made out. -/
  | broken (cut : Cut)
  | null
  | bool (b : Bool)
  | number (n : NumberText)
  /-- A string, or `none` when an escape in it is half of a surrogate pair. -/
  | string (s : Option String)
  /-- The items that could be made out. When the array is not closed, `cut` says why, and
  `afterComma` whether an item was announced. -/
  | array (items : List Document) (cut : Option Cut) (afterComma : Bool)
  /-- The members that could be made out. `oddKey` is a value in the place of a key. -/
  | object (members : List (Option String × Document)) (cut : Option Cut) (afterComma : Bool)
    (oddKey : Option Document)

namespace Document

instance : Inhabited Document := ⟨null⟩

def int (i : Int) : Document := number (.ofInt i)

def text (s : String) : Document := string (some s)

/-- A float; one that is not finite has no number and becomes null. -/
def float (x : Float) : Document :=
  match Binary64.scaled? x with
  | some s => number (.ofScaled s)
  | none => null

def list (items : List Document) : Document := array items none false

def record (members : List (String × Document)) : Document :=
  object (members.map fun m => (some m.1, m.2)) none false none

/-- The error of a string that is read. -/
def stringError? : Option String → Option ReadError
  | some _ => none
  | none => some .malformed

/-- The error of a number that is read. -/
def numberError? (n : NumberText) : Option ReadError :=
  if n.value?.isNone then some .malformed else none

mutual

/-- The first error of a value that is read with at most `budget` nested brackets. -/
def readError? (budget : Nat) : Document → Option ReadError
  | broken cut => some cut.read
  | null | bool _ => none
  | number n => numberError? n
  | string s => stringError? s
  | array items cut _ =>
    match budget with
    | 0 => some .malformed
    | b + 1 => (itemsError? b items).or (cut.map (·.read))
  | object members cut _ _ =>
    match budget with
    | 0 => some .malformed
    | b + 1 => (membersError? b members).or (cut.map (·.read))

def itemsError? (budget : Nat) : List Document → Option ReadError
  | [] => none
  | d :: ds => (readError? budget d).or (itemsError? budget ds)

def membersError? (budget : Nat) : List (Option String × Document) → Option ReadError
  | [] => none
  | (key, d) :: ms => (stringError? key).or <| (readError? budget d).or (membersError? budget ms)

end

mutual

/-- The first error of a value that is passed over. -/
def skipError? : Document → Option ReadError
  | broken cut => some cut.skipped
  | null | bool _ | number _ | string _ => none
  | array items cut _ => (skipItemsError? items).or (cut.map (·.skipped))
  | object members cut _ _ => (skipMembersError? members).or (cut.map (·.skipped))

def skipItemsError? : List Document → Option ReadError
  | [] => none
  | d :: ds => (skipError? d).or (skipItemsError? ds)

def skipMembersError? : List (Option String × Document) → Option ReadError
  | [] => none
  | (_, d) :: ms => (skipError? d).or (skipMembersError? ms)

end

/-- The value of a member. -/
def member? (key : String) : Document → Option Document
  | object members _ _ _ => (members.find? fun m => m.1 = some key).map (·.2)
  | _ => none

def int? : Document → Option Int
  | number n => match n.value? with
    | some (.int i) => some i
    | _ => none
  | _ => none

def text? : Document → Option String
  | string s => s
  | _ => none

def bool? : Document → Option Bool
  | bool b => some b
  | _ => none

def items? : Document → Option (List Document)
  | array items none _ => some items
  | _ => none

end Document

end RegisterVm.Json
