import RegisterVm.Json.Document

/-!
# Reading JSON texts

`Document.ofText` reads the tree of a text. Every step takes at least one character, so the length
of the text bounds the reading.
-/

namespace RegisterVm.Json

/-- A value and the text after it; after a value that is cut short no text is left. -/
abbrev Parsed := Document × Option (List Char)

def broken (cut : Cut) : Parsed := (.broken cut, none)

def isSpace (c : Char) : Bool := c = ' ' || c = '\n' || c = '\t' || c = '\r'

/-- The rest of a word that stands for `value`. -/
def literal (value : Document) : List Char → List Char → Parsed
  | [], rest => (value, some rest)
  | _ :: _, [] => broken .ended
  | w :: ws, c :: cs => if w = c then literal value ws cs else broken .malformed

/-! ## Strings -/

def hexValue? (c : Char) : Option Nat :=
  if c.isDigit then some (c.toNat - '0'.toNat)
  else if 'a' ≤ c && c ≤ 'f' then some (c.toNat - 'a'.toNat + 10)
  else if 'A' ≤ c && c ≤ 'F' then some (c.toNat - 'A'.toNat + 10)
  else none

/-- The number written by hexadecimal digits. -/
def hexNumber? (cs : List Char) : Option Nat :=
  cs.foldlM (fun n c => (hexValue? c).map (16 * n + ·)) 0

/-- The character of a one-letter escape. -/
def shortEscape? : Char → Option Char
  | '"' => some '"'
  | '\\' => some '\\'
  | '/' => some '/'
  | 'b' => some '\x08'
  | 'f' => some '\x0c'
  | 'n' => some '\n'
  | 'r' => some '\r'
  | 't' => some '\t'
  | _ => none

/-- A string being read. -/
structure StringState where
  /-- The characters so far, last one first. -/
  text : List Char
  /-- The first half of a surrogate pair, waiting for the second. -/
  half : Option Nat
  /-- Whether every half so far belongs to a pair. -/
  paired : Bool

namespace StringState

def start : StringState := ⟨[], none, true⟩

/-- A character of its own. -/
def char (c : Char) (s : StringState) : StringState :=
  ⟨c :: s.text, none, s.paired && s.half.isNone⟩

/-- An escaped 16-bit unit. -/
def unit (n : Nat) (s : StringState) : StringState :=
  if 0xD800 ≤ n && n ≤ 0xDBFF then ⟨s.text, some n, s.paired && s.half.isNone⟩
  else if 0xDC00 ≤ n && n ≤ 0xDFFF then
    match s.half with
    | some h =>
      ⟨Char.ofNat (0x10000 + (h - 0xD800) * 0x400 + (n - 0xDC00)) :: s.text, none, s.paired⟩
    | none => ⟨s.text, none, false⟩
  else s.char (Char.ofNat n)

/-- The string, unless a half stands alone. -/
def close (s : StringState) : Option String :=
  if s.paired && s.half.isNone then some (String.ofList s.text.reverse) else none

/-- What is reported where a string stops; a half that stands alone was reported before. -/
def cut (s : StringState) (error : ReadError) : Cut :=
  ⟨if s.paired then error else .malformed, error⟩

end StringState

inductive StringEnd where
  | closed (s : Option String) (rest : List Char)
  | cut (c : Cut)

/-- What is reported for an escape without four hexadecimal digits: the text ends when fewer than
four bytes are left of it. -/
def badUnit (rest : List Char) : ReadError :=
  if (String.ofList (rest.take 4)).utf8ByteSize < 4 then .ended else .malformed

/-- The text of a string after its opening quote. -/
def string (s : StringState) : List Char → StringEnd
  | [] => .cut (s.cut .ended)
  | '"' :: rest => .closed s.close rest
  | '\\' :: 'u' :: a :: b :: c :: d :: rest =>
    match hexNumber? [a, b, c, d] with
    | some n => string (s.unit n) rest
    | none => .cut (s.cut .malformed)
  | '\\' :: 'u' :: rest => .cut (s.cut (badUnit rest))
  | '\\' :: e :: rest =>
    match shortEscape? e with
    | some c => string (s.char c) rest
    | none => .cut ((s.char e).cut .malformed)
  | ['\\'] => .cut (s.cut .ended)
  | c :: rest =>
    if c.toNat < 0x20 then .cut ((s.char c).cut .malformed) else string (s.char c) rest

/-! ## Numbers -/

/-- The digits at the front of a text and what follows; `cut` when there are none. -/
def digits (cs : List Char) : Except Cut (List Char × List Char) :=
  let (front, rest) := cs.span Char.isDigit
  if front.isEmpty then .error (if rest.isEmpty then .openNumber else .malformed)
  else .ok (front, rest)

def fraction (cs : List Char) : Except Cut (Option (List Char) × List Char) :=
  match cs with
  | '.' :: rest => (digits rest).map fun (front, rest) => (some front, rest)
  | rest => .ok (none, rest)

def exponent (cs : List Char) : Except Cut (Option Int × List Char) :=
  match cs with
  | c :: rest =>
    if c = 'e' || c = 'E' then
      let (negative, body) := Reading.takeSign rest
      (digits body).map fun (front, rest) =>
        let magnitude : Int := Reading.ofDigits front
        (some (if negative then -magnitude else magnitude), rest)
    else .ok (none, c :: rest)
  | [] => .ok (none, [])

/-- A number after its sign. A zero is not followed by another digit. -/
def unsigned (negative : Bool) (cs : List Char) : Except Cut (NumberText × List Char) := do
  let (whole, rest) ← digits cs
  if whole.head? = some '0' && 1 < whole.length then throw .malformed
  let (fraction, rest) ← fraction rest
  let (exponent, rest) ← exponent rest
  return (⟨negative, whole, fraction, exponent⟩, rest)

def numberDocument (negative : Bool) (cs : List Char) : Parsed :=
  match unsigned negative cs with
  | .ok (n, rest) => (.number n, some rest)
  | .error cut => broken cut

/-! ## Values -/

mutual

def value (fuel : Nat) (cs : List Char) : Parsed :=
  match fuel with
  | 0 => broken .malformed
  | fuel + 1 =>
    match cs.dropWhile isSpace with
    | [] => broken .ended
    | 'n' :: rest => literal .null ['u', 'l', 'l'] rest
    | 't' :: rest => literal (.bool true) ['r', 'u', 'e'] rest
    | 'f' :: rest => literal (.bool false) ['a', 'l', 's', 'e'] rest
    | '"' :: rest =>
      match string .start rest with
      | .closed s rest => (.string s, some rest)
      | .cut c => broken c
    | '[' :: rest => items fuel [] false rest
    | '{' :: rest => members fuel [] false rest
    | '-' :: rest => numberDocument true rest
    | c :: rest => if c.isDigit then numberDocument false (c :: rest) else broken .malformed

/-- The rest of an array whose items so far are `done`, last one first. -/
def items (fuel : Nat) (done : List Document) (afterComma : Bool) (cs : List Char) : Parsed :=
  match fuel with
  | 0 => broken .malformed
  | fuel + 1 =>
    let stopped (cut : Cut) : Parsed := (.array done.reverse (some cut) afterComma, none)
    match cs.dropWhile isSpace with
    | [] => stopped .ended
    | c :: rest =>
      if c = ']' then
        if afterComma then stopped .malformed else (.array done.reverse none false, some rest)
      else if done.isEmpty || afterComma then
        match value fuel (c :: rest) with
        | (d, some rest) => items fuel (d :: done) false rest
        | (d, none) => (.array (d :: done).reverse none false, none)
      else if c = ',' then items fuel done true rest
      else stopped .malformed

/-- The rest of an object whose members so far are `done`, last one first. -/
def members (fuel : Nat) (done : List (Option String × Document)) (afterComma : Bool)
    (cs : List Char) : Parsed :=
  match fuel with
  | 0 => broken .malformed
  | fuel + 1 =>
    let stopped (cut : Cut) (oddKey : Option Document) : Parsed :=
      (.object done.reverse (some cut) afterComma oddKey, none)
    match cs.dropWhile isSpace with
    | [] => stopped .ended none
    | c :: rest =>
      if c = '}' then
        if afterComma then stopped .malformed none
        else (.object done.reverse none false none, some rest)
      else if done.isEmpty || afterComma then
        if c = '"' then
          match string .start rest with
          | .cut cut => stopped cut none
          | .closed key rest =>
            let (d, after) := match rest.dropWhile isSpace with
              | [] => broken .ended
              | ':' :: rest => value fuel rest
              | _ :: _ => broken .malformed
            match after with
            | some rest => members fuel ((key, d) :: done) false rest
            | none => (.object ((key, d) :: done).reverse none false none, none)
        else stopped .malformed (some (value fuel (c :: rest)).1)
      else if c = ',' then members fuel done true rest
      else stopped .malformed none

end

/-- A text as a tree, and whether something other than white space follows it. -/
def Document.ofText (text : String) : Document × Bool :=
  let cs := text.toList
  match value (2 * cs.length + 2) cs with
  | (d, some rest) => (d, !rest.all isSpace)
  | (d, none) => (d, false)

end RegisterVm.Json
