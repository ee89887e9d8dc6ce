import RegisterVm.Json.Document
import RegisterVm.Text.Quoted

/-!
# Writing JSON texts

A document on one line (`Document.compact`) or with two spaces of indentation a level
(`Document.pretty`).
-/

namespace RegisterVm.Json

/-- A character inside a string. -/
def escapeChar (c : Char) : List Char :=
  if c = '"' || c = '\\' then ['\\', c]
  else if c = '\n' then ['\\', 'n']
  else if c = '\r' then ['\\', 'r']
  else if c = '\t' then ['\\', 't']
  else if c = '\x08' then ['\\', 'b']
  else if c = '\x0c' then ['\\', 'f']
  else if c.toNat < 0x20 then '\\' :: 'u' :: '0' :: '0' :: Text.hexByte c.toNat
  else [c]

def quote (s : String) : String := String.ofList ('"' :: (s.toList.flatMap escapeChar ++ ['"']))

def indent (level : Nat) : String := String.ofList ('\n' :: List.replicate (2 * level) ' ')

namespace Document

mutual

/-- The text of a document on one line. -/
def compact : Document → String
  | broken _ | null => "null"
  | bool b => if b then "true" else "false"
  | number n => String.ofList n.text
  | string s => quote (s.getD "")
  | array items _ _ => "[" ++ ",".intercalate (compactItems items) ++ "]"
  | object members _ _ _ => "\x7b" ++ ",".intercalate (compactMembers members) ++ "\x7d"

def compactItems : List Document → List String
  | [] => []
  | d :: ds => d.compact :: compactItems ds

def compactMembers : List (Option String × Document) → List String
  | [] => []
  | (key, d) :: ms => (quote (key.getD "") ++ ":" ++ d.compact) :: compactMembers ms

end

/-- Items or members between brackets, each on a line of its own. -/
def block (level : Nat) (left right : String) (lines : List String) : String :=
  if lines.isEmpty then left ++ right
  else left ++ ",".intercalate (lines.map (indent (level + 1) ++ ·)) ++ indent level ++ right

mutual

/-- The text of a document inside `level` brackets. -/
def prettyAt (level : Nat) : Document → String
  | broken _ | null => "null"
  | bool b => if b then "true" else "false"
  | number n => String.ofList n.text
  | string s => quote (s.getD "")
  | array items _ _ => block level "[" "]" (prettyItems (level + 1) items)
  | object members _ _ _ => block level "\x7b" "\x7d" (prettyMembers (level + 1) members)

def prettyItems (level : Nat) : List Document → List String
  | [] => []
  | d :: ds => prettyAt level d :: prettyItems level ds

def prettyMembers (level : Nat) : List (Option String × Document) → List String
  | [] => []
  | (key, d) :: ms => (quote (key.getD "") ++ ": " ++ prettyAt level d) :: prettyMembers level ms

end

/-- The text of a document with indentation. -/
def pretty (d : Document) : String := prettyAt 0 d

end Document

end RegisterVm.Json
