/-!
# Searching in texts

Positions are counted in characters. `find?` gives the first occurrence, `split` the pieces
between the occurrences taken from left to right, and `replace` puts a text in the place of each.
-/

namespace RegisterVm.Text

/-- The first position of `needle` in `s`. -/
def find? (needle : List Char) : List Char → Option Nat
  | [] => if needle.isEmpty then some 0 else none
  | c :: cs =>
    if needle.isPrefixOf (c :: cs) then some 0 else (find? needle cs).map (· + 1)

/-- The pieces of `s` between occurrences of `separator`. `piece` is the piece being read, its last
character first, and `skip` characters of an occurrence are still to be passed over. -/
def splitFrom (separator : List Char) (piece : List Char) (skip : Nat) :
    List Char → List (List Char)
  | [] => [piece.reverse]
  | c :: cs =>
    match skip with
    | n + 1 => splitFrom separator piece n cs
    | 0 =>
      if separator.isPrefixOf (c :: cs) then
        piece.reverse :: splitFrom separator [] (separator.length - 1) cs
      else splitFrom separator (c :: piece) 0 cs

/-- The pieces of `s` between the occurrences of a non-empty separator. -/
def split (separator s : List Char) : List (List Char) := splitFrom separator [] 0 s

/-- `s` with the occurrences of `old` replaced, of which `skip` characters are still to be passed
over. -/
def replaceFrom (old new : List Char) (skip : Nat) : List Char → List Char
  | [] => []
  | c :: cs =>
    match skip with
    | n + 1 => replaceFrom old new n cs
    | 0 =>
      if old.isPrefixOf (c :: cs) then new ++ replaceFrom old new (old.length - 1) cs
      else c :: replaceFrom old new 0 cs

/-- `s` with every occurrence of `old` replaced; an empty `old` stands around every character. -/
def replace (old new s : List Char) : List Char :=
  if old.isEmpty then new ++ s.flatMap (fun c => c :: new) else replaceFrom old new 0 s

end RegisterVm.Text
