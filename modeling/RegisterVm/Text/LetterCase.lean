import RegisterVm.Text.CaseTable
import RegisterVm.Text.Ranges

/-!
# Capital and small letters

The full case mappings of Unicode: a letter may become several characters, and a capital sigma
becomes the final small sigma at the end of a word.
-/

namespace RegisterVm.Text

/-- The runs with steps may enclose one another's gaps, so all of them are tried. -/
def CaseRun.image? (run : CaseRun) (n : Nat) : Option Nat :=
  if run.first ≤ n && n ≤ run.last && (n - run.first) % run.step = 0 then
    some (n + run.shift).toNat
  else none

def mapRuns (runs : Array CaseRun) (c : Char) : Char :=
  ((runs.findSome? fun run => run.image? c.toNat).map Char.ofNat).getD c

/-- Letters that have or are a case variant. -/
def isCased (c : Char) : Bool := inRanges casedRanges c

/-- Characters that are passed over when looking for the letter beside a sigma. -/
def isCaseIgnorable (c : Char) : Bool := inRanges caseIgnorableRanges c

def upperChar (c : Char) : List Char :=
  if c.toNat < 128 then [c.toUpper]
  else match lookupRange? Prod.fst Prod.fst upperSequences c.toNat with
    | some (_, letters) => letters.map Char.ofNat
    | none => [mapRuns upperRuns c]

/-- The small form of one letter. The capital I with a dot keeps the dot as a combining mark. -/
def lowerChar (c : Char) : List Char :=
  if c.toNat < 128 then [c.toLower]
  else if c = 'İ' then ['i', '\u0307']
  else [mapRuns lowerRuns c]

def upper (s : List Char) : List Char := s.flatMap upperChar

/-- Whether the first character that counts is a cased letter. -/
def startsCased (s : List Char) : Bool :=
  match s.dropWhile isCaseIgnorable with
  | [] => false
  | c :: _ => isCased c

/-- The small form of a text whose earlier characters are `before`, last one first. A capital sigma
is final when a letter stands before it and none after it. -/
def lowerAfter (before : List Char) : List Char → List Char
  | [] => []
  | c :: cs =>
    let small :=
      if c = 'Σ' then (if startsCased before && !startsCased cs then ['ς'] else ['σ'])
      else lowerChar c
    small ++ lowerAfter (c :: before) cs

def lower (s : List Char) : List Char := lowerAfter [] s

end RegisterVm.Text
