/-!
# White space

The `White_Space` property of Unicode, and the texts between and inside white space.
-/

namespace RegisterVm.Text

def isBlank (c : Char) : Bool :=
  let n := c.toNat
  n = 0x20 || (0x9 ≤ n && n ≤ 0xD) || n = 0x85 || n = 0xA0 || n = 0x1680 ||
    (0x2000 ≤ n && n ≤ 0x200A) || n = 0x2028 || n = 0x2029 || n = 0x202F || n = 0x205F || n = 0x3000

/-- `s` without the characters in the class at either end. -/
def trimBy (inClass : Char → Bool) (s : List Char) : List Char :=
  ((s.dropWhile inClass).reverse.dropWhile inClass).reverse

def trim (s : List Char) : List Char := trimBy isBlank s

/-- The words of `s`: its longest runs without white space. The word being read is `word`, its
last character first. -/
def wordsFrom (word : List Char) : List Char → List (List Char)
  | [] => if word.isEmpty then [] else [word.reverse]
  | c :: cs =>
    if isBlank c then
      if word.isEmpty then wordsFrom [] cs else word.reverse :: wordsFrom [] cs
    else wordsFrom (c :: word) cs

def words (s : List Char) : List (List Char) := wordsFrom [] s

end RegisterVm.Text
