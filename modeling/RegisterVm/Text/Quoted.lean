/-!
# Quoted texts

The literal form of a text: in single quotes, or in double quotes when it holds a single quote and
no double one. The delimiter, the backslash and control characters are escaped.
-/

namespace RegisterVm.Text

/-- The control characters of Unicode. -/
def isControl (c : Char) : Bool := c.toNat < 0x20 || (0x7F ≤ c.toNat && c.toNat ≤ 0x9F)

def hexDigit (n : Nat) : Char := Nat.digitChar n

/-- The two hexadecimal digits of a number below 256. -/
def hexByte (n : Nat) : List Char := [hexDigit (n / 16), hexDigit (n % 16)]

def escape (delimiter c : Char) : List Char :=
  if c = '\\' then ['\\', '\\']
  else if c = '\n' then ['\\', 'n']
  else if c = '\r' then ['\\', 'r']
  else if c = '\t' then ['\\', 't']
  else if c = delimiter then ['\\', c]
  else if isControl c then '\\' :: 'x' :: hexByte c.toNat
  else [c]

def delimiter (s : List Char) : Char :=
  if s.contains '\'' && !s.contains '"' then '"' else '\''

def quoted (s : List Char) : List Char :=
  delimiter s :: (s.flatMap (escape (delimiter s)) ++ [delimiter s])

end RegisterVm.Text
