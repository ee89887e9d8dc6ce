import RegisterVm.Text.PrintTable
import RegisterVm.Text.Ranges

/-!
# Escaped texts

The form of a text in a listing: in double quotes, with everything escaped that has no visible form
of its own.
-/

namespace RegisterVm.Text

def isPrintable (c : Char) : Bool := !inRanges unprintableRanges c && !inRanges extendingRanges c

def escapeListed (c : Char) : List Char :=
  if c = '\x00' then ['\\', '0']
  else if c = '\t' then ['\\', 't']
  else if c = '\r' then ['\\', 'r']
  else if c = '\n' then ['\\', 'n']
  else if c = '\\' || c = '"' then ['\\', c]
  else if isPrintable c then [c]
  else '\\' :: 'u' :: '\x7b' :: (Nat.toDigits 16 c.toNat ++ ['\x7d'])

def escaped (s : List Char) : List Char := '"' :: (s.flatMap escapeListed ++ ['"'])

end RegisterVm.Text
