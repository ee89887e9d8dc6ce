/-!
# Tables of code point ranges

Binary search in a table of disjoint ranges sorted by their first element.
-/

namespace RegisterVm.Text

/-- The entry of a table sorted by range that holds `n`, searched between `low` and `high`. -/
def findRange? {α : Type} (first last : α → Nat) (table : Array α) (n : Nat) :
    Nat → Nat → Nat → Option α
  | 0, _, _ => none
  | fuel + 1, low, high =>
    if low < high then
      let middle := (low + high) / 2
      match table[middle]? with
      | none => none
      | some entry =>
        if n < first entry then findRange? first last table n fuel low middle
        else if last entry < n then findRange? first last table n fuel (middle + 1) high
        else some entry
    else none

/-- A table has fewer than `2 ^ 32` entries, so 32 halvings of the search interval suffice. -/
def lookupRange? {α : Type} (first last : α → Nat) (table : Array α) (n : Nat) : Option α :=
  findRange? first last table n 32 0 table.size

def inRanges (ranges : Array (Nat × Nat)) (c : Char) : Bool :=
  (lookupRange? Prod.fst Prod.snd ranges c.toNat).isSome

end RegisterVm.Text
