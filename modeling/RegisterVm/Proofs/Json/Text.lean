import RegisterVm.Json.Decoder
import RegisterVm.Json.Printer
import RegisterVm.Proofs.Json.Number

/-!
# Reading the texts that were written

A document whose numbers and strings can be written (`Document.Written`) is what its indented text
is read as (`Document.ofText_pretty`), with nothing left over. Strings are read back character by
character (`string_quoted`), and inside brackets it is what the text has after a value that ends it
(`ReadBack`).
-/

namespace RegisterVm.Json

/-! ## Strings -/

namespace StringState

/-- A string of which everything so far was made out. -/
def ofText (text : List Char) : StringState := ⟨text.reverse, none, true⟩

theorem char_ofText (text : List Char) (c : Char) :
    (ofText text).char c = ofText (text ++ [c]) := by
  simp [ofText, char]

theorem close_ofText (text : List Char) : (ofText text).close = some (String.ofList text) := by
  simp [ofText, close]

end StringState

/-- A control character is read from its number. -/
theorem hexNumber?_hexByte : ∀ n < 0x20, hexNumber? ('0' :: '0' :: Text.hexByte n) = some n := by
  decide

/-- **A character is read as it was written**, escaped or not. -/
theorem string_escapeChar (s : StringState) (c : Char) (rest : List Char) :
    string s (escapeChar c ++ rest) = string (s.char c) rest := by
  unfold escapeChar
  split
  · rename_i special
    simp only [Bool.or_eq_true, decide_eq_true_eq] at special
    rcases special with rfl | rfl <;> simp [string, shortEscape?]
  split
  · subst c; simp [string, shortEscape?]
  split
  · subst c; simp [string, shortEscape?]
  split
  · subst c; simp [string, shortEscape?]
  split
  · subst c; simp [string, shortEscape?]
  split
  · subst c; simp [string, shortEscape?]
  split
  · rename_i control
    have number := hexNumber?_hexByte c.toNat control
    have unit : s.unit c.toNat = s.char c := by
      have low : ¬0xD800 ≤ c.toNat := by omega
      have low' : ¬0xDC00 ≤ c.toNat := by omega
      simp [StringState.unit, low, low', Char.ofNat_toNat]
    simp only [Text.hexByte] at number
    simp only [Text.hexByte, List.cons_append, List.nil_append, string, number, unit]
  · rename_i special _ _ _ _ _ control
    simp only [Bool.or_eq_true, decide_eq_true_eq, not_or] at special
    rw [List.singleton_append, string.eq_def]
    -- Of the ways to read a character only the last one takes one that is no escape.
    split
    case h_7 same =>
      obtain ⟨rfl, rfl⟩ := List.cons.inj same
      rw [if_neg control]
    all_goals simp_all

/-- **A string is read as it was written.** -/
theorem string_quoted (cs rest : List Char) (text : List Char) :
    string (.ofText text) (cs.flatMap escapeChar ++ '"' :: rest) =
      .closed (some (String.ofList (text ++ cs))) rest := by
  induction cs generalizing text with
  | nil => simp [string, StringState.close_ofText]
  | cons c cs ih =>
    rw [List.flatMap_cons, List.append_assoc, string_escapeChar, StringState.char_ofText, ih,
      List.append_assoc, List.singleton_append]

theorem string_quote (s : String) (rest : List Char) :
    string .start (s.toList.flatMap escapeChar ++ '"' :: rest) = .closed (some s) rest := by
  have read := string_quoted s.toList rest []
  rwa [List.nil_append, String.ofList_toList] at read

theorem toList_quote (s : String) :
    (quote s).toList = '"' :: (s.toList.flatMap escapeChar ++ ['"']) := by
  rw [quote, String.toList_ofList]

/-! ## Values -/

/-- A text at which a value in an indented text ends. -/
def ValueEnd (rest : List Char) : Prop := ∀ c, rest.head? = some c → c = ',' ∨ c = '\n'

theorem ValueEnd.number {rest : List Char} (ends : ValueEnd rest) : NumberEnd rest where
  digit c hc := by
    rcases ends c hc with rfl | rfl <;> rfl
  point same := by
    rcases ends _ same with other | other <;> cases other
  exponent := by
    constructor <;> intro same <;> rcases ends _ same with other | other <;> cases other

/-- A text that is read as a document, wherever a value may end after it. Twice its length is enough
fuel. -/
structure ReadBack (text : List Char) (d : Document) : Prop where
  opens : ∃ c cs, text = c :: cs ∧ isSpace c = false ∧ c ≠ ']'
  read : ∀ fuel rest, 2 * text.length ≤ fuel + 1 → ValueEnd rest →
    value (fuel + 1) (text ++ rest) = (d, some rest)

namespace ReadBack

variable {text : List Char} {d : Document}

theorem length_pos (h : ReadBack text d) : 0 < text.length := by
  obtain ⟨c, cs, rfl, -⟩ := h.opens
  exact Nat.succ_pos _

theorem value (h : ReadBack text d) {fuel : Nat} {rest : List Char}
    (enough : 2 * text.length ≤ fuel) (ends : ValueEnd rest) :
    Json.value fuel (text ++ rest) = (d, some rest) := by
  have positive := h.length_pos
  obtain ⟨fuel, rfl⟩ : ∃ k, fuel = k + 1 := ⟨fuel - 1, by omega⟩
  exact h.read fuel rest enough ends

end ReadBack

/-! ## Values without brackets -/

theorem readBack_null : ReadBack "null".toList .null where
  opens := ⟨'n', _, rfl, rfl, by decide⟩
  read _ _ _ _ := rfl

theorem readBack_bool (b : Bool) : ReadBack (if b then "true" else "false").toList (.bool b) := by
  cases b with
  | false => exact ⟨⟨'f', _, rfl, rfl, by decide⟩, fun _ _ _ _ => rfl⟩
  | true => exact ⟨⟨'t', _, rfl, rfl, by decide⟩, fun _ _ _ _ => rfl⟩

theorem readBack_text (s : String) : ReadBack (quote s).toList (.text s) where
  opens := ⟨'"', _, toList_quote s, rfl, by decide⟩
  read fuel rest _ _ := by
    have front : (quote s).toList ++ rest =
        '"' :: (s.toList.flatMap escapeChar ++ '"' :: rest) := by
      rw [toList_quote, List.cons_append, List.append_assoc, List.singleton_append]
    have opened : ('"' :: (s.toList.flatMap escapeChar ++ '"' :: rest)).dropWhile isSpace =
        '"' :: (s.toList.flatMap escapeChar ++ '"' :: rest) := rfl
    simp only [front, value, opened, string_quote]
    rfl

theorem isSpace_digit {c : Char} (digit : c.isDigit = true) : isSpace c = false := by
  simp only [isSpace, Bool.or_eq_false_iff, decide_eq_false_iff_not]
  refine ⟨⟨⟨?_, ?_⟩, ?_⟩, ?_⟩ <;> rintro rfl <;> cases digit

/-- A digit begins a number. -/
theorem value_digit {c : Char} (digit : c.isDigit = true) (fuel : Nat) (cs : List Char) :
    value (fuel + 1) (c :: cs) = numberDocument false (c :: cs) := by
  rw [value, List.dropWhile_cons_of_neg (by simp [isSpace_digit digit])]
  split <;> rename_i same <;> cases same <;> first | cases digit | rw [if_pos digit]

/-- The text of a number is read as a number. -/
theorem value_number {n : NumberText} (written : n.Written) (fuel : Nat) (rest : List Char) :
    value (fuel + 1) (n.text ++ rest) = numberDocument n.negative (n.unsignedText ++ rest) := by
  obtain ⟨c, cs, first, digit⟩ := NumberText.unsignedText_cons written
  rw [NumberText.text_eq]
  cases n.negative with
  | true => rfl
  | false =>
    simp only [Bool.false_eq_true, if_false, List.nil_append, first, List.cons_append]
    exact value_digit digit fuel _

/-- The text of a number that has no zero in front of other digits. -/
theorem readBack_number {n : NumberText} (written : n.Written) (bare : n.padded = false) :
    ReadBack n.text (.number n) where
  opens := by
    obtain ⟨c, cs, first, digit⟩ := NumberText.unsignedText_cons written
    rw [NumberText.text_eq]
    cases n.negative with
    | true => exact ⟨'-', _, rfl, rfl, by decide⟩
    | false =>
      refine ⟨c, cs, first, isSpace_digit digit, ?_⟩
      rintro rfl
      cases digit
  read fuel rest _ ends := by
    rw [value_number written]
    simp [numberDocument, NumberText.unsigned_append written ends.number, bare]

/-! ## Arrays -/

/-- The line break in front of what stands at a level. -/
def lineBreak (level : Nat) : List Char := '\n' :: List.replicate (2 * level) ' '

theorem toList_indent (level : Nat) : (indent level).toList = lineBreak level := by
  rw [indent, String.toList_ofList, lineBreak]

theorem isSpace_lineBreak (level : Nat) : ∀ c ∈ lineBreak level, isSpace c = true := by
  intro c hc
  rcases List.mem_cons.mp hc with rfl | hc
  · rfl
  · rw [List.eq_of_mem_replicate hc]
    rfl

/-- The lines of a block after the first one, each after its comma. -/
def moreLines (level : Nat) (lines : List (List Char)) : List Char :=
  lines.flatMap fun line => ',' :: (lineBreak level ++ line)

theorem moreLines_cons (level : Nat) (line : List Char) (lines : List (List Char)) :
    moreLines level (line :: lines) =
      ',' :: (lineBreak level ++ (line ++ moreLines level lines)) := by
  simp [moreLines]

theorem valueEnd_moreLines (level level' : Nat) (lines : List (List Char)) (rest : List Char) :
    ValueEnd (moreLines level lines ++ (lineBreak level' ++ rest)) := by
  intro c hc
  cases lines with
  | nil =>
    cases hc
    exact .inr rfl
  | cons line lines =>
    cases hc
    exact .inl rfl

theorem intercalate_lines (separated : List Char → List Char) (line : List Char)
    (lines : List (List Char)) :
    [','].intercalate ((line :: lines).map separated) =
      separated line ++ lines.flatMap fun line => ',' :: separated line := by
  induction lines generalizing line with
  | nil => simp
  | cons line' lines ih =>
    have rest := ih line'
    rw [List.map_cons] at rest ⊢
    rw [List.map_cons, List.intercalate_cons_cons, rest]
    simp

/-- The text of a block. -/
theorem toList_block (level : Nat) (left right line : String) (lines : List String) :
    (Document.block level left right (line :: lines)).toList =
      left.toList ++ (lineBreak (level + 1) ++ (line.toList ++
        (moreLines (level + 1) (lines.map String.toList) ++
          (lineBreak level ++ right.toList)))) := by
  have joined := intercalate_lines (lineBreak (level + 1) ++ ·) line.toList
    (lines.map String.toList)
  have same : ((line :: lines).map (indent (level + 1) ++ ·)).map String.toList =
      (line.toList :: lines.map String.toList).map (lineBreak (level + 1) ++ ·) := by
    simp [toList_indent]
  simp only [Document.block, List.isEmpty_cons, Bool.false_eq_true, if_false,
    String.toList_append, String.toList_intercalate, same, toList_indent]
  rw [show ",".toList = [','] from rfl, joined]
  simp only [moreLines, List.append_assoc]

section Items

variable {fuel : Nat} {done : List Document} {rest spaces : List Char}

/-- The end of an array. -/
theorem items_close (all : ∀ c ∈ spaces, isSpace c = true) :
    items (fuel + 1) done false (spaces ++ ']' :: rest) =
      (.array done.reverse none false, some rest) := by
  have closing : (']' :: rest).dropWhile isSpace = ']' :: rest := rfl
  simp only [items, List.dropWhile_append_of_pos all, closing, if_true]
  rfl

/-- An item that is announced. -/
theorem items_item {text : List Char} {d : Document} (h : ReadBack text d)
    (all : ∀ c ∈ spaces, isSpace c = true) {afterComma : Bool}
    (announced : (done.isEmpty || afterComma) = true) (enough : 2 * text.length ≤ fuel)
    (ends : ValueEnd rest) :
    items (fuel + 1) done afterComma (spaces ++ (text ++ rest)) =
      items fuel (d :: done) false rest := by
  have read := h.value enough ends
  obtain ⟨c, cs, rfl, visible, other⟩ := h.opens
  rw [List.cons_append] at read
  rw [items, List.dropWhile_append_of_pos all, List.cons_append,
    List.dropWhile_cons_of_neg (by simp [visible])]
  simp only [if_neg other, if_pos announced, read]

/-- A comma after an item. -/
theorem items_comma (several : done.isEmpty = false) :
    items (fuel + 1) done false (',' :: rest) = items fuel done true rest := by
  have comma : (',' :: rest).dropWhile isSpace = ',' :: rest := rfl
  simp only [items, comma, if_neg (show ',' ≠ ']' by decide), several]
  rfl

/-- The items of an array after the first one. -/
theorem items_more (level level' : Nat) {text : Document → List Char} {ds : List Document}
    (each : ∀ d ∈ ds, ReadBack (text d) d) (several : done.isEmpty = false)
    (enough : 2 * (moreLines level (ds.map text) ++ (lineBreak level' ++ [']'])).length ≤ fuel) :
    items fuel done false (moreLines level (ds.map text) ++ (lineBreak level' ++ ']' :: rest)) =
      (.array (done.reverse ++ ds) none false, some rest) := by
  induction ds generalizing fuel done with
  | nil =>
    obtain ⟨fuel, rfl⟩ : ∃ k, fuel = k + 1 := ⟨fuel - 1, by simp at enough; omega⟩
    rw [List.append_nil]
    exact items_close (isSpace_lineBreak level')
  | cons d ds ih =>
    have read := each d List.mem_cons_self
    have positive := read.length_pos
    rw [List.map_cons, moreLines_cons] at enough ⊢
    simp only [List.length_cons, List.length_append, List.cons_append] at enough
    obtain ⟨fuel, rfl⟩ : ∃ k, fuel = k + 1 + 1 := ⟨fuel - 2, by omega⟩
    have next := valueEnd_moreLines level level' (ds.map text) (']' :: rest)
    rw [List.cons_append, items_comma several, List.append_assoc, List.append_assoc,
      items_item read (isSpace_lineBreak level) (by simp) (by omega) next,
      ih (fun d hd => each d (List.mem_cons_of_mem _ hd)) rfl
        (by simp only [List.length_append, List.length_cons]; omega)]
    simp

end Items

/-- **An array is read as it was written.** -/
theorem readBack_array (level : Nat) {text : Document → String} {ds : List Document}
    (each : ∀ d ∈ ds, ReadBack (text d).toList d) :
    ReadBack (Document.block level "[" "]" (ds.map text)).toList (.list ds) := by
  cases ds with
  | nil =>
    have empty : (Document.block level "[" "]" []).toList = ['[', ']'] := by
      simp [Document.block]
    rw [List.map_nil, empty]
    refine ⟨⟨'[', [']'], rfl, rfl, by decide⟩, fun fuel rest enough _ => ?_⟩
    obtain ⟨fuel, rfl⟩ : ∃ k, fuel = k + 1 := ⟨fuel - 1, by simp at enough; omega⟩
    rfl
  | cons d ds =>
    have read := each d List.mem_cons_self
    have others : ∀ d ∈ ds, ReadBack (text d).toList d :=
      fun d hd => each d (List.mem_cons_of_mem _ hd)
    have lines : (ds.map text).map String.toList = ds.map fun d => (text d).toList := by
      simp only [List.map_map, Function.comp_def]
    rw [List.map_cons, toList_block, lines, show "[".toList = ['['] from rfl,
      show "]".toList = [']'] from rfl]
    refine ⟨⟨'[', _, rfl, rfl, by decide⟩, fun fuel rest enough _ => ?_⟩
    simp only [List.length_append, List.length_cons, List.length_nil] at enough
    obtain ⟨fuel, rfl⟩ : ∃ k, fuel = k + 1 := ⟨fuel - 1, by omega⟩
    have next :=
      valueEnd_moreLines (level + 1) level (ds.map fun d => (text d).toList) (']' :: rest)
    simp only [List.append_assoc, List.cons_append, List.nil_append]
    change items (fuel + 1) [] false _ = _
    rw [items_item read (isSpace_lineBreak (level + 1)) rfl (by omega) next,
      items_more (level + 1) level others rfl
        (by simp only [List.length_append, List.length_cons, List.length_nil]; omega)]
    rfl

/-! ## Objects -/

section Members

variable {fuel : Nat} {done : List (Option String × Document)} {rest spaces : List Char}

/-- The text of a member whose value has the text `text`. -/
def memberText (key : String) (text : List Char) : List Char :=
  (quote key).toList ++ (':' :: ' ' :: text)

theorem length_memberText (key : String) (text : List Char) :
    text.length < (memberText key text).length := by
  simp only [memberText, List.length_append, List.length_cons]
  omega

/-- The end of an object. -/
theorem members_close (all : ∀ c ∈ spaces, isSpace c = true) :
    members (fuel + 1) done false (spaces ++ '}' :: rest) =
      (.object done.reverse none false none, some rest) := by
  have closing : ('}' :: rest).dropWhile isSpace = '}' :: rest := rfl
  simp only [members, List.dropWhile_append_of_pos all, closing, if_true]
  rfl

/-- A comma after a member. -/
theorem members_comma (several : done.isEmpty = false) :
    members (fuel + 1) done false (',' :: rest) = members fuel done true rest := by
  have comma : (',' :: rest).dropWhile isSpace = ',' :: rest := rfl
  simp only [members, comma, if_neg (show ',' ≠ '}' by decide), several]
  rfl

/-- A member that is announced. -/
theorem members_member {text : List Char} {d : Document} (h : ReadBack text d) (key : String)
    (all : ∀ c ∈ spaces, isSpace c = true) {afterComma : Bool}
    (announced : (done.isEmpty || afterComma) = true) (enough : 2 * text.length ≤ fuel)
    (ends : ValueEnd rest) :
    members (fuel + 1) done afterComma (spaces ++ (memberText key text ++ rest)) =
      members fuel ((some key, d) :: done) false rest := by
  have read : value fuel (' ' :: (text ++ rest)) = (d, some rest) := by
    rw [← h.value enough ends]
    cases fuel <;> rfl
  have quoted : memberText key text ++ rest =
      '"' :: (key.toList.flatMap escapeChar ++ '"' :: ':' :: ' ' :: (text ++ rest)) := by
    simp [memberText, toList_quote]
  have opening : ∀ cs : List Char, ('"' :: cs).dropWhile isSpace = '"' :: cs := fun _ => rfl
  have colon : ∀ cs : List Char, (':' :: cs).dropWhile isSpace = ':' :: cs := fun _ => rfl
  rw [quoted]
  simp only [members, List.dropWhile_append_of_pos all, opening,
    if_neg (show '"' ≠ '}' by decide), announced, if_true, string_quote, colon, read]

/-- The members of an object after the first one. -/
theorem members_more (text : Document → List Char) (level level' : Nat)
    {ms : List (String × Document)} (each : ∀ m ∈ ms, ReadBack (text m.2) m.2)
    (several : done.isEmpty = false)
    (enough : 2 * (moreLines level (ms.map fun m => memberText m.1 (text m.2)) ++
      (lineBreak level' ++ ['}'])).length ≤ fuel) :
    members fuel done false (moreLines level (ms.map fun m => memberText m.1 (text m.2)) ++
        (lineBreak level' ++ '}' :: rest)) =
      (.object (done.reverse ++ ms.map fun m => (some m.1, m.2)) none false none, some rest) := by
  induction ms generalizing fuel done with
  | nil =>
    obtain ⟨fuel, rfl⟩ : ∃ k, fuel = k + 1 := ⟨fuel - 1, by simp at enough; omega⟩
    simp only [List.map_nil, List.append_nil]
    exact members_close (isSpace_lineBreak level')
  | cons m ms ih =>
    obtain ⟨key, d⟩ := m
    have read : ReadBack (text d) d := each _ List.mem_cons_self
    have shorter := length_memberText key (text d)
    rw [List.map_cons, moreLines_cons] at enough ⊢
    simp only [List.length_cons, List.length_append, List.cons_append] at enough
    obtain ⟨fuel, rfl⟩ : ∃ k, fuel = k + 1 + 1 := ⟨fuel - 2, by omega⟩
    have next := valueEnd_moreLines level level' (ms.map fun m => memberText m.1 (text m.2))
      ('}' :: rest)
    rw [List.cons_append, members_comma several, List.append_assoc, List.append_assoc,
      members_member read key (isSpace_lineBreak level) (by simp) (by omega) next,
      ih (fun m hm => each m (List.mem_cons_of_mem _ hm)) rfl
        (by simp only [List.length_append, List.length_cons]; omega)]
    simp

end Members

/-- **An object is read as it was written.** -/
theorem readBack_object (level : Nat) {text : Document → String} {ms : List (String × Document)}
    (each : ∀ m ∈ ms, ReadBack (text m.2).toList m.2) :
    ReadBack (Document.block level "\x7b" "\x7d"
      (ms.map fun m => quote m.1 ++ ": " ++ text m.2)).toList (.record ms) := by
  cases ms with
  | nil =>
    have empty : (Document.block level "\x7b" "\x7d" []).toList = ['{', '}'] := by
      simp [Document.block]
    rw [List.map_nil, empty]
    refine ⟨⟨'{', ['}'], rfl, rfl, by decide⟩, fun fuel rest enough _ => ?_⟩
    obtain ⟨fuel, rfl⟩ : ∃ k, fuel = k + 1 := ⟨fuel - 1, by simp at enough; omega⟩
    rfl
  | cons m ms =>
    obtain ⟨key, d⟩ := m
    have read : ReadBack (text d).toList d := each _ List.mem_cons_self
    have others : ∀ m ∈ ms, ReadBack (text m.2).toList m.2 :=
      fun m hm => each m (List.mem_cons_of_mem _ hm)
    have shorter := length_memberText key (text d).toList
    have line : ∀ m : String × Document, (quote m.1 ++ ": " ++ text m.2).toList =
        memberText m.1 (text m.2).toList := by
      intro m
      simp [memberText]
    have lines : (ms.map fun m => quote m.1 ++ ": " ++ text m.2).map String.toList =
        ms.map fun m => memberText m.1 (text m.2).toList := by
      simp only [List.map_map, Function.comp_def, line]
    rw [List.map_cons, toList_block, line, lines, show "\x7b".toList = ['{'] from rfl,
      show "\x7d".toList = ['}'] from rfl]
    refine ⟨⟨'{', _, rfl, rfl, by decide⟩, fun fuel rest enough _ => ?_⟩
    simp only [List.length_append, List.length_cons, List.length_nil] at enough
    obtain ⟨fuel, rfl⟩ : ∃ k, fuel = k + 1 := ⟨fuel - 1, by omega⟩
    have next := valueEnd_moreLines (level + 1) level
      (ms.map fun m => memberText m.1 (text m.2).toList) ('}' :: rest)
    simp only [List.append_assoc, List.cons_append, List.nil_append]
    change members (fuel + 1) [] false _ = _
    rw [members_member read key (isSpace_lineBreak (level + 1)) rfl (by omega) next,
      members_more (fun d => (text d).toList) (level + 1) level others rfl
        (by simp only [List.length_append, List.length_cons, List.length_nil]; omega)]
    rfl

/-! ## Documents -/

namespace Document

/-- A document that can be written: it is made of values that a text has. -/
inductive Written : Document → Prop
  | null : Written .null
  | bool (b : Bool) : Written (.bool b)
  | number {n : NumberText} : n.Written → n.padded = false → n.value?.isSome = true →
    Written (.number n)
  | text (s : String) : Written (.text s)
  | list {ds : List Document} : (∀ d ∈ ds, Written d) → Written (.list ds)
  | record {ms : List (String × Document)} : (∀ m ∈ ms, Written m.2) → Written (.record ms)

theorem prettyItems_eq (level : Nat) (ds : List Document) :
    prettyItems level ds = ds.map (prettyAt level) := by
  induction ds with
  | nil => rfl
  | cons d ds ih => rw [prettyItems, ih, List.map_cons]

theorem prettyMembers_eq (level : Nat) (ms : List (String × Document)) :
    prettyMembers level (ms.map fun m => (some m.1, m.2)) =
      ms.map fun m => quote m.1 ++ ": " ++ prettyAt level m.2 := by
  induction ms with
  | nil => rfl
  | cons m ms ih => simp only [List.map_cons, prettyMembers, ih, Option.getD_some]

/-- The text of a document is read as the document at every level of indentation. -/
theorem Written.readBack {d : Document} (h : d.Written) (level : Nat) :
    ReadBack (prettyAt level d).toList d := by
  induction h generalizing level with
  | null => exact readBack_null
  | bool b => exact readBack_bool b
  | @number n written bare _ =>
    rw [prettyAt, String.toList_ofList]
    exact readBack_number written bare
  | text s => exact readBack_text s
  | @list ds _ ih =>
    rw [Document.list, prettyAt, prettyItems_eq]
    exact readBack_array level fun d hd => ih d hd (level + 1)
  | @record ms _ ih =>
    rw [Document.record, prettyAt, prettyMembers_eq]
    exact readBack_object level fun m hm => ih m hm (level + 1)

/-- A text that is read back is read as a whole. -/
theorem ofText_readBack {s : String} {d : Document} (h : ReadBack s.toList d) :
    ofText s = (d, false) := by
  have ends : ValueEnd [] := fun c none => by cases none
  have read := h.read (2 * s.toList.length + 1) [] (by omega) ends
  rw [List.append_nil] at read
  simp only [ofText, read]
  rfl

/-- **A document is read as it was written**, and nothing is left over. -/
theorem ofText_pretty {d : Document} (h : d.Written) : ofText d.pretty = (d, false) :=
  ofText_readBack (h.readBack 0)

/-- A number that has a zero in front of other digits is not read. -/
theorem ofText_padded {n : NumberText} (written : n.Written) (padded : n.padded = true) :
    ofText (Document.number n).pretty = (.broken .malformed, false) := by
  have ends : ValueEnd [] := fun c none => by cases none
  have read := value_number written (2 * n.text.length + 1) []
  rw [numberDocument, NumberText.unsigned_append written ends.number, if_pos padded,
    List.append_nil] at read
  simp only [ofText, pretty, prettyAt, String.toList_ofList, read]
  rfl

end Document

end RegisterVm.Json
