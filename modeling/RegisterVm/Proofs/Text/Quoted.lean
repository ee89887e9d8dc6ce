import Mathlib.Data.List.Basic
import RegisterVm.Heap.Shown
import RegisterVm.Json.Reader

/-!
# Reading quoted texts

`unquoted?` reads a literal in either kind of quotes: the delimiter, the backslash and three control
characters are escaped by one character, and `\xNN` stands for a character by its number. A literal
form is read as the text that it was made of (`unquoted?_quoted`), character by character
(`readBody_escape`), so different texts have different literal forms. Main statement:
`quotedText_undone`.
-/

namespace RegisterVm.Text

/-! ## The reader -/

/-- The character of an escape of one character between delimiters `d`. -/
def shortEscape? (d : Char) : Char → Option Char
  | '\\' => some '\\'
  | 'n' => some '\n'
  | 'r' => some '\r'
  | 't' => some '\t'
  | c => if c = d then some d else none

/-- The text of a literal after its opening delimiter `d`. Nothing may follow the closing one. -/
def readBody (d : Char) : List Char → Option (List Char)
  | [] => none
  | '\\' :: 'x' :: a :: b :: rest =>
    (Json.hexNumber? [a, b]).bind fun n => (readBody d rest).map (Char.ofNat n :: ·)
  | '\\' :: e :: rest => (shortEscape? d e).bind fun c => (readBody d rest).map (c :: ·)
  | c :: rest =>
    if c = d then if rest.isEmpty then some [] else none
    else (readBody d rest).map (c :: ·)

/-- The delimiters of literals. -/
def IsDelimiter (d : Char) : Prop := d = '\'' ∨ d = '"'

instance (d : Char) : Decidable (IsDelimiter d) := inferInstanceAs (Decidable (_ ∨ _))

/-- The text of a literal. -/
def unquoted? : List Char → Option (List Char)
  | [] => none
  | d :: rest => if IsDelimiter d then readBody d rest else none

/-- The characters that no backslash escapes. -/
def bare : List Char → List Char
  | [] => []
  | '\\' :: _ :: rest => bare rest
  | c :: rest => c :: bare rest

/-! ## Characters -/

variable {d c : Char}

theorem isDelimiter_delimiter (s : List Char) : IsDelimiter (delimiter s) := by
  unfold delimiter
  split
  · exact .inr rfl
  · exact .inl rfl

theorem hexValue?_hexDigit : ∀ n < 16, Json.hexValue? (hexDigit n) = some n := by
  decide

/-- The two digits of a number are read as it. -/
theorem hexNumber?_hexByte {n : Nat} (small : n < 256) : Json.hexNumber? (hexByte n) = some n := by
  have high := hexValue?_hexDigit (n / 16) (by omega)
  have low := hexValue?_hexDigit (n % 16) (by omega)
  simp only [Json.hexNumber?, hexByte, List.foldlM_cons, List.foldlM_nil, high, low,
    Option.map_some, Option.bind_eq_bind, Option.bind_some, Option.pure_def]
  congr 1
  omega

theorem lt_of_isControl (control : isControl c = true) : c.toNat < 160 := by
  simp only [isControl, Bool.or_eq_true, Bool.and_eq_true, decide_eq_true_eq] at control
  omega

/-- How a control character is written that has no escape of one character. -/
theorem escape_of_isControl (d : Char) (control : isControl c = true) (newline : c ≠ '\n')
    (ret : c ≠ '\r') (tab : c ≠ '\t') (delimits : IsDelimiter d) :
    escape d c = '\\' :: 'x' :: hexByte c.toNat := by
  have backslash : c ≠ '\\' := by
    rintro rfl
    cases control
  have quote : c ≠ d := by
    rintro rfl
    rcases delimits with rfl | rfl <;> cases control
  simp only [escape, if_neg backslash, if_neg newline, if_neg ret, if_neg tab, if_neg quote,
    if_pos control]

/-- A character that is neither the delimiter nor a backslash is read as it is. -/
theorem readBody_plain (rest : List Char) (quote : c ≠ d) (backslash : c ≠ '\\') :
    readBody d (c :: rest) = (readBody d rest).map (c :: ·) := by
  rw [readBody.eq_def]
  split
  case h_4 same =>
    obtain ⟨rfl, rfl⟩ := List.cons.inj same
    rw [if_neg quote]
  all_goals simp_all

/-- **A character is read as it was written**, escaped or not. -/
theorem readBody_escape (delimits : IsDelimiter d) (c : Char) (rest : List Char) :
    readBody d (escape d c ++ rest) = (readBody d rest).map (c :: ·) := by
  unfold escape
  split
  · subst c; simp [readBody, shortEscape?]
  split
  · subst c; simp [readBody, shortEscape?]
  split
  · subst c; simp [readBody, shortEscape?]
  split
  · subst c; simp [readBody, shortEscape?]
  split
  · subst c
    rcases delimits with rfl | rfl <;> simp [readBody, shortEscape?]
  split
  · rename_i control
    have number := hexNumber?_hexByte (n := c.toNat) (by have := lt_of_isControl control; omega)
    simp only [hexByte] at number
    simp only [hexByte, List.cons_append, List.nil_append, readBody, number, Option.bind_some,
      Char.ofNat_toNat]
  · rename_i backslash _ _ _ quote _
    exact readBody_plain rest quote backslash

theorem readBody_flatMap (delimits : IsDelimiter d) (s rest : List Char) :
    readBody d (s.flatMap (escape d) ++ rest) = (readBody d rest).map (s ++ ·) := by
  induction s with
  | nil => simp
  | cons c s ih =>
    rw [List.flatMap_cons, List.append_assoc, readBody_escape delimits, ih, Option.map_map]
    rfl

/-- A text between delimiters is read, whatever delimiter was chosen. -/
theorem unquoted?_escaped (delimits : IsDelimiter d) (s : List Char) :
    unquoted? (d :: (s.flatMap (escape d) ++ [d])) = some s := by
  have backslash : d ≠ '\\' := by
    rcases delimits with rfl | rfl <;> decide
  have closing : readBody d [d] = some [] := by
    rw [readBody.eq_def]
    split <;> simp_all
  rw [unquoted?, if_pos delimits, readBody_flatMap delimits, closing, Option.map_some,
    List.append_nil]

/-- **A literal form is read as its text.** -/
theorem unquoted?_quoted (s : List Char) : unquoted? (quoted s) = some s :=
  unquoted?_escaped (isDelimiter_delimiter s) s

/-! ## What stands in a literal -/

/-- In the literal `q` of a text, `e` is for what is between `l` and `r`: the literal up to there
is read as `l`, and what follows as `r`. -/
def StandsBetween (l r e q : List Char) : Prop :=
  ∃ d front back, q = front ++ (e ++ back) ∧ unquoted? (front ++ [d]) = some l ∧
    unquoted? (d :: back) = some r

/-- The escapes of control characters: three have a letter, all others two hexadecimal digits. -/
inductive ControlEscape : Char → List Char → Prop
  | newline : ControlEscape '\n' ['\\', 'n']
  | ret : ControlEscape '\r' ['\\', 'r']
  | tab : ControlEscape '\t' ['\\', 't']
  | hex {c a b : Char} : c ≠ '\n' → c ≠ '\r' → c ≠ '\t' → Json.hexNumber? [a, b] = some c.toNat →
    ControlEscape c ['\\', 'x', a, b]

theorem escape_standsBetween (l r : List Char) (c : Char) :
    StandsBetween l r (escape (delimiter (l ++ c :: r)) c) (quoted (l ++ c :: r)) := by
  have delimits := isDelimiter_delimiter (l ++ c :: r)
  generalize hd : delimiter (l ++ c :: r) = d at delimits
  refine ⟨d, d :: l.flatMap (escape d), r.flatMap (escape d) ++ [d], ?_,
    unquoted?_escaped delimits l, unquoted?_escaped delimits r⟩
  simp only [quoted, hd, List.flatMap_append, List.flatMap_cons, List.append_assoc,
    List.cons_append]

theorem controlEscape_escape (delimits : IsDelimiter d) (control : isControl c = true) :
    ControlEscape c (escape d c) := by
  by_cases newline : c = '\n'
  · subst newline; exact .newline
  by_cases ret : c = '\r'
  · subst ret; exact .ret
  by_cases tab : c = '\t'
  · subst tab; exact .tab
  · rw [escape_of_isControl d control newline ret tab delimits]
    exact .hex newline ret tab (hexNumber?_hexByte (by have := lt_of_isControl control; omega))

theorem isControl_hexDigit : ∀ n < 16, isControl (hexDigit n) = false := by
  decide

theorem hexDigit_ne (delimits : IsDelimiter d) : ∀ n < 16, hexDigit n ≠ d ∧ hexDigit n ≠ '\\' := by
  rcases delimits with rfl | rfl <;> decide

/-- No control character is left as it is. -/
theorem isControl_of_mem_escape (delimits : IsDelimiter d) {x : Char} (hx : x ∈ escape d c) :
    isControl x = false := by
  have quote : isControl d = false := by
    rcases delimits with rfl | rfl <;> rfl
  unfold escape at hx
  split at hx
  · simp only [List.mem_cons, List.not_mem_nil, or_false, or_self] at hx
    subst hx; rfl
  iterate 3
    split at hx
    · simp only [List.mem_cons, List.not_mem_nil, or_false] at hx
      rcases hx with rfl | rfl <;> rfl
  split at hx
  · rename_i same
    simp only [List.mem_cons, List.not_mem_nil, or_false] at hx
    rcases hx with rfl | rfl
    · rfl
    · rwa [same]
  split at hx
  · rename_i control
    have small := lt_of_isControl control
    simp only [hexByte, List.mem_cons, List.not_mem_nil, or_false] at hx
    rcases hx with rfl | rfl | rfl | rfl
    · rfl
    · rfl
    · exact isControl_hexDigit _ (by omega)
    · exact isControl_hexDigit _ (by omega)
  · rename_i visible
    rw [List.mem_singleton.mp hx]
    exact Bool.not_eq_true _ ▸ visible

theorem bare_cons (rest : List Char) (backslash : c ≠ '\\') :
    bare (c :: rest) = c :: bare rest := by
  rw [bare.eq_def]
  split <;> simp_all

/-- In what is written for a character every delimiter is escaped. -/
theorem not_mem_bare_escape (delimits : IsDelimiter d) (c : Char) {rest : List Char}
    (none : d ∉ bare rest) : d ∉ bare (escape d c ++ rest) := by
  unfold escape
  iterate 5
    split
    · exact none
  split
  · rename_i control
    have small := lt_of_isControl control
    have high := hexDigit_ne delimits (c.toNat / 16) (by omega)
    have low := hexDigit_ne delimits (c.toNat % 16) (by omega)
    simp only [hexByte, List.cons_append, List.nil_append, bare, bare_cons _ high.2,
      bare_cons _ low.2, List.mem_cons, high.1.symm, low.1.symm, false_or]
    exact none
  · rename_i backslash _ _ _ quote _
    rw [List.singleton_append, bare_cons _ backslash, List.mem_cons, not_or]
    exact ⟨Ne.symm quote, none⟩

theorem not_mem_bare_flatMap (delimits : IsDelimiter d) (s : List Char) :
    d ∉ bare (s.flatMap (escape d)) := by
  induction s with
  | nil => exact List.not_mem_nil
  | cons c s ih => exact not_mem_bare_escape delimits c ih

/-! ## Strings -/

/-- The string of a literal. -/
def unquotedText? (t : String) : Option String := (unquoted? t.toList).map String.ofList

theorem toList_quotedText (s : String) : (quotedText s).toList = quoted s.toList :=
  String.toList_ofList

theorem unquotedText?_quotedText (s : String) : unquotedText? (quotedText s) = some s := by
  rw [unquotedText?, toList_quotedText, unquoted?_quoted, Option.map_some, String.ofList_toList]

/-- **The literal form of a string can be undone.** It is read as the string, so different strings
have different literal forms. At the place of every control character stands an escape: of its own
for newline, carriage return and tab, and otherwise the number of the character in exactly two
hexadecimal digits; no control character is left as it is. Between the delimiters every delimiter is
escaped. -/
theorem quotedText_undone (s : String) :
    unquotedText? (quotedText s) = some s ∧
    (∀ t, quotedText t = quotedText s → t = s) ∧
    (∀ l c r, s.toList = l ++ c :: r → isControl c = true →
      ∃ e, ControlEscape c e ∧ StandsBetween l r e (quotedText s).toList) ∧
    (∀ c ∈ (quotedText s).toList, isControl c = false) ∧
    ∃ d body, (quotedText s).toList = d :: (body ++ [d]) ∧ IsDelimiter d ∧ d ∉ bare body := by
  have delimits := isDelimiter_delimiter s.toList
  refine ⟨unquotedText?_quotedText s, fun t same => ?_, fun l c r whole control => ?_, ?_,
    delimiter s.toList, s.toList.flatMap (escape (delimiter s.toList)), toList_quotedText s,
    delimits, not_mem_bare_flatMap delimits s.toList⟩
  · have read := unquotedText?_quotedText t
    rw [same, unquotedText?_quotedText] at read
    exact (Option.some.inj read).symm
  · rw [toList_quotedText, whole]
    exact ⟨_, controlEscape_escape (isDelimiter_delimiter _) control, escape_standsBetween l r c⟩
  · intro c hc
    have quote : isControl (delimiter s.toList) = false := by
      rcases delimits with same | same <;> rw [same] <;> rfl
    rw [toList_quotedText, quoted, List.mem_cons, List.mem_append, List.mem_flatMap,
      List.mem_singleton] at hc
    rcases hc with rfl | ⟨_, -, hc⟩ | rfl
    · exact quote
    · exact isControl_of_mem_escape delimits hc
    · exact quote

/-- Both kinds of quotes around a control character beyond ASCII. -/
theorem quotedText_undone_mixed :
    quotedText "'\x85\"" = "'\\'\\x85\"'" ∧ unquotedText? (quotedText "'\x85\"") = some "'\x85\"" ∧
    ∃ e, ControlEscape '\x85' e ∧ StandsBetween ['\''] ['"'] e (quotedText "'\x85\"").toList := by
  obtain ⟨read, -, stands, -⟩ := quotedText_undone "'\x85\""
  exact ⟨by decide, read, stands ['\''] '\x85' ['"'] rfl rfl⟩

/-- A newline is a control character, and written without hexadecimal digits. -/
theorem quotedText_newline : isControl '\n' = true ∧ quotedText "\n" = "'\\n'" ∧
    ¬∃ a b, ['\\', 'x', a, b] <:+: (quotedText "\n").toList := by
  have written : (quotedText "\n").toList = ['\'', '\\', 'n', '\''] := by decide
  refine ⟨rfl, by decide, ?_⟩
  rintro ⟨a, b, inside⟩
  have letter : 'x' ∈ (quotedText "\n").toList := inside.subset (by simp)
  rw [written] at letter
  revert letter
  decide

end RegisterVm.Text
