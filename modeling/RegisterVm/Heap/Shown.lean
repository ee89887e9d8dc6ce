import RegisterVm.Heap
import RegisterVm.Number.DecimalText
import RegisterVm.Text.Quoted

/-!
# Texts of values

`Heap.shown` is the literal form of a value, `Heap.text` its form in output: a string or exception
gives its bare text there. A container inside itself is abbreviated.
-/

namespace RegisterVm

/-- The literal form of a text. -/
def quotedText (s : String) : String := String.ofList (Text.quoted s.toList)

namespace Heap

/-- A container inside itself. -/
def abbreviation : Object → String
  | .list _ => "[...]"
  | .dict _ => "\x7b...\x7d"
  | _ => "..."

/-- Items between brackets. -/
def bracketed (left right : String) (items : List String) : String :=
  left ++ ", ".intercalate items ++ right

def rangeText (r : IntRange) : String :=
  if r.step = 1 then s!"range({r.start.toInt}, {r.stop.toInt})"
  else s!"range({r.start.toInt}, {r.stop.toInt}, {r.step.toInt})"

/-- The literal form of an object; `item` gives that of the values in it. -/
def objectText (h : Heap) (item : Value → Outcome String) (v : Value) : Object → Outcome String
  | .str s => .ok (quotedText s)
  | .big n => .ok (toString n)
  | .list items => do return bracketed "[" "]" (← items.toList.mapM item)
  | .tuple items => do
    return bracketed "(" (if items.size = 1 then ",)" else ")") (← items.toList.mapM item)
  | .dict d => do
    let entries ← d.entries.toList.mapM fun (k, v) => do return (← item k) ++ ": " ++ (← item v)
    return bracketed "\x7b" "\x7d" entries
  | .set s =>
    if s.size = 0 then .ok "set()"
    else do return bracketed "\x7b" "\x7d" (← s.items.toList.mapM item)
  | .range r => .ok (rangeText r)
  | .iterator _ => .ok "<iterator object>"
  | .function _ name => .ok s!"<function {name}>"
  | .cls name _ _ => .ok s!"<class '{name}'>"
  | .instanceOf _ _ => do
    let type ← h.typeName v
    return s!"<{type} object>"
  | .boundMethod _ function => do
    match ← h.view function with
    | some (.function _ name) => return s!"<bound method {name}>"
    | _ => return "<bound method ?>"
  | .builtin f => .ok s!"<built-in function {f.name}>"
  | .builtinMethod receiver name => do
    let type ← h.typeName receiver
    return s!"<built-in method {name} of {type} object>"
  | .exceptionClass kind => .ok s!"<class '{kind.className}'>"
  | .exception kind message => .ok s!"{kind.className}({quotedText message})"

/-- The literal form of a value inside the objects `around`. -/
def shownWithin (h : Heap) : (depth : Nat) → (around : List Handle) → Value → Outcome String
  | _, _, .float x => .ok (Binary64.shown x)
  | depth, around, .object handle => do
    let o ← h.get handle
    match depth with
    | 0 => return abbreviation o
    | depth + 1 =>
      if around.contains handle then return abbreviation o
      else h.objectText (h.shownWithin depth (handle :: around)) (.object handle) o
  | _, _, v => .ok v.listed

/-- The literal form of a value. No object stands around itself, so containers are nested at most
as deep as there are objects. -/
def shown (h : Heap) (v : Value) : Outcome String := h.shownWithin (h.size + 1) [] v

/-- The form of a value in output. -/
def text (h : Heap) (v : Value) : Outcome String := do
  match ← h.view v with
  | some (.str s) => return s
  | some (.exception _ message) => return message
  | _ => h.shown v

end Heap

end RegisterVm
