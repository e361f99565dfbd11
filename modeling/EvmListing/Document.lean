/-! Structured documents and their JSON text, on one line or indented. The members of an object stay
in the order given. -/
namespace EvmListing

inductive Document where
  | bool (value : Bool)
  | number (value : Nat)
  | text (content : String)
  | list (items : List Document)
  | object (members : List (String × Document))

namespace Document

/-- A character inside a JSON string. Only quotation marks, backslashes and controls are escaped. -/
def escape (c : Char) : List Char :=
  if c = '"' then ['\\', '"']
  else if c = '\\' then ['\\', '\\']
  else if c = '\x08' then ['\\', 'b']
  else if c = '\t' then ['\\', 't']
  else if c = '\n' then ['\\', 'n']
  else if c = '\x0C' then ['\\', 'f']
  else if c = '\r' then ['\\', 'r']
  else if c.toNat < 0x20 then
    ['\\', 'u', '0', '0', Nat.digitChar (c.toNat / 16), Nat.digitChar (c.toNat % 16)]
  else [c]

def quote (s : String) : List Char := '"' :: s.toList.flatMap escape ++ ['"']

/-- What stands between the tokens: a break before each element and each closing bracket, by the
depth of nesting there, and what follows the colon of a member. -/
structure Layout where
  lineBreak : Nat → List Char
  afterColon : List Char

def onOneLine : Layout := { lineBreak := fun _ => [], afterColon := [] }

/-- One line for each element, two spaces for each level. -/
def indented : Layout :=
  { lineBreak := fun depth => '\n' :: List.replicate (2*depth) ' ', afterColon := [' '] }

/-- Elements between brackets with commas between them. Without elements the brackets touch. -/
def enclose (layout : Layout) (depth : Nat) (left right : Char) : List (List Char) → List Char
  | [] => [left, right]
  | part :: parts =>
    left :: layout.lineBreak (depth + 1) ++ part ++
      parts.flatMap (fun part => ',' :: layout.lineBreak (depth + 1) ++ part) ++
      layout.lineBreak depth ++ [right]

mutual

def render (layout : Layout) (depth : Nat) : Document → List Char
  | bool value => if value then ['t', 'r', 'u', 'e'] else ['f', 'a', 'l', 's', 'e']
  | number value => Nat.toDigits 10 value
  | text content => quote content
  | list items => enclose layout depth '[' ']' (renderItems layout (depth + 1) items)
  | object members => enclose layout depth '\x7b' '\x7d' (renderMembers layout (depth + 1) members)

def renderItems (layout : Layout) (depth : Nat) : List Document → List (List Char)
  | [] => []
  | item :: items => render layout depth item :: renderItems layout depth items

def renderMembers (layout : Layout) (depth : Nat) : List (String × Document) → List (List Char)
  | [] => []
  | (key, value) :: members =>
    (quote key ++ ':' :: layout.afterColon ++ render layout depth value) ::
      renderMembers layout depth members

end

def compact (d : Document) : String := String.ofList (render onOneLine 0 d)

def pretty (d : Document) : String := String.ofList (render indented 0 d)

/-- A member that is left out when there is no value for it. -/
def optional {α : Type} (key : String) (f : α → Document) : Option α → List (String × Document)
  | some x => [(key, f x)]
  | none => []

example : (object [("a", list []), ("b", number 10)]).compact =
    "\x7b\"a\":[],\"b\":10\x7d" := by decide

end Document
end EvmListing
