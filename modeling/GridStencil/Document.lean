import GridStencil.Name.Table
import GridStencil.Text.Phrase

/-!
Structured documents in the notation JSON, with one value or key per line.

The fields of an object stand in the order of their names, so equal documents have the same text.
-/

namespace GridStencil

/-- A structured document. -/
inductive Document
  | null
  | int (value : Int)
  | text (value : String)
  | list (items : List Document)
  | object (fields : List (String × Document))

namespace Document

/-- An object with its fields in the order of their names. -/
def ofFields (fields : List (String × Document)) : Document :=
  .object (Name.Table.ofList fields).entries

/-- A pair of integers. -/
def pair (a b : Int) : Document := .list [.int a, .int b]

/-- A digit to the base sixteen. -/
def hexDigit (n : Nat) : Char := "0123456789abcdef".toList.getD n '0'

/-- A character inside a quoted text. -/
def escape (c : Char) : String :=
  match c with
  | '"' => "\\\""
  | '\\' => "\\\\"
  | '\n' => "\\n"
  | '\r' => "\\r"
  | '\t' => "\\t"
  | c =>
    if c.toNat = 8 then "\\b"
    else if c.toNat = 12 then "\\f"
    else if c.toNat < 32 then
      "\\u00" ++ String.ofList [hexDigit (c.toNat / 16), hexDigit (c.toNat % 16)]
    else c.toString

/-- A text in quotes. -/
def quote (text : String) : String := "\"" ++ String.join (text.toList.map escape) ++ "\""

/-- Items on lines of their own between brackets, which stand `indent` blanks to the right. -/
def enclosed (left right : String) (indent : Nat) (items : List String) : String :=
  if items.isEmpty then left ++ right
  else
    left ++ "\n" ++ ",\n".intercalate (items.map (Text.blanks (indent + 2) ++ ·)) ++ "\n" ++
      Text.blanks indent ++ right

mutual

/-- The text of a document whose lines stand `indent` blanks to the right. -/
def renderAt (indent : Nat) : Document → String
  | null => "null"
  | int value => toString value
  | text value => quote value
  | list items => enclosed "[" "]" indent (renderItems (indent + 2) items)
  | object fields => enclosed "\x7b" "\x7d" indent (renderFields (indent + 2) fields)

/-- The texts of the items of a list. -/
def renderItems (indent : Nat) : List Document → List String
  | [] => []
  | item :: rest => item.renderAt indent :: renderItems indent rest

/-- The texts of the fields of an object. -/
def renderFields (indent : Nat) : List (String × Document) → List String
  | [] => []
  | (name, value) :: rest =>
    (quote name ++ ": " ++ value.renderAt indent) :: renderFields indent rest

end

/-- The text of a document. -/
def render (document : Document) : String := document.renderAt 0

end Document

end GridStencil
