import GridStencil.Number.Notation
import GridStencil.Number.Reader
import GridStencil.Text.Blank
import GridStencil.Text.Phrase

/-!
Constants: integers, doubles and truth values.

The text of a double always has a point, an exponent or a word, so it never reads back as an
integer.
-/

namespace GridStencil

/-- A constant of the source, or the value of an external. -/
inductive Literal
  | int (value : Int)
  | float (value : Float)
  | bool (value : Bool)
deriving DecidableEq

namespace Literal

/-- The double that a truth value counts as. -/
def ofTruth (b : Bool) : Float := if b then 1.0 else 0.0

/-- The double that computations use for a constant. -/
def toFloat : Literal → Float
  | int value => Float.ofInt value
  | float value => value
  | bool value => ofTruth value

/-- The integer that a constant is. -/
def toInt? : Literal → Option Int
  | int value => some value
  | float _ | bool _ => none

/-- The text of a constant. -/
def render : Literal → String
  | int value => toString value
  | float value => Number.text value
  | bool true => "True"
  | bool false => "False"

/-- The constant that a text without blanks around it stands for. -/
def readWord? (word : String) : Option Literal :=
  if word = "True" ∨ word = "true" then some (bool true)
  else if word = "False" ∨ word = "false" then some (bool false)
  else
    match Number.readInt? word.toList with
    | some value => some (int value)
    | none => (Number.readFloat? word.toList).map float

/-- Why a text is not a constant. -/
structure Unreadable where
  text : String
deriving DecidableEq

/-- A sentence that names the text. -/
def Unreadable.message (fault : Unreadable) : String :=
  Text.quoted fault.text ++ " is not a number or boolean"

/-- The constant that a text stands for; blanks around it do not count. -/
def read (text : String) : Except Unreadable Literal :=
  let word := Text.trimBlank text
  match readWord? word with
  | some literal => .ok literal
  | none => .error ⟨word⟩

end Literal

end GridStencil
