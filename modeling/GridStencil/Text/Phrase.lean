/-!
Small forms that recur in messages and listings: quoted names, bracketed lists, indentation.
-/

namespace GridStencil.Text

/-- A name between the quotes that messages use. -/
def quoted (name : String) : String := "`" ++ name ++ "'"

/-- Items between square brackets, separated by commas. -/
def bracketed (items : List String) : String := "[" ++ ", ".intercalate items ++ "]"

/-- A blank repeated `width` times. -/
def blanks (width : Nat) : String := String.ofList (List.replicate width ' ')

/-- Lines of a listing, each ended by a newline. -/
def unlines (lines : List String) : String := String.join (lines.map (· ++ "\n"))

/-- A text with every line but the first moved right by `width`. -/
def hanging (width : Nat) (text : String) : String :=
  String.join (text.toList.map fun c => if c = '\n' then "\n" ++ blanks width else c.toString)

end GridStencil.Text
