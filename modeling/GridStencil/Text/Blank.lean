/-!
Blanks as Unicode's property White_Space lists them, and trimming of a text by that property.
-/

namespace GridStencil.Text

/-- The code points above ASCII that have the property White_Space. -/
def wideBlanks : List Nat :=
  [0x85, 0xA0, 0x1680, 0x2000, 0x2001, 0x2002, 0x2003, 0x2004, 0x2005, 0x2006, 0x2007, 0x2008,
    0x2009, 0x200A, 0x2028, 0x2029, 0x202F, 0x205F, 0x3000]

/-- Whether a character has the property White_Space. -/
def isBlank (c : Char) : Bool :=
  c = ' ' || (9 ≤ c.toNat && c.toNat ≤ 13) || wideBlanks.contains c.toNat

/-- A text without the blanks at its two ends. -/
def trimBlank (s : String) : String :=
  let front := s.toList.dropWhile isBlank
  String.ofList (front.reverse.dropWhile isBlank).reverse

end GridStencil.Text
