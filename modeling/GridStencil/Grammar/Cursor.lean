/-!
Positions in a text that is being read, and the layout between its tokens.

Layout is blanks, tabs, newlines, carriage returns and comments; a comment starts with `#` and
ends before the next newline or carriage return. `skipLayout_skipLayout` says that nothing is left
to skip after skipping.
-/

namespace GridStencil.Grammar

/-- What is left of a text and how many bytes were read. -/
structure Cursor where
  rest : List Char
  offset : Nat
deriving DecidableEq

namespace Cursor

/-- The start of a text. -/
def ofText (text : String) : Cursor := ⟨text.toList, 0⟩

/-- The first characters of `rest` that take at most `bytes` bytes. -/
def takeBytes : Nat → List Char → List Char
  | _, [] => []
  | bytes, c :: cs =>
    if c.utf8Size ≤ bytes then c :: takeBytes (bytes - c.utf8Size) cs else []

/-- The text between two positions. -/
def textTo (start stop : Cursor) : String :=
  String.ofList (takeBytes (stop.offset - start.offset) start.rest)

/-- Whether a character is layout by itself. -/
def isLayout (c : Char) : Bool := c = ' ' || c = '\t' || c = '\n' || c = '\r'

/-- Whether a character ends a comment. -/
def endsComment (c : Char) : Bool := c = '\n' || c = '\r'

/-- The position behind the layout at the start of `rest`; `inComment` says that a comment has
begun. -/
def skipFrom (inComment : Bool) : List Char → Nat → Cursor
  | [], offset => ⟨[], offset⟩
  | c :: cs, offset =>
    if inComment then skipFrom (!endsComment c) cs (offset + c.utf8Size)
    else if isLayout c then skipFrom false cs (offset + c.utf8Size)
    else if c = '#' then skipFrom true cs (offset + c.utf8Size)
    else ⟨c :: cs, offset⟩

/-- The position behind the layout at a position. -/
def skipLayout (cursor : Cursor) : Cursor := skipFrom false cursor.rest cursor.offset

theorem skipLayout_skipFrom (inComment : Bool) (rest : List Char) (offset : Nat) :
    (skipFrom inComment rest offset).skipLayout = skipFrom inComment rest offset := by
  induction rest generalizing inComment offset with
  | nil => simp [skipFrom, skipLayout]
  | cons c cs ih =>
    unfold skipFrom
    split
    · exact ih _ _
    · split
      · exact ih _ _
      · split
        · exact ih _ _
        · simp_all [skipLayout, skipFrom]

@[simp] theorem skipLayout_skipLayout (cursor : Cursor) :
    cursor.skipLayout.skipLayout = cursor.skipLayout :=
  skipLayout_skipFrom false cursor.rest cursor.offset

end Cursor

end GridStencil.Grammar
