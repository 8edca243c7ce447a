import GridStencil.Grammar.Cursor

/-!
Patterns of single tokens.

A pattern is matched character by character, with no layout in between. A choice takes its first
alternative that matches, and a run of characters is always taken in full.
-/

namespace GridStencil.Grammar

/-- What the text of a token looks like. -/
inductive Pattern
  /-- One character of a class. -/
  | char (test : Char → Bool)
  /-- The characters of a class, as many as follow each other. -/
  | run (test : Char → Bool)
  /-- A fixed text. -/
  | word (text : List Char)
  /-- One pattern and then another. -/
  | seq (first second : Pattern)
  /-- The first of two patterns that matches. -/
  | alt (first second : Pattern)
  /-- A pattern, or nothing. -/
  | optional (pattern : Pattern)
  /-- Nothing, where a pattern does not match. -/
  | absent (pattern : Pattern)

namespace Pattern

/-- The position behind one character of a class. -/
def scanChar (test : Char → Bool) (cursor : Cursor) : Option Cursor :=
  match cursor.rest with
  | [] => none
  | c :: cs => if test c then some ⟨cs, cursor.offset + c.utf8Size⟩ else none

/-- The position behind all characters of a class. -/
def scanRun (test : Char → Bool) : List Char → Nat → Cursor
  | [], offset => ⟨[], offset⟩
  | c :: cs, offset =>
    if test c then scanRun test cs (offset + c.utf8Size) else ⟨c :: cs, offset⟩

/-- The position behind a fixed text. -/
def scanWord : List Char → Cursor → Option Cursor
  | [], cursor => some cursor
  | w :: ws, cursor =>
    match cursor.rest with
    | [] => none
    | c :: cs => if c = w then scanWord ws ⟨cs, cursor.offset + c.utf8Size⟩ else none

/-- The position behind the text that a pattern matches. -/
def scan : Pattern → Cursor → Option Cursor
  | char test, cursor => scanChar test cursor
  | run test, cursor => some (scanRun test cursor.rest cursor.offset)
  | word text, cursor => scanWord text cursor
  | seq first second, cursor => (first.scan cursor).bind second.scan
  | alt first second, cursor =>
    match first.scan cursor with
    | some next => some next
    | none => second.scan cursor
  | optional pattern, cursor => some ((pattern.scan cursor).getD cursor)
  | absent pattern, cursor => if (pattern.scan cursor).isSome then none else some cursor

end Pattern

end GridStencil.Grammar
