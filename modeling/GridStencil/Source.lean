import GridStencil.Text.Lines
import GridStencil.Text.Phrase

/-!
Source texts, spans of bytes in them, and the excerpt that shows a span to the reader.

An excerpt shows the line that holds the first byte of the span, with its number, and carets under
the part of the span on that line; a span that reaches past the line is cut at its end, and an
empty one still gets a single caret. The line is found by a scan that counts lines and bytes, and
keeps the lines of the span until it comes to the one on which the span ends.
-/

namespace GridStencil

/-- A text with the name under which messages speak of it. -/
structure Source where
  name : String
  text : String
deriving DecidableEq

/-- The bytes from `start` up to and without `stop`. -/
structure Span where
  start : Nat
  stop : Nat
deriving DecidableEq

/-- A span of one source. -/
structure Place where
  source : Source
  span : Span
deriving DecidableEq

/-- A line of a source: its number counted from one, its first byte and its characters. -/
structure Line where
  number : Nat
  start : Nat
  chars : List Char
deriving DecidableEq

namespace Line

/-- A scan over the lines of a text for those that a span touches: where it stands, and what it has
found. -/
structure Scan where
  /-- Number of the line that comes next. -/
  number : Nat
  /-- First byte of the line that comes next. -/
  start : Nat
  /-- Whether the line on which the span starts has come. -/
  inside : Bool
  /-- Number of that line, zero until it has come. -/
  firstNumber : Nat
  /-- First byte of that line, zero until it has come. -/
  firstStart : Nat
  /-- The lines of the span: that one, and those behind it. -/
  kept : List (List Char)

namespace Scan

/-- The scan before the first line. -/
def fresh : Scan := ⟨1, 0, false, 0, 0, []⟩

/-- The scan when a line comes on which the span may start. A newline belongs to the line that it
ends. -/
def enter (scan : Scan) (span : Span) (chars : List Char) : Scan :=
  if scan.start ≤ span.start ∧ span.start ≤ scan.start + Text.byteCount chars then
    { scan with inside := true, firstNumber := scan.number, firstStart := scan.start }
  else scan

/-- The scan when it has kept a line that the span reaches. -/
def keep (scan : Scan) (span : Span) (chars : List Char) : Scan :=
  if scan.inside ∧ scan.start ≤ span.stop then { scan with kept := scan.kept ++ [chars] } else scan

/-- The scan behind a line. -/
def leave (scan : Scan) (chars : List Char) : Scan :=
  { scan with number := scan.number + 1, start := scan.start + Text.byteCount chars + 1 }

/-- The scan at the line on which the span ends, or behind the last line. -/
def run (span : Span) (scan : Scan) : List (List Char) → Scan
  | [] => scan
  | chars :: rest =>
    let seen := (scan.enter span chars).keep span chars
    if span.stop ≤ seen.start + Text.byteCount chars then seen
    else run span (seen.leave chars) rest

/-- The line on which the span starts. Behind the end of the text it has the number zero. -/
def first (scan : Scan) : Line := ⟨scan.firstNumber, scan.firstStart, scan.kept.headD []⟩

end Scan

/-- The line with its number, as an excerpt shows it. -/
def render (line : Line) : String :=
  toString line.number ++ " |" ++ String.ofList line.chars

end Line

namespace Place

/-- The place of a finding that belongs to no text. -/
def unknown : Place := ⟨⟨"unknown", ""⟩, ⟨0, 0⟩⟩

/-- The line on which the place starts. -/
def line (place : Place) : Line :=
  (Line.Scan.fresh.run place.span (Text.lines place.source.text.toList)).first

/-- How many bytes of the line stand before the place. -/
def column (place : Place) : Nat := place.span.start - place.line.start

/-- How many carets mark the place: its part on its first line, at least one. -/
def carets (place : Place) : Nat :=
  max 1 (min (place.span.stop - place.span.start)
    (Text.byteCount place.line.chars - place.column))

/-- The marked line under the name of the source, with a message behind the carets. -/
def excerpt (place : Place) (message : String) : String :=
  let margin := Text.blanks ((toString place.line.number).length + 1)
  let marks := String.ofList (List.replicate place.carets '^')
  place.source.name ++ "\n" ++ place.line.render ++ "\n" ++
    margin ++ "|" ++ Text.blanks place.column ++ marks ++ " " ++ message

/-- The line of the place alone. -/
def shown (place : Place) : String := place.line.render ++ "\n"

end Place

end GridStencil
