import GridStencil.Grammar.Phrase
import GridStencil.Source

/-!
Reading a text by the grammar into a tree.

The tree has a node per rule that was matched, with the span of its text. A text that does not
match is blamed on the furthest position that the reading reached: there stand the rules that were
tried last, except that a rule which failed at its own start stands for the rules tried inside it
when those were more than one.
-/

namespace GridStencil.Grammar

/-- A part of a text: its rule, its span, its text if it is a token, and its own parts. -/
inductive Node
  | mk (rule : Rule) (span : Span) (text : String) (parts : List Node)

namespace Node

/-- The rule of a node. -/
def rule : Node → Rule
  | mk rule _ _ _ => rule

/-- The span of a node. -/
def span : Node → Span
  | mk _ span _ _ => span

/-- The text of a token. -/
def text : Node → String
  | mk _ _ text _ => text

/-- The parts of a node. -/
def parts : Node → List Node
  | mk _ _ _ parts => parts

end Node

/-- The furthest position at which a rule failed, and the rules that failed there. -/
structure Attempts where
  offset : Nat
  rules : List Rule
deriving DecidableEq

namespace Attempts

/-- Before anything was tried. -/
def none : Attempts := ⟨0, []⟩

/-- How many rules stand at a position. -/
def countAt (attempts : Attempts) (offset : Nat) : Nat :=
  if offset = attempts.offset then attempts.rules.length else 0

/-- The attempts after a rule failed at a position where `before` rules stood when it was
tried. -/
def fail (attempts : Attempts) (rule : Rule) (offset before : Nat) : Attempts :=
  if attempts.countAt offset = before + 1 then attempts
  else if offset = attempts.offset then
    { attempts with rules := attempts.rules.take before ++ [rule] }
  else if attempts.offset < offset then ⟨offset, [rule]⟩
  else attempts

/-- The rules that stand at the furthest position, in the order of all rules. -/
def expected (attempts : Attempts) : List Rule := Rule.all.filter (attempts.rules.contains ·)

end Attempts

/-- What a phrase matched: its nodes and the position behind it. -/
structure Match where
  nodes : List Node
  cursor : Cursor

/-- Matches a phrase at a position. Phrases nest at most `depth` deep. -/
def Phrase.read : Nat → Phrase → Cursor → Attempts → Attempts × Option Match
  | 0, _, _, attempts => (attempts, none)
  | depth + 1, phrase, cursor, attempts =>
    match phrase with
    | .empty => (attempts, some ⟨[], cursor⟩)
    | .token pattern => (attempts, (pattern.scan cursor).map fun next => ⟨[], next⟩)
    | .rule part =>
      let before := attempts.countAt cursor.offset
      match part.body with
      | .token pattern =>
        match pattern.scan cursor with
        | some next =>
          let span : Span := ⟨cursor.offset, next.offset⟩
          (attempts, some ⟨[.mk part span (cursor.textTo next) []], next⟩)
        | none => (attempts.fail part cursor.offset before, none)
      | .phrase body =>
        match body.read depth cursor attempts with
        | (attempts, some found) =>
          let span : Span := ⟨cursor.offset, found.cursor.offset⟩
          (attempts, some ⟨[.mk part span "" found.nodes], found.cursor⟩)
        | (attempts, none) => (attempts.fail part cursor.offset before, none)
    | .seq first second =>
      match first.read depth cursor attempts with
      | (attempts, none) => (attempts, none)
      | (attempts, some left) =>
        match second.read depth left.cursor.skipLayout attempts with
        | (attempts, none) => (attempts, none)
        | (attempts, some right) =>
          (attempts, some ⟨left.nodes ++ right.nodes, right.cursor⟩)
    | .alt first second =>
      match first.read depth cursor attempts with
      | (attempts, some found) => (attempts, some found)
      | (attempts, none) => second.read depth cursor attempts
    | .many item =>
      match item.read depth cursor.skipLayout attempts with
      | (attempts, none) => (attempts, some ⟨[], cursor⟩)
      | (attempts, some first) =>
        match (Phrase.many item).read depth first.cursor attempts with
        | (attempts, none) => (attempts, some first)
        | (attempts, some rest) => (attempts, some ⟨first.nodes ++ rest.nodes, rest.cursor⟩)
    | .optional item =>
      match item.read depth cursor attempts with
      | (attempts, none) => (attempts, some ⟨[], cursor⟩)
      | (attempts, some found) => (attempts, some found)

/-- How deep phrases may nest in a text: between two characters a phrase opens fewer than this
many others. -/
def depthFor (text : String) : Nat := 256 * (text.length + 1)

/-- The tree of a text, or the furthest position reached and the rules expected there. -/
def readTree (text : String) : Except Attempts Node :=
  match (Phrase.rule .file).read (depthFor text) (.ofText text) .none with
  | (_, some ⟨[root], _⟩) => .ok root
  | (attempts, _) => .error attempts

end GridStencil.Grammar
