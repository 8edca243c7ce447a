import GridStencil.Grammar.Pattern
import GridStencil.Grammar.Rule

/-!
The grammar of stencil definitions.

A rule is either a token, given by a pattern, or a phrase of smaller parts with layout between
them. Choices are ordered: the first alternative that matches is taken, and what was taken is
never reconsidered. `a if c else b` binds weaker than every operator; how the operators in a row of
operands bind is not part of the grammar.
-/

namespace GridStencil.Grammar

/-- How the parts of a rule follow each other. -/
inductive Phrase
  /-- Nothing. -/
  | empty
  /-- A token that leaves no trace in the tree. -/
  | token (pattern : Pattern)
  /-- A part with a rule of its own. -/
  | rule (rule : Rule)
  /-- One phrase, layout, and another phrase. -/
  | seq (first second : Phrase)
  /-- The first of two phrases that matches. -/
  | alt (first second : Phrase)
  /-- A phrase any number of times with layout before each. -/
  | many (phrase : Phrase)
  /-- A phrase, or nothing. -/
  | optional (phrase : Phrase)

/-- What a rule stands for. -/
inductive Body
  | token (pattern : Pattern)
  | phrase (phrase : Phrase)

/-! ### Tokens -/

namespace Pattern

/-- A fixed text. -/
def text (s : String) : Pattern := word s.toList

/-- Patterns one behind the other. -/
def sequence : List Pattern → Pattern
  | [] => word []
  | [p] => p
  | p :: ps => seq p (sequence ps)

/-- The first of several patterns that matches. -/
def choice : List Pattern → Pattern
  | [] => absent (word [])
  | [p] => p
  | p :: ps => alt p (choice ps)

/-- Letters without accents. -/
def isLetter (c : Char) : Bool := ('a' ≤ c && c ≤ 'z') || ('A' ≤ c && c ≤ 'Z')

/-- Decimal digits. -/
def isDigit (c : Char) : Bool := '0' ≤ c && c ≤ '9'

/-- The characters that names go on with. -/
def isNameChar (c : Char) : Bool := isLetter c || isDigit c || c = '_'

/-- The characters that names start with. -/
def isNameStart (c : Char) : Bool := isLetter c || c = '_'

/-- A fixed text that no name goes on with. -/
def wholeWord (s : String) : Pattern := seq (text s) (absent (char isNameChar))

/-- The words that are no names. -/
def keywords : List String :=
  ["stencil", "with", "computation", "interval", "externals", "if", "else", "and", "or", "not",
    "None", "True", "False", "Field"]

/-- A word that is no name. The first keyword that the text starts with has to be all of it. -/
def keyword : Pattern := seq (choice (keywords.map text)) (absent (char isNameChar))

/-- A name. -/
def identifier : Pattern := sequence [absent keyword, char isNameStart, run isNameChar]

/-- One digit or more. -/
def digits : Pattern := seq (char isDigit) (run isDigit)

/-- A power of ten. -/
def exponent : Pattern :=
  sequence [alt (text "e") (text "E"), optional (alt (text "+") (text "-")), digits]

/-- A number with a point or a power of ten. -/
def float : Pattern :=
  choice [
    sequence [digits, text ".", run isDigit, optional exponent],
    seq digits exponent,
    sequence [text ".", digits, optional exponent]]

/-- A number with an optional minus sign. -/
def signedInt : Pattern := seq (optional (text "-")) digits

/-- The name of an element type. -/
def elementType : Pattern := seq (char isLetter) (run isNameChar)

/-- The end of the text. -/
def endOfInput : Pattern := absent (char fun _ => true)

end Pattern

/-! ### Phrases -/

namespace Phrase

/-- A fixed text. -/
def text (s : String) : Phrase := token (.text s)

/-- Phrases one behind the other. -/
def sequence : List Phrase → Phrase
  | [] => empty
  | [p] => p
  | p :: ps => seq p (sequence ps)

/-- The first of several phrases that matches. -/
def choice : List Phrase → Phrase
  | [] => token (.absent (.word []))
  | [p] => p
  | p :: ps => alt p (choice ps)

/-- The operators before an operand. -/
def prefixOperator : Phrase := choice [rule .neg, rule .pos, rule .notOp]

/-- The operators between operands. -/
def infixOperator : Phrase :=
  choice ([.pow, .add, .sub, .mul, .div, .modulo, .le, .ge, .lt, .gt, .eq, .ne, .andOp,
    .orOp].map rule)

/-- An operand. -/
def primary : Phrase :=
  choice [rule .float, rule .int, rule .trueLit, rule .falseLit, rule .call, rule .access,
    rule .identifier, sequence [text "(", rule .expr, text ")"]]

/-- An operand with the operators before it. -/
def operand : List Phrase := [many prefixOperator, primary]

/-- A statement with an optional semicolon. -/
def statement : Phrase := seq (alt (rule .ifStmt) (rule .assign)) (optional (text ";"))

/-- A parameter of a stencil. -/
def parameter : Phrase := choice [rule .kwStar, rule .fieldParam, rule .scalarParam]

end Phrase

open Phrase in
/-- What each rule stands for. -/
def Rule.body : Rule → Body
  | .endOfInput => .token .endOfInput
  | .identifier => .token .identifier
  | .elementType => .token .elementType
  | .float => .token .float
  | .int => .token .digits
  | .signedInt => .token .signedInt
  | .trueLit => .token (.wholeWord "True")
  | .falseLit => .token (.wholeWord "False")
  | .neg => .token (.text "-")
  | .pos => .token (.text "+")
  | .notOp => .token (.wholeWord "not")
  | .pow => .token (.text "**")
  | .add => .token (.text "+")
  | .sub => .token (.text "-")
  | .mul => .token (.text "*")
  | .div => .token (.text "/")
  | .modulo => .token (.text "%")
  | .le => .token (.text "<=")
  | .ge => .token (.text ">=")
  | .lt => .token (.text "<")
  | .gt => .token (.text ">")
  | .eq => .token (.text "==")
  | .ne => .token (.text "!=")
  | .andOp => .token (.wholeWord "and")
  | .orOp => .token (.wholeWord "or")
  | .offset => .phrase (sequence [text "[", rule .signedInt, text ",", rule .signedInt, text ",",
      rule .signedInt, text "]"])
  | .call => .phrase (sequence [rule .identifier, text "(", rule .expr,
      many (seq (text ",") (rule .expr)), text ")"])
  | .access => .phrase (seq (rule .identifier) (rule .offset))
  | .arith => .phrase (sequence (operand ++ [many (sequence (infixOperator :: operand))]))
  | .expr => .phrase (seq (rule .arith)
      (optional (sequence [text "if", rule .arith, text "else", rule .expr])))
  | .assign => .phrase (sequence [rule .identifier, optional (rule .offset), text "=", rule .expr])
  | .ifStmt => .phrase (sequence [text "if", rule .expr, rule .block,
      optional (seq (text "else") (alt (rule .ifStmt) (rule .block)))])
  | .block => .phrase (sequence [text "\x7b", many statement, text "\x7d"])
  | .wildcard => .token (.text "...")
  | .noneKw => .token (.text "None")
  | .bound => .phrase (choice [rule .signedInt, rule .noneKw, rule .identifier])
  | .intervalRange => .phrase (alt (rule .wildcard)
      (sequence [rule .bound, text ",", rule .bound]))
  | .intervalDef => .phrase (sequence [text "interval", text "(", rule .intervalRange, text ")",
      rule .block])
  | .computation => .phrase (sequence [text "with", text "computation", text "(",
      rule .identifier, text ")",
      alt (seq (text ",") (rule .intervalDef))
        (sequence [text "\x7b", many (rule .intervalDef), text "\x7d"])])
  | .computations => .phrase (many (rule .computation))
  | .dimsIjk => .token (.text "IJK")
  | .dimsZero => .phrase (seq (text "(") (text ")"))
  | .fieldParam => .phrase (sequence [rule .identifier, text ":", text "Field", text "[",
      rule .elementType, optional (seq (text ",") (alt (rule .dimsIjk) (rule .dimsZero))),
      text "]"])
  | .scalarParam => .phrase (sequence [rule .identifier, text ":", rule .elementType])
  | .kwStar => .token (.text "*")
  | .params => .phrase (optional (sequence [parameter, many (seq (text ",") parameter),
      optional (text ",")]))
  | .externals => .phrase (many (sequence [text "externals", rule .identifier,
      many (seq (text ",") (rule .identifier)), optional (text ";")]))
  | .stencilDef => .phrase (sequence [text "stencil", rule .identifier, text "(", rule .params,
      text ")", text "\x7b", rule .externals, rule .computations, text "\x7d"])
  | .file => .phrase (sequence [empty, many (rule .stencilDef), rule .endOfInput])

end GridStencil.Grammar
