import GridStencil.Error

/-!
The two ways in which statements are computed.
-/

namespace GridStencil

/-- How a kernel computes its statements. -/
inductive Backend
  /-- Point by point, along the expression. -/
  | debug
  /-- Operation by operation, on all points at once. -/
  | vector
deriving DecidableEq

namespace Backend

/-- All backends. -/
def all : List Backend := [debug, vector]

/-- The name of a backend. -/
def name : Backend → String
  | debug => "debug"
  | vector => "vector"

/-- The name of a backend as a tag. -/
def tag : Backend → String
  | debug => "Debug"
  | vector => "Vector"

/-- The backend of a stencil that asks for none. -/
def standard : Backend := debug

/-- The backend with a name. -/
def named (word : String) : Except Cause Backend :=
  match all.find? (·.name == word) with
  | some backend => .ok backend
  | none => .error (.unknownBackend word (all.map name))

end Backend

end GridStencil
