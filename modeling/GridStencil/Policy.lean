/-!
Iteration policies: the order in which a block visits the horizontal planes of the grid.
-/

namespace GridStencil

/-- In which order the planes of a block are visited. -/
inductive Policy
  /-- The planes are independent of each other and have no order. -/
  | parallel
  /-- From the bottom of the domain upwards. -/
  | forward
  /-- From the top of the domain downwards. -/
  | backward
deriving DecidableEq

namespace Policy

/-- All policies. -/
def all : List Policy := [parallel, forward, backward]

/-- The word for a policy in source text. -/
def name : Policy → String
  | parallel => "PARALLEL"
  | forward => "FORWARD"
  | backward => "BACKWARD"

/-- The policy that a word of source text names. -/
def named? (word : String) : Option Policy := all.find? (·.name == word)

/-- Whether the planes are visited in an order. -/
def isSequential : Policy → Bool
  | parallel => false
  | forward | backward => true

/-- Whether the plane at vertical offset `dk` is visited before the current one. -/
def visitsBefore (policy : Policy) (dk : Int) : Bool :=
  match policy with
  | parallel => false
  | forward => dk < 0
  | backward => 0 < dk

theorem named?_name (policy : Policy) : named? policy.name = some policy := by
  cases policy <;> decide

end Policy

end GridStencil
