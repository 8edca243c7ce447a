/-!
Messages to the user that are not errors of the operation at hand.
-/

namespace GridStencil

/-- How urgent a message is. -/
inductive Severity
  | error
  | warning
deriving DecidableEq

/-- The word for a severity. -/
def Severity.name : Severity → String
  | .error => "ERROR"
  | .warning => "WARN"

/-- A message with the part of the program it comes from. -/
structure LogEntry where
  severity : Severity
  target : String
  text : String
deriving DecidableEq

/-- The message on a line of its own. -/
def LogEntry.render (entry : LogEntry) : String :=
  entry.severity.name ++ " " ++ entry.target ++ ": " ++ entry.text

end GridStencil
