import GridStencil.Error
import GridStencil.Log
import GridStencil.Traversal

/-!
Errors and warnings that are collected before one of them is reported.
-/

namespace GridStencil

/-- Findings in the order in which they were made. -/
structure Diagnostics where
  errors : List Error
  warnings : List Error

namespace Diagnostics

/-- Nothing found. -/
def none : Diagnostics := ⟨[], []⟩

/-- One more error. -/
def addError (diagnostics : Diagnostics) (error : Error) : Diagnostics :=
  { diagnostics with errors := diagnostics.errors ++ [error] }

/-- One more warning. -/
def addWarning (diagnostics : Diagnostics) (warning : Error) : Diagnostics :=
  { diagnostics with warnings := diagnostics.warnings ++ [warning] }

/-- One more error, after which a walk goes on. -/
def addErrorAndProceed (diagnostics : Diagnostics) (error : Error) :
    Diagnostics × Traversal.Action :=
  (diagnostics.addError error, .proceed)

/-- The value of a result; an error is collected and stands for the default value. -/
def absorb {α : Type} [Inhabited α] (diagnostics : Diagnostics) (result : Except Error α) :
    Diagnostics × α :=
  match result with
  | .ok value => (diagnostics, value)
  | .error error => (diagnostics.addError error, default)

/-- Whether an error was found. -/
def hasErrors (diagnostics : Diagnostics) : Bool := !diagnostics.errors.isEmpty

/-- The first error, and the messages about the other findings: the other errors, or the warnings
if there is no error. -/
def verdict (diagnostics : Diagnostics) (target : String) : List LogEntry × Option Error :=
  match diagnostics.errors with
  | [] => (diagnostics.warnings.map fun warning => ⟨.warning, target, warning.render⟩, Option.none)
  | first :: rest => (rest.map fun error => ⟨.error, target, error.render⟩, some first)

end Diagnostics

end GridStencil
