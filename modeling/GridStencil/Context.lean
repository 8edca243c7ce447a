import GridStencil.Demand
import GridStencil.Program.Lowering

/-!
A program with what is known about it: the inputs it was built from, the demand of its fields and
the number of planes it needs, each as far as it was found out.
-/

namespace GridStencil

/-- A program under analysis. -/
structure Context where
  program : Program
  externals : Externals
  signature : Signature
  demand : Option Demand
  /-- The smallest number of planes known to be needed. -/
  minPlanes : Nat

namespace Context

/-- The context of a definition, in which nothing is known yet. -/
def ofDefinition? (definition : Definition) (externals : Externals) (signature : Signature) :
    Except Error Context :=
  match Program.ofDefinition? definition externals signature with
  | .ok (program, externals) => .ok ⟨program, externals, signature, none, 0⟩
  | .error fault => .error (fault.within definition.source)

/-- The demand, or the error that it is not known. -/
def requireDemand (context : Context) : Except Error Demand :=
  match context.demand with
  | some demand => .ok demand
  | none => .error (.ofCause (.extentsMissing context.program.name))

/-- The context in which at least `planes` planes are needed. -/
def raise (context : Context) (planes : Nat) : Context :=
  { context with minPlanes := max context.minPlanes planes }

end Context

end GridStencil
