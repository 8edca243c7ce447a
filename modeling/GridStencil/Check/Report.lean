import GridStencil.Diagnostics

/-!
What a check of a program finds: faults, and how many planes the program needs.
-/

namespace GridStencil

/-- The faults found by a check and the number of planes it asks for. -/
structure Report where
  faults : List Fault
  planes : Nat

namespace Report

/-- Nothing found. -/
def none : Report := ⟨[], 0⟩

/-- One fault. -/
def fault (span : Span) (cause : Cause) : Report := ⟨[⟨span, cause⟩], 0⟩

/-- A number of planes. -/
def needs (planes : Nat) : Report := ⟨[], planes⟩

/-- The findings of both. -/
def join (a b : Report) : Report := ⟨a.faults ++ b.faults, max a.planes b.planes⟩

/-- The findings of all. -/
def joinAll (reports : List Report) : Report := reports.foldr join none

/-- Whether no fault was found. -/
def isClean (report : Report) : Bool := report.faults.isEmpty

/-- The second report behind the first one, unless that has a fault. -/
def andThen (report next : Report) : Report :=
  if report.isClean then report.join next else report

/-- The findings as diagnostics of a source. -/
def diagnostics (report : Report) (source : Source) : Diagnostics :=
  ⟨report.faults.map (·.within source), []⟩

end Report

end GridStencil
