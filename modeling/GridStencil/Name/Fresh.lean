/-!
Names that collide with no name in use.

A fresh name is its stem followed by a counter. Each stem has a counter of its own, which only
grows; a counter whose name is in use is skipped.
-/

namespace GridStencil.Name

/-- The names in use, and for each stem the counter from which the next name is sought. -/
structure Fresh where
  counters : List (String × Nat)
  taken : List String

namespace Fresh

/-- A supply that avoids `names`. -/
def avoiding (names : List String) : Fresh := ⟨[], names⟩

/-- The supply that also avoids `name`. -/
def avoid (fresh : Fresh) (name : String) : Fresh :=
  { fresh with taken := name :: fresh.taken }

/-- The counter from which the next name with this stem is sought. -/
def counter (fresh : Fresh) (stem : String) : Nat := (fresh.counters.lookup stem).getD 0

/-- A stem followed by a counter. -/
def numbered (stem : String) (count : Nat) : String := stem ++ toString count

/-- The first counter from `count` on whose name is free, among at most `room + 1` of them. -/
def firstFree (taken : List String) (stem : String) : Nat → Nat → Nat
  | 0, count => count
  | room + 1, count =>
    if taken.contains (numbered stem count) then firstFree taken stem room (count + 1) else count

/-- The counter of the next name with this stem. As many counters are tried as there are names in
use and one more, so one of them is free. -/
def nextCount (fresh : Fresh) (stem : String) : Nat :=
  firstFree fresh.taken stem fresh.taken.length (fresh.counter stem)

/-- A name with the given stem that was not in use, and the supply that avoids it from now on. -/
def next (fresh : Fresh) (stem : String) : String × Fresh :=
  let count := fresh.nextCount stem
  let name := numbered stem count
  (name, ⟨(stem, count + 1) :: fresh.counters.filter (·.1 != stem), name :: fresh.taken⟩)

end Fresh

end GridStencil.Name
