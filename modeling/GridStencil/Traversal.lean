import GridStencil.Error
import GridStencil.Program.Basic

/-!
Walking over a program, steered by the walker.

A walk announces every block, section and statement to a visitor, whose answer may skip what the
part contains, end the walk, or fail it. `walk` is put together from four combinators: `visit`
announces, `andThen` and `each` go on, and `pop` closes a part whose contents were skipped.
-/

namespace GridStencil.Traversal

open Program (Position)

/-- What is to happen after an announcement. -/
inductive Action
  /-- Go on. -/
  | proceed
  /-- End the whole walk. -/
  | stop
  /-- Go on behind this part, without what it contains. -/
  | skipChildren
deriving DecidableEq

/-- The word for an action. -/
def Action.name : Action → String
  | .proceed => "Continue"
  | .stop => "Stop"
  | .skipChildren => "SkipChildren"

/-- What a walk announces. -/
inductive Event
  | start
  | block (b : Nat)
  | part (b i : Nat)
  | statement (position : Position)
  | blockEnd (b : Nat)
  | finish
deriving DecidableEq

/-- The text of an announcement. -/
def Event.render : Event → String
  | .start => "start"
  | .block b => "block " ++ toString b
  | .part b i => "interval " ++ toString b ++ "." ++ toString i
  | .statement position => "stmt " ++ position.render
  | .blockEnd b => "end " ++ toString b
  | .finish => "finish"

/-- In which order the parts of a whole are visited. -/
inductive Order
  | execution
  | reverse
deriving DecidableEq

/-- The indices below `count` in an order. -/
def Order.indices (order : Order) (count : Nat) : List Nat :=
  match order with
  | .execution => List.range count
  | .reverse => (List.range count).reverse

/-- A step of a walk: it changes the state of the visitor and says how to go on. -/
abbrev Step (σ : Type) := σ → σ × Except Error Action

/-- A visitor with a state. -/
abbrev Visitor (σ : Type) := Event → Step σ

variable {σ : Type}

/-- The second step, if the first one says so. -/
def andThen (first second : Step σ) : Step σ := fun state =>
  match first state with
  | (state, .ok .proceed) => second state
  | other => other

/-- All steps, up to one that stops or fails. -/
def each : List (Step σ) → Step σ
  | [] => fun state => (state, .ok .proceed)
  | step :: rest => fun state =>
    match step state with
    | (state, .error error) => (state, .error error)
    | (state, .ok .stop) => (state, .ok .stop)
    | (state, .ok _) => each rest state

/-- A step whose skipping concerns nothing behind it. -/
def pop (step : Step σ) : Step σ := fun state =>
  match step state with
  | (state, .ok .skipChildren) => (state, .ok .proceed)
  | other => other

/-- Walks over a section that has `statements` statements. -/
def walkSection (visit : Visitor σ) (order : Order) (b i statements : Nat) : Step σ :=
  pop (andThen (visit (.part b i))
    (each ((order.indices statements).map fun s => visit (.statement ⟨b, i, s⟩))))

/-- Walks over a block whose sections have the given numbers of statements. -/
def walkBlock (visit : Visitor σ) (order : Order) (b : Nat) (sections : List Nat) : Step σ :=
  pop (andThen
    (andThen (visit (.block b))
      (each ((order.indices sections.length).map fun i =>
        walkSection visit order b i (sections.getD i 0))))
    (visit (.blockEnd b)))

/-- The number of statements of every section of every block. -/
def outline (program : Program) : List (List Nat) :=
  program.blocks.map fun block => block.sections.map fun part => part.body.length

/-- Walks over a program of the given outline. -/
def walkOutline (visit : Visitor σ) (order : Order) (blocks : List (List Nat)) : Step σ :=
  andThen
    (andThen (visit .start)
      (each ((order.indices blocks.length).map fun b =>
        walkBlock visit order b (blocks.getD b []))))
    (visit .finish)

/-- Walks over a program, unless there is a reason not to. -/
def walk (visit : Visitor σ) (order : Order) (obstacle : Option String) (program : Program)
    (state : σ) : σ × Except Error Unit :=
  match obstacle with
  | some _ => (state, .ok ())
  | none =>
    match walkOutline visit order (outline program) state with
    | (state, .ok _) => (state, .ok ())
    | (state, .error error) => (state, .error error)

end GridStencil.Traversal
