import GridStencil.Proofs.Program.Scopes
import GridStencil.Proofs.Reference

/-!
**What a body means as it is written.**

Source statements run on some points of the grid at once. An assignment changes its target at these
points only. A branch evaluates its condition once, before either side, then runs its first side on
the points where that is true and its second side on the others (`Masked.run`). Every expression
stands for the expression that it is built into (`Masked.built`).

* `Masked.runBuilt_planes`: on planes of the grid, built statements run as in the reference.
* `Masked.resolve_spec`: a scope resolves an expression to what it is built into.
* `Masked.value_guarded`: a guarded value is the new one where all guards hold.
-/

namespace GridStencil

namespace Definition

/-- The names that an expression reads. -/
def Expr.names : Expr → List String
  | .literal _ _ => []
  | .name n _ | .access n _ _ => [n]
  | .unary _ arg _ => arg.names
  | .binary _ left right _ => left.names ++ right.names
  | .conditional condition whenTrue whenFalse _ =>
    condition.names ++ whenTrue.names ++ whenFalse.names

mutual

/-- The names that a statement reads. -/
def Statement.names : Statement → List String
  | .assign _ _ value _ => value.names
  | .branch condition whenTrue whenFalse _ =>
    condition.names ++ Statement.listNames whenTrue ++ Statement.listNames whenFalse

/-- The names that some statements read. -/
def Statement.listNames : List Statement → List String
  | [] => []
  | statement :: rest => statement.names ++ Statement.listNames rest

end

/-- The bodies of all sections, in the order of the text. -/
def bodies (definition : Definition) : List (List Statement) :=
  definition.computations.flatMap fun computation => computation.sections.map Section.body

/-- The names that the statements of a definition read. -/
def readNames (definition : Definition) : List String :=
  definition.bodies.flatMap Statement.listNames

end Definition

/-- The bodies of all sections, in the order of the text. -/
def Program.bodies (program : Program) : List (List Program.Statement) :=
  program.blocks.flatMap fun block => block.sections.map Program.Section.body

namespace Masked

open Program (Scope Guard HasField foldUnary foldBinary foldSelect)
open Reference (State value cast)

/-- Points of the grid. -/
abbrev Points := Offset → Bool

section

variable (program : Program) (externals : Externals) (scalars : String → Float)

/-- What a name stands for. -/
def builtName (name : String) (offset : Offset) : Program.Expr :=
  match externals.get? name with
  | some value => .literal value
  | none =>
    if program.scalars.any (·.name == name) then .scalar name else .field name offset

/-- The expression that a source expression is built into. -/
def built : Definition.Expr → Program.Expr
  | .literal value _ => .literal value
  | .name name _ => builtName program externals name .zero
  | .access name offset _ => builtName program externals name offset
  | .unary op arg _ => foldUnary op (built arg)
  | .binary op left right _ => foldBinary op (built left) (built right)
  | .conditional condition whenTrue whenFalse _ =>
    foldSelect (built condition) (built whenTrue) (built whenFalse)

/-- The state after the target was set at some points. All values are those of the state before. -/
def store (points : Points) (state : State) (target : String) (expr : Program.Expr) : State :=
  fun field p =>
    if field = target ∧ points p = true then cast program field (value scalars state p expr)
    else state field p

/-- The state after statements of a program, one after another on the same points. -/
def runBuilt (points : Points) (state : State) (body : List Program.Statement) : State :=
  body.foldl (fun state statement =>
    store program scalars points state statement.target statement.value) state

/-- Whether a condition is true at a point. -/
def truth (state : State) (condition : Definition.Expr) (p : Offset) : Bool :=
  value scalars state p (built program externals condition) != 0.0

mutual

/-- The state after a source statement on some points. -/
def run (points : Points) (state : State) : Definition.Statement → State
  | .assign target _ value _ =>
    store program scalars points state target (built program externals value)
  | .branch condition whenTrue whenFalse _ =>
    runAll (fun p => points p && !truth program externals scalars state condition p)
      (runAll (fun p => points p && truth program externals scalars state condition p)
        state whenTrue) whenFalse

/-- The state after source statements, one after another on the same points. -/
def runAll (points : Points) (state : State) : List Definition.Statement → State
  | [] => state
  | statement :: rest => runAll points (run points state statement) rest

end

end

variable {program : Program} {externals : Externals} {scalars : String → Float}

/-- On the points of some planes, a statement does what the reference execution does. -/
theorem store_planes (planes : Stretch) (state : State) (statement : Program.Statement) :
    store program scalars (fun p => planes.start ≤ p.k ∧ p.k < planes.stop) state
      statement.target statement.value =
        Reference.assign program scalars planes state statement := by
  funext field p
  unfold store Reference.assign
  simp only [decide_eq_true_eq]

/-- **On the points of some planes, built statements do what the reference execution does.** -/
theorem runBuilt_planes (planes : Stretch) (state : State) (body : List Program.Statement) :
    runBuilt program scalars (fun p => planes.start ≤ p.k ∧ p.k < planes.stop) state body =
      Reference.runBody program scalars planes state body := by
  unfold runBuilt Reference.runBody
  congr 1
  funext state statement
  exact store_planes planes state statement

/-! ### Expressions -/

theorem reads_foldUnary (op : UnaryOperator) (arg : Program.Expr) :
    (foldUnary op arg).reads = arg.reads := by
  unfold foldUnary
  split <;> rfl

theorem reads_foldBinary (op : BinaryOperator) (left right : Program.Expr) :
    (foldBinary op left right).reads = left.reads ++ right.reads := by
  unfold foldBinary
  split <;> rfl

theorem reads_foldSelect (condition whenTrue whenFalse : Program.Expr) :
    (foldSelect condition whenTrue whenFalse).reads ⊆
      condition.reads ++ whenTrue.reads ++ whenFalse.reads := by
  unfold foldSelect
  split
  · split
    · exact List.subset_append_left _ _
    · exact List.subset_append_right _ _
  · exact List.Subset.refl _

/-- The scope resolves names as a program does. -/
structure Resolves (program : Program) (externals : Externals) (scope : Scope) : Prop where
  externals : scope.externals = externals
  scalars : scope.scalars = program.scalars

theorem Resolves.later {scope after : Scope} (resolves : Resolves program externals scope)
    (precedes : scope.Precedes after) : Resolves program externals after :=
  ⟨precedes.externals.trans resolves.externals, precedes.scalars.trans resolves.scalars⟩

/-- The reads of an expression are reads of some names, all of them names of fields. -/
def ReadsFrom (scope : Scope) (names : List String) (expr : Program.Expr) : Prop :=
  ∀ read ∈ expr.reads, read.field ∈ names ∧ HasField scope.fields read.field

theorem ReadsFrom.mono {scope : Scope} {names more : List String} {expr : Program.Expr}
    (reads : ReadsFrom scope names expr) (sub : names ⊆ more) : ReadsFrom scope more expr :=
  fun read member => (reads read member).imp_left fun there => sub there

theorem read_spec {scope : Scope} (resolves : Resolves program externals scope) {name : String}
    {offset : Option Offset} {expr : Program.Expr} (done : scope.read name offset = .ok expr) :
    expr = builtName program externals name (offset.getD .zero) ∧
      ReadsFrom scope [name] expr := by
  unfold Scope.read at done
  unfold builtName
  rw [← resolves.externals, ← resolves.scalars]
  cases known : scope.externals.get? name with
  | some value =>
    rw [known] at done
    dsimp only at done
    split at done
    · cases done
    · cases done
      exact ⟨rfl, fun _ absurd => nomatch absurd⟩
  | none =>
    rw [known] at done
    show expr = (if scope.hasScalar name then _ else _) ∧ _
    dsimp only at done
    split at done
    next scalar =>
      split at done
      · cases done
      · cases done
        exact ⟨(if_pos scalar).symm, fun _ absurd => nomatch absurd⟩
    next noScalar =>
      rw [if_neg noScalar]
      split at done
      · cases done
      next field found =>
        split at done
        · cases done
        split at done
        · cases done
        · cases done
          refine ⟨rfl, fun read member => ?_⟩
          rw [List.mem_singleton.mp member]
          obtain ⟨there, named⟩ := Scope.field?_eq_some found
          exact ⟨List.mem_singleton_self name, field, there, named⟩

/-- **A scope resolves an expression to what it is built into.** -/
theorem resolve_spec {scope : Scope} (resolves : Resolves program externals scope)
    {source : Definition.Expr} {expr : Program.Expr} (done : scope.resolve source = .ok expr) :
    expr = built program externals source ∧ ReadsFrom scope source.names expr := by
  induction source generalizing expr with
  | literal value span =>
    cases done
    exact ⟨rfl, fun _ absurd => nomatch absurd⟩
  | name name span => exact read_spec resolves (Steps.mapError_eq_ok.mp done)
  | access name offset span => exact read_spec resolves (Steps.mapError_eq_ok.mp done)
  | unary op arg span ih =>
    obtain ⟨resolved, here, same⟩ := Steps.bind_eq_ok.mp done
    cases same
    obtain ⟨rfl, reads⟩ := ih here
    refine ⟨rfl, ?_⟩
    unfold ReadsFrom
    rw [reads_foldUnary]
    exact reads
  | binary op left right span ihLeft ihRight =>
    obtain ⟨left', here, done⟩ := Steps.bind_eq_ok.mp done
    obtain ⟨right', there, same⟩ := Steps.bind_eq_ok.mp done
    cases same
    obtain ⟨rfl, readsLeft⟩ := ihLeft here
    obtain ⟨rfl, readsRight⟩ := ihRight there
    refine ⟨rfl, ?_⟩
    unfold ReadsFrom
    rw [reads_foldBinary]
    unfold Definition.Expr.names
    exact List.forall_mem_append.mpr ⟨readsLeft.mono (List.subset_append_left _ _),
      readsRight.mono (List.subset_append_right _ _)⟩
  | conditional condition whenTrue whenFalse span ihCondition ihTrue ihFalse =>
    obtain ⟨condition', here, done⟩ := Steps.bind_eq_ok.mp done
    obtain ⟨whenTrue', inTrue, done⟩ := Steps.bind_eq_ok.mp done
    obtain ⟨whenFalse', inFalse, same⟩ := Steps.bind_eq_ok.mp done
    cases same
    obtain ⟨rfl, readsCondition⟩ := ihCondition here
    obtain ⟨rfl, readsTrue⟩ := ihTrue inTrue
    obtain ⟨rfl, readsFalse⟩ := ihFalse inFalse
    refine ⟨rfl, fun read member => ?_⟩
    unfold Definition.Expr.names
    rcases List.mem_append.mp (reads_foldSelect _ _ _ member) with early | inFalse
    · rcases List.mem_append.mp early with inCondition | inTrue
      · exact (readsCondition.mono fun _ there =>
          List.mem_append_left _ (List.mem_append_left _ there)) read inCondition
      · exact (readsTrue.mono fun _ there =>
          List.mem_append_left _ (List.mem_append_right _ there)) read inTrue
    · exact (readsFalse.mono (List.subset_append_right _ _)) read inFalse

/-- A value depends on the fields that are read only. -/
theorem value_congr {state other : State} {p : Offset} {expr : Program.Expr}
    (agree : ∀ read ∈ expr.reads, state read.field = other read.field) :
    value scalars state p expr = value scalars other p expr := by
  induction expr with
  | field name offset =>
    exact congrFun (agree ⟨name, offset⟩ (List.mem_singleton_self _)) (p.add offset)
  | scalar name => rfl
  | literal value => rfl
  | unary op arg ih => exact congrArg op.apply (ih agree)
  | binary op left right ihLeft ihRight =>
    obtain ⟨agreeLeft, agreeRight⟩ := List.forall_mem_append.mp agree
    unfold value
    rw [ihLeft agreeLeft, ihRight agreeRight]
  | select condition whenTrue whenFalse ihCondition ihTrue ihFalse =>
    obtain ⟨early, agreeFalse⟩ := List.forall_mem_append.mp agree
    obtain ⟨agreeCondition, agreeTrue⟩ := List.forall_mem_append.mp early
    unfold value
    rw [ihCondition agreeCondition, ihTrue agreeTrue, ihFalse agreeFalse]

/-! ### Guards -/

/-- Whether the current point is on the side of a guard. -/
def holds (state : State) (p : Offset) (guard : Guard) : Bool :=
  (state guard.condition p != 0.0) == guard.taken

theorem point_add_zero (p : Offset) : p.add .zero = p := by
  unfold Offset.add Offset.zero
  simp only [Int.add_zero]

theorem isTrue_ofTruth (b : Bool) : (Literal.ofTruth b != 0.0) = b := by
  cases b <;> decide

theorem isTrue_cast (x : Float) : (ElementType.cast .bool x != 0.0) = (x != 0.0) := by
  show ((if x != 0.0 then (1.0 : Float) else 0.0) != 0.0) = _
  cases x != 0.0 <;> decide

theorem value_read (state : State) (p : Offset) (guard : Guard) :
    value scalars state p guard.read = state guard.condition p := by
  show state guard.condition (p.add .zero) = _
  rw [point_add_zero]

theorem isTrue_test (state : State) (p : Offset) (guard : Guard) :
    (value scalars state p guard.test != 0.0) = holds state p guard := by
  unfold Guard.test holds
  cases guard.taken with
  | true =>
    rw [if_pos rfl, value_read]
    exact (beq_true _).symm
  | false =>
    rw [if_neg Bool.false_ne_true]
    show (Literal.ofTruth (value scalars state p guard.read == 0.0) != 0.0) = _
    rw [isTrue_ofTruth, value_read, beq_false]
    exact (Bool.not_not _).symm

theorem isTrue_testAll (state : State) (p : Offset) (first : Guard) (rest : List Guard) :
    (value scalars state p (Guard.testAll first rest) != 0.0) =
      (first :: rest).all (holds state p) := by
  have fold : ∀ (rest : List Guard) (test : Program.Expr),
      (value scalars state p (rest.foldl (fun test guard => .binary .and test guard.test) test) !=
        0.0) = ((value scalars state p test != 0.0) && rest.all (holds state p)) := by
    intro rest
    induction rest with
    | nil => exact fun test => (Bool.and_true _).symm
    | cons guard rest ih =>
      intro test
      refine (ih _).trans ?_
      show ((Literal.ofTruth ((value scalars state p test != 0.0) &&
        (value scalars state p guard.test != 0.0)) != 0.0) && _) = _
      rw [isTrue_ofTruth, isTrue_test, Bool.and_assoc, List.all_cons]
  refine (fold rest first.test).trans ?_
  rw [isTrue_test, List.all_cons]

/-- **A guarded value is the new value where all guards hold, and the current one elsewhere.** -/
theorem value_guarded (state : State) (p : Offset) (new current : Program.Expr)
    (guards : List Guard) :
    value scalars state p (Guard.guarded new current guards) =
      if guards.all (holds state p) then value scalars state p new
      else value scalars state p current := by
  match guards with
  | [] => rfl
  | [guard] =>
    rw [List.all_cons, List.all_nil, Bool.and_true]
    show value scalars state p (if guard.taken then _ else _) = _
    unfold holds
    cases guard.taken with
    | true =>
      show (if value scalars state p guard.read != 0.0 then _ else _) = _
      rw [value_read, beq_true]
    | false =>
      show (if value scalars state p guard.read != 0.0 then _ else _) = _
      rw [value_read, beq_false]
      cases state guard.condition p != 0.0 <;> rfl
  | first :: second :: rest =>
    show (if value scalars state p (Guard.testAll first (second :: rest)) != 0.0 then _ else _) = _
    rw [isTrue_testAll]

theorem all_holds_congr {state other : State} {guards : List Guard}
    (same : ∀ guard ∈ guards, state guard.condition = other guard.condition) (p : Offset) :
    guards.all (holds state p) = guards.all (holds other p) := by
  rw [Bool.eq_iff_iff, List.all_eq_true, List.all_eq_true]
  refine forall₂_congr fun guard member => ?_
  unfold holds
  rw [same guard member]

end Masked

end GridStencil
