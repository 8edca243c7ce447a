import GridStencil.Proofs.Masked.Source
import GridStencil.Proofs.Number.Whole

/-!
**Folding of constants changes no value**, but for the sign of a zero.

An expression as it is written has a value: literals and externals are doubles, scalars and fields
are read, and operators are applied from the leaves to the root (`Reading.written`). Resolving folds
constants on the way and gives them a kind each time. A constant of each kind stands for the double
that it was made of (`toFloat_literal`), with one exception: a zero that is an integer has no sign.
So the sign is lost where an operator on integer constants gives the zero with a sign, as a negated
zero or a product of zero and a negative number does. `SignKept` excludes this and nothing else.

* `toFloat_whole`: what an integer constant stands for.
* `value_resolve`: an expression has the same value resolved as written.
* `resolve_exact`: this value is the same however the constants are spelled: as literals, as
  externals or as scalars.
-/

namespace GridStencil.Folding

open Number (MinusZero)
open Program (ConstantKind Scope foldUnary foldBinary foldSelect kindOfUnary kindOfBinary)
open Reference (State)

/-! ### Constants -/

theorem integer?_of_zero {x : Float} {negative : Bool} {exponent : Int}
    (zero : Number.Binary64.form x = .finite negative 0 exponent) :
    Number.Binary64.integer? x = some 0 := by
  unfold Number.Binary64.integer?
  rw [zero]
  cases exponent with
  | ofNat places =>
    dsimp only
    rw [Nat.zero_mul]
    cases negative <;> rfl
  | negSucc places =>
    dsimp only
    rw [Nat.zero_mod, if_pos rfl, Nat.zero_div]
    cases negative <;> rfl

/-- **An integer constant stands for the double that it was made of**, without the sign of a
zero. -/
theorem toFloat_whole (x : Float) :
    (ConstantKind.whole.literal x).toFloat = if MinusZero x then 0.0 else x := by
  have bound : Number.int64Bound = 2 ^ 63 := rfl
  unfold ConstantKind.literal
  dsimp only
  split
  next n whole =>
    split
    next fits => exact Number.ofInt_integer? whole (by omega)
    next large =>
      rw [if_neg]
      · rfl
      · intro minus
        rw [integer?_of_zero minus] at whole
        cases whole
        exact large (by decide)
  next fraction =>
    rw [if_neg]
    · rfl
    · intro minus
      rw [integer?_of_zero minus] at fraction
      cases fraction

/-- A constant stands for the double that it was made of. -/
theorem toFloat_literal {kind : ConstantKind} {x : Float}
    (truth : kind = .truth → ∃ b, x = Literal.ofTruth b) (kept : kind = .whole → ¬ MinusZero x) :
    (kind.literal x).toFloat = x := by
  cases kind with
  | truth =>
    obtain ⟨b, rfl⟩ := truth rfl
    show Literal.ofTruth (Literal.ofTruth b != 0.0) = Literal.ofTruth b
    rw [Masked.isTrue_ofTruth]
  | whole => rw [toFloat_whole, if_neg (kept rfl)]
  | real => rfl

theorem truth_of_kindOfUnary {op : UnaryOperator} {arg : Literal}
    (kind : kindOfUnary op arg = .truth) (x : Float) : ∃ b, op.apply x = Literal.ofTruth b := by
  cases op
  case not => exact ⟨_, rfl⟩
  all_goals
    unfold kindOfUnary at kind
    dsimp only at kind
    cases arg <;> cases kind

theorem truth_of_kindOfBinary {op : BinaryOperator} {left right : Literal}
    (kind : kindOfBinary op left right = .truth) (x y : Float) :
    ∃ b, op.apply x y = Literal.ofTruth b := by
  have logical : op.isLogical = true := by
    unfold kindOfBinary at kind
    split at kind
    next logical => exact logical
    · split at kind <;> cases kind
  cases op <;> first | exact ⟨_, rfl⟩ | cases logical

/-! ### Values as written -/

/-- What names stand for at a point of the grid. -/
structure Reading where
  scope : Scope
  scalars : String → Float
  state : State
  point : Offset

namespace Reading

variable (reading : Reading)

/-- The value of a resolved expression. -/
def value (expr : Program.Expr) : Float :=
  Reference.value reading.scalars reading.state reading.point expr

/-- The value of a name: an external is a constant, anything else is read. -/
def named (name : String) (offset : Offset) : Float :=
  match reading.scope.externals.get? name with
  | some constant => constant.toFloat
  | none =>
    if reading.scope.hasScalar name then reading.scalars name
    else reading.state name (reading.point.add offset)

/-- The value of an expression that consists of a constant or a name. -/
def leaf? : Definition.Expr → Option Float
  | .literal constant _ => some constant.toFloat
  | .name name _ => some (reading.named name .zero)
  | .access name offset _ => some (reading.named name offset)
  | .unary .. | .binary .. | .conditional .. => none

/-- The value of an expression as it is written. -/
def written : Definition.Expr → Float
  | .literal constant _ => constant.toFloat
  | .name name _ => reading.named name .zero
  | .access name offset _ => reading.named name offset
  | .unary op arg _ => op.apply (written arg)
  | .binary op left right _ => op.apply (written left) (written right)
  | .conditional condition whenTrue whenFalse _ =>
    if written condition != 0.0 then written whenTrue else written whenFalse

end Reading

/-! ### Operators -/

/-- An operator on this expression is not folded to a zero that has lost its sign. -/
def UnaryKept (op : UnaryOperator) : Program.Expr → Prop
  | .literal arg => kindOfUnary op arg = .whole → ¬ MinusZero (op.apply arg.toFloat)
  | _ => True

/-- An operator on these expressions is not folded to a zero that has lost its sign. -/
def BinaryKept (op : BinaryOperator) : Program.Expr → Program.Expr → Prop
  | .literal left, .literal right =>
    kindOfBinary op left right = .whole → ¬ MinusZero (op.apply left.toFloat right.toFloat)
  | _, _ => True

instance (op : UnaryOperator) : DecidablePred (UnaryKept op)
  | .literal _ => inferInstanceAs (Decidable (_ → _))
  | .field .. | .scalar .. | .unary .. | .binary .. | .select .. => .isTrue trivial

instance (op : BinaryOperator) (left : Program.Expr) : DecidablePred (BinaryKept op left) :=
  fun right =>
    match left, right with
    | .literal _, .literal _ => inferInstanceAs (Decidable (_ → _))
    | .literal _, .field .. | .literal _, .scalar .. | .literal _, .unary ..
    | .literal _, .binary .. | .literal _, .select .. => .isTrue trivial
    | .field .., _ | .scalar .., _ | .unary .., _ | .binary .., _ | .select .., _ => .isTrue trivial

section

variable {reading : Reading}

theorem value_foldUnary {op : UnaryOperator} {arg : Program.Expr} (kept : UnaryKept op arg) :
    reading.value (foldUnary op arg) = op.apply (reading.value arg) := by
  cases arg with
  | literal arg => exact toFloat_literal (fun kind => truth_of_kindOfUnary kind _) kept
  | field | scalar | unary | binary | select => rfl

/-- The sign of a negated zero is lost. -/
example : foldUnary .neg (.literal (.int 0)) = .literal (.int 0) ∧
    ¬ UnaryKept .neg (.literal (.int 0)) := by decide +kernel

theorem value_foldBinary {op : BinaryOperator} {left right : Program.Expr}
    (kept : BinaryKept op left right) :
    reading.value (foldBinary op left right) =
      op.apply (reading.value left) (reading.value right) := by
  unfold foldBinary
  split
  · exact toFloat_literal (fun kind => truth_of_kindOfBinary kind _ _) kept
  · rfl

theorem value_foldSelect (condition whenTrue whenFalse : Program.Expr) :
    reading.value (foldSelect condition whenTrue whenFalse) =
      if reading.value condition != 0.0 then reading.value whenTrue
      else reading.value whenFalse := by
  cases condition with
  | literal condition =>
    show reading.value (if condition.toFloat != 0.0 then _ else _) =
      if condition.toFloat != 0.0 then _ else _
    split <;> rfl
  | field | scalar | unary | binary | select => rfl

/-! ### Expressions -/

/-- No operator of an expression is folded to a zero that has lost its sign. -/
def SignKept (scope : Scope) : Definition.Expr → Prop
  | .literal .. | .name .. | .access .. => True
  | .unary op arg _ =>
    SignKept scope arg ∧ ∀ expr, scope.resolve arg = .ok expr → UnaryKept op expr
  | .binary op left right _ =>
    SignKept scope left ∧ SignKept scope right ∧
      ∀ first, scope.resolve left = .ok first →
        ∀ second, scope.resolve right = .ok second → BinaryKept op first second
  | .conditional condition whenTrue whenFalse _ =>
    SignKept scope condition ∧ SignKept scope whenTrue ∧ SignKept scope whenFalse

/-- What holds of the outcome of a step can be decided where it can be decided of a value. -/
instance decidableOutcome {ε α : Type} {p : α → Prop} [DecidablePred p] :
    (outcome : Except ε α) → Decidable (∀ x, outcome = .ok x → p x)
  | .ok x => decidable_of_iff (p x)
      ⟨fun holds _ same => Except.ok.inj same ▸ holds, fun all => all x rfl⟩
  | .error _ => .isTrue nofun

instance decidableSignKept (scope : Scope) :
    (source : Definition.Expr) → Decidable (SignKept scope source)
  | .literal .. | .name .. | .access .. => .isTrue trivial
  | .unary _ arg _ =>
    have := decidableSignKept scope arg
    inferInstanceAs (Decidable (_ ∧ _))
  | .binary _ left right _ =>
    have := decidableSignKept scope left
    have := decidableSignKept scope right
    inferInstanceAs (Decidable (_ ∧ _ ∧ _))
  | .conditional condition whenTrue whenFalse _ =>
    have := decidableSignKept scope condition
    have := decidableSignKept scope whenTrue
    have := decidableSignKept scope whenFalse
    inferInstanceAs (Decidable (_ ∧ _ ∧ _))

theorem value_read {name : String} {offset : Option Offset} {expr : Program.Expr}
    (done : reading.scope.read name offset = .ok expr) :
    reading.value expr = reading.named name (offset.getD .zero) := by
  unfold Scope.read at done
  unfold Reading.named
  cases known : reading.scope.externals.get? name with
  | some constant =>
    rw [known] at done
    dsimp only at done
    split at done <;> cases done
    rfl
  | none =>
    rw [known] at done
    dsimp only at done ⊢
    split at done
    next scalar =>
      rw [if_pos scalar]
      split at done <;> cases done
      rfl
    next field =>
      rw [if_neg field]
      split at done
      · cases done
      split at done
      · cases done
      split at done <;> cases done
      rfl

/-- **An expression has the same value resolved as written.** -/
theorem value_resolve {source : Definition.Expr} {expr : Program.Expr}
    (accepted : reading.scope.resolve source = .ok expr) (kept : SignKept reading.scope source) :
    reading.value expr = reading.written source := by
  induction source generalizing expr with
  | literal constant span =>
    cases accepted
    rfl
  | name name span => exact value_read (Steps.mapError_eq_ok.mp accepted)
  | access name offset span => exact value_read (Steps.mapError_eq_ok.mp accepted)
  | unary op arg span ih =>
    obtain ⟨arg', here, same⟩ := Steps.bind_eq_ok.mp accepted
    cases same
    rw [value_foldUnary (kept.2 arg' here), ih here kept.1]
    rfl
  | binary op left right span ihLeft ihRight =>
    obtain ⟨left', here, accepted⟩ := Steps.bind_eq_ok.mp accepted
    obtain ⟨right', there, same⟩ := Steps.bind_eq_ok.mp accepted
    cases same
    rw [value_foldBinary (kept.2.2 left' here right' there), ihLeft here kept.1,
      ihRight there kept.2.1]
    rfl
  | conditional condition whenTrue whenFalse span ihCondition ihTrue ihFalse =>
    obtain ⟨condition', here, accepted⟩ := Steps.bind_eq_ok.mp accepted
    obtain ⟨whenTrue', inTrue, accepted⟩ := Steps.bind_eq_ok.mp accepted
    obtain ⟨whenFalse', inFalse, same⟩ := Steps.bind_eq_ok.mp accepted
    cases same
    rw [value_foldSelect, ihCondition here kept.1, ihTrue inTrue kept.2.1,
      ihFalse inFalse kept.2.2]
    rfl

end

/-! ### Spellings -/

/-- Expressions of the same operators on constants and names of the same values. Where one has a
literal, the other may have an external or a scalar. -/
inductive Alike (first second : Reading) : Definition.Expr → Definition.Expr → Prop
  | leaf {left right : Definition.Expr} {x : Float} (here : first.leaf? left = some x)
      (there : second.leaf? right = some x) : Alike first second left right
  | unary {op : UnaryOperator} {left right : Definition.Expr} {span span' : Span}
      (arg : Alike first second left right) :
      Alike first second (.unary op left span) (.unary op right span')
  | binary {op : BinaryOperator} {left right left' right' : Definition.Expr} {span span' : Span}
      (lefts : Alike first second left left') (rights : Alike first second right right') :
      Alike first second (.binary op left right span) (.binary op left' right' span')
  | conditional {condition whenTrue whenFalse condition' whenTrue' whenFalse' : Definition.Expr}
      {span span' : Span} (conditions : Alike first second condition condition')
      (trues : Alike first second whenTrue whenTrue')
      (falses : Alike first second whenFalse whenFalse') :
      Alike first second (.conditional condition whenTrue whenFalse span)
        (.conditional condition' whenTrue' whenFalse' span')

theorem Reading.written_of_leaf? {reading : Reading} {source : Definition.Expr} {x : Float}
    (leaf : reading.leaf? source = some x) : reading.written source = x := by
  cases source with
  | literal | name | access => exact Option.some.inj leaf
  | unary | binary | conditional => cases leaf

/-- Expressions that are alike have the same value as written. -/
theorem Alike.written_eq {first second : Reading} {left right : Definition.Expr}
    (alike : Alike first second left right) : first.written left = second.written right := by
  induction alike with
  | leaf here there =>
    rw [Reading.written_of_leaf? here, Reading.written_of_leaf? there]
  | unary arg ih =>
    unfold Reading.written
    rw [ih]
  | binary lefts rights ihLeft ihRight =>
    unfold Reading.written
    rw [ihLeft, ihRight]
  | conditional conditions trues falses ihCondition ihTrue ihFalse =>
    unfold Reading.written
    rw [ihCondition, ihTrue, ihFalse]

/-- **Folding changes no value.** A resolved expression has the value of the written one, whatever
the fields and scalars hold, and so has every expression that is alike: it does not matter whether
a constant is a literal, an external or a scalar. Doubles that are equal here have the same bits, so
zeros of different signs are told apart. -/
theorem resolve_exact {reading : Reading} {source : Definition.Expr} {expr : Program.Expr}
    (accepted : reading.scope.resolve source = .ok expr) (kept : SignKept reading.scope source) :
    reading.value expr = reading.written source ∧
      ∀ (other : Reading) (source' : Definition.Expr) (expr' : Program.Expr),
        Alike reading other source source' → other.scope.resolve source' = .ok expr' →
          SignKept other.scope source' → other.value expr' = reading.value expr := by
  refine ⟨value_resolve accepted kept, fun other source' expr' alike accepted' kept' => ?_⟩
  rw [value_resolve accepted kept, value_resolve accepted' kept', alike.written_eq]

/-- A field `a` of fives and a name `w` for three, which is a scalar or one of the externals. -/
def sample (externals : Externals) : Reading where
  scope := ⟨externals, [⟨"w", .f64⟩], [⟨"a", .f64, .ijk, .input⟩], [], [], .avoiding []⟩
  scalars _ := Float.ofInt 3
  state _ _ := Float.ofInt 5
  point := .zero

/-- The expression `(a if 1 < w else 0) * (2 - w)`. -/
def weighted : Definition.Expr :=
  .binary .mul
    (.conditional (.binary .lt (.literal (.int 1) ⟨0, 0⟩) (.name "w" ⟨0, 0⟩) ⟨0, 0⟩)
      (.name "a" ⟨0, 0⟩) (.literal (.int 0) ⟨0, 0⟩) ⟨0, 0⟩)
    (.binary .sub (.literal (.int 2) ⟨0, 0⟩) (.name "w" ⟨0, 0⟩) ⟨0, 0⟩) ⟨0, 0⟩

/-- The expression that is left of `weighted` if `w` is an external. -/
def weightedFolded : Program.Expr := .binary .mul (.field "a" .zero) (.literal (.int (-1)))

theorem resolve_weighted :
    (sample (.ofList [("w", .int 3)])).scope.resolve weighted = .ok weightedFolded := by
  have test : foldBinary .lt (.literal (.int 1)) (.literal (.int 3)) =
      .literal (.bool true) := by decide
  have difference : foldBinary .sub (.literal (.int 2)) (.literal (.int 3)) =
      .literal (.int (-1)) := by decide
  show Except.ok (foldBinary .mul
    (foldSelect (foldBinary .lt (.literal (.int 1)) (.literal (.int 3))) (.field "a" .zero) _)
    (foldBinary .sub (.literal (.int 2)) (.literal (.int 3)))) = _
  rw [test, difference]
  rfl

theorem weighted_alike :
    Alike (sample (.ofList [("w", .int 3)])) (sample .empty) weighted weighted :=
  .binary (.conditional (.binary (.leaf rfl rfl) (.leaf rfl rfl)) (.leaf rfl rfl) (.leaf rfl rfl))
    (.binary (.leaf rfl rfl) (.leaf rfl rfl))

/-- With `w` as an external the expression folds to a product with a constant, with `w` as a scalar
it does not fold at all. Both have the value that is written. -/
theorem resolve_exact_weighted :
    (sample (.ofList [("w", .int 3)])).scope.resolve weighted = .ok weightedFolded ∧
    SignKept (sample (.ofList [("w", .int 3)])).scope weighted ∧
    SignKept (sample .empty).scope weighted ∧
    (sample (.ofList [("w", .int 3)])).value weightedFolded =
      (sample (.ofList [("w", .int 3)])).written weighted ∧
    (sample .empty).value
        (.binary .mul
          (.select (.binary .lt (.literal (.int 1)) (.scalar "w")) (.field "a" .zero)
            (.literal (.int 0)))
          (.binary .sub (.literal (.int 2)) (.scalar "w"))) =
      (sample (.ofList [("w", .int 3)])).value weightedFolded := by
  have kept : SignKept (sample (.ofList [("w", .int 3)])).scope weighted := by decide +kernel
  have keptPassed : SignKept (sample .empty).scope weighted := by decide +kernel
  obtain ⟨written, others⟩ := resolve_exact resolve_weighted kept
  exact ⟨resolve_weighted, kept, keptPassed, written,
    others (sample .empty) weighted _ weighted_alike rfl keptPassed⟩

end GridStencil.Folding
