import GridStencil.Proofs.Definition.Reading
import GridStencil.Proofs.Definition.Stencil

/-!
**The canonical text of a definition reads back to it.**

What is read from a text can be written, and what can be written reads back from its canonical
text. There are two exceptions: a double has to be finite and to read back from its shortest text,
and no assignment may stand in front of one whose target reads as the rest of a conditional
(`Definition.Apart`).

* `reads_back`: a definition that is read from some text reads back from its canonical text, which
  is that of the result, too.
-/

namespace GridStencil.Definition

/-! ### The canonical text does not depend on spans -/

theorem render_withoutSpans_expr (strength : Nat) (e : Expr) :
    e.withoutSpans.renderAt strength = e.renderAt strength := by
  induction e generalizing strength with
  | literal value span => rfl
  | name n span => rfl
  | access n offset span => rfl
  | unary op arg span ih =>
    simp only [Expr.withoutSpans, Expr.renderAt, ih]
    rfl
  | binary op left right span left_ih right_ih =>
    simp only [Expr.withoutSpans, Expr.renderAt, left_ih, right_ih]
    rfl
  | conditional condition whenTrue whenFalse span condition_ih true_ih false_ih =>
    simp only [Expr.withoutSpans, Expr.renderAt, condition_ih, true_ih, false_ih]
    rfl

mutual

theorem lines_withoutSpans (indent : Nat) (s : Statement) :
    s.withoutSpans.lines indent = s.lines indent := by
  match s with
  | .assign target offset value span =>
    simp only [Statement.withoutSpans, Statement.lines, Expr.render, render_withoutSpans_expr]
  | .branch condition whenTrue whenFalse span =>
    have empty : (Statement.listWithoutSpans whenFalse).isEmpty = whenFalse.isEmpty := by
      cases whenFalse <;> rfl
    simp only [Statement.withoutSpans, Statement.lines, Expr.render, render_withoutSpans_expr,
      listLines_withoutSpans (indent + 4) whenTrue, listLines_withoutSpans (indent + 4) whenFalse,
      empty]

theorem listLines_withoutSpans (indent : Nat) (body : List Statement) :
    Statement.listLines indent (Statement.listWithoutSpans body) =
      Statement.listLines indent body := by
  match body with
  | [] => rfl
  | s :: rest =>
    simp only [Statement.listWithoutSpans, Statement.listLines, lines_withoutSpans indent s,
      listLines_withoutSpans indent rest]

end

theorem lines_section_withoutSpans (s : Section) : s.withoutSpans.lines = s.lines := by
  have bound : ∀ b : Bound, b.withoutSpans.render = b.render := fun b => by cases b <;> rfl
  have range : s.range.withoutSpans.render = s.range.render := by
    cases s.range <;> simp only [Range.withoutSpans, Range.render, bound]
  simp only [Section.withoutSpans, Section.lines, range, listLines_withoutSpans]

theorem lines_computation_withoutSpans (c : Computation) : c.withoutSpans.lines = c.lines := by
  simp only [Computation.withoutSpans, Computation.lines, List.flatMap_map,
    lines_section_withoutSpans]

/-- Definitions that are the same up to spans have the same canonical text. -/
theorem render_withoutSpans (d : Definition) : d.withoutSpans.render = d.render := by
  have fields : ∀ f : FieldParameter, f.withoutSpan.render = f.render := fun f => rfl
  have parameters : d.withoutSpans.parameterTexts = d.parameterTexts := by
    rw [withoutSpans_eq]
    unfold parameterTexts
    simp only [List.map_map, List.isEmpty_map]
    rfl
  have names : d.withoutSpans.externals.map (·.1) = d.externals.map (·.1) := by
    rw [withoutSpans_eq]
    simp only [List.map_map]
    rfl
  have none_there : d.withoutSpans.externals.isEmpty = d.externals.isEmpty := List.isEmpty_map
  have computations : d.withoutSpans.computations.flatMap Computation.lines =
      d.computations.flatMap Computation.lines := by
    rw [withoutSpans_eq]
    simp only [List.flatMap_map, lines_computation_withoutSpans]
  unfold render lines
  rw [parameters, names, none_there, computations]
  rfl

/-! ### Reading back -/

/-- Whether a double is finite. -/
def Finite (x : Float) : Prop :=
  ∃ negative mantissa exponent, Number.Binary64.form x = .finite negative mantissa exponent

/-- **A definition that is read from a text reads back from its canonical text**, up to spans and
the source, if its doubles are finite and read back from their shortest texts, and no assignment
stands in front of one whose target reads as the rest of a conditional. What is read has the same
canonical text again. -/
theorem reads_back {source : Source} {definitions : List Definition}
    (read : readAll source = .ok definitions) {d : Definition} (member : d ∈ definitions)
    (finite : ∀ x ∈ d.floats, Finite x)
    (shortest : ∀ x ∈ d.floats, Number.readFloat? (Number.text x).toList = some x)
    (apart : d.Apart) (name : String) :
    ∃ again, readAll ⟨name, d.render⟩ = .ok [again] ∧ again.withoutSpans = d.withoutSpans ∧
      again.render = d.render := by
  obtain ⟨written, unsigned⟩ := clean_of_readAll read d member
  have floats : ∀ x ∈ d.floats, Number.ReadsBack x := by
    intro x inside
    obtain ⟨negative, mantissa, exponent, form⟩ := finite x inside
    obtain rfl := Number.form_of_unsigned (unsigned x inside) form
    exact ⟨⟨mantissa, exponent, form⟩, shortest x inside⟩
  obtain ⟨again, readAgain, same⟩ := readAll_render written floats apart name
  refine ⟨again, readAgain, same, ?_⟩
  rw [← render_withoutSpans again, same, render_withoutSpans d]

/-! ### A definition that reads back -/

instance (s : Statement) (next : Option Statement) : Decidable (Collides s next) :=
  match s, next with
  | .assign _ _ _ _, some (.assign target _ _ _) =>
    inferInstanceAs (Decidable (ReadsAsChoice target))
  | .assign _ _ _ _, some (.branch _ _ _ _) => .isFalse id
  | .assign _ _ _ _, none => .isFalse id
  | .branch _ _ _ _, _ => .isFalse id

mutual

/-- Whether two statements inside a statement collide can be decided. -/
def Statement.decidableApart : (s : Statement) → Decidable s.Apart
  | .assign _ _ _ _ => .isTrue trivial
  | .branch _ whenTrue whenFalse _ =>
    @instDecidableAnd _ _ (Statement.decidableListApart whenTrue)
      (Statement.decidableListApart whenFalse)

/-- Whether two of some statements collide can be decided. -/
def Statement.decidableListApart : (body : List Statement) → Decidable (Statement.ListApart body)
  | [] => .isTrue trivial
  | s :: rest =>
    @instDecidableAnd _ _ (Statement.decidableApart s)
      (@instDecidableAnd _ _ inferInstance (Statement.decidableListApart rest))

end

instance (body : List Statement) : Decidable (Statement.ListApart body) :=
  Statement.decidableListApart body

instance (d : Definition) : Decidable d.Apart :=
  inferInstanceAs (Decidable (∀ c ∈ d.computations, ∀ s ∈ c.sections, Statement.ListApart s.body))

instance (x : Float) : Decidable (Finite x) :=
  match form : Number.Binary64.form x with
  | .finite negative mantissa exponent => .isTrue ⟨negative, mantissa, exponent, form⟩
  | .nan => .isFalse fun ⟨_, _, _, other⟩ => nomatch form.symm.trans other
  | .infinite _ => .isFalse fun ⟨_, _, _, other⟩ => nomatch form.symm.trans other

/-- The text of a stencil in which two assignments follow each other, and an `if`. -/
def branches : String :=
  "stencil s(a: Field[f64]) \x7b with computation(PARALLEL), interval(...) \x7b t = -a**2 " ++
    "a = t*0.5 if a > 0 \x7b a = 1 if t else 2 \x7d \x7d \x7d"

/-- Whether the definitions of a source fulfil all that reading back asks for. -/
def readable (source : Source) : Bool :=
  match readAll source with
  | .error _ => false
  | .ok definitions => definitions.length == 1 && definitions.all fun d =>
      decide (d.Apart ∧ ∀ x ∈ d.floats, Finite x ∧
        Number.readFloat? (Number.text x).toList = some x)

/-- A stencil that reads back. -/
theorem reads_back_branches : ∃ d again, readAll ⟨"", branches⟩ = .ok [d] ∧ d.Apart ∧
    (∀ x ∈ d.floats, Finite x ∧ Number.readFloat? (Number.text x).toList = some x) ∧
    readAll ⟨"", d.render⟩ = .ok [again] ∧ again.withoutSpans = d.withoutSpans := by
  have all : readable ⟨"", branches⟩ = true := by decide +kernel
  unfold readable at all
  split at all
  · cases all
  next definitions read =>
    rw [Bool.and_eq_true, beq_iff_eq] at all
    obtain ⟨single, each⟩ := all
    obtain ⟨d, rfl⟩ := List.length_eq_one_iff.mp single
    obtain ⟨apart, floats⟩ := of_decide_eq_true (List.all_eq_true.mp each d List.mem_cons_self)
    obtain ⟨again, readAgain, same, -⟩ := reads_back read List.mem_cons_self
      (fun x inside => (floats x inside).1) (fun x inside => (floats x inside).2) apart ""
    exact ⟨d, again, read, apart, floats, readAgain, same⟩

end GridStencil.Definition
