import GridStencil.Program.Lowering
import GridStencil.Proofs.Steps

/-!
**Programs do not depend on where a definition stands in its text.**

Spans are only written down: into faults, and into the statements, sections and blocks of a program.
A definition without its spans therefore becomes the program without its spans
(`ofDefinition?_withoutSpans`), or none where the definition becomes none. Two computations are
compared by `Steps.Alike`, which does not ask for the same fault, because faults show spans.
-/

namespace GridStencil.Program

open Definition (noSpan)
open Steps (Alike)

/-! ### Programs without spans -/

/-- A statement with its span forgotten. -/
def Statement.withoutSpan (statement : Statement) : Statement := { statement with span := noSpan }

/-- A section with its spans forgotten. -/
def Section.withoutSpans (part : Section) : Section :=
  ⟨part.interval, part.body.map Statement.withoutSpan, noSpan⟩

/-- A block with its spans forgotten. -/
def Block.withoutSpans (block : Block) : Block :=
  ⟨block.policy, block.sections.map Section.withoutSpans, noSpan⟩

/-- A program with its source and all spans forgotten. -/
def withoutSpans (program : Program) : Program :=
  { program with source := ⟨"", ""⟩, blocks := program.blocks.map Block.withoutSpans }

/-! ### Expressions and intervals -/

namespace Scope

variable (scope : Scope)

theorem resolve_withoutSpans (e : Definition.Expr) :
    Alike Eq (scope.resolve e.withoutSpans) (scope.resolve e) := by
  induction e with
  | literal value span => exact .refl _
  | name name span => exact (Alike.refl (scope.read name none)).mapError _ _
  | access name offset span => exact (Alike.refl (scope.read name (some offset))).mapError _ _
  | unary op arg span ih => exact ih.bind fun _ _ same => same ▸ .refl _
  | binary op left right span left_ih right_ih =>
    refine left_ih.bind ?_
    rintro left' _ rfl
    exact right_ih.bind fun _ _ same => same ▸ .refl _
  | conditional condition whenTrue whenFalse span condition_ih true_ih false_ih =>
    refine condition_ih.bind ?_
    rintro condition' _ rfl
    refine true_ih.bind ?_
    rintro whenTrue' _ rfl
    exact false_ih.bind fun _ _ same => same ▸ .refl _

theorem bound_withoutSpans (b : Definition.Bound) :
    Alike Eq (scope.bound b.withoutSpans) (scope.bound b) := by
  cases b with
  | int value => exact .refl _
  | top => exact .refl _
  | external name span =>
    simp only [Definition.Bound.withoutSpans, bound]
    split
    · exact .refl _
    · exact .error _ _
    · exact .error _ _

theorem interval_withoutSpans (r : Definition.Range) :
    Alike Eq (scope.interval r.withoutSpans) (scope.interval r) := by
  cases r with
  | full => exact .refl _
  | between lower upper =>
    refine (scope.bound_withoutSpans lower).bind ?_
    rintro lower' _ rfl
    exact (scope.bound_withoutSpans upper).bind fun _ _ same => same ▸ .refl _

end Scope

/-! ### Statements, sections and computations -/

/-- What is lowered without spans, against what is lowered with them: the same scope behind, and the
same parts up to spans. -/
def SameParts {α : Type} (forget : α → α) (bare full : List α × Scope) : Prop :=
  bare = (full.1.map forget, full.2)

mutual

theorem lower_withoutSpans (guards : List Guard) (scope : Scope) (s : Definition.Statement) :
    Alike (SameParts Statement.withoutSpan) (lower guards scope s.withoutSpans)
      (lower guards scope s) := by
  match s with
  | .assign target offset value span =>
    simp only [Definition.Statement.withoutSpans, lower]
    split
    · exact .error _ _
    · refine (scope.resolve_withoutSpans value).bind ?_
      rintro value' _ rfl
      refine ((Alike.refl (scope.assign target)).mapError _ _).bind ?_
      rintro ⟨current, after⟩ _ rfl
      exact .ok rfl
  | .branch condition whenTrue whenFalse span =>
    simp only [Definition.Statement.withoutSpans, lower]
    refine (scope.resolve_withoutSpans condition).bind ?_
    rintro condition' _ rfl
    refine (lowerAll_withoutSpans _ _ whenTrue).bind ?_
    rintro _ ⟨first, afterTrue⟩ rfl
    refine (lowerAll_withoutSpans _ _ whenFalse).bind ?_
    rintro _ ⟨second, afterFalse⟩ rfl
    dsimp only
    split
    · exact .error _ _
    · refine .ok ?_
      simp only [SameParts, List.cons_append, List.map_cons, List.map_append]
      rfl

theorem lowerAll_withoutSpans (guards : List Guard) (scope : Scope)
    (body : List Definition.Statement) :
    Alike (SameParts Statement.withoutSpan)
      (lowerAll guards scope (Definition.Statement.listWithoutSpans body))
      (lowerAll guards scope body) := by
  match body with
  | [] =>
    simp only [Definition.Statement.listWithoutSpans, lowerAll]
    exact .ok rfl
  | s :: rest =>
    simp only [Definition.Statement.listWithoutSpans, lowerAll]
    refine (lower_withoutSpans guards scope s).bind ?_
    rintro _ ⟨first, after⟩ rfl
    refine (lowerAll_withoutSpans guards after rest).bind ?_
    rintro _ ⟨more, last⟩ rfl
    exact .ok (by rw [SameParts, List.map_append])

end

theorem lowerSections_withoutSpans (scope : Scope) (sections : List Definition.Section) :
    Alike (SameParts Section.withoutSpans)
      (lowerSections scope (sections.map Definition.Section.withoutSpans))
      (lowerSections scope sections) := by
  induction sections generalizing scope with
  | nil => exact .ok rfl
  | cons part rest ih =>
    refine (scope.interval_withoutSpans part.range).bind ?_
    rintro interval _ rfl
    refine (lowerAll_withoutSpans [] scope part.body).bind ?_
    rintro _ ⟨body, after⟩ rfl
    refine (ih after).bind ?_
    rintro _ ⟨more, last⟩ rfl
    exact .ok rfl

theorem lowerComputations_withoutSpans (scope : Scope)
    (computations : List Definition.Computation) :
    Alike (SameParts Block.withoutSpans)
      (lowerComputations scope (computations.map Definition.Computation.withoutSpans))
      (lowerComputations scope computations) := by
  induction computations generalizing scope with
  | nil => exact .ok rfl
  | cons computation rest ih =>
    simp only [List.map_cons, Definition.Computation.withoutSpans, lowerComputations]
    split
    · exact .error _ _
    · refine (lowerSections_withoutSpans scope computation.sections).bind ?_
      rintro _ ⟨sections, after⟩ rfl
      refine (ih after).bind ?_
      rintro _ ⟨more, last⟩ rfl
      exact .ok rfl

/-! ### Names -/

/-- A binding with its span forgotten. -/
def Binding.withoutSpan (binding : Binding) : Binding := { binding with span := noSpan }

theorem bindings_withoutSpans (definition : Definition) :
    bindings definition.withoutSpans = (bindings definition).map Binding.withoutSpan := by
  simp only [bindings, Definition.withoutSpans, List.map_append, List.map_map]
  rfl

/-- Names clash or not whatever their spans. -/
theorem clash?_withoutSpans (seen bound : List Binding) :
    (clash? (seen.map Binding.withoutSpan) (bound.map Binding.withoutSpan)).isSome =
      (clash? seen bound).isSome := by
  induction bound generalizing seen with
  | nil => rfl
  | cons binding rest ih =>
    have earlier : (seen.map Binding.withoutSpan).find?
        (·.name == binding.withoutSpan.name) =
          (seen.find? (·.name == binding.name)).map Binding.withoutSpan := by
      rw [List.find?_map]
      rfl
    simp only [List.map_cons, clash?, earlier]
    cases seen.find? (·.name == binding.name) with
    | some other => rfl
    | none => exact ih (binding :: seen)

mutual

theorem targets_withoutSpans (s : Definition.Statement) : targets s.withoutSpans = targets s := by
  match s with
  | .assign _ _ _ _ => simp only [Definition.Statement.withoutSpans, targets]
  | .branch _ whenTrue whenFalse _ =>
    simp only [Definition.Statement.withoutSpans, targets, targetsAll_withoutSpans whenTrue,
      targetsAll_withoutSpans whenFalse]

theorem targetsAll_withoutSpans (body : List Definition.Statement) :
    targetsAll (Definition.Statement.listWithoutSpans body) = targetsAll body := by
  match body with
  | [] => rfl
  | s :: rest =>
    simp only [Definition.Statement.listWithoutSpans, targetsAll, targets_withoutSpans s,
      targetsAll_withoutSpans rest]

end

theorem namesIn_withoutSpans (definition : Definition) :
    namesIn definition.withoutSpans = namesIn definition := by
  have targets : ∀ c : Definition.Computation,
      (c.withoutSpans.sections.flatMap fun part => targetsAll part.body) =
        c.sections.flatMap fun part => targetsAll part.body := fun c => by
    simp only [Definition.Computation.withoutSpans, List.flatMap_map,
      Definition.Section.withoutSpans, targetsAll_withoutSpans]
  have names : (bindings definition.withoutSpans).map Binding.name =
      (bindings definition).map Binding.name := by
    rw [bindings_withoutSpans, List.map_map]
    rfl
  have computations : definition.withoutSpans.computations =
      definition.computations.map Definition.Computation.withoutSpans := rfl
  simp only [namesIn, names, computations, List.flatMap_map, targets]

theorem hasParameter_withoutSpans (definition : Definition) (name : String) :
    hasParameter definition.withoutSpans name = hasParameter definition name := by
  simp only [hasParameter, Definition.withoutSpans, List.any_map]
  rfl

theorem start_withoutSpans (definition : Definition) (externals : Externals)
    (signature : Signature) :
    Scope.start definition.withoutSpans externals signature =
      .start definition externals signature := by
  simp only [Scope.start, namesIn_withoutSpans]
  simp only [Definition.withoutSpans, List.map_map]
  rfl

theorem resolveExternals_withoutSpans (definition : Definition) (externals : Externals) :
    Alike Eq (resolveExternals definition.withoutSpans externals)
      (resolveExternals definition externals) := by
  have pairs : List.Forall₂ (fun bare full : String × Span => bare.1 = full.1)
      definition.withoutSpans.externals definition.externals := by
    simp only [Definition.withoutSpans, List.forall₂_map_left_iff]
    exact List.forall₂_same.mpr fun _ _ => rfl
  refine (Alike.mapM pairs ?_ (s := Eq)).bind ?_
  · rintro ⟨name, _⟩ ⟨_, _⟩ rfl
    dsimp only
    split
    · exact .ok rfl
    · exact .error _ _
  · intro values values' same
    rw [List.forall₂_eq_eq_eq] at same
    exact .ok (congrArg _ same)

/-! ### Definitions -/

/-- **What a definition becomes does not depend on its spans.** -/
theorem ofDefinition?_withoutSpans (definition : Definition) (externals : Externals)
    (signature : Signature) :
    Alike (fun bare full => bare = (full.1.withoutSpans, full.2))
      (ofDefinition? definition.withoutSpans externals signature)
      (ofDefinition? definition externals signature) := by
  have clashes := clash?_withoutSpans [] (bindings definition)
  rw [List.map_nil, ← bindings_withoutSpans] at clashes
  unfold ofDefinition?
  cases free : clash? [] (bindings definition) with
  | some fault =>
    rw [free] at clashes
    obtain ⟨fault', clash⟩ := Option.isSome_iff_exists.mp clashes
    rw [clash]
    exact .error _ _
  | none =>
    rw [free, Option.isSome_none, Option.isSome_eq_false_iff, Option.isNone_iff_eq_none] at clashes
    rw [clashes]
    refine (resolveExternals_withoutSpans definition externals).bind ?_
    rintro values _ rfl
    simp only [hasParameter_withoutSpans, start_withoutSpans]
    split
    · exact .error _ _
    · refine (lowerComputations_withoutSpans _ definition.computations).bind ?_
      rintro _ ⟨blocks, scope⟩ rfl
      exact .ok rfl

end GridStencil.Program
