import GridStencil.Proofs.Definition.Computation

/-!
**Stencils read back from their lines.**

The parameters of a signature are one list for the grammar, in which the marker stands between
fields and scalars (`Parameter`); the reader takes them apart again. With the parameters, the
externals and the computations a whole stencil reads back: `readAll_render`.
-/

namespace GridStencil

open Grammar

namespace Definition

variable {rest : List Char}

/-! ### Parameters -/

/-- A part of a signature. -/
inductive Parameter
  | field (f : FieldParameter)
  | marker
  | scalar (s : ScalarParameter)

/-- The parts of the signature of a definition. -/
def parameters (d : Definition) : List Parameter :=
  d.fields.map .field ++ if d.scalars.isEmpty then [] else .marker :: d.scalars.map .scalar

/-- The text of a part of a signature. -/
def Parameter.render : Parameter → String
  | field f => f.render
  | marker => "*"
  | scalar s => s.render

/-- Whether a part of a signature can be written. -/
def Parameter.Written : Parameter → Prop
  | field f => IsName f.name
  | marker => True
  | scalar s => IsName s.name

theorem parameterTexts_eq (d : Definition) :
    d.parameterTexts = d.parameters.map Parameter.render := by
  unfold parameterTexts parameters
  rw [List.map_append, List.map_map]
  split
  · rfl
  · rw [List.map_cons, List.map_map]
    rfl

theorem parameters_written {d : Definition} (written : d.Written) :
    ∀ p ∈ d.parameters, p.Written := by
  intro p inside
  rcases List.mem_append.mp inside with inside | inside
  · obtain ⟨f, member, rfl⟩ := List.mem_map.mp inside
    exact written.fields f member
  · split at inside
    · cases inside
    · rcases List.mem_cons.mp inside with rfl | inside
      · trivial
      · obtain ⟨s, member, rfl⟩ := List.mem_map.mp inside
        exact written.scalars s member

/-- A field with its span forgotten. -/
def FieldParameter.withoutSpan (f : FieldParameter) : FieldParameter := { f with span := noSpan }

/-- A scalar with its span forgotten. -/
def ScalarParameter.withoutSpan (s : ScalarParameter) : ScalarParameter :=
  { s with span := noSpan }

/-- Whether a node reads as a part of a signature, up to spans. -/
def SpellsParameter : Parameter → Node → Prop
  | .field f, node =>
    node.rule = .fieldParam ∧ ReadsAs readField FieldParameter.withoutSpan f node
  | .marker, node => node.rule = .kwStar
  | .scalar s, node =>
    node.rule = .scalarParam ∧ ReadsAs readScalar ScalarParameter.withoutSpan s node

/-- Nodes that read as the parts of a signature read as the signature. -/
theorem readParameters_of_spells {fields : List FieldParameter} {scalars : List ScalarParameter}
    {nodes : List Node}
    (spells : List.Forall₂ SpellsParameter (fields.map .field ++
      if scalars.isEmpty then [] else .marker :: scalars.map .scalar) nodes) :
    ∃ found, readParameters false nodes = .ok found ∧
      found.fields.map FieldParameter.withoutSpan = fields.map FieldParameter.withoutSpan ∧
      found.scalars.map ScalarParameter.withoutSpan =
        scalars.map ScalarParameter.withoutSpan := by
  have behind : ∀ (scalars : List ScalarParameter) (nodes : List Node),
      List.Forall₂ SpellsParameter (scalars.map .scalar) nodes →
        ∃ found, readParameters true nodes = .ok found ∧ found.fields = [] ∧
          found.scalars.map ScalarParameter.withoutSpan =
            scalars.map ScalarParameter.withoutSpan := by
    intro scalars
    induction scalars with
    | nil =>
      rintro _ ⟨⟩
      exact ⟨⟨[], []⟩, rfl, rfl, rfl⟩
    | cons s scalars ih =>
      rintro _ (_ | ⟨⟨isScalar, found, read, same⟩, others⟩)
      obtain ⟨signature, read_others, noFields, same_others⟩ := ih _ others
      refine ⟨{ signature with scalars := found :: signature.scalars }, ?_, noFields, ?_⟩
      · simp only [readParameters, isScalar, read, read_others]
        rfl
      · rw [List.map_cons, List.map_cons, same, same_others]
  induction fields generalizing nodes with
  | nil =>
    cases scalars with
    | nil =>
      cases spells
      exact ⟨⟨[], []⟩, rfl, rfl, rfl⟩
    | cons s scalars =>
      cases spells with
      | cons isMarker others =>
        obtain ⟨signature, read, noFields, same⟩ := behind (s :: scalars) _ others
        refine ⟨signature, ?_, by rw [noFields], same⟩
        have marked : Node.rule _ = .kwStar := isMarker
        simp only [readParameters, marked, Bool.false_eq_true, if_false, read]
  | cons f fields ih =>
    rw [List.map_cons, List.cons_append] at spells
    cases spells with
    | cons here others =>
      obtain ⟨isField, found, read, same⟩ := here
      obtain ⟨signature, read_others, same_fields, same_scalars⟩ := ih others
      refine ⟨{ signature with fields := found :: signature.fields }, ?_, ?_, same_scalars⟩
      · simp only [readParameters, isField, Bool.false_eq_true, if_false, read, read_others]
        rfl
      · rw [List.map_cons, List.map_cons, same, same_fields]

theorem elementType_avoids {c : Char} (outside : Pattern.isNameChar c = false) :
    Pattern.elementType.avoids c = true := by
  have no_letter : Pattern.isLetter c = false := by
    simp only [Pattern.isNameChar, Bool.or_eq_false_iff] at outside
    exact outside.1.1
  simp [Pattern.elementType, Pattern.avoids, outside, no_letter]

theorem elementType_yields (type : ElementType) (ends : EndsToken rest) :
    (Phrase.rule .elementType).Yields (type.name.toList ++ rest) rest
      (fun nodes => ∃ node, nodes = [node] ∧ readElementType node = .ok type) := by
  have all : Pattern.elementType.split type.name.toList = some (type.name.toList, []) := by
    cases type <;> rfl
  have split := Pattern.split_append_of_all all fun c head =>
    elementType_avoids (not_isNameChar_of_endsToken (ends c head))
  refine .rule_token rfl split fun span => ⟨_, rfl, ?_⟩
  rw [readElementType, Node.text, String.ofList_toList, ElementType.named?_name]

theorem solid_typeName (type : ElementType) :
    ∃ c cs, type.name.toList = c :: cs ∧ isSolid c = true ∧ c ≠ 'F' := by
  cases type <;> exact ⟨_, _, rfl, rfl, by decide⟩

/-- The text behind the type of a field. -/
def dimensionsText : Dimensions → List Char
  | .ijk => "]".toList
  | .zero => ", ()]".toList

theorem dimensions_yields (dimensions : Dimensions) (rest : List Char) :
    (Phrase.seq (.optional (.seq (.text ",") (.alt (.rule .dimsIjk) (.rule .dimsZero))))
        (.text "]")).Yields (dimensionsText dimensions ++ rest) rest
      (fun nodes => dimensions = .ijk ∧ nodes = [] ∨
        dimensions = .zero ∧ ∃ span, nodes = [.mk .dimsZero span "" []]) := by
  cases dimensions with
  | ijk =>
    have nothing : (Phrase.optional (.seq (.text ",")
        (.alt (.rule .dimsIjk) (.rule .dimsZero)))).Yields ("]".toList ++ rest) ("]".toList ++ rest)
        (· = []) := .optional_none (.seq_first (.text rfl (by rintro ⟨⟩))) rfl
    refine (nothing.next (skip_cons_solid rfl rest) (Phrase.Yields.text "]" rest)).imp ?_
    rintro _ ⟨_, _, rfl, rfl, rfl⟩
    exact .inl ⟨rfl, rfl⟩
  | zero =>
    have brackets : (Phrase.rule .dimsZero).Yields ('(' :: ')' :: ']' :: rest) (']' :: rest)
        (fun nodes => ∃ span, nodes = [.mk .dimsZero span "" []]) := by
      refine .rule rfl ((Phrase.Yields.text "(" _).next (skip_cons_solid rfl _) <|
        Phrase.Yields.text ")" (']' :: rest)) ?_
      rintro span _ ⟨_, _, rfl, rfl, rfl⟩
      exact ⟨span, rfl⟩
    have no_word : (Phrase.rule .dimsIjk).Rejects ('(' :: ')' :: ']' :: rest) :=
      .rule_token rfl rfl
    have tail := ((Phrase.Yields.text "," _).next
      ((skip_blank _).trans (skip_cons_solid rfl _)) (brackets.alt_second no_word)).optional_some
    refine (tail.next (skip_cons_solid rfl rest) (Phrase.Yields.text "]" rest)).imp ?_
    rintro _ ⟨_, _, rfl, ⟨_, _, rfl, rfl, span, rfl⟩, rfl⟩
    exact .inr ⟨rfl, span, rfl⟩

theorem text_field (f : FieldParameter) (rest : List Char) :
    f.render.toList ++ rest = f.name.toList ++ (':' :: ' ' :: ("Field".toList ++ '[' ::
      (f.type.name.toList ++ (dimensionsText f.dimensions ++ rest)))) := by
  have word : ": Field[".toList = ':' :: ' ' :: ("Field".toList ++ ['[']) := rfl
  unfold FieldParameter.render
  cases f.dimensions <;>
    simp only [String.toList_append, word, List.append_assoc, List.cons_append, List.nil_append,
      dimensionsText]

/-- A field reads back. -/
theorem field_yields {f : FieldParameter} (is_name : IsName f.name) (rest : List Char) :
    (Phrase.rule .fieldParam).Yields (f.render.toList ++ rest) rest
      (fun nodes => ∃ node, nodes = [node] ∧ SpellsParameter (.field f) node) := by
  obtain ⟨c, cs, starts, solid, -⟩ := solid_typeName f.type
  have skip_type := Solid.skip ⟨c, cs, starts, solid⟩ (dimensionsText f.dimensions ++ rest)
  obtain ⟨d, ds, follows, solid', ends⟩ : ∃ d ds, dimensionsText f.dimensions = d :: ds ∧
      isSolid d = true ∧ endsToken d = true := by
    cases f.dimensions <;> exact ⟨_, _, rfl, rfl, rfl⟩
  have type_ends : EndsToken (dimensionsText f.dimensions ++ rest) := by
    rw [follows]
    exact endsToken_cons ends _
  have skip_dimensions := Solid.skip ⟨d, ds, follows, solid'⟩ rest
  rw [text_field]
  refine .rule rfl ((identifier_yields is_name (endsToken_cons rfl _)).next
      (skip_cons_solid rfl _) <|
    (Phrase.Yields.text ":" _).next ((skip_blank _).trans (skip_cons_solid rfl _)) <|
    (Phrase.Yields.text "Field" _).next (skip_cons_solid rfl _) <|
    (Phrase.Yields.text "[" _).next skip_type <|
    (elementType_yields f.type type_ends).next skip_dimensions <|
    dimensions_yields f.dimensions rest) ?_
  rintro at_span _ ⟨_, _, rfl, ⟨name_span, rfl⟩, _, _, rfl, rfl, _, _, rfl, rfl, _, _, rfl, rfl,
    _, _, rfl, ⟨type_node, rfl, type_read⟩, ⟨isIjk, rfl⟩ | ⟨isZero, dims_span, rfl⟩⟩
  · refine ⟨_, rfl, rfl, { f with span := at_span }, ?_, rfl⟩
    simp only [List.cons_append, List.nil_append, readField, Node.parts, Node.text, type_read]
    rw [← isIjk]
    rfl
  · refine ⟨_, rfl, rfl, { f with span := at_span }, ?_, rfl⟩
    simp only [List.cons_append, List.nil_append, readField, Node.parts, Node.text, Node.rule,
      type_read]
    rw [isZero]
    rfl

theorem text_scalar (s : ScalarParameter) (rest : List Char) :
    s.render.toList ++ rest = s.name.toList ++ (':' :: ' ' :: (s.type.name.toList ++ rest)) := by
  have sign : ": ".toList = [':', ' '] := rfl
  simp only [ScalarParameter.render, String.toList_append, sign, List.append_assoc,
    List.cons_append, List.nil_append]

/-- A scalar reads back, and not as a field. -/
theorem scalar_yields {s : ScalarParameter} (is_name : IsName s.name) (ends : EndsToken rest) :
    (Phrase.rule .scalarParam).Yields (s.render.toList ++ rest) rest
        (fun nodes => ∃ node, nodes = [node] ∧ SpellsParameter (.scalar s) node) ∧
      (Phrase.rule .fieldParam).Rejects (s.render.toList ++ rest) := by
  obtain ⟨c, cs, starts, solid, no_field⟩ := solid_typeName s.type
  have skip_type : skip (' ' :: (s.type.name.toList ++ rest)) = s.type.name.toList ++ rest :=
    (skip_blank _).trans (Solid.skip ⟨c, cs, starts, solid⟩ rest)
  have name := identifier_yields is_name
    (endsToken_cons (c := ':') rfl (' ' :: (s.type.name.toList ++ rest)))
  rw [text_scalar]
  constructor
  · refine .rule rfl (name.next (skip_cons_solid rfl _) <|
      (Phrase.Yields.text ":" _).next skip_type <| elementType_yields s.type ends) ?_
    rintro at_span _ ⟨_, _, rfl, ⟨name_span, rfl⟩, _, _, rfl, rfl, type_node, rfl, type_read⟩
    refine ⟨_, rfl, rfl, { s with span := at_span }, ?_, rfl⟩
    simp only [List.cons_append, List.nil_append, readScalar, Node.parts, Node.text, type_read]
    rfl
  · have no_word : (Phrase.text "Field").Rejects (s.type.name.toList ++ rest) := by
      refine .text rfl ?_
      rw [starts]
      exact fun same => no_field (Option.some.inj same)
    exact .rule rfl (.seq_second name (by
      rw [skip_cons_solid rfl]
      exact .seq_second (Phrase.Yields.text ":" _) (by
        rw [skip_type]
        exact .seq_first no_word)))

/-- A part of a signature reads back. -/
theorem parameter_yields {p : Parameter} (written : p.Written) (ends : EndsToken rest) :
    Phrase.parameter.Yields (p.render.toList ++ rest) rest
      (fun nodes => ∃ node, nodes = [node] ∧ SpellsParameter p node) := by
  have no_marker : ∀ {name : String} (more : List Char), IsName name →
      (Phrase.rule .kwStar).Rejects (name.toList ++ more) := by
    intro name more is_name
    obtain ⟨c, cs, chars, -⟩ := is_name.head
    have other : c ≠ '*' := by
      rintro rfl
      exact absurd (is_name.all '*' (by simp [chars])) (by decide)
    refine .rule_token rfl (Pattern.split_text_none rfl ?_)
    rw [chars]
    exact fun same => other (Option.some.inj same)
  cases p with
  | field f =>
    refine .alt_second ?_ (.alt_first (field_yields written rest))
    show (Phrase.rule .kwStar).Rejects (f.render.toList ++ rest)
    rw [text_field]
    exact no_marker _ written
  | marker =>
    exact .alt_first (.rule_token rfl (Pattern.split_text "*" rest) fun span => ⟨_, rfl, rfl⟩)
  | scalar s =>
    obtain ⟨yields, no_field⟩ := scalar_yields written ends
    refine .alt_second ?_ (.alt_second no_field yields)
    show (Phrase.rule .kwStar).Rejects (s.render.toList ++ rest)
    rw [text_scalar]
    exact no_marker _ written

/-! ### Lists with commas -/

theorem toList_intercalate (first : String) (others : List String) :
    (", ".intercalate (first :: others)).toList =
      first.toList ++ others.flatMap fun text => ',' :: ' ' :: text.toList := by
  induction others generalizing first with
  | nil => simp
  | cons second others ih =>
    have comma : ", ".toList = [',', ' '] := rfl
    rw [String.intercalate_cons_cons, String.toList_append, String.toList_append, ih, comma,
      List.flatMap_cons]
    simp

/-- Parts with commas between them read back one by one. -/
theorem commaSeparated_yields {α : Type} {item : Phrase} {text : α → String}
    {Meaning : α → Node → Prop} (first : α) (others : List α)
    (each : ∀ value ∈ first :: others, Solid (text value).toList ∧ ∀ rest, EndsToken rest →
      item.Yields ((text value).toList ++ rest) rest
        (fun nodes => ∃ node, nodes = [node] ∧ Meaning value node))
    (ends : EndsToken rest) (no_comma : (skip rest).head? ≠ some ',') :
    (Phrase.seq item (.many (.seq (.text ",") item))).Yields
      ((", ".intercalate ((first :: others).map text)).toList ++ rest) rest
      (List.Forall₂ Meaning (first :: others)) := by
  have stops : (Phrase.seq (.text ",") item).Rejects (skip rest) := .seq_first (.text rfl no_comma)
  have behind : ∀ value ∈ others, ∀ rest, EndsToken rest →
      EndsToken (',' :: ' ' :: (text value).toList ++ rest) ∧
        (Phrase.seq (.text ",") item).Yields (skip (',' :: ' ' :: (text value).toList ++ rest)) rest
          (fun nodes => ∃ node, nodes = [node] ∧ Meaning value node) := by
    intro value inside rest ends
    obtain ⟨solid, yields⟩ := each value (List.mem_cons_of_mem _ inside)
    refine ⟨endsToken_cons rfl _, ?_⟩
    rw [List.cons_append, List.cons_append, skip_cons_solid rfl]
    refine ((Phrase.Yields.text "," _).next ((skip_blank _).trans (solid.skip rest))
      (yields rest ends)).imp ?_
    rintro _ ⟨_, _, rfl, rfl, meant⟩
    exact meant
  obtain ⟨ends_first, tail⟩ := Phrase.many_resumes EndsToken behind ends stops
  rw [List.map_cons, toList_intercalate, List.append_assoc, List.flatMap_map]
  refine (((each first List.mem_cons_self).2 _ ends_first).next rfl tail.yields_skip).imp ?_
  rintro _ ⟨_, nodes, rfl, ⟨node, rfl, meant⟩, others_meant⟩
  exact .cons meant others_meant

theorem solid_parameter {p : Parameter} (written : p.Written) : Solid p.render.toList := by
  cases p with
  | field f =>
    have text := text_field f []
    rw [List.append_nil] at text
    show Solid f.render.toList
    rw [text]
    exact (IsName.solid written).append _
  | marker => exact ⟨'*', [], rfl, rfl⟩
  | scalar s =>
    have text := text_scalar s []
    rw [List.append_nil] at text
    show Solid s.render.toList
    rw [text]
    exact (IsName.solid written).append _

/-- **A signature reads back** in front of its bracket. -/
theorem params_yields {d : Definition} (written : ∀ p ∈ d.parameters, p.Written)
    (rest : List Char) :
    (Phrase.rule .params).Yields (skip ((", ".intercalate d.parameterTexts).toList ++ ')' :: rest))
      (')' :: rest)
      (fun nodes => ∃ span parts, nodes = [.mk .params span "" parts] ∧
        List.Forall₂ SpellsParameter d.parameters parts) := by
  have bracket : skip (')' :: rest) = ')' :: rest := skip_cons_solid rfl rest
  rw [parameterTexts_eq]
  cases all : d.parameters with
  | nil =>
    have no_name : (Phrase.rule .identifier).Rejects (')' :: rest) := .rule_token rfl rfl
    have no_parameter : Phrase.parameter.Rejects (')' :: rest) :=
      .alt (.rule_token rfl rfl) (.alt (.rule rfl (.seq_first no_name))
        (.rule rfl (.seq_first no_name)))
    show (Phrase.rule .params).Yields (skip (')' :: rest)) (')' :: rest) _
    rw [bracket]
    refine .rule rfl (.optional_none (.seq_first no_parameter) rfl) ?_
    rintro span _ rfl
    exact ⟨span, [], rfl, .nil⟩
  | cons first others =>
    rw [all] at written
    have each := commaSeparated_yields first others (fun p inside =>
      ⟨solid_parameter (written p inside), fun rest ends =>
        parameter_yields (written p inside) ends⟩) (endsToken_cons (c := ')') rfl rest)
      (by rw [bracket]; rintro ⟨⟩)
    have no_comma : (Phrase.optional (Phrase.text ",")).Yields (')' :: rest) (')' :: rest)
        (· = []) := .optional_none (.text rfl (by rintro ⟨⟩)) rfl
    have solid : skip ((", ".intercalate ((first :: others).map Parameter.render)).toList ++
        ')' :: rest) = (", ".intercalate ((first :: others).map Parameter.render)).toList ++
          ')' :: rest := by
      rw [List.map_cons, toList_intercalate, List.append_assoc]
      exact (solid_parameter (written first List.mem_cons_self)).skip _
    rw [solid]
    refine .rule rfl (Phrase.Yields.optional_some (.assoc (by decide +kernel) each
      (by rw [bracket]; exact no_comma) ?_)) (fun span nodes meant => ⟨span, nodes, rfl, meant⟩)
    rintro parts _ meant rfl
    rwa [List.append_nil]

/-! ### Externals and computations -/

/-- The text of the externals of a stencil. -/
def externalsText (externals : List (String × Span)) : List Char :=
  (Text.unlines (if externals.isEmpty then []
    else ["    externals " ++ ", ".intercalate (externals.map (·.1))])).toList

theorem text_externals (first : String × Span) (others : List (String × Span))
    (rest : List Char) :
    externalsText (first :: others) ++ rest = List.replicate 4 ' ' ++
      ("externals".toList ++ ' ' ::
        ((", ".intercalate ((first :: others).map (·.1))).toList ++ '\n' :: rest)) := by
  have word : "    externals ".toList = List.replicate 4 ' ' ++ ("externals".toList ++ [' ']) :=
    rfl
  simp only [externalsText, List.isEmpty_cons, Bool.false_eq_true, if_false, Text.unlines_cons,
    String.toList_append, word, List.append_assoc, List.cons_append, List.nil_append]
  rfl

/-- Externals read back in front of what is no further external. -/
theorem externals_yields {externals : List (String × Span)}
    (written : ∀ e ∈ externals, IsName e.1) (follows : ∃ c cs, skip rest = c :: cs ∧
      c ≠ 'e' ∧ c ≠ ',' ∧ c ≠ ';') :
    (Phrase.rule .externals).Yields (skip (externalsText externals ++ rest)) rest
      (fun nodes => ∃ span parts, nodes = [.mk .externals span "" parts] ∧
        List.Forall₂ (fun e node => node.text = e.1) externals parts) := by
  obtain ⟨c, cs, starts, no_more, no_comma, no_semicolon⟩ := follows
  have no_externals : (Phrase.sequence [.text "externals", .rule .identifier,
      .many (.seq (.text ",") (.rule .identifier)), .optional (.text ";")]).Rejects
        (skip rest) := by
    rw [starts]
    exact .seq_first (.text rfl fun same => no_more (Option.some.inj same))
  have none_left : (Phrase.many (Phrase.sequence [.text "externals", .rule .identifier,
      .many (.seq (.text ",") (.rule .identifier)), .optional (.text ";")])).Resumes rest rest
      (· = []) := .many_nil no_externals rfl
  cases externals with
  | nil =>
    refine .rule rfl none_left.yields_skip ?_
    rintro span _ rfl
    exact ⟨span, [], rfl, .nil⟩
  | cons first others =>
    have comma_there : (skip ('\n' :: rest)).head? ≠ some ',' := by
      rw [skip_newline, starts]
      exact fun same => no_comma (Option.some.inj same)
    have each : ∀ e ∈ first :: others, Solid e.1.toList ∧ ∀ rest, EndsToken rest →
        (Phrase.rule .identifier).Yields (e.1.toList ++ rest) rest
          (fun nodes => ∃ node, nodes = [node] ∧ node.text = e.1) := by
      intro e inside
      refine ⟨(written e inside).solid, fun rest ends =>
        (identifier_yields (written e inside) ends).imp ?_⟩
      rintro _ ⟨span, rfl⟩
      exact ⟨_, rfl, rfl⟩
    have names := commaSeparated_yields first others each (endsToken_cons (c := '\n') rfl rest)
      comma_there
    have rejects : (Phrase.text ";").Rejects (skip ('\n' :: rest)) := by
      rw [skip_newline, starts]
      exact .text rfl fun same => no_semicolon (Option.some.inj same)
    have semicolon : (Phrase.optional (Phrase.text ";")).Yields (skip ('\n' :: rest))
        (skip ('\n' :: rest)) (· = []) := .optional_none rejects rfl
    have solid : skip ((", ".intercalate ((first :: others).map (·.1))).toList ++ '\n' :: rest) =
        (", ".intercalate ((first :: others).map (·.1))).toList ++ '\n' :: rest := by
      rw [List.map_cons, toList_intercalate, List.append_assoc]
      exact (written first List.mem_cons_self).solid.skip _
    have after : skip (skip ('\n' :: rest)) = skip rest := by rw [skip_skip, skip_newline]
    have list : (Phrase.sequence [.rule .identifier, .many (.seq (.text ",") (.rule .identifier)),
        .optional (.text ";")]).Yields
        ((", ".intercalate ((first :: others).map (·.1))).toList ++ '\n' :: rest) rest
        (List.Forall₂ (fun e node => node.text = e.1) (first :: others)) := by
      refine .assoc (by decide +kernel) names (semicolon.congr after) ?_
      rintro left _ meant rfl
      rwa [List.append_nil]
    have skipped : ∀ more, skip ("externals".toList ++ more) = "externals".toList ++ more :=
      fun more => skip_cons_solid rfl _
    have all := Phrase.Resumes.many_next (by
      rw [skipped]
      exact (Phrase.Yields.text "externals" _).next ((skip_blank _).trans solid) list) none_left
    rw [text_externals, skip_blanks]
    refine .rule rfl all.yields_skip ?_
    rintro span _ ⟨_, _, rfl, ⟨_, nodes, rfl, rfl, meant⟩, rfl⟩
    exact ⟨span, _, rfl, by rwa [List.append_nil, List.nil_append]⟩

/-- Whether no two statements of a definition collide. -/
def Apart (d : Definition) : Prop :=
  ∀ c ∈ d.computations, ∀ s ∈ c.sections, Statement.ListApart s.body

/-- Computations read back in front of the bracket of their stencil. -/
theorem computations_yields {computations : List Computation}
    (written : ∀ c ∈ computations, c.Written)
    (floats : ∀ x ∈ computations.flatMap Computation.floats, Number.ReadsBack x)
    (apart : ∀ c ∈ computations, ∀ s ∈ c.sections, Statement.ListApart s.body)
    (rest : List Char) :
    (Phrase.rule .computations).Yields
      (skip (computations.flatMap computationText ++ '\x7d' :: rest)) ('\x7d' :: rest)
      (fun nodes => ∃ span parts, nodes = [.mk .computations span "" parts] ∧
        List.Forall₂ (ReadsAs readComputation Computation.withoutSpans) computations parts) := by
  have no_computation : (Phrase.rule .computation).Rejects (skip ('\x7d' :: rest)) := by
    rw [skip_cons_solid rfl]
    exact .rule rfl (.seq_first (.text rfl (by rintro ⟨⟩)))
  obtain ⟨-, all⟩ := Phrase.many_resumes (fun _ => True) (fun c inside rest _ =>
    ⟨trivial, computation_yields (written c inside) (fun x there => floats x
      (List.mem_flatMap.mpr ⟨c, inside, there⟩)) (apart c inside) rest⟩) trivial no_computation
  exact .rule rfl all.yields_skip fun span nodes meant => ⟨span, nodes, rfl, meant⟩

/-! ### Stencils and files -/

theorem withoutSpans_eq (d : Definition) : d.withoutSpans =
    ⟨⟨"", ""⟩, d.name, d.fields.map FieldParameter.withoutSpan,
      d.scalars.map ScalarParameter.withoutSpan, d.externals.map fun e => (e.1, noSpan),
      d.computations.map Computation.withoutSpans, noSpan⟩ := rfl

theorem names_of_spells {externals : List (String × Span)} {nodes : List Node}
    (spells : List.Forall₂ (fun e node => node.text = e.1) externals nodes) :
    nodes.map (fun node => (node.text, noSpan)) = externals.map fun e => (e.1, noSpan) := by
  induction spells with
  | nil => rfl
  | cons same _ ih => rw [List.map_cons, List.map_cons, same, ih]

/-- Whether a node reads as a stencil, up to spans and its source. -/
def SpellsStencil (d : Definition) (node : Node) : Prop :=
  node.rule = .stencilDef ∧ ∀ source, ∃ found,
    readStencil source node = .ok found ∧ found.withoutSpans = d.withoutSpans

theorem text_stencil (d : Definition) : d.render.toList =
    "stencil".toList ++ ' ' :: (d.name.toList ++ '(' ::
      ((", ".intercalate d.parameterTexts).toList ++ ')' :: ' ' :: '\x7b' :: '\n' ::
        (externalsText d.externals ++ (d.computations.flatMap computationText ++
          '\x7d' :: ['\n'])))) := by
  have words : "stencil ".toList = "stencil".toList ++ [' '] ∧ "(".toList = ['('] ∧
      ") \x7b".toList = [')', ' ', '\x7b'] ∧ "\x7d".toList = ['\x7d'] := ⟨rfl, rfl, rfl, rfl⟩
  simp only [render, lines, List.cons_append, Text.unlines_cons, Text.unlines_append,
    String.toList_append, words, unlines_flatMap, externalsText, List.append_assoc,
    List.nil_append]
  rfl

/-- What stands behind the externals is no further external. -/
theorem starts_computations (computations : List Computation) (rest : List Char) :
    ∃ c cs, skip (computations.flatMap computationText ++ '\x7d' :: rest) = c :: cs ∧
      c ≠ 'e' ∧ c ≠ ',' ∧ c ≠ ';' := by
  cases computations with
  | nil => exact ⟨'\x7d', rest, skip_cons_solid rfl rest, by decide, by decide, by decide⟩
  | cons c others =>
    rw [List.flatMap_cons, List.append_assoc, text_computation, skip_blanks]
    exact ⟨'w', _, skip_cons_solid rfl _, by decide, by decide, by decide⟩

/-- **A stencil reads back from its canonical text** if no two of its statements collide. -/
theorem stencil_yields {d : Definition} (written : d.Written)
    (floats : ∀ x ∈ d.floats, Number.ReadsBack x) (apart : d.Apart) :
    (Phrase.rule .stencilDef).Yields d.render.toList []
      (fun nodes => ∃ node, nodes = [node] ∧ SpellsStencil d node) := by
  rw [text_stencil]
  refine .rule rfl ((Phrase.Yields.text "stencil" _).next
      ((skip_blank _).trans (written.name.solid.skip _)) <|
    (identifier_yields written.name (endsToken_cons rfl _)).next (skip_cons_solid rfl _) <|
    (Phrase.Yields.text "(" _).next rfl <|
    (params_yields (parameters_written written) _).next (skip_cons_solid rfl _) <|
    (Phrase.Yields.text ")" _).next ((skip_blank _).trans (skip_cons_solid rfl _)) <|
    (Phrase.Yields.text "\x7b" _).next (skip_newline _) <|
    (externals_yields written.externals (starts_computations _ _)).next rfl <|
    (computations_yields written.computations floats apart _).next (skip_cons_solid rfl _) <|
    (Phrase.Yields.text "\x7d" ['\n']).congr rfl) ?_
  rintro at_span _ ⟨_, _, rfl, rfl, _, _, rfl, ⟨name_span, rfl⟩, _, _, rfl, rfl, _, _, rfl,
    ⟨params_span, params, rfl, params_spell⟩, _, _, rfl, rfl, _, _, rfl, rfl, _, _, rfl,
    ⟨externals_span, externals, rfl, externals_spell⟩, _, _, rfl,
    ⟨computations_span, computations, rfl, computations_spell⟩, rfl⟩
  refine ⟨_, rfl, rfl, fun source => ?_⟩
  obtain ⟨signature, signature_read, same_fields, same_scalars⟩ :=
    readParameters_of_spells params_spell
  obtain ⟨found, read, same⟩ := mapM_of_readsAs computations_spell
  refine ⟨⟨source, d.name, signature.fields, signature.scalars,
    externals.map fun part => (part.text, part.span), found, at_span⟩, ?_, ?_⟩
  · simp only [List.cons_append, List.nil_append, List.append_nil, readStencil, Node.parts,
      Node.text, signature_read, read]
    rfl
  · have same_externals : (externals.map fun part => (part.text, part.span)).map
        (fun e => (e.1, noSpan)) = d.externals.map fun e => (e.1, noSpan) := by
      rw [List.map_map]
      exact names_of_spells externals_spell
    rw [withoutSpans_eq, withoutSpans_eq]
    dsimp only
    rw [same_fields, same_scalars, same_externals, same]

/-- A text that is that of a single stencil is the text of a file. -/
theorem file_yields {d : Definition} {input : List Char} (solid : skip input = input)
    (stencil : (Phrase.rule .stencilDef).Yields input []
      (fun nodes => ∃ node, nodes = [node] ∧ SpellsStencil d node)) :
    (Phrase.rule .file).Yields input []
      (fun nodes => ∃ span node last, nodes = [.mk .file span "" [node, last]] ∧
        SpellsStencil d node ∧ last.rule = .endOfInput) := by
  have no_stencil : (Phrase.rule .stencilDef).Rejects (skip []) :=
    .rule rfl (.seq_first (.text rfl (by rintro ⟨⟩)))
  have none_left : (Phrase.many (Phrase.rule .stencilDef)).Resumes [] [] (· = []) :=
    .many_nil no_stencil rfl
  have all := Phrase.Resumes.many_next (solid.symm ▸ stencil) none_left
  have split : Pattern.endOfInput.split [] = some ([], []) := rfl
  have last : (Phrase.rule .endOfInput).Yields [] []
      (fun nodes => ∃ node, nodes = [node] ∧ node.rule = .endOfInput) :=
    .rule_token rfl split fun span => ⟨_, rfl, rfl⟩
  have nothing : Phrase.empty.Yields input input (· = []) := .empty rfl
  refine .rule rfl (nothing.next solid (all.yields.next rfl last)) ?_
  rintro span _ ⟨_, _, rfl, rfl, _, _, rfl, ⟨_, _, rfl, ⟨node, rfl, spells⟩, rfl⟩, last, rfl,
    isLast⟩
  exact ⟨span, node, last, rfl, spells, isLast⟩

/-- **The canonical text of a definition reads back to that definition alone**, up to spans and the
source, if it can be written and no two of its statements collide. -/
theorem readAll_render {d : Definition} (written : d.Written)
    (floats : ∀ x ∈ d.floats, Number.ReadsBack x) (apart : d.Apart) (name : String) :
    ∃ again, readAll ⟨name, d.render⟩ = .ok [again] ∧ again.withoutSpans = d.withoutSpans := by
  have solid : skip d.render.toList = d.render.toList := by
    rw [text_stencil]
    exact skip_cons_solid rfl _
  obtain ⟨found, gives, -, span, node, last, same, ⟨isStencil, reads⟩, isLast⟩ :=
    file_yields solid (stencil_yields written floats apart) (.ofText d.render) rfl
  obtain ⟨again, read, forgotten⟩ := reads ⟨name, d.render⟩
  refine ⟨again, ?_, forgotten⟩
  have root : readTree d.render = .ok (.mk .file span "" [node, last]) := by
    refine readTree_ok_iff.mpr ⟨found.cursor, ?_⟩
    rw [← same]
    exact gives
  have stencils : [node, last].filter (·.rule = .stencilDef) = [node] := by
    simp [isStencil, isLast]
  unfold readAll
  rw [root]
  simp only [Node.parts, stencils, List.mapM_cons, List.mapM_nil, read]
  rfl

end Definition

end GridStencil
