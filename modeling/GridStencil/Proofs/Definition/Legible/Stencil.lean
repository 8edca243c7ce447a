import GridStencil.Proofs.Definition.Legible.Body
import GridStencil.Proofs.Definition.Stencil

/-!
**Definitions can be told from their canonical texts.**

The lines of a stencil are told one after the other: a computation by the word behind its blanks,
the bracket that closes it by standing further left, and the parameters of the signature by the
comma or the bracket behind each of them. Whether a parameter is a field shows in its type, as no
type starts like the word for fields.

* `legible_definition`: definitions with the same canonical text are the same up to spans and their
  sources.
-/

namespace GridStencil.Definition

open Grammar

variable {rest rest' : List Char}

/-! ### Lists -/

/-- The parts of a list are told one by one, if what stands behind the list is not taken for one
more of them. -/
theorem flatMap_unique {α β : Type} {text : α → List Char} {key : α → β} {Written : α → Prop}
    {Ends : List Char → Prop} (Last : List Char → Prop) (ends : ∀ {rest}, Last rest → Ends rest)
    (goes_on : ∀ a rest, Ends (text a ++ rest))
    (stops : ∀ a {rest}, Last rest → ∀ more, rest ≠ text a ++ more) {values values' : List α}
    (legible : ∀ a ∈ values, Legible text key Written Ends a) (written : ∀ a ∈ values', Written a)
    (last : Last rest) (last' : Last rest')
    (same : values.flatMap text ++ rest = values'.flatMap text ++ rest') :
    values.map key = values'.map key ∧ rest = rest' := by
  have behind : ∀ (values : List α) {rest}, Last rest → Ends (values.flatMap text ++ rest) := by
    intro values rest last
    cases values with
    | nil => exact ends last
    | cons a values =>
      rw [List.flatMap_cons, List.append_assoc]
      exact goes_on a _
  induction values generalizing values' with
  | nil =>
    cases values' with
    | nil => exact ⟨rfl, same⟩
    | cons b values' =>
      rw [List.flatMap_cons, List.append_assoc] at same
      exact absurd same (stops b last _)
  | cons a values ih =>
    cases values' with
    | nil =>
      rw [List.flatMap_cons, List.append_assoc] at same
      exact absurd same.symm (stops a last' _)
    | cons b values' =>
      rw [List.flatMap_cons, List.flatMap_cons, List.append_assoc, List.append_assoc] at same
      obtain ⟨firsts, others⟩ := legible a List.mem_cons_self (written b List.mem_cons_self)
        (behind values last) (behind values' last') same
      obtain ⟨keys, left⟩ := ih (fun a inside => legible a (List.mem_cons_of_mem _ inside))
        (fun b inside => written b (List.mem_cons_of_mem _ inside)) others
      exact ⟨by rw [List.map_cons, List.map_cons, firsts, keys], left⟩

/-- Whether a comma follows, or the character that ends a list. -/
def EndsItem (closing : Char) (rest : List Char) : Prop :=
  ∃ c more, rest = c :: more ∧ (c = ',' ∨ c = closing)

/-- Parts with commas between them are told one by one. -/
theorem intercalate_unique {α β : Type} {text : α → String} {key : α → β} {Written : α → Prop}
    {closing : Char} (no_comma : closing ≠ ',')
    (starts : ∀ a, Written a → ∀ rest more, (text a).toList ++ rest ≠ closing :: more)
    {values values' : List α} (written : ∀ a ∈ values, Written a)
    (written' : ∀ a ∈ values', Written a)
    (legible : ∀ a ∈ values,
      Legible (fun a => (text a).toList) key Written (EndsItem closing) a)
    (same : (", ".intercalate (values.map text)).toList ++ closing :: rest =
      (", ".intercalate (values'.map text)).toList ++ closing :: rest') :
    values.map key = values'.map key ∧ rest = rest' := by
  have list : ∀ (a : α) (others : List α) (rest : List Char),
      (", ".intercalate ((a :: others).map text)).toList ++ rest =
        (text a).toList ++ (others.flatMap (fun a => ',' :: ' ' :: (text a).toList) ++ rest) := by
    intro a others rest
    rw [List.map_cons, toList_intercalate, List.append_assoc, List.flatMap_map]
  have comma : ∀ more, EndsItem closing (',' :: more) := fun more => ⟨',', more, rfl, .inl rfl⟩
  have last : ∀ more, EndsItem closing (closing :: more) :=
    fun more => ⟨closing, more, rfl, .inr rfl⟩
  cases values with
  | nil =>
    cases values' with
    | nil => exact ⟨rfl, (List.cons.inj same).2⟩
    | cons b others' =>
      rw [list] at same
      exact absurd same.symm (starts b (written' b List.mem_cons_self) _ _)
  | cons a others =>
    cases values' with
    | nil =>
      rw [list] at same
      exact absurd same (starts a (written a List.mem_cons_self) _ _)
    | cons b others' =>
      have item : ∀ a ∈ others, Legible (fun a => ',' :: ' ' :: (text a).toList) key Written
          (EndsItem closing) a := fun a inside b rest rest' written ends ends' same =>
        legible a (List.mem_cons_of_mem _ inside) written ends ends'
          (behind_word [',', ' '] same)
      have ends : ∀ (others : List α) (more : List Char), EndsItem closing
          (others.flatMap (fun a => ',' :: ' ' :: (text a).toList) ++ closing :: more) := by
        intro others more
        cases others with
        | nil => exact last more
        | cons a others => exact comma _
      rw [list, list] at same
      obtain ⟨firsts, behind⟩ := legible a List.mem_cons_self (written' b List.mem_cons_self)
        (ends others rest) (ends others' rest') same
      obtain ⟨keys, left⟩ := flatMap_unique (fun rest => ∃ more, rest = closing :: more)
        (fun ⟨more, closed⟩ => closed ▸ last more) (fun a rest => comma _)
        (fun a rest ⟨more, closed⟩ behind same =>
          no_comma (List.cons.inj (closed.symm.trans same)).1) item
        (fun b inside => written' b (List.mem_cons_of_mem _ inside)) ⟨rest, rfl⟩ ⟨rest', rfl⟩ behind
      exact ⟨by rw [List.map_cons, List.map_cons, firsts, keys], (List.cons.inj left).2⟩

/-! ### Intervals -/

theorem int_starts (n : Int) (rest : List Char) :
    ∃ c cs, (toString n).toList ++ rest = c :: cs ∧ Pattern.isNameStart c = false := by
  have digits : ∀ m : Nat, ∃ c cs, (toString m).toList = c :: cs ∧
      Pattern.isNameStart c = false := by
    intro m
    cases chars : (toString m).toList with
    | nil => exact absurd chars (Number.toList_toString_ne_nil m)
    | cons c cs =>
      refine ⟨c, cs, rfl, Bool.eq_false_iff.mpr fun start => ?_⟩
      have digit := List.all_eq_true.mp (Number.all_isDigit_toString m) c
        (chars ▸ List.mem_cons_self)
      rw [(not_isDigit_of_isNameStart start).1] at digit
      cases digit
  cases n with
  | ofNat m =>
    obtain ⟨c, cs, chars, outside⟩ := digits m
    exact ⟨c, cs ++ rest, by rw [Number.toString_ofNat, chars]; rfl, outside⟩
  | negSucc m => exact ⟨'-', _, by rw [Number.toString_negSucc]; rfl, rfl⟩

/-- The word for a bound that is no integer. -/
def boundWord? : Bound → Option String
  | .int _ => none
  | .top => some "None"
  | .external name _ => some name

/-- A bound that is no integer is a word, and starts like one. -/
theorem word_of_bound {b : Bound} {w : String} (written : b.Written)
    (word : boundWord? b = some w) : b.render = w ∧
      (∀ c ∈ w.toList, Pattern.isNameChar c = true) ∧
      ∃ c cs, w.toList = c :: cs ∧ Pattern.isNameStart c = true := by
  cases b with
  | int n => cases word
  | top =>
    cases word
    exact ⟨rfl, List.all_eq_true.mp rfl, 'N', _, rfl, by decide⟩
  | external name span =>
    cases word
    exact ⟨rfl, written.1.all, written.1.head⟩

/-- The word of a bound says which bound it is, as no external is called like the top. -/
theorem bound_of_word {b b' : Bound} {w : String} (written : b.Written) (written' : b'.Written)
    (word : boundWord? b = some w) (word' : boundWord? b' = some w) :
    b.withoutSpans = b'.withoutSpans := by
  have no_top : ∀ {span}, ¬ (Bound.external "None" span).Written :=
    fun written => written.2 (List.prefix_refl _)
  cases b with
  | int n => cases word
  | top =>
    cases word
    cases b' with
    | int n => cases word'
    | top => rfl
    | external name span =>
      cases word'
      exact absurd written' no_top
  | external name span =>
    cases word
    cases b' with
    | int n => cases word'
    | top =>
      cases word'
      exact absurd written no_top
    | external name' span' =>
      cases word'
      rfl

theorem legible_bound {b : Bound} (written : b.Written) :
    Legible (fun b => b.render.toList) Bound.withoutSpans Bound.Written EndsToken b := by
  intro b' rest rest' written' ends ends' same
  have endsWord : ∀ {rest}, EndsToken rest → EndsWord rest :=
    fun ends c head => not_isNameChar_of_endsToken (ends c head)
  -- No integer starts like a word.
  have no_word : ∀ {n : Int} {w : String} {rest rest' : List Char},
      (∃ c cs, w.toList = c :: cs ∧ Pattern.isNameStart c = true) →
      (toString n).toList ++ rest ≠ w.toList ++ rest' := by
    rintro n w rest rest' ⟨c, cs, chars, start⟩ same
    obtain ⟨d, ds, starts, outside⟩ := int_starts n rest
    rw [starts, chars] at same
    rw [(List.cons.inj same).1, start] at outside
    cases outside
  dsimp only at same
  cases word : boundWord? b with
  | none =>
    cases b with
    | int n =>
      cases word' : boundWord? b' with
      | none =>
        cases b' with
        | int n' =>
          obtain ⟨rfl, others⟩ := int_unique ends ends' same
          exact ⟨rfl, others⟩
        | top => cases word'
        | external name span => cases word'
      | some w' =>
        obtain ⟨text, -, starts⟩ := word_of_bound written' word'
        rw [text] at same
        exact absurd same (no_word starts)
    | top => cases word
    | external name span => cases word
  | some w =>
    obtain ⟨text, all, starts⟩ := word_of_bound written word
    rw [text] at same
    cases word' : boundWord? b' with
    | none =>
      cases b' with
      | int n' => exact absurd same.symm (no_word starts)
      | top => cases word'
      | external name span => cases word'
    | some w' =>
      obtain ⟨text', all', -⟩ := word_of_bound written' word'
      rw [text'] at same
      obtain ⟨rfl, others⟩ := word_unique all all' (endsWord ends) (endsWord ends') same
      exact ⟨bound_of_word written written' word word', others⟩

/-- The planes of an interval are told in front of the bracket. -/
theorem legible_range {r : Range} (written : r.Written) :
    Legible (fun r => r.render.toList) Range.withoutSpans Range.Written
      (fun rest => ∃ more, rest = ')' :: more) r := by
  rintro r' _ _ written' ⟨more, rfl⟩ ⟨more', rfl⟩ same
  have comma : ∀ more, EndsToken (',' :: more) := endsToken_cons rfl
  have bracket : ∀ more, EndsToken (')' :: more) := endsToken_cons rfl
  have no_point : ∀ {lower upper : Bound}, lower.Written → ∀ {rest rest' : List Char},
      (Range.between lower upper).render.toList ++ rest ≠ '.' :: rest' := by
    intro lower upper written rest rest' same
    obtain ⟨c, cs, starts, -⟩ := solid_bound written
    rw [text_between, starts] at same
    obtain rfl : c = '.' := (List.cons.inj same).1
    exact point_not_mem_bound written (by simp [starts])
  cases r with
  | full =>
    cases r' with
    | full => exact ⟨rfl, List.append_cancel_left same⟩
    | between lower upper => exact absurd same.symm (no_point written'.1)
  | between lower upper =>
    cases r' with
    | full => exact absurd same (no_point written.1)
    | between lower' upper' =>
      dsimp only at same
      rw [text_between, text_between] at same
      obtain ⟨lowers, behind⟩ := legible_bound written.1 written'.1 (comma _) (comma _) same
      obtain ⟨uppers, others⟩ := legible_bound written.2 written'.2 (bracket _) (bracket _)
        (behind_word [',', ' '] behind)
      exact ⟨by simp only [Range.withoutSpans, lowers, uppers], others⟩

/-! ### Sections and computations -/

/-- Whether a section can be written with all its doubles in digits. -/
def Section.Clear (s : Section) : Prop := s.range.Written ∧ Statement.ListClear s.body

/-- Whether a computation can be written with all its doubles in digits. -/
def Computation.Clear (c : Computation) : Prop := IsName c.policy ∧ ∀ s ∈ c.sections, s.Clear

theorem legible_section {s : Section} (clear : s.Clear) :
    Legible sectionText Section.withoutSpans Section.Clear (fun _ => True) s := by
  intro s' rest rest' clear' _ _ same
  have closing : ∀ more, EndsBlock 12 (List.replicate 8 ' ' ++ '\x7d' :: more) :=
    fun more => ⟨8, more, by decide, rfl⟩
  rw [text_section, text_section] at same
  have word := behind_word ("interval".toList ++ ['(']) (List.append_cancel_left same)
  obtain ⟨ranges, behind⟩ := legible_range clear.1 clear'.1 ⟨_, rfl⟩ ⟨_, rfl⟩ word
  obtain ⟨bodies, last⟩ := legible_body 12 s.body clear.2 clear'.2 (closing _) (closing _)
    (behind_word [')', ' ', '\x7b', '\n'] behind)
  refine ⟨?_, behind_word ['\x7d', '\n'] (List.append_cancel_left last)⟩
  simp only [Section.withoutSpans, ranges, bodies]

theorem legible_computation {c : Computation} (clear : c.Clear) :
    Legible computationText Computation.withoutSpans Computation.Clear (fun _ => True) c := by
  intro c' rest rest' clear' _ _ same
  have stops : ∀ (s : Section) {rest : List Char},
      (∃ more, rest = List.replicate 4 ' ' ++ '\x7d' :: '\n' :: more) →
      ∀ more, rest ≠ sectionText s ++ more := by
    rintro s _ ⟨more, rfl⟩ behind same
    rw [text_section] at same
    have widths := (blanks_unique (by decide) (by decide) same).1
    cases widths
  rw [text_computation, text_computation] at same
  have word := behind_word ("with".toList ++ ' ' :: ("computation".toList ++ ['(']))
    (List.append_cancel_left same)
  obtain ⟨policies, behind⟩ := word_unique clear.1.all clear'.1.all (endsWord_cons rfl _)
    (endsWord_cons rfl _) word
  obtain ⟨sections, last⟩ := flatMap_unique
    (fun rest => ∃ more, rest = List.replicate 4 ' ' ++ '\x7d' :: '\n' :: more)
    (fun _ => trivial) (fun _ _ => trivial) stops (fun s inside => legible_section (clear.2 s inside))
    clear'.2 ⟨_, rfl⟩ ⟨_, rfl⟩ (behind_word [')', ' ', '\x7b', '\n'] behind)
  refine ⟨?_, behind_word ['\x7d', '\n'] (List.append_cancel_left last)⟩
  simp only [Computation.withoutSpans, policies, sections]

/-! ### Signatures -/

/-- A part of a signature with its span forgotten. -/
def Parameter.withoutSpan : Parameter → Parameter
  | field f => field f.withoutSpan
  | marker => marker
  | scalar s => scalar s.withoutSpan

/-- A name does not start with another sign. -/
theorem name_ne {name : String} (is_name : IsName name) {c : Char}
    (outside : Pattern.isNameStart c = false) (rest more : List Char) :
    name.toList ++ rest ≠ c :: more := by
  intro same
  obtain ⟨d, ds, chars, start⟩ := is_name.head
  rw [chars] at same
  rw [(List.cons.inj same).1, outside] at start
  cases start

theorem type_unique {type type' : ElementType} (ends : EndsWord rest) (ends' : EndsWord rest')
    (same : type.name.toList ++ rest = type'.name.toList ++ rest') :
    type = type' ∧ rest = rest' := by
  have all : ∀ type : ElementType, ∀ c ∈ type.name.toList, Pattern.isNameChar c = true := by
    intro type
    cases type <;> exact List.all_eq_true.mp rfl
  obtain ⟨names, others⟩ := word_unique (all type) (all type') ends ends' same
  have read := ElementType.named?_name type
  rw [names, ElementType.named?_name type'] at read
  exact ⟨(Option.some.inj read).symm, others⟩

theorem dimensions_unique {dimensions dimensions' : Dimensions}
    (same : dimensionsText dimensions ++ rest = dimensionsText dimensions' ++ rest') :
    dimensions = dimensions' ∧ rest = rest' := by
  have head := congrArg List.head? same
  cases dimensions <;> cases dimensions'
  · exact ⟨rfl, List.append_cancel_left same⟩
  · cases head
  · cases head
  · exact ⟨rfl, List.append_cancel_left same⟩

/-- A parameter is told in front of a comma or the bracket. -/
theorem legible_parameter {p : Parameter} (written : p.Written) :
    Legible (fun p => p.render.toList) Parameter.withoutSpan Parameter.Written (EndsItem ')') p := by
  intro p' rest rest' written' ends ends' same
  have endsWord : ∀ {rest}, EndsItem ')' rest → EndsWord rest := by
    rintro _ ⟨c, more, rfl, rfl | rfl⟩ <;> exact endsWord_cons rfl more
  have endsDimensions : ∀ (dimensions : Dimensions) (rest : List Char),
      EndsWord (dimensionsText dimensions ++ rest) := by
    intro dimensions rest
    cases dimensions <;> exact endsWord_cons rfl _
  have colon : ∀ more, EndsWord (':' :: more) := endsWord_cons rfl
  have no_field : ∀ (type : ElementType) (rest more : List Char),
      type.name.toList ++ rest ≠ 'F' :: more := by
    intro type rest more same
    obtain ⟨c, cs, starts, -, other⟩ := solid_typeName type
    rw [starts] at same
    exact other (List.cons.inj same).1
  have no_marker : ∀ {name : String}, IsName name → ∀ rest more : List Char,
      name.toList ++ rest ≠ '*' :: more := fun is_name => name_ne is_name (by decide)
  cases p with
  | field f =>
    have text := text_field f rest
    cases p' with
    | field f' =>
      have first := text.symm.trans (same.trans (text_field f' rest'))
      obtain ⟨names, behind⟩ := word_unique (IsName.all written) (IsName.all written') (colon _)
        (colon _) first
      obtain ⟨types, sizes⟩ := type_unique (endsDimensions _ _) (endsDimensions _ _)
        (behind_word ([':', ' '] ++ ("Field".toList ++ ['['])) behind)
      obtain ⟨dimensions, others⟩ := dimensions_unique sizes
      refine ⟨?_, others⟩
      simp only [Parameter.withoutSpan, FieldParameter.withoutSpan, names, types, dimensions]
    | marker => exact absurd (text.symm.trans same) (no_marker written _ _)
    | scalar s' =>
      have first := text.symm.trans (same.trans (text_scalar s' rest'))
      obtain ⟨-, behind⟩ := word_unique (IsName.all written) (IsName.all written') (colon _)
        (colon _) first
      exact absurd (behind_word [':', ' '] behind).symm (no_field _ _ _)
  | marker =>
    cases p' with
    | field f' => exact absurd (same.trans (text_field f' rest')).symm (no_marker written' _ _)
    | marker => exact ⟨rfl, (List.cons.inj same).2⟩
    | scalar s' => exact absurd (same.trans (text_scalar s' rest')).symm (no_marker written' _ _)
  | scalar s =>
    have text := text_scalar s rest
    cases p' with
    | field f' =>
      have first := text.symm.trans (same.trans (text_field f' rest'))
      obtain ⟨-, behind⟩ := word_unique (IsName.all written) (IsName.all written') (colon _)
        (colon _) first
      exact absurd (behind_word [':', ' '] behind) (no_field _ _ _)
    | marker => exact absurd (text.symm.trans same) (no_marker written _ _)
    | scalar s' =>
      have first := text.symm.trans (same.trans (text_scalar s' rest'))
      obtain ⟨names, behind⟩ := word_unique (IsName.all written) (IsName.all written') (colon _)
        (colon _) first
      obtain ⟨types, others⟩ := type_unique (endsWord ends) (endsWord ends')
        (behind_word [':', ' '] behind)
      refine ⟨?_, others⟩
      simp only [Parameter.withoutSpan, ScalarParameter.withoutSpan, names, types]

/-- The field that a part of a signature is. -/
def Parameter.field? : Parameter → Option FieldParameter
  | field f => some f
  | marker | scalar _ => none

/-- The scalar that a part of a signature is. -/
def Parameter.scalar? : Parameter → Option ScalarParameter
  | scalar s => some s
  | field _ | marker => none

/-- The parts of a signature say which fields and scalars it has. -/
theorem fields_scalars_of_parameters (d : Definition) :
    (d.parameters.map Parameter.withoutSpan).filterMap Parameter.field? =
        d.fields.map FieldParameter.withoutSpan ∧
      (d.parameters.map Parameter.withoutSpan).filterMap Parameter.scalar? =
        d.scalars.map ScalarParameter.withoutSpan := by
  have fields_only : ∀ fields : List FieldParameter,
      ((fields.map Parameter.field).map Parameter.withoutSpan).filterMap Parameter.field? =
          fields.map FieldParameter.withoutSpan ∧
        ((fields.map Parameter.field).map Parameter.withoutSpan).filterMap Parameter.scalar? =
          [] := by
    intro fields
    induction fields with
    | nil => exact ⟨rfl, rfl⟩
    | cons f fields ih => exact ⟨congrArg (f.withoutSpan :: ·) ih.1, ih.2⟩
  have scalars_only : ∀ scalars : List ScalarParameter,
      ((scalars.map Parameter.scalar).map Parameter.withoutSpan).filterMap Parameter.field? = [] ∧
        ((scalars.map Parameter.scalar).map Parameter.withoutSpan).filterMap Parameter.scalar? =
          scalars.map ScalarParameter.withoutSpan := by
    intro scalars
    induction scalars with
    | nil => exact ⟨rfl, rfl⟩
    | cons s scalars ih => exact ⟨ih.1, congrArg (s.withoutSpan :: ·) ih.2⟩
  unfold parameters
  rw [List.map_append, List.filterMap_append, List.filterMap_append, (fields_only _).1,
    (fields_only _).2]
  cases none_there : d.scalars with
  | nil => exact ⟨List.append_nil _, rfl⟩
  | cons s scalars =>
    have behind := scalars_only (s :: scalars)
    exact ⟨(congrArg _ behind.1).trans (List.append_nil _), behind.2⟩

/-! ### Externals -/

/-- Whether what follows is no line of externals. -/
def EndsExternals (rest : List Char) : Prop :=
  ∀ more, rest ≠ List.replicate 4 ' ' ++ 'e' :: more

theorem endsExternals_computations (computations : List Computation) (rest : List Char) :
    EndsExternals (computations.flatMap computationText ++ '\x7d' :: rest) := by
  intro more same
  cases computations with
  | nil => cases same
  | cons c others =>
    rw [List.flatMap_cons, List.append_assoc, text_computation] at same
    have letters := (blanks_unique (c := 'w') (by decide) (by decide) same).2.1
    exact absurd letters (by decide)

/-- The externals are told in front of what is no line of them. -/
theorem externals_unique {externals externals' : List (String × Span)}
    (written : ∀ e ∈ externals, IsName e.1) (written' : ∀ e ∈ externals', IsName e.1)
    (ends : EndsExternals rest) (ends' : EndsExternals rest')
    (same : externalsText externals ++ rest = externalsText externals' ++ rest') :
    externals.map (fun e => (e.1, noSpan)) = externals'.map (fun e => (e.1, noSpan)) ∧
      rest = rest' := by
  have endsWord : ∀ {rest}, EndsItem '\n' rest → EndsWord rest := by
    rintro _ ⟨c, more, rfl, rfl | rfl⟩ <;> exact endsWord_cons rfl more
  have legible : ∀ e ∈ externals, Legible (fun e : String × Span => e.1.toList)
      (fun e => (e.1, noSpan)) (fun e => IsName e.1) (EndsItem '\n') e := by
    intro e inside e' rest rest' written' ends ends' same
    obtain ⟨names, others⟩ := word_unique (written e inside).all (IsName.all written')
      (endsWord ends) (endsWord ends') same
    exact ⟨congrArg (·, noSpan) names, others⟩
  have starts : ∀ e : String × Span, IsName e.1 → ∀ rest more : List Char,
      e.1.toList ++ rest ≠ '\n' :: more := fun _ is_name => name_ne is_name (by decide)
  cases externals with
  | nil =>
    cases externals' with
    | nil => exact ⟨rfl, same⟩
    | cons e' others' =>
      rw [text_externals] at same
      exact absurd same (ends _)
  | cons e others =>
    cases externals' with
    | nil =>
      rw [text_externals] at same
      exact absurd same.symm (ends' _)
    | cons e' others' =>
      rw [text_externals, text_externals] at same
      exact intercalate_unique (by decide) starts written written' legible
        (behind_word ("externals".toList ++ [' ']) (List.append_cancel_left same))

/-! ### Definitions -/

/-- Whether all doubles of a definition are written in digits. -/
def Clear (d : Definition) : Prop := d.Written ∧ ∀ x ∈ d.floats, Number.InDigits x

theorem Clear.computations {d : Definition} (clear : d.Clear) : ∀ c ∈ d.computations, c.Clear := by
  intro c inside
  obtain ⟨is_name, sections⟩ := clear.1.computations c inside
  refine ⟨is_name, fun s member => ⟨(sections s member).1, (sections s member).2, fun x there => ?_⟩⟩
  exact clear.2 x (List.mem_flatMap.mpr ⟨c, inside, List.mem_flatMap.mpr ⟨s, member, there⟩⟩)

/-- **Definitions with the same canonical text are the same**, up to spans and their sources, if
they can be written with all their doubles in digits. -/
theorem legible_definition {d d' : Definition} (clear : d.Clear) (clear' : d'.Clear)
    (same : d.render = d'.render) : d.withoutSpans = d'.withoutSpans := by
  have starts : ∀ p : Parameter, p.Written → ∀ rest more : List Char,
      p.render.toList ++ rest ≠ ')' :: more := by
    intro p written rest more same
    cases p with
    | field f => exact name_ne written (by decide) _ _ ((text_field f rest).symm.trans same)
    | marker => cases same
    | scalar s => exact name_ne written (by decide) _ _ ((text_scalar s rest).symm.trans same)
  have stops : ∀ (c : Computation) {rest : List Char}, (∃ more, rest = '\x7d' :: more) →
      ∀ more, rest ≠ computationText c ++ more := by
    rintro c _ ⟨more, rfl⟩ behind same
    rw [text_computation] at same
    cases same
  have texts := congrArg String.toList same
  rw [text_stencil, text_stencil, parameterTexts_eq, parameterTexts_eq] at texts
  obtain ⟨names, signature⟩ := word_unique clear.1.name.all clear'.1.name.all (endsWord_cons rfl _)
    (endsWord_cons rfl _) (behind_word ("stencil".toList ++ [' ']) texts)
  obtain ⟨parameters, behind⟩ := intercalate_unique (by decide) starts (parameters_written clear.1)
    (parameters_written clear'.1)
    (fun p inside => legible_parameter (parameters_written clear.1 p inside))
    (List.cons.inj signature).2
  obtain ⟨externals, body⟩ := externals_unique clear.1.externals clear'.1.externals
    (endsExternals_computations _ _) (endsExternals_computations _ _)
    (behind_word [' ', '\x7b', '\n'] behind)
  obtain ⟨computations, -⟩ := flatMap_unique (fun rest => ∃ more, rest = '\x7d' :: more)
    (fun _ => trivial) (fun _ _ => trivial) stops
    (fun c inside => legible_computation (clear.computations c inside)) clear'.computations
    ⟨_, rfl⟩ ⟨_, rfl⟩ body
  obtain ⟨fields, scalars⟩ := fields_scalars_of_parameters d
  obtain ⟨fields', scalars'⟩ := fields_scalars_of_parameters d'
  rw [parameters] at fields scalars
  rw [withoutSpans_eq, withoutSpans_eq, names, ← fields, ← scalars, externals, computations,
    fields', scalars']

end GridStencil.Definition
