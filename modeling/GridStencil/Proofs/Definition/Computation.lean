import GridStencil.Proofs.Definition.Body
import Mathlib.Data.List.Forall2

/-!
**Computations read back from their lines.**

An interval is read up to its bracket, a section up to the bracket of its block, and a computation
up to its own. What follows each other without anything between is read by `Phrase.many_resumes`.
-/

namespace GridStencil

open Grammar

/-! ### Lists of parts -/

/-- Parts that follow each other are read one by one, where each of them ends as `Ends` says. -/
theorem Grammar.Phrase.many_resumes {α : Type} {item : Phrase} {text : α → List Char}
    (Ends : List Char → Prop) {Meaning : α → Node → Prop} {values : List α}
    (each : ∀ value ∈ values, ∀ rest, Ends rest → Ends (text value ++ rest) ∧
      item.Yields (skip (text value ++ rest)) rest
        (fun nodes => ∃ node, nodes = [node] ∧ Meaning value node))
    {rest : List Char} (ends : Ends rest) (stops : item.Rejects (skip rest)) :
    Ends (values.flatMap text ++ rest) ∧
      (Phrase.many item).Resumes (values.flatMap text ++ rest) rest
        (List.Forall₂ Meaning values) := by
  induction values with
  | nil => exact ⟨ends, .many_nil stops .nil⟩
  | cons value values ih =>
    obtain ⟨endsThere, others⟩ := ih fun other inside => each other (List.mem_cons_of_mem _ inside)
    obtain ⟨endsHere, here⟩ := each value List.mem_cons_self _ endsThere
    rw [List.flatMap_cons, List.append_assoc]
    refine ⟨endsHere, .many_cons here others ?_⟩
    rintro _ nodes ⟨node, rfl, meant⟩ meantAll
    exact .cons meant meantAll

namespace Definition

/-- Whether a node reads as a value, up to spans. -/
def ReadsAs {α : Type} (read : Node → Reading α) (forget : α → α) (value : α) (node : Node) :
    Prop :=
  ∃ found, read node = .ok found ∧ forget found = forget value

/-- Nodes that read as some values read as the list of them. -/
theorem mapM_of_readsAs {α : Type} {read : Node → Reading α} {forget : α → α} {values : List α}
    {nodes : List Node} (spells : List.Forall₂ (ReadsAs read forget) values nodes) :
    ∃ found, nodes.mapM read = .ok found ∧ found.map forget = values.map forget := by
  induction spells with
  | nil => exact ⟨[], rfl, rfl⟩
  | cons here _ ih =>
    obtain ⟨found, read_here, same⟩ := here
    obtain ⟨others, read_others, same_others⟩ := ih
    refine ⟨found :: others, ?_, by rw [List.map_cons, List.map_cons, same, same_others]⟩
    rw [List.mapM_cons, read_here, read_others]
    rfl

variable {rest : List Char}

/-! ### Intervals -/

theorem signedInt_rejects_name {name : String} (is_name : IsName name) (rest : List Char) :
    (Phrase.rule .signedInt).Rejects (name.toList ++ rest) := by
  obtain ⟨c, cs, chars, start⟩ := is_name.head
  obtain ⟨no_digit, -⟩ := not_isDigit_of_isNameStart start
  have no_minus : ('-' == c) = false := by
    refine beq_eq_false_iff_ne.mpr ?_
    rintro rfl
    exact absurd start (by decide)
  refine .rule_token rfl ?_
  rw [chars, List.cons_append]
  simp [Pattern.signedInt, Pattern.split, Pattern.text, Pattern.digits, List.isPrefixOf, no_minus,
    no_digit]

/-- An end of an interval reads back. -/
theorem bound_yields {bound : Bound} (written : bound.Written) (ends : EndsToken rest) :
    (Phrase.rule .bound).Yields (bound.render.toList ++ rest) rest
      (fun nodes => ∃ node, nodes = [node] ∧ ReadsAs readBound Bound.withoutSpans bound node) := by
  cases bound with
  | int value =>
    refine .rule rfl (.alt_first (signedInt_yields value ends)) ?_
    rintro at_span _ ⟨int_span, rfl⟩
    refine ⟨_, rfl, .int value, ?_, rfl⟩
    simp only [readBound, Node.parts, Node.rule, readInt_toString written]
    rfl
  | top =>
    have no_int : (Phrase.rule .signedInt).Rejects ("None".toList ++ rest) :=
      .rule_token rfl rfl
    have word : (Phrase.rule .noneKw).Yields ("None".toList ++ rest) rest
        (fun nodes => ∃ span, nodes = [.mk .noneKw span "None" []]) :=
      .rule_token rfl (Pattern.split_text "None" rest) fun span => ⟨span, rfl⟩
    refine .rule rfl (.alt_second no_int (.alt_first word)) ?_
    rintro at_span _ ⟨word_span, rfl⟩
    exact ⟨_, rfl, .top, rfl, rfl⟩
  | external name span =>
    obtain ⟨is_name, no_top⟩ := written
    have avoids : (Pattern.text "None").AvoidsHead rest := fun c head =>
      Pattern.text_avoids_of_all (by decide) (not_isNameChar_of_endsToken (ends c head))
    have no_none : (Phrase.rule .noneKw).Rejects (name.toList ++ rest) := by
      refine .rule_token rfl ?_
      rw [Pattern.split_append avoids, Pattern.text, Pattern.split,
        if_neg (fun starts => no_top (List.isPrefixOf_iff_prefix.mp starts))]
      rfl
    refine .rule rfl (.alt_second (signedInt_rejects_name is_name rest) (.alt_second no_none
      (identifier_yields is_name ends))) ?_
    rintro at_span _ ⟨name_span, rfl⟩
    exact ⟨_, rfl, .external name at_span, rfl, rfl⟩

theorem solid_bound {bound : Bound} (written : bound.Written) : Solid bound.render.toList := by
  cases bound with
  | int value => exact Pattern.solid_toString value
  | top => exact ⟨'N', _, rfl, rfl⟩
  | external name span => exact written.1.solid

/-- No bound is mistaken for the sign of a full interval. -/
theorem point_not_mem_bound {bound : Bound} (written : bound.Written) :
    '.' ∉ bound.render.toList := by
  have digits : ∀ n : Nat, '.' ∉ (toString n).toList := fun n inside =>
    absurd (List.all_eq_true.mp (Number.all_isDigit_toString n) '.' inside) (by decide)
  cases bound with
  | int value =>
    cases value with
    | ofNat n =>
      rw [Bound.render, Number.toString_ofNat]
      exact digits n
    | negSucc n =>
      rw [Bound.render, Number.toString_negSucc]
      intro inside
      rcases List.mem_cons.mp inside with sign | inside
      · cases sign
      · exact digits (n + 1) inside
  | top => exact (by decide : '.' ∉ "None".toList)
  | external name span => exact fun inside => absurd (written.1.all '.' inside) (by decide)

theorem solid_range {range : Range} (written : range.Written) : Solid range.render.toList := by
  cases range with
  | full => exact ⟨'.', _, rfl, rfl⟩
  | between lower upper =>
    rw [Range.render, String.append_assoc, String.toList_append]
    exact (solid_bound written.1).append _

theorem text_between (lower upper : Bound) (rest : List Char) :
    (Range.between lower upper).render.toList ++ rest =
      lower.render.toList ++ (',' :: ' ' :: (upper.render.toList ++ rest)) := by
  have comma : ", ".toList = [',', ' '] := rfl
  simp only [Range.render, String.toList_append, comma, List.append_assoc, List.cons_append,
    List.nil_append]

/-- The planes of an interval read back in front of the bracket. -/
theorem range_yields {range : Range} (written : range.Written) (rest : List Char) :
    (Phrase.rule .intervalRange).Yields (range.render.toList ++ ')' :: rest) (')' :: rest)
      (fun nodes => ∃ node, nodes = [node] ∧ ReadsAs readRange Range.withoutSpans range node) := by
  cases range with
  | full =>
    have word : (Phrase.rule .wildcard).Yields ("...".toList ++ ')' :: rest) (')' :: rest)
        (fun nodes => ∃ span, nodes = [.mk .wildcard span "..." []]) :=
      .rule_token rfl (Pattern.split_text "..." (')' :: rest)) fun span => ⟨span, rfl⟩
    refine .rule rfl (.alt_first word) ?_
    rintro at_span _ ⟨word_span, rfl⟩
    exact ⟨_, rfl, .full, rfl, rfl⟩
  | between lower upper =>
    obtain ⟨lower_written, upper_written⟩ := written
    obtain ⟨c, cs, starts, -⟩ := solid_bound lower_written
    have no_point : c ≠ '.' := by
      rintro rfl
      exact point_not_mem_bound lower_written (by simp [starts])
    have no_word : (Phrase.rule .wildcard).Rejects
        (lower.render.toList ++ (',' :: ' ' :: (upper.render.toList ++ ')' :: rest))) := by
      refine .rule_token rfl (Pattern.split_text_none rfl ?_)
      rw [starts]
      exact fun same => no_point (Option.some.inj same)
    rw [text_between]
    refine .rule rfl (.alt_second no_word
      ((bound_yields lower_written (endsToken_cons rfl _)).next (skip_cons_solid rfl _) <|
        (Phrase.Yields.text "," (' ' :: (upper.render.toList ++ ')' :: rest))).next
          ((skip_blank _).trans ((solid_bound upper_written).skip _)) <|
        bound_yields upper_written (endsToken_cons rfl rest))) ?_
    rintro at_span _ ⟨_, _, rfl, ⟨lower_node, rfl, found, read, same⟩, _, _, rfl, rfl,
      upper_node, rfl, found', read', same'⟩
    refine ⟨_, rfl, .between found found', ?_, ?_⟩
    · simp only [List.cons_append, List.nil_append, readRange, Node.parts, read, read']
      rfl
    · simp only [Range.withoutSpans, same, same']

/-! ### Sections and computations -/

theorem unlines_flatMap {α : Type} (lines : α → List String) (values : List α) :
    (Text.unlines (values.flatMap lines)).toList =
      values.flatMap fun value => (Text.unlines (lines value)).toList := by
  induction values with
  | nil => rfl
  | cons value values ih => rw [List.flatMap_cons, List.flatMap_cons, Text.unlines_append, ih]

/-- The text of a section. -/
def sectionText (s : Section) : List Char := (Text.unlines s.lines).toList

theorem text_section (s : Section) (rest : List Char) :
    sectionText s ++ rest = List.replicate 8 ' ' ++ ("interval".toList ++ '(' ::
      (s.range.render.toList ++ ')' :: ' ' :: '\x7b' :: '\n' :: (bodyText 12 s.body ++
        (List.replicate 8 ' ' ++ '\x7d' :: '\n' :: rest)))) := by
  have words : "        interval(".toList = List.replicate 8 ' ' ++ ("interval".toList ++ ['(']) ∧
      ") \x7b".toList = [')', ' ', '\x7b'] ∧
      "        \x7d".toList = List.replicate 8 ' ' ++ ['\x7d'] := ⟨rfl, rfl, rfl⟩
  simp only [sectionText, Section.lines, List.cons_append, Text.unlines_cons,
    Text.unlines_append, String.toList_append, words, bodyText, List.append_assoc,
    List.nil_append]
  rfl

/-- **A section reads back from its lines** if no two of its statements collide. -/
theorem section_yields {s : Section} (written : s.Written)
    (floats : ∀ x ∈ Statement.listFloats s.body, Number.ReadsBack x)
    (apart : Statement.ListApart s.body) (rest : List Char) :
    (Phrase.rule .intervalDef).Yields (skip (sectionText s ++ rest)) rest
      (fun nodes => ∃ node, nodes = [node] ∧
        ReadsAs readSection Section.withoutSpans s node) := by
  obtain ⟨range_written, body_written⟩ := written
  have block := block_of_body 8 ('\n' :: rest)
    fun rest closing => body_resumes 12 s.body body_written floats apart closing
  rw [text_section, skip_blanks]
  refine .rule rfl ((Phrase.Yields.text "interval" _).next (skip_cons_solid rfl _) <|
    (Phrase.Yields.text "(" _).next ((solid_range range_written).skip _) <|
    (range_yields range_written _).next (skip_cons_solid rfl _) <|
    (Phrase.Yields.text ")" _).next ((skip_blank _).trans (skip_cons_solid rfl _)) <|
    block.congr (skip_newline rest)) ?_
  rintro at_span _ ⟨_, _, rfl, rfl, _, _, rfl, rfl, _, _, rfl, ⟨range_node, rfl, range, range_read,
    range_same⟩, _, _, rfl, rfl, block_span, parts, rfl, body, body_read, body_same⟩
  refine ⟨_, rfl, ⟨range, body, at_span⟩, ?_, ?_⟩
  · simp only [List.cons_append, List.nil_append, readSection, Node.parts, range_read, body_read]
    rfl
  · simp only [Section.withoutSpans, range_same, body_same]

/-- The text of a computation. -/
def computationText (c : Computation) : List Char := (Text.unlines c.lines).toList

theorem text_computation (c : Computation) (rest : List Char) :
    computationText c ++ rest = List.replicate 4 ' ' ++ ("with".toList ++ ' ' ::
      ("computation".toList ++ '(' :: (c.policy.toList ++ ')' :: ' ' :: '\x7b' :: '\n' ::
        (c.sections.flatMap sectionText ++
          (List.replicate 4 ' ' ++ '\x7d' :: '\n' :: rest))))) := by
  have words : "    with computation(".toList = List.replicate 4 ' ' ++ ("with".toList ++ ' ' ::
      ("computation".toList ++ ['('])) ∧ ") \x7b".toList = [')', ' ', '\x7b'] ∧
      "    \x7d".toList = List.replicate 4 ' ' ++ ['\x7d'] := ⟨rfl, rfl, rfl⟩
  simp only [computationText, Computation.lines, List.cons_append, Text.unlines_cons,
    Text.unlines_append, String.toList_append, words, unlines_flatMap, List.append_assoc,
    List.nil_append]
  rfl

/-- **A computation reads back from its lines** if no two of its statements collide. -/
theorem computation_yields {c : Computation} (written : c.Written)
    (floats : ∀ x ∈ c.floats, Number.ReadsBack x)
    (apart : ∀ s ∈ c.sections, Statement.ListApart s.body) (rest : List Char) :
    (Phrase.rule .computation).Yields (skip (computationText c ++ rest)) rest
      (fun nodes => ∃ node, nodes = [node] ∧
        ReadsAs readComputation Computation.withoutSpans c node) := by
  obtain ⟨is_name, sections_written⟩ := written
  have closing :
      skip (List.replicate 4 ' ' ++ '\x7d' :: '\n' :: rest) = '\x7d' :: '\n' :: rest := by
    rw [skip_blanks, skip_cons_solid rfl]
  have no_section : (Phrase.rule .intervalDef).Rejects
      (skip (List.replicate 4 ' ' ++ '\x7d' :: '\n' :: rest)) := by
    rw [closing]
    exact .rule rfl (.seq_first (.text rfl (by rintro ⟨⟩)))
  obtain ⟨-, sections⟩ := Phrase.many_resumes (fun _ => True) (fun s inside rest _ =>
    ⟨trivial, section_yields (sections_written s inside) (fun x there => floats x
      (List.mem_flatMap.mpr ⟨s, inside, there⟩)) (apart s inside) rest⟩) trivial no_section
  have no_comma : (Phrase.seq (.text ",") (.rule .intervalDef)).Rejects ('\x7b' :: '\n' ::
      (c.sections.flatMap sectionText ++ (List.replicate 4 ' ' ++ '\x7d' :: '\n' :: rest))) :=
    .seq_first (.text rfl (by rintro ⟨⟩))
  have block := ((Phrase.Yields.text "\x7b" _).next (skip_newline _) <|
    sections.yields_skip.next closing <| Phrase.Yields.text "\x7d" ('\n' :: rest)).alt_second
      no_comma
  rw [text_computation, skip_blanks]
  refine .rule rfl ((Phrase.Yields.text "with" _).next
      ((skip_blank _).trans (skip_cons_solid rfl _)) <|
    (Phrase.Yields.text "computation" _).next (skip_cons_solid rfl _) <|
    (Phrase.Yields.text "(" _).next (is_name.solid.skip _) <|
    (identifier_yields is_name (endsToken_cons rfl _)).next (skip_cons_solid rfl _) <|
    (Phrase.Yields.text ")" _).next ((skip_blank _).trans (skip_cons_solid rfl _)) <|
    block.congr (skip_newline rest)) ?_
  rintro at_span _ ⟨_, _, rfl, rfl, _, _, rfl, rfl, _, _, rfl, rfl, _, _, rfl, ⟨name_span, rfl⟩,
    _, _, rfl, rfl, _, _, rfl, rfl, nodes, _, rfl, spells, rfl⟩
  obtain ⟨found, read, same⟩ := mapM_of_readsAs spells
  refine ⟨_, rfl, ⟨c.policy, found, at_span⟩, ?_, ?_⟩
  · simp only [List.cons_append, List.nil_append, List.append_nil, readComputation, Node.parts,
      Node.text, read]
    rfl
  · simp only [Computation.withoutSpans, same]

end Definition

end GridStencil
