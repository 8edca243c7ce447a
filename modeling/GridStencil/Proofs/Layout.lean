import GridStencil.Proofs.Definition.RoundTrip
import GridStencil.Proofs.Definition.Spans
import GridStencil.Proofs.Definition.Suited
import GridStencil.Registry

/-!
**Layout does not change what a text defines.**

A text that reads is made of its tokens with layout around them (`Phrase.Takes.spaced`). With more
layout between the tokens it is read in step with itself, since every rule of the grammar suits what
stands behind it, so its tree is the same up to spans (`Grammar.readTree_loosened`), and so is every
definition that is read from the tree.

* `Definition.readAll_loosened`: the definitions of a text, their canonical texts, and the
  identities of what is compiled from them.
-/

namespace GridStencil

namespace Grammar

namespace Phrase

variable {p : Phrase} {input rest : List Char} {found more : List (List Char)}

/-- What a phrase takes of a text is tokens with layout between them. -/
theorem Takes.spaced (takes : p.Takes input found rest) (spaced : Spaced more rest)
    (solid : ∀ token ∈ more, Solid token)
    (at_token : (∀ item, p ≠ .many item) → skip input = input) : Spaced (found ++ more) input := by
  have taken : ∀ {pattern : Pattern} {input taken rest : List Char} {more : List (List Char)},
      pattern.split input = some (taken, rest) → Spaced more rest →
        Spaced (nonempty taken ++ more) input := by
    intro pattern input taken rest more split spaced
    rw [Pattern.append_of_split split]
    cases taken with
    | nil => exact spaced
    | cons c cs => exact .next .nil spaced
  induction takes generalizing more with
  | empty | many_nil _ | optional_none _ => exact spaced
  | token split | rule_token _ split => exact taken split spaced
  | rule _ _ ih => exact ih spaced solid fun _ => at_token nofun
  | seq first_takes second_takes first_ih second_ih =>
    have right_solid := List.forall_mem_append.mpr
      ⟨second_takes.solid fun _ => skip_skip _, solid⟩
    rw [List.append_assoc]
    exact first_ih ((second_ih spaced solid fun _ => skip_skip _).of_skip right_solid) right_solid
      fun _ => at_token nofun
  | alt_first _ ih | alt_second _ _ ih | optional_some _ ih =>
    exact ih spaced solid fun _ => at_token nofun
  | many_cons item_takes many_takes item_ih many_ih =>
    have many_solid := List.forall_mem_append.mpr
      ⟨many_takes.solid fun not_many => absurd rfl (not_many _), solid⟩
    have all_solid := List.forall_mem_append.mpr
      ⟨item_takes.solid fun _ => skip_skip _, many_solid⟩
    rw [List.append_assoc]
    exact (item_ih (many_ih spaced solid fun not_many => absurd rfl (not_many _)) many_solid
      fun _ => skip_skip _).of_skip all_solid

end Phrase

/-! ### Files -/

/-- What stands in a file. -/
def stencils : Phrase := .seq (.many (.rule .stencilDef)) (.rule .endOfInput)

/-- The tokens of a text that reads are taken from its first one on, and nothing is left. -/
theorem takes_tokens {text : String} {root : Node} (read : readTree text = .ok root) :
    stencils.Takes (skip text.toList) (tokens text) [] := by
  obtain ⟨cursor, gives⟩ := readTree_ok_iff.mp read
  have enough : Phrase.Enough (depthFor text) (.rule .file) text.toList := by
    have rank_le : (Phrase.rule .file).rank ≤ 256 := by decide +kernel
    have width : text.toList.length = text.length := String.length_toList
    refine ⟨trivial, ?_⟩
    simp only [depthFor, width]
    omega
  have enoughGives : (Phrase.rule .file).Gives (.ofText text)
      ((Phrase.rule .file).outcome (depthFor text) (.ofText text)) :=
    Phrase.gives_outcome enough.progresses enough.covered
  have outcome := enoughGives.unique gives
  have same := Phrase.tokens?_outcome (depthFor text) (.rule .file) (.ofText text)
  rw [outcome, Option.map_some] at same
  obtain ⟨⟨found, rest⟩, tokens_eq, rfl⟩ := Option.map_eq_some_iff.mp same
  have all : tokens text = found := by
    have here : (Phrase.rule .file).tokens? (depthFor text) text.toList = _ := tokens_eq
    rw [tokens, here]
    rfl
  cases Phrase.takes_of_tokens? enough tokens_eq with
  | rule_token is_body => cases is_body
  | rule is_body takes =>
    cases is_body
    cases takes with
    | seq first_takes second_takes =>
      cases first_takes
      rw [all]
      have at_end : cursor.rest = [] := by
        cases second_takes with
        | seq _ last =>
          cases last with
          | rule is_body => cases is_body
          | rule_token is_body split =>
            cases is_body
            have none_left := Pattern.append_of_split split
            rw [Pattern.eq_nil_of_endOfInput split] at none_left
            exact (List.append_eq_nil_iff.mp none_left.symm).2
      exact at_end ▸ second_takes

/-- **A text that reads is made of its tokens with layout around them.** -/
theorem spaced_tokens {text : String} {root : Node} (read : readTree text = .ok root) :
    Spaced (tokens text) text.toList := by
  have takes := takes_tokens read
  have spaced := takes.spaced (.last rfl) (fun _ inside => nomatch inside) fun _ => skip_skip _
  rw [List.append_nil] at spaced
  exact spaced.of_skip (takes.solid fun _ => skip_skip _)

/-- **A text with more layout between its tokens has the same tree up to spans.** -/
theorem readTree_loosened {text other : String} {root : Node} (read : readTree text = .ok root)
    (loosened : Loosened (tokens text) text.toList other.toList) :
    ∃ root', readTree other = .ok root' ∧ root.Same root' := by
  have takes := takes_tokens read
  have solid := takes.solid fun _ => skip_skip _
  have suits : stencils.Suits Rule.follow (Rule.follow .file) := (Rule.suits_body (r := .file) rfl).2
  have behind : Loosened (tokens text ++ []) (skip text.toList) (skip other.toList) := by
    rw [List.append_nil]
    exact loosened.skip solid
  obtain ⟨rest', -, inStep⟩ := Phrase.inStep_of_takes Rule.suits_body takes suits
    (fun _ inside => absurd inside List.not_mem_nil) behind fun _ => trimmed_skip _ _
  have whole : (Phrase.rule .file).InStep text.toList other.toList [] rest' :=
    .rule rfl (.seq .empty (inStep trivial))
  obtain ⟨cursor, given⟩ := readTree_ok_iff.mp read
  have start : (Cursor.ofText text).rest = text.toList := rfl
  have start' : (Cursor.ofText other).rest = other.toList := rfl
  obtain ⟨found, found', gives, gives', same⟩ := whole.gives start start'
  obtain rfl := Option.some.inj (gives.unique given)
  obtain ⟨root', nodes_eq, root_same⟩ : ∃ root', found'.nodes = [root'] ∧ root.Same root' := by
    have nodes := same.nodes
    generalize found'.nodes = nodes' at nodes
    cases nodes with
    | cons here none_more =>
      cases none_more
      exact ⟨_, rfl, here⟩
  refine ⟨root', readTree_ok_iff.mpr ⟨found'.cursor, ?_⟩, root_same⟩
  rw [← nodes_eq]
  exact gives'

end Grammar

namespace Definition

open Grammar
open Steps (Carries)

/-- What identifies a definition is the same for definitions that are the same up to spans. -/
theorem idOf_of_sameWithoutSpans {d d' : Definition} (same : d.withoutSpans = d'.withoutSpans)
    (defaults : Externals) (request : Request) :
    Registry.idOf (.ofDefinition d defaults) request =
      Registry.idOf (.ofDefinition d' defaults) request := by
  have text : d.render = d'.render := by
    rw [← render_withoutSpans d, same, render_withoutSpans d']
  have names : d.externals.map (·.1) = d'.externals.map (·.1) := by
    have forgotten := congrArg (fun d : Definition => d.externals.map (·.1)) same
    simp only [withoutSpans_eq, List.map_map] at forgotten
    exact forgotten
  have declared : d.declares = d'.declares := by
    funext name
    have found := congrArg (fun names : List String => names.any (· == name)) names
    simp only [List.any_map] at found
    exact found
  simp only [Registry.idOf, Registration.resolve, Registration.ofDefinition, text, declared]

/-- **A text with more layout between its tokens has the same definitions.** -/
theorem readAll_loosened {source : Source} {definitions : List Definition}
    (read : readAll source = .ok definitions) :
    Spaced (tokens source.text) source.text.toList ∧
      ∀ other : Source, Loosened (tokens source.text) source.text.toList other.text.toList →
        ∃ definitions', readAll other = .ok definitions' ∧
          List.Forall₂ (fun d d' : Definition => d.withoutSpans = d'.withoutSpans ∧
            d.render = d'.render ∧ ∀ defaults request,
              Registry.idOf (.ofDefinition d defaults) request =
                Registry.idOf (.ofDefinition d' defaults) request) definitions definitions' := by
  unfold readAll at read
  split at read
  · cases read
  next root tree =>
  refine ⟨spaced_tokens tree, fun other loosened => ?_⟩
  obtain ⟨root', tree', same⟩ := readTree_loosened tree loosened
  have stencils_same : List.Forall₂ Node.Same (root.parts.filter (·.rule = .stencilDef))
      (root'.parts.filter (·.rule = .stencilDef)) :=
    List.rel_filter (fun node node' here => by simp [here.rule]) same.parts
  obtain ⟨definitions', read', each⟩ := Carries.mapM stencils_same
    (fun _ _ => readStencil_carries source other) definitions (Steps.mapError_eq_ok.mp read)
  refine ⟨definitions', ?_, ?_⟩
  · unfold readAll
    rw [tree']
    exact Steps.mapError_eq_ok.mpr read'
  · refine each.imp fun d d' here => ⟨here, ?_, fun defaults request =>
      idOf_of_sameWithoutSpans here defaults request⟩
    rw [← render_withoutSpans d, here, render_withoutSpans d']

/-! ### A text with comments put in -/

/-- A token with the layout in front of it, and layout that is put in there. -/
structure Piece where
  gap : String
  inserted : String
  token : String

/-- A stencil as pieces. -/
def pieces : List Piece :=
  [⟨"", "# first\n", "stencil"⟩, ⟨" ", "", "s"⟩, ⟨"", "\t", "("⟩, ⟨"", "", "a"⟩, ⟨"", " ", ":"⟩,
    ⟨"", "\n", "Field"⟩, ⟨"", "", "["⟩, ⟨"", "", "f64"⟩, ⟨"", "", "]"⟩, ⟨"", "", ")"⟩,
    ⟨"", " ", "\x7b"⟩, ⟨"", "", "with"⟩, ⟨"", "", "computation"⟩, ⟨"", "", "("⟩,
    ⟨"", "", "PARALLEL"⟩, ⟨"", "", ")"⟩, ⟨"", "", ","⟩, ⟨"", "# all\n", "interval"⟩, ⟨"", "", "("⟩,
    ⟨"", "", "..."⟩, ⟨"", "", ")"⟩, ⟨"", "", "\x7b"⟩, ⟨"", "", "a"⟩, ⟨"", "", "="⟩, ⟨"", "", "a"⟩,
    ⟨"", "# below\n", "["⟩, ⟨"", "", "0"⟩, ⟨"", "", ","⟩, ⟨"", "", "0"⟩, ⟨"", "", ","⟩,
    ⟨"", "", "0"⟩, ⟨"", "", "]"⟩, ⟨"", "", "if"⟩, ⟨" ", "", "not"⟩, ⟨" ", "\n", "a"⟩, ⟨"", "", ">"⟩,
    ⟨"", "", "1"⟩, ⟨"", "# or\n", "else"⟩, ⟨"", "", "2"⟩, ⟨"", "", "\x7d"⟩, ⟨"", "\n", "\x7d"⟩]

/-- The text of pieces. -/
def plain (ps : List Piece) : String := String.join (ps.map fun p => p.gap ++ p.token)

/-- The text of pieces with the layout put in. -/
def loose (ps : List Piece) : String :=
  String.join (ps.map fun p => p.gap ++ p.inserted ++ p.token)

/-- The layout that is put into pieces may stand between tokens. -/
theorem loosened_pieces (ps : List Piece) (layout : ∀ p ∈ ps, Layout p.gap.toList)
    (inserted : ∀ p ∈ ps, Layout p.inserted.toList) :
    Loosened (ps.map (·.token.toList)) (plain ps).toList (loose ps).toList := by
  simp only [plain, loose, String.toList_join]
  induction ps with
  | nil => exact .last rfl .nil
  | cons p ps ih =>
    obtain ⟨gap, layout⟩ := List.forall_mem_cons.mp layout
    obtain ⟨here, inserted⟩ := List.forall_mem_cons.mp inserted
    simp only [List.map_cons, List.flatMap_cons, String.toList_append, List.append_assoc]
    rw [← List.append_assoc p.gap.toList p.inserted.toList]
    exact .next gap ⟨p.gap.toList, p.inserted.toList, [], by simp, by simp, here, .inl gap⟩
      (ih layout inserted)

/-- A stencil with its tokens as close to each other as they may be, and with comments put in. -/
theorem readAll_loosened_commented : ∃ d d', readAll ⟨"", plain pieces⟩ = .ok [d] ∧
    Loosened (tokens (plain pieces)) (plain pieces).toList (loose pieces).toList ∧
    readAll ⟨"", loose pieces⟩ = .ok [d'] ∧ d.withoutSpans = d'.withoutSpans := by
  have single : (readAll ⟨"", plain pieces⟩).toOption.map List.length = some 1 := by
    decide +kernel
  have tokens_eq : tokens (plain pieces) = pieces.map (·.token.toList) := by decide +kernel
  have loosened := loosened_pieces pieces (by decide +kernel) (by decide +kernel)
  obtain ⟨definitions, found, length⟩ := Option.map_eq_some_iff.mp single
  obtain ⟨d, rfl⟩ := List.length_eq_one_iff.mp length
  have read := Steps.toOption_eq_some.mp found
  rw [← tokens_eq] at loosened
  obtain ⟨definitions', read', each⟩ := (readAll_loosened read).2 ⟨"", loose pieces⟩ loosened
  cases each with
  | cons here none_more =>
    cases none_more
    exact ⟨d, _, read, loosened, read', here.1⟩

end Definition

end GridStencil
