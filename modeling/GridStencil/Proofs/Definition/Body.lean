import GridStencil.Proofs.Definition.Follower

/-!
**Statements read back from their lines.**

A statement ends where the next one starts, or the bracket that closes its block (`Follower`),
unless it is an assignment in front of one whose name reads as the rest of a conditional. Where no
two statements collide in this way (`Statement.ListApart`), a body reads back from its lines:
`body_resumes`.
-/

namespace GridStencil

open Grammar

/-! ### Lines -/

namespace Text

theorem unlines_cons (line : String) (lines : List String) :
    (unlines (line :: lines)).toList = line.toList ++ '\n' :: (unlines lines).toList := by
  simp [unlines]

theorem unlines_append (first second : List String) :
    (unlines (first ++ second)).toList = (unlines first).toList ++ (unlines second).toList := by
  simp [unlines]

theorem toList_blanks (width : Nat) : (blanks width).toList = List.replicate width ' ' :=
  String.toList_ofList

end Text

namespace Definition

/-- The text of some statements. -/
def bodyText (indent : Nat) (body : List Statement) : List Char :=
  (Text.unlines (Statement.listLines indent body)).toList

/-- The text between the name of a target and the sign behind it. -/
def targetOffset (offset : Option Offset) : List Char :=
  ((offset.map Offset.render).getD "").toList

theorem text_assign (indent : Nat) (target : String) (offset : Option Offset) (value : Expr)
    (span : Span) (rest : List Char) :
    (Text.unlines ((Statement.assign target offset value span).lines indent)).toList ++ rest =
      List.replicate indent ' ' ++ (target.toList ++ (targetOffset offset ++
        ' ' :: '=' :: ' ' :: (value.render.toList ++ '\n' :: rest))) := by
  have sign : " = ".toList = [' ', '=', ' '] := rfl
  simp only [Statement.lines, Text.unlines_cons, String.toList_append, Text.toList_blanks, sign,
    targetOffset, List.append_assoc, List.cons_append, List.nil_append]
  rfl

/-- The text behind the first block of a statement with a condition. -/
def elseText (indent : Nat) : List Statement → List Char → List Char
  | [], rest => '\n' :: rest
  | body, rest => " else \x7b".toList ++ '\n' :: (bodyText (indent + 4) body ++
      (List.replicate indent ' ' ++ '\x7d' :: '\n' :: rest))

theorem text_branch (indent : Nat) (condition : Expr) (whenTrue whenFalse : List Statement)
    (span : Span) (rest : List Char) :
    (Text.unlines ((Statement.branch condition whenTrue whenFalse span).lines indent)).toList ++
        rest =
      List.replicate indent ' ' ++ ('i' :: 'f' :: ' ' :: (condition.render.toList ++
        ' ' :: '\x7b' :: '\n' :: (bodyText (indent + 4) whenTrue ++
          (List.replicate indent ' ' ++ '\x7d' :: elseText indent whenFalse rest)))) := by
  have words : "if ".toList = ['i', 'f', ' '] ∧ " \x7b".toList = [' ', '\x7b'] ∧
      "\x7d".toList = ['\x7d'] ∧ "\x7d else \x7b".toList = '\x7d' :: " else \x7b".toList :=
    ⟨rfl, rfl, rfl, rfl⟩
  cases whenFalse with
  | nil =>
    simp only [Statement.lines, List.isEmpty_nil, if_true, Text.unlines_cons, Text.unlines_append,
      String.toList_append, Text.toList_blanks, words, bodyText, elseText, List.append_assoc,
      List.cons_append, List.nil_append]
    rfl
  | cons s body =>
    simp only [Statement.lines, List.isEmpty_cons, Bool.false_eq_true, if_false, Text.unlines_cons,
      Text.unlines_append, String.toList_append, Text.toList_blanks, words, bodyText, elseText,
      List.append_assoc, List.cons_append, List.nil_append]
    rfl

theorem bodyText_cons (indent : Nat) (s : Statement) (body : List Statement) :
    bodyText indent (s :: body) =
      (Text.unlines (s.lines indent)).toList ++ bodyText indent body := by
  rw [bodyText, Statement.listLines, Text.unlines_append]
  rfl

/-! ### Statements that stay apart -/

mutual

/-- Whether inside a statement no two statements collide. -/
def Statement.Apart : Statement → Prop
  | .assign _ _ _ _ => True
  | .branch _ whenTrue whenFalse _ =>
    Statement.ListApart whenTrue ∧ Statement.ListApart whenFalse

/-- Whether no two of some statements, and no two inside them, collide. -/
def Statement.ListApart : List Statement → Prop
  | [] => True
  | s :: rest => s.Apart ∧ ¬ Collides s rest.head? ∧ Statement.ListApart rest

end

/-! ### What nodes say -/

/-- Whether a node reads as a statement, up to spans. -/
def SpellsStatement (s : Statement) (node : Node) : Prop :=
  ∃ found, readStatement node = .ok found ∧ found.withoutSpans = s.withoutSpans

/-- Whether nodes read as statements, up to spans. -/
def SpellsBody (body : List Statement) (nodes : List Node) : Prop :=
  ∃ found, readStatements nodes = .ok found ∧
    Statement.listWithoutSpans found = Statement.listWithoutSpans body

theorem SpellsBody.nil : SpellsBody [] [] := ⟨[], by rw [readStatements], rfl⟩

theorem SpellsBody.cons {s : Statement} {body : List Statement} {node : Node} {nodes : List Node}
    (spells : SpellsStatement s node) (spells' : SpellsBody body nodes) :
    SpellsBody (s :: body) (node :: nodes) := by
  obtain ⟨found, read, same⟩ := spells
  obtain ⟨found', read', same'⟩ := spells'
  refine ⟨found :: found', ?_, ?_⟩
  · rw [readStatements, read, read']
    rfl
  · rw [Statement.listWithoutSpans, Statement.listWithoutSpans, same, same']

/-- Whether nodes are a block that reads as statements, up to spans. -/
def SpellsBlock (body : List Statement) (nodes : List Node) : Prop :=
  ∃ span parts, nodes = [.mk .block span "" parts] ∧ SpellsBody body parts

/-! ### Blocks, assignments and statements with a condition -/

variable {rest : List Char}

theorem block_yields {body : List Statement} {input middle : List Char}
    (statements : (Phrase.many Phrase.statement).Resumes input middle (SpellsBody body))
    (closing : skip middle = '\x7d' :: rest) :
    (Phrase.rule .block).Yields ('\x7b' :: input) rest (SpellsBlock body) := by
  refine .rule rfl ((Phrase.Yields.text "\x7b" input).next rfl <|
    statements.yields_skip.next closing <| Phrase.Yields.text "\x7d" rest) ?_
  rintro span _ ⟨_, _, rfl, rfl, parts, _, rfl, spells, rfl⟩
  rw [List.nil_append, List.append_nil]
  exact ⟨span, parts, rfl, spells⟩

theorem targetEnd {offset : Option Offset} (written : ∀ o, offset = some o → WrittenOffset o)
    (more : List Char) : TargetEnd (targetOffset offset ++ ' ' :: '=' :: ' ' :: more) := by
  cases offset with
  | none => exact .plain more
  | some o => exact .offset (written o rfl) more

/-- **An assignment reads back** where something follows that closes its value. -/
theorem assign_yields {target : String} {offset : Option Offset} {value : Expr} {span : Span}
    (written : (Statement.assign target offset value span).Written)
    (floats : ∀ x ∈ value.floats, Number.ReadsBack x) (closes : Closes ('\n' :: rest)) :
    (Phrase.rule .assign).Yields (target.toList ++ (targetOffset offset ++
        ' ' :: '=' :: ' ' :: (value.render.toList ++ '\n' :: rest))) rest
      (fun nodes => ∃ node, nodes = [node] ∧
        SpellsStatement (.assign target offset value span) node) := by
  obtain ⟨is_name, offset_written, value_written⟩ := written
  have ends := targetEnd offset_written (value.render.toList ++ '\n' :: rest)
  obtain ⟨solid, value_yields⟩ := textOf_render value_written floats
  have value_text := (value_yields ('\n' :: rest) closes).congr (skip_newline rest)
  have sign := (Phrase.Yields.text "=" (' ' :: (value.render.toList ++ '\n' :: rest))).next
    ((skip_blank _).trans (solid.skip _)) value_text
  cases offset with
  | none =>
    have no_offset : (Phrase.optional (Phrase.rule .offset)).Yields
        ('=' :: ' ' :: (value.render.toList ++ '\n' :: rest)) _ (· = []) :=
      .optional_none (.rule rfl (.seq_first (.text rfl (by rintro ⟨⟩)))) rfl
    refine .rule rfl ((identifier_yields is_name ends.rest.ends).next rfl <|
      no_offset.next rfl sign) ?_
    rintro at_span _ ⟨_, _, rfl, ⟨name_span, rfl⟩, _, _, rfl, rfl, _, _, rfl, rfl, node, rfl, -,
      found, read, same⟩
    refine ⟨_, rfl, .assign target none found at_span, ?_, ?_⟩
    · simp only [List.cons_append, List.nil_append, readStatement, read, Node.text]
      rfl
    · simp only [Statement.withoutSpans, same]
  | some o =>
    obtain ⟨more, starts⟩ := offset_starts o
      (' ' :: '=' :: ' ' :: (value.render.toList ++ '\n' :: rest))
    have skipped : skip (targetOffset (some o) ++
        ' ' :: '=' :: ' ' :: (value.render.toList ++ '\n' :: rest)) = o.render.toList ++
          ' ' :: '=' :: ' ' :: (value.render.toList ++ '\n' :: rest) := by
      show skip (o.render.toList ++ _) = _
      rw [starts]
      exact skip_cons_solid rfl more
    have with_offset := (offset_yields (offset_written o rfl)
      (' ' :: '=' :: ' ' :: (value.render.toList ++ '\n' :: rest))).optional_some
    refine .rule rfl ((identifier_yields is_name ends.rest.ends).next skipped <|
      with_offset.next (skip_blank _) sign) ?_
    rintro at_span _ ⟨_, _, rfl, ⟨name_span, rfl⟩, _, _, rfl, ⟨offset_node, rfl, -, offset_read⟩,
      _, _, rfl, rfl, node, rfl, -, found, read, same⟩
    refine ⟨_, rfl, .assign target (some o) found at_span, ?_, ?_⟩
    · simp only [List.cons_append, List.nil_append, readStatement, read, offset_read, Node.text]
      rfl
    · simp only [Statement.withoutSpans, same]

/-- What stands behind a condition closes it. -/
theorem closes_block (more : List Char) : Closes (' ' :: '\x7b' :: more) :=
  ⟨rowEnds_blank more (.inr (.inr rfl)), by
    rw [skip_blank, skip_cons_solid rfl]
    exact choiceTail_rejects (by rintro ⟨⟩)⟩

/-- **A statement with a condition reads back** from its condition and its blocks. -/
theorem ifStmt_yields {condition : Expr} {whenTrue whenFalse : List Statement} {span : Span}
    {input middle : List Char} (written : condition.Written)
    (floats : ∀ x ∈ condition.floats, Number.ReadsBack x)
    (block : (Phrase.rule .block).Yields ('\x7b' :: input) middle (SpellsBlock whenTrue))
    (others : (Phrase.optional (.seq (.text "else") (.alt (.rule .ifStmt)
      (.rule .block)))).Yields (skip middle) rest
      (fun nodes => nodes = [] ∧ whenFalse = [] ∨ SpellsBlock whenFalse nodes)) :
    (Phrase.rule .ifStmt).Yields
      ('i' :: 'f' :: ' ' :: (condition.render.toList ++ ' ' :: '\x7b' :: input)) rest
      (fun nodes => ∃ node, nodes = [node] ∧
        SpellsStatement (.branch condition whenTrue whenFalse span) node) := by
  obtain ⟨solid, yields⟩ := textOf_render written floats
  have condition_text := yields (' ' :: '\x7b' :: input) (closes_block input)
  refine .rule rfl ((Phrase.Yields.text "if" _).next ((skip_blank _).trans (solid.skip _)) <|
    condition_text.next ((skip_blank _).trans (skip_cons_solid rfl input)) <|
    block.next rfl others) ?_
  rintro at_span _ ⟨_, _, rfl, rfl, _, _, rfl, ⟨node, rfl, -, found, read, same⟩, _, tail_nodes,
    rfl, ⟨block_span, parts, rfl, body, body_read, body_same⟩, tail_meant⟩
  rcases tail_meant with ⟨rfl, rfl⟩ | ⟨else_span, else_parts, rfl, other, other_read, other_same⟩
  · refine ⟨_, rfl, .branch found body [] at_span, ?_, ?_⟩
    · simp only [List.cons_append, List.nil_append, readStatement, read, body_read]
      rfl
    · simp only [Statement.withoutSpans, same, body_same]
  · refine ⟨_, rfl, .branch found body other at_span, ?_, ?_⟩
    · simp only [List.cons_append, List.nil_append, readStatement, read, body_read, other_read]
      rfl
    · simp only [Statement.withoutSpans, same, body_same, other_same]

/-! ### Bodies -/

/-- What stands behind a statement, where the other statements of a block and its bracket do. -/
theorem follower_body (indent : Nat) {more : List Char} (closing : skip rest = '\x7d' :: more)
    (body : List Statement) (written : Statement.ListWritten body)
    (floats : ∀ x ∈ Statement.listFloats body, Number.ReadsBack x) :
    Follower body.head? (skip (bodyText indent body ++ rest)) := by
  cases body with
  | nil =>
    show Follower none (skip rest)
    rw [closing]
    exact .closing more
  | cons s body =>
    rw [bodyText_cons, List.append_assoc]
    cases s with
    | assign target offset value span =>
      obtain ⟨⟨is_name, offset_written, -⟩, -⟩ := written
      rw [text_assign, skip_blanks, is_name.solid.skip]
      exact .assign is_name (targetEnd offset_written _)
    | branch condition whenTrue whenFalse span =>
      obtain ⟨⟨condition_written, -⟩, -⟩ := written
      rw [text_branch, skip_blanks, skip_cons_solid rfl]
      exact .branch condition_written (fun x inside => floats x
        (List.mem_append_left _ (List.mem_append_left _ (List.mem_append_left _ inside)))) _

/-- What follows a statement on a new line closes its value unless they collide. -/
theorem Follower.closes {next : Option Statement} (follower : Follower next (skip rest))
    {target : String} {offset : Option Offset} {value : Expr} {span : Span}
    (apart : ¬ Collides (.assign target offset value span) next) : Closes ('\n' :: rest) := by
  refine ⟨follower.rowEnds, ?_⟩
  rw [skip_newline]
  exact (follower.choice target offset value span).elim (fun collides => absurd collides.1 apart)
    And.right

/-- A block that stands on lines of its own. -/
theorem block_of_body (indent : Nat) (tail : List Char) {body : List Statement}
    (statements : ∀ rest, skip rest = '\x7d' :: tail →
      (Phrase.many Phrase.statement).Resumes (bodyText (indent + 4) body ++ rest) rest
        (SpellsBody body)) :
    (Phrase.rule .block).Yields ('\x7b' :: '\n' :: (bodyText (indent + 4) body ++
      (List.replicate indent ' ' ++ '\x7d' :: tail))) tail (SpellsBlock body) := by
  have closing : skip (List.replicate indent ' ' ++ '\x7d' :: tail) = '\x7d' :: tail := by
    rw [skip_blanks, skip_cons_solid rfl]
  exact block_yields (fun before same => statements _ closing before
    (same.trans (skip_newline _))) closing

/-- The second block of a statement with a condition, or what follows where there is none. -/
theorem else_yields {indent : Nat} {next : Option Statement} {body : List Statement}
    (follower : Follower next (skip rest))
    (block : (Phrase.rule .block).Yields ('\x7b' :: '\n' :: (bodyText (indent + 4) body ++
      (List.replicate indent ' ' ++ '\x7d' :: '\n' :: rest))) ('\n' :: rest)
        (SpellsBlock body)) :
    (Phrase.optional Phrase.elseTail).Yields (skip (elseText indent body rest)) rest
      (fun nodes => nodes = [] ∧ body = [] ∨ SpellsBlock body nodes) := by
  cases body with
  | nil =>
    rw [elseText, skip_newline]
    exact (Phrase.Yields.optional_none follower.no_else (.inl ⟨rfl, rfl⟩)).congr (skip_skip rest)
  | cons s body =>
    have no_if : (Phrase.rule .ifStmt).Rejects ('\x7b' :: '\n' ::
        (bodyText (indent + 4) (s :: body) ++
          (List.replicate indent ' ' ++ '\x7d' :: '\n' :: rest))) :=
      .rule rfl (.seq_first (.text rfl (by rintro ⟨⟩)))
    have word := (Phrase.Yields.text "else" (' ' :: '\x7b' :: '\n' ::
        (bodyText (indent + 4) (s :: body) ++
          (List.replicate indent ' ' ++ '\x7d' :: '\n' :: rest)))).next
      ((skip_blank _).trans (skip_cons_solid rfl _))
      ((block.congr (skip_newline rest)).alt_second no_if)
    refine (word.optional_some).imp ?_
    rintro _ ⟨_, nodes, rfl, rfl, spells⟩
    exact .inr spells

mutual

/-- **A statement reads back from its lines** if it does not collide with what follows. -/
theorem statement_yields (indent : Nat) {next : Option Statement} {rest : List Char}
    (s : Statement) (written : s.Written) (floats : ∀ x ∈ s.floats, Number.ReadsBack x)
    (inside : s.Apart) (follower : Follower next (skip rest)) (apart : ¬ Collides s next) :
    (Phrase.alt (.rule .ifStmt) (.rule .assign)).Yields
      (skip ((Text.unlines (s.lines indent)).toList ++ rest)) rest
      (fun nodes => ∃ node, nodes = [node] ∧ SpellsStatement s node) := by
  match s with
  | .assign target offset value span =>
    obtain ⟨is_name, offset_written, -⟩ := id written
    have no_if := ifStmt_rejects_word (targetEnd offset_written
      (value.render.toList ++ '\n' :: rest)).rest is_name.all
    rw [is_name.solid.skip] at no_if
    rw [text_assign, skip_blanks, is_name.solid.skip]
    exact .alt_second no_if (assign_yields written floats (follower.closes apart))
  | .branch condition whenTrue whenFalse span =>
    obtain ⟨condition_written, true_written, false_written⟩ := written
    obtain ⟨true_apart, false_apart⟩ := inside
    have true_block := block_of_body indent (elseText indent whenFalse rest)
      fun rest closing => body_resumes _ whenTrue true_written (fun x member =>
        floats x (List.mem_append_left _ (List.mem_append_right _ member))) true_apart closing
    have false_block := block_of_body indent ('\n' :: rest)
      fun rest closing => body_resumes _ whenFalse false_written (fun x member =>
        floats x (List.mem_append_right _ member)) false_apart closing
    rw [text_branch, skip_blanks, skip_cons_solid rfl]
    exact .alt_first (ifStmt_yields condition_written (fun x member => floats x
      (List.mem_append_left _ (List.mem_append_left _ member))) true_block
      (else_yields follower false_block))

/-- **The statements of a block read back from their lines** if no two of them collide. -/
theorem body_resumes (indent : Nat) {rest more : List Char} (body : List Statement)
    (written : Statement.ListWritten body)
    (floats : ∀ x ∈ Statement.listFloats body, Number.ReadsBack x)
    (apart : Statement.ListApart body) (closing : skip rest = '\x7d' :: more) :
    (Phrase.many Phrase.statement).Resumes (bodyText indent body ++ rest) rest
      (SpellsBody body) := by
  match body with
  | [] =>
    have no_statement : Phrase.statement.Rejects (skip (bodyText indent [] ++ rest)) := by
      show Phrase.statement.Rejects (skip rest)
      rw [closing]
      exact .seq_first (.alt (.rule rfl (.seq_first (.text rfl (by rintro ⟨⟩))))
        (.rule rfl (.seq_first (.rule_token rfl rfl))))
    exact .many_nil no_statement SpellsBody.nil
  | s :: body =>
    obtain ⟨here, others⟩ := written
    obtain ⟨inside, no_collision, others_apart⟩ := apart
    have others_floats : ∀ x ∈ Statement.listFloats body, Number.ReadsBack x :=
      fun x member => floats x (List.mem_append_right _ member)
    have follower := follower_body indent closing body others others_floats
    obtain ⟨c, cs, starts, -, -, -, no_semicolon⟩ := follower.head
    have rejects : (Phrase.text ";").Rejects (skip (bodyText indent body ++ rest)) := by
      rw [starts]
      exact .text rfl fun same => no_semicolon (Option.some.inj same)
    have semicolon : (Phrase.optional (Phrase.text ";")).Yields
        (skip (bodyText indent body ++ rest)) (skip (bodyText indent body ++ rest)) (· = []) :=
      .optional_none rejects rfl
    have first := statement_yields indent s here (fun x member => floats x
      (List.mem_append_left _ member)) inside follower no_collision
    rw [bodyText_cons, List.append_assoc]
    refine .many_cons (first.next rfl (semicolon.congr (skip_skip _)))
      (body_resumes indent body others others_floats others_apart closing) ?_
    rintro _ nodes ⟨_, _, rfl, ⟨node, rfl, spells⟩, rfl⟩ spells'
    exact SpellsBody.cons spells spells'

end

end Definition

end GridStencil
