import GridStencil.Proofs.Definition.Row
import GridStencil.Proofs.Definition.Stencil
import GridStencil.Proofs.Grammar.Trees
import GridStencil.Proofs.Steps

/-!
**What is read from a tree does not depend on its spans.**

Reading looks at the rules, the texts and the parts of nodes; spans are only written down, into what
is read and into faults. Where nodes are the same up to spans (`Node.Same`), the second one is read
if the first one is (`Steps.Carries`), and what they give is the same up to spans. Each form of
expression and statement carries over if its parts do (`ExprCarries`, `StatementCarries`).

* `readExpr_carries`, `readStatement_carries`: expressions and statements.
* `readStencil_carries`: a definition.
-/

namespace GridStencil.Definition

open Grammar
open Steps (Carries)

variable {node node' : Node}

/-- Whether two things are the same once something is forgotten. -/
def UpTo {α β : Type} (forget : α → β) (a a' : α) : Prop := forget a = forget a'

theorem map_eq_of_upTo {α β : Type} {forget : α → β} {xs xs' : List α}
    (same : List.Forall₂ (UpTo forget) xs xs') : xs.map forget = xs'.map forget := by
  induction same with
  | nil => rfl
  | cons here _ ih => rw [List.map_cons, List.map_cons, here, ih]

/-! ### Tokens and offsets -/

theorem readInt_carries (same : node.Same node') : Carries Eq (readInt node) (readInt node') := by
  unfold readInt
  rw [same.text]
  split
  · exact .ok rfl
  · exact .error _ _

theorem readFloat_carries (same : node.Same node') :
    Carries Eq (readFloat node) (readFloat node') := by
  unfold readFloat
  rw [same.text]
  split
  · exact .ok rfl
  · exact .error _ _

theorem readElementType_carries (same : node.Same node') :
    Carries Eq (readElementType node) (readElementType node') := by
  unfold readElementType
  rw [same.text]
  split
  · exact .ok rfl
  · exact .error _ _

theorem readOffset_carries (same : node.Same node') :
    Carries Eq (readOffset node) (readOffset node') := by
  unfold readOffset
  rcases same with ⟨_ | ⟨i_same, _ | ⟨j_same, _ | ⟨k_same, _ | _⟩⟩⟩⟩
  · exact .error _ _
  · exact .error _ _
  · exact .error _ _
  · refine (readInt_carries i_same).bind ?_
    rintro i _ rfl
    refine (readInt_carries j_same).bind ?_
    rintro j _ rfl
    refine (readInt_carries k_same).bind ?_
    rintro k _ rfl
    exact .ok rfl
  · exact .error _ _

/-! ### Expressions -/

theorem readCall_carries {function : String} {arguments arguments' : List Expr}
    (same : List.Forall₂ (UpTo Expr.withoutSpans) arguments arguments') :
    Carries (UpTo Expr.withoutSpans) (readCall node function arguments)
      (readCall node' function arguments') := by
  unfold readCall
  rcases same with _ | ⟨first, _ | ⟨second, _ | _⟩⟩
  · exact .error _ _
  · dsimp only
    split
    · exact .ok (congrArg (Expr.unary _ · noSpan) first)
    · exact .error _ _
  · dsimp only
    split
    · exact .ok (congrArg₂ (Expr.binary _ · · noSpan) first second)
    · exact .error _ _
  · exact .error _ _

/-- Whether a node and what is the same up to spans read as the same expression up to spans. -/
def ExprCarries (node : Node) : Prop :=
  ∀ node', node.Same node' → Carries (UpTo Expr.withoutSpans) (readExpr node) (readExpr node')

/-- Whether a node and what is the same up to spans read as the same part of a row up to spans. -/
def ItemCarries (node : Node) : Prop :=
  ∀ node', node.Same node' → Carries (UpTo Item.withoutSpans) (readItem node) (readItem node')

/-- Whether some nodes and what is the same up to spans read as the same row up to spans. -/
def ItemsCarry (nodes : List Node) : Prop :=
  ∀ nodes', List.Forall₂ Node.Same nodes nodes' →
    Carries (List.Forall₂ (UpTo Item.withoutSpans)) (readItems nodes) (readItems nodes')

/-- Whether some nodes and what is the same up to spans read as the same arguments up to spans. -/
def ArgumentsCarry (nodes : List Node) : Prop :=
  ∀ nodes', List.Forall₂ Node.Same nodes nodes' →
    Carries (List.Forall₂ (UpTo Expr.withoutSpans)) (readExprs nodes) (readExprs nodes')

section Nodes

variable {span : Span} {text : String} {parts rest : List Node}

theorem ExprCarries.float : ExprCarries (.mk .float span text parts) := by
  rintro _ ⟨same⟩
  unfold readExpr
  exact (readFloat_carries (.mk same)).bind fun _ _ same => .ok (by rw [same]; rfl)

theorem ExprCarries.int : ExprCarries (.mk .int span text parts) := by
  rintro _ ⟨same⟩
  unfold readExpr
  exact (readInt_carries (.mk same)).bind fun _ _ same => .ok (by rw [same]; rfl)

/-- What a token reads as on its own depends on its rule and its text. -/
theorem ExprCarries.token {r : Rule} (token : r = .trueLit ∨ r = .falseLit ∨ r = .identifier) :
    ExprCarries (.mk r span text parts) := by
  rintro _ ⟨-⟩
  rcases token with rfl | rfl | rfl <;> unfold readExpr <;> exact .ok rfl

theorem ExprCarries.access {name offset : Node} :
    ExprCarries (.mk .access span text [name, offset]) := by
  rintro _ ⟨_ | ⟨name_same, _ | ⟨offset_same, _ | _⟩⟩⟩
  unfold readExpr
  refine (readOffset_carries offset_same).bind fun _ _ same => .ok ?_
  rw [same, name_same.text]
  rfl

theorem ExprCarries.call {function : Node} (arguments : ArgumentsCarry rest) :
    ExprCarries (.mk .call span text (function :: rest)) := by
  rintro _ ⟨_ | ⟨function_same, arguments_same⟩⟩
  unfold readExpr
  rw [function_same.text]
  exact (arguments _ arguments_same).bind fun _ _ same => readCall_carries same

theorem ExprCarries.row (items : ItemsCarry parts) : ExprCarries (.mk .arith span text parts) := by
  rintro _ ⟨same⟩
  unfold readExpr
  refine (items _ same).bind fun items items' same => ?_
  have bound : (bind? items).map Expr.withoutSpans = (bind? items').map Expr.withoutSpans := by
    rw [← bind?_withoutSpans, map_eq_of_upTo same, bind?_withoutSpans]
  cases here : bind? items with
  | none => exact .error _ _
  | some value =>
    rw [here, Option.map_some] at bound
    obtain ⟨value', here', value_same⟩ := Option.map_eq_some_iff.mp bound.symm
    rw [here']
    exact .ok value_same.symm

theorem ExprCarries.single {arith : Node} (carries : ExprCarries arith) :
    ExprCarries (.mk .expr span text [arith]) := by
  rintro _ ⟨_ | ⟨same, _ | _⟩⟩
  unfold readExpr
  exact carries _ same

theorem ExprCarries.conditional {whenTrue condition whenFalse : Node}
    (true_carries : ExprCarries whenTrue) (condition_carries : ExprCarries condition)
    (false_carries : ExprCarries whenFalse) :
    ExprCarries (.mk .expr span text [whenTrue, condition, whenFalse]) := by
  rintro _ ⟨_ | ⟨true_same, _ | ⟨condition_same, _ | ⟨false_same, _ | _⟩⟩⟩⟩
  unfold readExpr
  refine (true_carries _ true_same).bind fun whenTrue whenTrue' true_same => ?_
  refine (condition_carries _ condition_same).bind fun condition condition' condition_same => ?_
  refine (false_carries _ false_same).bind fun whenFalse whenFalse' false_same => .ok ?_
  simp only [UpTo, Expr.withoutSpans] at true_same condition_same false_same ⊢
  rw [true_same, condition_same, false_same]

theorem ItemCarries.between {op : BinaryOperator} (is_operator : infix? node.rule = some op) :
    ItemCarries node := by
  intro node' same
  rw [readItem_between is_operator, readItem_between (same.rule ▸ is_operator)]
  exact .ok rfl

theorem ItemCarries.sign {op : UnaryOperator} (no_operator : infix? node.rule = none)
    (is_sign : sign? node.rule = some op) : ItemCarries node := by
  intro node' same
  rw [readItem_before no_operator is_sign,
    readItem_before (same.rule ▸ no_operator) (same.rule ▸ is_sign)]
  exact .ok rfl

theorem ItemCarries.operand (no_operator : infix? node.rule = none)
    (no_sign : sign? node.rule = none) (carries : ExprCarries node) : ItemCarries node := by
  intro node' same
  rw [readItem_operand no_operator no_sign,
    readItem_operand (same.rule ▸ no_operator) (same.rule ▸ no_sign)]
  exact (carries _ same).bind fun _ _ here => .ok (congrArg Item.operand here)

theorem ItemsCarry.nil : ItemsCarry [] := by
  rintro _ ⟨⟩
  unfold readItems
  exact .ok .nil

theorem ItemsCarry.cons (here : ItemCarries node) (others : ItemsCarry rest) :
    ItemsCarry (node :: rest) := by
  rintro _ (_ | ⟨same, more_same⟩)
  rw [readItems_cons, readItems_cons]
  exact (here _ same).bind fun _ _ first => (others _ more_same).bind fun _ _ more =>
    .ok (.cons first more)

theorem ArgumentsCarry.nil : ArgumentsCarry [] := by
  rintro _ ⟨⟩
  unfold readExprs
  exact .ok .nil

theorem ArgumentsCarry.cons (here : ExprCarries node) (others : ArgumentsCarry rest) :
    ArgumentsCarry (node :: rest) := by
  rintro _ (_ | ⟨same, more_same⟩)
  unfold readExprs
  exact (here _ same).bind fun _ _ first => (others _ more_same).bind fun _ _ more =>
    .ok (.cons first more)

end Nodes

/-- **Nodes that are the same up to spans give expressions that are the same up to spans.** -/
theorem readExpr_carries : ∀ node : Node, ExprCarries node := by
  refine @readExpr.induct ExprCarries ItemsCarry ArgumentsCarry
    ?float ?int ?yes ?no ?name ?access ?call ?row ?single ?conditional ?other ?noItems ?between
    ?sign ?operand ?noArguments ?arguments
  case float => exact fun span text parts => .float
  case int => exact fun span text parts => .int
  case yes => exact fun span text parts => .token (.inl rfl)
  case no => exact fun span text parts => .token (.inr (.inl rfl))
  case name => exact fun span text parts => .token (.inr (.inr rfl))
  case access => exact fun span text name offset => .access
  case call => exact fun span text function arguments ih => .call ih
  case row => exact fun span text parts ih => .row ih
  case single => exact fun span text arith ih => .single ih
  case conditional =>
    exact fun span text whenTrue condition whenFalse true_ih condition_ih false_ih =>
      .conditional true_ih condition_ih false_ih
  case other =>
    intro rule span text parts no_float no_int no_true no_false no_name no_access no_call no_row
      no_single no_conditional node' _
    rw [readExpr.eq_11 rule span text parts no_float no_int no_true no_false no_name no_access
      no_call no_row no_single no_conditional]
    exact .error _ _
  case noItems => exact .nil
  case between => exact fun node rest op is_operator ih => .cons (.between is_operator) ih
  case sign => exact fun node rest op is_sign no_operator ih => .cons (.sign no_operator is_sign) ih
  case operand =>
    exact fun node rest no_sign no_operator ih node_ih =>
      .cons (.operand no_operator no_sign node_ih) ih
  case noArguments => exact .nil
  case arguments => exact fun node rest node_ih ih => .cons node_ih ih

/-! ### Statements -/

theorem listWithoutSpans_eq_of_upTo {body body' : List Statement}
    (same : List.Forall₂ (UpTo Statement.withoutSpans) body body') :
    Statement.listWithoutSpans body = Statement.listWithoutSpans body' := by
  induction same with
  | nil => rfl
  | cons here _ ih =>
    rw [Statement.listWithoutSpans, Statement.listWithoutSpans, here, ih]

/-- Whether a node and what is the same up to spans read as the same statement up to spans. -/
def StatementCarries (node : Node) : Prop :=
  ∀ node', node.Same node' →
    Carries (UpTo Statement.withoutSpans) (readStatement node) (readStatement node')

/-- Whether some nodes and what is the same up to spans read as the same statements up to spans. -/
def BodyCarries (nodes : List Node) : Prop :=
  ∀ nodes', List.Forall₂ Node.Same nodes nodes' →
    Carries (List.Forall₂ (UpTo Statement.withoutSpans)) (readStatements nodes)
      (readStatements nodes')

section Nodes

variable {span block_span : Span} {text block_text : String} {condition : Node}
  {whenTrue rest : List Node}

theorem StatementCarries.plain {target value : Node} :
    StatementCarries (.mk .assign span text [target, value]) := by
  rintro _ ⟨_ | ⟨target_same, _ | ⟨value_same, _ | _⟩⟩⟩
  unfold readStatement
  rw [target_same.text]
  exact (readExpr_carries _ _ value_same).bind fun _ _ same =>
    .ok (congrArg (Statement.assign _ none · noSpan) same)

theorem StatementCarries.offset {target offset value : Node} :
    StatementCarries (.mk .assign span text [target, offset, value]) := by
  rintro _ ⟨_ | ⟨target_same, _ | ⟨offset_same, _ | ⟨value_same, _ | _⟩⟩⟩⟩
  unfold readStatement
  rw [target_same.text]
  refine (readOffset_carries offset_same).bind ?_
  rintro offset _ rfl
  exact (readExpr_carries _ _ value_same).bind fun _ _ same =>
    .ok (congrArg (Statement.assign _ (some offset) · noSpan) same)

theorem StatementCarries.single (true_carries : BodyCarries whenTrue) :
    StatementCarries
      (.mk .ifStmt span text [condition, .mk .block block_span block_text whenTrue]) := by
  rintro _ ⟨_ | ⟨condition_same, _ | ⟨⟨true_same⟩, _ | _⟩⟩⟩
  unfold readStatement
  refine (readExpr_carries _ _ condition_same).bind fun condition condition' here => ?_
  refine (true_carries _ true_same).bind fun whenTrue whenTrue' there => .ok ?_
  simp only [UpTo, Statement.withoutSpans, Statement.listWithoutSpans] at here ⊢
  rw [here, listWithoutSpans_eq_of_upTo there]

theorem StatementCarries.both {false_span : Span} {false_text : String} {whenFalse : List Node}
    (true_carries : BodyCarries whenTrue) (false_carries : BodyCarries whenFalse) :
    StatementCarries (.mk .ifStmt span text [condition,
      .mk .block block_span block_text whenTrue, .mk .block false_span false_text whenFalse]) := by
  rintro _ ⟨_ | ⟨condition_same, _ | ⟨⟨true_same⟩, _ | ⟨⟨false_same⟩, _ | _⟩⟩⟩⟩
  unfold readStatement
  refine (readExpr_carries _ _ condition_same).bind fun condition condition' here => ?_
  refine (true_carries _ true_same).bind fun whenTrue whenTrue' there => ?_
  refine (false_carries _ false_same).bind fun whenFalse whenFalse' otherwise => .ok ?_
  simp only [UpTo, Statement.withoutSpans] at here ⊢
  rw [here, listWithoutSpans_eq_of_upTo there, listWithoutSpans_eq_of_upTo otherwise]

theorem StatementCarries.chain {whenFalse : Node}
    (no_block : ∀ span text parts, whenFalse = .mk .block span text parts → False)
    (true_carries : BodyCarries whenTrue) (false_carries : StatementCarries whenFalse) :
    StatementCarries (.mk .ifStmt span text
      [condition, .mk .block block_span block_text whenTrue, whenFalse]) := by
  rintro _ ⟨_ | ⟨condition_same, _ | ⟨⟨true_same⟩, _ | ⟨false_same, _ | _⟩⟩⟩⟩
  rename_i block_span' whenTrue' whenFalse'
  have no_block' : ∀ span text parts, whenFalse' = .mk .block span text parts → False := by
    rintro span text parts rfl
    obtain ⟨-⟩ := false_same
    exact no_block _ _ _ rfl
  rw [readStatement.eq_5 _ _ _ _ _ _ _ no_block, readStatement.eq_5 _ _ _ _ _ _ _ no_block']
  refine (readExpr_carries _ _ condition_same).bind fun condition condition' here => ?_
  refine (true_carries _ true_same).bind fun whenTrue whenTrue' there => ?_
  refine (false_carries _ false_same).bind fun whenFalse whenFalse' otherwise => .ok ?_
  simp only [UpTo, Statement.withoutSpans, Statement.listWithoutSpans] at here otherwise ⊢
  rw [here, listWithoutSpans_eq_of_upTo there, otherwise]

theorem BodyCarries.nil : BodyCarries [] := by
  rintro _ ⟨⟩
  unfold readStatements
  exact .ok .nil

theorem BodyCarries.cons (here : StatementCarries node) (others : BodyCarries rest) :
    BodyCarries (node :: rest) := by
  rintro _ (_ | ⟨same, more_same⟩)
  unfold readStatements
  exact (here _ same).bind fun _ _ first => (others _ more_same).bind fun _ _ more =>
    .ok (.cons first more)

end Nodes

/-- **Nodes that are the same up to spans give statements that are the same up to spans.** -/
theorem readStatement_carries : ∀ node : Node, StatementCarries node := by
  refine @readStatement.induct StatementCarries BodyCarries
    ?plain ?offset ?single ?both ?chain ?other ?nil ?cons
  case plain => exact fun span text target value => .plain
  case offset => exact fun span text target offset value => .offset
  case single =>
    exact fun span text condition block_span block_text whenTrue true_ih => .single true_ih
  case both =>
    exact fun span text condition true_span true_text whenTrue false_span false_text whenFalse
      true_ih false_ih => .both true_ih false_ih
  case chain =>
    exact fun span text condition block_span block_text whenTrue whenFalse no_block true_ih
      false_ih => .chain no_block true_ih false_ih
  case other =>
    intro rule span text parts no_plain no_offset no_single no_both no_chain node' _
    rw [readStatement.eq_6 rule span text parts no_plain no_offset no_single no_both no_chain]
    exact .error _ _
  case nil => exact .nil
  case cons => exact fun node rest node_ih ih => .cons node_ih ih

theorem readStatements_carries (nodes : List Node) : BodyCarries nodes := by
  induction nodes with
  | nil => exact .nil
  | cons node rest ih => exact .cons (readStatement_carries node) ih

/-! ### Intervals -/

theorem readBound_carries (same : node.Same node') :
    Carries (UpTo Bound.withoutSpans) (readBound node) (readBound node') := by
  unfold readBound
  rcases same with ⟨_ | ⟨part_same, _ | _⟩⟩
  · exact .error _ _
  · dsimp only [Node.parts]
    rw [← part_same.rule, ← part_same.text]
    split
    · refine (readInt_carries part_same).bind ?_
      rintro value _ rfl
      exact .ok rfl
    · exact .ok rfl
    · exact .ok rfl
    · exact .error _ _
  · exact .error _ _

theorem readRange_carries (same : node.Same node') :
    Carries (UpTo Range.withoutSpans) (readRange node) (readRange node') := by
  unfold readRange
  rcases same with ⟨_ | ⟨lower_same, _ | ⟨upper_same, _ | _⟩⟩⟩
  · exact .error _ _
  · exact .ok rfl
  · refine (readBound_carries lower_same).bind fun lower lower' here => ?_
    exact (readBound_carries upper_same).bind fun upper upper' there =>
      .ok (congrArg₂ Range.between here there)
  · exact .error _ _

theorem readSection_carries (same : node.Same node') :
    Carries (UpTo Section.withoutSpans) (readSection node) (readSection node') := by
  unfold readSection
  rcases same with ⟨_ | ⟨range_same, _ | ⟨block_same, _ | _⟩⟩⟩
  · exact .error _ _
  · exact .error _ _
  · refine (readRange_carries range_same).bind fun range range' here => ?_
    refine (readStatements_carries _ _ block_same.parts).bind fun body body' there => .ok ?_
    simp only [UpTo, Section.withoutSpans] at here ⊢
    rw [here, listWithoutSpans_eq_of_upTo there]
  · exact .error _ _

theorem readComputation_carries (same : node.Same node') :
    Carries (UpTo Computation.withoutSpans) (readComputation node) (readComputation node') := by
  unfold readComputation
  rcases same with ⟨_ | ⟨policy_same, sections_same⟩⟩
  · exact .error _ _
  · refine (Carries.mapM sections_same fun _ _ => readSection_carries).bind
      fun sections sections' here => .ok ?_
    simp only [UpTo, Computation.withoutSpans]
    rw [map_eq_of_upTo here, policy_same.text]

/-! ### Signatures -/

theorem readField_carries (same : node.Same node') :
    Carries (UpTo FieldParameter.withoutSpan) (readField node) (readField node') := by
  unfold readField
  rcases same with ⟨_ | ⟨name_same, _ | ⟨type_same, _ | ⟨dimensions_same, _ | _⟩⟩⟩⟩
  · exact .error _ _
  · exact .error _ _
  · refine (readElementType_carries type_same).bind ?_
    rintro type _ rfl
    exact .ok (by rw [UpTo, name_same.text]; rfl)
  · refine (readElementType_carries type_same).bind ?_
    rintro type _ rfl
    exact .ok (by rw [UpTo, name_same.text, dimensions_same.rule]; rfl)
  · exact .error _ _

theorem readScalar_carries (same : node.Same node') :
    Carries (UpTo ScalarParameter.withoutSpan) (readScalar node) (readScalar node') := by
  unfold readScalar
  rcases same with ⟨_ | ⟨name_same, _ | ⟨type_same, _ | _⟩⟩⟩
  · exact .error _ _
  · exact .error _ _
  · refine (readElementType_carries type_same).bind ?_
    rintro type _ rfl
    exact .ok (by rw [UpTo, name_same.text]; rfl)
  · exact .error _ _

/-- A signature with its spans forgotten. -/
def Signature.withoutSpans (signature : Signature) : Signature :=
  ⟨signature.fields.map FieldParameter.withoutSpan,
    signature.scalars.map ScalarParameter.withoutSpan⟩

theorem readParameters_carries {nodes nodes' : List Node}
    (same : List.Forall₂ Node.Same nodes nodes') (marked : Bool) :
    Carries (UpTo Signature.withoutSpans) (readParameters marked nodes)
      (readParameters marked nodes') := by
  induction same generalizing marked with
  | nil => exact .ok rfl
  | cons here _ ih =>
    unfold readParameters
    rw [← here.rule]
    split
    · split
      · exact .error _ _
      · exact ih true
    · split
      · exact .error _ _
      · refine (readField_carries here).bind fun field field' first => ?_
        refine (ih marked).bind fun signature signature' more => .ok ?_
        simp only [UpTo, Signature.withoutSpans, Signature.mk.injEq, List.map_cons] at first more ⊢
        exact ⟨by rw [first, more.1], more.2⟩
    · split
      · refine (readScalar_carries here).bind fun scalar scalar' first => ?_
        refine (ih marked).bind fun signature signature' more => .ok ?_
        simp only [UpTo, Signature.withoutSpans, Signature.mk.injEq, List.map_cons] at first more ⊢
        exact ⟨more.1, by rw [first, more.2]⟩
      · exact .error _ _
    · exact .error _ _

/-! ### Definitions -/

theorem names_eq_of_same {nodes nodes' : List Node} (same : List.Forall₂ Node.Same nodes nodes') :
    nodes.map (fun node => (node.text, noSpan)) = nodes'.map fun node => (node.text, noSpan) := by
  induction same with
  | nil => rfl
  | cons here _ ih => rw [List.map_cons, List.map_cons, here.text, ih]

theorem readStencil_carries (source source' : Source) (same : node.Same node') :
    Carries (UpTo withoutSpans) (readStencil source node) (readStencil source' node') := by
  unfold readStencil
  rcases same with ⟨_ | ⟨name_same, _ | ⟨parameters_same, _ | ⟨externals_same, _ |
    ⟨computations_same, _ | _⟩⟩⟩⟩⟩
  · exact .error _ _
  · exact .error _ _
  · exact .error _ _
  · exact .error _ _
  · refine (readParameters_carries parameters_same.parts false).bind
      fun signature signature' parameters => ?_
    refine (Carries.mapM computations_same.parts fun _ _ => readComputation_carries).bind
      fun computations computations' blocks => .ok ?_
    simp only [UpTo, Signature.withoutSpans, Signature.mk.injEq] at parameters
    simp only [UpTo, withoutSpans_eq, parameters.1, parameters.2, map_eq_of_upTo blocks,
      name_same.text, List.map_map]
    exact congrArg (Definition.mk _ _ _ _ · _ _) (names_eq_of_same externals_same.parts)
  · exact .error _ _

end GridStencil.Definition
