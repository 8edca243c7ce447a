import GridStencil.Proofs.Definition.Row
import GridStencil.Proofs.Grammar.Shape
import GridStencil.Proofs.Number.Sign
import GridStencil.Proofs.Steps

/-!
**What is read from a text can be written.**

The tree of a text follows the grammar (`Node.Formed`), so the names in what is read from it are
names, its integers lie in their range, and its constants carry no sign. What an expression or a
statement reads as is clean (`ReadsClean`, `StatementReadsClean`) if its parts are, with one lemma
for each form of node; the tree of a text is put together from these.

* `readExpr_clean`, `readStatement_clean`: expressions and statements.
* `clean_of_readAll`: all definitions of a text.
-/

namespace GridStencil

open Grammar

/-! ### Nodes of the grammar -/

namespace Grammar

variable {node : Node} {r : Rule} {p : Phrase} {rules : List Rule}

theorem Node.Formed.part (formed : node.Formed) : ∀ part ∈ node.parts, part.Formed := by
  cases formed with
  | token => exact fun part inside => nomatch inside
  | phrase is_body outcome parts => exact parts

/-- The parts of a node follow the phrase of its rule. -/
theorem Node.Formed.shape (formed : node.Formed) {body : Phrase}
    (is_body : node.rule.body = .phrase body) : body.Shape (node.parts.map Node.rule) := by
  cases formed with
  | token other_body =>
    cases other_body.symm.trans is_body
  | phrase other_body outcome parts =>
    cases other_body.symm.trans is_body
    exact (Phrase.outcome_formed outcome).1

/-- The text of a token is what its pattern took. -/
theorem Node.Formed.taken (formed : node.Formed) {pattern : Pattern}
    (is_body : node.rule.body = .token pattern) :
    ∃ input taken rest, pattern.split input = some (taken, rest) ∧
      node.text = String.ofList taken := by
  cases formed with
  | token other_body split =>
    cases other_body.symm.trans is_body
    exact ⟨_, _, _, split, rfl⟩
  | phrase other_body outcome parts => cases other_body.symm.trans is_body

theorem Node.Formed.isName (formed : node.Formed) (is_identifier : node.rule = .identifier) :
    IsName node.text := by
  obtain ⟨input, taken, rest, split, same⟩ := formed.taken (by rw [is_identifier]; rfl)
  rw [same]
  exact IsName.of_split split

/-- A number starts with no sign. -/
theorem Node.Formed.no_sign (formed : node.Formed) (is_number : node.rule = .float ∨
    node.rule = .int) : ∀ c, node.text.toList.head? = some c → c ≠ '-' := by
  have number : ∃ input taken rest, (Pattern.float.split input = some (taken, rest) ∨
      Pattern.digits.split input = some (taken, rest)) ∧ node.text = String.ofList taken ∧
        input = taken ++ rest := by
    rcases is_number with is_float | is_int
    · obtain ⟨input, taken, rest, split, same⟩ := formed.taken (by rw [is_float]; rfl)
      exact ⟨input, taken, rest, .inl split, same, Pattern.append_of_split split⟩
    · obtain ⟨input, taken, rest, split, same⟩ := formed.taken (by rw [is_int]; rfl)
      exact ⟨input, taken, rest, .inr split, same, Pattern.append_of_split split⟩
  obtain ⟨input, taken, rest, split, same, rfl⟩ := number
  obtain ⟨first, others, starts, is_start⟩ := Pattern.number_starts split
  intro c head
  rw [same, String.toList_ofList] at head
  cases taken with
  | nil => cases head
  | cons d ds =>
    obtain rfl : d = c := Option.some.inj head
    obtain rfl : d = first := (List.cons.inj starts).1
    rintro rfl
    rcases is_start with digit | point
    · exact absurd digit (by decide)
    · exact absurd point (by decide)

theorem Phrase.Shape.of_rule (shape : (Phrase.rule r).Shape rules) : rules = [r] := by
  cases shape
  rfl

theorem Phrase.Shape.seq_rule (shape : Phrase.Shape (.seq (.rule r) p) rules) :
    ∃ more, rules = r :: more ∧ p.Shape more := by
  cases shape with
  | seq first second =>
    cases first
    exact ⟨_, rfl, second⟩

theorem Phrase.Shape.seq_token {pattern : Pattern}
    (shape : Phrase.Shape (.seq (.token pattern) p) rules) : p.Shape rules := by
  cases shape with
  | seq first second =>
    cases first
    exact second

/-- The rules that a phrase names. -/
def Phrase.named : Phrase → List Rule
  | empty | token _ => []
  | rule part => [part]
  | seq first second | alt first second => first.named ++ second.named
  | many item | optional item => item.named

theorem Phrase.Shape.mem_named (shape : p.Shape rules) : ∀ r ∈ rules, r ∈ p.named := by
  induction shape with
  | empty | token | many_nil | optional_none => exact fun r inside => nomatch inside
  | rule => exact fun r inside => inside
  | seq _ _ first_ih second_ih =>
    exact fun r inside => List.mem_append.mpr
      ((List.mem_append.mp inside).imp (first_ih r) (second_ih r))
  | alt_first _ ih => exact fun r inside => List.mem_append_left _ (ih r inside)
  | alt_second _ ih => exact fun r inside => List.mem_append_right _ (ih r inside)
  | many_cons _ _ item_ih many_ih =>
    exact fun r inside => (List.mem_append.mp inside).elim (item_ih r) (many_ih r)
  | optional_some _ ih => exact ih

end Grammar

namespace Definition

/-! ### Numbers -/

variable {node : Node}

theorem inRange_of_readInt {n : Int} (read : readInt node = .ok n) : Number.InRange n := by
  unfold readInt at read
  split at read
  next value found =>
    obtain rfl := Except.ok.inj read
    obtain ⟨m, -, checked⟩ := Option.bind_eq_some_iff.mp found
    obtain ⟨in_range, rfl⟩ := Number.checked_eq_some.mp checked
    exact in_range
  · cases read

theorem nonneg_of_readInt {n : Int} (no_sign : ∀ c, node.text.toList.head? = some c → c ≠ '-')
    (read : readInt node = .ok n) : 0 ≤ n := by
  unfold readInt at read
  split at read
  next value found =>
    obtain rfl := Except.ok.inj read
    obtain ⟨m, integer, checked⟩ := Option.bind_eq_some_iff.mp found
    obtain ⟨-, rfl⟩ := Number.checked_eq_some.mp checked
    obtain ⟨digits, sign⟩ := Number.splitSign_of_no_sign no_sign
    unfold Number.readInteger? at integer
    rw [sign] at integer
    dsimp only at integer
    split at integer
    · obtain rfl := Option.some.inj integer
      exact Int.natCast_nonneg _
    · cases integer
  · cases read

theorem unsigned_of_readFloat {x : Float}
    (no_sign : ∀ c, node.text.toList.head? = some c → c ≠ '-') (read : readFloat node = .ok x) :
    Number.Unsigned x := by
  unfold readFloat at read
  split at read
  next value found =>
    obtain rfl := Except.ok.inj read
    exact Number.unsigned_of_readFloat? no_sign found
  · cases read

theorem writtenOffset_of_readOffset {offset : Offset} (read : readOffset node = .ok offset) :
    WrittenOffset offset := by
  unfold readOffset at read
  split at read
  · obtain ⟨i, read_i, read⟩ := Steps.bind_eq_ok.mp read
    obtain ⟨j, read_j, read⟩ := Steps.bind_eq_ok.mp read
    obtain ⟨k, read_k, same⟩ := Steps.bind_eq_ok.mp read
    obtain rfl := Except.ok.inj same
    exact ⟨inRange_of_readInt read_i, inRange_of_readInt read_j, inRange_of_readInt read_k⟩
  · cases read

/-! ### Expressions -/

/-- Whether an expression can be written and its doubles carry no sign. -/
def Expr.Clean (e : Expr) : Prop := e.Written ∧ ∀ x ∈ e.floats, Number.Unsigned x

/-- Whether the operand that a part of a row is, if it is one, is clean. -/
def Item.Clean : Item → Prop
  | operand value => value.Clean
  | before _ _ | between _ _ => True

theorem Expr.Clean.truth (b : Bool) (span : Span) : (Expr.literal (.bool b) span).Clean :=
  ⟨trivial, fun _ inside => absurd inside List.not_mem_nil⟩

theorem Expr.Clean.name {n : String} (isName : IsName n) (span : Span) :
    (Expr.name n span).Clean :=
  ⟨isName, fun _ inside => absurd inside List.not_mem_nil⟩

theorem Expr.Clean.unary {arg : Expr} (op : UnaryOperator) (span : Span) (clean : arg.Clean) :
    (Expr.unary op arg span).Clean := clean

theorem Expr.Clean.binary {left right : Expr} (op : BinaryOperator) (span : Span)
    (left_clean : left.Clean) (right_clean : right.Clean) :
    (Expr.binary op left right span).Clean :=
  ⟨⟨left_clean.1, right_clean.1⟩, fun x inside =>
    (List.mem_append.mp inside).elim (left_clean.2 x) (right_clean.2 x)⟩

/-- What a row of clean parts binds to is clean. -/
theorem climb_extend_clean (steps : Nat) :
    (∀ strength items result, climb steps strength items = some result →
      (∀ item ∈ items, item.Clean) → result.1.Clean ∧ ∀ item ∈ result.2, item.Clean) ∧
    (∀ strength left items result, extend steps strength left items = some result →
      left.Clean → (∀ item ∈ items, item.Clean) →
        result.1.Clean ∧ ∀ item ∈ result.2, item.Clean) := by
  induction steps with
  | zero => exact ⟨fun _ _ _ absurd => (nomatch absurd), fun _ _ _ _ absurd => (nomatch absurd)⟩
  | succ steps ih =>
    obtain ⟨climb_ih, extend_ih⟩ := ih
    constructor
    · intro strength items result bound clean
      unfold climb at bound
      split at bound
      next value rest =>
        obtain ⟨here, others⟩ := List.forall_mem_cons.mp clean
        exact extend_ih _ _ _ _ bound here others
      next op span rest =>
        split at bound
        next arg rest' inner =>
          obtain ⟨arg_clean, rest_clean⟩ :=
            climb_ih _ _ _ inner (List.forall_mem_cons.mp clean).2
          exact extend_ih _ _ _ _ bound (arg_clean.unary op span) rest_clean
        · cases bound
      · cases bound
    · intro strength left items result bound left_clean clean
      unfold extend at bound
      split at bound
      next op span rest =>
        split at bound
        · split at bound
          next right rest' inner =>
            obtain ⟨right_clean, rest_clean⟩ :=
              climb_ih _ _ _ inner (List.forall_mem_cons.mp clean).2
            exact extend_ih _ _ _ _ bound (left_clean.binary op span right_clean) rest_clean
          · cases bound
        · obtain rfl := Option.some.inj bound
          exact ⟨left_clean, clean⟩
      · obtain rfl := Option.some.inj bound
        exact ⟨left_clean, clean⟩

theorem bind?_clean {items : List Item} {e : Expr} (clean : ∀ item ∈ items, item.Clean)
    (bound : bind? items = some e) : e.Clean := by
  unfold bind? at bound
  split at bound
  next value climbed =>
    obtain rfl := Option.some.inj bound
    exact ((climb_extend_clean _).1 _ _ _ climbed clean).1
  · cases bound

theorem readCall_clean {function : String} {arguments : List Expr} {e : Expr}
    (clean : ∀ arg ∈ arguments, arg.Clean) (read : readCall node function arguments = .ok e) :
    e.Clean := by
  unfold readCall at read
  split at read
  next arg =>
    split at read
    next op _ =>
      obtain rfl := Except.ok.inj read
      exact (clean arg List.mem_cons_self).unary op _
    · cases read
  next left right =>
    split at read
    next op _ =>
      obtain rfl := Except.ok.inj read
      exact (clean left List.mem_cons_self).binary op _
        (clean right (List.mem_cons_of_mem _ List.mem_cons_self))
    · cases read
  · cases read

/-- Whether what a node reads as is clean, if it is an expression. -/
def ReadsClean (node : Node) : Prop := ∀ e, readExpr node = .ok e → e.Clean

/-- Whether what a node reads as is clean, if it is a part of a row. -/
def ItemClean (node : Node) : Prop := ∀ item, readItem node = .ok item → item.Clean

/-- Whether what nodes read as is clean, if they are the parts of a row. -/
def ItemsClean (nodes : List Node) : Prop :=
  ∀ items, readItems nodes = .ok items → ∀ item ∈ items, item.Clean

/-- Whether what nodes read as is clean, if they are arguments. -/
def ArgumentsClean (nodes : List Node) : Prop :=
  ∀ es, readExprs nodes = .ok es → ∀ e ∈ es, e.Clean

section Nodes

variable {span : Span} {text : String} {parts rest : List Node}

theorem ReadsClean.of_ok {e : Expr} (reads : readExpr node = .ok e) (clean : e.Clean) :
    ReadsClean node := by
  intro found read
  obtain rfl := Except.ok.inj (reads.symm.trans read)
  exact clean

theorem ReadsClean.float (formed : (Node.mk .float span text parts).Formed) :
    ReadsClean (.mk .float span text parts) := by
  intro e read
  unfold readExpr at read
  obtain ⟨x, found, same⟩ := Steps.bind_eq_ok.mp read
  obtain rfl := Except.ok.inj same
  refine ⟨trivial, fun y inside => ?_⟩
  obtain rfl := List.mem_singleton.mp inside
  exact unsigned_of_readFloat (formed.no_sign (.inl rfl)) found

theorem ReadsClean.int (formed : (Node.mk .int span text parts).Formed) :
    ReadsClean (.mk .int span text parts) := by
  intro e read
  unfold readExpr at read
  obtain ⟨n, found, same⟩ := Steps.bind_eq_ok.mp read
  obtain rfl := Except.ok.inj same
  exact ⟨⟨nonneg_of_readInt (formed.no_sign (.inr rfl)) found, inRange_of_readInt found⟩,
    fun y inside => absurd inside List.not_mem_nil⟩

theorem ReadsClean.access {name offset : Node}
    (formed : (Node.mk .access span text [name, offset]).Formed) :
    ReadsClean (.mk .access span text [name, offset]) := by
  intro e read
  unfold readExpr at read
  obtain ⟨o, found, same⟩ := Steps.bind_eq_ok.mp read
  obtain rfl := Except.ok.inj same
  obtain ⟨more, rules, -⟩ := (formed.shape rfl).seq_rule
  have is_identifier : name.rule = .identifier := (List.cons.inj rules).1
  exact ⟨⟨(formed.part name List.mem_cons_self).isName is_identifier,
    writtenOffset_of_readOffset found⟩, fun y inside => absurd inside List.not_mem_nil⟩

theorem ReadsClean.call {function : Node} (arguments : ArgumentsClean rest) :
    ReadsClean (.mk .call span text (function :: rest)) := by
  intro e read
  unfold readExpr at read
  obtain ⟨es, found, called⟩ := Steps.bind_eq_ok.mp read
  exact readCall_clean (arguments es found) called

theorem ReadsClean.row (items : ItemsClean parts) : ReadsClean (.mk .arith span text parts) := by
  intro e read
  unfold readExpr at read
  obtain ⟨found, items_read, bound⟩ := Steps.bind_eq_ok.mp read
  split at bound
  next value is_bound =>
    obtain rfl := Except.ok.inj bound
    exact bind?_clean (items found items_read) is_bound
  next => cases bound

theorem ReadsClean.single {arith : Node} (clean : ReadsClean arith) :
    ReadsClean (.mk .expr span text [arith]) := by
  intro e read
  unfold readExpr at read
  exact clean e read

theorem ReadsClean.conditional {whenTrue condition whenFalse : Node}
    (true_clean : ReadsClean whenTrue) (condition_clean : ReadsClean condition)
    (false_clean : ReadsClean whenFalse) :
    ReadsClean (.mk .expr span text [whenTrue, condition, whenFalse]) := by
  intro e read
  unfold readExpr at read
  obtain ⟨t, true_read, read⟩ := Steps.bind_eq_ok.mp read
  obtain ⟨c, condition_read, read⟩ := Steps.bind_eq_ok.mp read
  obtain ⟨f, false_read, same⟩ := Steps.bind_eq_ok.mp read
  obtain rfl := Except.ok.inj same
  have t_clean := true_clean t true_read
  have c_clean := condition_clean c condition_read
  have f_clean := false_clean f false_read
  refine ⟨⟨c_clean.1, t_clean.1, f_clean.1⟩, fun x inside => ?_⟩
  rcases List.mem_append.mp inside with inside | inside
  · exact (List.mem_append.mp inside).elim (c_clean.2 x) (t_clean.2 x)
  · exact f_clean.2 x inside

theorem ItemClean.of_ok {item : Item} (reads : readItem node = .ok item) (clean : item.Clean) :
    ItemClean node := by
  intro found read
  obtain rfl := Except.ok.inj (reads.symm.trans read)
  exact clean

theorem ItemClean.operand (no_operator : infix? node.rule = none) (no_sign : sign? node.rule = none)
    (clean : ReadsClean node) : ItemClean node := by
  intro item read
  rw [readItem_operand no_operator no_sign] at read
  obtain ⟨e, found, same⟩ := Steps.bind_eq_ok.mp read
  obtain rfl := Except.ok.inj same
  exact clean e found

theorem ItemsClean.nil : ItemsClean [] := by
  intro items read
  unfold readItems at read
  obtain rfl := Except.ok.inj read
  exact fun item inside => absurd inside List.not_mem_nil

theorem ItemsClean.cons (here : ItemClean node) (others : ItemsClean rest) :
    ItemsClean (node :: rest) := by
  intro items read
  rw [readItems_cons] at read
  obtain ⟨item, found, read⟩ := Steps.bind_eq_ok.mp read
  obtain ⟨more, found_more, same⟩ := Steps.bind_eq_ok.mp read
  obtain rfl := Except.ok.inj same
  exact List.forall_mem_cons.mpr ⟨here item found, others more found_more⟩

theorem ArgumentsClean.nil : ArgumentsClean [] := by
  intro es read
  unfold readExprs at read
  obtain rfl := Except.ok.inj read
  exact fun e inside => absurd inside List.not_mem_nil

theorem ArgumentsClean.cons (here : ReadsClean node) (others : ArgumentsClean rest) :
    ArgumentsClean (node :: rest) := by
  intro es read
  unfold readExprs at read
  obtain ⟨e, found, read⟩ := Steps.bind_eq_ok.mp read
  obtain ⟨more, found_more, same⟩ := Steps.bind_eq_ok.mp read
  obtain rfl := Except.ok.inj same
  exact List.forall_mem_cons.mpr ⟨here e found, others more found_more⟩

end Nodes

/-- **The expressions of a text are clean**, and so are the parts of its rows and the arguments of
its calls. -/
theorem readExpr_clean : ∀ node : Node, node.Formed → ReadsClean node := by
  refine @readExpr.induct (fun node => node.Formed → ReadsClean node)
    (fun nodes => (∀ node ∈ nodes, node.Formed) → ItemsClean nodes)
    (fun nodes => (∀ node ∈ nodes, node.Formed) → ArgumentsClean nodes)
    ?float ?int ?yes ?no ?name ?access ?call ?row ?single ?conditional ?other ?noItems ?between
    ?sign ?operand ?noArguments ?arguments
  case float => exact fun span text parts formed => .float formed
  case int => exact fun span text parts formed => .int formed
  case yes => exact fun span text parts _ => .of_ok (by rw [readExpr]) (.truth true span)
  case no => exact fun span text parts _ => .of_ok (by rw [readExpr]) (.truth false span)
  case name =>
    exact fun span text parts formed => .of_ok (by rw [readExpr]; rfl)
      (.name (formed.isName rfl) span)
  case access => exact fun span text name offset formed => .access formed
  case call =>
    intro span text function arguments ih formed
    exact .call (ih fun node inside => formed.part node (List.mem_cons_of_mem _ inside))
  case row => exact fun span text parts ih formed => .row (ih formed.part)
  case single =>
    exact fun span text arith ih formed => .single (ih (formed.part arith List.mem_cons_self))
  case conditional =>
    intro span text whenTrue condition whenFalse true_ih condition_ih false_ih formed
    exact .conditional (true_ih (formed.part _ (by simp [Node.parts])))
      (condition_ih (formed.part _ (by simp [Node.parts])))
      (false_ih (formed.part _ (by simp [Node.parts])))
  case other =>
    intro rule span text parts no_float no_int no_true no_false no_name no_access no_call no_row
      no_single no_conditional formed e read
    rw [readExpr.eq_11 rule span text parts no_float no_int no_true no_false no_name no_access
      no_call no_row no_single no_conditional] at read
    cases read
  case noItems => exact fun _ => .nil
  case between =>
    intro node rest op is_operator ih formed
    exact .cons (.of_ok (readItem_between is_operator) trivial)
      (ih (List.forall_mem_cons.mp formed).2)
  case sign =>
    intro node rest op is_sign no_operator ih formed
    exact .cons (.of_ok (readItem_before no_operator is_sign) trivial)
      (ih (List.forall_mem_cons.mp formed).2)
  case operand =>
    intro node rest no_sign no_operator ih node_ih formed
    obtain ⟨here, there⟩ := List.forall_mem_cons.mp formed
    exact .cons (.operand no_operator no_sign (node_ih here)) (ih there)
  case noArguments => exact fun _ => .nil
  case arguments =>
    intro node rest node_ih ih formed
    obtain ⟨here, there⟩ := List.forall_mem_cons.mp formed
    exact .cons (node_ih here) (ih there)

/-! ### Statements -/

/-- Whether a statement can be written and its doubles carry no sign. -/
def Statement.Clean (s : Statement) : Prop := s.Written ∧ ∀ x ∈ s.floats, Number.Unsigned x

/-- Whether statements can be written and their doubles carry no sign. -/
def Statement.ListClean (body : List Statement) : Prop :=
  Statement.ListWritten body ∧ ∀ x ∈ Statement.listFloats body, Number.Unsigned x

theorem Statement.ListClean.nil : Statement.ListClean [] :=
  ⟨trivial, fun _ inside => absurd inside List.not_mem_nil⟩

theorem Statement.ListClean.cons {s : Statement} {body : List Statement} (clean : s.Clean)
    (others : Statement.ListClean body) : Statement.ListClean (s :: body) :=
  ⟨⟨clean.1, others.1⟩, fun x inside =>
    (List.mem_append.mp inside).elim (clean.2 x) (others.2 x)⟩

theorem Statement.Clean.branch {condition : Expr} {whenTrue whenFalse : List Statement}
    (span : Span) (condition_clean : condition.Clean) (true_clean : Statement.ListClean whenTrue)
    (false_clean : Statement.ListClean whenFalse) :
    (Statement.branch condition whenTrue whenFalse span).Clean := by
  refine ⟨⟨condition_clean.1, true_clean.1, false_clean.1⟩, fun x inside => ?_⟩
  rcases List.mem_append.mp inside with inside | inside
  · exact (List.mem_append.mp inside).elim (condition_clean.2 x) (true_clean.2 x)
  · exact false_clean.2 x inside

/-- The target of an assignment is a name. -/
theorem isName_of_assign {span : Span} {text : String} {target : Node} {parts : List Node}
    (formed : (Node.mk .assign span text (target :: parts)).Formed) : IsName target.text := by
  obtain ⟨more, rules, -⟩ := (formed.shape rfl).seq_rule
  exact (formed.part target List.mem_cons_self).isName (List.cons.inj rules).1

/-- Whether what a node reads as is clean, if it is a statement. -/
def StatementReadsClean (node : Node) : Prop := ∀ s, readStatement node = .ok s → s.Clean

/-- Whether what nodes read as is clean, if they are statements. -/
def BodyReadsClean (nodes : List Node) : Prop :=
  ∀ body, readStatements nodes = .ok body → Statement.ListClean body

section Nodes

variable {span block_span : Span} {text block_text : String} {condition : Node}
  {whenTrue rest : List Node}

theorem StatementReadsClean.plain {target value : Node}
    (formed : (Node.mk .assign span text [target, value]).Formed) :
    StatementReadsClean (.mk .assign span text [target, value]) := by
  intro s read
  unfold readStatement at read
  obtain ⟨e, found, same⟩ := Steps.bind_eq_ok.mp read
  obtain rfl := Except.ok.inj same
  have clean := readExpr_clean value (formed.part value (by simp [Node.parts])) e found
  exact ⟨⟨isName_of_assign formed, by rintro _ ⟨⟩, clean.1⟩, clean.2⟩

theorem StatementReadsClean.offset {target offset value : Node}
    (formed : (Node.mk .assign span text [target, offset, value]).Formed) :
    StatementReadsClean (.mk .assign span text [target, offset, value]) := by
  intro s read
  unfold readStatement at read
  obtain ⟨o, found_offset, read⟩ := Steps.bind_eq_ok.mp read
  obtain ⟨e, found, same⟩ := Steps.bind_eq_ok.mp read
  obtain rfl := Except.ok.inj same
  have clean := readExpr_clean value (formed.part value (by simp [Node.parts])) e found
  refine ⟨⟨isName_of_assign formed, ?_, clean.1⟩, clean.2⟩
  rintro _ ⟨⟩
  exact writtenOffset_of_readOffset found_offset

theorem StatementReadsClean.single (condition_clean : ReadsClean condition)
    (true_clean : BodyReadsClean whenTrue) :
    StatementReadsClean
      (.mk .ifStmt span text [condition, .mk .block block_span block_text whenTrue]) := by
  intro s read
  unfold readStatement at read
  obtain ⟨e, found, read⟩ := Steps.bind_eq_ok.mp read
  obtain ⟨body, found_body, same⟩ := Steps.bind_eq_ok.mp read
  obtain rfl := Except.ok.inj same
  exact .branch span (condition_clean e found) (true_clean body found_body) .nil

theorem StatementReadsClean.both {false_span : Span} {false_text : String} {whenFalse : List Node}
    (condition_clean : ReadsClean condition) (true_clean : BodyReadsClean whenTrue)
    (false_clean : BodyReadsClean whenFalse) :
    StatementReadsClean (.mk .ifStmt span text [condition,
      .mk .block block_span block_text whenTrue, .mk .block false_span false_text whenFalse]) := by
  intro s read
  unfold readStatement at read
  obtain ⟨e, found, read⟩ := Steps.bind_eq_ok.mp read
  obtain ⟨body, found_body, read⟩ := Steps.bind_eq_ok.mp read
  obtain ⟨other, found_other, same⟩ := Steps.bind_eq_ok.mp read
  obtain rfl := Except.ok.inj same
  exact .branch span (condition_clean e found) (true_clean body found_body)
    (false_clean other found_other)

theorem StatementReadsClean.chain {whenFalse : Node}
    (no_block : ∀ span text parts, whenFalse = .mk .block span text parts → False)
    (condition_clean : ReadsClean condition) (true_clean : BodyReadsClean whenTrue)
    (false_clean : StatementReadsClean whenFalse) :
    StatementReadsClean (.mk .ifStmt span text
      [condition, .mk .block block_span block_text whenTrue, whenFalse]) := by
  intro s read
  rw [readStatement.eq_5 span text condition block_span block_text whenTrue whenFalse no_block]
    at read
  obtain ⟨e, found, read⟩ := Steps.bind_eq_ok.mp read
  obtain ⟨body, found_body, read⟩ := Steps.bind_eq_ok.mp read
  obtain ⟨other, found_other, same⟩ := Steps.bind_eq_ok.mp read
  obtain rfl := Except.ok.inj same
  exact .branch span (condition_clean e found) (true_clean body found_body)
    (.cons (false_clean other found_other) .nil)

theorem BodyReadsClean.nil : BodyReadsClean [] := by
  intro body read
  unfold readStatements at read
  obtain rfl := Except.ok.inj read
  exact .nil

theorem BodyReadsClean.cons (here : StatementReadsClean node) (others : BodyReadsClean rest) :
    BodyReadsClean (node :: rest) := by
  intro body read
  unfold readStatements at read
  obtain ⟨s, found, read⟩ := Steps.bind_eq_ok.mp read
  obtain ⟨more, found_more, same⟩ := Steps.bind_eq_ok.mp read
  obtain rfl := Except.ok.inj same
  exact .cons (here s found) (others more found_more)

end Nodes

/-- **The statements of a text are clean.** -/
theorem readStatement_clean : ∀ node : Node, node.Formed → StatementReadsClean node := by
  refine @readStatement.induct (fun node => node.Formed → StatementReadsClean node)
    (fun nodes => (∀ node ∈ nodes, node.Formed) → BodyReadsClean nodes)
    ?plain ?offset ?single ?both ?chain ?other ?nil ?cons
  case plain => exact fun span text target value formed => .plain formed
  case offset => exact fun span text target offset value formed => .offset formed
  case single =>
    intro span text condition block_span block_text whenTrue true_ih formed
    have block := formed.part (.mk .block block_span block_text whenTrue) (by simp [Node.parts])
    exact .single (readExpr_clean condition (formed.part condition (by simp [Node.parts])))
      (true_ih block.part)
  case both =>
    intro span text condition true_span true_text whenTrue false_span false_text whenFalse true_ih
      false_ih formed
    have true_block := formed.part (.mk .block true_span true_text whenTrue) (by simp [Node.parts])
    have false_block := formed.part (.mk .block false_span false_text whenFalse)
      (by simp [Node.parts])
    exact .both (readExpr_clean condition (formed.part condition (by simp [Node.parts])))
      (true_ih true_block.part) (false_ih false_block.part)
  case chain =>
    intro span text condition block_span block_text whenTrue whenFalse no_block true_ih false_ih
      formed
    have block := formed.part (.mk .block block_span block_text whenTrue) (by simp [Node.parts])
    exact .chain no_block
      (readExpr_clean condition (formed.part condition (by simp [Node.parts])))
      (true_ih block.part) (false_ih (formed.part whenFalse (by simp [Node.parts])))
  case other =>
    intro rule span text parts no_plain no_offset no_single no_both no_chain formed s read
    rw [readStatement.eq_6 rule span text parts no_plain no_offset no_single no_both no_chain]
      at read
    cases read
  case nil => exact fun _ => .nil
  case cons =>
    intro node rest node_ih ih formed
    obtain ⟨here, there⟩ := List.forall_mem_cons.mp formed
    exact .cons (node_ih here) (ih there)

theorem readStatements_clean {nodes : List Node} (formed : ∀ node ∈ nodes, node.Formed) :
    BodyReadsClean nodes := by
  induction nodes with
  | nil => exact .nil
  | cons node rest ih =>
    obtain ⟨here, there⟩ := List.forall_mem_cons.mp formed
    exact .cons (readStatement_clean node here) (ih there)

/-! ### Intervals, sections and computations -/

theorem rule_of_outcome {r : Rule} {depth : Nat} {cursor : Cursor} {found : Match} {part : Node}
    (outcome : (Phrase.rule r).outcome depth cursor = some found) (nodes : found.nodes = [part]) :
    part.rule = r := by
  have shape := (Phrase.outcome_formed outcome).1
  rw [nodes] at shape
  cases shape
  rfl

/-- The external of a bound is a name that does not start with the word for the top, which the
grammar tries before. -/
theorem external_of_bound {part : Node} (formed : node.Formed) (is_bound : node.rule = .bound)
    (parts : node.parts = [part]) (is_identifier : part.rule = .identifier) :
    IsName part.text ∧ ¬ "None".toList <+: part.text.toList := by
  cases formed with
  | token other_body =>
    obtain rfl := is_bound
    cases other_body
  | @phrase r body other_body span depth cursor found outcome =>
    obtain rfl : r = .bound := is_bound
    obtain rfl := Body.phrase.inj other_body
    have nodes : found.nodes = [part] := parts
    cases depth with
    | zero => cases outcome
    | succ depth =>
      rcases Option.or_eq_some_iff.mp outcome with int | ⟨-, outcome⟩
      · cases is_identifier.symm.trans (rule_of_outcome int nodes)
      · cases depth with
        | zero => cases outcome
        | succ depth =>
          rcases Option.or_eq_some_iff.mp outcome with top | ⟨no_top, named⟩
          · cases is_identifier.symm.trans (rule_of_outcome top nodes)
          · cases depth with
            | zero => cases named
            | succ depth =>
              have no_word := Option.map_eq_none_iff.mp no_top
              obtain ⟨⟨taken, rest⟩, split, rfl⟩ := Option.map_eq_some_iff.mp named
              obtain rfl := (List.cons.inj nodes).1
              refine ⟨IsName.of_split split, fun starts => ?_⟩
              rw [Pattern.append_of_split split, Pattern.text, Pattern.split, if_pos] at no_word
              · cases no_word
              · have same : (String.ofList taken).toList = taken := String.toList_ofList
                have inside : "None".toList <+: taken := same ▸ starts
                exact List.isPrefixOf_iff_prefix.mpr (inside.trans (List.prefix_append _ _))

theorem bound_written {bound : Bound} (formed : node.Formed) (is_bound : node.rule = .bound)
    (read : readBound node = .ok bound) : bound.Written := by
  unfold readBound at read
  split at read
  next part parts =>
    split at read
    · obtain ⟨n, found, same⟩ := Steps.bind_eq_ok.mp read
      obtain rfl := Except.ok.inj same
      exact inRange_of_readInt found
    · obtain rfl := Except.ok.inj read
      trivial
    next is_identifier =>
      obtain rfl := Except.ok.inj read
      exact external_of_bound formed is_bound parts is_identifier
    · cases read
  · cases read

theorem range_written {range : Range} (formed : node.Formed)
    (is_range : node.rule = .intervalRange) (read : readRange node = .ok range) :
    range.Written := by
  have shape := formed.shape (by rw [is_range]; rfl)
  unfold readRange at read
  split at read
  · obtain rfl := Except.ok.inj read
    trivial
  next lower upper parts =>
    rw [parts] at shape
    obtain ⟨l, found, read⟩ := Steps.bind_eq_ok.mp read
    obtain ⟨u, found', same⟩ := Steps.bind_eq_ok.mp read
    obtain rfl := Except.ok.inj same
    have bounds : lower.rule = .bound ∧ upper.rule = .bound := by
      cases shape with
      | alt_first word => exact absurd (congrArg List.length word.of_rule) (by simp)
      | alt_second shape =>
        obtain ⟨more, rules, shape⟩ := shape.seq_rule
        obtain ⟨is_lower, rules⟩ := List.cons.inj rules
        rw [shape.seq_token.of_rule] at rules
        exact ⟨is_lower, (List.cons.inj rules).1⟩
    exact ⟨bound_written (formed.part lower (by simp [parts])) bounds.1 found,
      bound_written (formed.part upper (by simp [parts])) bounds.2 found'⟩
  · cases read

theorem readSection_clean {s : Section} (formed : node.Formed)
    (is_section : node.rule = .intervalDef) (read : readSection node = .ok s) :
    s.Written ∧ ∀ x ∈ Statement.listFloats s.body, Number.Unsigned x := by
  have shape := formed.shape (by rw [is_section]; rfl)
  unfold readSection at read
  split at read
  next range block parts =>
    rw [parts] at shape
    obtain ⟨r, found, read⟩ := Steps.bind_eq_ok.mp read
    obtain ⟨body, found_body, same⟩ := Steps.bind_eq_ok.mp read
    obtain rfl := Except.ok.inj same
    obtain ⟨more, rules, -⟩ := shape.seq_token.seq_token.seq_rule
    have is_range : range.rule = .intervalRange := (List.cons.inj rules).1
    have clean := readStatements_clean (formed.part block (by simp [parts])).part body found_body
    exact ⟨⟨range_written (formed.part range (by simp [parts])) is_range found, clean.1⟩, clean.2⟩
  · cases read

theorem readComputation_clean {c : Computation} (formed : node.Formed)
    (is_computation : node.rule = .computation) (read : readComputation node = .ok c) :
    c.Written ∧ ∀ x ∈ c.floats, Number.Unsigned x := by
  have shape := formed.shape (by rw [is_computation]; rfl)
  unfold readComputation at read
  split at read
  next policy sections parts =>
    rw [parts] at shape
    obtain ⟨found, all, same⟩ := Steps.bind_eq_ok.mp read
    obtain rfl := Except.ok.inj same
    obtain ⟨more, rules, shape⟩ := shape.seq_token.seq_token.seq_token.seq_rule
    obtain ⟨is_identifier, rfl⟩ := List.cons.inj rules
    have clean : ∀ s ∈ found, s.Written ∧ ∀ x ∈ Statement.listFloats s.body,
        Number.Unsigned x := by
      intro s inside
      obtain ⟨part, member, read⟩ := Steps.exists_left (Steps.mapM_eq_ok.mp all) inside
      have named : part.rule ∈ [Rule.intervalDef, .intervalDef] :=
        shape.mem_named part.rule (List.mem_map.mpr ⟨part, member, rfl⟩)
      have is_section : part.rule = .intervalDef := by simpa using named
      exact readSection_clean (formed.part part (by simp [parts, member])) is_section read
    refine ⟨⟨(formed.part policy (by simp [parts])).isName is_identifier, fun s inside =>
      (clean s inside).1⟩, fun x inside => ?_⟩
    obtain ⟨s, member, there⟩ := List.mem_flatMap.mp inside
    exact (clean s member).2 x there
  · cases read

/-! ### Signatures and stencils -/

theorem isName_of_readField {f : FieldParameter} (formed : node.Formed)
    (is_field : node.rule = .fieldParam) (read : readField node = .ok f) : IsName f.name := by
  have shape := formed.shape (by rw [is_field]; rfl)
  obtain ⟨more, rules, -⟩ := shape.seq_rule
  unfold readField at read
  split at read
  · next name type parts =>
    rw [parts] at rules
    obtain ⟨t, -, same⟩ := Steps.bind_eq_ok.mp read
    obtain rfl := Except.ok.inj same
    exact (formed.part name (by simp [parts])).isName (List.cons.inj rules).1
  · next name type dimensions parts =>
    rw [parts] at rules
    obtain ⟨t, -, same⟩ := Steps.bind_eq_ok.mp read
    obtain rfl := Except.ok.inj same
    exact (formed.part name (by simp [parts])).isName (List.cons.inj rules).1
  · cases read

theorem isName_of_readScalar {s : ScalarParameter} (formed : node.Formed)
    (is_scalar : node.rule = .scalarParam) (read : readScalar node = .ok s) : IsName s.name := by
  have shape := formed.shape (by rw [is_scalar]; rfl)
  obtain ⟨more, rules, -⟩ := shape.seq_rule
  unfold readScalar at read
  split at read
  · next name type parts =>
    rw [parts] at rules
    obtain ⟨t, -, same⟩ := Steps.bind_eq_ok.mp read
    obtain rfl := Except.ok.inj same
    exact (formed.part name (by simp [parts])).isName (List.cons.inj rules).1
  · cases read

/-- The names of the parameters of a signature are names. -/
theorem readParameters_names {nodes : List Node} (formed : ∀ node ∈ nodes, node.Formed)
    {marked : Bool} {signature : Signature} (read : readParameters marked nodes = .ok signature) :
    (∀ f ∈ signature.fields, IsName f.name) ∧ ∀ s ∈ signature.scalars, IsName s.name := by
  induction nodes generalizing marked signature with
  | nil =>
    obtain rfl := Except.ok.inj read
    exact ⟨fun _ inside => absurd inside List.not_mem_nil,
      fun _ inside => absurd inside List.not_mem_nil⟩
  | cons node rest ih =>
    obtain ⟨here, there⟩ := List.forall_mem_cons.mp formed
    unfold readParameters at read
    split at read
    · split at read
      · cases read
      · exact ih there read
    next is_field =>
      split at read
      · cases read
      · obtain ⟨f, found, read⟩ := Steps.bind_eq_ok.mp read
        obtain ⟨others, found_others, same⟩ := Steps.bind_eq_ok.mp read
        obtain rfl := Except.ok.inj same
        obtain ⟨fields, scalars⟩ := ih there found_others
        exact ⟨List.forall_mem_cons.mpr ⟨isName_of_readField here is_field found, fields⟩, scalars⟩
    next is_scalar =>
      split at read
      · obtain ⟨s, found, read⟩ := Steps.bind_eq_ok.mp read
        obtain ⟨others, found_others, same⟩ := Steps.bind_eq_ok.mp read
        obtain rfl := Except.ok.inj same
        obtain ⟨fields, scalars⟩ := ih there found_others
        exact ⟨fields, List.forall_mem_cons.mpr
          ⟨isName_of_readScalar here is_scalar found, scalars⟩⟩
      · cases read
    · cases read

theorem readStencil_clean {d : Definition} {source : Source} (formed : node.Formed)
    (is_stencil : node.rule = .stencilDef) (read : readStencil source node = .ok d) :
    d.Written ∧ ∀ x ∈ d.floats, Number.Unsigned x := by
  have shape := formed.shape (by rw [is_stencil]; rfl)
  unfold readStencil at read
  split at read
  next name parameters externals computations parts =>
    rw [parts] at shape
    obtain ⟨signature, found, read⟩ := Steps.bind_eq_ok.mp read
    obtain ⟨all, found_all, same⟩ := Steps.bind_eq_ok.mp read
    obtain rfl := Except.ok.inj same
    obtain ⟨_, rules, shape⟩ := shape.seq_token.seq_rule
    obtain ⟨is_name, rfl⟩ := List.cons.inj rules
    obtain ⟨_, rules, shape⟩ := shape.seq_token.seq_rule
    obtain ⟨-, rfl⟩ := List.cons.inj rules
    obtain ⟨_, rules, shape⟩ := shape.seq_token.seq_token.seq_rule
    obtain ⟨is_externals, rfl⟩ := List.cons.inj rules
    obtain ⟨_, rules, -⟩ := shape.seq_rule
    have is_computations : computations.rule = .computations := (List.cons.inj rules).1
    have parameters_formed := formed.part parameters (by simp [parts])
    have externals_formed := formed.part externals (by simp [parts])
    have computations_formed := formed.part computations (by simp [parts])
    have externals_shape := externals_formed.shape (by rw [is_externals]; rfl)
    have computations_shape := computations_formed.shape (by rw [is_computations]; rfl)
    obtain ⟨fields, scalars⟩ := readParameters_names parameters_formed.part found
    have clean : ∀ c ∈ all, c.Written ∧ ∀ x ∈ c.floats, Number.Unsigned x := by
      intro c inside
      obtain ⟨part, member, read⟩ := Steps.exists_left (Steps.mapM_eq_ok.mp found_all) inside
      have named : part.rule ∈ [Rule.computation] :=
        computations_shape.mem_named part.rule (List.mem_map.mpr ⟨part, member, rfl⟩)
      exact readComputation_clean (computations_formed.part part member)
        (List.mem_singleton.mp named) read
    refine ⟨⟨(formed.part name (by simp [parts])).isName is_name, fields, scalars, ?_,
      fun c inside =>
      (clean c inside).1⟩, fun x inside => ?_⟩
    · intro e inside
      obtain ⟨part, member, rfl⟩ := List.mem_map.mp inside
      have named : part.rule ∈ [Rule.identifier, .identifier] :=
        externals_shape.mem_named part.rule (List.mem_map.mpr ⟨part, member, rfl⟩)
      exact (externals_formed.part part member).isName (by simpa using named)
    · obtain ⟨c, member, there⟩ := List.mem_flatMap.mp inside
      exact (clean c member).2 x there
  · cases read

/-- **Definitions that are read from a text can be written**, and their doubles carry no sign. -/
theorem clean_of_readAll {source : Source} {definitions : List Definition}
    (read : readAll source = .ok definitions) :
    ∀ d ∈ definitions, d.Written ∧ ∀ x ∈ d.floats, Number.Unsigned x := by
  intro d inside
  unfold readAll at read
  split at read
  · cases read
  next root tree =>
    obtain ⟨node, member, read⟩ :=
      Steps.exists_left (Steps.mapM_eq_ok.mp (Steps.mapError_eq_ok.mp read)) inside
    obtain ⟨cursor, gives⟩ := readTree_ok_iff.mp tree
    have formed := (Phrase.gives_formed gives).2 root List.mem_cons_self
    obtain ⟨part, is_stencil⟩ := List.mem_filter.mp member
    exact readStencil_clean (formed.part node part) (of_decide_eq_true is_stencil) read

end Definition

end GridStencil
