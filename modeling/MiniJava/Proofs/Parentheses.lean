import MiniJava.Analysis.Nodes
import MiniJava.Analysis.Rename
import MiniJava.Analysis.Typing
import MiniJava.Program.Map
import MiniJava.Proofs.Outcome

/-!
# Grouping parentheses

Parentheses show in the span of an expression, and nowhere else. A check compares the types of
expressions and hands their spans on to its errors, so it takes the same course without parentheses:
`Expr.check_stripParens` and, from it, `Program.check_stripParens`. The declarations of a program are
not in its expressions at all: `Program.declare_stripParens`.
-/

namespace MiniJava

variable {α β : Type}

/-! ### Nodes without parentheses -/

theorem Expr.stripAllParens_eq_map (es : List Expr) :
    Expr.stripAllParens es = es.map Expr.stripParens := by
  induction es with
  | nil => rfl
  | cons e es ih => rw [Expr.stripAllParens, List.map_cons, ih]

theorem Stmt.stripAllParens_eq_map (body : List Stmt) :
    Stmt.stripAllParens body = body.map Stmt.stripParens := by
  induction body with
  | nil => rfl
  | cons stmt body ih => rw [Stmt.stripAllParens, List.map_cons, ih]

theorem Expr.stripParens_ne_paren (e : Expr) (span : Span) (inner : Expr) :
    e.stripParens ≠ .paren span inner :=
  match e with
  | .paren _ e => by
    rw [Expr.stripParens]
    exact e.stripParens_ne_paren span inner
  | .int .. | .bool .. | .ident .. | .this .. | .binary .. | .not .. | .index .. | .length ..
  | .send .. | .newArray .. | .newObject .. => by
    rw [Expr.stripParens]
    rintro ⟨⟩

theorem Expr.parts_stripParens (e : Expr) :
    ∀ part ∈ e.stripParens.parts, ∃ e', Expr.stripParens e' = part :=
  match e with
  | .paren _ e => by
    rw [Expr.stripParens]
    exact e.parts_stripParens
  | .int .. | .bool .. | .ident .. | .this .. | .binary .. | .not .. | .index .. | .length ..
  | .send .. | .newArray .. | .newObject .. => by
    simp [Expr.stripParens, Expr.parts, Expr.stripAllParens_eq_map]

theorem Stmt.exprs_stripParens (stmt : Stmt) :
    stmt.stripParens.exprs = stmt.exprs.map Expr.stripParens := by
  cases stmt <;> rw [Stmt.stripParens] <;> rfl

theorem Stmt.stmts_stripParens (stmt : Stmt) :
    stmt.stripParens.stmts = stmt.stmts.map Stmt.stripParens := by
  cases stmt with
  | block span body =>
    rw [Stmt.stripParens]
    exact Stmt.stripAllParens_eq_map body
  | assign | arrayAssign | ifElse | whileLoop | print =>
    rw [Stmt.stripParens]
    rfl

/-- A node without grouping parentheses. -/
def Node.stripParens : Node → Node
  | expr e => .expr e.stripParens
  | stmt s => .stmt s.stripParens
  | var d => .var d
  | method d => .method d.stripParens

theorem Node.parts_stripParens (n : Node) :
    ∀ part ∈ n.stripParens.parts, ∃ m, Node.stripParens m = part := by
  intro part hpart
  cases n with
  | expr e =>
    obtain ⟨e', he', rfl⟩ := List.mem_map.mp hpart
    obtain ⟨e'', rfl⟩ := e.parts_stripParens e' he'
    exact ⟨.expr e'', rfl⟩
  | stmt s =>
    rw [Node.stripParens, Node.parts, s.exprs_stripParens, s.stmts_stripParens, List.map_map,
      List.map_map, List.mem_append, List.mem_map, List.mem_map] at hpart
    rcases hpart with ⟨e, -, rfl⟩ | ⟨s', -, rfl⟩
    · exact ⟨.expr e, rfl⟩
    · exact ⟨.stmt s', rfl⟩
  | var d => cases hpart
  | method d =>
    rw [Node.stripParens, Node.parts, MethodDecl.stripParens, Stmt.stripAllParens_eq_map,
      List.map_map, List.mem_append, List.mem_append, List.mem_map, List.mem_map,
      List.mem_singleton] at hpart
    rcases hpart with (⟨v, -, rfl⟩ | ⟨s, -, rfl⟩) | rfl
    · exact ⟨.var v, rfl⟩
    · exact ⟨.stmt s, rfl⟩
    · exact ⟨.expr d.result, rfl⟩

/-- Every node that is left has lost its parentheses. -/
theorem Program.HasNode.exists_stripParens {p : Program} {s : Scope} {n : Node}
    (h : p.stripParens.HasNode s n) : ∃ m, Node.stripParens m = n := by
  induction h with
  | @mainVar d _ => exact ⟨.var d, rfl⟩
  | mainStmt hstmt =>
    rw [Program.stripParens, MainClass.stripParens, Stmt.stripAllParens_eq_map] at hstmt
    obtain ⟨stmt, -, rfl⟩ := List.mem_map.mp hstmt
    exact ⟨.stmt stmt, rfl⟩
  | @field _ d _ _ => exact ⟨.var d, rfl⟩
  | method hc hm =>
    obtain ⟨c, -, rfl⟩ := List.mem_map.mp hc
    obtain ⟨m, -, rfl⟩ := List.mem_map.mp hm
    exact ⟨.method m, rfl⟩
  | part _ hpart ih =>
    obtain ⟨whole, rfl⟩ := ih
    exact whole.parts_stripParens _ hpart

theorem Program.not_hasNode_paren (p : Program) (s : Scope) (span : Span) (inner : Expr) :
    ¬ p.stripParens.HasNode s (.expr (.paren span inner)) := by
  intro h
  obtain ⟨m, hm⟩ := h.exists_stripParens
  cases m with
  | expr e => exact e.stripParens_ne_paren span inner (Node.expr.inj hm)
  | stmt | var | method => cases hm

/-! ### Outcomes up to spans -/

theorem SameUpToSpan.refl (r : Except SemanticError α) : SameUpToSpan r r := by
  cases r with
  | ok a => exact .ok a
  | error e => exact .error e.fault e.span e.span

/-- The same log, and the same outcome apart from the span of an error. -/
structure Analysis.Agrees (p q : Analysis α) : Prop where
  log : p.log = q.log
  result : SameUpToSpan p.result q.result

namespace Analysis.Agrees

theorem refl (p : Analysis α) : p.Agrees p :=
  ⟨rfl, .refl p.result⟩

/-- Steps that agree go on with the same value, or both end there. -/
theorem bind {p q : Analysis α} {f g : α → Analysis β} (hpq : p.Agrees q)
    (hfg : ∀ a, (f a).Agrees (g a)) : (p >>= f).Agrees (q >>= g) := by
  obtain ⟨log, r⟩ := p
  obtain ⟨log', r'⟩ := q
  obtain ⟨rfl, hr⟩ := hpq
  cases hr with
  | ok a => exact ⟨congrArg (log ++ ·) (hfg a).log, (hfg a).result⟩
  | error fault a b => exact ⟨rfl, .error fault a b⟩

theorem lift {r r' : Except SemanticError α} (h : SameUpToSpan r r') :
    (liftM r : Analysis α).Agrees (liftM r') :=
  ⟨rfl, h⟩

/-- The same condition decides whether to go on. -/
theorem ite_fail {c : Prop} [Decidable c] {p q : Analysis α} (hpq : p.Agrees q)
    (fault : SemanticFault) (a b : Span) :
    (if c then p else fail ⟨fault, a⟩).Agrees (if c then q else fail ⟨fault, b⟩) := by
  by_cases h : c
  · rw [if_pos h, if_pos h]
    exact hpq
  · rw [if_neg h, if_neg h]
    exact ⟨rfl, .error fault a b⟩

theorem discard {p q : Analysis α} (hpq : p.Agrees q) :
    (Functor.discard p).Agrees (Functor.discard q) := by
  simp only [Functor.discard, map_const, Function.comp_apply, map_eq_pure_bind]
  exact hpq.bind fun _ => .refl _

theorem forM_map {φ : α → β} {f : α → Analysis PUnit} {g : β → Analysis PUnit} (l : List α)
    (h : ∀ a, (g (φ a)).Agrees (f a)) : (forM (l.map φ) g).Agrees (forM l f) := by
  induction l with
  | nil => exact .refl _
  | cons a l ih =>
    rw [List.map_cons, List.forM_cons, List.forM_cons]
    exact (h a).bind fun _ => ih

end Analysis.Agrees

/-! ### Steps that hand a span on -/

theorem SameUpToSpan.ite_error (c : Prop) [Decidable c] (x : α) (fault : SemanticFault)
    (a b : Span) :
    SameUpToSpan (if c then .ok x else .error ⟨fault, a⟩) (if c then .ok x else .error ⟨fault, b⟩) := by
  split
  · exact .ok x
  · exact .error fault a b

theorem requireOperand_upToSpan (rule : OperandRule) (expected found : Ty) (a b : Span) :
    SameUpToSpan (requireOperand rule expected found a) (requireOperand rule expected found b) :=
  .ite_error _ () _ a b

theorem requirePart_upToSpan (part : ArrayPart) (expected found : Ty) (a b : Span) :
    SameUpToSpan (requirePart part expected found a) (requirePart part expected found b) :=
  .ite_error _ () _ a b

theorem SymbolTable.receiver_upToSpan (t : SymbolTable) (type : Ty) (a b : Span) :
    SameUpToSpan (t.receiver type a) (t.receiver type b) := by
  unfold receiver
  split
  · exact .ok _
  · exact .error _ a b

theorem PendingCall.next_upToSpan (call : PendingCall) (got : Nat) (a b : Span) :
    SameUpToSpan (call.next got a) (call.next got b) := by
  unfold next
  split
  · exact .ok _
  · exact .error _ a b

/-! ### Expressions and statements -/

theorem Expr.length_stripAllParens (es : List Expr) :
    (Expr.stripAllParens es).length = es.length := by
  rw [Expr.stripAllParens_eq_map, List.length_map]

section

variable (t : SymbolTable) (s : Scope)

open Analysis.Agrees

mutual

/-- An expression has the same type without parentheses, or the same fault. -/
theorem Expr.check_stripParens (e : Expr) : (e.stripParens.check t s).Agrees (e.check t s) :=
  match e with
  | .int _ _ | .bool _ _ | .ident _ | .this _ | .newObject _ _ => by
    simp only [Expr.stripParens]
    exact refl _
  | .binary _ op left right => by
    simp only [Expr.stripParens, Expr.check]
    exact bind left.check_stripParens fun leftType =>
      bind right.check_stripParens fun rightType =>
      bind (lift (requireOperand_upToSpan op.rule op.operand leftType _ _)) fun _ =>
      bind (lift (requireOperand_upToSpan op.rule op.operand rightType _ _)) fun _ => refl _
  | .not _ operand => by
    simp only [Expr.stripParens, Expr.check]
    exact bind operand.check_stripParens fun type =>
      bind (lift (requireOperand_upToSpan .notBoolean .boolean type _ _)) fun _ => refl _
  | .index _ array position => by
    simp only [Expr.stripParens, Expr.check]
    exact bind array.check_stripParens fun arrayType =>
      bind position.check_stripParens fun positionType =>
      bind (lift (requireOperand_upToSpan .indexNotArray .intArray arrayType _ _)) fun _ =>
      bind (lift (requireOperand_upToSpan .indexNotInt .int positionType _ _)) fun _ => refl _
  | .length _ array => by
    simp only [Expr.stripParens, Expr.check]
    exact bind array.check_stripParens fun type =>
      bind (lift (requireOperand_upToSpan .lengthNotArray .intArray type _ _)) fun _ => refl _
  | .newArray _ size => by
    simp only [Expr.stripParens, Expr.check]
    exact bind size.check_stripParens fun type =>
      bind (lift (requireOperand_upToSpan .sizeNotInt .int type _ _)) fun _ => refl _
  | .paren _ inner => by
    simp only [Expr.stripParens, Expr.check]
    exact inner.check_stripParens
  | .send span receiver method args => by
    simp only [Expr.stripParens, Expr.check, Expr.length_stripAllParens]
    exact bind receiver.check_stripParens fun type =>
      bind (lift (t.receiver_upToSpan type _ _)) fun c =>
      bind (refl _) fun m =>
      bind (refl _) fun _ =>
      bind (Expr.checkArgs_stripAllParens c.name args.length (.start m) args) fun call => refl _

theorem Expr.checkArgs_stripAllParens (cls : String) (got : Nat) (call : PendingCall)
    (args : List Expr) :
    (Expr.checkArgs t s cls got call (Expr.stripAllParens args)).Agrees
      (Expr.checkArgs t s cls got call args) :=
  match args with
  | [] => by
    simp only [Expr.stripAllParens]
    exact refl _
  | arg :: args => by
    simp only [Expr.stripAllParens, Expr.checkArgs]
    exact bind (lift (call.next_upToSpan got _ _)) fun next =>
      bind arg.check_stripParens fun found =>
      ite_fail (Expr.checkArgs_stripAllParens cls got next.2 args) _ _ _

end

theorem Expr.checkCondition_stripParens (construct : Construct) (cond : Expr) :
    (cond.stripParens.checkCondition t s construct).Agrees (cond.checkCondition t s construct) := by
  simp only [Expr.checkCondition]
  exact bind (cond.check_stripParens t s) fun found => ite_fail (refl _) _ _ _

mutual

theorem Stmt.check_stripParens (stmt : Stmt) :
    (stmt.stripParens.check t s).Agrees (stmt.check t s) :=
  match stmt with
  | .block _ body => by
    simp only [Stmt.stripParens, Stmt.check]
    exact Stmt.checkAll_stripAllParens body
  | .assign _ target value => by
    simp only [Stmt.stripParens, Stmt.check]
    exact bind (refl _) fun expected =>
      bind (value.check_stripParens t s) fun found => ite_fail (refl _) _ _ _
  | .arrayAssign _ target position value => by
    simp only [Stmt.stripParens, Stmt.check]
    exact bind (refl _) fun targetType =>
      bind (position.check_stripParens t s) fun positionType =>
      bind (value.check_stripParens t s) fun valueType =>
      bind (refl _) fun _ =>
      bind (lift (requirePart_upToSpan .index .int positionType _ _)) fun _ =>
      lift (requirePart_upToSpan .value .int valueType _ _)
  | .ifElse _ cond thenBranch elseBranch => by
    simp only [Stmt.stripParens, Stmt.check]
    exact bind (cond.checkCondition_stripParens t s .ifElse) fun _ =>
      bind thenBranch.check_stripParens fun _ => elseBranch.check_stripParens
  | .whileLoop _ cond body => by
    simp only [Stmt.stripParens, Stmt.check]
    exact bind (cond.checkCondition_stripParens t s .whileLoop) fun _ => body.check_stripParens
  | .print _ value => by
    simp only [Stmt.stripParens, Stmt.check]
    exact discard (value.check_stripParens t s)

theorem Stmt.checkAll_stripAllParens (body : List Stmt) :
    (Stmt.checkAll t s (Stmt.stripAllParens body)).Agrees (Stmt.checkAll t s body) :=
  match body with
  | [] => by
    simp only [Stmt.stripAllParens]
    exact refl _
  | first :: more => by
    simp only [Stmt.stripAllParens, Stmt.checkAll]
    exact bind first.check_stripParens fun _ => Stmt.checkAll_stripAllParens more

end

end

/-! ### Declarations and programs -/

section

variable (t : SymbolTable)

open Analysis.Agrees

theorem MainClass.check_stripParens (d : MainClass) :
    (d.stripParens.check t).Agrees (d.check t) :=
  bind (refl _) fun c =>
    bind (refl _) fun m =>
    bind (refl _) fun _ =>
    bind (refl _) fun _ => Stmt.checkAll_stripAllParens t ⟨some c, some m⟩ d.body

theorem MethodDecl.check_stripParens (c : ClassEntry) (d : MethodDecl) :
    (d.stripParens.check t c).Agrees (d.check t c) :=
  bind (refl _) fun m =>
    bind (refl _) fun _ =>
    bind (refl _) fun _ =>
    bind (Stmt.checkAll_stripAllParens t ⟨some c, some m⟩ d.body) fun _ =>
    bind (d.result.check_stripParens t ⟨some c, some m⟩) fun _ => ite_fail (refl _) _ _ _

theorem ClassDecl.check_stripParens (d : ClassDecl) :
    (d.stripParens.check t).Agrees (d.check t) :=
  bind (refl _) fun c =>
    bind (refl _) fun _ =>
    bind (refl _) fun _ => forM_map d.methods (MethodDecl.check_stripParens t c)

/-- The check of a program has the same outcome without parentheses, apart from the span of an
error. -/
theorem Program.check_stripParens (p : Program) (t : SymbolTable) :
    (p.stripParens.check t).Agrees (p.check t) := by
  have hlength : p.stripParens.classes.length = p.classes.length := List.length_map _
  simp only [Program.check, hlength]
  exact bind (refl _) fun _ =>
    bind (p.main.check_stripParens t) fun _ =>
    bind (forM_map p.classes (ClassDecl.check_stripParens t)) fun _ => refl _

end

/-- Classes are declared without a look at the bodies of their methods. -/
theorem SymbolTable.declare_stripParens (t : SymbolTable) (d : ClassDecl) :
    t.declare d.stripParens = t.declare d := by
  simp only [SymbolTable.declare, ClassDecl.stripParens, List.foldlM_map]
  rfl

theorem Program.declare_stripParens (p : Program) : p.stripParens.declare = p.declare := by
  simp only [Program.declare, Program.stripParens, List.length_map, List.foldlM_map,
    SymbolTable.declare_stripParens]
  rfl

theorem Program.analyze_stripParens (p : Program) : p.stripParens.analyze.Agrees p.analyze := by
  simp only [Program.analyze, p.declare_stripParens]
  exact .bind (.refl _) fun t => .bind (p.check_stripParens t) fun _ => .refl _

/-- **Grouping parentheses do not matter.** Without its parentheses, of which none is left at any
depth, a program has the very same declarations. Against every table its check succeeds exactly if
that of the program does; where both fail, their errors differ in the span only, and the logs are
the same in any case. So it is with both passes together. Every expression keeps its type in every
scope, or its fault. -/
theorem parentheses_irrelevant (p : Program) :
    (∀ s span inner, ¬ p.stripParens.HasNode s (.expr (.paren span inner))) ∧
    p.stripParens.declare = p.declare ∧
    (∀ t, (p.stripParens.check t).Agrees (p.check t)) ∧
    p.stripParens.analyze.Agrees p.analyze ∧
    ∀ (t : SymbolTable) (s : Scope) (e : Expr), (e.stripParens.check t s).Agrees (e.check t s) :=
  ⟨p.not_hasNode_paren, p.declare_stripParens, p.check_stripParens, p.analyze_stripParens,
    Expr.check_stripParens⟩

/-- A main class whose only statement has parentheses around a condition that is not boolean:
`while ((1)) { }`. -/
def wrappedCondition : Program :=
  let cond : Expr := .paren ⟨7, 10, 0⟩ (.int ⟨8, 9, 0⟩ 1)
  ⟨⟨⟨"M", default⟩, ⟨"args", default⟩, [],
    [.whileLoop ⟨0, 15, 0⟩ cond (.block ⟨12, 15, 0⟩ [])], default⟩, []⟩

theorem parentheses_irrelevant_wrappedCondition :
    wrappedCondition.analyze.result =
        .error ⟨.conditionNotBoolean .whileLoop .int, ⟨7, 10, 0⟩⟩ ∧
      wrappedCondition.stripParens.analyze.result =
        .error ⟨.conditionNotBoolean .whileLoop .int, ⟨8, 9, 0⟩⟩ ∧
      wrappedCondition.stripParens.analyze.Agrees wrappedCondition.analyze := by
  obtain ⟨-, -, -, hanalyze, -⟩ := parentheses_irrelevant wrappedCondition
  exact ⟨rfl, rfl, hanalyze⟩

end MiniJava
