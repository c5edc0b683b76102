import MiniJava.Program.Basic

/-!
# The spans in a program

`Program.spans` are the spans of all parts of a program that have one: declarations, statements,
expressions, written types and identifiers.
-/

namespace MiniJava

mutual

/-- The spans in an expression. -/
def Expr.spans : Expr → List Span
  | .int span _ | .bool span _ | .this span => [span]
  | .ident name => [name.span]
  | .binary span _ left right => span :: (left.spans ++ right.spans)
  | .not span operand => span :: operand.spans
  | .index span array position => span :: (array.spans ++ position.spans)
  | .length span array => span :: array.spans
  | .send span receiver method args =>
    span :: (receiver.spans ++ method.span :: Expr.allSpans args)
  | .newArray span size => span :: size.spans
  | .newObject span cls => [span, cls.span]
  | .paren span inner => span :: inner.spans

/-- The spans in expressions. -/
def Expr.allSpans : List Expr → List Span
  | [] => []
  | first :: more => first.spans ++ Expr.allSpans more

end

mutual

/-- The spans in a statement. -/
def Stmt.spans : Stmt → List Span
  | .block span body => span :: Stmt.allSpans body
  | .assign span target value => span :: target.span :: value.spans
  | .arrayAssign span target position value =>
    span :: target.span :: (position.spans ++ value.spans)
  | .ifElse span cond thenBranch elseBranch =>
    span :: (cond.spans ++ (thenBranch.spans ++ elseBranch.spans))
  | .whileLoop span cond body => span :: (cond.spans ++ body.spans)
  | .print span value => span :: value.spans

/-- The spans in statements. -/
def Stmt.allSpans : List Stmt → List Span
  | [] => []
  | first :: more => first.spans ++ Stmt.allSpans more

end

/-- The spans in the declaration of a variable. -/
def VarDecl.spans (d : VarDecl) : List Span :=
  [d.span, d.type.span, d.name.span]

/-- The spans in a method declaration. -/
def MethodDecl.spans (d : MethodDecl) : List Span :=
  d.span :: d.returns.span :: d.name.span ::
    (d.params.flatMap VarDecl.spans ++ d.vars.flatMap VarDecl.spans ++ Stmt.allSpans d.body ++
      d.result.spans)

/-- The spans in a class declaration. -/
def ClassDecl.spans (d : ClassDecl) : List Span :=
  d.span :: d.name.span :: (d.parent.toList.map Ident.span ++ d.fields.flatMap VarDecl.spans ++
    d.methods.flatMap MethodDecl.spans)

/-- The spans in a main class. -/
def MainClass.spans (d : MainClass) : List Span :=
  d.span :: d.name.span :: d.args.span ::
    (d.vars.flatMap VarDecl.spans ++ Stmt.allSpans d.body)

/-- The spans in a program. -/
def Program.spans (p : Program) : List Span :=
  p.main.spans ++ p.classes.flatMap ClassDecl.spans

theorem Expr.span_mem_spans (e : Expr) : e.span ∈ e.spans := by
  cases e <;> simp [Expr.spans, Expr.span]

section

variable {P : Span → Prop}

theorem Expr.forall_mem_allSpans_iff {es : List Expr} :
    (∀ s ∈ Expr.allSpans es, P s) ↔ ∀ e ∈ es, ∀ s ∈ e.spans, P s := by
  induction es with
  | nil => simp [Expr.allSpans]
  | cons e es ih => rw [Expr.allSpans, List.forall_mem_append, List.forall_mem_cons, ih]

theorem Stmt.forall_mem_allSpans_iff {body : List Stmt} :
    (∀ s ∈ Stmt.allSpans body, P s) ↔ ∀ stmt ∈ body, ∀ s ∈ stmt.spans, P s := by
  induction body with
  | nil => simp [Stmt.allSpans]
  | cons stmt body ih => rw [Stmt.allSpans, List.forall_mem_append, List.forall_mem_cons, ih]

theorem VarDecl.forall_mem_spans_iff {d : VarDecl} :
    (∀ s ∈ d.spans, P s) ↔ P d.span ∧ P d.type.span ∧ P d.name.span := by
  rw [VarDecl.spans, List.forall_mem_cons, List.forall_mem_cons, List.forall_mem_singleton]

theorem MethodDecl.forall_mem_spans_iff {d : MethodDecl} :
    (∀ s ∈ d.spans, P s) ↔
      P d.span ∧ P d.returns.span ∧ P d.name.span ∧ (∀ v ∈ d.params, ∀ s ∈ v.spans, P s) ∧
        (∀ v ∈ d.vars, ∀ s ∈ v.spans, P s) ∧ (∀ s ∈ Stmt.allSpans d.body, P s) ∧
        ∀ s ∈ d.result.spans, P s := by
  simp only [MethodDecl.spans, List.forall_mem_cons, List.forall_mem_append,
    List.forall_mem_flatMap, and_assoc]

theorem ClassDecl.forall_mem_spans_iff {d : ClassDecl} :
    (∀ s ∈ d.spans, P s) ↔
      P d.span ∧ P d.name.span ∧ (∀ i, d.parent = some i → P i.span) ∧
        (∀ v ∈ d.fields, ∀ s ∈ v.spans, P s) ∧ ∀ m ∈ d.methods, ∀ s ∈ m.spans, P s := by
  simp only [ClassDecl.spans, List.forall_mem_cons, List.forall_mem_append,
    List.forall_mem_flatMap, List.forall_mem_map, Option.mem_toList, and_assoc]

theorem MainClass.forall_mem_spans_iff {d : MainClass} :
    (∀ s ∈ d.spans, P s) ↔
      P d.span ∧ P d.name.span ∧ P d.args.span ∧ (∀ v ∈ d.vars, ∀ s ∈ v.spans, P s) ∧
        ∀ s ∈ Stmt.allSpans d.body, P s := by
  simp only [MainClass.spans, List.forall_mem_cons, List.forall_mem_append,
    List.forall_mem_flatMap]

theorem Program.forall_mem_spans_iff {p : Program} :
    (∀ s ∈ p.spans, P s) ↔ (∀ s ∈ p.main.spans, P s) ∧ ∀ d ∈ p.classes, ∀ s ∈ d.spans, P s := by
  rw [Program.spans, List.forall_mem_append, List.forall_mem_flatMap]

end

end MiniJava
