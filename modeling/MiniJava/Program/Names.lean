import MiniJava.Program.Basic

/-!
# The names in a program

`Program.names` are all identifiers that are written anywhere in a program: names of classes, of
their parents and members, of variables and of types, and all names that expressions and statements
use.
-/

namespace MiniJava

/-- The name in a written type. -/
def TypeExpr.names : TypeExpr → List String
  | int _ | boolean _ | intArray _ => []
  | named name => [name.name]

mutual

/-- The names in an expression. -/
def Expr.names : Expr → List String
  | .int _ _ | .bool _ _ | .this _ => []
  | .ident name => [name.name]
  | .binary _ _ left right => left.names ++ right.names
  | .not _ operand => operand.names
  | .index _ array position => array.names ++ position.names
  | .length _ array => array.names
  | .send _ receiver method args => receiver.names ++ method.name :: Expr.allNames args
  | .newArray _ size => size.names
  | .newObject _ cls => [cls.name]
  | .paren _ inner => inner.names

/-- The names in expressions. -/
def Expr.allNames : List Expr → List String
  | [] => []
  | first :: more => first.names ++ Expr.allNames more

end

mutual

/-- The names in a statement. -/
def Stmt.names : Stmt → List String
  | .block _ body => Stmt.allNames body
  | .assign _ target value => target.name :: value.names
  | .arrayAssign _ target position value => target.name :: (position.names ++ value.names)
  | .ifElse _ cond thenBranch elseBranch =>
    cond.names ++ (thenBranch.names ++ elseBranch.names)
  | .whileLoop _ cond body => cond.names ++ body.names
  | .print _ value => value.names

/-- The names in statements. -/
def Stmt.allNames : List Stmt → List String
  | [] => []
  | first :: more => first.names ++ Stmt.allNames more

end

/-- The names in the declaration of a variable. -/
def VarDecl.names (d : VarDecl) : List String :=
  d.name.name :: d.type.names

/-- The names in a method declaration. -/
def MethodDecl.names (d : MethodDecl) : List String :=
  d.name.name :: (d.returns.names ++ d.params.flatMap VarDecl.names ++ d.vars.flatMap VarDecl.names ++
    Stmt.allNames d.body ++ d.result.names)

/-- The names in a class declaration. -/
def ClassDecl.names (d : ClassDecl) : List String :=
  d.name.name :: (d.parent.toList.map Ident.name ++ d.fields.flatMap VarDecl.names ++
    d.methods.flatMap MethodDecl.names)

/-- The names in a main class. -/
def MainClass.names (d : MainClass) : List String :=
  d.name.name :: d.args.name :: (d.vars.flatMap VarDecl.names ++ Stmt.allNames d.body)

/-- The names in a program. -/
def Program.names (p : Program) : List String :=
  p.main.names ++ p.classes.flatMap ClassDecl.names

section

variable {N : String → Prop}

theorem MethodDecl.forall_mem_names_iff {d : MethodDecl} :
    (∀ x ∈ d.names, N x) ↔
      N d.name.name ∧ (∀ x ∈ d.returns.names, N x) ∧ (∀ v ∈ d.params, ∀ x ∈ v.names, N x) ∧
        (∀ v ∈ d.vars, ∀ x ∈ v.names, N x) ∧ (∀ x ∈ Stmt.allNames d.body, N x) ∧
        ∀ x ∈ d.result.names, N x := by
  simp only [MethodDecl.names, List.forall_mem_cons, List.forall_mem_append,
    List.forall_mem_flatMap, and_assoc]

theorem ClassDecl.forall_mem_names_iff {d : ClassDecl} :
    (∀ x ∈ d.names, N x) ↔
      N d.name.name ∧ (∀ i, d.parent = some i → N i.name) ∧ (∀ v ∈ d.fields, ∀ x ∈ v.names, N x) ∧
        ∀ m ∈ d.methods, ∀ x ∈ m.names, N x := by
  simp only [ClassDecl.names, List.forall_mem_cons, List.forall_mem_append,
    List.forall_mem_flatMap, List.forall_mem_map, Option.mem_toList, and_assoc]

theorem MainClass.forall_mem_names_iff {d : MainClass} :
    (∀ x ∈ d.names, N x) ↔
      N d.name.name ∧ N d.args.name ∧ (∀ v ∈ d.vars, ∀ x ∈ v.names, N x) ∧
        ∀ x ∈ Stmt.allNames d.body, N x := by
  simp only [MainClass.names, List.forall_mem_cons, List.forall_mem_append,
    List.forall_mem_flatMap]

theorem Program.forall_mem_names_iff {p : Program} :
    (∀ x ∈ p.names, N x) ↔ (∀ x ∈ p.main.names, N x) ∧ ∀ d ∈ p.classes, ∀ x ∈ d.names, N x := by
  rw [Program.names, List.forall_mem_append, List.forall_mem_flatMap]

end

end MiniJava
