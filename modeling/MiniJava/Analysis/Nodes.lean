import MiniJava.Analysis.Declared
import MiniJava.Analysis.Scope

/-!
# The nodes of a program

* `Node` are the parts of a program that are checked: expressions, statements, the declarations of
  variables, and methods.
* `Program.HasNode` says which nodes a program has, each in the scope of the class and the method
  around it.
-/

namespace MiniJava

/-- A part of a program that is checked in one scope. -/
inductive Node
  | expr (e : Expr)
  | stmt (s : Stmt)
  | var (d : VarDecl)
  | method (d : MethodDecl)

/-- The expressions directly inside an expression. -/
def Expr.parts : Expr → List Expr
  | .binary _ _ left right => [left, right]
  | .not _ operand => [operand]
  | .index _ array position => [array, position]
  | .length _ array => [array]
  | .send _ receiver _ args => receiver :: args
  | .newArray _ size => [size]
  | .paren _ inner => [inner]
  | .int .. | .bool .. | .ident _ | .this _ | .newObject .. => []

/-- The expressions directly inside a statement. -/
def Stmt.exprs : Stmt → List Expr
  | .block .. => []
  | .assign _ _ value => [value]
  | .arrayAssign _ _ position value => [position, value]
  | .ifElse _ cond _ _ => [cond]
  | .whileLoop _ cond _ => [cond]
  | .print _ value => [value]

/-- The statements directly inside a statement. -/
def Stmt.stmts : Stmt → List Stmt
  | .block _ body => body
  | .ifElse _ _ thenBranch elseBranch => [thenBranch, elseBranch]
  | .whileLoop _ _ body => [body]
  | .assign .. | .arrayAssign .. | .print .. => []

/-- The nodes directly inside a node. -/
def Node.parts : Node → List Node
  | .expr e => e.parts.map .expr
  | .stmt s => s.exprs.map .expr ++ s.stmts.map .stmt
  | .var _ => []
  | .method d => d.vars.map .var ++ d.body.map .stmt ++ [.expr d.result]

/-- The entry of the one method of a main class. -/
def MainClass.methodEntry (d : MainClass) : MethodEntry :=
  ⟨mainMethod, .void, [⟨d.args.name, .stringArray⟩], d.vars.map VarDecl.toVariable⟩

/-- The scope in the main class. -/
def MainClass.scope (d : MainClass) : Scope :=
  ⟨some d.entry, some d.methodEntry⟩

/-- The scope in a class outside of its methods. -/
def ClassDecl.scope (d : ClassDecl) : Scope :=
  ⟨some d.entry, none⟩

/-- The scope in a method of a class. -/
def MethodDecl.scope (d : MethodDecl) (c : ClassDecl) : Scope :=
  ⟨some c.entry, some d.entry⟩

/-- The program has the node, and the scope is the one around it. -/
inductive Program.HasNode (p : Program) : Scope → Node → Prop
  | mainVar {d : VarDecl} : d ∈ p.main.vars → HasNode p p.main.scope (.var d)
  | mainStmt {stmt : Stmt} : stmt ∈ p.main.body → HasNode p p.main.scope (.stmt stmt)
  | field {c : ClassDecl} {d : VarDecl} :
    c ∈ p.classes → d ∈ c.fields → HasNode p c.scope (.var d)
  | method {c : ClassDecl} {m : MethodDecl} :
    c ∈ p.classes → m ∈ c.methods → HasNode p (m.scope c) (.method m)
  | part {s : Scope} {whole n : Node} : HasNode p s whole → n ∈ whole.parts → HasNode p s n

end MiniJava
