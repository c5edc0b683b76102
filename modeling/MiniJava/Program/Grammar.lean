import MiniJava.Program.Basic
import MiniJava.Token.Lexer

/-!
# Programs that the grammar admits

A tree may hold more than the grammar can write: an operator below an operator, a name with blanks
in it, a number that is too large. `Program.wellFormed` tells the trees that can be written.
-/

namespace MiniJava

/-- Whether a name is a word, and not a reserved one. -/
def isIdentName (name : String) : Bool :=
  match name.toList with
  | [] => false
  | c :: cs => isWordStart c && cs.all isWordPart && (Keyword.ofText? name).isNone

/-- Whether an identifier has a name that can be written. -/
def Ident.wellFormed (i : Ident) : Bool :=
  isIdentName i.name

/-- Whether a written type has a name that can be written. -/
def TypeExpr.wellFormed : TypeExpr → Bool
  | named name => name.wellFormed
  | _ => true

/-- Whether an expression can stand where no operator may: next to an operator, before a dot or a
bracket, and within brackets. -/
def Expr.isPrimary : Expr → Bool
  | .binary .. | .index .. | .length .. | .send .. => false
  | _ => true

mutual

/-- Whether the grammar admits an expression. -/
def Expr.wellFormed : Expr → Bool
  | .int _ value => value ≤ maxInt
  | .bool _ _ | .this _ => true
  | .ident name => name.wellFormed
  | .binary _ _ left right =>
    left.isPrimary && right.isPrimary && left.wellFormed && right.wellFormed
  | .not _ operand => operand.isPrimary && operand.wellFormed
  | .index _ array position =>
    array.isPrimary && position.isPrimary && array.wellFormed && position.wellFormed
  | .length _ array => array.isPrimary && array.wellFormed
  | .send _ receiver method args =>
    receiver.isPrimary && receiver.wellFormed && method.wellFormed && Expr.allWellFormed args
  | .newArray _ size => size.wellFormed
  | .newObject _ cls => cls.wellFormed
  | .paren _ inner => inner.wellFormed

/-- Whether the grammar admits each of some expressions. -/
def Expr.allWellFormed : List Expr → Bool
  | [] => true
  | first :: more => first.wellFormed && Expr.allWellFormed more

end

mutual

/-- Whether the grammar admits a statement. -/
def Stmt.wellFormed : Stmt → Bool
  | .block _ body => Stmt.allWellFormed body
  | .assign _ target value => target.wellFormed && value.wellFormed
  | .arrayAssign _ target position value =>
    target.wellFormed && position.wellFormed && value.wellFormed
  | .ifElse _ cond thenBranch elseBranch =>
    cond.wellFormed && thenBranch.wellFormed && elseBranch.wellFormed
  | .whileLoop _ cond body => cond.wellFormed && body.wellFormed
  | .print _ value => value.wellFormed

/-- Whether the grammar admits each of some statements. -/
def Stmt.allWellFormed : List Stmt → Bool
  | [] => true
  | first :: more => first.wellFormed && Stmt.allWellFormed more

end

/-- Whether the grammar admits the declaration of a variable. -/
def VarDecl.wellFormed (d : VarDecl) : Bool :=
  d.type.wellFormed && d.name.wellFormed

/-- Whether the grammar admits a method declaration. -/
def MethodDecl.wellFormed (d : MethodDecl) : Bool :=
  d.returns.wellFormed && d.name.wellFormed && d.params.all VarDecl.wellFormed &&
    d.vars.all VarDecl.wellFormed && Stmt.allWellFormed d.body && d.result.wellFormed

/-- Whether the grammar admits a class declaration. -/
def ClassDecl.wellFormed (d : ClassDecl) : Bool :=
  d.name.wellFormed && d.parent.all Ident.wellFormed && d.fields.all VarDecl.wellFormed &&
    d.methods.all MethodDecl.wellFormed

/-- Whether the grammar admits a main class. -/
def MainClass.wellFormed (d : MainClass) : Bool :=
  d.name.wellFormed && d.args.wellFormed && d.vars.all VarDecl.wellFormed &&
    Stmt.allWellFormed d.body

/-- Whether the grammar admits a program. -/
def Program.wellFormed (p : Program) : Bool :=
  p.main.wellFormed && p.classes.all ClassDecl.wellFormed

end MiniJava
