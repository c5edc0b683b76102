import MiniJava.Digits
import MiniJava.Token.Basic

/-!
# Programs

The tree of a program: a main class, and classes with fields and methods whose bodies are
statements over expressions. Every node knows the span of text that it was read from.
-/

namespace MiniJava

/-- A name at a place. -/
structure Ident where
  name : String
  span : Span
deriving DecidableEq

/-- A type as it is written in a declaration. -/
inductive TypeExpr
  | int (span : Span)
  | boolean (span : Span)
  | intArray (span : Span)
  | named (name : Ident)
deriving DecidableEq

/-- The span of a written type. -/
def TypeExpr.span : TypeExpr → Span
  | int s | boolean s | intArray s => s
  | named name => name.span

/-- The binary operators. -/
inductive BinOp
  | and | less | add | sub | mul
deriving DecidableEq

namespace BinOp

/-- The sign of an operator. -/
def symbol : BinOp → Symbol
  | and => .andAnd
  | less => .less
  | add => .plus
  | sub => .minus
  | mul => .star

/-- The operator that a kind of token stands for. -/
def ofKind? : Token.Kind → Option BinOp
  | .symbol .andAnd => some and
  | .symbol .less => some less
  | .symbol .plus => some add
  | .symbol .minus => some sub
  | .symbol .star => some mul
  | _ => none

@[simp] theorem ofKind?_symbol (op : BinOp) : ofKind? (.symbol op.symbol) = some op := by
  cases op <;> rfl

theorem eq_symbol_of_ofKind? {k : Token.Kind} {op : BinOp} (h : ofKind? k = some op) :
    k = .symbol op.symbol := by
  unfold ofKind? at h
  split at h <;> simp_all [symbol] <;> subst h <;> rfl

end BinOp

/-- The largest value of an `int`. -/
def maxInt : Nat := 2147483647

/-- Whether a text is a run of decimal digits that denotes a value of type `int`. -/
def isIntText (text : String) : Bool :=
  Digits.isRun text.toList && Digits.value text.toList ≤ maxInt

theorem isIntText_iff {text : String} : isIntText text = true ↔
    Digits.isRun text.toList = true ∧ Digits.value text.toList ≤ maxInt := by
  simp [isIntText]

/-- The expressions. -/
inductive Expr
  | int (span : Span) (value : Nat)
  | bool (span : Span) (value : Bool)
  | ident (name : Ident)
  | this (span : Span)
  | binary (span : Span) (op : BinOp) (left right : Expr)
  | not (span : Span) (operand : Expr)
  | index (span : Span) (array position : Expr)
  | length (span : Span) (array : Expr)
  | send (span : Span) (receiver : Expr) (method : Ident) (args : List Expr)
  | newArray (span : Span) (size : Expr)
  | newObject (span : Span) (cls : Ident)
  | paren (span : Span) (inner : Expr)

/-- The span of an expression. -/
def Expr.span : Expr → Span
  | int s _ | bool s _ | this s | binary s .. | not s _ | index s .. | length s _ | send s ..
  | newArray s _ | newObject s _ | paren s _ => s
  | ident name => name.span

/-- The statements. -/
inductive Stmt
  | block (span : Span) (body : List Stmt)
  | assign (span : Span) (target : Ident) (value : Expr)
  | arrayAssign (span : Span) (target : Ident) (position value : Expr)
  | ifElse (span : Span) (cond : Expr) (thenBranch elseBranch : Stmt)
  | whileLoop (span : Span) (cond : Expr) (body : Stmt)
  | print (span : Span) (value : Expr)

/-- The span of a statement. -/
def Stmt.span : Stmt → Span
  | block s _ | assign s .. | arrayAssign s .. | ifElse s .. | whileLoop s .. | print s _ => s

/-- The declaration of a field, a parameter or a local variable. -/
structure VarDecl where
  type : TypeExpr
  name : Ident
  span : Span
deriving DecidableEq

/-- The declaration of a method; its body ends with the returned expression. -/
structure MethodDecl where
  returns : TypeExpr
  name : Ident
  params : List VarDecl
  vars : List VarDecl
  body : List Stmt
  result : Expr
  span : Span

/-- The declaration of a class. -/
structure ClassDecl where
  name : Ident
  parent : Option Ident
  fields : List VarDecl
  methods : List MethodDecl
  span : Span

/-- The class with the entry method; `args` names its parameter. -/
structure MainClass where
  name : Ident
  args : Ident
  vars : List VarDecl
  body : List Stmt
  span : Span

/-- A main class and the classes after it. -/
structure Program where
  main : MainClass
  classes : List ClassDecl

end MiniJava
