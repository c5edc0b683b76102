import MiniJava.Digits
import MiniJava.Program.Cursor
import MiniJava.Token.Lexer

/-!
# Reading programs

The grammar by recursive descent. A binary operator joins two primary expressions and does not
chain, so an expression is a primary expression with at most one operation behind it. Each list
of statements, arguments or parameters is read together with the token that closes it.

`Program.parse` reads a program from a text.
-/

namespace MiniJava

namespace Cursor

/-! ### Expressions -/

mutual

/-- Reads an expression that no operator divides. -/
def primary (c : Cursor) : Except SyntaxError (Read Expr c.size) :=
  match c.kind with
  | .intLit digits => do
    let ⟨_, c₁, h₁⟩ ← c.expect (.intLit digits)
    if isIntText digits then
      return ⟨.int c₁.last (Digits.value digits.toList), c₁, h₁⟩
    else
      throw ⟨.integerOutOfRange digits, c₁.last⟩
  | .keyword .trueKw => do
    let ⟨_, c₁, h₁⟩ ← c.keyword .trueKw
    return ⟨.bool c₁.last true, c₁, h₁⟩
  | .keyword .falseKw => do
    let ⟨_, c₁, h₁⟩ ← c.keyword .falseKw
    return ⟨.bool c₁.last false, c₁, h₁⟩
  | .keyword .thisKw => do
    let ⟨_, c₁, h₁⟩ ← c.keyword .thisKw
    return ⟨.this c₁.last, c₁, h₁⟩
  | .ident _ => do
    let ⟨name, c₁, h₁⟩ ← c.ident
    return ⟨.ident name, c₁, h₁⟩
  | .keyword .newKw => do
    let ⟨_, c₁, h₁⟩ ← c.keyword .newKw
    match c₁.accept (.keyword .intKw) with
    | some ⟨_, c₂, h₂⟩ =>
      let ⟨_, c₃, h₃⟩ ← c₂.symbol .lbracket
      let ⟨size, c₄, h₄⟩ ← c₃.expr
      let ⟨_, c₅, h₅⟩ ← c₄.symbol .rbracket
      return ⟨.newArray (c₁.last.merge c₅.last) size, c₅, by omega⟩
    | none =>
      let ⟨cls, c₂, h₂⟩ ← c₁.ident
      let ⟨_, c₃, h₃⟩ ← c₂.symbol .lparen
      let ⟨_, c₄, h₄⟩ ← c₃.symbol .rparen
      return ⟨.newObject (c₁.last.merge c₄.last) cls, c₄, by omega⟩
  | .symbol .bang => do
    let ⟨_, c₁, h₁⟩ ← c.symbol .bang
    let ⟨operand, c₂, h₂⟩ ← c₁.primary
    return ⟨.not (c₁.last.merge operand.span) operand, c₂, by omega⟩
  | .symbol .lparen => do
    let ⟨_, c₁, h₁⟩ ← c.symbol .lparen
    let ⟨inner, c₂, h₂⟩ ← c₁.expr
    let ⟨_, c₃, h₃⟩ ← c₂.symbol .rparen
    return ⟨.paren (c₁.last.merge c₃.last) inner, c₃, by omega⟩
  | .unknown char => throw ⟨.invalidCharacter char, c.current.span⟩
  | got => throw ⟨.expectedExpr got, c.current.span⟩
termination_by (c.size, 0)

/-- Reads an expression: a primary one, with at most one operation behind it. -/
def expr (c : Cursor) : Except SyntaxError (Read Expr c.size) := do
  let ⟨left, c₁, h₁⟩ ← c.primary
  match BinOp.ofKind? c₁.kind with
  | some op =>
    let ⟨_, c₂, h₂⟩ ← c₁.symbol op.symbol
    let ⟨right, c₃, h₃⟩ ← c₂.primary
    return ⟨.binary (left.span.merge right.span) op left right, c₃, by omega⟩
  | none =>
    match c₁.accept (.symbol .lbracket) with
    | some ⟨_, c₂, h₂⟩ =>
      let ⟨index, c₃, h₃⟩ ← c₂.primary
      let ⟨_, c₄, h₄⟩ ← c₃.symbol .rbracket
      return ⟨.index (left.span.merge c₄.last) left index, c₄, by omega⟩
    | none =>
      match c₁.accept (.symbol .dot) with
      | some ⟨_, c₂, h₂⟩ =>
        let ⟨method, c₃, h₃⟩ ← c₂.ident
        if method.name = "length" ∧ c₃.kind ≠ .symbol .lparen then
          return ⟨.length (left.span.merge method.span) left, c₃, by omega⟩
        else
          let ⟨_, c₄, h₄⟩ ← c₃.symbol .lparen
          match c₄.accept (.symbol .rparen) with
          | some ⟨_, c₅, h₅⟩ =>
            return ⟨.send (left.span.merge c₅.last) left method [], c₅, by omega⟩
          | none =>
            let ⟨args, c₅, h₅⟩ ← c₄.args
            return ⟨.send (left.span.merge c₅.last) left method args, c₅, by omega⟩
      | none => return ⟨left, c₁, h₁⟩
termination_by (c.size, 1)

/-- Reads at least one argument, and the parenthesis that closes the list. -/
def args (c : Cursor) : Except SyntaxError (Read (List Expr) c.size) := do
  let ⟨arg, c₁, h₁⟩ ← c.expr
  match c₁.accept (.symbol .comma) with
  | some ⟨_, c₂, h₂⟩ =>
    let ⟨more, c₃, h₃⟩ ← c₂.args
    return ⟨arg :: more, c₃, by omega⟩
  | none =>
    let ⟨_, c₂, h₂⟩ ← c₁.symbol .rparen
    return ⟨[arg], c₂, by omega⟩
termination_by (c.size, 2)

end

/-! ### Statements -/

/-- Reads a printing statement. -/
def printStmt (c : Cursor) : Except SyntaxError (Read Stmt c.size) := do
  let start := c.current.span
  let ⟨_, c₁, h₁⟩ ← c.word "System"
  let ⟨_, c₂, h₂⟩ ← c₁.symbol .dot
  let ⟨_, c₃, h₃⟩ ← c₂.word "out"
  let ⟨_, c₄, h₄⟩ ← c₃.symbol .dot
  let ⟨_, c₅, h₅⟩ ← c₄.word "println"
  let ⟨_, c₆, h₆⟩ ← c₅.symbol .lparen
  let ⟨value, c₇, h₇⟩ ← c₆.expr
  let ⟨_, c₈, h₈⟩ ← c₇.symbol .rparen
  let ⟨_, c₉, h₉⟩ ← c₈.symbol .semicolon
  return ⟨.print (start.merge c₉.last) value, c₉, by omega⟩

/-- Reads an assignment to a variable or to an element of an array. -/
def assignment (c : Cursor) : Except SyntaxError (Read Stmt c.size) := do
  let ⟨target, c₁, h₁⟩ ← c.ident
  match c₁.accept (.symbol .lbracket) with
  | some ⟨_, c₂, h₂⟩ =>
    let ⟨index, c₃, h₃⟩ ← c₂.expr
    let ⟨_, c₄, h₄⟩ ← c₃.symbol .rbracket
    let ⟨_, c₅, h₅⟩ ← c₄.symbol .assign
    let ⟨value, c₆, h₆⟩ ← c₅.expr
    let ⟨_, c₇, h₇⟩ ← c₆.symbol .semicolon
    return ⟨.arrayAssign (target.span.merge c₇.last) target index value, c₇, by omega⟩
  | none =>
    let ⟨_, c₂, h₂⟩ ← c₁.symbol .assign
    let ⟨value, c₃, h₃⟩ ← c₂.expr
    let ⟨_, c₄, h₄⟩ ← c₃.symbol .semicolon
    return ⟨.assign (target.span.merge c₄.last) target value, c₄, by omega⟩

mutual

/-- Reads a statement. -/
def stmt (c : Cursor) : Except SyntaxError (Read Stmt c.size) :=
  match c.kind with
  | .symbol .lbrace => do
    let ⟨_, c₁, h₁⟩ ← c.symbol .lbrace
    let ⟨body, c₂, h₂⟩ ← c₁.stmtsUpTo (.symbol .rbrace)
    return ⟨.block (c₁.last.merge c₂.last) body, c₂, by omega⟩
  | .keyword .ifKw => do
    let ⟨_, c₁, h₁⟩ ← c.keyword .ifKw
    let ⟨_, c₂, h₂⟩ ← c₁.symbol .lparen
    let ⟨cond, c₃, h₃⟩ ← c₂.expr
    let ⟨_, c₄, h₄⟩ ← c₃.symbol .rparen
    let ⟨thenBranch, c₅, h₅⟩ ← c₄.stmt
    let ⟨_, c₆, h₆⟩ ← c₅.keyword .elseKw
    let ⟨elseBranch, c₇, h₇⟩ ← c₆.stmt
    return ⟨.ifElse (c₁.last.merge c₇.last) cond thenBranch elseBranch, c₇, by omega⟩
  | .keyword .whileKw => do
    let ⟨_, c₁, h₁⟩ ← c.keyword .whileKw
    let ⟨_, c₂, h₂⟩ ← c₁.symbol .lparen
    let ⟨cond, c₃, h₃⟩ ← c₂.expr
    let ⟨_, c₄, h₄⟩ ← c₃.symbol .rparen
    let ⟨body, c₅, h₅⟩ ← c₄.stmt
    return ⟨.whileLoop (c₁.last.merge c₅.last) cond body, c₅, by omega⟩
  | .ident name =>
    if name = "System" ∧ c.ahead? = some (.symbol .dot) then c.printStmt else c.assignment
  | _ => throw (c.unexpected .statement)
termination_by (c.size, 0)

/-- Reads statements up to a token of kind `close`, and that token. -/
def stmtsUpTo (close : Token.Kind) (c : Cursor) : Except SyntaxError (Read (List Stmt) c.size) :=
  match c.accept close with
  | some ⟨_, c₁, h₁⟩ => return ⟨[], c₁, h₁⟩
  | none =>
    if c.kind = .eof then
      throw (c.unexpected (.token close))
    else do
      let ⟨first, c₁, h₁⟩ ← c.stmt
      let ⟨more, c₂, h₂⟩ ← c₁.stmtsUpTo close
      return ⟨first :: more, c₂, by omega⟩
termination_by (c.size, 1)

end

/-! ### Declarations -/

/-- Reads a written type. -/
def typeExpr (c : Cursor) : Except SyntaxError (Read TypeExpr c.size) :=
  match c.kind with
  | .keyword .intKw => do
    let ⟨_, c₁, h₁⟩ ← c.keyword .intKw
    match c₁.accept (.symbol .lbracket) with
    | some ⟨_, c₂, h₂⟩ =>
      let ⟨_, c₃, h₃⟩ ← c₂.symbol .rbracket
      return ⟨.intArray (c₁.last.merge c₃.last), c₃, by omega⟩
    | none => return ⟨.int c₁.last, c₁, h₁⟩
  | .keyword .booleanKw => do
    let ⟨_, c₁, h₁⟩ ← c.keyword .booleanKw
    return ⟨.boolean c₁.last, c₁, h₁⟩
  | .ident _ => do
    let ⟨name, c₁, h₁⟩ ← c.ident
    return ⟨.named name, c₁, h₁⟩
  | got => throw ⟨.expectedType got, c.current.span⟩

/-- Whether a variable declaration comes: a type of the language, or two identifiers in a row. -/
def atVarDecl (c : Cursor) : Bool :=
  match c.kind with
  | .keyword .intKw | .keyword .booleanKw => true
  | .ident _ =>
    match c.ahead? with
    | some (.ident _) => true
    | _ => false
  | _ => false

/-- Reads a variable declaration. -/
def varDecl (c : Cursor) : Except SyntaxError (Read VarDecl c.size) := do
  let ⟨type, c₁, h₁⟩ ← c.typeExpr
  let ⟨name, c₂, h₂⟩ ← c₁.ident
  let ⟨_, c₃, h₃⟩ ← c₂.symbol .semicolon
  return ⟨⟨type, name, type.span.merge c₃.last⟩, c₃, by omega⟩

/-- Reads variable declarations as long as they come. -/
def varDecls (c : Cursor) : Except SyntaxError (Read (List VarDecl) (c.size + 1)) :=
  if c.atVarDecl then do
    let ⟨first, c₁, h₁⟩ ← c.varDecl
    let ⟨more, c₂, h₂⟩ ← c₁.varDecls
    return ⟨first :: more, c₂, by omega⟩
  else
    return ⟨[], c, by omega⟩
termination_by c.size

/-- Reads at least one parameter, and the parenthesis that closes the list. -/
def params (c : Cursor) : Except SyntaxError (Read (List VarDecl) c.size) := do
  let ⟨type, c₁, h₁⟩ ← c.typeExpr
  let ⟨name, c₂, h₂⟩ ← c₁.ident
  let param : VarDecl := ⟨type, name, type.span.merge c₂.last⟩
  match c₂.accept (.symbol .comma) with
  | some ⟨_, c₃, h₃⟩ =>
    let ⟨more, c₄, h₄⟩ ← c₃.params
    return ⟨param :: more, c₄, by omega⟩
  | none =>
    let ⟨_, c₃, h₃⟩ ← c₂.symbol .rparen
    return ⟨[param], c₃, by omega⟩
termination_by c.size

/-- Reads a parameter list, both parentheses included. -/
def paramList (c : Cursor) : Except SyntaxError (Read (List VarDecl) c.size) := do
  let ⟨_, c₁, h₁⟩ ← c.symbol .lparen
  match c₁.accept (.symbol .rparen) with
  | some ⟨_, c₂, h₂⟩ => return ⟨[], c₂, by omega⟩
  | none =>
    let ⟨params, c₂, h₂⟩ ← c₁.params
    return ⟨params, c₂, by omega⟩

/-- Reads a method declaration. -/
def methodDecl (c : Cursor) : Except SyntaxError (Read MethodDecl c.size) := do
  let start := c.current.span
  let ⟨_, c₁, h₁⟩ ← c.keyword .publicKw
  let ⟨returns, c₂, h₂⟩ ← c₁.typeExpr
  let ⟨name, c₃, h₃⟩ ← c₂.ident
  let ⟨params, c₄, h₄⟩ ← c₃.paramList
  let ⟨_, c₅, h₅⟩ ← c₄.symbol .lbrace
  let ⟨vars, c₆, h₆⟩ ← c₅.varDecls
  let ⟨body, c₇, h₇⟩ ← c₆.stmtsUpTo (.keyword .returnKw)
  let ⟨result, c₈, h₈⟩ ← c₇.expr
  let ⟨_, c₉, h₉⟩ ← c₈.symbol .semicolon
  let ⟨_, c₁₀, h₁₀⟩ ← c₉.symbol .rbrace
  return ⟨⟨returns, name, params, vars, body, result, start.merge c₁₀.last⟩, c₁₀, by omega⟩

/-- Reads method declarations as long as they come. -/
def methodDecls (c : Cursor) : Except SyntaxError (Read (List MethodDecl) (c.size + 1)) :=
  if c.kind = .keyword .publicKw then do
    let ⟨first, c₁, h₁⟩ ← c.methodDecl
    let ⟨more, c₂, h₂⟩ ← c₁.methodDecls
    return ⟨first :: more, c₂, by omega⟩
  else
    return ⟨[], c, by omega⟩
termination_by c.size

/-- Reads the name of a parent class, if `extends` comes. -/
def parent (c : Cursor) : Except SyntaxError (Read (Option Ident) (c.size + 1)) :=
  match c.accept (.keyword .extendsKw) with
  | some ⟨_, c₁, h₁⟩ => do
    let ⟨name, c₂, h₂⟩ ← c₁.ident
    return ⟨some name, c₂, by omega⟩
  | none => return ⟨none, c, by omega⟩

/-- Reads a class declaration. -/
def classDecl (c : Cursor) : Except SyntaxError (Read ClassDecl c.size) := do
  let start := c.current.span
  let ⟨_, c₁, h₁⟩ ← c.keyword .classKw
  let ⟨name, c₂, h₂⟩ ← c₁.ident
  let ⟨parent, c₃, h₃⟩ ← c₂.parent
  let ⟨_, c₄, h₄⟩ ← c₃.symbol .lbrace
  let ⟨fields, c₅, h₅⟩ ← c₄.varDecls
  let ⟨methods, c₆, h₆⟩ ← c₅.methodDecls
  let ⟨_, c₇, h₇⟩ ← c₆.symbol .rbrace
  return ⟨⟨name, parent, fields, methods, start.merge c₇.last⟩, c₇, by omega⟩

/-- Reads class declarations up to the end of the text. -/
def classDecls (c : Cursor) : Except SyntaxError (List ClassDecl) :=
  if c.kind = .eof then
    return []
  else do
    let ⟨first, c₁, _⟩ ← c.classDecl
    return first :: (← c₁.classDecls)
termination_by c.size

/-- Reads the main class. -/
def mainClass (c : Cursor) : Except SyntaxError (Read MainClass c.size) := do
  let start := c.current.span
  let ⟨_, c₁, h₁⟩ ← c.keyword .classKw
  let ⟨name, c₂, h₂⟩ ← c₁.ident
  let ⟨_, c₃, h₃⟩ ← c₂.symbol .lbrace
  let ⟨_, c₄, h₄⟩ ← c₃.keyword .publicKw
  let ⟨_, c₅, h₅⟩ ← c₄.keyword .staticKw
  let ⟨_, c₆, h₆⟩ ← c₅.keyword .voidKw
  let ⟨_, c₇, h₇⟩ ← c₆.word "main"
  let ⟨_, c₈, h₈⟩ ← c₇.symbol .lparen
  let ⟨_, c₉, h₉⟩ ← c₈.word "String"
  let ⟨_, c₁₀, h₁₀⟩ ← c₉.symbol .lbracket
  let ⟨_, c₁₁, h₁₁⟩ ← c₁₀.symbol .rbracket
  let ⟨args, c₁₂, h₁₂⟩ ← c₁₁.ident
  let ⟨_, c₁₃, h₁₃⟩ ← c₁₂.symbol .rparen
  let ⟨_, c₁₄, h₁₄⟩ ← c₁₃.symbol .lbrace
  let ⟨vars, c₁₅, h₁₅⟩ ← c₁₄.varDecls
  let ⟨body, c₁₆, h₁₆⟩ ← c₁₅.stmtsUpTo (.symbol .rbrace)
  let ⟨_, c₁₇, h₁₇⟩ ← c₁₆.symbol .rbrace
  return ⟨⟨name, args, vars, body, start.merge c₁₇.last⟩, c₁₇, by omega⟩

end Cursor

/-- Reads a program from a list of tokens. -/
def Program.ofTokens (tokens : List Token) : Except SyntaxError Program := do
  let ⟨main, c, _⟩ ← (Cursor.start tokens).mainClass
  return ⟨main, ← c.classDecls⟩

/-- Reads a program from a text, which is the file number `file`. -/
def Program.parse (text : String) (file : Nat) : Except SyntaxError Program :=
  Program.ofTokens (tokenize text file)

end MiniJava
