import MiniJava.Digits
import MiniJava.Program.Basic
import MiniJava.Program.SyntaxError

/-!
# Reading programs by an index

The grammar by recursive descent over a list of tokens that stays as it is, and an index that is
changed in place. Nothing in the readers makes sure that the index stays inside the list, or that a
loop comes to an end.

* `Walk` is an action on the index.
* `Walk.current`, `Walk.prevSpan` and `Walk.advance` are the accesses to the list without a check.
  Each of them is noted in the trail, and one outside the list halts the walk.
* `Walk.program` reads a program. Readers that call themselves, and loops, get a bound on how many
  calls and turns may be under way inside each other; a walk that needs more of them halts.
-/

namespace MiniJava

/-- Whether a kind of token is taken for a binary operator. -/
def Token.Kind.isBinaryOp : Token.Kind → Bool
  | .symbol sign => [.andAnd, .less, .plus, .minus, .star].contains sign
  | _ => false

/-- An access to a list of tokens at an index. -/
inductive Access
  /-- The token to come is looked at. -/
  | look (index : Nat)
  /-- The span of the token before is looked at. -/
  | back (index : Nat)
  /-- The token to come is consumed. -/
  | take (index : Nat)
deriving DecidableEq

/-- Why a walk ends without a value. -/
inductive Halt
  | fault (e : SyntaxError)
  /-- There is no token at the index. -/
  | outside (index : Nat)
  /-- A token was taken for a binary operator and is none. -/
  | noOperator (token : Token)
  /-- More calls are under way than the bound allows. -/
  | tooDeep
deriving DecidableEq

/-- Where a walk stands: the index of the token to come, and the accesses so far in their order. -/
structure Walker where
  position : Nat
  trail : List Access
deriving DecidableEq

/-- The beginning of a walk. -/
def Walker.start : Walker := ⟨0, []⟩

/-- An action of a walker along a list of tokens. -/
abbrev Walk : Type → Type :=
  ReaderT (List Token) (ExceptT Halt (StateM Walker))

namespace Walk

/-- What becomes of an action at `w`, and where the walker stands then. -/
def outcome {α : Type} (m : Walk α) (tokens : List Token) (w : Walker) : Except Halt α × Walker :=
  m tokens w

/-! ### Accesses -/

/-- Reads the token at an index, which has to be there. -/
def access (note : Nat → Access) (index : Nat) : Walk Token := do
  modify fun w => { w with trail := w.trail ++ [note index] }
  (← read)[index]?.elim (throw (.outside index)) pure

/-- The token to come, or the last one behind the end of the list. -/
def current : Walk Token := do
  access .look (min (← get).position ((← read).length - 1))

/-- The kind of the token to come. -/
def kind : Walk Token.Kind :=
  return (← current).kind

/-- The kind of the token after the one to come. -/
def ahead? : Walk (Option Token.Kind) :=
  return (← read)[(← get).position + 1]?.map Token.kind

/-- The span of the token before the one to come. -/
def prevSpan : Walk Span :=
  return (← access .back ((← get).position - 1)).span

/-- Consumes the token to come. The index moves unless this is the last token of the list. -/
def advance : Walk Token := do
  let token ← access .take (min (← get).position ((← read).length - 1))
  if (← get).position < (← read).length - 1 then
    modify fun w => { w with position := w.position + 1 }
  return token

/-! ### One token -/

/-- Ends the walk with a fault of form. -/
def fail {α : Type} (e : SyntaxError) : Walk α :=
  throw (.fault e)

/-- Whether a token of kind `k` comes. -/
def check (k : Token.Kind) : Walk Bool :=
  return (← kind) == k

/-- The complaint that `expected` does not come; an invalid character is named as such. -/
def unexpected (expected : Expectation) : Walk SyntaxError := do
  let token ← current
  match token.kind with
  | .unknown char => return ⟨.invalidCharacter char, token.span⟩
  | got => return ⟨.unexpectedToken expected got, token.span⟩

/-- Consumes a token of kind `k`, which has to come. -/
def expect (k : Token.Kind) : Walk Token := do
  if ← check k then
    advance
  else
    fail (← unexpected (.token k))

/-- Consumes a token of kind `k` if it comes, and tells whether it did. -/
def consume (k : Token.Kind) : Walk Bool := do
  if ← check k then
    let _ ← advance
    return true
  else
    return false

/-- Reads an identifier. -/
def ident : Walk Ident := do
  let token ← current
  match token.kind with
  | .ident name =>
    let _ ← advance
    return ⟨name, token.span⟩
  | got => fail ⟨.expectedIdent got, token.span⟩

/-- Reads the identifier `name`, which has to come. -/
def word (name : String) : Walk Ident := do
  if ← check (.ident name) then
    ident
  else
    fail (← unexpected (.word name))

/-- Reads nothing where a token of kind `close` comes, and a list by `m` elsewhere. -/
def listBefore {α : Type} (close : Token.Kind) (m : Walk (List α)) : Walk (List α) := do
  if ← check close then
    return []
  else
    m

/-- The operator of a token that was taken for one. -/
def binOp (token : Token) : Walk BinOp :=
  (BinOp.ofKind? token.kind).elim (throw (.noOperator token)) pure

/-! ### Expressions -/

mutual

/-- Reads an expression that no operator divides. -/
def primary : Nat → Walk Expr
  | 0 => throw .tooDeep
  | depth + 1 => do
    let token ← current
    match token.kind with
    | .intLit digits =>
      let _ ← advance
      if isIntText digits then
        return .int token.span (Digits.value digits.toList)
      else
        fail ⟨.integerOutOfRange digits, token.span⟩
    | .keyword .trueKw =>
      let _ ← advance
      return .bool token.span true
    | .keyword .falseKw =>
      let _ ← advance
      return .bool token.span false
    | .ident _ => return .ident (← ident)
    | .keyword .thisKw =>
      let _ ← advance
      return .this token.span
    | .keyword .newKw =>
      let _ ← advance
      if ← consume (.keyword .intKw) then
        let _ ← expect (.symbol .lbracket)
        let size ← expr depth
        let _ ← expect (.symbol .rbracket)
        return .newArray (token.span.merge (← prevSpan)) size
      else
        let cls ← ident
        let _ ← expect (.symbol .lparen)
        let _ ← expect (.symbol .rparen)
        return .newObject (token.span.merge (← prevSpan)) cls
    | .symbol .bang =>
      let _ ← advance
      let operand ← primary depth
      return .not (token.span.merge operand.span) operand
    | .symbol .lparen =>
      let _ ← advance
      let inner ← expr depth
      let _ ← expect (.symbol .rparen)
      return .paren (token.span.merge (← prevSpan)) inner
    | .unknown char => fail ⟨.invalidCharacter char, token.span⟩
    | got => fail ⟨.expectedExpr got, token.span⟩

/-- Reads an expression: a primary one, with at most one operation behind it. -/
def expr : Nat → Walk Expr
  | 0 => throw .tooDeep
  | depth + 1 => do
    let left ← primary depth
    if (← kind).isBinaryOp then
      let op ← binOp (← advance)
      let right ← primary depth
      return .binary (left.span.merge right.span) op left right
    else if ← consume (.symbol .lbracket) then
      let index ← primary depth
      let _ ← expect (.symbol .rbracket)
      return .index (left.span.merge (← prevSpan)) left index
    else if ← consume (.symbol .dot) then
      let isLength := (← check (.ident "length")) && (← ahead?) != some (.symbol .lparen)
      let method ← ident
      if isLength then
        return .length (left.span.merge method.span) left
      else
        let _ ← expect (.symbol .lparen)
        let args ← listBefore (.symbol .rparen) (args depth)
        let _ ← expect (.symbol .rparen)
        return .send (left.span.merge (← prevSpan)) left method args
    else
      return left

/-- Reads arguments as long as commas come. -/
def args : Nat → Walk (List Expr)
  | 0 => throw .tooDeep
  | depth + 1 => do
    let arg ← expr depth
    if ← consume (.symbol .comma) then
      return arg :: (← args depth)
    else
      return [arg]

end

/-! ### Statements -/

/-- Reads a printing statement. -/
def printStmt (depth : Nat) : Walk Stmt := do
  let start := (← current).span
  let _ ← word "System"
  let _ ← expect (.symbol .dot)
  let _ ← word "out"
  let _ ← expect (.symbol .dot)
  let _ ← word "println"
  let _ ← expect (.symbol .lparen)
  let value ← expr depth
  let _ ← expect (.symbol .rparen)
  let _ ← expect (.symbol .semicolon)
  return .print (start.merge (← prevSpan)) value

/-- Reads an assignment to a variable or to an element of an array. -/
def assignment (depth : Nat) : Walk Stmt := do
  let target ← ident
  if ← consume (.symbol .lbracket) then
    let index ← expr depth
    let _ ← expect (.symbol .rbracket)
    let _ ← expect (.symbol .assign)
    let value ← expr depth
    let _ ← expect (.symbol .semicolon)
    return .arrayAssign (target.span.merge (← prevSpan)) target index value
  else
    let _ ← expect (.symbol .assign)
    let value ← expr depth
    let _ ← expect (.symbol .semicolon)
    return .assign (target.span.merge (← prevSpan)) target value

mutual

/-- Reads a statement. -/
def stmt : Nat → Walk Stmt
  | 0 => throw .tooDeep
  | depth + 1 => do
    let start := (← current).span
    let isPrint := (← check (.ident "System")) && (← ahead?) == some (.symbol .dot)
    match ← kind with
    | .symbol .lbrace =>
      let _ ← advance
      let body ← stmtsUntil (.symbol .rbrace) depth
      let _ ← expect (.symbol .rbrace)
      return .block (start.merge (← prevSpan)) body
    | .keyword .ifKw =>
      let _ ← advance
      let _ ← expect (.symbol .lparen)
      let cond ← expr depth
      let _ ← expect (.symbol .rparen)
      let thenBranch ← stmt depth
      let _ ← expect (.keyword .elseKw)
      let elseBranch ← stmt depth
      return .ifElse (start.merge (← prevSpan)) cond thenBranch elseBranch
    | .keyword .whileKw =>
      let _ ← advance
      let _ ← expect (.symbol .lparen)
      let cond ← expr depth
      let _ ← expect (.symbol .rparen)
      let body ← stmt depth
      return .whileLoop (start.merge (← prevSpan)) cond body
    | .ident _ => if isPrint then printStmt depth else assignment depth
    | _ => fail (← unexpected .statement)

/-- Reads statements until a token of kind `close` comes, or the end mark. -/
def stmtsUntil (close : Token.Kind) : Nat → Walk (List Stmt)
  | 0 => throw .tooDeep
  | depth + 1 => do
    if ← check close then
      return []
    else if ← check .eof then
      return []
    else
      let first ← stmt depth
      return first :: (← stmtsUntil close depth)

end

/-! ### Declarations -/

/-- Reads a written type. -/
def typeExpr : Walk TypeExpr := do
  let token ← current
  match token.kind with
  | .keyword .intKw =>
    let _ ← advance
    if ← consume (.symbol .lbracket) then
      let _ ← expect (.symbol .rbracket)
      return .intArray (token.span.merge (← prevSpan))
    else
      return .int token.span
  | .keyword .booleanKw =>
    let _ ← advance
    return .boolean token.span
  | .ident _ => return .named (← ident)
  | got => fail ⟨.expectedType got, token.span⟩

/-- Whether a variable declaration comes: a type of the language, or two identifiers in a row. -/
def atVarDecl : Walk Bool := do
  match ← kind with
  | .keyword .intKw | .keyword .booleanKw => return true
  | .ident _ =>
    match ← ahead? with
    | some (.ident _) => return true
    | _ => return false
  | _ => return false

/-- Reads variable declarations as long as they come. -/
def varDecls : Nat → Walk (List VarDecl)
  | 0 => throw .tooDeep
  | depth + 1 => do
    if ← atVarDecl then
      let start := (← current).span
      let type ← typeExpr
      let name ← ident
      let _ ← expect (.symbol .semicolon)
      let first : VarDecl := ⟨type, name, start.merge (← prevSpan)⟩
      return first :: (← varDecls depth)
    else
      return []

/-- Reads parameters as long as commas come. -/
def params : Nat → Walk (List VarDecl)
  | 0 => throw .tooDeep
  | depth + 1 => do
    let start := (← current).span
    let type ← typeExpr
    let name ← ident
    let param : VarDecl := ⟨type, name, start.merge (← prevSpan)⟩
    if ← consume (.symbol .comma) then
      return param :: (← params depth)
    else
      return [param]

/-- Reads a parameter list, both parentheses included. -/
def paramList (depth : Nat) : Walk (List VarDecl) := do
  let _ ← expect (.symbol .lparen)
  let params ← listBefore (.symbol .rparen) (params depth)
  let _ ← expect (.symbol .rparen)
  return params

/-- Reads a method declaration. -/
def methodDecl (depth : Nat) : Walk MethodDecl := do
  let start := (← current).span
  let _ ← expect (.keyword .publicKw)
  let returns ← typeExpr
  let name ← ident
  let params ← paramList depth
  let _ ← expect (.symbol .lbrace)
  let vars ← varDecls depth
  let body ← stmtsUntil (.keyword .returnKw) depth
  let _ ← expect (.keyword .returnKw)
  let result ← expr depth
  let _ ← expect (.symbol .semicolon)
  let _ ← expect (.symbol .rbrace)
  return ⟨returns, name, params, vars, body, result, start.merge (← prevSpan)⟩

/-- Reads method declarations as long as they come. -/
def methodDecls : Nat → Walk (List MethodDecl)
  | 0 => throw .tooDeep
  | depth + 1 => do
    if ← check (.keyword .publicKw) then
      let first ← methodDecl depth
      return first :: (← methodDecls depth)
    else
      return []

/-- Reads the name of a parent class, if `extends` comes. -/
def parent : Walk (Option Ident) := do
  if ← consume (.keyword .extendsKw) then
    return some (← ident)
  else
    return none

/-- Reads a class declaration. -/
def classDecl (depth : Nat) : Walk ClassDecl := do
  let start := (← current).span
  let _ ← expect (.keyword .classKw)
  let name ← ident
  let parent ← parent
  let _ ← expect (.symbol .lbrace)
  let fields ← varDecls depth
  let methods ← methodDecls depth
  let _ ← expect (.symbol .rbrace)
  return ⟨name, parent, fields, methods, start.merge (← prevSpan)⟩

/-- Reads class declarations up to the end mark. -/
def classDecls : Nat → Walk (List ClassDecl)
  | 0 => throw .tooDeep
  | depth + 1 => do
    if ← check .eof then
      return []
    else
      let first ← classDecl depth
      return first :: (← classDecls depth)

/-- Reads the main class. -/
def mainClass (depth : Nat) : Walk MainClass := do
  let start := (← current).span
  let _ ← expect (.keyword .classKw)
  let name ← ident
  let _ ← expect (.symbol .lbrace)
  let _ ← expect (.keyword .publicKw)
  let _ ← expect (.keyword .staticKw)
  let _ ← expect (.keyword .voidKw)
  let _ ← word "main"
  let _ ← expect (.symbol .lparen)
  let _ ← word "String"
  let _ ← expect (.symbol .lbracket)
  let _ ← expect (.symbol .rbracket)
  let args ← ident
  let _ ← expect (.symbol .rparen)
  let _ ← expect (.symbol .lbrace)
  let vars ← varDecls depth
  let body ← stmtsUntil (.symbol .rbrace) depth
  let _ ← expect (.symbol .rbrace)
  let _ ← expect (.symbol .rbrace)
  return ⟨name, args, vars, body, start.merge (← prevSpan)⟩

/-- Reads a program. -/
def program (depth : Nat) : Walk Program := do
  let main ← mainClass depth
  return ⟨main, ← classDecls depth⟩

end Walk

end MiniJava
