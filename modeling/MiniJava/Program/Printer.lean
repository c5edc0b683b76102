import MiniJava.Digits
import MiniJava.Program.Basic

/-!
# Programs as kinds of tokens

`Program.kinds` is the list of the kinds of tokens that a program is written with. It depends
neither on spans nor on the layout of a text. An integer literal is written without leading zeros;
`Token.Kind.canonical` takes them off a kind that was read from a text, and `Token.Kind.Writes` is
the relation between a kind that may have them and the kind without.
-/

namespace MiniJava

/-- A kind of token with the leading zeros of an integer literal taken off. -/
def Token.Kind.canonical : Kind → Kind
  | intLit digits => intLit <|
    if Digits.isRun digits.toList then
      String.ofList (Nat.toDigits 10 (Digits.value digits.toList))
    else
      digits
  | kind => kind

/-- The first kind is a way to write the second one: an integer literal may have leading zeros, and
everything else is written in one way. -/
inductive Token.Kind.Writes : Kind → Kind → Prop
  | keyword (word : Keyword) : Writes (.keyword word) (.keyword word)
  | ident (name : String) : Writes (.ident name) (.ident name)
  | intLit (zeros value : Nat) :
    Writes (.intLit (String.ofList (List.replicate zeros '0' ++ Nat.toDigits 10 value)))
      (.intLit (String.ofList (Nat.toDigits 10 value)))
  | symbol (sign : Symbol) : Writes (.symbol sign) (.symbol sign)
  | eof : Writes .eof .eof
  | unknown (char : Char) : Writes (.unknown char) (.unknown char)

/-- The kind of an identifier. -/
def Ident.kind (i : Ident) : Token.Kind :=
  .ident i.name

/-- The kinds of a written type. -/
def TypeExpr.kinds : TypeExpr → List Token.Kind
  | int _ => [.keyword .intKw]
  | boolean _ => [.keyword .booleanKw]
  | intArray _ => [.keyword .intKw, .symbol .lbracket, .symbol .rbracket]
  | named name => [name.kind]

mutual

/-- The kinds of an expression. -/
def Expr.kinds : Expr → List Token.Kind
  | .int _ value => [.intLit (String.ofList (Nat.toDigits 10 value))]
  | .bool _ value => [.keyword (if value then .trueKw else .falseKw)]
  | .ident name => [name.kind]
  | .this _ => [.keyword .thisKw]
  | .binary _ op left right => left.kinds ++ .symbol op.symbol :: right.kinds
  | .not _ operand => .symbol .bang :: operand.kinds
  | .index _ array position =>
    array.kinds ++ .symbol .lbracket :: position.kinds ++ [.symbol .rbracket]
  | .length _ array => array.kinds ++ [.symbol .dot, .ident "length"]
  | .send _ receiver method args =>
    receiver.kinds ++ .symbol .dot :: method.kind :: .symbol .lparen :: Expr.argKinds args ++
      [.symbol .rparen]
  | .newArray _ size =>
    .keyword .newKw :: .keyword .intKw :: .symbol .lbracket :: size.kinds ++ [.symbol .rbracket]
  | .newObject _ cls => [.keyword .newKw, cls.kind, .symbol .lparen, .symbol .rparen]
  | .paren _ inner => .symbol .lparen :: inner.kinds ++ [.symbol .rparen]

/-- The kinds of arguments, with commas between them. -/
def Expr.argKinds : List Expr → List Token.Kind
  | [] => []
  | [arg] => arg.kinds
  | arg :: more => arg.kinds ++ .symbol .comma :: Expr.argKinds more

end

mutual

/-- The kinds of a statement. -/
def Stmt.kinds : Stmt → List Token.Kind
  | .block _ body => .symbol .lbrace :: Stmt.allKinds body ++ [.symbol .rbrace]
  | .assign _ target value =>
    target.kind :: .symbol .assign :: value.kinds ++ [.symbol .semicolon]
  | .arrayAssign _ target position value =>
    target.kind :: .symbol .lbracket :: position.kinds ++
      .symbol .rbracket :: .symbol .assign :: value.kinds ++ [.symbol .semicolon]
  | .ifElse _ cond thenBranch elseBranch =>
    .keyword .ifKw :: .symbol .lparen :: cond.kinds ++ .symbol .rparen :: thenBranch.kinds ++
      .keyword .elseKw :: elseBranch.kinds
  | .whileLoop _ cond body =>
    .keyword .whileKw :: .symbol .lparen :: cond.kinds ++ .symbol .rparen :: body.kinds
  | .print _ value =>
    .ident "System" :: .symbol .dot :: .ident "out" :: .symbol .dot :: .ident "println" ::
      .symbol .lparen :: value.kinds ++ [.symbol .rparen, .symbol .semicolon]

/-- The kinds of statements in a row. -/
def Stmt.allKinds : List Stmt → List Token.Kind
  | [] => []
  | first :: more => first.kinds ++ Stmt.allKinds more

end

/-- The kinds of the declaration of a field or a local variable. -/
def VarDecl.kinds (d : VarDecl) : List Token.Kind :=
  d.type.kinds ++ [d.name.kind, .symbol .semicolon]

/-- The kinds of declarations in a row. -/
def VarDecl.allKinds (ds : List VarDecl) : List Token.Kind :=
  ds.flatMap VarDecl.kinds

/-- The kinds of the declaration of a parameter. -/
def VarDecl.paramKinds (d : VarDecl) : List Token.Kind :=
  d.type.kinds ++ [d.name.kind]

/-- The kinds of parameters, with commas between them. -/
def VarDecl.paramListKinds : List VarDecl → List Token.Kind
  | [] => []
  | [d] => d.paramKinds
  | d :: more => d.paramKinds ++ .symbol .comma :: VarDecl.paramListKinds more

/-- The kinds of a method declaration. -/
def MethodDecl.kinds (d : MethodDecl) : List Token.Kind :=
  .keyword .publicKw :: d.returns.kinds ++
    d.name.kind :: .symbol .lparen :: VarDecl.paramListKinds d.params ++
    .symbol .rparen :: .symbol .lbrace :: VarDecl.allKinds d.vars ++ Stmt.allKinds d.body ++
    .keyword .returnKw :: d.result.kinds ++ [.symbol .semicolon, .symbol .rbrace]

/-- The kinds of the clause that names the parent of a class. -/
def ClassDecl.parentKinds (d : ClassDecl) : List Token.Kind :=
  match d.parent with
  | none => []
  | some parent => [.keyword .extendsKw, parent.kind]

/-- The kinds of a class declaration. -/
def ClassDecl.kinds (d : ClassDecl) : List Token.Kind :=
  .keyword .classKw :: d.name.kind :: d.parentKinds ++
    .symbol .lbrace :: VarDecl.allKinds d.fields ++ d.methods.flatMap MethodDecl.kinds ++
    [.symbol .rbrace]

/-- The kinds of the main class. -/
def MainClass.kinds (d : MainClass) : List Token.Kind :=
  [.keyword .classKw, d.name.kind, .symbol .lbrace, .keyword .publicKw, .keyword .staticKw,
    .keyword .voidKw, .ident "main", .symbol .lparen, .ident "String", .symbol .lbracket,
    .symbol .rbracket, d.args.kind, .symbol .rparen, .symbol .lbrace] ++
    VarDecl.allKinds d.vars ++ Stmt.allKinds d.body ++ [.symbol .rbrace, .symbol .rbrace]

/-- The kinds of a program. -/
def Program.kinds (p : Program) : List Token.Kind :=
  p.main.kinds ++ p.classes.flatMap ClassDecl.kinds

end MiniJava
