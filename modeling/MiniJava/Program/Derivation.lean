import MiniJava.Digits
import MiniJava.Program.Grammar
import MiniJava.Program.Printer

/-!
# Programs as derivations from tokens

`Program.ReadFrom p ts` says that the tokens `ts` are a way to write the program `p`, and that the
spans of `p` are those that the tokens give it. There is one rule for each form of the grammar; the
rules do not say in which order tokens are looked at, or how far ahead.
-/

namespace MiniJava

/-- The token that an identifier was read from. -/
def Ident.token (i : Ident) : Token :=
  ⟨i.kind, i.span⟩

@[simp] theorem Ident.token_kind (i : Ident) : i.token.kind = i.kind := rfl

/-- The span of the last of some tokens, or `last` if there are none. -/
def lastSpan (last : Span) : List Token → Span
  | [] => last
  | t :: ts => lastSpan t.span ts

/-- The tokens are those of one thing after the other, where `R` tells the tokens of each. -/
inductive ReadAll {α : Type} (R : α → List Token → Prop) : List α → List Token → Prop
  | nil : ReadAll R [] []
  | cons {a : α} {as : List α} {ts us : List Token} :
    R a ts → ReadAll R as us → ReadAll R (a :: as) (ts ++ us)

/-- A written type and its tokens. -/
inductive TypeExpr.ReadFrom : TypeExpr → List Token → Prop
  | int {a : Span} : ReadFrom (.int a) [⟨.keyword .intKw, a⟩]
  | boolean {a : Span} : ReadFrom (.boolean a) [⟨.keyword .booleanKw, a⟩]
  | intArray {a b c : Span} :
    ReadFrom (.intArray (a.merge c))
      [⟨.keyword .intKw, a⟩, ⟨.symbol .lbracket, b⟩, ⟨.symbol .rbracket, c⟩]
  | named {name : Ident} : ReadFrom (.named name) [name.token]

mutual

/-- An expression and its tokens. -/
inductive Expr.ReadFrom : Expr → List Token → Prop
  | int {a : Span} {digits : String} :
    isIntText digits = true →
    ReadFrom (.int a (Digits.value digits.toList)) [⟨.intLit digits, a⟩]
  | bool {a : Span} {value : Bool} :
    ReadFrom (.bool a value) [⟨.keyword (if value then .trueKw else .falseKw), a⟩]
  | ident {name : Ident} : ReadFrom (.ident name) [name.token]
  | this {a : Span} : ReadFrom (.this a) [⟨.keyword .thisKw, a⟩]
  | newArray {a b c d : Span} {size : Expr} {ts : List Token} :
    ReadFrom size ts →
    ReadFrom (.newArray (a.merge d) size)
      (⟨.keyword .newKw, a⟩ :: ⟨.keyword .intKw, b⟩ :: ⟨.symbol .lbracket, c⟩ ::
        (ts ++ [⟨.symbol .rbracket, d⟩]))
  | newObject {a b c : Span} {cls : Ident} :
    ReadFrom (.newObject (a.merge c) cls)
      [⟨.keyword .newKw, a⟩, cls.token, ⟨.symbol .lparen, b⟩, ⟨.symbol .rparen, c⟩]
  | not {a : Span} {operand : Expr} {ts : List Token} :
    operand.isPrimary → ReadFrom operand ts →
    ReadFrom (.not (a.merge operand.span) operand) (⟨.symbol .bang, a⟩ :: ts)
  | paren {a b : Span} {inner : Expr} {ts : List Token} :
    ReadFrom inner ts →
    ReadFrom (.paren (a.merge b) inner) (⟨.symbol .lparen, a⟩ :: (ts ++ [⟨.symbol .rparen, b⟩]))
  | binary {a : Span} {op : BinOp} {left right : Expr} {ts us : List Token} :
    left.isPrimary → right.isPrimary → ReadFrom left ts → ReadFrom right us →
    ReadFrom (.binary (left.span.merge right.span) op left right)
      (ts ++ ⟨.symbol op.symbol, a⟩ :: us)
  | index {a b : Span} {array position : Expr} {ts us : List Token} :
    array.isPrimary → position.isPrimary → ReadFrom array ts → ReadFrom position us →
    ReadFrom (.index (array.span.merge b) array position)
      (ts ++ ⟨.symbol .lbracket, a⟩ :: (us ++ [⟨.symbol .rbracket, b⟩]))
  | length {a b : Span} {array : Expr} {ts : List Token} :
    array.isPrimary → ReadFrom array ts →
    ReadFrom (.length (array.span.merge b) array) (ts ++ [⟨.symbol .dot, a⟩, ⟨.ident "length", b⟩])
  | send {a b c : Span} {receiver : Expr} {method : Ident} {args : List Expr}
      {ts us : List Token} :
    receiver.isPrimary → ReadFrom receiver ts → Expr.ArgsReadFrom args us →
    ReadFrom (.send (receiver.span.merge c) receiver method args)
      (ts ++ ⟨.symbol .dot, a⟩ :: method.token :: ⟨.symbol .lparen, b⟩ ::
        (us ++ [⟨.symbol .rparen, c⟩]))

/-- Arguments with commas between them, and their tokens. -/
inductive Expr.ArgsReadFrom : List Expr → List Token → Prop
  | nil : ArgsReadFrom [] []
  | one {arg : Expr} {ts : List Token} : Expr.ReadFrom arg ts → ArgsReadFrom [arg] ts
  | cons {a : Span} {arg next : Expr} {more : List Expr} {ts us : List Token} :
    Expr.ReadFrom arg ts → ArgsReadFrom (next :: more) us →
    ArgsReadFrom (arg :: next :: more) (ts ++ ⟨.symbol .comma, a⟩ :: us)

end

mutual

/-- A statement and its tokens. -/
inductive Stmt.ReadFrom : Stmt → List Token → Prop
  | block {a b : Span} {body : List Stmt} {ts : List Token} :
    Stmt.AllReadFrom body ts →
    ReadFrom (.block (a.merge b) body) (⟨.symbol .lbrace, a⟩ :: (ts ++ [⟨.symbol .rbrace, b⟩]))
  | assign {a b : Span} {target : Ident} {value : Expr} {ts : List Token} :
    value.ReadFrom ts →
    ReadFrom (.assign (target.span.merge b) target value)
      (target.token :: ⟨.symbol .assign, a⟩ :: (ts ++ [⟨.symbol .semicolon, b⟩]))
  | arrayAssign {a b c d : Span} {target : Ident} {position value : Expr} {ts us : List Token} :
    position.ReadFrom ts → value.ReadFrom us →
    ReadFrom (.arrayAssign (target.span.merge d) target position value)
      (target.token :: ⟨.symbol .lbracket, a⟩ :: (ts ++ ⟨.symbol .rbracket, b⟩ ::
        ⟨.symbol .assign, c⟩ :: (us ++ [⟨.symbol .semicolon, d⟩])))
  | ifElse {a b c d : Span} {cond : Expr} {thenBranch elseBranch : Stmt}
      {ts us vs : List Token} :
    cond.ReadFrom ts → ReadFrom thenBranch us → ReadFrom elseBranch vs →
    ReadFrom (.ifElse (a.merge (lastSpan d vs)) cond thenBranch elseBranch)
      (⟨.keyword .ifKw, a⟩ :: ⟨.symbol .lparen, b⟩ :: (ts ++ ⟨.symbol .rparen, c⟩ ::
        (us ++ ⟨.keyword .elseKw, d⟩ :: vs)))
  | whileLoop {a b c : Span} {cond : Expr} {body : Stmt} {ts us : List Token} :
    cond.ReadFrom ts → ReadFrom body us →
    ReadFrom (.whileLoop (a.merge (lastSpan c us)) cond body)
      (⟨.keyword .whileKw, a⟩ :: ⟨.symbol .lparen, b⟩ :: (ts ++ ⟨.symbol .rparen, c⟩ :: us))
  | print {a b c d e f g h : Span} {value : Expr} {ts : List Token} :
    value.ReadFrom ts →
    ReadFrom (.print (a.merge h) value)
      (⟨.ident "System", a⟩ :: ⟨.symbol .dot, b⟩ :: ⟨.ident "out", c⟩ :: ⟨.symbol .dot, d⟩ ::
        ⟨.ident "println", e⟩ :: ⟨.symbol .lparen, f⟩ ::
        (ts ++ [⟨.symbol .rparen, g⟩, ⟨.symbol .semicolon, h⟩]))

/-- Statements in a row and their tokens. -/
inductive Stmt.AllReadFrom : List Stmt → List Token → Prop
  | nil : AllReadFrom [] []
  | cons {first : Stmt} {more : List Stmt} {ts us : List Token} :
    Stmt.ReadFrom first ts → AllReadFrom more us → AllReadFrom (first :: more) (ts ++ us)

end

/-- The declaration of a field or a local variable and its tokens. -/
inductive VarDecl.ReadFrom : VarDecl → List Token → Prop
  | intro {a : Span} {type : TypeExpr} {name : Ident} {ts : List Token} :
    type.ReadFrom ts →
    ReadFrom ⟨type, name, type.span.merge a⟩ (ts ++ [name.token, ⟨.symbol .semicolon, a⟩])

/-- The declaration of a parameter and its tokens. -/
inductive VarDecl.ParamReadFrom : VarDecl → List Token → Prop
  | intro {type : TypeExpr} {name : Ident} {ts : List Token} :
    type.ReadFrom ts → ParamReadFrom ⟨type, name, type.span.merge name.span⟩ (ts ++ [name.token])

/-- Parameters with commas between them, and their tokens. -/
inductive VarDecl.ParamsReadFrom : List VarDecl → List Token → Prop
  | nil : ParamsReadFrom [] []
  | one {d : VarDecl} {ts : List Token} : VarDecl.ParamReadFrom d ts → ParamsReadFrom [d] ts
  | cons {a : Span} {d next : VarDecl} {more : List VarDecl} {ts us : List Token} :
    VarDecl.ParamReadFrom d ts → ParamsReadFrom (next :: more) us →
    ParamsReadFrom (d :: next :: more) (ts ++ ⟨.symbol .comma, a⟩ :: us)

/-- A method declaration and its tokens. -/
inductive MethodDecl.ReadFrom : MethodDecl → List Token → Prop
  | intro {a b c d e f g : Span} {returns : TypeExpr} {name : Ident} {params vars : List VarDecl}
      {body : List Stmt} {result : Expr} {ts us vs ws xs : List Token} :
    returns.ReadFrom ts → VarDecl.ParamsReadFrom params us → ReadAll VarDecl.ReadFrom vars vs →
    Stmt.AllReadFrom body ws → result.ReadFrom xs →
    ReadFrom ⟨returns, name, params, vars, body, result, a.merge g⟩
      (⟨.keyword .publicKw, a⟩ :: (ts ++ name.token :: ⟨.symbol .lparen, b⟩ ::
        (us ++ ⟨.symbol .rparen, c⟩ :: ⟨.symbol .lbrace, d⟩ ::
          (vs ++ (ws ++ ⟨.keyword .returnKw, e⟩ ::
            (xs ++ [⟨.symbol .semicolon, f⟩, ⟨.symbol .rbrace, g⟩]))))))

/-- The clause that names the parent of a class, if there is one, and its tokens. -/
inductive ClassDecl.ParentReadFrom : Option Ident → List Token → Prop
  | none : ParentReadFrom none []
  | some {a : Span} {parent : Ident} :
    ParentReadFrom (some parent) [⟨.keyword .extendsKw, a⟩, parent.token]

/-- A class declaration and its tokens. -/
inductive ClassDecl.ReadFrom : ClassDecl → List Token → Prop
  | intro {a b c : Span} {name : Ident} {parent : Option Ident} {fields : List VarDecl}
      {methods : List MethodDecl} {ts us vs : List Token} :
    ClassDecl.ParentReadFrom parent ts → ReadAll VarDecl.ReadFrom fields us →
    ReadAll MethodDecl.ReadFrom methods vs →
    ReadFrom ⟨name, parent, fields, methods, a.merge c⟩
      (⟨.keyword .classKw, a⟩ :: name.token :: (ts ++ ⟨.symbol .lbrace, b⟩ ::
        (us ++ (vs ++ [⟨.symbol .rbrace, c⟩]))))

/-- A main class and its tokens. -/
inductive MainClass.ReadFrom : MainClass → List Token → Prop
  | intro {a b c d e f g h i j k l m n : Span} {name args : Ident} {vars : List VarDecl}
      {body : List Stmt} {ts us : List Token} :
    ReadAll VarDecl.ReadFrom vars ts → Stmt.AllReadFrom body us →
    ReadFrom ⟨name, args, vars, body, a.merge n⟩
      (⟨.keyword .classKw, a⟩ :: name.token :: ⟨.symbol .lbrace, b⟩ :: ⟨.keyword .publicKw, c⟩ ::
        ⟨.keyword .staticKw, d⟩ :: ⟨.keyword .voidKw, e⟩ :: ⟨.ident "main", f⟩ ::
        ⟨.symbol .lparen, g⟩ :: ⟨.ident "String", h⟩ :: ⟨.symbol .lbracket, i⟩ ::
        ⟨.symbol .rbracket, j⟩ :: args.token :: ⟨.symbol .rparen, k⟩ :: ⟨.symbol .lbrace, l⟩ ::
        (ts ++ (us ++ [⟨.symbol .rbrace, m⟩, ⟨.symbol .rbrace, n⟩])))

/-- A program and its tokens, without the end mark. -/
inductive Program.ReadFrom : Program → List Token → Prop
  | intro {main : MainClass} {classes : List ClassDecl} {ts us : List Token} :
    main.ReadFrom ts → ReadAll ClassDecl.ReadFrom classes us → ReadFrom ⟨main, classes⟩ (ts ++ us)

end MiniJava
