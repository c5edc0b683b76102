import MiniJava.Program.Printer

/-!
# The phrases of a program

* `Phrase` are the parts of a program that have a span of their own: declarations, written types,
  identifiers, statements and expressions.
* `Phrase.items` tells what a phrase is written with: its own tokens and the phrases directly inside
  of it, in the order of the text.
* `Program.PhraseAt` says which phrases a program has, and how many tokens of the program come
  before each of them.
-/

namespace MiniJava

/-- A part of a program that has a span. A variable is a field or a local variable. -/
inductive Phrase
  | main (d : MainClass)
  | cls (d : ClassDecl)
  | method (d : MethodDecl)
  | var (d : VarDecl)
  | param (d : VarDecl)
  | type (type : TypeExpr)
  | ident (i : Ident)
  | stmt (s : Stmt)
  | expr (e : Expr)

namespace Phrase

/-- The span of a phrase. -/
def span : Phrase → Span
  | main d => d.span
  | cls d => d.span
  | method d => d.span
  | var d | param d => d.span
  | type t => t.span
  | ident i => i.span
  | stmt s => s.span
  | expr e => e.span

/-- The kinds of the tokens that a phrase is written with. -/
def kinds : Phrase → List Token.Kind
  | main d => d.kinds
  | cls d => d.kinds
  | method d => d.kinds
  | var d => d.kinds
  | param d => d.paramKinds
  | type t => t.kinds
  | ident i => [i.kind]
  | stmt s => s.kinds
  | expr e => e.kinds

end Phrase

/-- What a phrase is written with: a token of its own, or a phrase directly inside of it. -/
inductive Item
  | token (kind : Token.Kind)
  | phrase (q : Phrase)

namespace Item

/-- A reserved word. -/
def keyword (word : Keyword) : Item := token (.keyword word)

/-- A sign. -/
def symbol (sign : Symbol) : Item := token (.symbol sign)

/-- A fixed name, which is no identifier of the program. -/
def word (name : String) : Item := token (.ident name)

/-- Items with commas between them. -/
def separated (items : List Item) : List Item :=
  items.intersperse (symbol .comma)

/-- The kinds of the tokens of an item. -/
def kinds : Item → List Token.Kind
  | token k => [k]
  | phrase q => q.kinds

/-- The phrase that an item is, if it is one. -/
def phrase? : Item → Option Phrase
  | token _ => none
  | phrase q => some q

/-- The phrases among items. -/
def phrases (items : List Item) : List Phrase :=
  items.filterMap phrase?

theorem mem_phrases_iff {items : List Item} {q : Phrase} :
    q ∈ phrases items ↔ phrase q ∈ items := by
  rw [phrases, List.mem_filterMap]
  constructor
  · rintro ⟨item, hitem, hq⟩
    cases item with
    | token k => cases hq
    | phrase r =>
      obtain rfl := Option.some.inj hq
      exact hitem
  · exact fun h => ⟨phrase q, h, rfl⟩

end Item

/-- The items of a written type. -/
def TypeExpr.items : TypeExpr → List Item
  | int _ => [.keyword .intKw]
  | boolean _ => [.keyword .booleanKw]
  | intArray _ => [.keyword .intKw, .symbol .lbracket, .symbol .rbracket]
  | named name => [.phrase (.ident name)]

/-- The items of an expression. -/
def Expr.items : Expr → List Item
  | .int _ value => [.token (.intLit (String.ofList (Nat.toDigits 10 value)))]
  | .bool _ value => [.keyword (if value then .trueKw else .falseKw)]
  | .ident name => [.phrase (.ident name)]
  | .this _ => [.keyword .thisKw]
  | .binary _ op left right =>
    [.phrase (.expr left), .symbol op.symbol, .phrase (.expr right)]
  | .not _ operand => [.symbol .bang, .phrase (.expr operand)]
  | .index _ array position =>
    [.phrase (.expr array), .symbol .lbracket, .phrase (.expr position), .symbol .rbracket]
  | .length _ array => [.phrase (.expr array), .symbol .dot, .word "length"]
  | .send _ receiver method args =>
    [.phrase (.expr receiver), .symbol .dot, .phrase (.ident method), .symbol .lparen] ++
      (Item.separated (args.map fun e => .phrase (.expr e)) ++ [.symbol .rparen])
  | .newArray _ size =>
    [.keyword .newKw, .keyword .intKw, .symbol .lbracket, .phrase (.expr size), .symbol .rbracket]
  | .newObject _ cls =>
    [.keyword .newKw, .phrase (.ident cls), .symbol .lparen, .symbol .rparen]
  | .paren _ inner => [.symbol .lparen, .phrase (.expr inner), .symbol .rparen]

/-- The items of a statement. -/
def Stmt.items : Stmt → List Item
  | .block _ body =>
    [.symbol .lbrace] ++ ((body.map fun s => .phrase (.stmt s)) ++ [.symbol .rbrace])
  | .assign _ target value =>
    [.phrase (.ident target), .symbol .assign, .phrase (.expr value), .symbol .semicolon]
  | .arrayAssign _ target position value =>
    [.phrase (.ident target), .symbol .lbracket, .phrase (.expr position), .symbol .rbracket,
      .symbol .assign, .phrase (.expr value), .symbol .semicolon]
  | .ifElse _ cond thenBranch elseBranch =>
    [.keyword .ifKw, .symbol .lparen, .phrase (.expr cond), .symbol .rparen,
      .phrase (.stmt thenBranch), .keyword .elseKw, .phrase (.stmt elseBranch)]
  | .whileLoop _ cond body =>
    [.keyword .whileKw, .symbol .lparen, .phrase (.expr cond), .symbol .rparen,
      .phrase (.stmt body)]
  | .print _ value =>
    [.word "System", .symbol .dot, .word "out", .symbol .dot, .word "println", .symbol .lparen,
      .phrase (.expr value), .symbol .rparen, .symbol .semicolon]

/-- The items of the declaration of a parameter. -/
def VarDecl.paramItems (d : VarDecl) : List Item :=
  [.phrase (.type d.type), .phrase (.ident d.name)]

/-- The items of the declaration of a field or a local variable. -/
def VarDecl.items (d : VarDecl) : List Item :=
  [.phrase (.type d.type), .phrase (.ident d.name), .symbol .semicolon]

/-- The items of a method declaration. -/
def MethodDecl.items (d : MethodDecl) : List Item :=
  [.keyword .publicKw, .phrase (.type d.returns), .phrase (.ident d.name), .symbol .lparen] ++
    (Item.separated (d.params.map fun v => .phrase (.param v)) ++
      ([.symbol .rparen, .symbol .lbrace] ++ ((d.vars.map fun v => .phrase (.var v)) ++
        ((d.body.map fun s => .phrase (.stmt s)) ++
          [.keyword .returnKw, .phrase (.expr d.result), .symbol .semicolon, .symbol .rbrace]))))

/-- The items of the clause that names the parent of a class. -/
def ClassDecl.parentItems : Option Ident → List Item
  | none => []
  | some parent => [.keyword .extendsKw, .phrase (.ident parent)]

/-- The items of a class declaration. -/
def ClassDecl.items (d : ClassDecl) : List Item :=
  [.keyword .classKw, .phrase (.ident d.name)] ++ (parentItems d.parent ++ ([.symbol .lbrace] ++
    ((d.fields.map fun v => .phrase (.var v)) ++ ((d.methods.map fun m => .phrase (.method m)) ++
      [.symbol .rbrace]))))

/-- The items of the main class. -/
def MainClass.items (d : MainClass) : List Item :=
  [.keyword .classKw, .phrase (.ident d.name), .symbol .lbrace, .keyword .publicKw,
    .keyword .staticKw, .keyword .voidKw, .word "main", .symbol .lparen, .word "String",
    .symbol .lbracket, .symbol .rbracket, .phrase (.ident d.args), .symbol .rparen,
    .symbol .lbrace] ++
    ((d.vars.map fun v => .phrase (.var v)) ++ ((d.body.map fun s => .phrase (.stmt s)) ++
      [.symbol .rbrace, .symbol .rbrace]))

/-- The items of a program, which are phrases only. -/
def Program.items (p : Program) : List Item :=
  .phrase (.main p.main) :: p.classes.map fun d => .phrase (.cls d)

/-- The items of a phrase. -/
def Phrase.items : Phrase → List Item
  | main d => d.items
  | cls d => d.items
  | method d => d.items
  | var d => d.items
  | param d => d.paramItems
  | type t => t.items
  | ident i => [.token i.kind]
  | stmt s => s.items
  | expr e => e.items

/-- The phrases directly inside a phrase, in the order of the text. -/
def Phrase.parts (q : Phrase) : List Phrase :=
  Item.phrases q.items

/-- The main class and the other classes, in the order of the text. -/
def Program.parts (p : Program) : List Phrase :=
  Item.phrases p.items

/-- The phrase is a part of the program, and the tokens of the program before it are `i` in
number. -/
inductive Program.PhraseAt (p : Program) : Nat → Phrase → Prop
  | top {before after : List Item} {q : Phrase} :
    p.items = before ++ .phrase q :: after → PhraseAt p (before.flatMap Item.kinds).length q
  | inside {i : Nat} {q r : Phrase} {before after : List Item} :
    PhraseAt p i q → q.items = before ++ .phrase r :: after →
    PhraseAt p (i + (before.flatMap Item.kinds).length) r

end MiniJava
