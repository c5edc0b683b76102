import MiniJava.Analysis.Typing

/-!
# The typing rules

What it means that a program is well typed, as rules over a table and a scope. The rules do not say
in which order things are looked at, and they know no errors.

* `Assignable` tells which values may go where.
* `Resolves` tells what a bare name stands for.
* `HasType` and `Fits` are the rules of expressions and of argument lists, `Stmt.WellTyped` those
  of statements.
* `Program.WellTyped` demands that each class and each method is found in the table by its name.
-/

namespace MiniJava

/-- A value of the first type may go where the second is expected: the types are the same, or the
second is the class that the first names as its parent. -/
inductive Assignable (t : SymbolTable) : Ty → Ty → Prop
  | same {type : Ty} : Assignable t type type
  | parent {cls parent : String} {c : ClassEntry} :
    t.get? cls = some c → c.parent = some parent → Assignable t (.cls cls) (.cls parent)

/-- The name `x` is a member of the class `c` and stands for the type: a field for its own type,
and a method for a class type of its name where no field has that name. -/
inductive MemberType (c : ClassEntry) (x : String) : Ty → Prop
  | field {type : Ty} : c.field? x = some type → MemberType c x type
  | method {m : MethodEntry} : c.field? x = none → c.method? x = some m → MemberType c x (.cls x)

/-- The name `x` is a variable of the method: a parameter, or a local variable where no parameter
has that name. -/
inductive VariableType (m : MethodEntry) (x : String) : Ty → Prop
  | param {type : Ty} : m.param? x = some type → VariableType m x type
  | local {type : Ty} : m.param? x = none → m.local? x = some type → VariableType m x type

/-- The name `x` is no variable of the scope. -/
def Scope.NoVariable (s : Scope) (x : String) : Prop :=
  ∀ m type, s.method = some m → ¬ VariableType m x type

/-- The bare name `x` stands for the type. Each rule applies where no earlier one does. -/
inductive Resolves (t : SymbolTable) (s : Scope) (x : String) : Ty → Prop
  | outside : s.cls = none → Resolves t s x (.cls x)
  | inMethod {c : ClassEntry} {m : MethodEntry} {type : Ty} :
    s.cls = some c → s.method = some m → VariableType m x type → Resolves t s x type
  | cls {c entry : ClassEntry} :
    s.cls = some c → s.NoVariable x → t.get? x = some entry → Resolves t s x (.cls x)
  | member {c : ClassEntry} {type : Ty} :
    s.cls = some c → s.NoVariable x → t.get? x = none → MemberType c x type → Resolves t s x type
  | inherited {c parent : ClassEntry} {type : Ty} :
    s.cls = some c → s.NoVariable x → t.get? x = none → (∀ type', ¬ MemberType c x type') →
    t.parentOf? c = some parent → MemberType parent x type → Resolves t s x type

mutual

/-- The expression has the type. -/
inductive HasType (t : SymbolTable) (s : Scope) : Expr → Ty → Prop
  | int {span : Span} {value : Nat} : HasType t s (.int span value) .int
  | bool {span : Span} {value : Bool} : HasType t s (.bool span value) .boolean
  | ident {name : Ident} {type : Ty} :
    Resolves t s name.name type → HasType t s (.ident name) type
  | this {span : Span} {c : ClassEntry} : s.cls = some c → HasType t s (.this span) (.cls c.name)
  | and {span : Span} {left right : Expr} :
    HasType t s left .boolean → HasType t s right .boolean →
    HasType t s (.binary span .and left right) .boolean
  | less {span : Span} {left right : Expr} :
    HasType t s left .int → HasType t s right .int →
    HasType t s (.binary span .less left right) .boolean
  | arithmetic {span : Span} {op : BinOp} {left right : Expr} :
    op = .add ∨ op = .sub ∨ op = .mul → HasType t s left .int → HasType t s right .int →
    HasType t s (.binary span op left right) .int
  | not {span : Span} {operand : Expr} :
    HasType t s operand .boolean → HasType t s (.not span operand) .boolean
  | index {span : Span} {array position : Expr} :
    HasType t s array .intArray → HasType t s position .int →
    HasType t s (.index span array position) .int
  | length {span : Span} {array : Expr} :
    HasType t s array .intArray → HasType t s (.length span array) .int
  | newArray {span : Span} {size : Expr} :
    HasType t s size .int → HasType t s (.newArray span size) .intArray
  | newObject {span : Span} {name : Ident} {c : ClassEntry} :
    t.get? name.name = some c → HasType t s (.newObject span name) (.cls name.name)
  | paren {span : Span} {inner : Expr} {type : Ty} :
    HasType t s inner type → HasType t s (.paren span inner) type
  | send {span : Span} {receiver : Expr} {method : Ident} {args : List Expr} {cls : String}
      {c : ClassEntry} {m : MethodEntry} :
    HasType t s receiver (.cls cls) → t.get? cls = some c → c.method? method.name = some m →
    Fits t s args m.params → HasType t s (.send span receiver method args) m.returns

/-- The arguments are as many as the parameters, and each may be passed for its parameter. -/
inductive Fits (t : SymbolTable) (s : Scope) : List Expr → List Variable → Prop
  | nil : Fits t s [] []
  | cons {arg : Expr} {args : List Expr} {type : Ty} {param : Variable} {params : List Variable} :
    HasType t s arg type → Assignable t type param.type → Fits t s args params →
    Fits t s (arg :: args) (param :: params)

end

mutual

/-- The statement is well typed. -/
inductive Stmt.WellTyped (t : SymbolTable) (s : Scope) : Stmt → Prop
  | block {span : Span} {body : List Stmt} :
    Stmt.AllWellTyped t s body → Stmt.WellTyped t s (.block span body)
  | assign {span : Span} {target : Ident} {value : Expr} {expected found : Ty} :
    Resolves t s target.name expected → HasType t s value found → Assignable t found expected →
    Stmt.WellTyped t s (.assign span target value)
  | arrayAssign {span : Span} {target : Ident} {position value : Expr} :
    Resolves t s target.name .intArray → HasType t s position .int → HasType t s value .int →
    Stmt.WellTyped t s (.arrayAssign span target position value)
  | ifElse {span : Span} {cond : Expr} {thenBranch elseBranch : Stmt} :
    HasType t s cond .boolean → Stmt.WellTyped t s thenBranch → Stmt.WellTyped t s elseBranch →
    Stmt.WellTyped t s (.ifElse span cond thenBranch elseBranch)
  | whileLoop {span : Span} {cond : Expr} {body : Stmt} :
    HasType t s cond .boolean → Stmt.WellTyped t s body →
    Stmt.WellTyped t s (.whileLoop span cond body)
  | print {span : Span} {value : Expr} {type : Ty} :
    HasType t s value type → Stmt.WellTyped t s (.print span value)

/-- Each of the statements is well typed. -/
inductive Stmt.AllWellTyped (t : SymbolTable) (s : Scope) : List Stmt → Prop
  | nil : Stmt.AllWellTyped t s []
  | cons {first : Stmt} {more : List Stmt} :
    Stmt.WellTyped t s first → Stmt.AllWellTyped t s more →
    Stmt.AllWellTyped t s (first :: more)

end

/-- The written type of a field or a local variable is one of the language, or a name that stands
for something. -/
inductive VarDecl.WellTyped (t : SymbolTable) (s : Scope) (d : VarDecl) : Prop
  | builtin : (∀ name, d.type ≠ .named name) → VarDecl.WellTyped t s d
  | named {name : Ident} {type : Ty} :
    d.type = .named name → Resolves t s name.name type → VarDecl.WellTyped t s d

/-- The method of the class `c` is well typed. -/
inductive MethodDecl.WellTyped (t : SymbolTable) (c : ClassEntry) (d : MethodDecl) : Prop
  | intro {m : MethodEntry} {found : Ty} :
    c.method? d.name.name = some m →
    (∀ v ∈ d.vars, VarDecl.WellTyped t ⟨some c, some m⟩ v) →
    Stmt.AllWellTyped t ⟨some c, some m⟩ d.body →
    HasType t ⟨some c, some m⟩ d.result found → Assignable t found m.returns →
    MethodDecl.WellTyped t c d

/-- The class is well typed. -/
inductive ClassDecl.WellTyped (t : SymbolTable) (d : ClassDecl) : Prop
  | intro {c : ClassEntry} :
    t.get? d.name.name = some c →
    (∀ v ∈ d.fields, VarDecl.WellTyped t ⟨some c, none⟩ v) →
    (∀ m ∈ d.methods, MethodDecl.WellTyped t c m) →
    ClassDecl.WellTyped t d

/-- The main class is well typed. -/
inductive MainClass.WellTyped (t : SymbolTable) (d : MainClass) : Prop
  | intro {c : ClassEntry} {m : MethodEntry} :
    t.get? d.name.name = some c → c.method? mainMethod = some m →
    (∀ v ∈ d.vars, VarDecl.WellTyped t ⟨some c, some m⟩ v) →
    Stmt.AllWellTyped t ⟨some c, some m⟩ d.body →
    MainClass.WellTyped t d

/-- The program is well typed. -/
structure Program.WellTyped (t : SymbolTable) (p : Program) : Prop where
  main : p.main.WellTyped t
  classes : ∀ c ∈ p.classes, c.WellTyped t

end MiniJava
