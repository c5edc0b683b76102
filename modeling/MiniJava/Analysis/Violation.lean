import MiniJava.Analysis.Nodes
import MiniJava.Analysis.Rules

/-!
# Violations of the typing rules

`Node.Violates` says that a node breaks a rule, and which error tells so: what is found there by the
rules of typing, what is demanded there instead, and the part of the node that shows it. Each of the
rules is about one node; whether the nodes inside it keep the rules is another matter.
-/

namespace MiniJava

/-- The node uses the name without saying of what. -/
inductive Node.BareName : Node → Ident → Prop
  | ident {name : Ident} : BareName (.expr (.ident name)) name
  | target {span : Span} {name : Ident} {value : Expr} :
    BareName (.stmt (.assign span name value)) name
  | arrayTarget {span : Span} {name : Ident} {position value : Expr} :
    BareName (.stmt (.arrayAssign span name position value)) name
  | type {d : VarDecl} {name : Ident} : d.type = .named name → BareName (.var d) name

/-- A rule on operands applies to a part of the expression, and demands a type of it. -/
inductive Expr.Operand : Expr → Expr → OperandRule → Ty → Prop
  | not {span : Span} {operand : Expr} :
    Operand (.not span operand) operand .notBoolean .boolean
  | and {span : Span} {left right operand : Expr} :
    operand ∈ [left, right] →
    Operand (.binary span .and left right) operand .andBoolean .boolean
  | less {span : Span} {left right operand : Expr} :
    operand ∈ [left, right] →
    Operand (.binary span .less left right) operand .compareInt .int
  | arithmetic {span : Span} {op : BinOp} {left right operand : Expr} :
    op ∈ [.add, .sub, .mul] → operand ∈ [left, right] →
    Operand (.binary span op left right) operand .arithmeticInt .int
  | array {span : Span} {array position : Expr} :
    Operand (.index span array position) array .indexNotArray .intArray
  | position {span : Span} {array position : Expr} :
    Operand (.index span array position) position .indexNotInt .int
  | length {span : Span} {array : Expr} :
    Operand (.length span array) array .lengthNotArray .intArray
  | size {span : Span} {size : Expr} :
    Operand (.newArray span size) size .sizeNotInt .int

/-- The statement has the condition. -/
inductive Stmt.Condition : Stmt → Construct → Expr → Prop
  | ifElse {span : Span} {cond : Expr} {thenBranch elseBranch : Stmt} :
    Condition (.ifElse span cond thenBranch elseBranch) .ifElse cond
  | whileLoop {span : Span} {cond : Expr} {body : Stmt} :
    Condition (.whileLoop span cond body) .whileLoop cond

/-- A message to the receiver reaches the method `m` of the class `c`. -/
structure Reaches (t : SymbolTable) (s : Scope) (receiver : Expr) (method : Ident) (c : ClassEntry)
    (m : MethodEntry) : Prop where
  receiver : HasType t s receiver (.cls c.name)
  cls : t.get? c.name = some c
  method : c.method? method.name = some m

/-- The node breaks a rule in the scope, and the error tells so. -/
inductive Node.Violates (t : SymbolTable) (s : Scope) : Node → SemanticError → Prop
  | unresolved {n : Node} {name : Ident} :
    n.BareName name → (∀ type, ¬ Resolves t s name.name type) →
    Violates t s n ⟨.unresolvedIdentifier name.name, name.span⟩
  | noMethod {span : Span} {receiver : Expr} {method : Ident} {args : List Expr} {cls : String}
      {c : ClassEntry} :
    HasType t s receiver (.cls cls) → t.get? cls = some c → c.method? method.name = none →
    Violates t s (.expr (.send span receiver method args))
      ⟨.unresolvedIdentifier method.name, method.span⟩
  | noClass {span : Span} {name : Ident} :
    t.get? name.name = none →
    Violates t s (.expr (.newObject span name)) ⟨.unknownClass (.cls name.name), name.span⟩
  | noReceiver {span : Span} {receiver : Expr} {method : Ident} {args : List Expr} {type : Ty} :
    HasType t s receiver type → (∀ cls, type = .cls cls → t.get? cls = none) →
    Violates t s (.expr (.send span receiver method args)) ⟨.unknownClass type, receiver.span⟩
  | operand {e operand : Expr} {rule : OperandRule} {demanded found : Ty} :
    e.Operand operand rule demanded → HasType t s operand found → found ≠ demanded →
    Violates t s (.expr e) ⟨.operandTypeMismatch rule found, operand.span⟩
  | tooFewArguments {span : Span} {receiver : Expr} {method : Ident} {args : List Expr}
      {c : ClassEntry} {m : MethodEntry} :
    Reaches t s receiver method c m → args.length < m.params.length →
    Violates t s (.expr (.send span receiver method args))
      ⟨.argumentCountMismatch method.name m.params.length args.length, span⟩
  | tooManyArguments {span : Span} {receiver : Expr} {method : Ident} {args : List Expr}
      {c : ClassEntry} {m : MethodEntry} {first : Expr} :
    -- the error shows the first argument that is too many
    Reaches t s receiver method c m → args[m.params.length]? = some first →
    Violates t s (.expr (.send span receiver method args))
      ⟨.argumentCountMismatch method.name m.params.length args.length, first.span⟩
  | argument {span : Span} {receiver : Expr} {method : Ident} {args : List Expr}
      {c : ClassEntry} {m : MethodEntry} {i : Nat} {arg : Expr} {param : Variable} {found : Ty} :
    Reaches t s receiver method c m → args[i]? = some arg → m.params[i]? = some param →
    HasType t s arg found → ¬ Assignable t found param.type →
    Violates t s (.expr (.send span receiver method args))
      ⟨.argumentTypeMismatch ⟨c.name, method.name⟩ (i + 1) param.type found, arg.span⟩
  | condition {stmt : Stmt} {construct : Construct} {cond : Expr} {found : Ty} :
    stmt.Condition construct cond → HasType t s cond found → found ≠ .boolean →
    Violates t s (.stmt stmt) ⟨.conditionNotBoolean construct found, cond.span⟩
  | assignment {span : Span} {target : Ident} {value : Expr} {expected found : Ty} :
    Resolves t s target.name expected → HasType t s value found → ¬ Assignable t found expected →
    Violates t s (.stmt (.assign span target value))
      ⟨.assignmentTypeMismatch target.name expected found, span⟩
  | arrayTarget {span : Span} {target : Ident} {position value : Expr} {found : Ty} :
    Resolves t s target.name found → found ≠ .intArray →
    Violates t s (.stmt (.arrayAssign span target position value))
      ⟨.arrayAssignmentTypeMismatch .target .intArray found, target.span⟩
  | arrayIndex {span : Span} {target : Ident} {position value : Expr} {found : Ty} :
    HasType t s position found → found ≠ .int →
    Violates t s (.stmt (.arrayAssign span target position value))
      ⟨.arrayAssignmentTypeMismatch .index .int found, position.span⟩
  | arrayValue {span : Span} {target : Ident} {position value : Expr} {found : Ty} :
    HasType t s value found → found ≠ .int →
    Violates t s (.stmt (.arrayAssign span target position value))
      ⟨.arrayAssignmentTypeMismatch .value .int found, value.span⟩
  | result {d : MethodDecl} {c : ClassEntry} {found : Ty} :
    s.cls = some c → HasType t s d.result found → ¬ Assignable t found d.returns.denote →
    Violates t s (.method d)
      ⟨.returnTypeMismatch ⟨c.name, d.name.name⟩ d.returns.denote found, d.result.span⟩

/-- A node of the program breaks a rule, in the scope around it, and the error tells so. -/
def Program.Violation (t : SymbolTable) (p : Program) (error : SemanticError) : Prop :=
  ∃ s n, p.HasNode s n ∧ n.Violates t s error

end MiniJava
