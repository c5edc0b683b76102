import MiniJava.Analysis.Call
import MiniJava.Analysis.Declaration
import MiniJava.Analysis.Scope

/-!
# Checking types

* `Expr.check` finds the type of an expression in a scope, `Stmt.check` checks a statement.
* `Program.check` checks the bodies of a program against a table.
* `Program.analyze` collects the declarations, then checks the bodies.

The first error ends the check. All operands of an operator are looked at before their types are.
-/

namespace MiniJava

/-- Refuses an operand whose type is not the expected one. -/
def requireOperand (rule : OperandRule) (expected found : Ty) (span : Span) :
    Except SemanticError Unit :=
  if found = expected then .ok () else .error ⟨.operandTypeMismatch rule found, span⟩

namespace BinOp

/-- The rule on the operands of an operator. -/
def rule : BinOp → OperandRule
  | and => .andBoolean
  | less => .compareInt
  | add | sub | mul => .arithmeticInt

/-- The type of the operands of an operator. -/
def operand : BinOp → Ty
  | and => .boolean
  | less | add | sub | mul => .int

/-- The type of the result of an operator. -/
def result : BinOp → Ty
  | and | less => .boolean
  | add | sub | mul => .int

end BinOp

/-- The method of a class that is needed at `span`. -/
def ClassEntry.lookupMethod (c : ClassEntry) (name : String) (span : Span) :
    Except SemanticError MethodEntry :=
  match c.method? name with
  | some m => .ok m
  | none => .error ⟨.unresolvedIdentifier name, span⟩

/-- The class of the receiver of a message. -/
def SymbolTable.receiver (t : SymbolTable) (type : Ty) (span : Span) :
    Except SemanticError ClassEntry :=
  match type.className?.bind t.get? with
  | some c => .ok c
  | none => .error ⟨.unknownClass type, span⟩

/-- The type of `this`. -/
def Scope.this (s : Scope) (span : Span) : Except SemanticError Ty :=
  match s.cls with
  | some c => .ok c.type
  | none => .error ⟨.unresolvedIdentifier Keyword.thisKw.text, span⟩

mutual

/-- The type of an expression. -/
def Expr.check (t : SymbolTable) (s : Scope) : Expr → Analysis Ty
  | .int _ _ => return .int
  | .bool _ _ => return .boolean
  | .ident name => s.resolve t name.name name.span
  | .this span => s.this span
  | .binary _ op left right => do
    let leftType ← left.check t s
    let rightType ← right.check t s
    requireOperand op.rule op.operand leftType left.span
    requireOperand op.rule op.operand rightType right.span
    return op.result
  | .not _ operand => do
    let type ← operand.check t s
    requireOperand .notBoolean .boolean type operand.span
    return .boolean
  | .index _ array position => do
    let arrayType ← array.check t s
    let positionType ← position.check t s
    requireOperand .indexNotArray .intArray arrayType array.span
    requireOperand .indexNotInt .int positionType position.span
    return .int
  | .length _ array => do
    let type ← array.check t s
    requireOperand .lengthNotArray .intArray type array.span
    return .int
  | .newArray _ size => do
    let type ← size.check t s
    requireOperand .sizeNotInt .int type size.span
    return .intArray
  | .newObject _ cls => do
    let c ← t.lookup cls.name cls.span
    return c.type
  | .paren _ inner => inner.check t s
  | .send span receiver method args => do
    let type ← receiver.check t s
    let c ← t.receiver type receiver.span
    let m ← c.lookupMethod method.name method.span
    .note (.call ⟨c.name, m.name⟩ args.length)
    let call ← Expr.checkArgs t s c.name args.length (.start m) args
    call.finish span
    return m.returns

/-- Checks the arguments of a call one by one, each against the parameter that waits for it; `got`
is the number of all arguments. -/
def Expr.checkArgs (t : SymbolTable) (s : Scope) (cls : String) (got : Nat) (call : PendingCall) :
    List Expr → Analysis PendingCall
  | [] => return call
  | arg :: args => do
    let (expected, call) ← call.next got arg.span
    let found ← arg.check t s
    if found.assignableTo t expected then
      Expr.checkArgs t s cls got call args
    else
      Analysis.fail
        ⟨.argumentTypeMismatch ⟨cls, call.method.name⟩ call.position expected found, arg.span⟩

end

/-- Checks that an expression is boolean, as the condition of a statement has to be. -/
def Expr.checkCondition (t : SymbolTable) (s : Scope) (construct : Construct) (cond : Expr) :
    Analysis Unit := do
  let found ← cond.check t s
  if found = .boolean then
    return
  else
    Analysis.fail ⟨.conditionNotBoolean construct found, cond.span⟩

/-- Refuses a part of an assignment to an element whose type is not the expected one. -/
def requirePart (part : ArrayPart) (expected found : Ty) (span : Span) :
    Except SemanticError Unit :=
  if found = expected then .ok ()
  else .error ⟨.arrayAssignmentTypeMismatch part expected found, span⟩

mutual

/-- Checks a statement. -/
def Stmt.check (t : SymbolTable) (s : Scope) : Stmt → Analysis Unit
  | .block _ body => Stmt.checkAll t s body
  | .assign span target value => do
    let expected ← s.resolve t target.name target.span
    let found ← value.check t s
    if found.assignableTo t expected then
      return
    else
      Analysis.fail ⟨.assignmentTypeMismatch target.name expected found, span⟩
  | .arrayAssign _ target index value => do
    let targetType ← s.resolve t target.name target.span
    let indexType ← index.check t s
    let valueType ← value.check t s
    requirePart .target .intArray targetType target.span
    requirePart .index .int indexType index.span
    requirePart .value .int valueType value.span
  | .ifElse _ cond thenBranch elseBranch => do
    cond.checkCondition t s .ifElse
    thenBranch.check t s
    elseBranch.check t s
  | .whileLoop _ cond body => do
    cond.checkCondition t s .whileLoop
    body.check t s
  | .print _ value => discard (value.check t s)

/-- Checks statements one by one. -/
def Stmt.checkAll (t : SymbolTable) (s : Scope) : List Stmt → Analysis Unit
  | [] => return
  | first :: more => do
    first.check t s
    Stmt.checkAll t s more

end

/-- Checks the type of a field or a local variable: the name of a class is resolved like any other
name in the scope. -/
def VarDecl.check (t : SymbolTable) (s : Scope) (d : VarDecl) : Analysis Unit :=
  match d.type with
  | .named name => discard (s.resolve t name.name name.span)
  | _ => return

/-- Checks the bodies of the main class. -/
def MainClass.check (t : SymbolTable) (d : MainClass) : Analysis Unit := do
  let c ← t.lookup d.name.name d.name.span
  let m ← c.lookupMethod mainMethod d.span
  .note (.checkingMain ⟨c.name, mainMethod⟩)
  let scope := (Scope.root.enterClass c).enterMethod m
  d.vars.forM (VarDecl.check t scope)
  Stmt.checkAll t scope d.body

/-- Checks the body of a method of the class `c`. -/
def MethodDecl.check (t : SymbolTable) (c : ClassEntry) (d : MethodDecl) : Analysis Unit := do
  let m ← c.lookupMethod d.name.name d.name.span
  .note (.checkingMethod ⟨c.name, m.name⟩)
  let scope := (Scope.root.enterClass c).enterMethod m
  d.vars.forM (VarDecl.check t scope)
  Stmt.checkAll t scope d.body
  let found ← d.result.check t scope
  if found.assignableTo t m.returns then
    return
  else
    Analysis.fail ⟨.returnTypeMismatch ⟨c.name, m.name⟩ m.returns found, d.result.span⟩

/-- Checks the fields and the methods of a class. -/
def ClassDecl.check (t : SymbolTable) (d : ClassDecl) : Analysis Unit := do
  let c ← t.lookup d.name.name d.name.span
  .note (.checkingClass c.name)
  d.fields.forM (VarDecl.check t (Scope.root.enterClass c))
  d.methods.forM (MethodDecl.check t c)

/-- Checks a program against a table. -/
def Program.check (t : SymbolTable) (p : Program) : Analysis Unit := do
  .note (.typeCheckPass (p.classes.length + 1))
  p.main.check t
  p.classes.forM (ClassDecl.check t)
  .note .typeCheckPassDone

/-- Collects the declarations of a program and checks its bodies; the outcome is the table. -/
def Program.analyze (p : Program) : Analysis SymbolTable := do
  let t ← p.declare
  p.check t
  return t

end MiniJava
