import MiniJava.Analysis.Nodes
import MiniJava.Analysis.Typing
import MiniJava.SymbolTable.Indexed

/-!
# Coming back to an entry by its name

* `Program.declareInPlace` collects declarations in one table that is changed in place. A class is
  in the table before its members are. Each field, each method and each local variable goes to the
  class, and the method, that the table has under the name at this point.
* `Program.checkAsWritten` checks a program without looking its own classes and methods up. The
  entries are those that the declarations stand for.
* `declarationCodes` and `checkCodes` are the codes of the faults of either pass.
-/

namespace MiniJava

/-! ### Declarations in place -/

/-- Changes the method called `name`, which is needed at `span`. -/
def ClassEntry.changeMethod (c : ClassEntry) (name : String) (span : Span)
    (f : MethodEntry → Except SemanticError MethodEntry) : Except SemanticError ClassEntry :=
  match updateFirst? (·.name == name) f c.methods with
  | some methods => methods.map fun ms => { c with methods := ms }
  | none => .error ⟨.unresolvedIdentifier name, span⟩

/-- Adds a method; `fill` is done to it before it is left. -/
def ClassEntry.openMethod (c : ClassEntry) (name : String) (returns : Ty) (span : Span)
    (fill : MethodEntry → Except SemanticError MethodEntry) : Except SemanticError ClassEntry := do
  c.freshMethod name span
  let m ← fill (.empty name returns)
  return c.pushMethod m

/-- What a variable belongs to. -/
inductive Owner
  | cls (name : String)
  | method (name : MethodName)

namespace IndexedTable

/-- Changes the class at the place that is kept for `name`, which is needed at `span`. -/
def changeClass (t : IndexedTable) (name : String) (span : Span)
    (f : ClassEntry → Except SemanticError ClassEntry) : Except SemanticError IndexedTable :=
  match t.place? name with
  | none => .error ⟨.unknownClass (.cls name), span⟩
  | some i =>
    match t.classes[i]? with
    | none => .error ⟨.unknownClass (.cls name), span⟩
    | some c => (f c).map fun c' => { t with classes := t.classes.set i c' }

/-- Refuses the name of a class that a place is kept for. -/
def freshClass (t : IndexedTable) (name : String) (span : Span) : Except SemanticError Unit :=
  if t.contains name then .error ⟨.duplicateClass name, span⟩ else .ok ()

/-- Adds a class. -/
def openClass (t : IndexedTable) (c : ClassEntry) (span : Span) :
    Except SemanticError IndexedTable := do
  t.freshClass c.name span
  return t.push c

/-- Refuses a parent that no place is kept for, or that has a parent itself. -/
def checkParent (t : IndexedTable) (cls : String) (parent : Option Ident) :
    Except SemanticError Unit :=
  parent.elim (.ok ()) fun i =>
    (t.get? i.name).elim (.error ⟨.unknownParent cls i.name, i.span⟩) fun entry =>
      entry.parent.elim (.ok ()) fun grandparent =>
        .error ⟨.multipleInheritance cls i.name grandparent, i.span⟩

/-- Adds a variable to the class or the method that is found under its name. -/
def declareVar (owner : Owner) (t : IndexedTable) (d : VarDecl) :
    Except SemanticError IndexedTable :=
  match owner with
  | .cls name => t.changeClass name d.name.span (·.declareField d.toVariable d.name.span)
  | .method m =>
    t.changeClass m.cls d.name.span
      (·.changeMethod m.method d.name.span (·.declareLocal d.toVariable d.name.span))

/-- Adds variables one by one. -/
def declareVars (t : IndexedTable) (owner : Owner) (ds : List VarDecl) :
    Except SemanticError IndexedTable :=
  ds.foldlM (declareVar owner) t

/-- Adds a method to the class that is found under its name. The parameters go to the method that
was just added, the local variables to the one that is found under its name. -/
def declareMethod (cls : String) (t : IndexedTable) (d : MethodDecl) : Analysis IndexedTable := do
  .note (.declaringMethod ⟨cls, d.name.name⟩)
  let t ← t.changeClass cls d.span
    (·.openMethod d.name.name d.returns.denote d.name.span (·.declareParams d.params))
  t.declareVars (.method ⟨cls, d.name.name⟩) d.vars

/-- Adds the main class. -/
def declareMain (t : IndexedTable) (d : MainClass) : Analysis IndexedTable := do
  .note (.declaringMain d.name.name)
  t.freshClass d.name.name d.name.span
  let c ← (ClassEntry.empty d.name.name none).openMethod mainMethod .void d.span
    (·.declareParam ⟨d.args.name, .stringArray⟩ d.args.span)
  (t.push c).declareVars (.method ⟨d.name.name, mainMethod⟩) d.vars

/-- Adds a class, then its fields and methods. -/
def declareClass (t : IndexedTable) (d : ClassDecl) : Analysis IndexedTable := do
  t.freshClass d.name.name d.name.span
  t.checkParent d.name.name d.parent
  let parent := d.parent.map Ident.name
  .note (.declaringClass d.name.name parent)
  let t ← t.openClass (.empty d.name.name parent) d.name.span
  let t ← t.declareVars (.cls d.name.name) d.fields
  d.methods.foldlM (declareMethod d.name.name) t

end IndexedTable

/-- The table of a program, collected in place. -/
def Program.declareInPlace (p : Program) : Analysis IndexedTable := do
  .note (.declarationPass (p.classes.length + 1))
  let t ← IndexedTable.empty.declareMain p.main
  let t ← p.classes.foldlM IndexedTable.declareClass t
  .note .declarationPassDone
  return t

/-! ### Checks without a way back -/

/-- Checks the bodies of the main class in the scope of its own entries. -/
def MainClass.checkAsWritten (t : SymbolTable) (d : MainClass) : Analysis Unit := do
  .note (.checkingMain ⟨d.name.name, mainMethod⟩)
  d.vars.forM (VarDecl.check t d.scope)
  Stmt.checkAll t d.scope d.body

/-- Checks the body of a method of the class `c` in the scope of the entries of both. -/
def MethodDecl.checkAsWritten (t : SymbolTable) (c : ClassDecl) (d : MethodDecl) :
    Analysis Unit := do
  .note (.checkingMethod ⟨c.name.name, d.name.name⟩)
  d.vars.forM (VarDecl.check t (d.scope c))
  Stmt.checkAll t (d.scope c) d.body
  let found ← d.result.check t (d.scope c)
  if found.assignableTo t d.returns.denote then
    return
  else
    Analysis.fail
      ⟨.returnTypeMismatch ⟨c.name.name, d.name.name⟩ d.returns.denote found, d.result.span⟩

/-- Checks the fields and the methods of a class in the scope of its own entry. -/
def ClassDecl.checkAsWritten (t : SymbolTable) (d : ClassDecl) : Analysis Unit := do
  .note (.checkingClass d.name.name)
  d.fields.forM (VarDecl.check t d.scope)
  d.methods.forM (MethodDecl.checkAsWritten t d)

/-- Checks a program against a table, where its classes and methods are as they are written. -/
def Program.checkAsWritten (t : SymbolTable) (p : Program) : Analysis Unit := do
  .note (.typeCheckPass (p.classes.length + 1))
  p.main.checkAsWritten t
  p.classes.forM (ClassDecl.checkAsWritten t)
  .note .typeCheckPassDone

/-! ### Codes -/

/-- The codes of the faults of declarations. -/
def declarationCodes : List String :=
  ["E0100", "E0101", "E0102", "E0103", "E0104", "E0105"]

/-- The codes of the faults that a check of types finds. -/
def checkCodes : List String :=
  ["E0200", "E0201", "E0202", "E0203", "E0204", "E0205", "E0206", "E0207", "E0208"]

end MiniJava
