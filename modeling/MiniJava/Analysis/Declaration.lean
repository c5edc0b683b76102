import MiniJava.Analysis.Basic
import MiniJava.SymbolTable.Basic

/-!
# Collecting declarations

`Program.declare` builds the table of a program, class by class, and stops at the first name that
is declared twice, the first parent that is not declared before its child, and the first parent
that has a parent itself.
-/

namespace MiniJava

/-- The name of the entry method. -/
def mainMethod : String := "main"

/-- The variable that a declaration declares. -/
def VarDecl.toVariable (d : VarDecl) : Variable :=
  ⟨d.name.name, d.type.denote⟩

/-- Adds parameters one by one. -/
def MethodEntry.declareParams (m : MethodEntry) (params : List VarDecl) :
    Except SemanticError MethodEntry :=
  params.foldlM (fun m d => m.declareParam d.toVariable d.name.span) m

/-- Adds local variables one by one. -/
def MethodEntry.declareLocals (m : MethodEntry) (vars : List VarDecl) :
    Except SemanticError MethodEntry :=
  vars.foldlM (fun m d => m.declareLocal d.toVariable d.name.span) m

/-- Adds fields one by one. -/
def ClassEntry.declareFields (c : ClassEntry) (fields : List VarDecl) :
    Except SemanticError ClassEntry :=
  fields.foldlM (fun c d => c.declareField d.toVariable d.name.span) c

/-- Adds a method with its parameters and local variables. Its name is looked at first. -/
def ClassEntry.declare (c : ClassEntry) (d : MethodDecl) : Analysis ClassEntry := do
  .note (.declaringMethod ⟨c.name, d.name.name⟩)
  c.freshMethod d.name.name d.name.span
  let m ← (MethodEntry.empty d.name.name d.returns.denote).declareParams d.params
  let m ← m.declareLocals d.vars
  return c.pushMethod m

/-- The entry of the main class: its one method has the argument vector as its parameter. -/
def MainClass.declare (d : MainClass) : Analysis ClassEntry := do
  .note (.declaringMain d.name.name)
  let m : MethodEntry := ⟨mainMethod, .void, [⟨d.args.name, .stringArray⟩], []⟩
  let m ← m.declareLocals d.vars
  return ⟨d.name.name, none, [], [m]⟩

/-- Refuses a parent that is not declared, or that has a parent itself. -/
def SymbolTable.checkParent (t : SymbolTable) (cls : String) :
    Option Ident → Except SemanticError Unit
  | none => .ok ()
  | some parent =>
    match t.get? parent.name with
    | none => .error ⟨.unknownParent cls parent.name, parent.span⟩
    | some entry =>
      match entry.parent with
      | none => .ok ()
      | some grandparent => .error ⟨.multipleInheritance cls parent.name grandparent, parent.span⟩

/-- Adds a class with its fields and methods. Its name is looked at first, then its parent. -/
def SymbolTable.declare (t : SymbolTable) (d : ClassDecl) : Analysis SymbolTable := do
  t.freshClass d.name.name d.name.span
  t.checkParent d.name.name d.parent
  let parent := d.parent.map Ident.name
  .note (.declaringClass d.name.name parent)
  let c ← (ClassEntry.empty d.name.name parent).declareFields d.fields
  let c ← d.methods.foldlM ClassEntry.declare c
  return t.push c

/-- The table of a program. -/
def Program.declare (p : Program) : Analysis SymbolTable := do
  .note (.declarationPass (p.classes.length + 1))
  let main ← p.main.declare
  let t ← p.classes.foldlM SymbolTable.declare ⟨[main]⟩
  .note .declarationPassDone
  return t

end MiniJava
