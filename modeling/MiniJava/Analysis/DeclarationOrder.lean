import MiniJava.Analysis.Declaration

/-!
# The declarations of a program in a row

* `Program.declarations` lists what a program declares, in one order for all of it.
* `Binding.fault?` is the rule for a declaration behind others.
* `Program.cut` leaves the first declarations of a program and drops the rest.
-/

namespace MiniJava

/-- What a declaration says, without the types: a name and where it belongs to. The parent clause of
a class is a declaration of its own. -/
inductive Binding
  | cls (name : String)
  | parent (cls parent : String)
  | field (cls name : String)
  | method (method : MethodName)
  | param (method : MethodName) (name : String)
  | localVar (method : MethodName) (name : String)
deriving DecidableEq

namespace Binding

/-- The class that a declaration stands in. -/
def home : Binding → String
  | cls name => name
  | parent child _ => child
  | field owner _ => owner
  | method m | param m _ | localVar m _ => m.cls

/-- The method that a declaration makes or stands in. -/
def method? : Binding → Option MethodName
  | cls _ | parent .. | field .. => none
  | method m | param m _ | localVar m _ => some m

/-- The parent that a declaration gives to the class `name`. -/
def parentOf? (name : String) : Binding → Option String
  | parent child above => if child = name then some above else none
  | _ => none

/-- The fault of a declaration that is made a second time. -/
def repeated? (before : List Binding) (b : Binding) (fault : SemanticFault) :
    Option SemanticFault :=
  if b ∈ before then some fault else none

/-- The fault of a declaration behind others, if it breaks its rule. No name is declared twice in
one place, where a local variable and a parameter are in different places. A parent is another class
that is declared already, and has no parent itself. -/
def fault? (before : List Binding) : Binding → Option SemanticFault
  | cls name => repeated? before (.cls name) (.duplicateClass name)
  | parent child name =>
    -- the name of the child itself stands before its parent clause
    if name = child ∨ .cls name ∉ before then
      some (.unknownParent child name)
    else
      (before.findSome? (parentOf? name)).map (.multipleInheritance child name)
  | field owner name => repeated? before (.field owner name) (.duplicateVariable name)
  | method m => repeated? before (.method m) (.duplicateMethod m)
  | param m name => repeated? before (.param m name) (.duplicateParameter m.method name)
  | localVar m name => repeated? before (.localVar m name) (.duplicateVariable name)

end Binding

/-- A declaration, with the span of the name that it may be refused for. -/
structure Declaration where
  binding : Binding
  span : Span
deriving DecidableEq

/-- The declaration of a variable in the place that `bind` tells. -/
def VarDecl.declaration (bind : String → Binding) (d : VarDecl) : Declaration :=
  ⟨bind d.name.name, d.name.span⟩

/-- The name of a method, its parameters and its local variables. -/
def MethodDecl.declarations (cls : String) (d : MethodDecl) : List Declaration :=
  ⟨.method ⟨cls, d.name.name⟩, d.name.span⟩ ::
    (d.params.map (VarDecl.declaration (.param ⟨cls, d.name.name⟩)) ++
      d.vars.map (VarDecl.declaration (.localVar ⟨cls, d.name.name⟩)))

/-- The parent clause of a class, if there is one. -/
def ClassDecl.parentDeclarations (cls : String) (parent : Option Ident) : List Declaration :=
  parent.toList.map fun i => ⟨.parent cls i.name, i.span⟩

/-- The name of a class, its parent clause, its fields, and its methods with what they declare. -/
def ClassDecl.declarations (d : ClassDecl) : List Declaration :=
  ⟨.cls d.name.name, d.name.span⟩ ::
    (parentDeclarations d.name.name d.parent ++
      (d.fields.map (VarDecl.declaration (.field d.name.name)) ++
        d.methods.flatMap (MethodDecl.declarations d.name.name)))

/-- The name of the main class and the local variables of its method. -/
def MainClass.declarations (d : MainClass) : List Declaration :=
  ⟨.cls d.name.name, d.name.span⟩ ::
    d.vars.map (VarDecl.declaration (.localVar ⟨d.name.name, mainMethod⟩))

/-- All declarations of a program, class by class. -/
def Program.declarations (p : Program) : List Declaration :=
  p.main.declarations ++ p.classes.flatMap ClassDecl.declarations

/-! ### Programs with the first declarations only -/

/-- The first of some parts, so that there are `n` declarations in them. The last part that is left
may be cut itself. -/
def cutParts {α : Type} (declarations : α → List Declaration) (cut : α → Nat → α) :
    List α → Nat → List α
  | [], _ => []
  | a :: l, n =>
    if n = 0 then [] else cut a n :: cutParts declarations cut l (n - (declarations a).length)

/-- The method with its first `n` declarations, of which its name is one. -/
def MethodDecl.cut (d : MethodDecl) (n : Nat) : MethodDecl :=
  { d with params := d.params.take (n - 1), vars := d.vars.take (n - 1 - d.params.length) }

/-- The class with its first `n` declarations, of which its name is one. -/
def ClassDecl.cut (d : ClassDecl) (n : Nat) : ClassDecl :=
  let k := n - 1 - d.parent.toList.length
  { d with
    parent := if n ≤ 1 then none else d.parent
    fields := d.fields.take k
    methods := cutParts (MethodDecl.declarations d.name.name) MethodDecl.cut d.methods
      (k - d.fields.length) }

/-- The main class with its first `n` declarations, of which its name is one. -/
def MainClass.cut (d : MainClass) (n : Nat) : MainClass :=
  { d with vars := d.vars.take (n - 1) }

/-- The program with its first `n` declarations, of which the main class is one. -/
def Program.cut (p : Program) (n : Nat) : Program :=
  ⟨p.main.cut n,
    cutParts ClassDecl.declarations ClassDecl.cut p.classes (n - p.main.declarations.length)⟩

end MiniJava
