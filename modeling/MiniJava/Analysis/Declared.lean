import MiniJava.Analysis.Declaration

/-!
# What a program declares

* `Program.table` is the table that is read off the declarations of a program, one entry for each
  of them, in their order.
* `Program.Declarable` are the rules for declarations: names are distinct where they could be mixed
  up, and a parent is declared before its child and has no parent itself.
-/

namespace MiniJava

/-- The entry that a method declaration stands for. -/
def MethodDecl.entry (d : MethodDecl) : MethodEntry :=
  ⟨d.name.name, d.returns.denote, d.params.map VarDecl.toVariable, d.vars.map VarDecl.toVariable⟩

/-- The entry that a class declaration stands for. -/
def ClassDecl.entry (d : ClassDecl) : ClassEntry :=
  ⟨d.name.name, d.parent.map Ident.name, d.fields.map VarDecl.toVariable,
    d.methods.map MethodDecl.entry⟩

/-- The entry that a main class stands for. -/
def MainClass.entry (d : MainClass) : ClassEntry :=
  ⟨d.name.name, none, [],
    [⟨mainMethod, .void, [⟨d.args.name, .stringArray⟩], d.vars.map VarDecl.toVariable⟩]⟩

/-- The table that is read off the declarations of a program. -/
def Program.table (p : Program) : SymbolTable :=
  ⟨p.main.entry :: p.classes.map ClassDecl.entry⟩

/-- No two of the declared variables have the same name. -/
def VarDecl.Distinct (ds : List VarDecl) : Prop :=
  (ds.map (·.name.name)).Nodup

/-- The rules for the declarations in a method. A local variable may bear the name of a
parameter. -/
structure MethodDecl.Declarable (d : MethodDecl) : Prop where
  params : VarDecl.Distinct d.params
  locals : VarDecl.Distinct d.vars

/-- The rules for the declarations in a class. -/
structure ClassDecl.Declarable (d : ClassDecl) : Prop where
  fields : VarDecl.Distinct d.fields
  methods : (d.methods.map (·.name.name)).Nodup
  eachMethod : ∀ m ∈ d.methods, m.Declarable

/-- The rules for the declarations in a program. -/
structure Program.Declarable (p : Program) : Prop where
  mainLocals : VarDecl.Distinct p.main.vars
  classes : (p.main.name.name :: p.classes.map (·.name.name)).Nodup
  eachClass : ∀ d ∈ p.classes, d.Declarable
  parents : ∀ before d after, p.classes = before ++ d :: after →
    ∀ parent, d.parent = some parent →
      parent.name = p.main.name.name ∨
        ∃ e ∈ before, e.name.name = parent.name ∧ e.parent = none

end MiniJava
