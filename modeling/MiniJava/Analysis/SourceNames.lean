import MiniJava.Analysis.Declaration

/-!
# What the source says about names

* `Program.Declares` reads off the tree of a program what its declarations say, one by one.
* `Program.Means` tells from these alone what a bare name stands for in a class, and in a method
  of it. It knows neither tables nor scopes.
-/

namespace MiniJava

/-- Something that a single declaration can say. Classes and methods go by their names. -/
inductive Declared
  | cls (name : String)
  | parent (cls parent : String)
  | field (cls name : String) (type : Ty)
  | method (method : MethodName)
  | param (method : MethodName) (name : String) (type : Ty)
  | localVar (method : MethodName) (name : String) (type : Ty)

namespace Program

/-- The name of the entry method, with the main class. -/
def mainName (p : Program) : MethodName :=
  ⟨p.main.name.name, mainMethod⟩

/-- A declaration of the program says this. Types are those that are written, and the argument
vector for the entry method. -/
inductive Declares (p : Program) : Declared → Prop
  | mainClass : Declares p (.cls p.main.name.name)
  | mainMethod : Declares p (.method p.mainName)
  | mainParam : Declares p (.param p.mainName p.main.args.name .stringArray)
  | mainLocal {d : VarDecl} :
    d ∈ p.main.vars → Declares p (.localVar p.mainName d.name.name d.type.denote)
  | cls {c : ClassDecl} : c ∈ p.classes → Declares p (.cls c.name.name)
  | parent {c : ClassDecl} {parent : Ident} :
    c ∈ p.classes → c.parent = some parent → Declares p (.parent c.name.name parent.name)
  | field {c : ClassDecl} {d : VarDecl} :
    c ∈ p.classes → d ∈ c.fields → Declares p (.field c.name.name d.name.name d.type.denote)
  | method {c : ClassDecl} {m : MethodDecl} :
    c ∈ p.classes → m ∈ c.methods → Declares p (.method ⟨c.name.name, m.name.name⟩)
  | param {c : ClassDecl} {m : MethodDecl} {d : VarDecl} :
    c ∈ p.classes → m ∈ c.methods → d ∈ m.params →
    Declares p (.param ⟨c.name.name, m.name.name⟩ d.name.name d.type.denote)
  | localVar {c : ClassDecl} {m : MethodDecl} {d : VarDecl} :
    c ∈ p.classes → m ∈ c.methods → d ∈ m.vars →
    Declares p (.localVar ⟨c.name.name, m.name.name⟩ d.name.name d.type.denote)

/-- The name is declared in the method: as a parameter, or else as a local variable. -/
inductive MeansVariable (p : Program) (m : MethodName) (x : String) : Ty → Prop
  | param {type : Ty} : p.Declares (.param m x type) → MeansVariable p m x type
  | localVar {type : Ty} :
    (∀ other, ¬ p.Declares (.param m x other)) → p.Declares (.localVar m x type) →
    MeansVariable p m x type

/-- The name is declared in the class itself: as a field, or else as a method, which stands for a
class type of its name. -/
inductive MeansMember (p : Program) (cls x : String) : Ty → Prop
  | field {type : Ty} : p.Declares (.field cls x type) → MeansMember p cls x type
  | method : (∀ other, ¬ p.Declares (.field cls x other)) → p.Declares (.method ⟨cls, x⟩) →
    MeansMember p cls x (.cls x)

/-- The name is declared in no method around. -/
def NoVariable (p : Program) (cls : String) (method : Option String) (x : String) : Prop :=
  ∀ m type, method = some m → ¬ p.MeansVariable ⟨cls, m⟩ x type

/-- What a bare name stands for in a class and, where there is one, in a method of it: a variable of
the method, else a class of the program, else a member of the class, else a member of the class that
it extends. No other members count. -/
inductive Means (p : Program) (cls : String) (method : Option String) (x : String) : Ty → Prop
  | inMethod {m : String} {type : Ty} :
    method = some m → p.MeansVariable ⟨cls, m⟩ x type → Means p cls method x type
  | cls : p.NoVariable cls method x → p.Declares (.cls x) → Means p cls method x (.cls x)
  | member {type : Ty} :
    p.NoVariable cls method x → ¬ p.Declares (.cls x) → p.MeansMember cls x type →
    Means p cls method x type
  | inherited {parent : String} {type : Ty} :
    p.NoVariable cls method x → ¬ p.Declares (.cls x) → (∀ other, ¬ p.MeansMember cls x other) →
    p.Declares (.parent cls parent) → p.MeansMember parent x type → Means p cls method x type

end Program

end MiniJava
