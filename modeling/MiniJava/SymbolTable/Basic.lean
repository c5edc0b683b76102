import MiniJava.SemanticError

/-!
# Symbol tables

* `MethodEntry`, `ClassEntry` and `SymbolTable` hold what a program declares, in the order of the
  declarations.
* `param?`, `local?`, `field?`, `method?` and `get?` look a name up.
* `declareParam`, `declareLocal`, `declareField`, `declareMethod` and `declareClass` add a name at
  the end, or refuse one that is already there.
* `Ty.assignableTo` is the rule for passing values on, over the classes of a table.
-/

namespace MiniJava

/-- A variable and its type. -/
structure Variable where
  name : String
  type : Ty
deriving DecidableEq

/-- The type of the first variable called `name`. -/
def typeOf? (vars : List Variable) (name : String) : Option Ty :=
  (vars.find? (·.name == name)).map Variable.type

@[simp] theorem typeOf?_nil (name : String) : typeOf? [] name = none := rfl

/-- A declared method. -/
structure MethodEntry where
  name : String
  returns : Ty
  params : List Variable
  locals : List Variable
deriving DecidableEq

namespace MethodEntry

/-- A method without parameters and local variables. -/
def empty (name : String) (returns : Ty) : MethodEntry :=
  ⟨name, returns, [], []⟩

/-- The type of a parameter. -/
def param? (m : MethodEntry) (name : String) : Option Ty :=
  typeOf? m.params name

/-- The type of a local variable. -/
def local? (m : MethodEntry) (name : String) : Option Ty :=
  typeOf? m.locals name

/-- Adds a parameter. -/
def declareParam (m : MethodEntry) (v : Variable) (span : Span) :
    Except SemanticError MethodEntry :=
  if (m.param? v.name).isSome then
    .error ⟨.duplicateParameter m.name v.name, span⟩
  else
    .ok { m with params := m.params ++ [v] }

/-- Adds a local variable, which may bear the name of a parameter. -/
def declareLocal (m : MethodEntry) (v : Variable) (span : Span) :
    Except SemanticError MethodEntry :=
  if (m.local? v.name).isSome then
    .error ⟨.duplicateVariable v.name, span⟩
  else
    .ok { m with locals := m.locals ++ [v] }

end MethodEntry

/-- A declared class. -/
structure ClassEntry where
  name : String
  parent : Option String
  fields : List Variable
  methods : List MethodEntry
deriving DecidableEq

namespace ClassEntry

/-- A class without fields and methods. -/
def empty (name : String) (parent : Option String) : ClassEntry :=
  ⟨name, parent, [], []⟩

/-- The type of the objects of a class. -/
def type (c : ClassEntry) : Ty :=
  .cls c.name

/-- The type of a field. -/
def field? (c : ClassEntry) (name : String) : Option Ty :=
  typeOf? c.fields name

/-- A method of the class itself. -/
def method? (c : ClassEntry) (name : String) : Option MethodEntry :=
  c.methods.find? (·.name == name)

/-- The type that a member's name stands for: that of a field, else a class type named like the
method. -/
def member? (c : ClassEntry) (name : String) : Option Ty :=
  c.field? name <|> (c.method? name).map (.cls ·.name)

/-- Adds a field. -/
def declareField (c : ClassEntry) (v : Variable) (span : Span) : Except SemanticError ClassEntry :=
  if (c.field? v.name).isSome then
    .error ⟨.duplicateVariable v.name, span⟩
  else
    .ok { c with fields := c.fields ++ [v] }

/-- Refuses the name of a method that the class already has. -/
def freshMethod (c : ClassEntry) (name : String) (span : Span) : Except SemanticError Unit :=
  if (c.method? name).isSome then
    .error ⟨.duplicateMethod ⟨c.name, name⟩, span⟩
  else
    .ok ()

/-- Puts a method behind the others. -/
def pushMethod (c : ClassEntry) (m : MethodEntry) : ClassEntry :=
  { c with methods := c.methods ++ [m] }

/-- Adds a method. -/
def declareMethod (c : ClassEntry) (m : MethodEntry) (span : Span) :
    Except SemanticError ClassEntry := do
  c.freshMethod m.name span
  return c.pushMethod m

end ClassEntry

/-- The declared classes. -/
structure SymbolTable where
  classes : List ClassEntry
deriving DecidableEq

namespace SymbolTable

/-- The table without classes. -/
def empty : SymbolTable := ⟨[]⟩

/-- The class called `name`. -/
def get? (t : SymbolTable) (name : String) : Option ClassEntry :=
  t.classes.find? (·.name == name)

/-- Whether a class called `name` is declared. -/
def contains (t : SymbolTable) (name : String) : Bool :=
  (t.get? name).isSome

/-- The class called `name`, which is needed at `span`. -/
def lookup (t : SymbolTable) (name : String) (span : Span) : Except SemanticError ClassEntry :=
  match t.get? name with
  | some c => .ok c
  | none => .error ⟨.unknownClass (.cls name), span⟩

/-- The parent of a class, if it has one that is declared. -/
def parentOf? (t : SymbolTable) (c : ClassEntry) : Option ClassEntry :=
  c.parent.bind t.get?

/-- Refuses the name of a class that is already declared. -/
def freshClass (t : SymbolTable) (name : String) (span : Span) : Except SemanticError Unit :=
  if t.contains name then
    .error ⟨.duplicateClass name, span⟩
  else
    .ok ()

/-- Puts a class behind the others. -/
def push (t : SymbolTable) (c : ClassEntry) : SymbolTable :=
  ⟨t.classes ++ [c]⟩

/-- Adds a class; its parent need not be declared. -/
def declareClass (t : SymbolTable) (c : ClassEntry) (span : Span) :
    Except SemanticError SymbolTable := do
  t.freshClass c.name span
  return t.push c

end SymbolTable

/-- Whether a value of type `source` may go where a `target` is expected: the types are equal, or
the one class names the other as its parent. -/
def Ty.assignableTo (table : SymbolTable) (source target : Ty) : Bool :=
  source == target ||
    match source, target with
    | .cls s, .cls t => (table.get? s).any (·.parent == some t)
    | _, _ => false

@[simp] theorem Ty.assignableTo_self (table : SymbolTable) (t : Ty) :
    t.assignableTo table t = true := by
  simp [assignableTo]

end MiniJava
