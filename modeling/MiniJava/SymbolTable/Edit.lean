import MiniJava.SymbolTable.Basic

/-!
# Single declarations on a table

`Edit` is one declaration, with the names of the class and the method that it goes to.
`SymbolTable.apply` carries it out, and leaves all other entries as they are.
-/

namespace MiniJava

/-- One declaration. -/
inductive Edit
  | addClass (name : String) (parent : Option String)
  | addField (cls : String) (var : Variable)
  | addMethod (cls name : String) (returns : Ty)
  | addParam (cls method : String) (var : Variable)
  | addLocal (cls method : String) (var : Variable)
deriving DecidableEq

/-- Why a declaration is not carried out: it goes to nowhere, or it is refused. -/
inductive EditError
  | noClass
  | noMethod
  | refused (error : SemanticError)
deriving DecidableEq

/-- Puts `f a` in the place of the first element `a` that satisfies `p`; `none` if there is no such
element. -/
def updateFirst? {α ε : Type} (p : α → Bool) (f : α → Except ε α) :
    List α → Option (Except ε (List α))
  | [] => none
  | a :: as =>
    if p a then
      some ((f a).map (· :: as))
    else
      (updateFirst? p f as).map (·.map (a :: ·))

/-- Changes the method called `name`. -/
def ClassEntry.updateMethod (c : ClassEntry) (name : String)
    (f : MethodEntry → Except EditError MethodEntry) : Except EditError ClassEntry :=
  match updateFirst? (·.name == name) f c.methods with
  | some methods => methods.map fun ms => { c with methods := ms }
  | none => .error .noMethod

/-- Changes the class called `name`. -/
def SymbolTable.updateClass (t : SymbolTable) (name : String)
    (f : ClassEntry → Except EditError ClassEntry) : Except EditError SymbolTable :=
  match updateFirst? (·.name == name) f t.classes with
  | some classes => classes.map (⟨·⟩)
  | none => .error .noClass

/-- Carries out one declaration, which stands at `span`. -/
def SymbolTable.apply (t : SymbolTable) (edit : Edit) (span : Span) :
    Except EditError SymbolTable :=
  match edit with
  | .addClass name parent => (t.declareClass (.empty name parent) span).mapError .refused
  | .addField cls var =>
    t.updateClass cls fun c => (c.declareField var span).mapError .refused
  | .addMethod cls name returns =>
    t.updateClass cls fun c => (c.declareMethod (.empty name returns) span).mapError .refused
  | .addParam cls method var =>
    t.updateClass cls (·.updateMethod method fun m => (m.declareParam var span).mapError .refused)
  | .addLocal cls method var =>
    t.updateClass cls (·.updateMethod method fun m => (m.declareLocal var span).mapError .refused)

end MiniJava
