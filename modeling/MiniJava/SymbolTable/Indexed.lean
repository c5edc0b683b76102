import MiniJava.SymbolTable.Edit
import Std.Data.ExtHashMap

/-!
# Tables that are changed in place

* `InPlace σ` is a change in place: it tells whether it was carried out, and what is there
  afterwards in either case.
* `IndexedTable` is a table together with the place of each class in it, by which classes are found.
* `IndexedTable.apply` carries out one declaration, `IndexedTable.run` one after the other; a
  declaration that fails does not end the run.
-/

namespace MiniJava

/-- A change in place: its outcome, and what is there afterwards. -/
abbrev InPlace (σ : Type) : Type :=
  σ → Except EditError Unit × σ

namespace InPlace

/-- Changes the element at a place of a list, and writes back whatever the change leaves there. -/
def atPlace {α : Type} (place : Option Nat) (missing : EditError) (f : InPlace α) :
    InPlace (List α) := fun l =>
  match place with
  | none => (.error missing, l)
  | some i =>
    match l[i]? with
    | none => (.error missing, l)
    | some a => ((f a).1, l.set i (f a).2)

end InPlace

namespace MethodEntry

/-- Adds a parameter. -/
def addParam (v : Variable) (span : Span) : InPlace MethodEntry := fun m =>
  if (m.param? v.name).isSome then
    (.error (.refused ⟨.duplicateParameter m.name v.name, span⟩), m)
  else
    (.ok (), { m with params := m.params ++ [v] })

/-- Adds a local variable, which may bear the name of a parameter. -/
def addLocal (v : Variable) (span : Span) : InPlace MethodEntry := fun m =>
  if (m.local? v.name).isSome then
    (.error (.refused ⟨.duplicateVariable v.name, span⟩), m)
  else
    (.ok (), { m with locals := m.locals ++ [v] })

end MethodEntry

namespace ClassEntry

/-- Adds a field. -/
def addField (v : Variable) (span : Span) : InPlace ClassEntry := fun c =>
  if (c.field? v.name).isSome then
    (.error (.refused ⟨.duplicateVariable v.name, span⟩), c)
  else
    (.ok (), { c with fields := c.fields ++ [v] })

/-- Adds a method without parameters and local variables. -/
def addMethod (name : String) (returns : Ty) (span : Span) : InPlace ClassEntry := fun c =>
  if (c.method? name).isSome then
    (.error (.refused ⟨.duplicateMethod ⟨c.name, name⟩, span⟩), c)
  else
    (.ok (), c.pushMethod (.empty name returns))

/-- Changes the method called `name`. -/
def onMethod (name : String) (f : InPlace MethodEntry) : InPlace ClassEntry := fun c =>
  let place := c.methods.findIdx? (·.name == name)
  let (outcome, methods) := InPlace.atPlace place .noMethod f c.methods
  (outcome, { c with methods })

end ClassEntry

/-- A table and the places of its classes. -/
structure IndexedTable extends SymbolTable where
  index : Std.ExtHashMap String Nat
deriving DecidableEq

namespace IndexedTable

/-- The table without classes. -/
def empty : IndexedTable := ⟨.empty, ∅⟩

/-- The place that is kept for `name`. -/
def place? (t : IndexedTable) (name : String) : Option Nat :=
  t.index[name]?

/-- The class at the place that is kept for `name`. -/
def get? (t : IndexedTable) (name : String) : Option ClassEntry :=
  (t.place? name).bind (t.classes[·]?)

/-- Whether a place is kept for `name`. -/
def contains (t : IndexedTable) (name : String) : Bool :=
  t.index.contains name

/-- Puts a class behind the others, and keeps its place. -/
def push (t : IndexedTable) (c : ClassEntry) : IndexedTable :=
  ⟨t.toSymbolTable.push c, t.index.insert c.name t.classes.length⟩

/-- Adds a class; its parent need not be declared. -/
def addClass (name : String) (parent : Option String) (span : Span) :
    InPlace IndexedTable := fun t =>
  if t.contains name then
    (.error (.refused ⟨.duplicateClass name, span⟩), t)
  else
    (.ok (), t.push (.empty name parent))

/-- Changes the class called `name`. -/
def onClass (name : String) (f : InPlace ClassEntry) : InPlace IndexedTable := fun t =>
  let (outcome, classes) := InPlace.atPlace (t.place? name) .noClass f t.classes
  (outcome, { t with classes })

/-- Carries out one declaration, which stands at `span`. -/
def apply (edit : Edit) (span : Span) : InPlace IndexedTable :=
  match edit with
  | .addClass name parent => addClass name parent span
  | .addField cls var => onClass cls (ClassEntry.addField var span)
  | .addMethod cls name returns => onClass cls (ClassEntry.addMethod name returns span)
  | .addParam cls method var =>
    onClass cls (ClassEntry.onMethod method (MethodEntry.addParam var span))
  | .addLocal cls method var =>
    onClass cls (ClassEntry.onMethod method (MethodEntry.addLocal var span))

/-- The table that declarations lead to, one after the other, from the one without classes. -/
def run (steps : List (Edit × Span)) : IndexedTable :=
  steps.foldl (fun t step => (apply step.1 step.2 t).2) empty

end IndexedTable

end MiniJava
