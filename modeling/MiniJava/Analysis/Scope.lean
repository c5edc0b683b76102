import MiniJava.Analysis.Basic
import MiniJava.SymbolTable.Basic

/-!
# Scopes

A scope is the class and the method around a piece of program. `Scope.resolve` finds what a bare
name stands for in it.
-/

namespace MiniJava

/-- The class and the method around a piece of program, as far as there are any. -/
structure Scope where
  cls : Option ClassEntry
  method : Option MethodEntry
deriving DecidableEq

namespace Scope

/-- The scope outside of all classes. -/
def root : Scope := ⟨none, none⟩

/-- The scope of a class, outside of its methods. -/
def enterClass (_ : Scope) (c : ClassEntry) : Scope :=
  ⟨some c, none⟩

/-- The scope of a method; the class stays as it is. -/
def enterMethod (s : Scope) (m : MethodEntry) : Scope :=
  { s with method := some m }

/-- What a name stands for as a parameter or, failing that, as a local variable of the method. -/
def local? (s : Scope) (c : ClassEntry) (name : String) : Option (Ty × Option Event) := do
  let m ← s.method
  let type ← m.param? name <|> m.local? name
  return (type, some (.resolvedVariable name ⟨c.name, m.name⟩))

/-- What a name stands for as a class. -/
def class? (t : SymbolTable) (name : String) : Option (Ty × Option Event) :=
  if t.contains name then some (.cls name, none) else none

/-- What a name stands for as a member of the class. -/
def member? (c : ClassEntry) (name : String) : Option (Ty × Option Event) :=
  (c.member? name).map (·, some (.resolvedMember name c.name))

/-- What a name stands for as a member of the parent of the class. -/
def inherited? (t : SymbolTable) (c : ClassEntry) (name : String) : Option (Ty × Option Event) := do
  let parent ← t.parentOf? c
  let type ← parent.member? name
  return (type, some (.resolvedInherited name parent.name))

/-- The type that a bare name stands for, with the event to log: the first that there is of a
variable of the method, a class, a member of the class, and a member of its parent. Outside of all
classes every name is taken for a class. -/
def find? (s : Scope) (t : SymbolTable) (name : String) : Option (Ty × Option Event) :=
  match s.cls with
  | none => some (.cls name, none)
  | some c => s.local? c name <|> class? t name <|> member? c name <|> inherited? t c name

/-- The type that a bare name stands for, which is needed at `span`. -/
def resolve (s : Scope) (t : SymbolTable) (name : String) (span : Span) : Analysis Ty :=
  match s.find? t name with
  | some (type, event) => ⟨event.toList, .ok type⟩
  | none => .fail ⟨.unresolvedIdentifier name, span⟩

end Scope

end MiniJava
