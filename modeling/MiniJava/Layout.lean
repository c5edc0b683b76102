import MiniJava.SymbolTable.Basic

/-!
# Object layouts

Where the fields of an object and the methods of its class lie. A class starts behind what its
parent itself declares, and places its own members one after the other in the order of the
declarations.
-/

namespace MiniJava

/-- A member and the byte at which it starts. -/
structure Slot where
  name : String
  offset : Nat
deriving DecidableEq

/-- The offset of the first slot called `name`. -/
def offsetOf? (slots : List Slot) (name : String) : Option Nat :=
  (slots.find? (·.name == name)).map Slot.offset

/-- Places members, given by name and size, one after the other from `offset` on. -/
def place (offset : Nat) : List (String × Nat) → List Slot
  | [] => []
  | (name, size) :: rest => ⟨name, offset⟩ :: place (offset + size) rest

/-- The bytes that members take, given by name and size. -/
def totalSize : List (String × Nat) → Nat
  | [] => 0
  | (_, size) :: rest => size + totalSize rest

namespace ClassEntry

/-- The names and sizes of the fields. -/
def fieldSizes (c : ClassEntry) : List (String × Nat) :=
  c.fields.map fun v => (v.name, v.type.size)

/-- The names and sizes of the methods, each of which takes one reference. -/
def methodSizes (c : ClassEntry) : List (String × Nat) :=
  c.methods.map fun m => (m.name, Ty.referenceSize)

/-- The bytes that the fields of the class itself take. -/
def fieldsSize (c : ClassEntry) : Nat :=
  totalSize c.fieldSizes

/-- The bytes that the methods of the class itself take. -/
def methodsSize (c : ClassEntry) : Nat :=
  totalSize c.methodSizes

end ClassEntry

/-- The places of the members that a class itself declares. -/
structure ClassLayout where
  cls : String
  fields : List Slot
  methods : List Slot
deriving DecidableEq

namespace ClassLayout

/-- The layout of a class of a table. -/
def ofClass (t : SymbolTable) (c : ClassEntry) : ClassLayout :=
  let parent := t.parentOf? c
  ⟨c.name,
    place (parent.elim 0 ClassEntry.fieldsSize) c.fieldSizes,
    place (parent.elim 0 ClassEntry.methodsSize) c.methodSizes⟩

/-- The offset of a field. -/
def fieldOffset? (l : ClassLayout) (name : String) : Option Nat :=
  offsetOf? l.fields name

/-- The offset of a method. -/
def methodOffset? (l : ClassLayout) (name : String) : Option Nat :=
  offsetOf? l.methods name

/-- A layout as text: a line for each field and each method. -/
def text (l : ClassLayout) : String :=
  let line (s : Slot) := s!"{l.cls}.{s.name}:{s.offset}\n"
  s!"-----------Class {l.cls}-----------\n" ++
    "--Variables---\n" ++ String.join (l.fields.map line) ++
    "---Methods---\n" ++ String.join (l.methods.map line)

end ClassLayout

namespace SymbolTable

/-- The layout of the class called `name`. -/
def layout? (t : SymbolTable) (name : String) : Option ClassLayout :=
  (t.get? name).map (.ofClass t)

/-- The layouts of all classes. -/
def layouts (t : SymbolTable) : List ClassLayout :=
  t.classes.map (.ofClass t)

end SymbolTable

end MiniJava
