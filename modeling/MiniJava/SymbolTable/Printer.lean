import MiniJava.SymbolTable.Basic

/-!
# Tables as text

`SymbolTable.text` writes a table: one line for each class, field, method and local variable.
-/

namespace MiniJava

/-- The line of a local variable. -/
def Variable.localLine (v : Variable) : String :=
  s!"        local {v.name}: {v.type.text}\n"

/-- The line of a field. -/
def Variable.fieldLine (v : Variable) : String :=
  s!"    field {v.name}: {v.type.text}\n"

/-- A parameter within the line of its method. -/
def Variable.paramText (v : Variable) : String :=
  s!"{v.type.text} {v.name}"

/-- The lines of a method and its local variables. -/
def MethodEntry.text (m : MethodEntry) : String :=
  let params := ", ".intercalate (m.params.map Variable.paramText)
  s!"    method {m.returns.text} {m.name}({params})\n" ++
    String.join (m.locals.map Variable.localLine)

/-- The clause that names the parent of a class. -/
def parentClause : Option String → String
  | some parent => s!" extends {parent}"
  | none => ""

/-- The lines of a class and its members. -/
def ClassEntry.text (c : ClassEntry) : String :=
  s!"class {c.name}{parentClause c.parent}\n" ++
    String.join (c.fields.map Variable.fieldLine) ++ String.join (c.methods.map MethodEntry.text)

/-- The lines of a table. -/
def SymbolTable.text (t : SymbolTable) : String :=
  "Symbol table:\n" ++ String.join (t.classes.map ClassEntry.text)

end MiniJava
