import MiniJava.SymbolTable.Edit

/-!
# What holds of tables, and what a declaration changes

* `SymbolTable.Distinct` says that names are distinct wherever they could be mixed up.
* `Edit.Appends` says what a declaration does to a table: one item comes last in one list, where its
  name is new, and all else stays as it is.
-/

namespace MiniJava

/-- No two parameters and no two local variables have the same name. -/
structure MethodEntry.Distinct (m : MethodEntry) : Prop where
  params : (m.params.map Variable.name).Nodup
  locals : (m.locals.map Variable.name).Nodup

/-- No two fields and no two methods have the same name, nor have two variables of one method. -/
structure ClassEntry.Distinct (c : ClassEntry) : Prop where
  fields : (c.fields.map Variable.name).Nodup
  methods : (c.methods.map MethodEntry.name).Nodup
  eachMethod : ∀ m ∈ c.methods, m.Distinct

/-- No two classes have the same name, nor have two members of one class. -/
structure SymbolTable.Distinct (t : SymbolTable) : Prop where
  classes : (t.classes.map ClassEntry.name).Nodup
  eachClass : ∀ c ∈ t.classes, c.Distinct

section

variable {α : Type} (name : α → String)

/-- The item comes last in a list where its name is new. -/
def AddedLast (item : α) (l l' : List α) : Prop :=
  name item ∉ l.map name ∧ l' = l ++ [item]

/-- One element of a list, called `x`, changes as `Change` says; the others stay as they are. -/
def OneChanged (x : String) (Change : α → α → Prop) (l l' : List α) : Prop :=
  ∃ before a a' after,
    l = before ++ a :: after ∧ name a = x ∧ Change a a' ∧ l' = before ++ a' :: after

end

/-- The method gets one more parameter. -/
def MethodEntry.GainsParam (var : Variable) (m m' : MethodEntry) : Prop :=
  ∃ params, AddedLast Variable.name var m.params params ∧ m' = { m with params }

/-- The method gets one more local variable. -/
def MethodEntry.GainsLocal (var : Variable) (m m' : MethodEntry) : Prop :=
  ∃ locals, AddedLast Variable.name var m.locals locals ∧ m' = { m with locals }

/-- The class gets one more field. -/
def ClassEntry.GainsField (var : Variable) (c c' : ClassEntry) : Prop :=
  ∃ fields, AddedLast Variable.name var c.fields fields ∧ c' = { c with fields }

/-- The class gets one more method. -/
def ClassEntry.GainsMethod (m : MethodEntry) (c c' : ClassEntry) : Prop :=
  ∃ methods, AddedLast MethodEntry.name m c.methods methods ∧ c' = { c with methods }

/-- One method of the class, called `x`, changes as `Change` says. -/
def ClassEntry.MethodChanged (x : String) (Change : MethodEntry → MethodEntry → Prop)
    (c c' : ClassEntry) : Prop :=
  ∃ methods, OneChanged MethodEntry.name x Change c.methods methods ∧ c' = { c with methods }

/-- One class of the table, called `x`, changes as `Change` says. -/
def SymbolTable.ClassChanged (x : String) (Change : ClassEntry → ClassEntry → Prop)
    (t t' : SymbolTable) : Prop :=
  OneChanged ClassEntry.name x Change t.classes t'.classes

/-- The declaration leads from the first table to the second. -/
def Edit.Appends : Edit → SymbolTable → SymbolTable → Prop
  | .addClass name parent => fun t t' =>
    AddedLast ClassEntry.name (.empty name parent) t.classes t'.classes
  | .addField cls var => SymbolTable.ClassChanged cls (ClassEntry.GainsField var)
  | .addMethod cls name returns =>
    SymbolTable.ClassChanged cls (ClassEntry.GainsMethod (.empty name returns))
  | .addParam cls method var =>
    SymbolTable.ClassChanged cls (ClassEntry.MethodChanged method (MethodEntry.GainsParam var))
  | .addLocal cls method var =>
    SymbolTable.ClassChanged cls (ClassEntry.MethodChanged method (MethodEntry.GainsLocal var))

end MiniJava
