import MiniJava.Program.Basic

/-!
# Types

The types of values, how they are written, and how many bytes a field of a type takes.
-/

namespace MiniJava

/-- The types. A class type is the name of the class, declared or not. -/
inductive Ty
  | int
  | boolean
  | intArray
  | stringArray
  | void
  | cls (name : String)
deriving DecidableEq

namespace Ty

/-- How messages and tables write a type. -/
def text : Ty → String
  | int => "int"
  | boolean => "boolean"
  | intArray => "int[]"
  | stringArray => "String[]"
  | void => "void"
  | cls name => name

/-- The name of the class that a type refers to. -/
def className? : Ty → Option String
  | cls name => some name
  | _ => none

/-- The bytes that a reference takes. -/
def referenceSize : Nat := 8

/-- The bytes that a field of a type takes. -/
def size : Ty → Nat
  | int => 4
  | boolean => 1
  | _ => referenceSize

end Ty

/-- The type that a written type denotes; the class it may name need not exist. -/
def TypeExpr.denote : TypeExpr → Ty
  | int _ => .int
  | boolean _ => .boolean
  | intArray _ => .intArray
  | named name => .cls name.name

end MiniJava
