import MiniJava.Ty

/-!
# What can be wrong with the meaning of a program

`SemanticError` is a fault at a place; `SemanticFault.message` words it and `SemanticFault.code`
numbers it.
-/

namespace MiniJava

/-- The rules on the types of operands. -/
inductive OperandRule
  | notBoolean | andBoolean | compareInt | arithmeticInt
  | indexNotArray | indexNotInt | lengthNotArray | sizeNotInt
deriving DecidableEq

/-- The wording of a broken rule on operands. -/
def OperandRule.text : OperandRule → String
  | notBoolean => "operand of \"!\" should be boolean"
  | andBoolean => "operands of \"&&\" should be boolean"
  | compareInt => "operands of \"<\" should be int"
  | arithmeticInt => "arithmetic operands should be int"
  | indexNotArray => "indexed expression is not an array"
  | indexNotInt => "array index should be int"
  | lengthNotArray => "\"length\" applies only to arrays"
  | sizeNotInt => "array size should be int"

/-- The parts of an assignment to an element of an array. -/
inductive ArrayPart
  | target | index | value
deriving DecidableEq

/-- The name of a part in messages. -/
def ArrayPart.text : ArrayPart → String
  | target => "target"
  | index => "index"
  | value => "value"

/-- The statements with a condition. -/
inductive Construct
  | ifElse | whileLoop
deriving DecidableEq

/-- The name of a statement in messages. -/
def Construct.text : Construct → String
  | ifElse => "if"
  | whileLoop => "while"

/-- A method with the class that declares it. -/
structure MethodName where
  cls : String
  method : String
deriving DecidableEq

/-- How messages write a method together with its class. -/
def MethodName.text (m : MethodName) : String :=
  m.cls ++ "." ++ m.method

/-- The ways in which a well-formed program fails to make sense. -/
inductive SemanticFault
  | duplicateClass (name : String)
  | unknownParent (cls parent : String)
  | multipleInheritance (cls parent grandparent : String)
  | duplicateVariable (name : String)
  | duplicateMethod (method : MethodName)
  | duplicateParameter (method name : String)
  | unresolvedIdentifier (name : String)
  /-- A type that is no declared class, where one is needed. -/
  | unknownClass (type : Ty)
  | conditionNotBoolean (construct : Construct) (found : Ty)
  | assignmentTypeMismatch (name : String) (expected found : Ty)
  | arrayAssignmentTypeMismatch (part : ArrayPart) (expected found : Ty)
  | argumentCountMismatch (method : String) (expected got : Nat)
  | argumentTypeMismatch (method : MethodName) (position : Nat) (expected found : Ty)
  | returnTypeMismatch (method : MethodName) (expected found : Ty)
  | operandTypeMismatch (rule : OperandRule) (found : Ty)
deriving DecidableEq

namespace SemanticFault

/-- The number under which a fault is listed. -/
def code : SemanticFault → String
  | duplicateClass .. => "E0100"
  | unknownParent .. => "E0101"
  | multipleInheritance .. => "E0102"
  | duplicateVariable .. => "E0103"
  | duplicateMethod .. => "E0104"
  | duplicateParameter .. => "E0105"
  | unresolvedIdentifier .. => "E0200"
  | unknownClass .. => "E0201"
  | conditionNotBoolean .. => "E0202"
  | assignmentTypeMismatch .. => "E0203"
  | arrayAssignmentTypeMismatch .. => "E0204"
  | argumentCountMismatch .. => "E0205"
  | argumentTypeMismatch .. => "E0206"
  | returnTypeMismatch .. => "E0207"
  | operandTypeMismatch .. => "E0208"

/-- The wording of a fault. -/
def message : SemanticFault → String
  | duplicateClass name => s!"Duplicate class name: {name}"
  | unknownParent cls parent => s!"Parent class {parent} of {cls} doesn't exist"
  | multipleInheritance _ parent grandparent =>
    s!"Single inheritance only: {parent} already extends {grandparent}"
  | duplicateVariable name => s!"Duplicate variable name: {name}"
  | duplicateMethod method => s!"Duplicate method name: {method.text}"
  | duplicateParameter method name => s!"Duplicate parameter name: {name} in {method}"
  | unresolvedIdentifier name => s!"Identifier {name} not found"
  | unknownClass type => s!"Unknown class: {type.text}"
  | conditionNotBoolean construct found =>
    s!"Condition of {construct.text} must be boolean, got {found.text}"
  | assignmentTypeMismatch name expected found =>
    s!"Type mismatch in assignment to {name}: {expected.text} != {found.text}"
  | arrayAssignmentTypeMismatch part expected found =>
    s!"Type mismatch in array assignment {part.text}: expected {expected.text}, got {found.text}"
  | argumentCountMismatch method expected got =>
    s!"Wrong number of arguments to {method}: expected {expected}, got {got}"
  | argumentTypeMismatch method position expected found =>
    s!"Type mismatch in argument {position} of {method.text}: {expected.text} != {found.text}"
  | returnTypeMismatch method expected found =>
    s!"Type mismatch in return type of {method.text}: {expected.text} != {found.text}"
  | operandTypeMismatch rule found => s!"{rule.text}, got {found.text}"

end SemanticFault

/-- A fault of meaning, and the part of the program that shows it. -/
structure SemanticError where
  fault : SemanticFault
  span : Span
deriving DecidableEq

end MiniJava
