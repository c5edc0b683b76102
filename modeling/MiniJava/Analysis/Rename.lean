import MiniJava.Analysis.Call
import MiniJava.Analysis.Scope
import MiniJava.Layout

/-!
# Other names and spans in tables and outcomes

The counterpart of `Program.map` for what an analysis deals with.

* `rename f` replaces each name `x` by `f x`: in types, tables, layouts, scopes, events and faults.
* `SemanticError.map` and `Analysis.relabel` change names and spans in an error and in the whole
  outcome of a step.
* `SameUpToSpan` compares two results without the spans of their errors, and `SameUpToNames` two
  results whose names correspond.
-/

namespace MiniJava

variable (f : String → String) (g : Span → Span)

/-- A type with another name for its class. -/
def Ty.rename : Ty → Ty
  | .cls name => .cls (f name)
  | type => type

/-- A variable with other names. -/
def Variable.rename (v : Variable) : Variable :=
  ⟨f v.name, v.type.rename f⟩

/-- The entry of a method with other names. -/
def MethodEntry.rename (m : MethodEntry) : MethodEntry :=
  ⟨f m.name, m.returns.rename f, m.params.map (Variable.rename f),
    m.locals.map (Variable.rename f)⟩

/-- The entry of a class with other names. -/
def ClassEntry.rename (c : ClassEntry) : ClassEntry :=
  ⟨f c.name, c.parent.map f, c.fields.map (Variable.rename f), c.methods.map (MethodEntry.rename f)⟩

/-- A table with other names. -/
def SymbolTable.rename (t : SymbolTable) : SymbolTable :=
  ⟨t.classes.map (ClassEntry.rename f)⟩

/-- A member with another name at the same byte. -/
def Slot.rename (s : Slot) : Slot :=
  ⟨f s.name, s.offset⟩

/-- A layout with other names and the same offsets. -/
def ClassLayout.rename (l : ClassLayout) : ClassLayout :=
  ⟨f l.cls, l.fields.map (Slot.rename f), l.methods.map (Slot.rename f)⟩

/-- A scope with other names. -/
def Scope.rename (s : Scope) : Scope :=
  ⟨s.cls.map (ClassEntry.rename f), s.method.map (MethodEntry.rename f)⟩

/-- A call in progress with other names. -/
def PendingCall.rename (call : PendingCall) : PendingCall :=
  ⟨call.method.rename f, call.position⟩

/-- A method of a class with other names. -/
def MethodName.rename (m : MethodName) : MethodName :=
  ⟨f m.cls, f m.method⟩

/-- An event with other names. -/
def Event.rename : Event → Event
  | .declaringMain cls => .declaringMain (f cls)
  | .declaringClass cls parent => .declaringClass (f cls) (parent.map f)
  | .declaringMethod method => .declaringMethod (method.rename f)
  | .checkingMain method => .checkingMain (method.rename f)
  | .checkingClass cls => .checkingClass (f cls)
  | .checkingMethod method => .checkingMethod (method.rename f)
  | .resolvedVariable name method => .resolvedVariable (f name) (method.rename f)
  | .resolvedMember name cls => .resolvedMember (f name) (f cls)
  | .resolvedInherited name parent => .resolvedInherited (f name) (f parent)
  | .call method args => .call (method.rename f) args
  | event => event

/-- A fault with other names. -/
def SemanticFault.rename : SemanticFault → SemanticFault
  | .duplicateClass name => .duplicateClass (f name)
  | .unknownParent cls parent => .unknownParent (f cls) (f parent)
  | .multipleInheritance cls parent grandparent =>
    .multipleInheritance (f cls) (f parent) (f grandparent)
  | .duplicateVariable name => .duplicateVariable (f name)
  | .duplicateMethod method => .duplicateMethod (method.rename f)
  | .duplicateParameter method name => .duplicateParameter (f method) (f name)
  | .unresolvedIdentifier name => .unresolvedIdentifier (f name)
  | .unknownClass type => .unknownClass (type.rename f)
  | .conditionNotBoolean construct found => .conditionNotBoolean construct (found.rename f)
  | .assignmentTypeMismatch name expected found =>
    .assignmentTypeMismatch (f name) (expected.rename f) (found.rename f)
  | .arrayAssignmentTypeMismatch part expected found =>
    .arrayAssignmentTypeMismatch part (expected.rename f) (found.rename f)
  | .argumentCountMismatch method expected got => .argumentCountMismatch (f method) expected got
  | .argumentTypeMismatch method position expected found =>
    .argumentTypeMismatch (method.rename f) position (expected.rename f) (found.rename f)
  | .returnTypeMismatch method expected found =>
    .returnTypeMismatch (method.rename f) (expected.rename f) (found.rename f)
  | .operandTypeMismatch rule found => .operandTypeMismatch rule (found.rename f)

/-- An error with other names and another span. -/
def SemanticError.map (e : SemanticError) : SemanticError :=
  ⟨e.fault.rename f, g e.span⟩

/-- A result with other names and spans in its error, or its value changed by `h`. -/
def relabel {α β : Type} (h : α → β) : Except SemanticError α → Except SemanticError β
  | .ok a => .ok (h a)
  | .error e => .error (e.map f g)

/-- The outcome of a step with other names and spans, and its value changed by `h`. -/
def Analysis.relabel {α β : Type} (h : α → β) (p : Analysis α) : Analysis β :=
  ⟨p.log.map (Event.rename f), MiniJava.relabel f g h p.result⟩

/-- The same value, or errors that differ in their span only. -/
inductive SameUpToSpan {α : Type} : Except SemanticError α → Except SemanticError α → Prop
  | ok (a : α) : SameUpToSpan (.ok a) (.ok a)
  | error (fault : SemanticFault) (a b : Span) :
    SameUpToSpan (.error ⟨fault, a⟩) (.error ⟨fault, b⟩)

/-- Two values of which the second is the first one changed by `h`, or two faults of the same sort
at the same place of which the second has the names of the first one changed by `f`. -/
inductive SameUpToNames (f : String → String) {α β : Type} (h : α → β) :
    Except SemanticError α → Except SemanticError β → Prop
  | ok (a : α) : SameUpToNames f h (.ok a) (.ok (h a))
  | error (fault : SemanticFault) (span : Span) (sort : (fault.rename f).code = fault.code) :
    SameUpToNames f h (.error ⟨fault, span⟩) (.error ⟨fault.rename f, span⟩)

end MiniJava
