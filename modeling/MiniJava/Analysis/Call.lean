import MiniJava.SymbolTable.Basic

/-!
# Calls in progress

A call meets its arguments one after the other. `PendingCall.next` gives the type of the parameter
for the next argument, and `PendingCall.finish` asks whether every parameter has met one.
-/

namespace MiniJava

/-- A call of a method of which `position` arguments have been met. -/
structure PendingCall where
  method : MethodEntry
  position : Nat
deriving DecidableEq

namespace PendingCall

/-- A call that has met no argument yet. -/
def start (m : MethodEntry) : PendingCall :=
  ⟨m, 0⟩

/-- The complaint that `got` is not the number of parameters. -/
def countMismatch (call : PendingCall) (got : Nat) (span : Span) : SemanticError :=
  ⟨.argumentCountMismatch call.method.name call.method.params.length got, span⟩

/-- The type of the next parameter, for one of `got` arguments. -/
def next (call : PendingCall) (got : Nat) (span : Span) : Except SemanticError (Ty × PendingCall) :=
  match call.method.params[call.position]? with
  | some param => .ok (param.type, { call with position := call.position + 1 })
  | none => .error (call.countMismatch got span)

/-- Refuses to end the call while a parameter waits for its argument. -/
def finish (call : PendingCall) (span : Span) : Except SemanticError Unit :=
  if call.position < call.method.params.length then
    .error (call.countMismatch call.position span)
  else
    .ok ()

end PendingCall

end MiniJava
