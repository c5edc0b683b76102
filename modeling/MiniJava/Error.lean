import MiniJava.Analysis.Typing
import MiniJava.Program.Parser

/-!
# From a text to its table

`analyzeText` reads a program, collects its declarations and checks its bodies. `Error` is what can
go wrong on the way.
-/

namespace MiniJava

/-- What can be wrong with a text: its form or its meaning. -/
inductive Error
  | form (error : SyntaxError)
  | meaning (error : SemanticError)
deriving DecidableEq

namespace Error

/-- The number under which an error is listed; all faults of form share one. -/
def code : Error → String
  | form _ => "E0001"
  | meaning e => e.fault.code

/-- The wording of an error. -/
def message : Error → String
  | form e => e.fault.message
  | meaning e => e.fault.message

/-- The place of an error. -/
def span : Error → Span
  | form e => e.span
  | meaning e => e.span

/-- The sort of an error, as it is announced. -/
def title : Error → String
  | form _ => "Parse error"
  | meaning _ => "Semantic error"

end Error

/-- The table of the program that a text holds, if the program passes both passes. -/
def analyzeText (text : String) (file : Nat) : Except Error SymbolTable := do
  let p ← (Program.parse text file).mapError .form
  p.analyze.result.mapError .meaning

end MiniJava
