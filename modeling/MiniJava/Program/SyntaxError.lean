import MiniJava.Token.Basic

/-!
# What can be wrong with the form of a program

`SyntaxError` is a fault at a place; `SyntaxFault.message` words it.
-/

namespace MiniJava

/-- What could have continued a program. -/
inductive Expectation
  | token (kind : Token.Kind)
  | word (name : String)
  | statement
deriving DecidableEq

/-- How messages name what could have come. -/
def Expectation.describe : Expectation → String
  | token kind => kind.describe
  | word name => Token.quote name
  | statement => "statement"

/-- The ways in which a text fails to be a program. -/
inductive SyntaxFault
  | unexpectedToken (expected : Expectation) (got : Token.Kind)
  | expectedIdent (got : Token.Kind)
  | expectedType (got : Token.Kind)
  | expectedExpr (got : Token.Kind)
  | invalidCharacter (char : Char)
  | integerOutOfRange (digits : String)
deriving DecidableEq

/-- The wording of a fault. -/
def SyntaxFault.message : SyntaxFault → String
  | unexpectedToken expected got =>
    "Unexpected token: expected " ++ expected.describe ++ ", got " ++ got.describe
  | expectedIdent got => "Expected identifier, got " ++ got.describe
  | expectedType got => "Expected type, got " ++ got.describe
  | expectedExpr got => "Expected expression, got " ++ got.describe
  | invalidCharacter char => "Invalid character '" ++ char.toString ++ "'"
  | integerOutOfRange digits => "Integer literal " ++ digits ++ " does not fit in int"

/-- A fault of form, and the token at which it shows. -/
structure SyntaxError where
  fault : SyntaxFault
  span : Span
deriving DecidableEq

end MiniJava
