import MiniJava.Program.Basic
import MiniJava.Program.SyntaxError

/-!
# Walking along a list of tokens

* `Cursor` is a place in a list of tokens.
* `Cursor.Read` is a value read there, together with a place further on. It is the result of every
  reading step, so a reader that calls itself behind a step comes to an end.
* `Cursor.accept` is the one step that moves; `expect`, `word` and `ident` explain its failure.
-/

namespace MiniJava

/-- A place in a list of tokens: the span of the token before it, and the tokens after it. -/
structure Cursor where
  last : Span
  rest : List Token

namespace Cursor

/-- The beginning of a list of tokens. -/
def start (tokens : List Token) : Cursor :=
  ⟨default, tokens⟩

/-- The number of tokens to come. -/
def size (c : Cursor) : Nat :=
  c.rest.length

/-- The token to come; where none is left, that is an end mark. -/
def current (c : Cursor) : Token :=
  c.rest.headD ⟨.eof, c.last⟩

/-- The kind of the token to come. -/
def kind (c : Cursor) : Token.Kind :=
  c.current.kind

/-- The kind of the token after the one to come. -/
def ahead? (c : Cursor) : Option Token.Kind :=
  c.rest[1]?.map Token.kind

/-- A value that was read, and the place behind it, where fewer than `bound` tokens are left. -/
structure Read (α : Type) (bound : Nat) where
  value : α
  cursor : Cursor
  lt : cursor.size < bound

/-- Steps over the token to come if it is of kind `k`. -/
def accept (c : Cursor) (k : Token.Kind) : Option (Read Unit c.size) :=
  match h : c.rest with
  | [] => none
  | t :: rest =>
    if t.kind = k then some ⟨(), ⟨t.span, rest⟩, by rw [size, size, h]; exact Nat.lt_add_one _⟩
    else none

/-- The complaint that `expected` does not come; an invalid character is named as such. -/
def unexpected (c : Cursor) (expected : Expectation) : SyntaxError :=
  match c.kind with
  | .unknown char => ⟨.invalidCharacter char, c.current.span⟩
  | got => ⟨.unexpectedToken expected got, c.current.span⟩

/-- Steps over a token of kind `k`, which has to come. -/
def expect (c : Cursor) (k : Token.Kind) : Except SyntaxError (Read Unit c.size) :=
  match c.accept k with
  | some r => .ok r
  | none => .error (c.unexpected (.token k))

/-- Steps over the reserved word `k`, which has to come. -/
def keyword (c : Cursor) (k : Keyword) : Except SyntaxError (Read Unit c.size) :=
  c.expect (.keyword k)

/-- Steps over the symbol `s`, which has to come. -/
def symbol (c : Cursor) (s : Symbol) : Except SyntaxError (Read Unit c.size) :=
  c.expect (.symbol s)

/-- Steps over the identifier `name`, which has to come. -/
def word (c : Cursor) (name : String) : Except SyntaxError (Read Unit c.size) :=
  match c.accept (.ident name) with
  | some r => .ok r
  | none => .error (c.unexpected (.word name))

/-- Reads an identifier. -/
def ident (c : Cursor) : Except SyntaxError (Read Ident c.size) :=
  match c.kind with
  | .ident name => do
    let ⟨_, c₁, h₁⟩ ← c.expect (.ident name)
    return ⟨⟨name, c₁.last⟩, c₁, h₁⟩
  | got => .error ⟨.expectedIdent got, c.current.span⟩

end Cursor

end MiniJava
