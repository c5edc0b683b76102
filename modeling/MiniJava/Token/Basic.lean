import MiniJava.Span

/-!
# Tokens

* `Keyword` and `Symbol` are the words and signs with one fixed spelling, their `text`.
* `Token.Kind` is what a token is, `Token` a kind at a place.
* `Token.Kind.spelling` is how a kind of token is written.
* `Token.Kind.describe` is how an error message names a kind.
-/

namespace MiniJava

/-- The reserved words. -/
inductive Keyword
  | classKw | extendsKw | publicKw | staticKw | voidKw | returnKw | intKw | booleanKw
  | ifKw | elseKw | whileKw | trueKw | falseKw | thisKw | newKw
deriving DecidableEq

namespace Keyword

/-- The spelling of a reserved word. -/
def text : Keyword → String
  | classKw => "class"
  | extendsKw => "extends"
  | publicKw => "public"
  | staticKw => "static"
  | voidKw => "void"
  | returnKw => "return"
  | intKw => "int"
  | booleanKw => "boolean"
  | ifKw => "if"
  | elseKw => "else"
  | whileKw => "while"
  | trueKw => "true"
  | falseKw => "false"
  | thisKw => "this"
  | newKw => "new"

/-- Every reserved word once. -/
def all : List Keyword :=
  [classKw, extendsKw, publicKw, staticKw, voidKw, returnKw, intKw, booleanKw,
    ifKw, elseKw, whileKw, trueKw, falseKw, thisKw, newKw]

/-- The reserved word with the spelling `s`. -/
def ofText? (s : String) : Option Keyword :=
  all.find? (·.text == s)

@[simp] theorem ofText?_text (k : Keyword) : ofText? k.text = some k := by
  cases k <;> decide

theorem text_eq_of_ofText? {s : String} {k : Keyword} (h : ofText? s = some k) : k.text = s := by
  simpa using List.find?_some h

end Keyword

/-- The operators, brackets and separators. -/
inductive Symbol
  | andAnd | less | plus | minus | star | bang | assign | dot | comma | semicolon
  | lparen | rparen | lbrace | rbrace | lbracket | rbracket
deriving DecidableEq

namespace Symbol

/-- The spelling of a symbol. -/
def text : Symbol → String
  | andAnd => "&&"
  | less => "<"
  | plus => "+"
  | minus => "-"
  | star => "*"
  | bang => "!"
  | assign => "="
  | dot => "."
  | comma => ","
  | semicolon => ";"
  | lparen => "("
  | rparen => ")"
  | lbrace => "\x7b"
  | rbrace => "\x7d"
  | lbracket => "["
  | rbracket => "]"

/-- The symbol that is spelled with the one character `c`. -/
def ofChar? : Char → Option Symbol
  | '<' => some less
  | '+' => some plus
  | '-' => some minus
  | '*' => some star
  | '!' => some bang
  | '=' => some assign
  | '.' => some dot
  | ',' => some comma
  | ';' => some semicolon
  | '(' => some lparen
  | ')' => some rparen
  | '\x7b' => some lbrace
  | '\x7d' => some rbrace
  | '[' => some lbracket
  | ']' => some rbracket
  | _ => none

end Symbol

namespace Token

/-- What a token is. -/
inductive Kind
  | keyword (word : Keyword)
  | ident (name : String)
  | intLit (digits : String)
  | symbol (sign : Symbol)
  /-- The end of the text. -/
  | eof
  /-- A character that starts no token. -/
  | unknown (char : Char)
deriving DecidableEq

/-- The characters that a token of this kind is written with. -/
def Kind.spelling : Kind → String
  | keyword word => word.text
  | ident name => name
  | intLit digits => digits
  | symbol sign => sign.text
  | eof => ""
  | unknown char => char.toString

/-- A text between backquotes. -/
def quote (text : String) : String :=
  "`" ++ text ++ "`"

/-- How messages name a kind of token. -/
def Kind.describe : Kind → String
  | ident name => "identifier " ++ quote name
  | intLit digits => "integer " ++ quote digits
  | eof => quote "end of file"
  | kind => quote kind.spelling

/-- A word is a reserved word if it is spelled like one, and an identifier otherwise. -/
def Kind.ofWord (word : String) : Kind :=
  match Keyword.ofText? word with
  | some k => keyword k
  | none => ident word

end Token

/-- A kind of token at a place. -/
structure Token where
  kind : Token.Kind
  span : Span
deriving DecidableEq

end MiniJava
