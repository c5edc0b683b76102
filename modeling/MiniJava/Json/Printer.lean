import MiniJava.Json.Basic

/-!
# Writing JSON

`Json.write` writes a value over several lines, with two blanks for each level. Strings escape the
quote, the backslash and the control characters, and nothing else. `Json.pretty?` refuses a value
that JSON cannot say.
-/

namespace MiniJava.Json

/-- The lower-case hexadecimal digit of a number below sixteen. -/
def hexDigit (n : Nat) : Char :=
  Nat.digitChar n

/-- The form of a character inside a string. -/
def escape (c : Char) : List Char :=
  match c with
  | '"' => ['\\', '"']
  | '\\' => ['\\', '\\']
  | '\x08' => ['\\', 'b']
  | '\t' => ['\\', 't']
  | '\n' => ['\\', 'n']
  | '\x0c' => ['\\', 'f']
  | '\r' => ['\\', 'r']
  | c =>
    if c.toNat < 32 then
      ['\\', 'u', '0', '0', hexDigit (c.toNat / 16), hexDigit (c.toNat % 16)]
    else
      [c]

/-- A string with its quotes. -/
def quoted (s : String) : List Char :=
  '"' :: s.toList.flatMap escape ++ ['"']

/-- A line break and the blanks of a level. -/
def newline (level : Nat) : List Char :=
  '\n' :: List.replicate (2 * level) ' '

mutual

/-- A value whose first line stands on the given level. -/
def write (level : Nat) : Json → List Char
  | null => ['n', 'u', 'l', 'l']
  | bool true => ['t', 'r', 'u', 'e']
  | bool false => ['f', 'a', 'l', 's', 'e']
  | num n => Nat.toDigits 10 n
  | str s => quoted s
  | arr [] => ['[', ']']
  | arr (item :: items) =>
    '[' :: newline (level + 1) ++ write (level + 1) item ++ writeItems (level + 1) items ++
      newline level ++ [']']
  | obj [] => ['\x7b', '\x7d']
  | obj ((key, value) :: fields) =>
    '\x7b' :: newline (level + 1) ++ quoted key ++ [':', ' '] ++ write (level + 1) value ++
      writeFields (level + 1) fields ++ newline level ++ ['\x7d']
  | other => ['n', 'u', 'l', 'l']

/-- The items behind the first one. -/
def writeItems (level : Nat) : List Json → List Char
  | [] => []
  | item :: items => ',' :: newline level ++ write level item ++ writeItems level items

/-- The fields behind the first one. -/
def writeFields (level : Nat) : List (String × Json) → List Char
  | [] => []
  | (key, value) :: fields =>
    ',' :: newline level ++ quoted key ++ [':', ' '] ++ write level value ++
      writeFields level fields

end

/-- A value as text. -/
def pretty (j : Json) : String :=
  String.ofList (write 0 j)

/-- A value as text, if JSON can say it. -/
def pretty? (j : Json) : Option String :=
  if j.Plain then some j.pretty else none

end MiniJava.Json
