import MiniJava.Digits
import MiniJava.Json.Basic

/-!
# The tokens of JSON

`Json.Token.read` cuts a text into brackets, separators and literals, by the strict rules of the
format: no leading zeros, no raw control characters in strings, no escapes but the listed ones.

A `\u` escape may be one half of a surrogate pair. The string around an unpaired half is still
well-formed, but it stands for no text.
-/

namespace MiniJava.Json

/-- The characters between tokens. -/
def isSpace (c : Char) : Bool :=
  c == ' ' || c == '\t' || c == '\n' || c == '\r'

/-! ### Numbers -/

/-- Steps over at least one digit. -/
def skipDigits (cs : List Char) : Option (List Char) :=
  if (cs.takeWhile Char.isDigit).isEmpty then none else some (cs.dropWhile Char.isDigit)

/-- Steps over the part of a number behind its point, if there is one. -/
def skipFraction : List Char → Option (List Char)
  | '.' :: cs => skipDigits cs
  | cs => some cs

/-- Steps over the exponent of a number, if there is one. -/
def skipExponent : List Char → Option (List Char)
  | 'e' :: '+' :: cs | 'e' :: '-' :: cs | 'E' :: '+' :: cs | 'E' :: '-' :: cs => skipDigits cs
  | 'e' :: cs | 'E' :: cs => skipDigits cs
  | cs => some cs

/-- Whether a run of digits ends a number here: neither a point nor an exponent follows. -/
def endsNumber (rest : List Char) : Bool :=
  match rest with
  | '.' :: _ | 'e' :: _ | 'E' :: _ => false
  | _ => true

/-- Reads an unsigned number: its value if it is a mere run of digits, and what follows it. -/
def unsigned (cs : List Char) : Option (Option Nat × List Char) := do
  let digits := cs.takeWhile Char.isDigit
  let rest ← skipDigits cs
  if digits.head? = some '0' ∧ digits ≠ ['0'] then
    none
  else if endsNumber rest then
    return (some (Digits.value digits), rest)
  else
    return (none, ← skipExponent (← skipFraction rest))

theorem skipDigits_length_lt {cs rest : List Char} (h : skipDigits cs = some rest) :
    rest.length < cs.length := by
  unfold skipDigits at h
  split at h
  · simp at h
  · rename_i hd
    obtain rfl := Option.some.inj h
    have split :=
      congrArg List.length (List.takeWhile_append_dropWhile (p := Char.isDigit) (l := cs))
    have pos : 0 < (cs.takeWhile Char.isDigit).length := by
      rw [List.length_pos_iff]
      simpa using hd
    rw [List.length_append] at split
    omega

theorem skipFraction_length_le {cs rest : List Char} (h : skipFraction cs = some rest) :
    rest.length ≤ cs.length := by
  unfold skipFraction at h
  split at h
  · have := skipDigits_length_lt h
    simp only [List.length_cons]
    omega
  · simp_all

theorem skipExponent_length_le {cs rest : List Char} (h : skipExponent cs = some rest) :
    rest.length ≤ cs.length := by
  unfold skipExponent at h
  split at h
  case h_7 => simp_all
  all_goals
    have := skipDigits_length_lt h
    simp only [List.length_cons]
    omega

theorem unsigned_length_lt {cs rest : List Char} {value : Option Nat}
    (h : unsigned cs = some (value, rest)) : rest.length < cs.length := by
  simp only [unsigned, Option.bind_eq_bind, Option.bind_eq_some_iff] at h
  obtain ⟨mid, hm, h⟩ := h
  have lt := skipDigits_length_lt hm
  split at h
  · simp at h
  split at h
  · simp_all
  · simp only [Option.bind_eq_some_iff] at h
    obtain ⟨frac, hf, exp, he, h⟩ := h
    have := skipFraction_length_le hf
    have := skipExponent_length_le he
    simp_all
    omega

/-! ### Strings -/

/-- A piece of a string: a character, or half of a surrogate pair. -/
inductive Piece
  | char (c : Char)
  | half (unit : Nat)
deriving DecidableEq

/-- The value of a hexadecimal digit. -/
def hexValue? (c : Char) : Option Nat :=
  if c.isDigit then some (c.toNat - '0'.toNat)
  else if 'a' ≤ c ∧ c ≤ 'f' then some (c.toNat - 'a'.toNat + 10)
  else if 'A' ≤ c ∧ c ≤ 'F' then some (c.toNat - 'A'.toNat + 10)
  else none

/-- The piece that four hexadecimal digits denote. -/
def unitPiece? (a b c d : Char) : Option Piece := do
  let high := (← hexValue? a) * 16 + (← hexValue? b)
  let unit := high * 256 + (← hexValue? c) * 16 + (← hexValue? d)
  return if 0xD800 ≤ unit ∧ unit < 0xE000 then .half unit else .char (Char.ofNat unit)

/-- The character that a backslash and one more character denote. -/
def unescape? : Char → Option Char
  | '"' => some '"'
  | '\\' => some '\\'
  | '/' => some '/'
  | 'b' => some '\x08'
  | 'f' => some '\x0c'
  | 'n' => some '\n'
  | 'r' => some '\r'
  | 't' => some '\t'
  | _ => none

/-- Reads the pieces of a string up to its closing quote, and what follows the quote. -/
def pieces : List Char → Option (List Piece × List Char)
  | '"' :: cs => some ([], cs)
  | '\\' :: 'u' :: a :: b :: c :: d :: cs => do
    let piece ← unitPiece? a b c d
    let (more, rest) ← pieces cs
    return (piece :: more, rest)
  | '\\' :: c :: cs => do
    let char ← unescape? c
    let (more, rest) ← pieces cs
    return (.char char :: more, rest)
  | c :: cs =>
    if c = '\\' ∨ c.toNat < 32 then
      none
    else do
      let (more, rest) ← pieces cs
      return (.char c :: more, rest)
  | [] => none

theorem pieces_length_lt {cs rest : List Char} {body : List Piece}
    (h : pieces cs = some (body, rest)) : rest.length < cs.length := by
  fun_induction pieces cs generalizing body rest with
  | case1 cs => simp_all
  | case2 a b c d cs ih =>
    simp only [Option.bind_eq_bind, Option.bind_eq_some_iff] at h
    obtain ⟨piece, -, ⟨more, rest'⟩, hr, h⟩ := h
    have := ih hr
    simp_all
    omega
  | case3 c cs _ ih =>
    simp only [Option.bind_eq_bind, Option.bind_eq_some_iff] at h
    obtain ⟨char, -, ⟨more, rest'⟩, hr, h⟩ := h
    have := ih hr
    simp_all
    omega
  | case4 => simp at h
  | case5 c cs _ _ _ _ ih =>
    simp only [Option.bind_eq_bind, Option.bind_eq_some_iff] at h
    obtain ⟨⟨more, rest'⟩, hr, h⟩ := h
    have := ih hr
    simp_all
    omega
  | case6 => simp at h

/-- The characters of a string, if each half of a surrogate pair has its other half. -/
def join? : List Piece → Option (List Char)
  | [] => some []
  | .char c :: more => (c :: ·) <$> join? more
  | .half high :: .half low :: more =>
    if high < 0xDC00 ∧ 0xDC00 ≤ low then
      (Char.ofNat (0x10000 + (high - 0xD800) * 0x400 + (low - 0xDC00)) :: ·) <$> join? more
    else
      none
  | .half _ :: _ => none

/-! ### Tokens -/

/-- A token of JSON. A number or a string without a value of use here has `none`. -/
inductive Token
  | lbrace | rbrace | lbracket | rbracket | comma | colon
  | null
  | bool (value : Bool)
  | num (value : Option Nat)
  | str (value : Option String)
deriving DecidableEq

namespace Token

/-- Reads the token at the front of a text that does not start with a blank. -/
def next? : List Char → Option (Token × List Char)
  | '\x7b' :: cs => some (lbrace, cs)
  | '\x7d' :: cs => some (rbrace, cs)
  | '[' :: cs => some (lbracket, cs)
  | ']' :: cs => some (rbracket, cs)
  | ',' :: cs => some (comma, cs)
  | ':' :: cs => some (colon, cs)
  | 'n' :: 'u' :: 'l' :: 'l' :: cs => some (null, cs)
  | 't' :: 'r' :: 'u' :: 'e' :: cs => some (bool true, cs)
  | 'f' :: 'a' :: 'l' :: 's' :: 'e' :: cs => some (bool false, cs)
  | '"' :: cs => do
    let (body, rest) ← pieces cs
    return (str ((join? body).map String.ofList), rest)
  | '-' :: cs => do
    let (_, rest) ← unsigned cs
    return (num none, rest)
  | cs => do
    let (value, rest) ← unsigned cs
    return (num value, rest)

/-- A token takes at least one character. -/
theorem next?_length_lt {cs rest : List Char} {t : Token} (h : next? cs = some (t, rest)) :
    rest.length < cs.length := by
  unfold next? at h
  split at h
  case h_10 cs =>
    obtain ⟨⟨body, rest'⟩, hb, h⟩ := Option.bind_eq_some_iff.1 h
    have := pieces_length_lt hb
    simp_all
    omega
  case h_11 cs =>
    obtain ⟨⟨value, rest'⟩, hb, h⟩ := Option.bind_eq_some_iff.1 h
    have := unsigned_length_lt hb
    simp_all
    omega
  case h_12 =>
    obtain ⟨⟨value, rest'⟩, hb, h⟩ := Option.bind_eq_some_iff.1 h
    have := unsigned_length_lt hb
    simp_all
  all_goals simp_all <;> omega

/-- The tokens of a text. -/
def read (cs : List Char) : Option (List Token) :=
  match _h : cs.dropWhile isSpace with
  | [] => some []
  | c :: cs' =>
    match _ht : next? (c :: cs') with
    | none => none
    | some (t, rest) => (t :: ·) <$> read rest
termination_by cs.length
decreasing_by
  have lt := next?_length_lt _ht
  have le := (List.dropWhile_sublist isSpace (l := cs)).length_le
  rw [_h] at le
  omega

end Token

end MiniJava.Json
