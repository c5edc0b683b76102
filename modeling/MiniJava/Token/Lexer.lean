import MiniJava.Token.Basic

/-!
# Reading tokens from a text

* `Gap.length` measures the blanks and comments at the front of a text.
* `lexeme` finds the kind and the length of the token at the front of a text.
* `Scanner.next` reads one token, `Scanner.tokens` all of them up to the end mark.

Words and digit runs are taken as long as they go, so a token is never followed by a character
that would have extended it.
-/

namespace MiniJava

/-- Where a scan between two tokens stands: outside comments, in a line comment, or in a block
comment. -/
inductive Gap
  | blank | line | block
deriving DecidableEq

/-- The characters that separate tokens and mean nothing else. -/
def isBlank (c : Char) : Bool :=
  c == ' ' || c == '\t' || c == '\r' || c == '\n'

/-- The number of characters that blanks and comments take at the front of a text. A line comment
ends at the line feed, a block comment at the first `*/`, and either at the end of the text. -/
def Gap.length : Gap → List Char → Nat
  | blank, '/' :: '/' :: cs => line.length cs + 2
  | blank, '/' :: '*' :: cs => block.length cs + 2
  | blank, c :: cs => if isBlank c then blank.length cs + 1 else 0
  | line, c :: cs => if c = '\n' then blank.length cs + 1 else line.length cs + 1
  | block, '*' :: '/' :: cs => blank.length cs + 2
  | block, _ :: cs => block.length cs + 1
  | _, [] => 0

/-- The characters that start a word. -/
def isWordStart (c : Char) : Bool :=
  c.isAlpha || c == '_'

/-- The characters that continue a word. -/
def isWordPart (c : Char) : Bool :=
  c.isAlphanum || c == '_'

/-- The kind of the token that starts with the character `c` before `cs`, and how many characters
of `cs` belong to it. -/
def lexeme (c : Char) (cs : List Char) : Token.Kind × Nat :=
  if isWordStart c then
    let tail := cs.takeWhile isWordPart
    (.ofWord (String.ofList (c :: tail)), tail.length)
  else if c.isDigit then
    let tail := cs.takeWhile Char.isDigit
    (.intLit (String.ofList (c :: tail)), tail.length)
  else if c = '&' ∧ cs.head? = some '&' then
    (.symbol .andAnd, 1)
  else
    match Symbol.ofChar? c with
    | some sign => (.symbol sign, 0)
    | none => (.unknown c, 0)

/-- A place in a text: the file it belongs to, the number of characters before it, and the
characters after it. -/
structure Scanner where
  file : Nat
  offset : Nat
  rest : List Char

namespace Scanner

/-- The beginning of a text. -/
def start (text : String) (file : Nat) : Scanner :=
  ⟨file, 0, text.toList⟩

/-- Reads the next token; at the end of the text that is the end mark, over and over. -/
def next (s : Scanner) : Token × Scanner :=
  let gap := Gap.blank.length s.rest
  let start := s.offset + gap
  match s.rest.drop gap with
  | [] => (⟨.eof, ⟨start, start, s.file⟩⟩, ⟨s.file, start, []⟩)
  | c :: cs =>
    let (kind, tail) := lexeme c cs
    let stop := start + 1 + tail
    (⟨kind, ⟨start, stop, s.file⟩⟩, ⟨s.file, stop, cs.drop tail⟩)

/-- A token other than the end mark takes at least one character. -/
theorem rest_next_lt {s : Scanner} (h : s.next.1.kind ≠ .eof) :
    s.next.2.rest.length < s.rest.length := by
  unfold next at h ⊢
  have drop_le : (s.rest.drop (Gap.blank.length s.rest)).length ≤ s.rest.length := by simp
  simp only at h ⊢
  split at h
  · simp at h
  · rename_i c cs hc
    simp only [hc, List.length_drop, List.length_cons] at drop_le ⊢
    omega

/-- The tokens from here to the end of the text; the last one is the end mark. -/
def tokens (s : Scanner) : List Token :=
  match _h : s.next with
  | (t, s') => if t.kind = .eof then [t] else t :: s'.tokens
termination_by s.rest.length
decreasing_by
  have lt := @rest_next_lt s
  simp_all

theorem tokens_eq (s : Scanner) :
    s.tokens = if s.next.1.kind = .eof then [s.next.1] else s.next.1 :: s.next.2.tokens := by
  rw [tokens]

/-- The next `n` tokens, past the end of the text if need be. -/
def take (s : Scanner) : Nat → List Token
  | 0 => []
  | n + 1 => s.next.1 :: s.next.2.take n

end Scanner

/-- The tokens of a text, with the end mark as the last one. -/
def tokenize (text : String) (file : Nat) : List Token :=
  (Scanner.start text file).tokens

end MiniJava
