/-!
# Places in a source text

* `Span` is a stretch of a source text, counted in characters.
* `Position` is a line and a column, both counted from one.
* `Position.ofOffset` finds the position that a number of characters leads to.
-/

namespace MiniJava

/-- The characters of file number `file` from offset `start` up to, but not including, `stop`. -/
structure Span where
  start : Nat
  stop : Nat
  file : Nat
deriving DecidableEq, Inhabited

namespace Span

/-- The smallest span that covers both; it lies in the file of the first. -/
def merge (a b : Span) : Span :=
  ⟨min a.start b.start, max a.stop b.stop, a.file⟩

@[simp] theorem merge_start (a b : Span) : (a.merge b).start = min a.start b.start := rfl

@[simp] theorem merge_stop (a b : Span) : (a.merge b).stop = max a.stop b.stop := rfl

@[simp] theorem merge_file (a b : Span) : (a.merge b).file = a.file := rfl

@[simp] theorem merge_self (a : Span) : a.merge a = a := by
  simp [merge]

end Span

/-- A line and a column of a text, both counted from one. -/
structure Position where
  line : Nat
  column : Nat
deriving DecidableEq, Inhabited

namespace Position

/-- The position of the first character of a text. -/
def first : Position := ⟨1, 1⟩

/-- The position behind a character that stands at `p`; only a line feed starts a new line. -/
def advance (p : Position) (c : Char) : Position :=
  if c = '\n' then ⟨p.line + 1, 1⟩ else ⟨p.line, p.column + 1⟩

@[simp] theorem advance_newline (p : Position) : p.advance '\n' = ⟨p.line + 1, 1⟩ := by
  simp [advance]

theorem advance_of_ne {c : Char} (h : c ≠ '\n') (p : Position) :
    p.advance c = ⟨p.line, p.column + 1⟩ := by
  simp [advance, h]

/-- The position that `offset` characters of `text` lead to, or the end of a shorter text. -/
def ofOffset (text : String) (offset : Nat) : Position :=
  (text.toList.take offset).foldl advance first

@[simp] theorem ofOffset_zero (text : String) : ofOffset text 0 = first := by
  simp [ofOffset]

end Position

/-- The position of the first character of a span. -/
def Span.position (s : Span) (text : String) : Position :=
  Position.ofOffset text s.start

end MiniJava
