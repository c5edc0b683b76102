import MiniJava.Proofs.Lexemes

/-!
# How a text is cut into tokens

`Cut` says when some tokens cut a text exactly: each of them has its spelling for its characters and
can stand before what follows, and all other characters are fillers. Every text can be cut
(`exists_cut`), and the scanner finds the one way to do so (`Cut.tokens_eq`, `Cut.take_eq`). So the
tokens of a text are lexical ones inside of it, and the end mark is the last of them and no other
(`tokenize_shape`, `tokenize_span`).
-/

namespace MiniJava

/-- The span takes at least one character of a text of `n` characters, which is file number
`file`. -/
structure Span.Within (s : Span) (file n : Nat) : Prop where
  file_eq : s.file = file
  start_lt : s.start < s.stop
  stop_le : s.stop ≤ n

theorem Span.Within.merge {a b : Span} {file n : Nat} (ha : a.Within file n)
    (hb : b.Within file n) : (a.merge b).Within file n := by
  refine ⟨ha.file_eq, ?_, ?_⟩
  · have hlt := ha.start_lt
    simp only [Span.merge_start, Span.merge_stop]
    omega
  · have hle := ha.stop_le
    have hle' := hb.stop_le
    simp only [Span.merge_stop]
    omega

/-- The token is the first one behind the first `start` characters of the text of a file: only a
filler comes before it, its characters are its spelling, and the characters behind it do not go on
with it. -/
structure Token.CutFrom (t : Token) (file : Nat) (text : List Char) (start : Nat) : Prop where
  within : t.span.Within file text.length
  start_le : start ≤ t.span.start
  gap : Filler (text.extract start t.span.start)
  spelled : text.extract t.span.start t.span.stop = t.kind.spelling.toList
  standsBefore : t.kind.StandsBefore (text.drop t.span.stop)

/-- The tokens cut the text of a file behind its first `start` characters: each of them comes behind
the one before, and a filler ends the text. -/
def Cut (file : Nat) (text : List Char) : Nat → List Token → Prop
  | start, [] => LastFiller (text.drop start)
  | start, t :: ts => t.CutFrom file text start ∧ Cut file text t.span.stop ts

/-- The mark behind a text of `n` characters. -/
def Token.endMark (file n : Nat) : Token :=
  ⟨.eof, ⟨n, n, file⟩⟩

section

variable {file start : Nat} {text : List Char}

/-! ### One token -/

theorem drop_eq_extract_append {stop : Nat} (h : start ≤ stop) :
    text.drop start = text.extract start stop ++ text.drop stop := by
  have hstop : stop = start + (stop - start) := by omega
  rw [List.extract, hstop, ← List.drop_drop, Nat.add_sub_cancel_left, List.take_append_drop]

/-- The step: the scanner reads the first token. -/
theorem Token.CutFrom.next_eq {t : Token} (h : t.CutFrom file text start) :
    Scanner.next ⟨file, start, text.drop start⟩ =
      (t, ⟨file, t.span.stop, text.drop t.span.stop⟩) := by
  obtain ⟨k, ⟨first, stop, file'⟩⟩ := t
  obtain ⟨⟨rfl, hlt, hstop⟩, hstart, hgap, hspelled, hbefore⟩ := h
  have hfirst : start + (text.extract start first).length = first := by
    rw [List.length_take, List.length_drop]
    dsimp only at hstart hlt hstop
    omega
  have hlast : first + k.spelling.length = stop := by
    rw [← String.length_toList, ← hspelled, List.length_take, List.length_drop]
    dsimp only at hlt hstop ⊢
    omega
  have hread := Scanner.next_of_filler hgap hbefore file' start
  rw [hfirst, hlast, ← hspelled, ← drop_eq_extract_append (Nat.le_of_lt hlt),
    ← drop_eq_extract_append hstart] at hread
  exact hread

/-- The step at the end: the scanner reads the end mark. -/
theorem Scanner.next_of_lastFiller_drop (h : LastFiller (text.drop start))
    (hstart : start ≤ text.length) :
    Scanner.next ⟨file, start, text.drop start⟩ =
      (.endMark file text.length, ⟨file, text.length, []⟩) := by
  have hend : start + (text.drop start).length = text.length := by
    rw [List.length_drop]
    omega
  rw [next_of_lastFiller h, hend]
  rfl

/-- A filler and a kind that can stand before what follows make the first token. -/
theorem cutFrom_of_drop_eq {gap rest : List Char} {k : Token.Kind} (hgap : Filler gap)
    (hk : k.StandsBefore rest) (h : text.drop start = gap ++ (k.spelling.toList ++ rest)) :
    Token.CutFrom
      ⟨k, ⟨start + gap.length, start + gap.length + k.spelling.length, file⟩⟩ file text start := by
  obtain ⟨c, cs, htext, -, -⟩ := lexeme_spelling hk
  have hpos : k.spelling.length = cs.length + 1 := by
    rw [← String.length_toList, htext, List.length_cons]
  have hlength : text.length - start = gap.length + (k.spelling.length + rest.length) := by
    rw [← List.length_drop, h, List.length_append, List.length_append, String.length_toList]
  have hdrop : text.drop (start + gap.length) = k.spelling.toList ++ rest := by
    rw [← List.drop_drop, h, List.drop_left]
  have hrest : text.drop (start + gap.length + k.spelling.length) = rest := by
    rw [← List.drop_drop, hdrop, ← String.length_toList, List.drop_left]
  constructor
  case within => exact ⟨rfl, by dsimp only; omega, by dsimp only; omega⟩
  case start_le => exact Nat.le_add_right start gap.length
  case gap =>
    rw [List.extract, h, Nat.add_sub_cancel_left, List.take_left]
    exact hgap
  case spelled =>
    rw [List.extract, hdrop, Nat.add_sub_cancel_left, ← String.length_toList, List.take_left]
  case standsBefore =>
    rw [hrest]
    exact hk

/-- At every place there is a next token, or the text ends. -/
theorem exists_cutFrom (file : Nat) (text : List Char) (start : Nat) :
    LastFiller (text.drop start) ∨ ∃ t : Token, t.CutFrom file text start := by
  rcases exists_filler_append (text.drop start) with hlast | ⟨gap, c, cs, hdrop, hgap, hstart⟩
  · exact .inl hlast
  · obtain ⟨k, rest, hspelled, hk⟩ := exists_kind hstart
    rw [hspelled] at hdrop
    exact .inr ⟨_, cutFrom_of_drop_eq hgap hk hdrop⟩

/-! ### All tokens -/

/-- Every text can be cut. -/
theorem exists_cut (file : Nat) (text : List Char) (start : Nat) :
    ∃ ts, Cut file text start ts := by
  rcases exists_cutFrom file text start with hlast | ⟨t, ht⟩
  · exact ⟨[], hlast⟩
  · have hge := ht.start_le
    have hlt := ht.within.start_lt
    have hle := ht.within.stop_le
    obtain ⟨ts, hts⟩ := exists_cut file text t.span.stop
    exact ⟨t :: ts, ht, hts⟩
termination_by text.length - start

/-- Behind the text there is only its end mark, over and over. -/
theorem Scanner.take_end (file offset n : Nat) :
    Scanner.take ⟨file, offset, []⟩ n = List.replicate n (.endMark file offset) := by
  induction n with
  | zero => rfl
  | succ n ih =>
    rw [Scanner.take, Scanner.next_of_lastFiller (.closed .nil), List.length_nil, Nat.add_zero, ih]
    rfl

namespace Cut

variable {ts : List Token}

/-- The run: the scanner finds the cut. -/
theorem tokens_eq (h : Cut file text start ts) (hstart : start ≤ text.length) :
    Scanner.tokens ⟨file, start, text.drop start⟩ = ts ++ [.endMark file text.length] := by
  induction ts generalizing start with
  | nil =>
    rw [Scanner.tokens_eq, Scanner.next_of_lastFiller_drop h hstart]
    rfl
  | cons t ts ih =>
    obtain ⟨ht, hts⟩ := h
    rw [Scanner.tokens_eq, ht.next_eq, if_neg ht.standsBefore.ne_eof, ih hts ht.within.stop_le,
      List.cons_append]

/-- However many tokens are read, those of the cut come first and then only end marks. -/
theorem take_eq (h : Cut file text start ts) (hstart : start ≤ text.length) (n : Nat) :
    Scanner.take ⟨file, start, text.drop start⟩ n =
      (ts ++ List.replicate n (Token.endMark file text.length)).take n := by
  induction ts generalizing start n with
  | nil =>
    cases n with
    | zero => rfl
    | succ n =>
      rw [Scanner.take, Scanner.next_of_lastFiller_drop h hstart, Scanner.take_end,
        List.nil_append, List.take_replicate, Nat.min_self, List.replicate_succ]
  | cons t ts ih =>
    obtain ⟨ht, hts⟩ := h
    cases n with
    | zero => rfl
    | succ n =>
      have hlong : n ≤ (ts ++ List.replicate n (Token.endMark file text.length)).length := by
        rw [List.length_append, List.length_replicate]
        omega
      rw [Scanner.take, ht.next_eq, ih hts ht.within.stop_le, List.cons_append, List.take_succ_cons,
        List.replicate_succ', ← List.append_assoc, List.take_append_of_le_length hlong]

theorem cutFrom_of_mem (h : Cut file text start ts) :
    ∀ t ∈ ts, ∃ first, t.CutFrom file text first := by
  induction ts generalizing start with
  | nil => exact List.forall_mem_nil _
  | cons t ts ih =>
    rw [List.forall_mem_cons]
    exact ⟨⟨start, h.1⟩, ih h.2⟩

theorem start_le (h : Cut file text start ts) : ∀ t ∈ ts, start ≤ t.span.start := by
  induction ts generalizing start with
  | nil => exact List.forall_mem_nil _
  | cons t ts ih =>
    obtain ⟨ht, hts⟩ := h
    rw [List.forall_mem_cons]
    refine ⟨ht.start_le, fun u hu => ?_⟩
    have hbefore := ht.start_le
    have hlt := ht.within.start_lt
    have hbehind := ih hts u hu
    omega

/-- The spans are in order and do not overlap. -/
theorem pairwise (h : Cut file text start ts) :
    ts.Pairwise fun t u => t.span.stop ≤ u.span.start := by
  induction ts generalizing start with
  | nil => exact .nil
  | cons t ts ih => exact .cons h.2.start_le (ih h.2)

end Cut

end

/-! ### The tokens of a text -/

theorem Cut.tokenize_eq {text : String} {file : Nat} {ts : List Token}
    (h : Cut file text.toList 0 ts) :
    tokenize text file = ts ++ [.endMark file text.length] := by
  have hrun := h.tokens_eq (Nat.zero_le _)
  rwa [List.drop_zero, String.length_toList] at hrun

/-- The tokens of a text are lexical ones and then the end mark. -/
theorem tokenize_shape (text : String) (file : Nat) :
    ∃ words mark, tokenize text file = words ++ [mark] ∧ mark.kind = .eof ∧
      ∀ t ∈ words, t.kind ≠ .eof ∧ t.kind.Lexical := by
  obtain ⟨ts, hts⟩ := exists_cut file text.toList 0
  refine ⟨ts, .endMark file text.length, hts.tokenize_eq, rfl, fun t ht => ?_⟩
  obtain ⟨start, hcut⟩ := hts.cutFrom_of_mem t ht
  exact ⟨hcut.standsBefore.ne_eof, hcut.standsBefore.lexical⟩

/-- The tokens of a text lie inside of it, and its end mark behind it. -/
theorem tokenize_span (text : String) (file : Nat) : ∀ t ∈ tokenize text file,
    t.kind = .eof ∧ t.span = ⟨text.length, text.length, file⟩ ∨
      t.kind ≠ .eof ∧ t.span.Within file text.length := by
  obtain ⟨ts, hts⟩ := exists_cut file text.toList 0
  rw [hts.tokenize_eq]
  intro t ht
  rcases List.mem_append.mp ht with ht | ht
  · obtain ⟨start, hcut⟩ := hts.cutFrom_of_mem t ht
    have hwithin := hcut.within
    rw [String.length_toList] at hwithin
    exact .inr ⟨hcut.standsBefore.ne_eof, hwithin⟩
  · obtain rfl := List.mem_singleton.mp ht
    exact .inl ⟨rfl, rfl⟩

/-- **A text is cut exactly.** Its tokens are the one way to cut it. They are in order, and the end
mark follows them, however often another token is asked for. -/
theorem tokenize_cuts_exactly (text : String) (file : Nat) :
    ∃ ts, tokenize text file = ts ++ [.endMark file text.length] ∧
      (∀ us, Cut file text.toList 0 us ↔ us = ts) ∧
      ts.Pairwise (fun t u => t.span.stop ≤ u.span.start) ∧
      ∀ n, (Scanner.start text file).take n =
        (ts ++ List.replicate n (Token.endMark file text.length)).take n := by
  obtain ⟨ts, hts⟩ := exists_cut file text.toList 0
  refine ⟨ts, hts.tokenize_eq, ?_, hts.pairwise, ?_⟩
  · intro us
    constructor
    · intro hus
      exact List.append_cancel_right (hus.tokenize_eq.symm.trans hts.tokenize_eq)
    · rintro rfl
      exact hts
  · intro n
    have htake := hts.take_eq (Nat.zero_le _) n
    rwa [List.drop_zero, String.length_toList] at htake

-- the comment does not end with the slash that opens it, and the sign is read before the lone `&`
example : (tokenize "/*/*/&&&1a/" 0).map Token.kind =
    [.symbol .andAnd, .unknown '&', .intLit "1", .ident "a", .unknown '/', .eof] := by
  decide +kernel

end MiniJava
