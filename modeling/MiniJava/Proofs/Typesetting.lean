import MiniJava.Proofs.TextCut

/-!
# Texts in free format

A text may be set from kinds of tokens with any blanks and comments between them, as long as each
token has a blank right behind it (`Piece.Apart`). A blank goes on with no token, so the pieces cut
the text (`cut_pieces`), and the tokens of the text are those that were written, each at its place
(`tokenize_typeset`). The plainest such text has one blank between any two tokens
(`kinds_tokenize_spell`).
-/

namespace MiniJava

/-- A token of this kind can be written with a blank behind it. A character is unknown there if it
is no blank, starts neither a word nor a number, and is no sign by itself; so a lone `&` and a lone
`/` are unknown. -/
def Token.Kind.StandsAlone : Token.Kind → Prop
  | eof => False
  | unknown char => isBlank char = false ∧ isWordStart char = false ∧ char.isDigit = false ∧
      ∀ sign : Symbol, sign.text.toList ≠ [char]
  | kind => kind.Lexical

/-- A kind of token as it is written in a text, with the filler behind it. -/
structure Piece where
  kind : Token.Kind
  gap : List Char

namespace Piece

/-- The piece keeps apart from what is written behind it. -/
structure Apart (p : Piece) : Prop where
  kind : p.kind.StandsAlone
  gap : Filler p.gap
  blank : ∃ c ∈ p.gap.head?, isBlank c = true

/-- The characters of a piece. -/
def chars (p : Piece) : List Char :=
  p.kind.spelling.toList ++ p.gap

/-- The token that a piece is written for, where the piece starts behind `start` characters. -/
def token (file start : Nat) (p : Piece) : Token :=
  ⟨p.kind, ⟨start, start + p.kind.spelling.length, file⟩⟩

/-- The tokens that pieces are written for, one piece behind the other. -/
def tokens (file : Nat) : Nat → List Piece → List Token
  | _, [] => []
  | start, p :: ps => p.token file start :: tokens file (start + p.chars.length) ps

end Piece

/-- The text that starts with the characters `lead` and goes on with the pieces. -/
def typeset (lead : List Char) (ps : List Piece) : String :=
  String.ofList (lead ++ ps.flatMap Piece.chars)

section

variable {file start : Nat} {text gap lead rest : List Char} {ps : List Piece}

/-! ### One piece -/

/-- Every sign but one is a single character. -/
theorem Symbol.eq_andAnd_or (sign : Symbol) : sign = .andAnd ∨ ∃ c, sign.text.toList = [c] := by
  cases sign with
  | andAnd => exact .inl rfl
  | _ => exact .inr ⟨_, rfl⟩

/-- Before a blank, a kind that can stand alone can stand. -/
theorem Token.Kind.StandsAlone.standsBefore {k : Token.Kind} (h : k.StandsAlone)
    (hrest : ∃ d ∈ rest.head?, isBlank d = true) : k.StandsBefore rest := by
  obtain ⟨d, hhead, hd⟩ := hrest
  obtain ⟨rest, rfl⟩ := List.head?_eq_some_iff.mp hhead
  have hword : ∀ e ∈ (d :: rest).head?, isWordPart e = false := by
    rintro e ⟨⟩
    exact isWordPart_of_isBlank hd
  have hdigit : ∀ e ∈ (d :: rest).head?, e.isDigit = false := by
    rintro e ⟨⟩
    exact isDigit_of_isBlank hd
  cases k with
  | keyword word => exact hword
  | ident name => exact ⟨h, hword⟩
  | intLit digits => exact ⟨h.1, h.2, hdigit⟩
  | symbol sign => trivial
  | eof => exact h.elim
  | unknown char =>
    obtain ⟨hblank, hstart, hnumber, hsign⟩ := h
    refine ⟨?_, hstart, hnumber, ?_⟩
    · by_cases hslash : char = '/'
      · -- the blank opens no comment
        subst hslash
        simp only [isBlank, Bool.or_eq_true, beq_iff_eq] at hd
        rcases hd with ((rfl | rfl) | rfl) | rfl <;> rfl
      · rw [startsFiller_cons hslash, hblank]
    · intro sign hprefix
      rcases sign.eq_andAnd_or with rfl | ⟨c, hc⟩
      · -- the second character would be the blank
        obtain ⟨-, hsecond⟩ := List.cons_prefix_cons.mp hprefix
        obtain ⟨rfl, -⟩ := List.cons_prefix_cons.mp hsecond
        exact absurd hd (by decide)
      · rw [hc] at hprefix
        obtain ⟨rfl, -⟩ := List.cons_prefix_cons.mp hprefix
        exact hsign sign hc

namespace Piece

theorem length_chars (p : Piece) : p.chars.length = p.kind.spelling.length + p.gap.length := by
  rw [chars, List.length_append, String.length_toList]

/-! ### All pieces -/

theorem map_kind_tokens (file start : Nat) (ps : List Piece) :
    (tokens file start ps).map Token.kind = ps.map Piece.kind := by
  induction ps generalizing start with
  | nil => rfl
  | cons p ps ih => rw [tokens, List.map_cons, List.map_cons, ih, token]

/-- A piece starts behind the characters of the pieces before it. -/
theorem getElem?_tokens (file start : Nat) (before : List Piece) (p : Piece) (after : List Piece) :
    (tokens file start (before ++ p :: after))[before.length]? =
      some (p.token file (start + (before.flatMap chars).length)) := by
  induction before generalizing start with
  | nil => rfl
  | cons q before ih =>
    rw [List.cons_append, tokens, List.length_cons, List.getElem?_cons_succ, ih,
      List.flatMap_cons, List.length_append, Nat.add_assoc]

end Piece

/-- The pieces cut the text behind a filler: each gap is the filler before the next token. -/
theorem cut_pieces (hgap : Filler gap) (hps : ∀ p ∈ ps, p.Apart)
    (h : text.drop start = gap ++ ps.flatMap Piece.chars) :
    Cut file text start (Piece.tokens file (start + gap.length) ps) := by
  induction ps generalizing start gap with
  | nil =>
    show LastFiller (text.drop start)
    rw [h, List.flatMap_nil, List.append_nil]
    exact .closed hgap
  | cons p ps ih =>
    obtain ⟨hp, hps⟩ := List.forall_mem_cons.mp hps
    have hrest : ∃ d ∈ (p.gap ++ ps.flatMap Piece.chars).head?, isBlank d = true := by
      obtain ⟨d, hhead, hd⟩ := hp.blank
      refine ⟨d, ?_, hd⟩
      rw [List.head?_append, Option.mem_def.mp hhead]
      rfl
    rw [List.flatMap_cons, Piece.chars, List.append_assoc] at h
    have hbehind : text.drop (start + gap.length + p.kind.spelling.length) =
        p.gap ++ ps.flatMap Piece.chars := by
      rw [← List.drop_drop, ← List.drop_drop, h, List.drop_left, ← String.length_toList,
        List.drop_left]
    refine ⟨cutFrom_of_drop_eq hgap (hp.kind.standsBefore hrest) h, ?_⟩
    rw [p.length_chars, ← Nat.add_assoc]
    exact ih hp.gap hps hbehind

/-- The tokens of a text in free format are those that its pieces are written for. -/
theorem tokenize_typeset (hlead : Filler lead) (hps : ∀ p ∈ ps, p.Apart) (file : Nat) :
    tokenize (typeset lead ps) file =
      Piece.tokens file lead.length ps ++ [.endMark file (typeset lead ps).length] := by
  apply Cut.tokenize_eq
  have hcut : Cut file (lead ++ ps.flatMap Piece.chars) 0
      (Piece.tokens file (0 + lead.length) ps) := cut_pieces hlead hps List.drop_zero
  rw [Nat.zero_add] at hcut
  rw [typeset, String.toList_ofList]
  exact hcut

end

/-! ### Single blanks -/

/-- The text in which the kinds are written one after the other, with a blank before and behind
each of them. -/
def spell (ks : List Token.Kind) : String :=
  String.ofList (ks.flatMap (fun k => ' ' :: k.spelling.toList) ++ [' '])

/-- The blank before each kind is the one behind the kind before it. -/
theorem spell_eq_typeset (ks : List Token.Kind) :
    spell ks = typeset [' '] (ks.map (Piece.mk · [' '])) := by
  rw [spell, typeset]
  congr 1
  induction ks with
  | nil => rfl
  | cons k ks ih =>
    rw [List.flatMap_cons, List.append_assoc, ih, List.map_cons, List.flatMap_cons, Piece.chars,
      List.append_assoc]
    rfl

/-- The kinds that are written with single blanks are read back. -/
theorem kinds_tokenize_spell {ks : List Token.Kind}
    (h : ∀ k ∈ ks, k.Lexical ∧ k ≠ .eof ∧ ∀ char, k ≠ .unknown char) (file : Nat) :
    (tokenize (spell ks) file).map Token.kind = ks ++ [.eof] := by
  have hapart : ∀ p ∈ ks.map (Piece.mk · [' ']), p.Apart := by
    intro p hp
    obtain ⟨k, hk, rfl⟩ := List.mem_map.mp hp
    obtain ⟨hlex, heof, hunknown⟩ := h k hk
    refine ⟨?_, .blank rfl .nil, ' ', rfl, rfl⟩
    cases k with
    | eof => exact absurd rfl heof
    | unknown char => exact absurd rfl (hunknown char)
    | _ => exact hlex
  rw [spell_eq_typeset, tokenize_typeset (.blank rfl .nil) hapart, List.map_append,
    Piece.map_kind_tokens, List.map_map]
  show ks.map id ++ [.eof] = ks ++ [.eof]
  rw [List.map_id]

/-- **Reading tokens undoes writing them, in any format.** Kinds of tokens may be written with any
blanks and comments before the first, between any two and behind the last of them, if a blank comes
right behind each. The tokens of the text are then of these kinds, the end mark follows, and each
token stands where it was written. -/
theorem tokenize_undoes_typesetting {lead : List Char} {ps : List Piece} (hlead : Filler lead)
    (hps : ∀ p ∈ ps, p.Apart) (file : Nat) :
    ∃ ts, tokenize (typeset lead ps) file = ts ++ [.endMark file (typeset lead ps).length] ∧
      ts.map Token.kind = ps.map Piece.kind ∧
      ∀ before p after, ps = before ++ p :: after →
        ts[before.length]? = some (p.token file (typeset lead before).length) := by
  refine ⟨_, tokenize_typeset hlead hps file, Piece.map_kind_tokens _ _ _, ?_⟩
  rintro before p after rfl
  rw [Piece.getElem?_tokens, typeset, String.length_ofList, List.length_append]

/-- Pieces with comments that hold quotes, signs, words and marks of other comments, behind the
lone characters that could be taken for more than they are. -/
def awkwardPieces : List Piece :=
  [⟨.unknown '/', ' ' :: '/' :: '*' :: ("/ \"".toList ++ '*' :: '/' :: [])⟩,
    ⟨.unknown '&', '\t' :: '/' :: '/' :: ("*/ class &&".toList ++ '\n' :: [])⟩,
    ⟨.symbol .andAnd, ['\r']⟩,
    ⟨.intLit "007", ['\n', ' ']⟩]

theorem awkwardPieces_apart : ∀ p ∈ awkwardPieces, p.Apart := by
  simp only [awkwardPieces, List.forall_mem_cons, List.not_mem_nil, false_imp_iff, implies_true,
    and_true]
  refine ⟨⟨⟨rfl, rfl, rfl, ?_⟩, .blank rfl (.block (by decide) .nil), ' ', rfl, rfl⟩,
    ⟨⟨rfl, rfl, rfl, ?_⟩, .blank rfl (.line (by decide) .nil), '\t', rfl, rfl⟩,
    ⟨trivial, .blank rfl .nil, '\r', rfl, rfl⟩,
    ⟨⟨by decide, List.all_eq_true.mp rfl⟩, .blank rfl (.blank rfl .nil), '\n', rfl, rfl⟩⟩
  · intro sign hsign
    cases sign <;> cases hsign
  · intro sign hsign
    cases sign <;> cases hsign

theorem tokenize_undoes_typesetting_awkward :
    ∃ ts, tokenize (typeset "/**/".toList awkwardPieces) 3 = ts ++ [.endMark 3 37] ∧
      ts.map Token.kind =
        [.unknown '/', .unknown '&', .symbol .andAnd, .intLit "007"] ∧
      ts[1]? = some ⟨.unknown '&', ⟨13, 14, 3⟩⟩ := by
  obtain ⟨ts, htokens, hkinds, hplaces⟩ :=
    @tokenize_undoes_typesetting "/**/".toList _ (@Filler.block [] [] (by decide) .nil)
      awkwardPieces_apart 3
  exact ⟨ts, htokens, hkinds, hplaces [_] _ _ rfl⟩

end MiniJava
