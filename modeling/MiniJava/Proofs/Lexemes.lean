import MiniJava.Proofs.Fillers
import MiniJava.Proofs.TokenKinds

/-!
# The token at the front of a text

`Token.Kind.StandsBefore` says which kinds of tokens can stand before some characters: those that
are well formed and that the characters do not go on with. Such a kind is read from its spelling
(`lexeme_spelling`), also behind a filler (`Scanner.next_of_filler`). Where no filler starts, the
token of some such kind stands (`exists_kind`).
-/

namespace MiniJava

/-- A token of this kind can stand directly before `rest`: it is well formed, and `rest` does not go
on with it. A character is unknown only where no filler and no other token starts. -/
def Token.Kind.StandsBefore (rest : List Char) : Token.Kind → Prop
  | keyword _ => ∀ d ∈ rest.head?, isWordPart d = false
  | ident name => isIdentName name = true ∧ ∀ d ∈ rest.head?, isWordPart d = false
  | intLit digits => digits.toList ≠ [] ∧ (∀ d ∈ digits.toList, d.isDigit) ∧
      ∀ d ∈ rest.head?, d.isDigit = false
  | symbol _ => True
  | eof => False
  | unknown char => startsFiller (char :: rest) = false ∧ isWordStart char = false ∧
      char.isDigit = false ∧ ∀ sign : Symbol, ¬ sign.text.toList <+: char :: rest

section

variable {c d : Char} {cs rest : List Char}

theorem Token.Kind.StandsBefore.ne_eof {k : Token.Kind} (h : k.StandsBefore rest) : k ≠ .eof := by
  rintro rfl
  exact h

theorem Token.Kind.StandsBefore.lexical {k : Token.Kind} (h : k.StandsBefore rest) :
    k.Lexical := by
  cases k with
  | ident name => exact h.1
  | intLit digits => exact ⟨h.1, h.2.1⟩
  | _ => trivial

/-! ### Classes of characters -/

theorem isWordPart_of_isBlank (h : isBlank d = true) : isWordPart d = false := by
  simp only [isBlank, Bool.or_eq_true, beq_iff_eq] at h
  rcases h with ((rfl | rfl) | rfl) | rfl <;> decide

theorem isDigit_of_isBlank (h : isBlank d = true) : d.isDigit = false := by
  simp only [isBlank, Bool.or_eq_true, beq_iff_eq] at h
  rcases h with ((rfl | rfl) | rfl) | rfl <;> decide

theorem isWordPart_of_isWordStart (h : isWordStart c = true) : isWordPart c = true := by
  show ((c.isAlpha || c.isDigit) || c == '_') = true
  rcases (Bool.or_eq_true _ _).mp h with hc | hc
  · rw [hc, Bool.true_or, Bool.true_or]
  · rw [hc, Bool.or_true]

theorem isWordPart_of_isDigit (h : c.isDigit = true) : isWordPart c = true := by
  show ((c.isAlpha || c.isDigit) || c == '_') = true
  rw [h, Bool.or_true, Bool.true_or]

/-- No filler starts with a character of a word or a number. -/
theorem startsFiller_of_isWordPart (h : isWordPart c = true) : startsFiller (c :: cs) = false := by
  have hslash : c ≠ '/' := by
    rintro rfl
    exact absurd h (by decide)
  rw [startsFiller_cons hslash]
  by_contra hblank
  rw [Bool.not_eq_false] at hblank
  rw [isWordPart_of_isBlank hblank] at h
  cases h

theorem isWordStart_of_isDigit (h : c.isDigit = true) : isWordStart c = false := by
  have hle : c.toNat ≤ 57 := (Char.isDigit_iff_toNat.mp h).2
  have hupper : c.isUpper = false := decide_eq_false fun hc => by
    have hge : 65 ≤ c.toNat := UInt32.le_iff_toNat_le.mp hc.1
    omega
  have hlower : c.isLower = false := Bool.and_eq_false_imp.mpr fun hc => by
    have hge : 97 ≤ c.toNat := UInt32.le_iff_toNat_le.mp (of_decide_eq_true hc)
    omega
  have hne : c ≠ '_' := by
    rintro rfl
    exact absurd h (by decide)
  show (c.isUpper || c.isLower || c == '_') = false
  rw [hupper, hlower, beq_false_of_ne hne]
  rfl

/-! ### Reading a spelling -/

/-- A run of characters of a class is taken as a whole if the next character is not of the class. -/
theorem takeWhile_append_of_head? {p : Char → Bool} (hcs : ∀ x ∈ cs, p x = true)
    (hrest : ∀ d ∈ rest.head?, p d = false) : (cs ++ rest).takeWhile p = cs := by
  have hstop : rest.takeWhile p = [] := by
    cases rest with
    | nil => rfl
    | cons d rest =>
      have hd : ¬ p d = true := by
        rw [hrest d rfl]
        exact Bool.false_ne_true
      exact List.takeWhile_cons_of_neg hd
  rw [List.takeWhile_append_of_pos hcs, hstop, List.append_nil]

/-- A word is read up to the first character that does not continue it. -/
theorem lexeme_word (hc : isWordStart c = true) (hcs : cs.all isWordPart = true)
    (hrest : ∀ d ∈ rest.head?, isWordPart d = false) :
    lexeme c (cs ++ rest) = (.ofWord (String.ofList (c :: cs)), cs.length) := by
  rw [lexeme, if_pos hc, takeWhile_append_of_head? (List.all_eq_true.mp hcs) hrest]

/-- A number is read up to the first character that is not a digit. -/
theorem lexeme_digits (hc : c.isDigit = true) (hcs : ∀ x ∈ cs, x.isDigit = true)
    (hrest : ∀ d ∈ rest.head?, d.isDigit = false) :
    lexeme c (cs ++ rest) = (.intLit (String.ofList (c :: cs)), cs.length) := by
  have hstart : ¬ isWordStart c = true := by
    rw [isWordStart_of_isDigit hc]
    exact Bool.false_ne_true
  rw [lexeme, if_neg hstart, if_pos hc, takeWhile_append_of_head? hcs hrest]

/-- A reserved word is a word. -/
theorem Keyword.exists_text_eq (word : Keyword) :
    ∃ c cs, word.text.toList = c :: cs ∧ isWordStart c = true ∧ cs.all isWordPart = true := by
  cases word <;> exact ⟨_, _, rfl, by decide, by decide⟩

/-- A sign is read whatever comes behind it. -/
theorem Symbol.exists_text_eq (sign : Symbol) :
    ∃ c cs, sign.text.toList = c :: cs ∧ ∀ rest : List Char,
      startsFiller (c :: (cs ++ rest)) = false ∧
        lexeme c (cs ++ rest) = (.symbol sign, cs.length) := by
  cases sign <;> exact ⟨_, _, rfl, fun rest => ⟨rfl, rfl⟩⟩

theorem Symbol.text_of_ofChar? {sign : Symbol} (h : ofChar? c = some sign) :
    sign.text.toList = [c] := by
  unfold ofChar? at h
  split at h <;> cases h <;> rfl

/-- A character that starts nothing is read as an unknown one. -/
theorem lexeme_unknown (hword : isWordStart c = false) (hdigit : c.isDigit = false)
    (hsign : ∀ sign : Symbol, ¬ sign.text.toList <+: c :: rest) :
    lexeme c rest = (.unknown c, 0) := by
  have hand : ¬ (c = '&' ∧ rest.head? = some '&') := by
    rintro ⟨rfl, hhead⟩
    obtain ⟨rest, rfl⟩ := List.head?_eq_some_iff.mp hhead
    exact hsign .andAnd ⟨rest, rfl⟩
  have hnone : Symbol.ofChar? c = none := by
    cases hchar : Symbol.ofChar? c with
    | none => rfl
    | some sign => exact absurd ⟨rest, by rw [Symbol.text_of_ofChar? hchar]; rfl⟩ (hsign sign)
  simp only [lexeme, hword, hdigit, hand, hnone, if_false, Bool.false_eq_true]

/-- A kind that can stand before some characters is read from its spelling before them. -/
theorem lexeme_spelling {k : Token.Kind} (h : k.StandsBefore rest) :
    ∃ c cs, k.spelling.toList = c :: cs ∧ startsFiller (c :: (cs ++ rest)) = false ∧
      lexeme c (cs ++ rest) = (k, cs.length) := by
  cases k with
  | keyword word =>
    obtain ⟨c, cs, htext, hc, hcs⟩ := word.exists_text_eq
    refine ⟨c, cs, htext, startsFiller_of_isWordPart (isWordPart_of_isWordStart hc), ?_⟩
    rw [lexeme_word hc hcs h, ← htext, String.ofList_toList, Token.Kind.ofWord,
      Keyword.ofText?_text]
  | ident name =>
    obtain ⟨hname, hrest⟩ := h
    unfold isIdentName at hname
    cases htext : name.toList with
    | nil => simp [htext] at hname
    | cons c cs =>
      simp only [htext, Bool.and_eq_true, Option.isNone_iff_eq_none] at hname
      obtain ⟨⟨hc, hcs⟩, hword⟩ := hname
      refine ⟨c, cs, htext, startsFiller_of_isWordPart (isWordPart_of_isWordStart hc), ?_⟩
      rw [lexeme_word hc hcs hrest, ← htext, String.ofList_toList, Token.Kind.ofWord, hword]
  | intLit digits =>
    obtain ⟨hne, hdigits, hrest⟩ := h
    obtain ⟨c, cs, htext⟩ := List.exists_cons_of_ne_nil hne
    rw [htext] at hdigits
    obtain ⟨hc, hcs⟩ := List.forall_mem_cons.mp hdigits
    refine ⟨c, cs, htext, startsFiller_of_isWordPart (isWordPart_of_isDigit hc), ?_⟩
    rw [lexeme_digits hc hcs hrest, ← htext, String.ofList_toList]
  | symbol sign =>
    obtain ⟨c, cs, htext, hread⟩ := sign.exists_text_eq
    exact ⟨c, cs, htext, hread rest⟩
  | eof => exact h.elim
  | unknown char =>
    obtain ⟨hfiller, hword, hdigit, hsign⟩ := h
    refine ⟨char, [], by simp [Token.Kind.spelling], hfiller, ?_⟩
    exact lexeme_unknown hword hdigit hsign

/-! ### Every place has a token -/

theorem spelling_ofWord (word : String) : (Token.Kind.ofWord word).spelling = word := by
  unfold Token.Kind.ofWord
  cases hk : Keyword.ofText? word with
  | none => rfl
  | some k => exact Keyword.text_eq_of_ofText? hk

theorem head?_dropWhile {p : Char → Bool} {cs : List Char} :
    ∀ d ∈ (cs.dropWhile p).head?, p d = false := by
  intro d hd
  have hnot := List.head?_dropWhile_not p cs
  rw [Option.mem_def] at hd
  rwa [hd] at hnot

/-- Where no filler starts, the token of some kind stands. -/
theorem exists_kind (h : startsFiller (c :: cs) = false) :
    ∃ (k : Token.Kind) (rest : List Char),
      c :: cs = k.spelling.toList ++ rest ∧ k.StandsBefore rest := by
  by_cases hword : isWordStart c = true
  · refine ⟨.ofWord (String.ofList (c :: cs.takeWhile isWordPart)), cs.dropWhile isWordPart, ?_, ?_⟩
    · rw [spelling_ofWord, String.toList_ofList, List.cons_append,
        List.takeWhile_append_dropWhile]
    · have hlexical := Token.Kind.lexical_ofWord hword (List.all_takeWhile (l := cs))
      unfold Token.Kind.ofWord at hlexical ⊢
      cases hk : Keyword.ofText? (String.ofList (c :: cs.takeWhile isWordPart)) with
      | some k => exact head?_dropWhile
      | none =>
        rw [hk] at hlexical
        exact ⟨hlexical, head?_dropWhile⟩
  rw [Bool.not_eq_true] at hword
  by_cases hdigit : c.isDigit = true
  · refine ⟨.intLit (String.ofList (c :: cs.takeWhile Char.isDigit)), cs.dropWhile Char.isDigit,
      ?_, ?_, ?_, head?_dropWhile⟩
    · rw [Token.Kind.spelling, String.toList_ofList, List.cons_append,
        List.takeWhile_append_dropWhile]
    · rw [String.toList_ofList]
      exact List.cons_ne_nil _ _
    · rw [String.toList_ofList, List.forall_mem_cons]
      exact ⟨hdigit, List.all_eq_true.mp List.all_takeWhile⟩
  rw [Bool.not_eq_true] at hdigit
  by_cases hsign : ∃ sign : Symbol, sign.text.toList <+: c :: cs
  · obtain ⟨sign, rest, hrest⟩ := hsign
    exact ⟨.symbol sign, rest, hrest.symm, trivial⟩
  · rw [not_exists] at hsign
    exact ⟨.unknown c, cs, by simp [Token.Kind.spelling], h, hword, hdigit, hsign⟩

/-! ### One step of the scanner -/

namespace Scanner

/-- The filler in front of a token is passed over, and the token is read. -/
theorem next_of_filler {gap rest : List Char} {k : Token.Kind} (hgap : Filler gap)
    (hk : k.StandsBefore rest) (file offset : Nat) :
    next ⟨file, offset, gap ++ (k.spelling.toList ++ rest)⟩ =
      (⟨k, ⟨offset + gap.length, offset + gap.length + k.spelling.length, file⟩⟩,
        ⟨file, offset + gap.length + k.spelling.length, rest⟩) := by
  obtain ⟨c, cs, htext, hfiller, hread⟩ := lexeme_spelling hk
  have hlength : k.spelling.length = 1 + cs.length := by
    rw [← String.length_toList, htext, List.length_cons, Nat.add_comm]
  have hskip : Gap.blank.length (gap ++ c :: (cs ++ rest)) = gap.length := by
    rw [hgap.length_append, Gap.blank_length_eq_zero hfiller, Nat.add_zero]
  unfold next
  simp only [htext, List.cons_append, hskip, List.drop_left, hread, hlength, Nat.add_assoc]

/-- At the last filler the end mark is read. -/
theorem next_of_lastFiller {gap : List Char} (h : LastFiller gap) (file offset : Nat) :
    next ⟨file, offset, gap⟩ =
      (⟨.eof, ⟨offset + gap.length, offset + gap.length, file⟩⟩,
        ⟨file, offset + gap.length, []⟩) := by
  unfold next
  simp only [h.length, List.drop_length]

end Scanner

end

end MiniJava
