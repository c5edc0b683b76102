import MiniJava.Span

/-!
# Positions as a code for offsets

A line and a column name a place of a text as well as an offset does.

* `Position.ofOffset_eq`: they count the line feeds before the place, and the characters behind the
  last of these.
* `Position.ofOffset_before`: a later offset has a later position.
* `Position.offset?_ofOffset`: the lines of the text lead from the position back to the offset.
-/

namespace MiniJava

namespace Position

/-- On an earlier line, or further left on the same line. -/
def Before (p q : Position) : Prop :=
  p.line < q.line ∨ p.line = q.line ∧ p.column < q.column

/-- The offset of a position in the text with these lines: the characters of the lines before it,
each with its line feed, and the characters to its left. A position lies on one of the lines, and at
most directly behind its last character. -/
def offset? : List (List Char) → Position → Option Nat
  | [], _ => none
  | line :: lines, p =>
    if p.line = 1 then
      if 1 ≤ p.column ∧ p.column ≤ line.length + 1 then some (p.column - 1) else none
    else
      (offset? lines ⟨p.line - 1, p.column⟩).map (line.length + 1 + ·)

/-! ### One character after the other -/

theorem Before.trans {p q r : Position} (hpq : p.Before q) (hqr : q.Before r) : p.Before r := by
  unfold Before at *
  omega

theorem Before.ne {p q : Position} (h : p.Before q) : p ≠ q := by
  rintro rfl
  unfold Before at h
  omega

theorem before_advance (p : Position) (c : Char) : p.Before (p.advance c) := by
  by_cases hc : c = '\n'
  · rw [hc, advance_newline]
    exact .inl (Nat.lt_succ_self p.line)
  · rw [advance_of_ne hc]
    exact .inr ⟨rfl, Nat.lt_succ_self p.column⟩

variable (text : String)

theorem ofOffset_succ {i : Nat} (h : i < text.toList.length) :
    ofOffset text (i + 1) = (ofOffset text i).advance text.toList[i] := by
  rw [ofOffset, ofOffset, List.take_succ_eq_append_getElem h, List.foldl_append]
  rfl

/-- The line counts the line feeds before an offset, the column the characters behind the last of
them. -/
theorem ofOffset_eq {i : Nat} (h : i ≤ text.toList.length) :
    ofOffset text i = ⟨1 + (text.toList.take i).count '\n',
      1 + ((text.toList.take i).reverse.takeWhile (· != '\n')).length⟩ := by
  induction i with
  | zero => simp [first]
  | succ i ih =>
    rw [ofOffset_succ text h, ih (Nat.le_of_succ_le h), List.take_succ_eq_append_getElem h,
      List.count_append, List.reverse_append, List.reverse_singleton, List.singleton_append,
      List.takeWhile_cons]
    by_cases hc : text.toList[i] = '\n'
    · rw [hc, advance_newline]
      rfl
    · rw [advance_of_ne hc, List.count_singleton, if_neg (mt beq_iff_eq.mp hc),
        if_pos (bne_iff_ne.mpr hc)]
      rfl

/-- A later offset has a later position. -/
theorem ofOffset_before {i j : Nat} (h : i < j) (hj : j ≤ text.toList.length) :
    (ofOffset text i).Before (ofOffset text j) := by
  induction j with
  | zero => omega
  | succ j ih =>
    rw [ofOffset_succ text hj]
    rcases Nat.lt_succ_iff_lt_or_eq.mp h with hlt | rfl
    · exact (ih hlt (Nat.le_of_succ_le hj)).trans (before_advance _ _)
    · exact before_advance _ _

/-- Behind the end of a text there are no further positions. -/
theorem ofOffset_of_length_le {i : Nat} (h : text.toList.length ≤ i) :
    ofOffset text i = ofOffset text text.toList.length := by
  rw [ofOffset, ofOffset, List.take_of_length_le h, List.take_length]

/-! ### One character in front -/

/-- Lines and columns are counted from one. -/
def Counted (p : Position) : Prop :=
  1 ≤ p.line ∧ 1 ≤ p.column

theorem Counted.advance {p : Position} (hp : p.Counted) (c : Char) : (p.advance c).Counted := by
  by_cases hc : c = '\n'
  · rw [hc, advance_newline]
    exact ⟨Nat.le_add_left 1 p.line, Nat.le_refl 1⟩
  · rw [advance_of_ne hc]
    exact ⟨hp.1, Nat.le_add_left 1 p.column⟩

theorem Counted.foldl_advance {p : Position} (hp : p.Counted) (cs : List Char) :
    (cs.foldl Position.advance p).Counted := by
  induction cs generalizing p with
  | nil => exact hp
  | cons c cs ih => exact ih (hp.advance c)

theorem counted_first : first.Counted :=
  ⟨Nat.le_refl 1, Nat.le_refl 1⟩

/-- Where a position of a text moves to when the character `c` is put in front of the text. -/
def behind (c : Char) (p : Position) : Position :=
  if c = '\n' then ⟨p.line + 1, p.column⟩
  else if p.line = 1 then ⟨p.line, p.column + 1⟩
  else p

theorem advance_behind (c d : Char) {p : Position} (hp : p.Counted) :
    (p.behind c).advance d = (p.advance d).behind c := by
  -- behind a line feed the first line is left, and what is in front of it no longer matters
  have hnext : p.line + 1 ≠ 1 := by
    have := hp.1
    omega
  by_cases hd : d = '\n'
  · subst hd
    simp only [behind, advance_newline, hnext, if_false]
    split
    · rfl
    · split <;> rfl
  · simp only [behind, advance_of_ne hd]
    split
    · rfl
    · split <;> rfl

theorem foldl_advance_cons (c : Char) (cs : List Char) :
    (c :: cs).foldl advance first = (cs.foldl advance first).behind c := by
  have hbehind {p : Position} (hp : p.Counted) :
      cs.foldl advance (p.behind c) = (cs.foldl advance p).behind c := by
    induction cs generalizing p with
    | nil => rfl
    | cons d cs ih =>
      rw [List.foldl_cons, List.foldl_cons, advance_behind c d hp]
      exact ih (hp.advance d)
  rw [← hbehind counted_first]
  rfl

/-! ### Back through the lines -/

theorem splitOn_cons_newline (cs : List Char) :
    ('\n' :: cs).splitOn '\n' = [] :: cs.splitOn '\n' := by
  rw [List.splitOn_eq_splitOnP, List.splitOnP_cons_eq_if_modifyHead]
  rfl

theorem exists_splitOn_cons {c : Char} (hc : c ≠ '\n') (cs : List Char) :
    ∃ line lines, cs.splitOn '\n' = line :: lines ∧
      (c :: cs).splitOn '\n' = (c :: line) :: lines := by
  obtain ⟨line, lines, hcs⟩ := List.exists_cons_of_ne_nil (List.splitOn_ne_nil '\n' cs)
  refine ⟨line, lines, hcs, ?_⟩
  rw [List.splitOn_eq_splitOnP, List.splitOnP_cons_eq_if_modifyHead, if_neg (mt beq_iff_eq.mp hc),
    ← List.splitOn_eq_splitOnP, hcs]
  rfl

/-- A character in front of a text moves each place by one. -/
theorem offset?_behind (c : Char) (cs : List Char) {p : Position} (hp : p.Counted) :
    offset? ((c :: cs).splitOn '\n') (p.behind c) =
      (offset? (cs.splitOn '\n') p).map (· + 1) := by
  obtain ⟨hline, hcolumn⟩ := hp
  by_cases hc : c = '\n'
  · have hnext : p.line + 1 ≠ 1 := by omega
    subst hc
    rw [splitOn_cons_newline, behind, if_pos rfl, offset?, if_neg hnext]
    simp [Nat.add_comm]
  · obtain ⟨line, lines, hcs, hccs⟩ := exists_splitOn_cons hc cs
    rw [hcs, hccs, behind, if_neg hc]
    by_cases hfirst : p.line = 1
    · rw [if_pos hfirst, offset?, offset?, if_pos hfirst, if_pos hfirst, List.length_cons]
      by_cases hlast : p.column ≤ line.length + 1
      · rw [if_pos ⟨Nat.le_add_left 1 _, Nat.succ_le_succ hlast⟩, if_pos ⟨hcolumn, hlast⟩,
          Option.map_some, Nat.add_sub_cancel, Nat.sub_add_cancel hcolumn]
      · rw [if_neg (fun h => hlast (Nat.le_of_succ_le_succ h.2)), if_neg (fun h => hlast h.2)]
        rfl
    · rw [if_neg hfirst, offset?, offset?, if_neg hfirst, if_neg hfirst, Option.map_map]
      congr 1
      funext i
      simp only [Function.comp_apply, List.length_cons]
      omega

/-- The lines of a text lead from the position behind its beginning `cs` to the end of `cs`. -/
theorem offset?_foldl_advance (cs rest : List Char) :
    offset? ((cs ++ rest).splitOn '\n') (cs.foldl advance first) = some cs.length := by
  induction cs with
  | nil =>
    obtain ⟨line, lines, hrest⟩ := List.exists_cons_of_ne_nil (List.splitOn_ne_nil '\n' rest)
    rw [List.nil_append, hrest]
    simp [offset?, first]
  | cons c cs ih =>
    rw [foldl_advance_cons, List.cons_append, offset?_behind c _ (counted_first.foldl_advance cs), ih]
    rfl

theorem offset?_ofOffset {i : Nat} (h : i ≤ text.toList.length) :
    offset? (text.toList.splitOn '\n') (ofOffset text i) = some i := by
  have hlines := offset?_foldl_advance (text.toList.take i) (text.toList.drop i)
  rwa [List.take_append_drop, List.length_take, Nat.min_eq_left h] at hlines

/-- The lines, each with a line feed behind it, are the text with a line feed behind it. -/
theorem flatMap_splitOn (cs : List Char) :
    (cs.splitOn '\n').flatMap (· ++ ['\n']) = cs ++ ['\n'] := by
  induction cs with
  | nil => rfl
  | cons c cs ih =>
    by_cases hc : c = '\n'
    · rw [hc, splitOn_cons_newline, List.flatMap_cons, ih]
      rfl
    · obtain ⟨line, lines, hcs, hccs⟩ := exists_splitOn_cons hc cs
      rw [hcs, List.flatMap_cons] at ih
      rw [hccs, List.flatMap_cons, List.cons_append, List.cons_append, ih]
      rfl

/-- The character at an offset is the one that stands at its position in the lines. -/
theorem getElem?_of_offset? {lines : List (List Char)} {p : Position} (hp : p.Counted) {i : Nat}
    (h : offset? lines p = some i) :
    ∃ line, lines[p.line - 1]? = some line ∧
      (line ++ ['\n'])[p.column - 1]? = (lines.flatMap (· ++ ['\n']))[i]? := by
  induction lines generalizing p i with
  | nil => cases h
  | cons line lines ih =>
    rw [offset?] at h
    by_cases hfirst : p.line = 1
    · rw [if_pos hfirst] at h
      by_cases hcolumn : 1 ≤ p.column ∧ p.column ≤ line.length + 1
      · rw [if_pos hcolumn, Option.some.injEq] at h
        have hlt : i < (line ++ ['\n']).length := by
          rw [List.length_append, List.length_singleton]
          omega
        refine ⟨line, by rw [hfirst]; rfl, ?_⟩
        rw [h, List.flatMap_cons, List.getElem?_append_left hlt]
      · rw [if_neg hcolumn] at h
        cases h
    · rw [if_neg hfirst] at h
      obtain ⟨k, hk, rfl⟩ := Option.map_eq_some_iff.mp h
      have hline : 1 ≤ p.line - 1 := by
        have := hp.1
        omega
      obtain ⟨own, hown, hchar⟩ := ih (p := ⟨p.line - 1, p.column⟩) ⟨hline, hp.2⟩ hk
      refine ⟨own, ?_, ?_⟩
      · rw [← Nat.sub_add_cancel hline, List.getElem?_cons_succ]
        exact hown
      · have hlength : line.length + 1 = (line ++ ['\n']).length := by
          rw [List.length_append, List.length_singleton]
        rw [hchar, List.flatMap_cons, hlength, List.getElem?_append_right (Nat.le_add_right _ _),
          Nat.add_sub_cancel_left]

end Position

/-- **Positions code offsets.** Up to the end of a text, the line of an offset is one more than the
number of line feeds before it, and the column one more than the number of characters behind the last
of these, or behind the beginning of the text. Later offsets have later positions, line before
column, so that no two of them share one. The lines of the text, which line feeds separate, lead
from a position back to its offset, and to the character there (the last line is given a line feed
as well, for the offset behind the last character). All offsets behind the end have the position of
the end. -/
theorem positions_code_offsets (text : String) :
    (∀ a : Span, a.start ≤ text.length →
      a.position text = ⟨1 + (text.toList.take a.start).count '\n',
        1 + ((text.toList.take a.start).reverse.takeWhile (· != '\n')).length⟩) ∧
    (∀ a b : Span, a.start < b.start → b.start ≤ text.length →
      (a.position text).Before (b.position text)) ∧
    (∀ a b : Span, a.start ≤ text.length → b.start ≤ text.length → a.start ≠ b.start →
      a.position text ≠ b.position text) ∧
    (∀ a : Span, a.start ≤ text.length →
      Position.offset? (text.toList.splitOn '\n') (a.position text) = some a.start ∧
      ∃ line, (text.toList.splitOn '\n')[(a.position text).line - 1]? = some line ∧
        (line ++ ['\n'])[(a.position text).column - 1]? = (text.toList ++ ['\n'])[a.start]?) ∧
    ∀ a b : Span, text.length < a.start → b.start = text.length →
      a.position text = b.position text := by
  simp only [← String.length_toList]
  refine ⟨fun a ha => Position.ofOffset_eq text ha,
    fun a b hab hb => Position.ofOffset_before text hab hb, fun a b ha hb hne => ?_,
    fun a ha => ⟨Position.offset?_ofOffset text ha, ?_⟩, fun a b ha hb => ?_⟩
  · rcases Nat.lt_or_gt_of_ne hne with hlt | hgt
    · exact (Position.ofOffset_before text hlt hb).ne
    · exact (Position.ofOffset_before text hgt ha).ne.symm
  · rw [← Position.flatMap_splitOn]
    exact Position.getElem?_of_offset? (Position.counted_first.foldl_advance _)
      (Position.offset?_ofOffset text ha)
  · rw [Span.position, Span.position, hb]
    exact Position.ofOffset_of_length_le text (Nat.le_of_lt ha)

/-- A text with an empty line, and with a line feed at its end. -/
def raggedText : String := "ab\n\nc\n"

theorem positions_code_offsets_ragged :
    raggedText.length = 6 ∧
      ((List.range 8).map fun i => (Span.mk i i 0).position raggedText) =
        [⟨1, 1⟩, ⟨1, 2⟩, ⟨1, 3⟩, ⟨2, 1⟩, ⟨3, 1⟩, ⟨3, 2⟩, ⟨4, 1⟩, ⟨4, 1⟩] ∧
      raggedText.toList.splitOn '\n' = [['a', 'b'], [], ['c'], []] ∧
      Position.offset? (raggedText.toList.splitOn '\n') ((Span.mk 3 4 0).position raggedText) =
        some 3 ∧
      ((Span.mk 3 4 0).position raggedText).Before ((Span.mk 4 5 0).position raggedText) := by
  obtain ⟨-, hbefore, -, hback, -⟩ := positions_code_offsets raggedText
  have hlength : raggedText.length = 6 := rfl
  exact ⟨hlength, by decide, by decide, (hback ⟨3, 4, 0⟩ (by decide)).1,
    hbefore ⟨3, 4, 0⟩ ⟨4, 5, 0⟩ (by decide) (by decide)⟩

end MiniJava
