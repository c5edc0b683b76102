import MiniJava.Token.Lexer
import Mathlib.Data.List.Infix

/-!
# What stands between tokens

* A `Filler` is made of blanks and closed comments. A `LastFiller` may end with a comment that the
  end of the text cuts off.
* The scan between two tokens passes over a filler and no further (`Filler.length_append`,
  `Gap.blank_length_eq_zero`), and over all of a last filler (`LastFiller.length`).
* Every text is a last filler, or a filler before something else (`exists_filler_append`).
-/

namespace MiniJava

/-- Blanks and comments, in any order. A line comment ends with the first line feed, a block comment
with the first `*/`. -/
inductive Filler : List Char → Prop
  | nil : Filler []
  | blank {c : Char} {cs : List Char} : isBlank c = true → Filler cs → Filler (c :: cs)
  | line {body cs : List Char} : '\n' ∉ body → Filler cs →
      Filler ('/' :: '/' :: (body ++ '\n' :: cs))
  | block {body cs : List Char} : ¬ ['*', '/'] <:+: body → Filler cs →
      Filler ('/' :: '*' :: (body ++ '*' :: '/' :: cs))

/-- Blanks and comments that end a text; the last comment may be open. -/
inductive LastFiller : List Char → Prop
  | closed {cs : List Char} : Filler cs → LastFiller cs
  | line {cs body : List Char} : Filler cs → '\n' ∉ body → LastFiller (cs ++ '/' :: '/' :: body)
  | block {cs body : List Char} : Filler cs → ¬ ['*', '/'] <:+: body →
      LastFiller (cs ++ '/' :: '*' :: body)

/-- Whether the characters start with a blank or a comment. -/
def startsFiller : List Char → Bool
  | '/' :: '/' :: _ | '/' :: '*' :: _ => true
  | c :: _ => isBlank c
  | [] => false

section

variable {c : Char} {cs body rest gap : List Char}

theorem startsFiller_cons (h : c ≠ '/') : startsFiller (c :: cs) = isBlank c := by
  unfold startsFiller
  split
  · rename_i heq
    exact absurd (List.cons.inj heq).1 h
  · rename_i heq
    exact absurd (List.cons.inj heq).1 h
  · rename_i heq
    rw [(List.cons.inj heq).1]
  · rename_i heq
    cases heq

theorem ne_slash_of_isBlank (h : isBlank c = true) : c ≠ '/' := by
  rintro rfl
  exact absurd h (by decide)

/-! ### The scan over a filler -/

theorem Gap.blank_length_cons (h : c ≠ '/') :
    Gap.blank.length (c :: cs) = if isBlank c = true then Gap.blank.length cs + 1 else 0 := by
  rw [Gap.length]
  · rintro _ rfl
    exact absurd rfl h
  · rintro _ rfl
    exact absurd rfl h

theorem Gap.blank_length_eq_zero (h : startsFiller cs = false) : Gap.blank.length cs = 0 := by
  unfold startsFiller at h
  split at h
  · cases h
  · cases h
  · rename_i c cs hline hblock
    rw [Gap.length, h]
    · rfl
    · exact hline
    · exact hblock
  · rfl

theorem Gap.line_length_append (h : '\n' ∉ body) :
    Gap.line.length (body ++ rest) = body.length + Gap.line.length rest := by
  induction body with
  | nil => rw [List.nil_append, List.length_nil, Nat.zero_add]
  | cons d body ih =>
    obtain ⟨hd, hbody⟩ := List.ne_and_not_mem_of_not_mem_cons h
    rw [List.cons_append, Gap.length, if_neg hd.symm, ih hbody, List.length_cons]
    omega

/-- A body without `*/` is passed over, unless it ends in the middle of one. -/
theorem Gap.block_length_append (h : ¬ ['*', '/'] <:+: body) (hrest : rest.head? ≠ some '/') :
    Gap.block.length (body ++ rest) = body.length + Gap.block.length rest := by
  induction body with
  | nil => rw [List.nil_append, List.length_nil, Nat.zero_add]
  | cons d body ih =>
    rw [List.infix_cons_iff, not_or] at h
    have hclose (more : List Char) (hd : d = '*') (heq : body ++ rest = '/' :: more) : False := by
      subst hd
      cases body with
      | nil => exact hrest (by rw [← List.nil_append rest, heq]; rfl)
      | cons e body =>
        obtain ⟨rfl, -⟩ := List.cons.inj heq
        exact h.1 ⟨body, rfl⟩
    rw [List.cons_append, Gap.length, ih h.2, List.length_cons]
    · omega
    · exact hclose

/-- A filler is passed over, and the scan goes on behind it. -/
theorem Filler.length_append (h : Filler gap) (rest : List Char) :
    Gap.blank.length (gap ++ rest) = gap.length + Gap.blank.length rest := by
  induction h with
  | nil => rw [List.nil_append, List.length_nil, Nat.zero_add]
  | blank hc _ ih =>
    rw [List.cons_append, Gap.blank_length_cons (ne_slash_of_isBlank hc), if_pos hc, ih,
      List.length_cons]
    omega
  | line hbody _ ih =>
    simp only [List.cons_append, List.append_assoc, Gap.length, Gap.line_length_append hbody,
      if_true, ih, List.length_cons, List.length_append]
    omega
  | block hbody _ ih =>
    simp only [List.cons_append, List.append_assoc, Gap.length]
    rw [Gap.block_length_append hbody (by simp), Gap.length, ih]
    simp only [List.length_cons, List.length_append]
    omega

/-- All of a last filler is passed over. -/
theorem LastFiller.length (h : LastFiller gap) : Gap.blank.length gap = gap.length := by
  cases h with
  | closed h =>
    have hlength := h.length_append []
    rwa [List.append_nil] at hlength
  | @line cs body h hbody =>
    have hline : Gap.line.length body = body.length := by
      rw [← List.append_nil body, Gap.line_length_append hbody]
      simp [Gap.length]
    rw [h.length_append, Gap.length, hline, List.length_append]
    rfl
  | @block cs body h hbody =>
    have hblock : Gap.block.length body = body.length := by
      rw [← List.append_nil body, Gap.block_length_append hbody (by simp)]
      simp [Gap.length]
    rw [h.length_append, Gap.length, hblock, List.length_append]
    rfl

/-! ### Fillers at the front of a text -/

theorem Filler.append (h : Filler gap) (h' : Filler cs) : Filler (gap ++ cs) := by
  induction h with
  | nil => exact h'
  | blank hc _ ih => exact .blank hc ih
  | line hbody _ ih =>
    simp only [List.cons_append, List.append_assoc]
    exact .line hbody ih
  | block hbody _ ih =>
    simp only [List.cons_append, List.append_assoc]
    exact .block hbody ih

theorem LastFiller.append (h : Filler gap) (h' : LastFiller cs) : LastFiller (gap ++ cs) := by
  cases h' with
  | closed h' => exact .closed (h.append h')
  | line h' hbody =>
    rw [← List.append_assoc]
    exact .line (h.append h') hbody
  | block h' hbody =>
    rw [← List.append_assoc]
    exact .block (h.append h') hbody

/-- Characters that hold a `*/` hold a first one. -/
theorem exists_first_close (cs : List Char) : ¬ ['*', '/'] <:+: cs ∨
    ∃ body rest, cs = body ++ '*' :: '/' :: rest ∧ ¬ ['*', '/'] <:+: body := by
  induction cs with
  | nil => exact .inl (by simp)
  | cons c cs ih =>
    by_cases hclose : ['*', '/'] <+: c :: cs
    · obtain ⟨rest, hrest⟩ := hclose
      exact .inr ⟨[], rest, hrest.symm, by simp⟩
    rcases ih with hnone | ⟨body, rest, rfl, hbody⟩
    · refine .inl ?_
      rw [List.infix_cons_iff, not_or]
      exact ⟨hclose, hnone⟩
    · refine .inr ⟨c :: body, rest, rfl, ?_⟩
      rw [List.infix_cons_iff, not_or]
      refine ⟨?_, hbody⟩
      intro hfirst
      exact hclose (hfirst.trans ⟨'*' :: '/' :: rest, rfl⟩)

/-- What starts like a filler starts with a blank or a closed comment, or is an open comment. -/
theorem exists_filler_of_startsFiller (h : startsFiller cs = true) :
    LastFiller cs ∨ ∃ gap rest, cs = gap ++ rest ∧ Filler gap ∧ gap ≠ [] := by
  unfold startsFiller at h
  split at h
  · rename_i cs
    by_cases hend : '\n' ∈ cs
    · obtain ⟨body, rest, rfl, hbody⟩ := List.eq_append_cons_of_mem hend
      exact .inr ⟨_, rest, by simp, .line hbody .nil, List.cons_ne_nil _ _⟩
    · exact .inl (.line .nil hend)
  · rename_i cs
    rcases exists_first_close cs with hopen | ⟨body, rest, rfl, hbody⟩
    · exact .inl (.block .nil hopen)
    · exact .inr ⟨_, rest, by simp, .block hbody .nil, List.cons_ne_nil _ _⟩
  · rename_i c cs _ _
    exact .inr ⟨[c], cs, rfl, .blank h .nil, List.cons_ne_nil _ _⟩
  · cases h

/-- A text ends within its first filler, or something else comes behind it. -/
theorem exists_filler_append (cs : List Char) : LastFiller cs ∨
    ∃ gap c rest, cs = gap ++ c :: rest ∧ Filler gap ∧ startsFiller (c :: rest) = false := by
  match hfiller : startsFiller cs with
  | false =>
    cases cs with
    | nil => exact .inl (.closed .nil)
    | cons c rest => exact .inr ⟨[], c, rest, rfl, .nil, hfiller⟩
  | true =>
    rcases exists_filler_of_startsFiller hfiller with hlast | ⟨gap, rest, heq, hgap, hne⟩
    · exact .inl hlast
    have hshorter : rest.length < cs.length := by
      have hpos := List.length_pos_iff.mpr hne
      rw [heq, List.length_append]
      omega
    rcases exists_filler_append rest with hlast | ⟨gap', c, rest', hrest, hgap', hstart⟩
    · exact .inl (heq ▸ .append hgap hlast)
    · exact .inr ⟨gap ++ gap', c, rest', by rw [heq, hrest, List.append_assoc],
        hgap.append hgap', hstart⟩
termination_by cs.length

end

end MiniJava
