import MiniJava.Layout
import MiniJava.Proofs.Naturality
import MiniJava.Proofs.ProgramRuns
import MiniJava.Proofs.RoundTrip

/-!
# Formatting

What comes of a text depends on the kinds of its tokens only. Blanks and comments, the places of the
tokens and the number of the file show in the spans of trees and errors, and nowhere else.
-/

namespace MiniJava

/-- The same comes of two texts, apart from spans. -/
inductive SameOutcome (text : String) (file : Nat) (text' : String) (file' : Nat) : Prop
  /-- Neither is a program, and they have the same fault at the same one of their tokens. -/
  | form (k : Nat) (t t' : Token) (fault : SyntaxFault)
    (token : (tokenize text file)[k]? = some t) (token' : (tokenize text' file')[k]? = some t')
    (error : Program.parse text file = .error ⟨fault, t.span⟩)
    (error' : Program.parse text' file' = .error ⟨fault, t'.span⟩)
  /-- Both are programs, they are the same up to spans, and so is what their analysis finds and
  logs. -/
  | meaning (p p' : Program)
    (parse : Program.parse text file = .ok p) (parse' : Program.parse text' file' = .ok p')
    (tree : p.eraseSpans = p'.eraseSpans)
    (declare : p.declare.log = p'.declare.log ∧ SameUpToSpan p.declare.result p'.declare.result)
    (check : ∀ t, (p.check t).log = (p'.check t).log ∧
      SameUpToSpan (p.check t).result (p'.check t).result)
    (analyze : p.analyze.log = p'.analyze.log ∧ SameUpToSpan p.analyze.result p'.analyze.result)
    (layouts : SameUpToSpan (p.analyze.result.map SymbolTable.layouts)
      (p'.analyze.result.map SymbolTable.layouts))

theorem SameUpToSpan.map {α β : Type} {r r' : Except SemanticError α} (h : SameUpToSpan r r')
    (f : α → β) : SameUpToSpan (r.map f) (r'.map f) := by
  cases h with
  | ok a => exact .ok (f a)
  | error fault a b => exact .error fault a b

/-- A text with the kinds of a program is the same program. -/
theorem Program.parse_of_kinds_eq {text text' : String} {file file' : Nat} {p : Program}
    (hp : Program.parse text file = .ok p)
    (h : (tokenize text file).map Token.kind = (tokenize text' file').map Token.kind) :
    ∃ p', Program.parse text' file' = .ok p' ∧ p.eraseSpans = p'.eraseSpans := by
  obtain ⟨hwf, hkinds⟩ := Program.written_of_parse hp
  rw [h] at hkinds
  obtain ⟨p', hp', htree⟩ := Program.parse_of_written hwf hkinds
  exact ⟨p', hp', htree.symm⟩

/-- **Formatting does not matter.** The same comes of two texts whose tokens are of the same kinds,
whatever stands between the tokens and whichever files the texts are. -/
theorem formatting_irrelevant (text text' : String) (file file' : Nat)
    (h : (tokenize text file).map Token.kind = (tokenize text' file').map Token.kind) :
    SameOutcome text file text' file' := by
  cases hparse : Program.parse text file with
  | error e =>
    obtain ⟨k, t, ht, hspan, -, hrun⟩ := Program.parse_eq_error hparse
    have hagree (i : Nat) (_ : i < k + 2) :
        (tokenize text' file')[i]?.map Token.kind = (tokenize text file)[i]?.map Token.kind := by
      rw [← List.getElem?_map, ← List.getElem?_map, h]
    obtain ⟨t', ht', herror⟩ := hrun text' file' hagree
    refine .form k t t' e.fault ht ht' ?_ herror
    rw [hparse, ← hspan]
  | ok p =>
    obtain ⟨p', hp', htree⟩ := Program.parse_of_kinds_eq hparse h
    have hanalyze := Program.analyze_eraseSpans htree
    exact .meaning p p' hparse hp' htree (Program.declare_eraseSpans htree)
      (Program.check_eraseSpans htree) hanalyze (hanalyze.2.map SymbolTable.layouts)

/-- A program in one line. -/
def denseText : String :=
  "class A\x7bpublic static void main(String[] b)\x7b\x7d\x7d"

/-- The program of `denseText` with blanks and a comment. -/
def looseText : String :=
  "class A // the program\n\x7b public static void main (String [] b) \x7b\x7d \x7d"

theorem formatting_irrelevant_loose :
    (tokenize denseText 0).map Token.kind = (tokenize looseText 1).map Token.kind ∧
      SameOutcome denseText 0 looseText 1 := by
  have h : (tokenize denseText 0).map Token.kind = (tokenize looseText 1).map Token.kind := by
    decide +kernel
  exact ⟨h, formatting_irrelevant _ _ _ _ h⟩

end MiniJava
