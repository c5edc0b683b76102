import MiniJava.Proofs.ProgramRuns
import MiniJava.Proofs.RoundTrip
import MiniJava.Proofs.Typesetting

/-!
# Where errors of form stand

A text that is no program has its error at a token that is wrong: the tokens before it begin a
program, which is shown by a text that goes on in another way, and no text with the same tokens up
to the next one is a program.
-/

namespace MiniJava

/-- Tokens that begin a program also begin the tokens of a text that is one. -/
theorem Viable.exists_parse {ts : List Token} (h : Viable (wordsOf Program.ReadFrom) ts)
    (hts : AllLexical ts) (file : Nat) :
    ∃ text p, Program.parse text file = .ok p ∧
      ts.map Token.kind <+: (tokenize text file).map Token.kind := by
  obtain ⟨us, hus, p, hp⟩ := h
  have hlex : AllLexical (ts ++ us) := allLexical_append.mpr ⟨hts, hus⟩
  have hadm : AllAdmissible (ts ++ us) := hp.allAdmissible
  have hkinds : (tokenize (spell ((ts ++ us).map Token.kind)) file).map Token.kind =
      (ts ++ us).map Token.kind ++ [.eof] := by
    refine kinds_tokenize_spell (fun k hk => ?_) file
    obtain ⟨t, ht, rfl⟩ := List.mem_map.mp hk
    have hkind := hadm t ht
    refine ⟨hlex t ht, ?_, ?_⟩
    · intro heof
      rw [heof] at hkind
      cases hkind
    · intro char hchar
      rw [hchar] at hkind
      cases hkind
  have hcanonical : canonicalKinds (tokenize (spell ((ts ++ us).map Token.kind)) file) =
      p.kinds ++ [.eof] := by
    rw [canonicalKinds_eq_map, hkinds, List.map_append, ← canonicalKinds_eq_map, hp.kinds_eq]
    rfl
  obtain ⟨q, hq, -⟩ := Program.parse_of_canonicalKinds (hp.wellFormed hlex) hcanonical
  refine ⟨_, q, hq, ?_⟩
  rw [hkinds, List.map_append, List.append_assoc]
  exact List.prefix_append _ _

/-- The end mark, and no other token, has nothing behind it. -/
theorem getElem?_tokenize_succ_eq_none_iff {text : String} {file k : Nat} {t : Token}
    (h : (tokenize text file)[k]? = some t) :
    (tokenize text file)[k + 1]? = none ↔ t.kind = .eof := by
  obtain ⟨words, mark, htokens, hmark, hwords⟩ := tokenize_shape text file
  rw [htokens] at h ⊢
  rw [List.getElem?_eq_none_iff, List.length_append, List.length_singleton]
  by_cases hk : k < words.length
  · rw [List.getElem?_append_left hk] at h
    have hkind := (hwords t (List.mem_of_getElem? h)).1
    constructor
    · omega
    · exact fun heof => absurd heof hkind
  · obtain ⟨hlt, -⟩ := List.getElem?_eq_some_iff.mp h
    rw [List.length_append, List.length_singleton] at hlt
    obtain rfl : k = words.length := by omega
    rw [List.getElem?_concat_length, Option.some.injEq] at h
    subst h
    exact ⟨fun _ => hmark, fun _ => Nat.le_refl _⟩

/-- Texts with the same tokens up to some place have tokens of the same kinds up to there, also
where one of them ends. -/
theorem kinds_eq_of_agree {text text' : String} {file file' k : Nat} {t : Token}
    (ht : (tokenize text file)[k]? = some t)
    (h : ∀ i ≤ k + 1, ∀ u, (tokenize text file)[i]? = some u →
      (tokenize text' file')[i]? = some u) :
    ∀ i < k + 2,
      (tokenize text' file')[i]?.map Token.kind = (tokenize text file)[i]?.map Token.kind := by
  intro i hi
  cases hu : (tokenize text file)[i]? with
  | some u => rw [h i (by omega) u hu]
  | none =>
    -- the text ends with the end mark at `k`, and then so does the other one
    have hlt : k < (tokenize text file).length := (List.getElem?_eq_some_iff.mp ht).1
    have hle : (tokenize text file).length ≤ i := List.getElem?_eq_none_iff.mp hu
    obtain rfl : i = k + 1 := by omega
    have heof := (getElem?_tokenize_succ_eq_none_iff ht).mp hu
    rw [(getElem?_tokenize_succ_eq_none_iff (h k (by omega) t ht)).mpr heof]

/-- **Errors of form stand at the right token.** If a text is no program, its error stands at a
token of it. This is never too late: the tokens before it are of the kinds with which some program
begins. And it is at most one token early: each text that has the same tokens up to the one behind
it, or up to this one if it is the end mark, has the same error. -/
theorem syntax_errors_well_placed (text : String) (file : Nat) (e : SyntaxError)
    (h : Program.parse text file = .error e) :
    ∃ k t, (tokenize text file)[k]? = some t ∧ e.span = t.span ∧
      (∃ text' p, Program.parse text' file = .ok p ∧
        ((tokenize text file).take k).map Token.kind <+: (tokenize text' file).map Token.kind) ∧
      ∀ text' file',
        (∀ i ≤ k + 1, ∀ u, (tokenize text file)[i]? = some u →
          (tokenize text' file')[i]? = some u) →
        Program.parse text' file' = .error e := by
  obtain ⟨k, t, ht, hspan, hviable, hrun⟩ := Program.parse_eq_error h
  refine ⟨k, t, ht, hspan, ?_, fun text' file' hagree => ?_⟩
  · refine hviable.exists_parse (fun u hu => ?_) file
    exact allLexical_tokenize text file u (List.mem_of_mem_take hu)
  · obtain ⟨t', ht', hfail⟩ := hrun text' file' (kinds_eq_of_agree ht hagree)
    obtain rfl : t = t' := Option.some.inj ((hagree k (by omega) t ht).symm.trans ht')
    rw [hfail, ← hspan]

/-- A text whose entry method has a wrong type. -/
def typedMainText : String :=
  "class M\x7bpublic static int main()\x7b\x7d\x7d"

theorem syntax_errors_well_placed_typedMain :
    Program.parse typedMainText 0 =
        .error ⟨.unexpectedToken (.token (.keyword .voidKw)) (.keyword .intKw), ⟨22, 25, 0⟩⟩ ∧
      ∃ k t, (tokenize typedMainText 0)[k]? = some t ∧ (⟨22, 25, 0⟩ : Span) = t.span ∧
        (∃ text' p, Program.parse text' 0 = .ok p ∧
          ((tokenize typedMainText 0).take k).map Token.kind <+:
            (tokenize text' 0).map Token.kind) ∧
        ∀ text' file',
          (∀ i ≤ k + 1, ∀ u, (tokenize typedMainText 0)[i]? = some u →
            (tokenize text' file')[i]? = some u) →
          Program.parse text' file' =
            .error ⟨.unexpectedToken (.token (.keyword .voidKw)) (.keyword .intKw),
              ⟨22, 25, 0⟩⟩ := by
  have htokens : tokenize typedMainText 0 =
      [⟨.keyword .classKw, ⟨0, 5, 0⟩⟩, ⟨.ident "M", ⟨6, 7, 0⟩⟩, ⟨.symbol .lbrace, ⟨7, 8, 0⟩⟩,
        ⟨.keyword .publicKw, ⟨8, 14, 0⟩⟩, ⟨.keyword .staticKw, ⟨15, 21, 0⟩⟩,
        ⟨.keyword .intKw, ⟨22, 25, 0⟩⟩, ⟨.ident "main", ⟨26, 30, 0⟩⟩,
        ⟨.symbol .lparen, ⟨30, 31, 0⟩⟩, ⟨.symbol .rparen, ⟨31, 32, 0⟩⟩,
        ⟨.symbol .lbrace, ⟨32, 33, 0⟩⟩, ⟨.symbol .rbrace, ⟨33, 34, 0⟩⟩,
        ⟨.symbol .rbrace, ⟨34, 35, 0⟩⟩, ⟨.eof, ⟨35, 35, 0⟩⟩] := by
    decide +kernel
  have hparse : Program.parse typedMainText 0 =
      .error ⟨.unexpectedToken (.token (.keyword .voidKw)) (.keyword .intKw), ⟨22, 25, 0⟩⟩ := by
    rw [Program.parse, htokens]
    rfl
  exact ⟨hparse, syntax_errors_well_placed _ _ _ hparse⟩

end MiniJava
