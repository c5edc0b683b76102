import MiniJava.Program.Derivation
import MiniJava.Program.Parser
import MiniJava.Proofs.Outcome

/-!
# Single steps of a cursor

`Cursor.Reads c ts c'` says that the tokens `ts` lie between two places. Steps in a row add up
(`Reads.trans`), and each step over one token is described here twice: what a step that succeeded
has read (`reads_of_…`), and that it succeeds where its token comes.
-/

namespace MiniJava

theorem lastSpan_append (last : Span) (ts us : List Token) :
    lastSpan last (ts ++ us) = lastSpan (lastSpan last ts) us := by
  induction ts generalizing last with
  | nil => rfl
  | cons t ts ih => exact ih t.span

namespace Cursor

/-- The tokens `ts` lie between two places. -/
structure Reads (c : Cursor) (ts : List Token) (c' : Cursor) : Prop where
  rest_eq : c.rest = ts ++ c'.rest
  last_eq : c'.last = lastSpan c.last ts

variable {c c₁ c₂ : Cursor} {ts us : List Token}

theorem Reads.refl (c : Cursor) : c.Reads [] c :=
  ⟨rfl, rfl⟩

theorem Reads.trans (h₁ : c.Reads ts c₁) (h₂ : c₁.Reads us c₂) : c.Reads (ts ++ us) c₂ where
  rest_eq := by rw [h₁.rest_eq, h₂.rest_eq, List.append_assoc]
  last_eq := by rw [h₂.last_eq, h₁.last_eq, lastSpan_append]

/-- As `Reads.trans`, where the token that closes a list was read together with the list. -/
theorem Reads.append_trans {vs : List Token} (h₁ : c.Reads (ts ++ us) c₁) (h₂ : c₁.Reads vs c₂) :
    c.Reads (ts ++ (us ++ vs)) c₂ := by
  rw [← List.append_assoc]
  exact h₁.trans h₂

/-- The first token that was read is the one that was to come. -/
theorem Reads.current_eq {t : Token} (h : c.Reads (t :: ts) c₁) : c.current = t := by
  rw [current, h.rest_eq]
  rfl

/-! ### What a step has read -/

theorem reads_of_accept {k : Token.Kind} {r : Read Unit c.size} (h : c.accept k = some r) :
    c.Reads [⟨k, r.cursor.last⟩] r.cursor := by
  obtain ⟨last, rest⟩ := c
  cases rest with
  | nil => cases h
  | cons t rest =>
    by_cases hk : t.kind = k
    · subst hk
      simp only [accept, ↓reduceIte, Option.some.injEq] at h
      subst h
      exact ⟨rfl, rfl⟩
    · simp [accept, hk] at h

theorem reads_of_expect {k : Token.Kind} {r : Read Unit c.size} (h : c.expect k = .ok r) :
    c.Reads [⟨k, r.cursor.last⟩] r.cursor := by
  rw [expect] at h
  split at h
  · next hr =>
    cases h
    exact reads_of_accept hr
  · cases h

theorem reads_of_keyword {word : Keyword} {r : Read Unit c.size} (h : c.keyword word = .ok r) :
    c.Reads [⟨.keyword word, r.cursor.last⟩] r.cursor :=
  reads_of_expect h

theorem reads_of_symbol {sign : Symbol} {r : Read Unit c.size} (h : c.symbol sign = .ok r) :
    c.Reads [⟨.symbol sign, r.cursor.last⟩] r.cursor :=
  reads_of_expect h

theorem reads_of_word {name : String} {r : Read Unit c.size} (h : c.word name = .ok r) :
    c.Reads [⟨.ident name, r.cursor.last⟩] r.cursor := by
  rw [word] at h
  split at h
  · next hr =>
    cases h
    exact reads_of_accept hr
  · cases h

theorem reads_of_ident {r : Read Ident c.size} (h : c.ident = .ok r) :
    c.Reads [r.value.token] r.cursor := by
  rw [ident] at h
  split at h
  · obtain ⟨⟨_, c₁, h₁⟩, hr, h⟩ := bind_eq_ok_iff.mp h
    cases h
    exact reads_of_expect hr
  · cases h

/-! ### Where a step succeeds -/

theorem Reads.eq_of_nil (h : c.Reads [] c₁) : c₁ = c := by
  obtain ⟨last, rest⟩ := c
  obtain ⟨last₁, rest₁⟩ := c₁
  obtain ⟨hrest, hlast⟩ := h
  cases hrest
  cases hlast
  rfl

/-- Between the tokens of two parts there is a place. -/
theorem Reads.exists_between (h : c.Reads (ts ++ us) c₂) : ∃ c₁, c.Reads ts c₁ ∧ c₁.Reads us c₂ := by
  refine ⟨⟨lastSpan c.last ts, us ++ c₂.rest⟩, ⟨?_, rfl⟩, ⟨rfl, ?_⟩⟩
  · rw [h.rest_eq, List.append_assoc]
  · rw [h.last_eq, lastSpan_append]

theorem Reads.exists_behind {t : Token} (h : c.Reads (ts ++ t :: us) c₂) :
    ∃ c₁, c.Reads (ts ++ [t]) c₁ ∧ c₁.Reads us c₂ := by
  rw [List.append_cons] at h
  exact h.exists_between

theorem Reads.kind_eq {t : Token} (h : c.Reads (t :: ts) c₁) : c.kind = t.kind := by
  rw [kind, h.current_eq]

theorem Reads.ahead?_eq {t u : Token} (h : c.Reads (t :: u :: ts) c₁) : c.ahead? = some u.kind := by
  rw [ahead?, h.rest_eq]
  rfl

theorem accept_eq_none {k : Token.Kind} (h : c.kind ≠ k) : c.accept k = none := by
  obtain ⟨last, rest⟩ := c
  cases rest with
  | nil => rfl
  | cons t rest => exact if_neg h

theorem Reads.accept_of_ne {t : Token} {k : Token.Kind} (h : c.Reads (t :: ts) c₁)
    (hk : t.kind ≠ k) : c.accept k = none := by
  rw [← h.kind_eq] at hk
  exact accept_eq_none hk

theorem Reads.accept_eq {k : Token.Kind} {a : Span} (h : c.Reads (⟨k, a⟩ :: ts) c₂) :
    ∃ c₁ lt, c.accept k = some ⟨(), c₁, lt⟩ ∧ c₁.last = a ∧ c₁.Reads ts c₂ := by
  obtain ⟨last, rest⟩ := c
  obtain ⟨hrest, hlast⟩ := h
  cases hrest
  exact ⟨⟨a, ts ++ c₂.rest⟩, _, if_pos rfl, rfl, rfl, hlast⟩

theorem Reads.expect_eq {k : Token.Kind} {a : Span} (h : c.Reads (⟨k, a⟩ :: ts) c₂) :
    ∃ c₁ lt, c.expect k = .ok ⟨(), c₁, lt⟩ ∧ c₁.last = a ∧ c₁.Reads ts c₂ := by
  obtain ⟨c₁, lt, haccept, hlast, hrest⟩ := h.accept_eq
  exact ⟨c₁, lt, by rw [expect, haccept], hlast, hrest⟩

theorem Reads.keyword_eq {k : Keyword} {a : Span} (h : c.Reads (⟨.keyword k, a⟩ :: ts) c₂) :
    ∃ c₁ lt, c.keyword k = .ok ⟨(), c₁, lt⟩ ∧ c₁.last = a ∧ c₁.Reads ts c₂ :=
  h.expect_eq

theorem Reads.symbol_eq {s : Symbol} {a : Span} (h : c.Reads (⟨.symbol s, a⟩ :: ts) c₂) :
    ∃ c₁ lt, c.symbol s = .ok ⟨(), c₁, lt⟩ ∧ c₁.last = a ∧ c₁.Reads ts c₂ :=
  h.expect_eq

theorem Reads.word_eq {name : String} {a : Span} (h : c.Reads (⟨.ident name, a⟩ :: ts) c₂) :
    ∃ c₁ lt, c.word name = .ok ⟨(), c₁, lt⟩ ∧ c₁.last = a ∧ c₁.Reads ts c₂ := by
  obtain ⟨c₁, lt, haccept, hlast, hrest⟩ := h.accept_eq
  exact ⟨c₁, lt, by rw [word, haccept], hlast, hrest⟩

theorem Reads.ident_eq {i : Ident} (h : c.Reads (i.token :: ts) c₂) :
    ∃ c₁ lt, c.ident = .ok ⟨i, c₁, lt⟩ ∧ c₁.last = i.span ∧ c₁.Reads ts c₂ := by
  obtain ⟨c₁, lt, hexpect, hlast, hrest⟩ := h.expect_eq
  refine ⟨c₁, lt, ?_, hlast, hrest⟩
  have hkind : c.kind = .ident i.name := h.kind_eq
  have hexpect : c.expect (.ident i.name) = .ok ⟨(), c₁, lt⟩ := hexpect
  simp only [ident, hkind, hexpect, ok_bind, hlast]
  rfl

end Cursor

end MiniJava
