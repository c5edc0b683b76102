import MiniJava.Proofs.WalkDeclarations

/-!
# Walks come to an end inside the list

The readers by an index, on a list of tokens that ends with its only end mark. `Settles` says that an
action ends with a value or a fault of form; for most readers this follows from the comparison with
the readers by a cursor. The loops that leave the token behind a list to others are treated here
(`settles_args`, `settles_params`, `settles_stmtsUntil`): each turn consumes a token, or it is the
last one.
-/

namespace MiniJava

/-- The action ends, with a value where fewer than `n` tokens are left or with a fault of form. -/
inductive Settles {α : Type} (tokens : List Token) (n : Nat) (m : Walk α) (w : Walker) : Prop
  | ok {a : α} {w' : Walker} {c : Cursor} :
    m.outcome tokens w = (.ok a, w') → Place tokens w' c → c.size < n → Settles tokens n m w
  | fault {e : SyntaxError} {w' : Walker} :
    m.outcome tokens w = (.error (.fault e), w') → w'.Steady tokens → Settles tokens n m w

section

variable {tokens : List Token} {w : Walker} {c : Cursor} {α β γ : Type} {m n depth : Nat}

theorem Mirrors.settles {R : α → γ → Prop} {a : Walk α} {x : Except SyntaxError (Cursor.Read γ n)}
    (h : Mirrors tokens (Reached tokens R) a w x) : Settles tokens n a w := by
  cases h with
  | @ok _ _ r hout hreached => exact .ok hout hreached.2 r.lt
  | error hout hw => exact .fault hout hw

theorem Settles.bind {a : Walk α} {f : α → Walk β} (ha : Settles tokens m a w)
    (hf : ∀ v w₁ c₁, Place tokens w₁ c₁ → c₁.size < m → Settles tokens n (f v) w₁) :
    Settles tokens n (a >>= f) w := by
  cases ha with
  | ok hout hp hlt =>
    cases hf _ _ _ hp hlt with
    | ok hout' hp' hlt' => exact .ok ((Walk.outcome_bind_ok hout).trans hout') hp' hlt'
    | fault hout' hw => exact .fault ((Walk.outcome_bind_ok hout).trans hout') hw
  | fault hout hw => exact .fault (Walk.outcome_bind_error hout) hw

theorem Settles.pure {v : α} (hp : Place tokens w c) (hlt : c.size < n) :
    Settles tokens n (Pure.pure v : Walk α) w :=
  .ok rfl hp hlt

theorem Place.settles_current (hp : Place tokens w c) :
    Settles tokens (c.size + 1) Walk.current w :=
  .ok hp.outcome_current hp.look (Nat.lt_succ_self _)

theorem Place.settles_check {k : Token.Kind} (hp : Place tokens w c) :
    Settles tokens (c.size + 1) (Walk.check k) w :=
  (hp.settles_current.bind fun _ _ _ hp₁ h₁ => .pure hp₁ h₁).bind fun _ _ _ hp₁ h₁ => .pure hp₁ h₁

theorem Place.settles_prevSpan (hp : Place tokens w c) (hsize : c.size < tokens.length) :
    Settles tokens (c.size + 1) Walk.prevSpan w := by
  have hmirrors : Mirrors tokens (Reached tokens fun _ _ => True) (Walk.prevSpan >>= Pure.pure) w
      (.ok (⟨(), c, Nat.lt_succ_self _⟩ : Cursor.Read Unit (c.size + 1))) :=
    hp.prevSpan hsize fun _ hp₁ => .pure hp₁ trivial
  rw [bind_pure] at hmirrors
  exact hmirrors.settles

theorem Place.settles_consume {k : Token.Kind} (hp : Place tokens w c) (hk : k ≠ .eof) :
    Settles tokens (c.size + 1) (Walk.consume k) w := by
  have hcheck : (Walk.check k).outcome tokens w =
      (.ok (c.kind == k), ⟨w.position, w.trail ++ [.look w.position]⟩) :=
    Walk.outcome_bind_ok (Walk.outcome_bind_ok hp.outcome_current)
  by_cases hkind : c.kind = k
  · obtain ⟨c₁, h₁, hr, -⟩ := Cursor.exists_step hkind hk
    have hstep := hp.look.step (Cursor.reads_of_accept hr) hk
    rw [beq_iff_eq.mpr hkind] at hcheck
    refine .ok (a := true) ((Walk.outcome_bind_ok hcheck).trans ?_) hstep (Nat.lt_succ_of_lt h₁)
    exact Walk.outcome_bind_ok (hp.look.outcome_advance (hkind ▸ hk))
  · rw [beq_eq_false_iff_ne.mpr hkind] at hcheck
    exact .ok (Walk.outcome_bind_ok hcheck) hp.look (Nat.lt_succ_self _)

/-! ### Loops without the token behind them -/

theorem settles_args (hp : Place tokens w c) (hdepth : 3 * c.size + 3 ≤ depth) :
    Settles tokens c.size (Walk.args depth) w := by
  induction depth generalizing w c with
  | zero => omega
  | succ depth ih =>
    rw [Walk.args]
    refine (mirrors_expr hp (by omega)).settles.bind fun arg w₁ c₁ hp₁ h₁ => ?_
    refine (hp₁.settles_consume Token.Kind.noConfusion).bind fun more w₂ c₂ hp₂ h₂ => ?_
    cases more with
    | true => exact (ih hp₂ (by omega)).bind fun _ w₃ c₃ hp₃ h₃ => .pure hp₃ (by omega)
    | false => exact .pure hp₂ (by omega)

theorem settles_params (hp : Place tokens w c) (hdepth : 3 * c.size + 1 ≤ depth) :
    Settles tokens c.size (Walk.params depth) w := by
  induction depth generalizing w c with
  | zero => omega
  | succ depth ih =>
    have hsize := hp.size_le
    rw [Walk.params]
    refine hp.settles_current.bind fun first w₁ c₁ hp₁ h₁ => ?_
    refine (mirrors_typeExpr hp₁).settles.bind fun type w₂ c₂ hp₂ h₂ => ?_
    refine hp₂.ident.settles.bind fun name w₃ c₃ hp₃ h₃ => ?_
    refine (hp₃.settles_prevSpan (by omega)).bind fun span w₄ c₄ hp₄ h₄ => ?_
    refine (hp₄.settles_consume Token.Kind.noConfusion).bind fun more w₅ c₅ hp₅ h₅ => ?_
    cases more with
    | true => exact (ih hp₅ (by omega)).bind fun _ w₆ c₆ hp₆ h₆ => .pure hp₆ (by omega)
    | false => exact .pure hp₅ (by omega)

theorem settles_stmtsUntil (close : Token.Kind) (hp : Place tokens w c)
    (hdepth : 3 * c.size + 2 ≤ depth) :
    Settles tokens (c.size + 1) (Walk.stmtsUntil close depth) w := by
  induction depth generalizing w c with
  | zero => omega
  | succ depth ih =>
    rw [Walk.stmtsUntil]
    refine hp.settles_check.bind fun closes w₁ c₁ hp₁ h₁ => ?_
    cases closes with
    | true => exact .pure hp₁ (by omega)
    | false =>
      refine hp₁.settles_check.bind fun ends w₂ c₂ hp₂ h₂ => ?_
      cases ends with
      | true => exact .pure hp₂ (by omega)
      | false =>
        refine ((mirrorsStmts tokens depth).stmt w₂ c₂ hp₂ (by omega)).settles.bind
          fun first w₃ c₃ hp₃ h₃ => ?_
        exact (ih hp₃ (by omega)).bind fun _ w₄ c₄ hp₄ h₄ => .pure hp₄ (by omega)

end

/-! ### Every steady walker -/

/-- Wherever a steady walker stands, the action ends. If it ends with a value, at least `gain` tokens
were consumed, and else with a fault of form. The walker is steady then, and not behind the end
mark. -/
def Walk.Ends {α : Type} (tokens : List Token) (gain : Nat) (m : Walk α) : Prop :=
  ∀ w, w.Steady tokens → ∃ w', w'.Steady tokens ∧ w'.position < tokens.length ∧
    ((∃ a, m.outcome tokens w = (.ok a, w') ∧ w.position + gain ≤ w'.position) ∨
      ∃ e, m.outcome tokens w = (.error (.fault e), w'))

section

variable {tokens : List Token} {α : Type} {gain : Nat} {m : Walk α}

/-- A steady walker stands at a place of the list. -/
theorem Walker.Steady.place {w : Walker} (h : w.Steady tokens) (hend : EndMarked tokens) :
    Place tokens w ⟨lastSpan default (tokens.take w.position), tokens.drop w.position⟩ where
  ended := hend
  steady := h
  reads := ⟨(List.take_append_drop _ _).symm, rfl⟩

theorem Walk.ends_of_settles (hend : EndMarked tokens)
    (h : ∀ w c, Place tokens w c → c.size ≤ tokens.length →
      Settles tokens (c.size + 1 - gain) m w) : m.Ends tokens gain := by
  intro w hw
  have hp := hw.place hend
  have hposition := hp.position_add_size
  cases h w _ hp hp.size_le with
  | @ok a w' c hout hp' hlt =>
    have hposition' := hp'.position_add_size
    exact ⟨w', hp'.steady, hp'.position_lt, .inl ⟨a, hout, by omega⟩⟩
  | @fault e w' hout hw' => exact ⟨w', hw', hw'.position_lt hend, .inr ⟨e, hout⟩⟩

end

/-- What holds of all walks along a list of tokens. -/
structure WalksInside (tokens : List Token) (depth : Nat) : Prop where
  /-- A walk from the start ends, and all its accesses were right. It ends as the reading of the list
  does: at the end mark with the same program, or with the same fault. -/
  program : ∃ w, w.Steady tokens ∧ w.position < tokens.length ∧
    ((∃ p q, (Walk.program depth).outcome tokens .start = (.ok p, w) ∧
        Program.ofTokens tokens = .ok q ∧ p.eraseSpans = q.eraseSpans ∧
        w.position + 1 = tokens.length) ∨
      ∃ e, (Walk.program depth).outcome tokens .start = (.error (.fault e), w) ∧
        Program.ofTokens tokens = .error e)
  /-- In the tokens of a text, the spans are the same ones too. -/
  text : ∀ text file, tokens = tokenize text file →
    ((Walk.program depth).outcome tokens .start).1 = (Program.parse text file).mapError .fault
  classDecl : (Walk.classDecl depth).Ends tokens 1
  methodDecl : (Walk.methodDecl depth).Ends tokens 1
  typeExpr : Walk.typeExpr.Ends tokens 1
  ident : Walk.ident.Ends tokens 1
  stmt : (Walk.stmt depth).Ends tokens 1
  expr : (Walk.expr depth).Ends tokens 1
  primary : (Walk.primary depth).Ends tokens 1
  params : (Walk.params depth).Ends tokens 1
  args : (Walk.args depth).Ends tokens 1
  classDecls : (Walk.classDecls depth).Ends tokens 0
  varDecls : (Walk.varDecls depth).Ends tokens 0
  methodDecls : (Walk.methodDecls depth).Ends tokens 0
  stmtsUntil : ∀ close, (Walk.stmtsUntil close depth).Ends tokens 0

section

variable {tokens : List Token} {depth : Nat}

theorem ends_classDecls (hend : EndMarked tokens) (hdepth : 3 * tokens.length + 3 ≤ depth) :
    (Walk.classDecls depth).Ends tokens 0 := by
  intro w hw
  have hp := hw.place hend
  have hsize := hp.size_le
  have hlt := hp.position_lt
  have hmirrors := mirrors_classDecls (joining_const tokens default) hp (show _ ≤ depth by omega)
  generalize Cursor.classDecls _ = x at hmirrors
  cases hmirrors with
  | @ok a w' ds hout hfinished =>
    obtain ⟨-, hw', hposition⟩ := hfinished
    exact ⟨w', hw', by omega, .inl ⟨a, hout, by omega⟩⟩
  | @error e w' hout hw' => exact ⟨w', hw', hw'.position_lt hend, .inr ⟨e, hout⟩⟩

theorem endMarked_tokenize (text : String) (file : Nat) : EndMarked (tokenize text file) := by
  obtain ⟨words, mark, htokens, hmark, hwords⟩ := tokenize_shape text file
  exact ⟨words, mark, htokens, hmark, fun t ht => (hwords t ht).1⟩

/-- Reading a text by an index is reading it by a cursor. -/
theorem program_walk_text {text : String} {file : Nat}
    (hdepth : 3 * (tokenize text file).length ≤ depth) :
    ((Walk.program depth).outcome (tokenize text file) .start).1 =
      (Program.parse text file).mapError .fault := by
  have hmirrors :=
    mirrors_program (joining_tokenize text file) (endMarked_tokenize text file) hdepth
  rw [Program.parse]
  generalize Program.ofTokens _ = x at hmirrors
  cases hmirrors with
  | @ok p w q hout hfinished =>
    obtain ⟨hsame, -⟩ := hfinished
    rw [p.map_id, q.map_id] at hsame
    rw [hout, hsame]
    rfl
  | error hout =>
    rw [hout]
    rfl

/-- **Reading makes progress and stays inside the list.** On a list of tokens that ends with its only
end mark, all accesses to the list without a check are to tokens of it, a look back is at the token
that was consumed last, and the end mark is never consumed. Each reader and each loop ends, with a
value or with a fault of form, and readers of single forms consume a token. The calls and turns that
are under way inside each other are at most three for each token, and three more. -/
theorem walks_stay_inside (tokens : List Token) (hend : EndMarked tokens) (depth : Nat)
    (hdepth : 3 * tokens.length + 3 ≤ depth) : WalksInside tokens depth := by
  have hg : Joining tokens fun _ => default := joining_const tokens default
  have hexprs := mirrorsExprs tokens depth
  have hstmts := mirrorsStmts tokens depth
  constructor
  case program =>
    have hmirrors := mirrors_program hg hend (show 3 * tokens.length ≤ depth by omega)
    cases hread : Program.ofTokens tokens with
    | ok q =>
      rw [hread] at hmirrors
      cases hmirrors with
      | @ok p w _ hout hfinished =>
        obtain ⟨hsame, hw, hposition⟩ := hfinished
        exact ⟨w, hw, by omega, .inl ⟨p, q, hout, rfl, hsame, hposition⟩⟩
    | error e =>
      rw [hread] at hmirrors
      cases hmirrors with
      | @error _ w hout hw => exact ⟨w, hw, hw.position_lt hend, .inr ⟨e, hout, rfl⟩⟩
  case text =>
    rintro text file rfl
    exact program_walk_text (by omega)
  case classDecls => exact ends_classDecls hend hdepth
  case stmtsUntil =>
    exact fun close => Walk.ends_of_settles hend fun w c hp hsize =>
      settles_stmtsUntil close hp (by omega)
  -- what is left is one reader after the other
  all_goals refine Walk.ends_of_settles hend fun w c hp hsize => ?_
  case classDecl => exact (mirrors_classDecl hg hp (by omega)).settles
  case methodDecl => exact (mirrors_methodDecl hg hp (by omega)).settles
  case typeExpr => exact (mirrors_typeExpr hp).settles
  case ident => exact hp.ident.settles
  case stmt => exact (hstmts.stmt w c hp (by omega)).settles
  case expr => exact (hexprs.expr w c hp (by omega)).settles
  case primary => exact (hexprs.primary w c hp (by omega)).settles
  case params => exact settles_params hp (by omega)
  case args => exact settles_args hp (by omega)
  case varDecls => exact (mirrors_varDecls hg hp (by omega)).settles
  case methodDecls => exact (mirrors_methodDecls hg hp (by omega)).settles

/-- The tokens of a text that ends inside of a block, where a statement could still come. -/
def cutTokens : List Token :=
  [⟨.keyword .classKw, ⟨0, 5, 0⟩⟩, ⟨.ident "M", ⟨6, 7, 0⟩⟩, ⟨.symbol .lbrace, ⟨7, 8, 0⟩⟩,
    ⟨.keyword .publicKw, ⟨8, 14, 0⟩⟩, ⟨.keyword .staticKw, ⟨15, 21, 0⟩⟩,
    ⟨.keyword .voidKw, ⟨22, 26, 0⟩⟩, ⟨.ident "main", ⟨27, 31, 0⟩⟩,
    ⟨.symbol .lparen, ⟨31, 32, 0⟩⟩, ⟨.ident "String", ⟨32, 38, 0⟩⟩,
    ⟨.symbol .lbracket, ⟨38, 39, 0⟩⟩, ⟨.symbol .rbracket, ⟨39, 40, 0⟩⟩,
    ⟨.ident "a", ⟨41, 42, 0⟩⟩, ⟨.symbol .rparen, ⟨42, 43, 0⟩⟩, ⟨.symbol .lbrace, ⟨43, 44, 0⟩⟩,
    ⟨.symbol .lbrace, ⟨44, 45, 0⟩⟩, ⟨.eof, ⟨45, 45, 0⟩⟩]

theorem walks_stay_inside_cut :
    EndMarked cutTokens ∧ 3 * cutTokens.length + 3 ≤ 51 ∧ WalksInside cutTokens 51 := by
  have hend : EndMarked cutTokens :=
    ⟨cutTokens.take 15, ⟨.eof, ⟨45, 45, 0⟩⟩, rfl, rfl, by decide⟩
  exact ⟨hend, by decide, walks_stay_inside cutTokens hend 51 (by decide)⟩

end

/-- Without an end mark, the walk leaves the list. -/
example : ((Walk.program 3).outcome [] .start).1 = .error (.outside 0) := rfl

end MiniJava
