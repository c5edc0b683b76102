import MiniJava.Proofs.ReaderRuns

/-!
# The runs of the readers of declarations

Each reader of declarations does what `Cursor.Tracks` says, for the language of its form. The reader
of whole programs finds its errors as `Cursor.FailsAt` says.
-/

namespace MiniJava

/-- The ways to write a form, where `R` tells the ways of each thing. -/
def wordsOf {α : Type} (R : α → List Token → Prop) : Language Token :=
  {ts | ∃ a, R a ts}

theorem no_form_le {α : Type} (R : α → List Token → Prop) : 1 ≤ wordsOf (ReadAll R) := by
  rintro _ rfl
  exact ⟨[], .nil⟩

theorem more_forms_le {α : Type} (R : α → List Token → Prop) :
    wordsOf R * (wordsOf (ReadAll R) * 1) ≤ wordsOf (ReadAll R) := by
  rw [mul_one]
  rintro _ ⟨ts, ⟨a, hts⟩, us, ⟨as, hus⟩, rfl⟩
  exact ⟨a :: as, .cons hts hus⟩

instance {α : Type} {R : α → List Token → Prop} : Writable (wordsOf (ReadAll R)) :=
  Writable.mono inferInstance (no_form_le R)

theorem intType_le : 1 ≤ behind (kindWord (.keyword .intKw)) (wordsOf TypeExpr.ReadFrom) := by
  rintro _ rfl _ ⟨a, rfl⟩
  exact ⟨_, .int⟩

theorem intArrayType_le :
    kindWord (.symbol .lbracket) * (kindWord (.symbol .rbracket) * 1) ≤
      behind (kindWord (.keyword .intKw)) (wordsOf TypeExpr.ReadFrom) := by
  rintro _ ⟨_, ⟨b, rfl⟩, _, ⟨_, ⟨c, rfl⟩, _, rfl, rfl⟩, rfl⟩ _ ⟨a, rfl⟩
  exact ⟨_, .intArray⟩

theorem booleanType_le : kindWord (.keyword .booleanKw) * 1 ≤ wordsOf TypeExpr.ReadFrom := by
  rintro _ ⟨_, ⟨a, rfl⟩, _, rfl, rfl⟩
  exact ⟨_, .boolean⟩

theorem namedType_le : identWord * 1 ≤ wordsOf TypeExpr.ReadFrom := by
  rintro _ ⟨_, ⟨i, rfl⟩, _, rfl, rfl⟩
  exact ⟨_, .named⟩

instance : Writable (behind (kindWord (.keyword .intKw)) (wordsOf TypeExpr.ReadFrom)) :=
  Writable.mono inferInstance intType_le

instance : Writable (wordsOf TypeExpr.ReadFrom) :=
  Writable.mono inferInstance namedType_le

theorem varDecl_le :
    wordsOf TypeExpr.ReadFrom * (identWord * (kindWord (.symbol .semicolon) * 1)) ≤
      wordsOf VarDecl.ReadFrom := by
  simp only [le_iff_forall_mem, forall_mem_mul, forall_mem_kindWord, forall_mem_identWord,
    forall_mem_one]
  rintro ts ⟨type, hts⟩ i a
  exact ⟨_, .intro hts⟩

/-- The ways to write at least one parameter, with the parenthesis behind. -/
def paramsWords : Language Token :=
  {ts | ∃ ds us a, ds ≠ [] ∧ VarDecl.ParamsReadFrom ds us ∧ ts = us ++ [⟨.symbol .rparen, a⟩]}

/-- The ways to write a list of parameters with both of its parentheses. -/
def paramListWords : Language Token :=
  {ts | ∃ ds us a b, VarDecl.ParamsReadFrom ds us ∧
    ts = ⟨.symbol .lparen, a⟩ :: (us ++ [⟨.symbol .rparen, b⟩])}

theorem one_param_le :
    kindWord (.symbol .rparen) * 1 ≤
      behind identWord (behind (wordsOf TypeExpr.ReadFrom) paramsWords) := by
  rintro _ ⟨_, ⟨a, rfl⟩, _, rfl, rfl⟩ _ ⟨i, rfl⟩ ts ⟨type, hts⟩
  refine ⟨_, _, a, List.cons_ne_nil _ _, .one (@VarDecl.ParamReadFrom.intro type i ts hts), ?_⟩
  simp

theorem more_params_le :
    kindWord (.symbol .comma) * (paramsWords * 1) ≤
      behind identWord (behind (wordsOf TypeExpr.ReadFrom) paramsWords) := by
  rw [mul_one]
  rintro _ ⟨_, ⟨a, rfl⟩, _, ⟨ds, us, b, hne, hus, rfl⟩, rfl⟩ _ ⟨i, rfl⟩ ts ⟨type, hts⟩
  obtain ⟨next, more, rfl⟩ := List.exists_cons_of_ne_nil hne
  refine ⟨_, _, b, List.cons_ne_nil _ _,
    .cons (a := a) (@VarDecl.ParamReadFrom.intro type i ts hts) hus, ?_⟩
  simp

instance : Writable (behind identWord (behind (wordsOf TypeExpr.ReadFrom) paramsWords)) :=
  Writable.mono inferInstance one_param_le

instance : Writable (behind (wordsOf TypeExpr.ReadFrom) paramsWords) :=
  Writable.mono inferInstance (mul_behind_le identWord _)

instance : Writable paramsWords :=
  Writable.mono inferInstance (mul_behind_le (wordsOf TypeExpr.ReadFrom) _)

theorem no_params_le :
    kindWord (.symbol .rparen) * 1 ≤ behind (kindWord (.symbol .lparen)) paramListWords := by
  rintro _ ⟨_, ⟨b, rfl⟩, _, rfl, rfl⟩ _ ⟨a, rfl⟩
  exact ⟨[], [], a, b, .nil, rfl⟩

theorem params_le : paramsWords * 1 ≤ behind (kindWord (.symbol .lparen)) paramListWords := by
  rw [mul_one]
  rintro _ ⟨ds, us, b, -, hus, rfl⟩ _ ⟨a, rfl⟩
  exact ⟨ds, us, a, b, hus, rfl⟩

instance : Writable (behind (kindWord (.symbol .lparen)) paramListWords) :=
  Writable.mono inferInstance no_params_le

instance : Writable paramListWords :=
  Writable.mono inferInstance (mul_behind_le (kindWord (.symbol .lparen)) _)

theorem methodDecl_le :
    kindWord (.keyword .publicKw) * (wordsOf TypeExpr.ReadFrom * (identWord * (paramListWords *
      (kindWord (.symbol .lbrace) * (wordsOf (ReadAll VarDecl.ReadFrom) *
        (stmtsWords (.keyword .returnKw) * (exprWords * (kindWord (.symbol .semicolon) *
          (kindWord (.symbol .rbrace) * 1))))))))) ≤ wordsOf MethodDecl.ReadFrom := by
  simp only [le_iff_forall_mem, forall_mem_mul, forall_mem_kindWord, forall_mem_identWord,
    forall_mem_one]
  rintro a ts ⟨type, hts⟩ i _ ⟨ds, us, b, c, hus, rfl⟩ d vs ⟨vars, hvs⟩ _ ⟨body, ws, e, hws, rfl⟩
    xs ⟨result, hxs⟩ f g
  have hread : ∃ m, MethodDecl.ReadFrom m _ :=
    ⟨_, @MethodDecl.ReadFrom.intro a b c d e f g type i ds vars body result ts us vs ws xs
      hts hus hvs hws hxs⟩
  show ∃ m, MethodDecl.ReadFrom m _
  simpa only [List.append_assoc, List.cons_append, List.nil_append, List.append_nil] using hread

theorem parent_le : kindWord (.keyword .extendsKw) * (identWord * 1) ≤
    wordsOf ClassDecl.ParentReadFrom := by
  simp only [le_iff_forall_mem, forall_mem_mul, forall_mem_kindWord, forall_mem_identWord,
    forall_mem_one]
  intro a i
  exact ⟨some i, .some⟩

theorem no_parent_le : 1 ≤ wordsOf ClassDecl.ParentReadFrom := by
  rintro _ rfl
  exact ⟨none, .none⟩

instance : Writable (wordsOf ClassDecl.ParentReadFrom) :=
  Writable.mono inferInstance no_parent_le

theorem classDecl_le :
    kindWord (.keyword .classKw) * (identWord * (wordsOf ClassDecl.ParentReadFrom *
      (kindWord (.symbol .lbrace) * (wordsOf (ReadAll VarDecl.ReadFrom) *
        (wordsOf (ReadAll MethodDecl.ReadFrom) * (kindWord (.symbol .rbrace) * 1)))))) ≤
      wordsOf ClassDecl.ReadFrom := by
  simp only [le_iff_forall_mem, forall_mem_mul, forall_mem_kindWord, forall_mem_identWord,
    forall_mem_one]
  rintro a i ts ⟨parent, hts⟩ b us ⟨fields, hus⟩ vs ⟨methods, hvs⟩ c
  exact ⟨_, .intro hts hus hvs⟩

instance : Writable (kindWord (.ident "main")) :=
  writable_kindWord (by decide : isIdentName "main" = true)

instance : Writable (kindWord (.ident "String")) :=
  writable_kindWord (by decide : isIdentName "String" = true)

theorem mainClass_le :
    kindWord (.keyword .classKw) * (identWord * (kindWord (.symbol .lbrace) *
      (kindWord (.keyword .publicKw) * (kindWord (.keyword .staticKw) *
        (kindWord (.keyword .voidKw) * (kindWord (.ident "main") * (kindWord (.symbol .lparen) *
          (kindWord (.ident "String") * (kindWord (.symbol .lbracket) *
            (kindWord (.symbol .rbracket) * (identWord * (kindWord (.symbol .rparen) *
              (kindWord (.symbol .lbrace) * (wordsOf (ReadAll VarDecl.ReadFrom) *
                (stmtsWords (.symbol .rbrace) * (kindWord (.symbol .rbrace) * 1)))))))))))))))) ≤
      wordsOf MainClass.ReadFrom := by
  simp only [le_iff_forall_mem, forall_mem_mul, forall_mem_kindWord, forall_mem_identWord,
    forall_mem_one]
  rintro a i b c d e f g h j k args l m ts ⟨vars, hts⟩ _ ⟨body, us, n, hus, rfl⟩ o
  have hread : ∃ m, MainClass.ReadFrom m _ :=
    ⟨_, @MainClass.ReadFrom.intro a b c d e f g h j k l m n o i args vars body ts us hts hus⟩
  show ∃ m, MainClass.ReadFrom m _
  simpa only [List.append_assoc, List.cons_append, List.nil_append, List.append_nil] using hread

theorem program_le :
    wordsOf MainClass.ReadFrom * wordsOf (ReadAll ClassDecl.ReadFrom) ≤
      wordsOf Program.ReadFrom := by
  rintro _ ⟨ts, ⟨main, hts⟩, us, ⟨classes, hus⟩, rfl⟩
  exact ⟨_, .intro hts hus⟩

namespace Cursor

section

variable {W : Type} {c : W → Cursor} {w : W}

theorem tracks_typeExpr (hw : (c w).Marked) :
    Tracks (wordsOf TypeExpr.ReadFrom) c (fun u => (c u).typeExpr) w := by
  refine .byKind hw fun s => ?_
  unfold typeExpr
  cases hkind : (c w).kind with
  | keyword word =>
    cases word with
    | intKw =>
      simp only [s.kind_eq, hkind]
      refine .mono (.bind (tracks_keyword s.marked) fun s₁ => ?_) (mul_behind_le _ _)
      refine .branch (.symbol .lbracket) Token.Kind.noConfusion s₁.marked intArrayType_le ?_ ?_
      · intro s₂ haccept
        simp only [haccept]
        exact .bind (tracks_symbol s₂.marked) fun s₃ => .pure s₃.marked
      · intro s₂ haccept
        simp only [haccept]
        exact .mono (.pure s₂.marked) intType_le
    | booleanKw =>
      simp only [s.kind_eq, hkind]
      exact .mono (.bind (tracks_keyword s.marked) fun s₁ => .pure s₁.marked) booleanType_le
    | _ =>
      simp only [s.kind_eq, hkind]
      exact .fail s.marked fun u => rfl
  | ident name =>
    simp only [s.kind_eq, hkind]
    exact .mono (.bind (tracks_ident s.marked) fun s₁ => .pure s₁.marked) namedType_le
  | symbol | intLit | eof | unknown =>
    simp only [s.kind_eq, hkind]
    exact .fail s.marked fun u => rfl

theorem tracks_varDecl (hw : (c w).Marked) :
    Tracks (wordsOf VarDecl.ReadFrom) c (fun u => (c u).varDecl) w := by
  unfold varDecl
  exact .mono (.bind (tracks_typeExpr hw) fun s₁ => .bind (tracks_ident s₁.marked) fun s₂ =>
    .bind (tracks_symbol s₂.marked) fun s₃ => .pure s₃.marked) varDecl_le

theorem tracks_varDecls (hw : (c w).Marked) :
    Tracks (wordsOf (ReadAll VarDecl.ReadFrom)) c (fun u => (c u).varDecls) w := by
  generalize hsize : (c w).size = size
  induction size using Nat.strong_induction_on generalizing W with
  | _ size ih =>
    refine .byKind hw fun s => ?_
    unfold varDecls
    have hat (u : s.V) : (c (s.origin u)).atVarDecl = (c w).atVarDecl := by
      rw [atVarDecl, atVarDecl, s.kind_eq, s.ahead?_eq]
    simp only [hat]
    by_cases hdecl : (c w).atVarDecl = true
    · simp only [if_pos hdecl]
      exact .mono (.bind (tracks_varDecl s.marked) fun s₁ =>
        .bind (ih _ (hsize ▸ s₁.size_lt.trans_eq s.size_eq) s₁.marked rfl) fun s₂ =>
        .pure s₂.marked) (more_forms_le _)
    · simp only [if_neg hdecl]
      exact .mono (.pure s.marked) (no_form_le _)

theorem tracks_params (hw : (c w).Marked) :
    Tracks paramsWords c (fun u => (c u).params) w := by
  generalize hsize : (c w).size = size
  induction size using Nat.strong_induction_on generalizing W with
  | _ size ih =>
    unfold params
    refine .mono (.bind (tracks_typeExpr hw) fun s₁ => ?_) (mul_behind_le _ _)
    refine .mono (.bind (tracks_ident s₁.marked) fun s₂ => ?_) (mul_behind_le _ _)
    refine .branch (.symbol .comma) Token.Kind.noConfusion s₂.marked more_params_le ?_ ?_
    · intro s₃ haccept
      simp only [haccept]
      exact .bind (ih _ (hsize ▸ s₃.size_lt.trans (s₂.size_lt.trans s₁.size_lt)) s₃.marked rfl)
        fun s₄ => .pure s₄.marked
    · intro s₃ haccept
      simp only [haccept]
      exact .mono (.bind (tracks_symbol s₃.marked) fun s₄ => .pure s₄.marked) one_param_le

theorem tracks_paramList (hw : (c w).Marked) :
    Tracks paramListWords c (fun u => (c u).paramList) w := by
  unfold paramList
  refine .mono (.bind (tracks_symbol hw) fun s₁ => ?_) (mul_behind_le _ _)
  refine .branch (.symbol .rparen) Token.Kind.noConfusion s₁.marked no_params_le ?_ ?_
  · intro s₂ haccept
    simp only [haccept]
    exact .pure s₂.marked
  · intro s₂ haccept
    simp only [haccept]
    exact .mono (.bind (tracks_params s₂.marked) fun s₃ => .pure s₃.marked) params_le

theorem tracks_methodDecl (hw : (c w).Marked) :
    Tracks (wordsOf MethodDecl.ReadFrom) c (fun u => (c u).methodDecl) w := by
  unfold methodDecl
  exact .mono (.bind (tracks_keyword hw) fun s₁ => .bind (tracks_typeExpr s₁.marked) fun s₂ =>
    .bind (tracks_ident s₂.marked) fun s₃ => .bind (tracks_paramList s₃.marked) fun s₄ =>
    .bind (tracks_symbol s₄.marked) fun s₅ => .bind (tracks_varDecls s₅.marked) fun s₆ =>
    .bind (tracks_stmtsUpTo Token.Kind.noConfusion s₆.marked) fun s₇ =>
    .bind (tracks_expr s₇.marked) fun s₈ => .bind (tracks_symbol s₈.marked) fun s₉ =>
    .bind (tracks_symbol s₉.marked) fun s₁₀ => .pure s₁₀.marked) methodDecl_le

theorem tracks_methodDecls (hw : (c w).Marked) :
    Tracks (wordsOf (ReadAll MethodDecl.ReadFrom)) c (fun u => (c u).methodDecls) w := by
  generalize hsize : (c w).size = size
  induction size using Nat.strong_induction_on generalizing W with
  | _ size ih =>
    refine .byKind hw fun s => ?_
    unfold methodDecls
    simp only [s.kind_eq]
    by_cases hdecl : (c w).kind = .keyword .publicKw
    · simp only [if_pos hdecl]
      exact .mono (.bind (tracks_methodDecl s.marked) fun s₁ =>
        .bind (ih _ (hsize ▸ s₁.size_lt.trans_eq s.size_eq) s₁.marked rfl) fun s₂ =>
        .pure s₂.marked) (more_forms_le _)
    · simp only [if_neg hdecl]
      exact .mono (.pure s.marked) (no_form_le _)

theorem tracks_parent (hw : (c w).Marked) :
    Tracks (wordsOf ClassDecl.ParentReadFrom) c (fun u => (c u).parent) w := by
  unfold parent
  refine .branch (.keyword .extendsKw) Token.Kind.noConfusion hw parent_le ?_ ?_
  · intro s₁ haccept
    simp only [haccept]
    exact .bind (tracks_ident s₁.marked) fun s₂ => .pure s₂.marked
  · intro s₁ haccept
    simp only [haccept]
    exact .mono (.pure s₁.marked) no_parent_le

theorem tracks_classDecl (hw : (c w).Marked) :
    Tracks (wordsOf ClassDecl.ReadFrom) c (fun u => (c u).classDecl) w := by
  unfold classDecl
  exact .mono (.bind (tracks_keyword hw) fun s₁ => .bind (tracks_ident s₁.marked) fun s₂ =>
    .bind (tracks_parent s₂.marked) fun s₃ => .bind (tracks_symbol s₃.marked) fun s₄ =>
    .bind (tracks_varDecls s₄.marked) fun s₅ => .bind (tracks_methodDecls s₅.marked) fun s₆ =>
    .bind (tracks_symbol s₆.marked) fun s₇ => .pure s₇.marked) classDecl_le

theorem tracks_mainClass (hw : (c w).Marked) :
    Tracks (wordsOf MainClass.ReadFrom) c (fun u => (c u).mainClass) w := by
  unfold mainClass
  exact .mono (.bind (tracks_keyword hw) fun s₁ => .bind (tracks_ident s₁.marked) fun s₂ =>
    .bind (tracks_symbol s₂.marked) fun s₃ => .bind (tracks_keyword s₃.marked) fun s₄ =>
    .bind (tracks_keyword s₄.marked) fun s₅ => .bind (tracks_keyword s₅.marked) fun s₆ =>
    .bind (tracks_word s₆.marked) fun s₇ => .bind (tracks_symbol s₇.marked) fun s₈ =>
    .bind (tracks_word s₈.marked) fun s₉ => .bind (tracks_symbol s₉.marked) fun s₁₀ =>
    .bind (tracks_symbol s₁₀.marked) fun s₁₁ => .bind (tracks_ident s₁₁.marked) fun s₁₂ =>
    .bind (tracks_symbol s₁₂.marked) fun s₁₃ => .bind (tracks_symbol s₁₃.marked) fun s₁₄ =>
    .bind (tracks_varDecls s₁₄.marked) fun s₁₅ =>
    .bind (tracks_stmtsUpTo Token.Kind.noConfusion s₁₅.marked) fun s₁₆ =>
    .bind (tracks_symbol s₁₆.marked) fun s₁₇ => .pure s₁₇.marked) mainClass_le

theorem failsAt_classDecls (hw : (c w).Marked) :
    FailsAt (wordsOf (ReadAll ClassDecl.ReadFrom)) c (fun u => (c u).classDecls) w := by
  generalize hsize : (c w).size = size
  induction size using Nat.strong_induction_on generalizing W with
  | _ size ih =>
    refine .byKind hw fun s => ?_
    unfold classDecls
    simp only [s.kind_eq]
    by_cases heof : (c w).kind = .eof
    · simp only [if_pos heof]
      exact fun _ he => nomatch he
    · simp only [if_neg heof]
      refine .mono (.bind (tracks_classDecl s.marked) fun s₁ =>
        .map (ih _ (hsize ▸ s₁.size_lt.trans_eq s.size_eq) s₁.marked rfl)) ?_
      simpa only [mul_one] using more_forms_le ClassDecl.ReadFrom

end

end Cursor

/-- What the error of a list of tokens with an end mark says. -/
theorem Program.ofTokens_failsAt {tokens : List Token} (h : (Cursor.start tokens).Marked) :
    Cursor.FailsAt (wordsOf Program.ReadFrom) Cursor.start Program.ofTokens tokens := by
  unfold Program.ofTokens
  exact .mono (.bind (Cursor.tracks_mainClass h) fun s =>
    .map (Cursor.failsAt_classDecls s.marked)) program_le

/-- The error of a text stands at one of its tokens. The tokens before this one begin a program, and
every text with tokens of the same kinds up to the next one has the error there. -/
theorem Program.parse_eq_error {text : String} {file : Nat} {e : SyntaxError}
    (h : Program.parse text file = .error e) :
    ∃ k t, (tokenize text file)[k]? = some t ∧ e.span = t.span ∧
      Viable (wordsOf Program.ReadFrom) ((tokenize text file).take k) ∧
      ∀ text' file',
        (∀ i < k + 2,
          (tokenize text' file')[i]?.map Token.kind = (tokenize text file)[i]?.map Token.kind) →
        ∃ t', (tokenize text' file')[k]? = some t' ∧
          Program.parse text' file' = .error ⟨e.fault, t'.span⟩ := by
  obtain ⟨words, mark, htokens, hmark, -⟩ := tokenize_shape text file
  obtain ⟨ts, t, us, hrest, hspan, hviable, hrun⟩ :=
    Program.ofTokens_failsAt ⟨words, mark, htokens, hmark⟩ e h
  have hrest : tokenize text file = ts ++ t :: us := hrest
  refine ⟨ts.length, t, ?_, hspan, ?_, fun text' file' hagree => ?_⟩
  · rw [hrest, List.getElem?_append_right (Nat.le_refl _), Nat.sub_self, List.getElem?_cons_zero]
  · rwa [hrest, List.take_left]
  · obtain ⟨ts', t', us', hlength, hrest', hfail⟩ := hrun (tokenize text' file') hagree
    have hrest' : tokenize text' file' = ts' ++ t' :: us' := hrest'
    refine ⟨t', ?_, hfail⟩
    rw [hrest', ← hlength, List.getElem?_append_right (Nat.le_refl _), Nat.sub_self,
      List.getElem?_cons_zero]

end MiniJava
