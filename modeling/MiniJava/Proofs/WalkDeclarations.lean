import MiniJava.Program.Map
import MiniJava.Proofs.ParserSoundness
import MiniJava.Proofs.TokenRows
import MiniJava.Proofs.WalkReaders

/-!
# Walks through declarations

A walker that reads a declaration takes its span from the first token to the last one, and a cursor
from the span of the type to the last token. These are the same spans if the tokens lie in a row, so
declarations are compared by way of a change `g` of spans that cannot tell them apart (`Joining`):
one that leaves all spans as they are, if the tokens are those of a text, and one that forgets them
in any case.
-/

namespace MiniJava

/-- The change of spans cannot tell whether a token in between was joined. -/
def Joining (tokens : List Token) (g : Span → Span) : Prop :=
  ∀ i j k s t u, i ≤ j → j ≤ k → k + 1 < tokens.length →
    tokens[i]? = some s → tokens[j]? = some t → tokens[k]? = some u →
    g ((s.span.merge t.span).merge u.span) = g (s.span.merge u.span)

theorem joining_const (tokens : List Token) (a : Span) : Joining tokens fun _ => a :=
  fun _ _ _ _ _ _ _ _ _ _ _ _ => rfl

/-- The tokens of a text have no other spans. -/
theorem joining_tokenize (text : String) (file : Nat) : Joining (tokenize text file) id := by
  obtain ⟨words, mark, htokens, -, -⟩ := tokenize_shape text file
  have hrow := inRow_of_tokenize htokens
  rw [htokens]
  intro i j k s t u hij hjk hk hs ht hu
  rw [List.length_append, List.length_singleton] at hk
  rw [List.getElem?_append_left (by omega)] at hs ht hu
  obtain ⟨hi, rfl⟩ := List.getElem?_eq_some_iff.mp hs
  obtain ⟨hj, rfl⟩ := List.getElem?_eq_some_iff.mp ht
  obtain ⟨hk', rfl⟩ := List.getElem?_eq_some_iff.mp hu
  -- a token that comes later neither starts nor ends earlier
  have hle (m n : Nat) (hn : n < words.length) (hmn : m ≤ n) :
      (words[m]).span.start ≤ (words[n]).span.start ∧
        (words[m]).span.stop ≤ (words[n]).span.stop := by
    rcases Nat.lt_or_eq_of_le hmn with hlt | rfl
    · have hstop := List.pairwise_iff_getElem.mp hrow.pairwise m n (by omega) hn hlt
      have hm := hrow.start_lt _ (List.getElem_mem (show m < words.length by omega))
      have hn' := hrow.start_lt _ (List.getElem_mem hn)
      omega
    · exact ⟨Nat.le_refl _, Nat.le_refl _⟩
  have hfirst := hle i j hj hij
  have hsecond := hle j k hk' hjk
  simp only [id, Span.merge, Span.mk.injEq, and_true]
  omega

section

variable {tokens : List Token} {g : Span → Span} {w w₁ w₂ : Walker} {c c₁ c₂ : Cursor}
  {depth : Nat}

/-- The span of a type goes from its first token up to its last one. -/
theorem span_of_typeExpr {type : TypeExpr} {h₁ : c₁.size < c.size}
    (h : c.typeExpr = .ok ⟨type, c₁, h₁⟩) :
    type.span = c.current.span ∨ type.span = c.current.span.merge c₁.last := by
  obtain ⟨ts, hts, htype⟩ := Cursor.reads_of_typeExpr c h
  cases htype with
  | int | boolean | named => exact .inl (congrArg Token.span hts.current_eq).symm
  | intArray =>
    have hlast : c₁.last = _ := hts.last_eq
    rw [hts.current_eq, hlast]
    exact .inr rfl

theorem Joining.declaration (hg : Joining tokens g) {type : TypeExpr} {h₁ : c₁.size < c.size}
    (htype : c.typeExpr = .ok ⟨type, c₁, h₁⟩) (hp : Place tokens w c) (hp₁ : Place tokens w₁ c₁)
    (hp₂ : Place tokens w₂ c₂) (h₂ : c₂.size < c₁.size) :
    g (c.current.span.merge c₂.last) = g (type.span.merge c₂.last) := by
  rcases span_of_typeExpr htype with hspan | hspan
  · rw [hspan]
  have hposition := hp.position_add_size
  have hposition₁ := hp₁.position_add_size
  have hposition₂ := hp₂.position_add_size
  have hlt₂ := hp₂.position_lt
  have hget₁ : tokens[w₁.position - 1]? = some _ := List.getElem?_eq_getElem (by omega)
  have hget₂ : tokens[w₂.position - 1]? = some _ := List.getElem?_eq_getElem (by omega)
  rw [hspan, hp₁.last_eq (by omega) hget₁, hp₂.last_eq (by omega) hget₂]
  exact (hg _ _ _ _ _ _ (by omega) (by omega) (by omega) hp.getElem?_eq hget₁ hget₂).symm

/-! ### Variables -/

theorem mirrors_typeExpr (hp : Place tokens w c) :
    Mirrors tokens (Reached tokens Eq) Walk.typeExpr w c.typeExpr := by
  have hsize := hp.size_le
  rw [Walk.typeExpr, Cursor.typeExpr]
  refine hp.current fun w₀ hp₀ => ?_
  cases hkind : c.kind with
  | eof | intLit | unknown | symbol =>
    have hcurrent : c.current.kind = _ := hkind
    simp only [hcurrent]
    exact .fail hp₀
  | ident name =>
    have hcurrent : c.current.kind = _ := hkind
    simp only [hcurrent]
    exact hp₀.ident.next fun i c₁ h₁ w₁ hp₁ => .pure hp₁ rfl
  | keyword k =>
    obtain ⟨c₁, h₁, hr, hexpect, hcurrent⟩ := Cursor.exists_step hkind Token.Kind.noConfusion
    cases k with
    | intKw =>
      simp only [hcurrent, Cursor.keyword, hexpect, ok_bind]
      refine hp₀.advance hr Token.Kind.noConfusion fun w₁ hp₁ => ?_
      refine hp₁.consume Token.Kind.noConfusion (fun c₂ h₂ w₂ hopen hp₂ => ?_)
        fun w₂ hopen hp₂ => ?_
      · simp only [hopen, if_true]
        exact hp₂.symbol.skip fun _ c₃ h₃ w₃ hp₃ =>
          hp₃.prevSpan (by omega) fun w₄ hp₄ => .pure hp₄ rfl
      · simp only [hopen, Bool.false_eq_true, if_false]
        exact .pure hp₂ rfl
    | booleanKw =>
      simp only [hcurrent, Cursor.keyword, hexpect, ok_bind]
      exact hp₀.advance hr Token.Kind.noConfusion fun w₁ hp₁ => .pure hp₁ rfl
    | _ =>
      simp only [hcurrent]
      exact .fail hp₀

theorem Place.atVarDecl {β δ : Type} {Q : β → Walker → δ → Prop} {f : Bool → Walk β}
    {y : Except SyntaxError δ} (hp : Place tokens w c)
    (hf : ∀ w₁, Place tokens w₁ c → Mirrors tokens Q (f c.atVarDecl) w₁ y) :
    Mirrors tokens Q (Walk.atVarDecl >>= f) w y := by
  rw [Walk.atVarDecl, bind_assoc]
  refine hp.kind fun w₁ hp₁ => ?_
  have hf := hf w₁ hp₁
  unfold Cursor.atVarDecl at hf
  cases hkind : c.kind with
  | ident name =>
    simp only [hkind] at hf ⊢
    rw [bind_assoc]
    refine hp₁.ahead? ?_
    cases hahead : c.ahead? with
    | none =>
      simp only [hahead] at hf
      exact hf
    | some k =>
      simp only [hahead] at hf
      cases k with
      | ident | keyword | symbol | intLit | eof | unknown => exact hf
  | keyword k =>
    simp only [hkind] at hf
    cases k <;> exact hf
  | symbol | intLit | eof | unknown =>
    simp only [hkind] at hf
    exact hf

/-- Both have read the same declarations, up to the change of spans. -/
def SameVars (g : Span → Span) (ds es : List VarDecl) : Prop :=
  ds.map (VarDecl.map id g) = es.map (VarDecl.map id g)

theorem SameVars.cons {d e : VarDecl} {ds es : List VarDecl}
    (h : d.map id g = e.map id g) (hs : SameVars g ds es) : SameVars g (d :: ds) (e :: es) := by
  rw [SameVars, List.map_cons, List.map_cons, h, hs]

theorem mirrors_varDecls (hg : Joining tokens g) (hp : Place tokens w c)
    (hdepth : 3 * c.size + 1 ≤ depth) :
    Mirrors tokens (Reached tokens (SameVars g)) (Walk.varDecls depth) w c.varDecls := by
  induction depth generalizing w c with
  | zero => omega
  | succ depth ih =>
    have hsize := hp.size_le
    rw [Walk.varDecls, Cursor.varDecls]
    refine hp.atVarDecl fun w₀ hp₀ => ?_
    split
    · simp only [Cursor.varDecl, bind_assoc, pure_bind]
      refine hp₀.current fun w₁ hp₁ => ?_
      refine (mirrors_typeExpr hp₁).read fun type c₁ h₁ w₂ htype hp₂ => ?_
      refine hp₂.ident.next fun name c₂ h₂ w₃ hp₃ => hp₃.symbol.skip fun _ c₃ h₃ w₄ hp₄ => ?_
      refine hp₄.prevSpan (by omega) fun w₅ hp₅ => ?_
      refine (ih hp₅ (by omega)).step fun _ more c₄ h₄ w₆ hmore hp₆ => ?_
      have hspan := hg.declaration htype hp₁ hp₂ hp₄ (by omega)
      exact .pure hp₆ (.cons (by simp only [VarDecl.map, hspan]) hmore)
    · exact .pure hp₀ rfl

theorem mirrors_params (hg : Joining tokens g) (hp : Place tokens w c)
    (hdepth : 3 * c.size + 1 ≤ depth) :
    Mirrors tokens (Reached tokens (SameVars g)) ((Walk.params depth).closed (.symbol .rparen)) w
      c.params := by
  induction depth generalizing w c with
  | zero => omega
  | succ depth ih =>
    have hsize := hp.size_le
    rw [Walk.closed, Walk.params, Cursor.params]
    simp only [bind_assoc]
    refine hp.current fun w₁ hp₁ => ?_
    refine (mirrors_typeExpr hp₁).read fun type c₁ h₁ w₂ htype hp₂ => ?_
    refine hp₂.ident.next fun name c₂ h₂ w₃ hp₃ => hp₃.prevSpan (by omega) fun w₄ hp₄ => ?_
    have hspan := hg.declaration htype hp₁ hp₂ hp₃ h₂
    refine hp₄.consume Token.Kind.noConfusion (fun c₃ h₃ w₅ hcomma hp₅ => ?_)
      fun w₅ hcomma hp₅ => ?_
    · simp only [hcomma, if_true, bind_assoc, pure_bind]
      refine (ih hp₅ (by omega)).closed fun _ more c₄ h₄ w₆ hmore hp₆ => ?_
      exact .pure hp₆ (.cons (by simp only [VarDecl.map, hspan]) hmore)
    · simp only [hcomma, Bool.false_eq_true, if_false, pure_bind]
      refine hp₅.symbol.skip fun _ c₃ h₃ w₆ hp₆ => .pure hp₆ ?_
      exact .cons (by simp only [VarDecl.map, hspan]) rfl

theorem mirrors_paramList (hg : Joining tokens g) (hp : Place tokens w c)
    (hdepth : 3 * c.size ≤ depth) :
    Mirrors tokens (Reached tokens (SameVars g)) (Walk.paramList depth) w c.paramList := by
  rw [Walk.paramList, Cursor.paramList]
  refine hp.symbol.skip fun _ c₁ h₁ w₁ hp₁ => ?_
  refine hp₁.listBefore Token.Kind.noConfusion (fun c₂ h₂ w₂ hclose hp₂ => ?_)
    fun w₂ hclose hp₂ => ?_
  · simp only [hclose]
    exact .pure hp₂ rfl
  · simp only [hclose]
    exact (mirrors_params hg hp₂ (by omega)).closed fun _ params c₂ h₂ w₃ hparams hp₃ =>
      .pure hp₃ hparams

/-! ### Methods and classes -/

theorem mirrors_methodDecl (hg : Joining tokens g) (hp : Place tokens w c)
    (hdepth : 3 * c.size ≤ depth) :
    Mirrors tokens (Reached tokens fun d e => d.map id g = e.map id g) (Walk.methodDecl depth) w
      c.methodDecl := by
  have hsize := hp.size_le
  rw [Walk.methodDecl, Cursor.methodDecl]
  refine hp.current fun w₀ hp₀ => hp₀.keyword.skip fun _ c₁ h₁ w₁ hp₁ => ?_
  refine (mirrors_typeExpr hp₁).next fun returns c₂ h₂ w₂ hp₂ => ?_
  refine hp₂.ident.next fun name c₃ h₃ w₃ hp₃ => ?_
  refine (mirrors_paramList hg hp₃ (by omega)).step fun _ params c₄ h₄ w₄ hparams hp₄ => ?_
  refine hp₄.symbol.skip fun _ c₅ h₅ w₅ hp₅ => ?_
  refine (mirrors_varDecls hg hp₅ (by omega)).step fun _ vars c₆ h₆ w₆ hvars hp₆ => ?_
  refine ((mirrorsStmts tokens depth).stmts _ w₆ c₆ Token.Kind.noConfusion hp₆ (by omega)).closed
    fun _ body c₇ h₇ w₇ hbody hp₇ => ?_
  refine (mirrors_expr hp₇ (by omega)).next fun result c₈ h₈ w₈ hp₈ => ?_
  refine hp₈.symbol.skip fun _ c₉ h₉ w₉ hp₉ => hp₉.symbol.skip fun _ c₁₀ h₁₀ w₁₀ hp₁₀ => ?_
  refine hp₁₀.prevSpan (by omega) fun w₁₁ hp₁₁ => .pure hp₁₁ ?_
  rw [SameVars] at hparams hvars
  simp only [MethodDecl.map, hparams, hvars, hbody]

theorem mirrors_methodDecls (hg : Joining tokens g) (hp : Place tokens w c)
    (hdepth : 3 * c.size + 1 ≤ depth) :
    Mirrors tokens
      (Reached tokens fun ds es => ds.map (MethodDecl.map id g) = es.map (MethodDecl.map id g))
      (Walk.methodDecls depth) w c.methodDecls := by
  induction depth generalizing w c with
  | zero => omega
  | succ depth ih =>
    rw [Walk.methodDecls, Cursor.methodDecls]
    refine hp.check fun w₁ hp₁ => ?_
    simp only [beq_iff_eq]
    split
    · refine (mirrors_methodDecl hg hp₁ (by omega)).step fun _ first c₁ h₁ w₂ hfirst hp₂ => ?_
      refine (ih hp₂ (by omega)).step fun _ more c₂ h₂ w₃ hmore hp₃ => .pure hp₃ ?_
      rw [List.map_cons, List.map_cons, hfirst, hmore]
    · exact .pure hp₁ rfl

theorem mirrors_parent (hp : Place tokens w c) :
    Mirrors tokens (Reached tokens Eq) Walk.parent w c.parent := by
  rw [Walk.parent, Cursor.parent]
  refine hp.consume Token.Kind.noConfusion (fun c₁ h₁ w₁ hextends hp₁ => ?_)
    fun w₁ hextends hp₁ => ?_
  · simp only [hextends, if_true]
    exact hp₁.ident.next fun name c₂ h₂ w₂ hp₂ => .pure hp₂ rfl
  · simp only [hextends, Bool.false_eq_true, if_false]
    exact .pure hp₁ rfl

theorem mirrors_classDecl (hg : Joining tokens g) (hp : Place tokens w c)
    (hdepth : 3 * c.size ≤ depth) :
    Mirrors tokens (Reached tokens fun d e => d.map id g = e.map id g) (Walk.classDecl depth) w
      c.classDecl := by
  have hsize := hp.size_le
  rw [Walk.classDecl, Cursor.classDecl]
  refine hp.current fun w₀ hp₀ => hp₀.keyword.skip fun _ c₁ h₁ w₁ hp₁ => ?_
  refine hp₁.ident.next fun name c₂ h₂ w₂ hp₂ => ?_
  refine (mirrors_parent hp₂).next fun parent c₃ h₃ w₃ hp₃ => ?_
  refine hp₃.symbol.skip fun _ c₄ h₄ w₄ hp₄ => ?_
  refine (mirrors_varDecls hg hp₄ (by omega)).step fun _ fields c₅ h₅ w₅ hfields hp₅ => ?_
  refine (mirrors_methodDecls hg hp₅ (by omega)).step fun _ methods c₆ h₆ w₆ hmethods hp₆ => ?_
  refine hp₆.symbol.skip fun _ c₇ h₇ w₇ hp₇ => ?_
  refine hp₇.prevSpan (by omega) fun w₈ hp₈ => .pure hp₈ ?_
  rw [SameVars] at hfields
  simp only [ClassDecl.map, hfields, hmethods]

theorem mirrors_mainClass (hg : Joining tokens g) (hp : Place tokens w c)
    (hdepth : 3 * c.size ≤ depth) :
    Mirrors tokens (Reached tokens fun d e => d.map id g = e.map id g) (Walk.mainClass depth) w
      c.mainClass := by
  have hsize := hp.size_le
  rw [Walk.mainClass, Cursor.mainClass]
  refine hp.current fun w₀ hp₀ => hp₀.keyword.skip fun _ c₁ h₁ w₁ hp₁ => ?_
  refine hp₁.ident.next fun name c₂ h₂ w₂ hp₂ => hp₂.symbol.skip fun _ c₃ h₃ w₃ hp₃ => ?_
  refine hp₃.keyword.skip fun _ c₄ h₄ w₄ hp₄ => hp₄.keyword.skip fun _ c₅ h₅ w₅ hp₅ => ?_
  refine hp₅.keyword.skip fun _ c₆ h₆ w₆ hp₆ => hp₆.word.skip fun _ c₇ h₇ w₇ hp₇ => ?_
  refine hp₇.symbol.skip fun _ c₈ h₈ w₈ hp₈ => hp₈.word.skip fun _ c₉ h₉ w₉ hp₉ => ?_
  refine hp₉.symbol.skip fun _ c₁₀ h₁₀ w₁₀ hp₁₀ => hp₁₀.symbol.skip fun _ c₁₁ h₁₁ w₁₁ hp₁₁ => ?_
  refine hp₁₁.ident.next fun args c₁₂ h₁₂ w₁₂ hp₁₂ => ?_
  refine hp₁₂.symbol.skip fun _ c₁₃ h₁₃ w₁₃ hp₁₃ => hp₁₃.symbol.skip fun _ c₁₄ h₁₄ w₁₄ hp₁₄ => ?_
  refine (mirrors_varDecls hg hp₁₄ (by omega)).step fun _ vars c₁₅ h₁₅ w₁₅ hvars hp₁₅ => ?_
  refine ((mirrorsStmts tokens depth).stmts _ w₁₅ c₁₅ Token.Kind.noConfusion hp₁₅
    (by omega)).closed fun _ body c₁₆ h₁₆ w₁₆ hbody hp₁₆ => ?_
  refine hp₁₆.symbol.skip fun _ c₁₇ h₁₇ w₁₇ hp₁₇ => ?_
  refine hp₁₇.prevSpan (by omega) fun w₁₈ hp₁₈ => .pure hp₁₈ ?_
  rw [SameVars] at hvars
  simp only [MainClass.map, hvars, hbody]

/-! ### Programs -/

/-- The values are related, and the walker has come to the end mark. -/
def Finished {α β : Type} (tokens : List Token) (R : α → β → Prop) (a : α) (w : Walker) (b : β) :
    Prop :=
  R a b ∧ w.Steady tokens ∧ w.position + 1 = tokens.length

theorem mirrors_classDecls (hg : Joining tokens g) (hp : Place tokens w c)
    (hdepth : 3 * c.size + 1 ≤ depth) :
    Mirrors tokens
      (Finished tokens fun ds es => ds.map (ClassDecl.map id g) = es.map (ClassDecl.map id g))
      (Walk.classDecls depth) w c.classDecls := by
  induction depth generalizing w c with
  | zero => omega
  | succ depth ih =>
    rw [Walk.classDecls, Cursor.classDecls]
    refine hp.check fun w₁ hp₁ => ?_
    simp only [beq_iff_eq]
    split
    · next heof =>
      exact .ok rfl ⟨rfl, hp₁.steady, (hp₁.ended.eof_iff hp₁.getElem?_eq).mp heof⟩
    · refine (mirrors_classDecl hg hp₁ (by omega)).step fun _ first c₁ h₁ w₂ hfirst hp₂ => ?_
      exact (ih hp₂ (by omega)).bind fun _ w₃ more _ hmore =>
        .ok rfl ⟨congrArg₂ List.cons hfirst hmore.1, hmore.2⟩

/-- A walk through a list of tokens ends as the reading of the list does. -/
theorem mirrors_program (hg : Joining tokens g) (hend : EndMarked tokens)
    (hdepth : 3 * tokens.length ≤ depth) :
    Mirrors tokens (Finished tokens fun p q => p.map id g = q.map id g) (Walk.program depth) .start
      (Program.ofTokens tokens) := by
  have hsize : (Cursor.start tokens).size = tokens.length := rfl
  rw [Walk.program, Program.ofTokens]
  refine (mirrors_mainClass hg (.start hend) (by omega)).step fun _ main c₁ h₁ w₁ hmain hp₁ => ?_
  refine (mirrors_classDecls hg hp₁ (by omega)).bind fun _ w₂ classes _ hclasses =>
    .ok rfl ⟨?_, hclasses.2⟩
  simp only [Program.map, hmain, hclasses.1]

end

end MiniJava
