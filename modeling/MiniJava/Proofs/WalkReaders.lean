import MiniJava.Proofs.WalkSteps

/-!
# Walks through expressions and statements

Each reader by an index ends as the reader by a cursor does, if its bound is large enough for the
tokens to come. A bound of three for each token suffices: between two calls that are under way
inside each other, a token is consumed, or the second one is for a simpler form.
-/

namespace MiniJava

variable {tokens : List Token} {w : Walker} {c : Cursor} {depth : Nat}

/-! ### Expressions -/

/-- The readers of expressions with a bound end as the readers by a cursor do. -/
structure MirrorsExprs (tokens : List Token) (depth : Nat) : Prop where
  primary : ∀ w c, Place tokens w c → 3 * c.size + 1 ≤ depth →
    Mirrors tokens (Reached tokens Eq) (Walk.primary depth) w c.primary
  expr : ∀ w c, Place tokens w c → 3 * c.size + 2 ≤ depth →
    Mirrors tokens (Reached tokens Eq) (Walk.expr depth) w c.expr
  args : ∀ w c, Place tokens w c → 3 * c.size + 3 ≤ depth →
    Mirrors tokens (Reached tokens Eq) ((Walk.args depth).closed (.symbol .rparen)) w c.args

theorem mirrors_primary_succ (ih : MirrorsExprs tokens depth) (hp : Place tokens w c)
    (hdepth : 3 * c.size ≤ depth) :
    Mirrors tokens (Reached tokens Eq) (Walk.primary (depth + 1)) w c.primary := by
  have hsize := hp.size_le
  rw [Walk.primary, Cursor.primary]
  refine hp.current fun w₀ hp₀ => ?_
  by_cases heof : c.kind = .eof
  · have hcurrent : c.current.kind = .eof := heof
    simp only [heof, hcurrent]
    exact .fail hp₀
  -- the token that comes decides about the form, and is consumed in all forms but a name
  obtain ⟨c₁, h₁, hr, hexpect, hcurrent⟩ := Cursor.exists_step rfl heof
  cases hkind : c.kind with
  | eof => exact absurd hkind heof
  | intLit digits =>
    rw [hkind] at hr hcurrent hexpect
    simp only [hcurrent, hexpect, ok_bind]
    refine hp₀.advance hr Token.Kind.noConfusion fun w₁ hp₁ => ?_
    split
    · exact .pure hp₁ rfl
    · exact .fail hp₁
  | ident name =>
    rw [hkind] at hcurrent
    simp only [hcurrent]
    exact hp₀.ident.next fun i c₂ h₂ w₂ hp₂ => .pure hp₂ rfl
  | unknown char =>
    rw [hkind] at hcurrent
    simp only [hcurrent]
    exact .fail hp₀
  | keyword k =>
    rw [hkind] at hr hcurrent hexpect
    cases k with
    | trueKw | falseKw | thisKw =>
      simp only [hcurrent, Cursor.keyword, hexpect, ok_bind]
      exact hp₀.advance hr Token.Kind.noConfusion fun w₁ hp₁ => .pure hp₁ rfl
    | newKw =>
      simp only [hcurrent, Cursor.keyword, hexpect, ok_bind]
      refine hp₀.advance hr Token.Kind.noConfusion fun w₁ hp₁ => ?_
      refine hp₁.consume Token.Kind.noConfusion (fun c₂ h₂ w₂ hint hp₂ => ?_) fun w₂ hint hp₂ => ?_
      · simp only [hint]
        exact hp₂.symbol.skip fun _ c₃ h₃ w₃ hp₃ =>
          (ih.expr w₃ c₃ hp₃ (by omega)).next fun size c₄ h₄ w₄ hp₄ =>
          hp₄.symbol.skip fun _ c₅ h₅ w₅ hp₅ =>
          hp₅.prevSpan (by omega) fun w₆ hp₆ => .pure hp₆ rfl
      · simp only [hint]
        exact hp₂.ident.next fun cls c₂ h₂ w₃ hp₃ => hp₃.symbol.skip fun _ c₃ h₃ w₄ hp₄ =>
          hp₄.symbol.skip fun _ c₄ h₄ w₅ hp₅ =>
          hp₅.prevSpan (by omega) fun w₆ hp₆ => .pure hp₆ rfl
    | _ =>
      simp only [hcurrent]
      exact .fail hp₀
  | symbol s =>
    rw [hkind] at hr hcurrent hexpect
    cases s with
    | bang =>
      simp only [hcurrent, Cursor.symbol, hexpect, ok_bind]
      exact hp₀.advance hr Token.Kind.noConfusion fun w₁ hp₁ =>
        (ih.primary w₁ c₁ hp₁ (by omega)).next fun operand c₂ h₂ w₂ hp₂ => .pure hp₂ rfl
    | lparen =>
      simp only [hcurrent, Cursor.symbol, hexpect, ok_bind]
      exact hp₀.advance hr Token.Kind.noConfusion fun w₁ hp₁ =>
        (ih.expr w₁ c₁ hp₁ (by omega)).next fun inner c₂ h₂ w₂ hp₂ =>
        hp₂.symbol.skip fun _ c₃ h₃ w₃ hp₃ =>
        hp₃.prevSpan (by omega) fun w₄ hp₄ => .pure hp₄ rfl
    | _ =>
      simp only [hcurrent]
      exact .fail hp₀

theorem Token.Kind.isBinaryOp_eq (k : Token.Kind) : k.isBinaryOp = (BinOp.ofKind? k).isSome := by
  cases k with
  | symbol s => cases s <;> rfl
  | keyword | ident | intLit | eof | unknown => rfl

/-- A look at two tokens tells whether the name behind a dot stands for the length of an array. -/
theorem isLength_iff {c₁ : Cursor} {name : Ident} {h₁ : c₁.size < c.size}
    (hname : c.ident = .ok ⟨name, c₁, h₁⟩) (hp : Place tokens w c₁) :
    ((c.kind == .ident "length") && (c.ahead? != some (.symbol .lparen))) = true ↔
      name.name = "length" ∧ c₁.kind ≠ .symbol .lparen := by
  have hstep : c.Reads [name.token] c₁ := Cursor.reads_of_ident hname
  rw [hp.ahead?_eq hstep, hstep.kind_eq, Bool.and_eq_true, beq_iff_eq, bne_iff_ne,
    Ident.token_kind, Ident.kind, Token.Kind.ident.injEq, ne_eq, Option.some.injEq]

theorem mirrors_expr_succ (ih : MirrorsExprs tokens depth) (hp : Place tokens w c)
    (hdepth : 3 * c.size + 1 ≤ depth) :
    Mirrors tokens (Reached tokens Eq) (Walk.expr (depth + 1)) w c.expr := by
  have hsize := hp.size_le
  rw [Walk.expr, Cursor.expr]
  refine (ih.primary w c hp hdepth).next fun left c₁ h₁ w₁ hp₁ => ?_
  refine hp₁.kind fun w₂ hp₂ => ?_
  simp only [Token.Kind.isBinaryOp_eq]
  cases hop : BinOp.ofKind? c₁.kind with
  | some op =>
    obtain ⟨c₂, h₂, hr, hexpect, -⟩ := Cursor.exists_step (BinOp.eq_symbol_of_ofKind? hop)
      Token.Kind.noConfusion
    simp only [Cursor.symbol, hexpect, ok_bind, Option.isSome_some, if_true]
    refine hp₂.advance hr Token.Kind.noConfusion fun w₃ hp₃ => ?_
    simp only [Walk.binOp, BinOp.ofKind?_symbol, Option.elim_some, pure_bind]
    exact (ih.primary w₃ c₂ hp₃ (by omega)).next fun right c₃ h₃ w₄ hp₄ => .pure hp₄ rfl
  | none =>
    simp only [Option.isSome_none, Bool.false_eq_true, if_false]
    refine hp₂.consume Token.Kind.noConfusion (fun c₂ h₂ w₃ hopen hp₃ => ?_) fun w₃ hopen hp₃ => ?_
    · simp only [hopen, if_true]
      exact (ih.primary w₃ c₂ hp₃ (by omega)).next fun index c₃ h₃ w₄ hp₄ =>
        hp₄.symbol.skip fun _ c₄ h₄ w₅ hp₅ =>
        hp₅.prevSpan (by omega) fun w₆ hp₆ => .pure hp₆ rfl
    simp only [hopen, Bool.false_eq_true, if_false]
    refine hp₃.consume Token.Kind.noConfusion (fun c₂ h₂ w₄ hdot hp₄ => ?_) fun w₄ hdot hp₄ => ?_
    · simp only [hdot, if_true]
      refine hp₄.check fun w₅ hp₅ => hp₅.ahead? ?_
      refine hp₅.ident.read fun method c₃ h₃ w₆ hmethod hp₆ => ?_
      simp only [isLength_iff hmethod hp₆]
      split
      · exact .pure hp₆ rfl
      refine hp₆.symbol.skip fun _ c₄ h₄ w₇ hp₇ => ?_
      refine hp₇.listBefore Token.Kind.noConfusion (fun c₅ h₅ w₈ hclose hp₈ => ?_)
        fun w₈ hclose hp₈ => ?_
      · simp only [hclose]
        exact hp₈.prevSpan (by omega) fun w₉ hp₉ => .pure hp₉ rfl
      · simp only [hclose]
        refine (ih.args w₈ c₄ hp₈ (by omega)).closed fun _ args c₅ h₅ w₉ hargs hp₉ => ?_
        subst hargs
        exact hp₉.prevSpan (by omega) fun w₁₀ hp₁₀ => .pure hp₁₀ rfl
    · simp only [hdot, Bool.false_eq_true, if_false]
      exact .pure hp₄ rfl

theorem mirrors_args_succ (ih : MirrorsExprs tokens depth) (hp : Place tokens w c)
    (hdepth : 3 * c.size + 2 ≤ depth) :
    Mirrors tokens (Reached tokens Eq) ((Walk.args (depth + 1)).closed (.symbol .rparen)) w
      c.args := by
  rw [Walk.closed, Walk.args, Cursor.args, bind_assoc]
  refine (ih.expr w c hp hdepth).next fun arg c₁ h₁ w₁ hp₁ => ?_
  rw [bind_assoc]
  refine hp₁.consume Token.Kind.noConfusion (fun c₂ h₂ w₂ hcomma hp₂ => ?_) fun w₂ hcomma hp₂ => ?_
  · simp only [hcomma, if_true, bind_assoc, pure_bind]
    refine (ih.args w₂ c₂ hp₂ (by omega)).closed fun _ more c₃ h₃ w₃ hmore hp₃ => ?_
    exact .pure hp₃ (congrArg (arg :: ·) hmore)
  · simp only [hcomma, Bool.false_eq_true, if_false, pure_bind]
    exact hp₂.symbol.skip fun _ c₂ h₂ w₃ hp₃ => .pure hp₃ rfl

/-- With each bound, the readers end as they should where the bound is large enough. -/
theorem mirrorsExprs (tokens : List Token) (depth : Nat) : MirrorsExprs tokens depth := by
  induction depth with
  | zero => exact ⟨fun _ _ _ h => absurd h (by omega), fun _ _ _ h => absurd h (by omega),
      fun _ _ _ h => absurd h (by omega)⟩
  | succ depth ih =>
    exact ⟨fun _ _ hp h => mirrors_primary_succ ih hp (by omega),
      fun _ _ hp h => mirrors_expr_succ ih hp (by omega),
      fun _ _ hp h => mirrors_args_succ ih hp (by omega)⟩

theorem mirrors_expr (hp : Place tokens w c) (hdepth : 3 * c.size + 2 ≤ depth) :
    Mirrors tokens (Reached tokens Eq) (Walk.expr depth) w c.expr :=
  (mirrorsExprs tokens depth).expr w c hp hdepth

/-! ### Statements -/

theorem mirrors_printStmt (hp : Place tokens w c) (hdepth : 3 * c.size ≤ depth) :
    Mirrors tokens (Reached tokens Eq) (Walk.printStmt depth) w c.printStmt := by
  have hsize := hp.size_le
  exact hp.current fun w₀ hp₀ => hp₀.word.skip fun _ c₁ h₁ w₁ hp₁ =>
    hp₁.symbol.skip fun _ c₂ h₂ w₂ hp₂ => hp₂.word.skip fun _ c₃ h₃ w₃ hp₃ =>
    hp₃.symbol.skip fun _ c₄ h₄ w₄ hp₄ => hp₄.word.skip fun _ c₅ h₅ w₅ hp₅ =>
    hp₅.symbol.skip fun _ c₆ h₆ w₆ hp₆ =>
    (mirrors_expr hp₆ (by omega)).next fun value c₇ h₇ w₇ hp₇ =>
    hp₇.symbol.skip fun _ c₈ h₈ w₈ hp₈ => hp₈.symbol.skip fun _ c₉ h₉ w₉ hp₉ =>
    hp₉.prevSpan (by omega) fun w₁₀ hp₁₀ => .pure hp₁₀ rfl

theorem mirrors_assignment (hp : Place tokens w c) (hdepth : 3 * c.size ≤ depth) :
    Mirrors tokens (Reached tokens Eq) (Walk.assignment depth) w c.assignment := by
  have hsize := hp.size_le
  refine hp.ident.next fun target c₁ h₁ w₁ hp₁ => ?_
  refine hp₁.consume Token.Kind.noConfusion (fun c₂ h₂ w₂ hopen hp₂ => ?_) fun w₂ hopen hp₂ => ?_
  · simp only [hopen, if_true]
    exact (mirrors_expr hp₂ (by omega)).next fun index c₃ h₃ w₃ hp₃ =>
      hp₃.symbol.skip fun _ c₄ h₄ w₄ hp₄ => hp₄.symbol.skip fun _ c₅ h₅ w₅ hp₅ =>
      (mirrors_expr hp₅ (by omega)).next fun value c₆ h₆ w₆ hp₆ =>
      hp₆.symbol.skip fun _ c₇ h₇ w₇ hp₇ =>
      hp₇.prevSpan (by omega) fun w₈ hp₈ => .pure hp₈ rfl
  · simp only [hopen, Bool.false_eq_true, if_false]
    exact hp₂.symbol.skip fun _ c₂ h₂ w₃ hp₃ =>
      (mirrors_expr hp₃ (by omega)).next fun value c₃ h₃ w₄ hp₄ =>
      hp₄.symbol.skip fun _ c₄ h₄ w₅ hp₅ =>
      hp₅.prevSpan (by omega) fun w₆ hp₆ => .pure hp₆ rfl

/-- The readers of statements with a bound end as the readers by a cursor do. -/
structure MirrorsStmts (tokens : List Token) (depth : Nat) : Prop where
  stmt : ∀ w c, Place tokens w c → 3 * c.size + 1 ≤ depth →
    Mirrors tokens (Reached tokens Eq) (Walk.stmt depth) w c.stmt
  stmts : ∀ close w c, close ≠ .eof → Place tokens w c → 3 * c.size + 2 ≤ depth →
    Mirrors tokens (Reached tokens Eq) ((Walk.stmtsUntil close depth).closed close) w
      (c.stmtsUpTo close)

theorem mirrors_stmt_succ (ih : MirrorsStmts tokens depth) (hp : Place tokens w c)
    (hdepth : 3 * c.size ≤ depth) :
    Mirrors tokens (Reached tokens Eq) (Walk.stmt (depth + 1)) w c.stmt := by
  have hsize := hp.size_le
  rw [Walk.stmt, Cursor.stmt]
  refine hp.current fun _ hp => hp.check fun _ hp => hp.ahead? <| hp.kind fun w₀ hp₀ => ?_
  cases hkind : c.kind with
  | eof | intLit | unknown => exact hp₀.refuse
  | ident name =>
    simp only [beq_iff_eq, Bool.and_eq_true, Token.Kind.ident.injEq]
    split
    · exact mirrors_printStmt hp₀ hdepth
    · exact mirrors_assignment hp₀ hdepth
  | keyword k =>
    obtain ⟨c₁, h₁, hr, hexpect, hcurrent⟩ := Cursor.exists_step hkind Token.Kind.noConfusion
    cases k with
    | ifKw =>
      simp only [hcurrent, Cursor.keyword, hexpect, ok_bind]
      exact hp₀.advance hr Token.Kind.noConfusion fun w₁ hp₁ =>
        hp₁.symbol.skip fun _ c₂ h₂ w₂ hp₂ =>
        (mirrors_expr hp₂ (by omega)).next fun cond c₃ h₃ w₃ hp₃ =>
        hp₃.symbol.skip fun _ c₄ h₄ w₄ hp₄ =>
        (ih.stmt w₄ c₄ hp₄ (by omega)).next fun thenBranch c₅ h₅ w₅ hp₅ =>
        hp₅.keyword.skip fun _ c₆ h₆ w₆ hp₆ =>
        (ih.stmt w₆ c₆ hp₆ (by omega)).next fun elseBranch c₇ h₇ w₇ hp₇ =>
        hp₇.prevSpan (by omega) fun w₈ hp₈ => .pure hp₈ rfl
    | whileKw =>
      simp only [hcurrent, Cursor.keyword, hexpect, ok_bind]
      exact hp₀.advance hr Token.Kind.noConfusion fun w₁ hp₁ =>
        hp₁.symbol.skip fun _ c₂ h₂ w₂ hp₂ =>
        (mirrors_expr hp₂ (by omega)).next fun cond c₃ h₃ w₃ hp₃ =>
        hp₃.symbol.skip fun _ c₄ h₄ w₄ hp₄ =>
        (ih.stmt w₄ c₄ hp₄ (by omega)).next fun body c₅ h₅ w₅ hp₅ =>
        hp₅.prevSpan (by omega) fun w₆ hp₆ => .pure hp₆ rfl
    | _ => exact hp₀.refuse
  | symbol s =>
    obtain ⟨c₁, h₁, hr, hexpect, hcurrent⟩ := Cursor.exists_step hkind Token.Kind.noConfusion
    cases s with
    | lbrace =>
      simp only [hcurrent, Cursor.symbol, hexpect, ok_bind]
      refine hp₀.advance hr Token.Kind.noConfusion fun w₁ hp₁ => ?_
      refine (ih.stmts _ w₁ c₁ Token.Kind.noConfusion hp₁ (by omega)).closed
        fun _ body c₂ h₂ w₂ hbody hp₂ => ?_
      subst hbody
      exact hp₂.prevSpan (by omega) fun w₃ hp₃ => .pure hp₃ rfl
    | _ => exact hp₀.refuse

theorem mirrors_stmts_succ (ih : MirrorsStmts tokens depth) {close : Token.Kind}
    (hclose : close ≠ .eof) (hp : Place tokens w c) (hdepth : 3 * c.size + 1 ≤ depth) :
    Mirrors tokens (Reached tokens Eq) ((Walk.stmtsUntil close (depth + 1)).closed close) w
      (c.stmtsUpTo close) := by
  rw [Walk.closed, Walk.stmtsUntil, Cursor.stmtsUpTo, bind_assoc]
  refine hp.check fun w₁ hp₁ => ?_
  by_cases hkind : c.kind = close
  · obtain ⟨c₁, h₁, hr, -⟩ := Cursor.exists_step hkind hclose
    rw [if_pos (beq_iff_eq.mpr hkind), pure_bind, hr]
    exact hp₁.expected hr hclose fun _ w₂ hp₂ => .pure hp₂ rfl
  rw [if_neg (by rwa [beq_iff_eq]), bind_assoc, Cursor.accept_eq_none hkind]
  refine hp₁.check fun w₂ hp₂ => ?_
  by_cases heof : c.kind = .eof
  · rw [if_pos (beq_iff_eq.mpr heof), pure_bind]
    simp only [if_pos heof]
    exact hp₂.refused hclose hkind
  · simp only [if_neg heof, beq_iff_eq, bind_assoc, pure_bind]
    refine (ih.stmt w₂ c hp₂ hdepth).next fun first c₁ h₁ w₃ hp₃ => ?_
    refine (ih.stmts close w₃ c₁ hclose hp₃ (by omega)).closed fun _ more c₂ h₂ w₄ hmore hp₄ => ?_
    exact .pure hp₄ (congrArg (first :: ·) hmore)

theorem mirrorsStmts (tokens : List Token) (depth : Nat) : MirrorsStmts tokens depth := by
  induction depth with
  | zero => exact ⟨fun _ _ _ h => absurd h (by omega), fun _ _ _ _ _ h => absurd h (by omega)⟩
  | succ depth ih =>
    exact ⟨fun _ _ hp h => mirrors_stmt_succ ih hp (by omega),
      fun _ _ _ hclose hp h => mirrors_stmts_succ ih hclose hp (by omega)⟩

end MiniJava
