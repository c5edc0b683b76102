import MiniJava.Proofs.CursorSteps

/-!
# Everything that is written can be read

If a value has a derivation from the tokens between two places, its reader goes from the one place
to the other and gives that value (`ReadFrom.…_eq`). Where a form may go on, the token behind it has
to be one that it does not go on with: an expression is followed by a closing sign, a comma or a
semicolon, a type by a name, and declarations of variables by something that is none.
-/

namespace MiniJava

/-- Whether a token of a kind cannot belong to an expression that was complete before it. -/
def Token.Kind.endsExpr : Kind → Bool
  | .symbol .semicolon | .symbol .comma | .symbol .rparen | .symbol .rbracket => true
  | _ => false

/-- Whether a statement can begin with a token of a kind. -/
def Token.Kind.startsStmt : Kind → Bool
  | .symbol .lbrace | .keyword .ifKw | .keyword .whileKw | .ident _ => true
  | _ => false

/-! ### What is behind an expression, and what it begins with -/

section

variable {c c' : Cursor} {ts : List Token}

theorem Cursor.expr_eq_of_primary {e : Expr} {lt : c'.size < c.size}
    (h : c.primary = .ok ⟨e, c', lt⟩) (hend : c'.kind.endsExpr = true) :
    c.expr = .ok ⟨e, c', lt⟩ := by
  have hop : BinOp.ofKind? c'.kind = none := by
    cases hop : BinOp.ofKind? c'.kind with
    | none => rfl
    | some op =>
      rw [BinOp.eq_symbol_of_ofKind? hop] at hend
      cases op <;> cases hend
  have hbracket : c'.accept (.symbol .lbracket) = none :=
    accept_eq_none fun hk => by rw [hk] at hend; cases hend
  have hdot : c'.accept (.symbol .dot) = none :=
    accept_eq_none fun hk => by rw [hk] at hend; cases hend
  rw [expr, h, ok_bind]
  simp only [hop, hbracket, hdot]
  rfl

/-- No expression begins with a closing parenthesis. -/
theorem Expr.ReadFrom.kind_ne_rparen : ∀ {e : Expr} {ts : List Token}, e.ReadFrom ts →
    ∀ {c c' : Cursor}, c.Reads ts c' → c.kind ≠ .symbol .rparen
  | _, _, .int _, _, _, hr | _, _, .bool, _, _, hr | _, _, .ident, _, _, hr
  | _, _, .this, _, _, hr | _, _, .newArray _, _, _, hr | _, _, .newObject, _, _, hr
  | _, _, .not _ _, _, _, hr | _, _, .paren _, _, _, hr => by
    rw [hr.kind_eq]
    exact nofun
  | _, _, .binary _ _ h _, _, _, hr | _, _, .index _ _ h _, _, _, hr
  | _, _, .length _ h, _, _, hr | _, _, .send _ h _, _, _, hr => by
    obtain ⟨c₁, hleft, -⟩ := hr.exists_between
    exact h.kind_ne_rparen hleft

theorem Expr.ArgsReadFrom.kind_ne_rparen {args : List Expr} {us : List Token}
    (h : Expr.ArgsReadFrom args ts) (hnil : args ≠ []) (hr : c.Reads (ts ++ us) c') :
    c.kind ≠ .symbol .rparen := by
  obtain ⟨c₁, hr, -⟩ := hr.exists_between
  cases h with
  | nil => exact absurd rfl hnil
  | one harg => exact harg.kind_ne_rparen hr
  | cons harg _ =>
    obtain ⟨c₂, hr, -⟩ := hr.exists_between
    exact harg.kind_ne_rparen hr

/-- The reader of primary expressions reads an expression from its tokens. -/
def Expr.ReadAsPrimary (e : Expr) (ts : List Token) : Prop :=
  ∀ ⦃c c' : Cursor⦄, c.Reads ts c' → ∃ lt, c.primary = .ok ⟨e, c', lt⟩

/-- The reader of expressions reads an expression from its tokens, if it ends there. -/
def Expr.ReadAsExpr (e : Expr) (ts : List Token) : Prop :=
  ∀ ⦃c c' : Cursor⦄, c.Reads ts c' → c'.kind.endsExpr = true → ∃ lt, c.expr = .ok ⟨e, c', lt⟩

/-- The reader of arguments reads them from their tokens, with the parenthesis behind. -/
def Expr.ReadAsArgs (args : List Expr) (ts : List Token) : Prop :=
  ∀ ⦃c c' : Cursor⦄ ⦃a : Span⦄, c.Reads (ts ++ [⟨.symbol .rparen, a⟩]) c' →
    ∃ lt, c.args = .ok ⟨args, c', lt⟩

end

/-! ### Primary forms -/

namespace Expr.ReadAsPrimary

variable {e : Expr} {name : Ident} {ts : List Token} {a b c d : Span}

theorem int {digits : String} (hint : isIntText digits = true) :
    (Expr.int a (Digits.value digits.toList)).ReadAsPrimary [⟨.intLit digits, a⟩] := by
  intro c c' hr
  have hkind := hr.kind_eq
  obtain ⟨c₁, h₁, hlit, ha, hr⟩ := hr.expect_eq
  obtain rfl := hr.eq_of_nil
  rw [Cursor.primary]
  simp only [hkind, hlit, ok_bind, hint, ↓reduceIte, ha]
  exact ⟨by omega, rfl⟩

theorem bool {value : Bool} :
    (Expr.bool a value).ReadAsPrimary [⟨.keyword (if value then .trueKw else .falseKw), a⟩] := by
  intro c c' hr
  have hkind := hr.kind_eq
  obtain ⟨c₁, h₁, hword, ha, hr⟩ := hr.keyword_eq
  obtain rfl := hr.eq_of_nil
  cases value with
  | true =>
    have hword : c.keyword .trueKw = .ok ⟨(), c', h₁⟩ := hword
    rw [Cursor.primary]
    simp only [hkind, hword, ok_bind, ↓reduceIte, ha]
    exact ⟨by omega, rfl⟩
  | false =>
    have hword : c.keyword .falseKw = .ok ⟨(), c', h₁⟩ := hword
    rw [Cursor.primary]
    simp only [hkind, hword, ok_bind, Bool.false_eq_true, ↓reduceIte, ha]
    exact ⟨by omega, rfl⟩

theorem ident : (Expr.ident name).ReadAsPrimary [name.token] := by
  intro c c' hr
  have hkind := hr.kind_eq
  obtain ⟨c₁, h₁, hname, -, hr⟩ := hr.ident_eq
  obtain rfl := hr.eq_of_nil
  rw [Cursor.primary]
  simp only [hkind, hname, ok_bind, Ident.token_kind, Ident.kind]
  exact ⟨by omega, rfl⟩

theorem this : (Expr.this a).ReadAsPrimary [⟨.keyword .thisKw, a⟩] := by
  intro c c' hr
  have hkind := hr.kind_eq
  obtain ⟨c₁, h₁, hthis, ha, hr⟩ := hr.keyword_eq
  obtain rfl := hr.eq_of_nil
  rw [Cursor.primary]
  simp only [hkind, hthis, ok_bind, ha]
  exact ⟨by omega, rfl⟩

theorem newArray (h : e.ReadAsExpr ts) :
    (Expr.newArray (a.merge d) e).ReadAsPrimary
      (⟨.keyword .newKw, a⟩ :: ⟨.keyword .intKw, b⟩ :: ⟨.symbol .lbracket, c⟩ ::
        (ts ++ [⟨.symbol .rbracket, d⟩])) := by
  intro c c' hr
  have hkind := hr.kind_eq
  obtain ⟨c₁, h₁, hnew, ha, hr⟩ := hr.keyword_eq
  obtain ⟨c₂, h₂, hint, -, hr⟩ := hr.accept_eq
  obtain ⟨c₃, h₃, hopen, -, hr⟩ := hr.symbol_eq
  obtain ⟨c₄, hsize, hr⟩ := hr.exists_between
  obtain ⟨h₄, hsize⟩ := h hsize (by rw [hr.kind_eq]; rfl)
  obtain ⟨c₅, h₅, hclose, hd, hr⟩ := hr.symbol_eq
  obtain rfl := hr.eq_of_nil
  rw [Cursor.primary]
  simp only [hkind, hnew, hint, hopen, hsize, hclose, ok_bind, ha, hd]
  exact ⟨by omega, rfl⟩

theorem newObject :
    (Expr.newObject (a.merge c) name).ReadAsPrimary
      [⟨.keyword .newKw, a⟩, name.token, ⟨.symbol .lparen, b⟩, ⟨.symbol .rparen, c⟩] := by
  intro c c' hr
  have hkind := hr.kind_eq
  obtain ⟨c₁, h₁, hnew, ha, hr⟩ := hr.keyword_eq
  have hint : c₁.accept (.keyword .intKw) = none :=
    hr.accept_of_ne nofun
  obtain ⟨c₂, h₂, hcls, -, hr⟩ := hr.ident_eq
  obtain ⟨c₃, h₃, hopen, -, hr⟩ := hr.symbol_eq
  obtain ⟨c₄, h₄, hclose, hd, hr⟩ := hr.symbol_eq
  obtain rfl := hr.eq_of_nil
  rw [Cursor.primary]
  simp only [hkind, hnew, hint, hcls, hopen, hclose, ok_bind, ha, hd]
  exact ⟨by omega, rfl⟩

theorem not (h : e.ReadAsPrimary ts) :
    (Expr.not (a.merge e.span) e).ReadAsPrimary (⟨.symbol .bang, a⟩ :: ts) := by
  intro c c' hr
  have hkind := hr.kind_eq
  obtain ⟨c₁, h₁, hbang, ha, hr⟩ := hr.symbol_eq
  obtain ⟨h₂, hoperand⟩ := h hr
  rw [Cursor.primary]
  simp only [hkind, hbang, hoperand, ok_bind, ha]
  exact ⟨by omega, rfl⟩

theorem paren (h : e.ReadAsExpr ts) :
    (Expr.paren (a.merge b) e).ReadAsPrimary
      (⟨.symbol .lparen, a⟩ :: (ts ++ [⟨.symbol .rparen, b⟩])) := by
  intro c c' hr
  have hkind := hr.kind_eq
  obtain ⟨c₁, h₁, hopen, ha, hr⟩ := hr.symbol_eq
  obtain ⟨c₂, hinner, hr⟩ := hr.exists_between
  obtain ⟨h₂, hinner⟩ := h hinner (by rw [hr.kind_eq]; rfl)
  obtain ⟨c₃, h₃, hclose, hb, hr⟩ := hr.symbol_eq
  obtain rfl := hr.eq_of_nil
  rw [Cursor.primary]
  simp only [hkind, hopen, hinner, hclose, ok_bind, ha, hb]
  exact ⟨by omega, rfl⟩

/-- What the reader of primary expressions reads, the reader of expressions reads as well. -/
theorem both (h : e.ReadAsPrimary ts) :
    (e.isPrimary = true → e.ReadAsPrimary ts) ∧ e.ReadAsExpr ts := by
  refine ⟨fun _ => h, fun c c' hr hend => ?_⟩
  obtain ⟨lt, he⟩ := h hr
  exact ⟨lt, Cursor.expr_eq_of_primary he hend⟩

end Expr.ReadAsPrimary

/-! ### Forms with something behind a primary expression -/

namespace Expr.ReadAsExpr

variable {e f : Expr} {ts us : List Token} {a b c : Span}

theorem binary {op : BinOp} (hleft : e.ReadAsPrimary ts) (hright : f.ReadAsPrimary us) :
    (Expr.binary (e.span.merge f.span) op e f).ReadAsExpr
      (ts ++ ⟨.symbol op.symbol, a⟩ :: us) := by
  intro c c' hr hend
  obtain ⟨c₁, hl, hr⟩ := hr.exists_between
  obtain ⟨h₁, hleft⟩ := hleft hl
  have hop : BinOp.ofKind? c₁.kind = some op := by rw [hr.kind_eq, BinOp.ofKind?_symbol]
  obtain ⟨c₂, h₂, hsign, -, hr⟩ := hr.symbol_eq
  obtain ⟨h₃, hright⟩ := hright hr
  rw [Cursor.expr]
  simp only [hleft, hop, hsign, hright, ok_bind]
  exact ⟨by omega, rfl⟩

theorem index (harray : e.ReadAsPrimary ts) (hposition : f.ReadAsPrimary us) :
    (Expr.index (e.span.merge b) e f).ReadAsExpr
      (ts ++ ⟨.symbol .lbracket, a⟩ :: (us ++ [⟨.symbol .rbracket, b⟩])) := by
  intro c c' hr hend
  obtain ⟨c₁, hl, hr⟩ := hr.exists_between
  obtain ⟨h₁, harray⟩ := harray hl
  have hop : BinOp.ofKind? c₁.kind = none := by rw [hr.kind_eq]; rfl
  obtain ⟨c₂, h₂, hopen, -, hr⟩ := hr.accept_eq
  obtain ⟨c₃, hi, hr⟩ := hr.exists_between
  obtain ⟨h₃, hposition⟩ := hposition hi
  obtain ⟨c₄, h₄, hclose, hb, hr⟩ := hr.symbol_eq
  obtain rfl := hr.eq_of_nil
  rw [Cursor.expr]
  simp only [harray, hop, hopen, hposition, hclose, ok_bind, hb]
  exact ⟨by omega, rfl⟩

theorem length (harray : e.ReadAsPrimary ts) :
    (Expr.length (e.span.merge b) e).ReadAsExpr
      (ts ++ [⟨.symbol .dot, a⟩, ⟨.ident "length", b⟩]) := by
  intro c c' hr hend
  obtain ⟨c₁, hl, hr⟩ := hr.exists_between
  obtain ⟨h₁, harray⟩ := harray hl
  have hop : BinOp.ofKind? c₁.kind = none := by rw [hr.kind_eq]; rfl
  have hbracket : c₁.accept (.symbol .lbracket) = none :=
    hr.accept_of_ne nofun
  obtain ⟨c₂, h₂, hdot, -, hr⟩ := hr.accept_eq
  -- `length` without a parenthesis behind it is no call
  obtain ⟨c₃, h₃, hlength, -, hr⟩ := hr.ident_eq (i := ⟨"length", _⟩)
  obtain rfl := hr.eq_of_nil
  have hparen : c'.kind ≠ .symbol .lparen := by
    intro hkind
    rw [hkind] at hend
    cases hend
  rw [Cursor.expr]
  simp only [harray, hop, hbracket, hdot, hlength, ok_bind, hparen, ne_eq, not_false_eq_true,
    and_self, ↓reduceIte]
  exact ⟨by omega, rfl⟩

theorem send {method : Ident} {args : List Expr} (hreceiver : e.ReadAsPrimary ts)
    (hargs : Expr.ArgsReadFrom args us) (hread : args ≠ [] → Expr.ReadAsArgs args us) :
    (Expr.send (e.span.merge c) e method args).ReadAsExpr
      (ts ++ ⟨.symbol .dot, a⟩ :: method.token :: ⟨.symbol .lparen, b⟩ ::
        (us ++ [⟨.symbol .rparen, c⟩])) := by
  intro c c' hr hend
  obtain ⟨c₁, hl, hr⟩ := hr.exists_between
  obtain ⟨h₁, hreceiver⟩ := hreceiver hl
  have hop : BinOp.ofKind? c₁.kind = none := by rw [hr.kind_eq]; rfl
  have hbracket : c₁.accept (.symbol .lbracket) = none :=
    hr.accept_of_ne nofun
  obtain ⟨c₂, h₂, hdot, -, hr⟩ := hr.accept_eq
  obtain ⟨c₃, h₃, hmethod, -, hr⟩ := hr.ident_eq
  -- a method may be called `length`: the parenthesis tells it from the length of an array
  have hparen : c₃.kind = .symbol .lparen := hr.kind_eq
  obtain ⟨c₄, h₄, hopen, -, hr⟩ := hr.symbol_eq
  rw [Cursor.expr]
  simp only [hreceiver, hop, hbracket, hdot, hmethod, hopen, ok_bind, hparen, ne_eq,
    not_true_eq_false, and_false, ↓reduceIte]
  by_cases hnil : args = []
  · subst hnil
    cases hargs
    obtain ⟨c₅, h₅, hclose, hc, hr⟩ := hr.accept_eq
    obtain rfl := hr.eq_of_nil
    simp only [hclose, hc]
    exact ⟨by omega, rfl⟩
  · have hclose := Cursor.accept_eq_none (hargs.kind_ne_rparen hnil hr)
    obtain ⟨h₅, hread⟩ := hread hnil hr
    obtain ⟨c₅, -, hr⟩ := hr.exists_between
    have hlast : c'.last = _ := hr.last_eq
    simp only [hclose, hread, ok_bind, hlast]
    exact ⟨by omega, rfl⟩

/-- The reader of primary expressions does not matter for an expression that is none. -/
theorem both (h : e.ReadAsExpr ts) (hprimary : e.isPrimary = false) :
    (e.isPrimary = true → e.ReadAsPrimary ts) ∧ e.ReadAsExpr ts := by
  refine ⟨fun htrue => ?_, h⟩
  rw [hprimary] at htrue
  cases htrue

end Expr.ReadAsExpr

/-! ### Arguments -/

namespace Expr.ReadAsArgs

variable {arg : Expr} {ts us : List Token}

theorem one (h : arg.ReadAsExpr ts) : Expr.ReadAsArgs [arg] ts := by
  intro c c' a hr
  obtain ⟨c₁, harg, hr⟩ := hr.exists_between
  obtain ⟨h₁, harg⟩ := h harg (by rw [hr.kind_eq]; rfl)
  have hcomma : c₁.accept (.symbol .comma) = none :=
    hr.accept_of_ne nofun
  obtain ⟨c₂, h₂, hclose, -, hr⟩ := hr.symbol_eq
  obtain rfl := hr.eq_of_nil
  rw [Cursor.args]
  simp only [harg, hcomma, hclose, ok_bind]
  exact ⟨by omega, rfl⟩

theorem cons {more : List Expr} {b : Span} (h : arg.ReadAsExpr ts)
    (hmore : Expr.ReadAsArgs more us) :
    Expr.ReadAsArgs (arg :: more) (ts ++ ⟨.symbol .comma, b⟩ :: us) := by
  intro c c' a hr
  rw [List.append_assoc] at hr
  obtain ⟨c₁, harg, hr⟩ := hr.exists_between
  obtain ⟨h₁, harg⟩ := h harg (by rw [hr.kind_eq]; rfl)
  obtain ⟨c₂, h₂, hcomma, -, hr⟩ := hr.accept_eq
  obtain ⟨h₃, hmore⟩ := hmore hr
  rw [Cursor.args]
  simp only [harg, hcomma, hmore, ok_bind]
  exact ⟨by omega, rfl⟩

end Expr.ReadAsArgs

/-! ### Expressions -/

mutual

/-- An expression is read from the tokens of its derivation: by the reader of expressions, and if it
is primary, by the reader of primary expressions too. The induction needs both, for an operand is
read by the one and what stands in brackets by the other. -/
theorem Expr.ReadFrom.read_eq : ∀ {e : Expr} {ts : List Token}, e.ReadFrom ts →
    (e.isPrimary = true → e.ReadAsPrimary ts) ∧ e.ReadAsExpr ts
  | _, _, .int hint => (Expr.ReadAsPrimary.int hint).both
  | _, _, .bool => Expr.ReadAsPrimary.bool.both
  | _, _, .ident => Expr.ReadAsPrimary.ident.both
  | _, _, .this => Expr.ReadAsPrimary.this.both
  | _, _, .newArray hsize => (Expr.ReadAsPrimary.newArray hsize.read_eq.2).both
  | _, _, .newObject => Expr.ReadAsPrimary.newObject.both
  | _, _, .not ho hoperand => (Expr.ReadAsPrimary.not (hoperand.read_eq.1 ho)).both
  | _, _, .paren hinner => (Expr.ReadAsPrimary.paren hinner.read_eq.2).both
  | _, _, .binary hl hr hleft hright =>
    (Expr.ReadAsExpr.binary (hleft.read_eq.1 hl) (hright.read_eq.1 hr)).both rfl
  | _, _, .index ha hp harray hposition =>
    (Expr.ReadAsExpr.index (harray.read_eq.1 ha) (hposition.read_eq.1 hp)).both rfl
  | _, _, .length ha harray => (Expr.ReadAsExpr.length (harray.read_eq.1 ha)).both rfl
  | _, _, .send hp hreceiver hargs =>
    (Expr.ReadAsExpr.send (hreceiver.read_eq.1 hp) hargs hargs.args_eq).both rfl

theorem Expr.ArgsReadFrom.args_eq : ∀ {args : List Expr} {ts : List Token},
    Expr.ArgsReadFrom args ts → args ≠ [] → Expr.ReadAsArgs args ts
  | _, _, .nil, hnil => absurd rfl hnil
  | _, _, .one harg, _ => .one harg.read_eq.2
  | _, _, .cons harg hmore, _ =>
    .cons harg.read_eq.2 (hmore.args_eq (List.cons_ne_nil _ _))

end

/-- The reader of expressions reads an expression from its tokens, if it ends there. -/
theorem Expr.ReadFrom.expr_eq {e : Expr} {ts : List Token} {c c' : Cursor} (h : e.ReadFrom ts)
    (hr : c.Reads ts c') (hend : c'.kind.endsExpr = true) : ∃ lt, c.expr = .ok ⟨e, c', lt⟩ :=
  h.read_eq.2 hr hend

/-! ### Statements -/

section

variable {s : Stmt} {ts : List Token} {c c' : Cursor}

theorem Stmt.ReadFrom.startsStmt (h : s.ReadFrom ts) (hr : c.Reads ts c') :
    c.kind.startsStmt = true := by
  cases h <;> rw [hr.kind_eq] <;> rfl

/-- No statement looks like the declaration of a variable. -/
theorem Stmt.ReadFrom.not_atVarDecl (h : s.ReadFrom ts) (hr : c.Reads ts c') :
    c.atVarDecl = false := by
  cases h with
  | block _ => simp only [Cursor.atVarDecl, hr.kind_eq]
  | ifElse _ _ _ => simp only [Cursor.atVarDecl, hr.kind_eq]
  | whileLoop _ _ => simp only [Cursor.atVarDecl, hr.kind_eq]
  | assign _ => simp only [Cursor.atVarDecl, hr.kind_eq, hr.ahead?_eq, Ident.token_kind, Ident.kind]
  | arrayAssign _ _ =>
    simp only [Cursor.atVarDecl, hr.kind_eq, hr.ahead?_eq, Ident.token_kind, Ident.kind]
  | print _ => simp only [Cursor.atVarDecl, hr.kind_eq, hr.ahead?_eq]

theorem Cursor.stmt_eq_assignment {name : String} (hkind : c.kind = .ident name)
    (hahead : c.ahead? ≠ some (.symbol .dot)) : c.stmt = c.assignment := by
  rw [stmt]
  simp only [hkind, hahead, and_false, ↓reduceIte]

end

mutual

theorem Stmt.ReadFrom.stmt_eq : ∀ {s : Stmt} {ts : List Token}, s.ReadFrom ts →
    ∀ {c c' : Cursor}, c.Reads ts c' → ∃ lt, c.stmt = .ok ⟨s, c', lt⟩
  | _, _, .block h, c, c', hr => by
    have hkind := hr.kind_eq
    obtain ⟨c₁, h₁, hopen, ha, hr⟩ := hr.symbol_eq
    obtain ⟨h₂, hbody⟩ := h.stmtsUpTo_eq rfl hr
    obtain ⟨c₂, -, hr⟩ := hr.exists_between
    have hb : c'.last = _ := hr.last_eq
    rw [Cursor.stmt]
    simp only [hkind, hopen, hbody, ok_bind, ha, hb]
    exact ⟨by omega, rfl⟩
  | _, _, .assign h, c, c', hr => by
    -- the target may be called `System`: only a dot behind it makes a printing statement
    have hahead : c.ahead? ≠ some (.symbol .dot) := by
      rw [hr.ahead?_eq]
      exact nofun
    rw [Cursor.stmt_eq_assignment hr.kind_eq hahead]
    obtain ⟨c₁, h₁, htarget, -, hr⟩ := hr.ident_eq
    have hbracket : c₁.accept (.symbol .lbracket) = none :=
      hr.accept_of_ne nofun
    obtain ⟨c₂, h₂, hassign, -, hr⟩ := hr.symbol_eq
    obtain ⟨c₃, hvalue, hr⟩ := hr.exists_between
    obtain ⟨h₃, hvalue⟩ := h.expr_eq hvalue (by rw [hr.kind_eq]; rfl)
    obtain ⟨c₄, h₄, hsemi, hb, hr⟩ := hr.symbol_eq
    obtain rfl := hr.eq_of_nil
    rw [Cursor.assignment]
    simp only [htarget, hbracket, hassign, hvalue, hsemi, ok_bind, hb]
    exact ⟨by omega, rfl⟩
  | _, _, .arrayAssign hp hv, c, c', hr => by
    have hahead : c.ahead? ≠ some (.symbol .dot) := by
      rw [hr.ahead?_eq]
      exact nofun
    rw [Cursor.stmt_eq_assignment hr.kind_eq hahead]
    obtain ⟨c₁, h₁, htarget, -, hr⟩ := hr.ident_eq
    obtain ⟨c₂, h₂, hopen, -, hr⟩ := hr.accept_eq
    obtain ⟨c₃, hposition, hr⟩ := hr.exists_between
    obtain ⟨h₃, hposition⟩ := hp.expr_eq hposition (by rw [hr.kind_eq]; rfl)
    obtain ⟨c₄, h₄, hclose, -, hr⟩ := hr.symbol_eq
    obtain ⟨c₅, h₅, hassign, -, hr⟩ := hr.symbol_eq
    obtain ⟨c₆, hvalue, hr⟩ := hr.exists_between
    obtain ⟨h₆, hvalue⟩ := hv.expr_eq hvalue (by rw [hr.kind_eq]; rfl)
    obtain ⟨c₇, h₇, hsemi, hd, hr⟩ := hr.symbol_eq
    obtain rfl := hr.eq_of_nil
    rw [Cursor.assignment]
    simp only [htarget, hopen, hposition, hclose, hassign, hvalue, hsemi, ok_bind, hd]
    exact ⟨by omega, rfl⟩
  | _, _, .ifElse hc ht he, c, c', hr => by
    have hkind := hr.kind_eq
    obtain ⟨c₁, h₁, hif, ha, hr⟩ := hr.keyword_eq
    obtain ⟨c₂, h₂, hopen, -, hr⟩ := hr.symbol_eq
    obtain ⟨c₃, hcond, hr⟩ := hr.exists_between
    obtain ⟨h₃, hcond⟩ := hc.expr_eq hcond (by rw [hr.kind_eq]; rfl)
    obtain ⟨c₄, h₄, hclose, -, hr⟩ := hr.symbol_eq
    obtain ⟨c₅, hthen, hr⟩ := hr.exists_between
    obtain ⟨h₅, hthen⟩ := ht.stmt_eq hthen
    obtain ⟨c₆, h₆, helse, hd, hr⟩ := hr.keyword_eq
    have hlast := hr.last_eq
    obtain ⟨h₇, hbranch⟩ := he.stmt_eq hr
    rw [Cursor.stmt]
    simp only [hkind, hif, hopen, hcond, hclose, hthen, helse, hbranch, ok_bind, ha, hlast, hd]
    exact ⟨by omega, rfl⟩
  | _, _, .whileLoop hc hb, c, c', hr => by
    have hkind := hr.kind_eq
    obtain ⟨c₁, h₁, hwhile, ha, hr⟩ := hr.keyword_eq
    obtain ⟨c₂, h₂, hopen, -, hr⟩ := hr.symbol_eq
    obtain ⟨c₃, hcond, hr⟩ := hr.exists_between
    obtain ⟨h₃, hcond⟩ := hc.expr_eq hcond (by rw [hr.kind_eq]; rfl)
    obtain ⟨c₄, h₄, hclose, hc', hr⟩ := hr.symbol_eq
    have hlast := hr.last_eq
    obtain ⟨h₅, hbody⟩ := hb.stmt_eq hr
    rw [Cursor.stmt]
    simp only [hkind, hwhile, hopen, hcond, hclose, hbody, ok_bind, ha, hlast, hc']
    exact ⟨by omega, rfl⟩
  | _, _, .print h, c, c', hr => by
    have hkind := hr.kind_eq
    have hahead := hr.ahead?_eq
    have hstart := hr.current_eq
    obtain ⟨c₁, h₁, hsystem, -, hr⟩ := hr.word_eq
    obtain ⟨c₂, h₂, hdot, -, hr⟩ := hr.symbol_eq
    obtain ⟨c₃, h₃, hout, -, hr⟩ := hr.word_eq
    obtain ⟨c₄, h₄, hdot', -, hr⟩ := hr.symbol_eq
    obtain ⟨c₅, h₅, hprintln, -, hr⟩ := hr.word_eq
    obtain ⟨c₆, h₆, hopen, -, hr⟩ := hr.symbol_eq
    obtain ⟨c₇, hvalue, hr⟩ := hr.exists_between
    obtain ⟨h₇, hvalue⟩ := h.expr_eq hvalue (by rw [hr.kind_eq]; rfl)
    obtain ⟨c₈, h₈, hclose, -, hr⟩ := hr.symbol_eq
    obtain ⟨c₉, h₉, hsemi, hlast, hr⟩ := hr.symbol_eq
    obtain rfl := hr.eq_of_nil
    rw [Cursor.stmt]
    simp only [hkind, hahead, and_self, ↓reduceIte]
    rw [Cursor.printStmt]
    simp only [hsystem, hdot, hout, hdot', hprintln, hopen, hvalue, hclose, hsemi, ok_bind, hstart,
      hlast]
    exact ⟨by omega, rfl⟩

/-- Statements are read up to a token that no statement begins with. -/
theorem Stmt.AllReadFrom.stmtsUpTo_eq : ∀ {body : List Stmt} {ts : List Token},
    Stmt.AllReadFrom body ts → ∀ {close : Token.Kind}, close.startsStmt = false →
    ∀ {c c' : Cursor} {a : Span}, c.Reads (ts ++ [⟨close, a⟩]) c' →
    ∃ lt, c.stmtsUpTo close = .ok ⟨body, c', lt⟩
  | _, _, .nil, _, _, c, c', _, hr => by
    obtain ⟨c₁, h₁, hclose, -, hr⟩ := hr.accept_eq
    obtain rfl := hr.eq_of_nil
    rw [Cursor.stmtsUpTo]
    simp only [hclose]
    exact ⟨by omega, rfl⟩
  | _, _, .cons h hmore, close, hstop, c, c', _, hr => by
    rw [List.append_assoc] at hr
    obtain ⟨c₁, hfirst, hr⟩ := hr.exists_between
    have hstart := h.startsStmt hfirst
    have hclose : c.accept close = none :=
      Cursor.accept_eq_none fun hkind => by rw [hkind, hstop] at hstart; cases hstart
    have heof : c.kind ≠ .eof := fun hkind => by rw [hkind] at hstart; cases hstart
    obtain ⟨h₁, hfirst⟩ := h.stmt_eq hfirst
    obtain ⟨h₂, hmore⟩ := hmore.stmtsUpTo_eq hstop hr
    rw [Cursor.stmtsUpTo]
    simp only [hclose, heof, hfirst, hmore, ok_bind, ↓reduceIte]
    exact ⟨by omega, rfl⟩

end

/-! ### Declarations -/

section

variable {ts us : List Token} {c c' : Cursor}

theorem TypeExpr.ReadFrom.typeExpr_eq {type : TypeExpr} (h : type.ReadFrom ts)
    (hr : c.Reads ts c') (hnext : c'.kind ≠ .symbol .lbracket) :
    ∃ lt, c.typeExpr = .ok ⟨type, c', lt⟩ := by
  have hbracket := Cursor.accept_eq_none hnext
  cases h with
  | int =>
    have hkind := hr.kind_eq
    obtain ⟨c₁, h₁, hint, ha, hr⟩ := hr.keyword_eq
    obtain rfl := hr.eq_of_nil
    rw [Cursor.typeExpr]
    simp only [hkind, hint, hbracket, ok_bind, ha]
    exact ⟨by omega, rfl⟩
  | boolean =>
    have hkind := hr.kind_eq
    obtain ⟨c₁, h₁, hboolean, ha, hr⟩ := hr.keyword_eq
    obtain rfl := hr.eq_of_nil
    rw [Cursor.typeExpr]
    simp only [hkind, hboolean, ok_bind, ha]
    exact ⟨by omega, rfl⟩
  | intArray =>
    have hkind := hr.kind_eq
    obtain ⟨c₁, h₁, hint, ha, hr⟩ := hr.keyword_eq
    obtain ⟨c₂, h₂, hopen, -, hr⟩ := hr.accept_eq
    obtain ⟨c₃, h₃, hclose, hc, hr⟩ := hr.symbol_eq
    obtain rfl := hr.eq_of_nil
    rw [Cursor.typeExpr]
    simp only [hkind, hint, hopen, hclose, ok_bind, ha, hc]
    exact ⟨by omega, rfl⟩
  | named =>
    have hkind := hr.kind_eq
    obtain ⟨c₁, h₁, hname, -, hr⟩ := hr.ident_eq
    obtain rfl := hr.eq_of_nil
    rw [Cursor.typeExpr]
    simp only [hkind, Ident.token_kind, Ident.kind, hname, ok_bind]
    exact ⟨by omega, rfl⟩

/-- A type with a name behind it is read as such. -/
theorem TypeExpr.ReadFrom.typed_eq {type : TypeExpr} {name : Ident} (h : type.ReadFrom ts)
    (hr : c.Reads (ts ++ name.token :: us) c') :
    ∃ c₁ h₁ c₂ h₂, c.typeExpr = .ok ⟨type, c₁, h₁⟩ ∧ c₁.ident = .ok ⟨name, c₂, h₂⟩ ∧
      c₂.last = name.span ∧ c₂.Reads us c' := by
  obtain ⟨c₁, htype, hr⟩ := hr.exists_between
  obtain ⟨h₁, htype⟩ := h.typeExpr_eq htype (by rw [hr.kind_eq]; exact nofun)
  obtain ⟨c₂, h₂, hname, hlast, hr⟩ := hr.ident_eq
  exact ⟨c₁, h₁, c₂, h₂, htype, hname, hlast, hr⟩

theorem TypeExpr.ReadFrom.atVarDecl {type : TypeExpr} {name : Ident} (h : type.ReadFrom ts)
    (hr : c.Reads (ts ++ name.token :: us) c') : c.atVarDecl = true := by
  cases h with
  | int => simp only [Cursor.atVarDecl, hr.kind_eq]
  | boolean => simp only [Cursor.atVarDecl, hr.kind_eq]
  | intArray => simp only [Cursor.atVarDecl, hr.kind_eq]
  | named => simp only [Cursor.atVarDecl, hr.kind_eq, hr.ahead?_eq, Ident.token_kind, Ident.kind]

theorem VarDecl.ReadFrom.varDecl_eq {d : VarDecl} (h : d.ReadFrom ts) (hr : c.Reads ts c') :
    c.atVarDecl = true ∧ ∃ lt, c.varDecl = .ok ⟨d, c', lt⟩ := by
  obtain ⟨htype⟩ := h
  refine ⟨htype.atVarDecl hr, ?_⟩
  obtain ⟨c₁, h₁, c₂, h₂, htype, hname, -, hr⟩ := htype.typed_eq hr
  obtain ⟨c₃, h₃, hsemi, ha, hr⟩ := hr.symbol_eq
  obtain rfl := hr.eq_of_nil
  rw [Cursor.varDecl]
  simp only [htype, hname, hsemi, ok_bind, ha]
  exact ⟨by omega, rfl⟩

theorem varDecls_eq {ds : List VarDecl} (h : ReadAll VarDecl.ReadFrom ds ts)
    (hr : c.Reads ts c') (hend : c'.atVarDecl = false) :
    ∃ lt, c.varDecls = .ok ⟨ds, c', lt⟩ := by
  induction h generalizing c with
  | nil =>
    obtain rfl := hr.eq_of_nil
    rw [Cursor.varDecls]
    simp only [hend, Bool.false_eq_true, ↓reduceIte]
    exact ⟨by omega, rfl⟩
  | cons hfirst _ ih =>
    obtain ⟨c₁, hread, hr⟩ := hr.exists_between
    obtain ⟨hat, h₁, hfirst⟩ := hfirst.varDecl_eq hread
    obtain ⟨h₂, hmore⟩ := ih hr
    rw [Cursor.varDecls]
    simp only [hat, hfirst, hmore, ok_bind, ↓reduceIte]
    exact ⟨by omega, rfl⟩

theorem VarDecl.ParamsReadFrom.params_eq {ds : List VarDecl} {a : Span}
    (h : VarDecl.ParamsReadFrom ds ts) (hnil : ds ≠ [])
    (hr : c.Reads (ts ++ [⟨.symbol .rparen, a⟩]) c') : ∃ lt, c.params = .ok ⟨ds, c', lt⟩ := by
  induction h generalizing c with
  | nil => exact absurd rfl hnil
  | one h =>
    obtain ⟨htype⟩ := h
    rw [List.append_assoc] at hr
    obtain ⟨c₁, h₁, c₂, h₂, htype, hname, hlast, hr⟩ := htype.typed_eq hr
    have hcomma : c₂.accept (.symbol .comma) = none :=
      hr.accept_of_ne nofun
    obtain ⟨c₃, h₃, hclose, -, hr⟩ := hr.symbol_eq
    obtain rfl := hr.eq_of_nil
    rw [Cursor.params]
    simp only [htype, hname, hcomma, hclose, ok_bind, hlast]
    exact ⟨by omega, rfl⟩
  | cons h _ ih =>
    obtain ⟨htype⟩ := h
    rw [List.append_assoc, List.append_assoc] at hr
    obtain ⟨c₁, h₁, c₂, h₂, htype, hname, hlast, hr⟩ := htype.typed_eq hr
    obtain ⟨c₃, h₃, hcomma, -, hr⟩ := hr.accept_eq
    obtain ⟨h₄, hmore⟩ := ih (List.cons_ne_nil _ _) hr
    rw [Cursor.params]
    simp only [htype, hname, hcomma, hmore, ok_bind, hlast]
    exact ⟨by omega, rfl⟩

/-- No parameter begins with a closing parenthesis. -/
theorem VarDecl.ParamsReadFrom.kind_ne_rparen {ds : List VarDecl}
    (h : VarDecl.ParamsReadFrom ds ts) (hnil : ds ≠ []) (hr : c.Reads (ts ++ us) c') :
    c.kind ≠ .symbol .rparen := by
  have htype : ∀ {type : TypeExpr} {vs ws : List Token}, type.ReadFrom vs →
      c.Reads (vs ++ ws) c' → c.kind ≠ .symbol .rparen := by
    intro type vs ws h hr
    cases h <;> rw [hr.kind_eq] <;> exact nofun
  cases h with
  | nil => exact absurd rfl hnil
  | one h =>
    obtain ⟨h⟩ := h
    rw [List.append_assoc] at hr
    exact htype h hr
  | cons h _ =>
    obtain ⟨h⟩ := h
    rw [List.append_assoc, List.append_assoc] at hr
    exact htype h hr

theorem VarDecl.ParamsReadFrom.paramList_eq {ds : List VarDecl} {a b : Span}
    (h : VarDecl.ParamsReadFrom ds ts)
    (hr : c.Reads (⟨.symbol .lparen, a⟩ :: (ts ++ ⟨.symbol .rparen, b⟩ :: us)) c') :
    ∃ c₁ lt, c.paramList = .ok ⟨ds, c₁, lt⟩ ∧ c₁.Reads us c' := by
  obtain ⟨c₁, h₁, hopen, -, hr⟩ := hr.symbol_eq
  obtain ⟨c₂, hparams, hrest⟩ := hr.exists_behind
  refine ⟨c₂, ?_⟩
  by_cases hnil : ds = []
  · subst hnil
    cases h
    obtain ⟨c₃, h₃, hclose, -, hparams⟩ := hparams.accept_eq
    obtain rfl := hparams.eq_of_nil
    rw [Cursor.paramList]
    simp only [hopen, hclose, ok_bind]
    exact ⟨by omega, rfl, hrest⟩
  · have hclose := Cursor.accept_eq_none (h.kind_ne_rparen hnil hparams)
    obtain ⟨h₂, hparams⟩ := h.params_eq hnil hparams
    rw [Cursor.paramList]
    simp only [hopen, hclose, hparams, ok_bind]
    exact ⟨by omega, rfl, hrest⟩

/-- Where statements come, or the token that closes their list, no variable is declared. -/
theorem Stmt.AllReadFrom.not_atVarDecl {body : List Stmt} {close : Token.Kind} {a : Span}
    (h : Stmt.AllReadFrom body ts) (hr : c.Reads (ts ++ ⟨close, a⟩ :: us) c')
    (hclose : close = .symbol .rbrace ∨ close = .keyword .returnKw) : c.atVarDecl = false := by
  cases h with
  | nil => rcases hclose with rfl | rfl <;> simp only [Cursor.atVarDecl, hr.kind_eq]
  | cons h _ =>
    rw [List.append_assoc] at hr
    obtain ⟨c₁, hr, -⟩ := hr.exists_between
    exact h.not_atVarDecl hr

theorem MethodDecl.ReadFrom.methodDecl_eq {d : MethodDecl} (h : d.ReadFrom ts)
    (hr : c.Reads ts c') :
    c.kind = .keyword .publicKw ∧ ∃ lt, c.methodDecl = .ok ⟨d, c', lt⟩ := by
  obtain ⟨hreturns, hparams, hvars, hbody, hresult⟩ := h
  refine ⟨hr.kind_eq, ?_⟩
  have hstart := hr.current_eq
  obtain ⟨c₁, h₁, hpublic, -, hr⟩ := hr.keyword_eq
  obtain ⟨c₂, h₂, c₃, h₃, hreturns, hname, -, hr⟩ := hreturns.typed_eq hr
  obtain ⟨c₄, h₄, hparams, hr⟩ := hparams.paramList_eq hr
  obtain ⟨c₅, h₅, hopen, -, hr⟩ := hr.symbol_eq
  obtain ⟨c₆, hread, hr⟩ := hr.exists_between
  obtain ⟨h₆, hvars⟩ := varDecls_eq hvars hread (hbody.not_atVarDecl hr (.inr rfl))
  obtain ⟨c₇, hread, hr⟩ := hr.exists_behind
  obtain ⟨h₇, hbody⟩ := hbody.stmtsUpTo_eq rfl hread
  obtain ⟨c₈, hread, hr⟩ := hr.exists_between
  obtain ⟨h₈, hresult⟩ := hresult.expr_eq hread (by rw [hr.kind_eq]; rfl)
  obtain ⟨c₉, h₉, hsemi, -, hr⟩ := hr.symbol_eq
  obtain ⟨c₁₀, h₁₀, hclose, hlast, hr⟩ := hr.symbol_eq
  obtain rfl := hr.eq_of_nil
  rw [Cursor.methodDecl]
  simp only [hpublic, hreturns, hname, hparams, hopen, hvars, hbody, hresult, hsemi, hclose,
    ok_bind, hstart, hlast]
  exact ⟨by omega, rfl⟩

theorem methodDecls_eq {ds : List MethodDecl} (h : ReadAll MethodDecl.ReadFrom ds ts)
    (hr : c.Reads ts c') (hend : c'.kind ≠ .keyword .publicKw) :
    ∃ lt, c.methodDecls = .ok ⟨ds, c', lt⟩ := by
  induction h generalizing c with
  | nil =>
    obtain rfl := hr.eq_of_nil
    rw [Cursor.methodDecls]
    simp only [hend, ↓reduceIte]
    exact ⟨by omega, rfl⟩
  | cons hfirst _ ih =>
    obtain ⟨c₁, hread, hr⟩ := hr.exists_between
    obtain ⟨hkind, h₁, hfirst⟩ := hfirst.methodDecl_eq hread
    obtain ⟨h₂, hmore⟩ := ih hr
    rw [Cursor.methodDecls]
    simp only [hkind, hfirst, hmore, ok_bind, ↓reduceIte]
    exact ⟨by omega, rfl⟩

/-- Where methods come, or the brace that closes the class, no variable is declared. -/
theorem not_atVarDecl_of_methods {ds : List MethodDecl} {a : Span}
    (h : ReadAll MethodDecl.ReadFrom ds ts) (hr : c.Reads (ts ++ ⟨.symbol .rbrace, a⟩ :: us) c') :
    c.atVarDecl = false := by
  cases h with
  | nil => simp only [Cursor.atVarDecl, hr.kind_eq]
  | cons h _ =>
    obtain ⟨_, _, _, _, _⟩ := h
    simp only [Cursor.atVarDecl, hr.kind_eq]

theorem ClassDecl.ParentReadFrom.parent_eq {parent : Option Ident}
    (h : ClassDecl.ParentReadFrom parent ts) (hr : c.Reads ts c')
    (hend : c'.kind ≠ .keyword .extendsKw) : ∃ lt, c.parent = .ok ⟨parent, c', lt⟩ := by
  cases h with
  | none =>
    obtain rfl := hr.eq_of_nil
    rw [Cursor.parent]
    simp only [Cursor.accept_eq_none hend]
    exact ⟨by omega, rfl⟩
  | some =>
    obtain ⟨c₁, h₁, hextends, -, hr⟩ := hr.accept_eq
    obtain ⟨c₂, h₂, hname, -, hr⟩ := hr.ident_eq
    obtain rfl := hr.eq_of_nil
    rw [Cursor.parent]
    simp only [hextends, hname, ok_bind]
    exact ⟨by omega, rfl⟩

theorem ClassDecl.ReadFrom.classDecl_eq {d : ClassDecl} (h : d.ReadFrom ts) (hr : c.Reads ts c') :
    c.kind = .keyword .classKw ∧ ∃ lt, c.classDecl = .ok ⟨d, c', lt⟩ := by
  obtain ⟨hparent, hfields, hmethods⟩ := h
  refine ⟨hr.kind_eq, ?_⟩
  have hstart := hr.current_eq
  obtain ⟨c₁, h₁, hclass, -, hr⟩ := hr.keyword_eq
  obtain ⟨c₂, h₂, hname, -, hr⟩ := hr.ident_eq
  obtain ⟨c₃, hread, hr⟩ := hr.exists_between
  obtain ⟨h₃, hparent⟩ := hparent.parent_eq hread (by rw [hr.kind_eq]; exact nofun)
  obtain ⟨c₄, h₄, hopen, -, hr⟩ := hr.symbol_eq
  obtain ⟨c₅, hread, hr⟩ := hr.exists_between
  obtain ⟨h₅, hfields⟩ := varDecls_eq hfields hread (not_atVarDecl_of_methods hmethods hr)
  obtain ⟨c₆, hread, hr⟩ := hr.exists_between
  obtain ⟨h₆, hmethods⟩ := methodDecls_eq hmethods hread (by rw [hr.kind_eq]; exact nofun)
  obtain ⟨c₇, h₇, hclose, hlast, hr⟩ := hr.symbol_eq
  obtain rfl := hr.eq_of_nil
  rw [Cursor.classDecl]
  simp only [hclass, hname, hparent, hopen, hfields, hmethods, hclose, ok_bind, hstart, hlast]
  exact ⟨by omega, rfl⟩

theorem classDecls_eq {ds : List ClassDecl} (h : ReadAll ClassDecl.ReadFrom ds ts)
    (hr : c.Reads ts c') (heof : c'.kind = .eof) : c.classDecls = .ok ds := by
  induction h generalizing c with
  | nil =>
    obtain rfl := hr.eq_of_nil
    rw [Cursor.classDecls]
    simp only [heof, ↓reduceIte]
    rfl
  | cons hfirst _ ih =>
    obtain ⟨c₁, hread, hr⟩ := hr.exists_between
    obtain ⟨hkind, h₁, hfirst⟩ := hfirst.classDecl_eq hread
    rw [Cursor.classDecls]
    simp only [hkind, hfirst, ih hr, ok_bind, reduceCtorEq, ↓reduceIte]
    rfl

theorem MainClass.ReadFrom.mainClass_eq {d : MainClass} (h : d.ReadFrom ts) (hr : c.Reads ts c') :
    ∃ lt, c.mainClass = .ok ⟨d, c', lt⟩ := by
  obtain ⟨hvars, hbody⟩ := h
  have hstart := hr.current_eq
  obtain ⟨c₁, h₁, hclass, -, hr⟩ := hr.keyword_eq
  obtain ⟨c₂, h₂, hname, -, hr⟩ := hr.ident_eq
  obtain ⟨c₃, h₃, hopen, -, hr⟩ := hr.symbol_eq
  obtain ⟨c₄, h₄, hpublic, -, hr⟩ := hr.keyword_eq
  obtain ⟨c₅, h₅, hstatic, -, hr⟩ := hr.keyword_eq
  obtain ⟨c₆, h₆, hvoid, -, hr⟩ := hr.keyword_eq
  obtain ⟨c₇, h₇, hmain, -, hr⟩ := hr.word_eq
  obtain ⟨c₈, h₈, hparen, -, hr⟩ := hr.symbol_eq
  obtain ⟨c₉, h₉, hstring, -, hr⟩ := hr.word_eq
  obtain ⟨c₁₀, h₁₀, hbracket, -, hr⟩ := hr.symbol_eq
  obtain ⟨c₁₁, h₁₁, hbracket', -, hr⟩ := hr.symbol_eq
  obtain ⟨c₁₂, h₁₂, hargs, -, hr⟩ := hr.ident_eq
  obtain ⟨c₁₃, h₁₃, hparen', -, hr⟩ := hr.symbol_eq
  obtain ⟨c₁₄, h₁₄, hopen', -, hr⟩ := hr.symbol_eq
  obtain ⟨c₁₅, hread, hr⟩ := hr.exists_between
  obtain ⟨h₁₅, hvars⟩ := varDecls_eq hvars hread (hbody.not_atVarDecl hr (.inl rfl))
  obtain ⟨c₁₆, hread, hr⟩ := hr.exists_behind
  obtain ⟨h₁₆, hbody⟩ := hbody.stmtsUpTo_eq rfl hread
  obtain ⟨c₁₇, h₁₇, hclose, hlast, hr⟩ := hr.symbol_eq
  obtain rfl := hr.eq_of_nil
  rw [Cursor.mainClass]
  simp only [hclass, hname, hopen, hpublic, hstatic, hvoid, hmain, hparen, hstring, hbracket,
    hbracket', hargs, hparen', hopen', hvars, hbody, hclose, ok_bind, hstart, hlast]
  exact ⟨by omega, rfl⟩

end

/-! ### Programs -/

/-- A program is read from the tokens of its derivation, if the end mark is behind them. -/
theorem Program.ReadFrom.ofTokens_eq {p : Program} {ts us : List Token} {mark : Token}
    (h : p.ReadFrom ts) (hmark : mark.kind = .eof) :
    Program.ofTokens (ts ++ mark :: us) = .ok p := by
  obtain ⟨hmain, hclasses⟩ := h
  rename_i ts vs
  have hr : (Cursor.start (ts ++ vs ++ mark :: us)).Reads (ts ++ vs)
      ⟨lastSpan default (ts ++ vs), mark :: us⟩ := ⟨rfl, rfl⟩
  obtain ⟨c₁, hread, hr⟩ := hr.exists_between
  obtain ⟨h₁, hmain⟩ := hmain.mainClass_eq hread
  have hclasses := classDecls_eq hclasses hr hmark
  rw [Program.ofTokens]
  simp only [hmain, hclasses, ok_bind]
  rfl

end MiniJava
