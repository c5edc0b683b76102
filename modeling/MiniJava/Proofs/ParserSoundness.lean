import MiniJava.Proofs.CursorSteps
import MiniJava.Proofs.Derivation

/-!
# What is read is what was written

Each reader that succeeds has read the tokens of a derivation of its value (`reads_of_…`). Hence a
program that is read from a text is one that the grammar admits, and its kinds are the kinds of the
text, up to leading zeros of integer literals (`Program.written_of_parse`).
-/

namespace MiniJava

namespace Cursor

/-! ### Expressions -/

mutual

theorem reads_of_primary (c : Cursor) {r : Read Expr c.size} (h : c.primary = .ok r) :
    ∃ ts, c.Reads ts r.cursor ∧ r.value.isPrimary = true ∧ r.value.ReadFrom ts := by
  rw [primary] at h
  -- the branches of the reader in its order: a number, `true`, `false`, `this`, a name, `new`, `!`,
  -- a parenthesis, and what no expression begins with
  split at h
  · obtain ⟨⟨_, c₁, h₁⟩, hlit, h⟩ := bind_eq_ok_iff.mp h
    simp only at h
    split at h
    · next hle =>
      cases h
      exact ⟨_, reads_of_expect hlit, rfl, .int hle⟩
    · cases h
  · obtain ⟨⟨_, c₁, h₁⟩, htrue, h⟩ := bind_eq_ok_iff.mp h
    cases h
    exact ⟨_, reads_of_keyword htrue, rfl, .bool⟩
  · obtain ⟨⟨_, c₁, h₁⟩, hfalse, h⟩ := bind_eq_ok_iff.mp h
    cases h
    exact ⟨_, reads_of_keyword hfalse, rfl, .bool⟩
  · obtain ⟨⟨_, c₁, h₁⟩, hthis, h⟩ := bind_eq_ok_iff.mp h
    cases h
    exact ⟨_, reads_of_keyword hthis, rfl, .this⟩
  · obtain ⟨⟨name, c₁, h₁⟩, hname, h⟩ := bind_eq_ok_iff.mp h
    cases h
    exact ⟨_, reads_of_ident hname, rfl, .ident⟩
  · obtain ⟨⟨_, c₁, h₁⟩, hnew, h⟩ := bind_eq_ok_iff.mp h
    simp only at h
    split at h
    · next c₂ h₂ hint =>
      obtain ⟨⟨_, c₃, h₃⟩, hopen, h⟩ := bind_eq_ok_iff.mp h
      obtain ⟨⟨size, c₄, h₄⟩, hsize, h⟩ := bind_eq_ok_iff.mp h
      obtain ⟨⟨_, c₅, h₅⟩, hclose, h⟩ := bind_eq_ok_iff.mp h
      cases h
      obtain ⟨ts, hts, hsize⟩ := reads_of_expr c₃ hsize
      exact ⟨_, (reads_of_keyword hnew).trans <| (reads_of_accept hint).trans <|
        (reads_of_symbol hopen).trans <| hts.trans <| reads_of_symbol hclose, rfl, .newArray hsize⟩
    · obtain ⟨⟨cls, c₂, h₂⟩, hcls, h⟩ := bind_eq_ok_iff.mp h
      obtain ⟨⟨_, c₃, h₃⟩, hopen, h⟩ := bind_eq_ok_iff.mp h
      obtain ⟨⟨_, c₄, h₄⟩, hclose, h⟩ := bind_eq_ok_iff.mp h
      cases h
      exact ⟨_, (reads_of_keyword hnew).trans <| (reads_of_ident hcls).trans <|
        (reads_of_symbol hopen).trans <| reads_of_symbol hclose, rfl, .newObject⟩
  · obtain ⟨⟨_, c₁, h₁⟩, hbang, h⟩ := bind_eq_ok_iff.mp h
    obtain ⟨⟨operand, c₂, h₂⟩, hoperand, h⟩ := bind_eq_ok_iff.mp h
    cases h
    obtain ⟨ts, hts, hprimary, hoperand⟩ := reads_of_primary c₁ hoperand
    exact ⟨_, (reads_of_symbol hbang).trans hts, rfl, .not hprimary hoperand⟩
  · obtain ⟨⟨_, c₁, h₁⟩, hopen, h⟩ := bind_eq_ok_iff.mp h
    obtain ⟨⟨inner, c₂, h₂⟩, hinner, h⟩ := bind_eq_ok_iff.mp h
    obtain ⟨⟨_, c₃, h₃⟩, hclose, h⟩ := bind_eq_ok_iff.mp h
    cases h
    obtain ⟨ts, hts, hinner⟩ := reads_of_expr c₁ hinner
    exact ⟨_, (reads_of_symbol hopen).trans <| hts.trans <| reads_of_symbol hclose, rfl,
      .paren hinner⟩
  · cases h
  · cases h
termination_by (c.size, 0)

theorem reads_of_expr (c : Cursor) {r : Read Expr c.size} (h : c.expr = .ok r) :
    ∃ ts, c.Reads ts r.cursor ∧ r.value.ReadFrom ts := by
  rw [expr] at h
  obtain ⟨⟨left, c₁, h₁⟩, hleft, h⟩ := bind_eq_ok_iff.mp h
  obtain ⟨ts, hts, hprimary, hleft⟩ := reads_of_primary c hleft
  simp only at h
  -- at most one operation follows: an operator, an index, or a dot
  split at h
  · next op _ =>
    obtain ⟨⟨_, c₂, h₂⟩, hop, h⟩ := bind_eq_ok_iff.mp h
    obtain ⟨⟨right, c₃, h₃⟩, hright, h⟩ := bind_eq_ok_iff.mp h
    cases h
    obtain ⟨us, hus, hprimary', hright⟩ := reads_of_primary c₂ hright
    exact ⟨_, hts.trans <| (reads_of_symbol hop).trans hus,
      .binary hprimary hprimary' hleft hright⟩
  split at h
  · next c₂ h₂ hopen =>
    obtain ⟨⟨index, c₃, h₃⟩, hindex, h⟩ := bind_eq_ok_iff.mp h
    obtain ⟨⟨_, c₄, h₄⟩, hclose, h⟩ := bind_eq_ok_iff.mp h
    cases h
    obtain ⟨us, hus, hprimary', hindex⟩ := reads_of_primary c₂ hindex
    exact ⟨_, hts.trans <| (reads_of_accept hopen).trans <| hus.trans <| reads_of_symbol hclose,
      .index hprimary hprimary' hleft hindex⟩
  split at h
  · next c₂ h₂ hdot =>
    obtain ⟨⟨⟨name, span⟩, c₃, h₃⟩, hmethod, h⟩ := bind_eq_ok_iff.mp h
    simp only at h
    split at h
    · next hlength =>
      obtain ⟨rfl, -⟩ := hlength
      cases h
      exact ⟨_, hts.trans <| (reads_of_accept hdot).trans <| reads_of_ident hmethod,
        .length hprimary hleft⟩
    obtain ⟨⟨_, c₄, h₄⟩, hopen, h⟩ := bind_eq_ok_iff.mp h
    simp only at h
    split at h
    · next c₅ h₅ hclose =>
      cases h
      exact ⟨_, hts.trans <| (reads_of_accept hdot).trans <| (reads_of_ident hmethod).trans <|
        (reads_of_symbol hopen).trans <| reads_of_accept hclose, .send hprimary hleft .nil⟩
    · obtain ⟨⟨args, c₅, h₅⟩, hargs, h⟩ := bind_eq_ok_iff.mp h
      cases h
      obtain ⟨us, hus, -, hargs⟩ := reads_of_args c₄ hargs
      exact ⟨_, hts.trans <| (reads_of_accept hdot).trans <| (reads_of_ident hmethod).trans <|
        (reads_of_symbol hopen).trans <| hus, .send hprimary hleft hargs⟩
  · cases h
    exact ⟨ts, hts, hleft⟩
termination_by (c.size, 1)

/-- The tokens of the arguments are followed by the parenthesis that closes the list. -/
theorem reads_of_args (c : Cursor) {r : Read (List Expr) c.size} (h : c.args = .ok r) :
    ∃ ts, c.Reads (ts ++ [⟨.symbol .rparen, r.cursor.last⟩]) r.cursor ∧
      r.value ≠ [] ∧ Expr.ArgsReadFrom r.value ts := by
  rw [args] at h
  obtain ⟨⟨arg, c₁, h₁⟩, harg, h⟩ := bind_eq_ok_iff.mp h
  obtain ⟨ts, hts, harg⟩ := reads_of_expr c harg
  simp only at h
  split at h
  · next c₂ h₂ hcomma =>
    obtain ⟨⟨more, c₃, h₃⟩, hmore, h⟩ := bind_eq_ok_iff.mp h
    cases h
    obtain ⟨us, hus, hne, hmore⟩ := reads_of_args c₂ hmore
    obtain ⟨next, more, rfl⟩ := List.exists_cons_of_ne_nil hne
    refine ⟨ts ++ ⟨.symbol .comma, c₂.last⟩ :: us, ?_, List.cons_ne_nil _ _, .cons harg hmore⟩
    rw [List.append_assoc]
    exact hts.trans <| (reads_of_accept hcomma).trans hus
  · obtain ⟨⟨_, c₂, h₂⟩, hclose, h⟩ := bind_eq_ok_iff.mp h
    cases h
    exact ⟨ts, hts.trans (reads_of_symbol hclose), List.cons_ne_nil _ _, .one harg⟩
termination_by (c.size, 2)

end

/-! ### Statements -/

theorem reads_of_printStmt (c : Cursor) {r : Read Stmt c.size} (h : c.printStmt = .ok r) :
    ∃ ts, c.Reads ts r.cursor ∧ r.value.ReadFrom ts := by
  rw [printStmt] at h
  obtain ⟨⟨_, c₁, h₁⟩, hsystem, h⟩ := bind_eq_ok_iff.mp h
  obtain ⟨⟨_, c₂, h₂⟩, hdot, h⟩ := bind_eq_ok_iff.mp h
  obtain ⟨⟨_, c₃, h₃⟩, hout, h⟩ := bind_eq_ok_iff.mp h
  obtain ⟨⟨_, c₄, h₄⟩, hdot', h⟩ := bind_eq_ok_iff.mp h
  obtain ⟨⟨_, c₅, h₅⟩, hprintln, h⟩ := bind_eq_ok_iff.mp h
  obtain ⟨⟨_, c₆, h₆⟩, hopen, h⟩ := bind_eq_ok_iff.mp h
  obtain ⟨⟨value, c₇, h₇⟩, hvalue, h⟩ := bind_eq_ok_iff.mp h
  obtain ⟨⟨_, c₈, h₈⟩, hclose, h⟩ := bind_eq_ok_iff.mp h
  obtain ⟨⟨_, c₉, h₉⟩, hend, h⟩ := bind_eq_ok_iff.mp h
  cases h
  obtain ⟨ts, hts, hvalue⟩ := reads_of_expr c₆ hvalue
  rw [(reads_of_word hsystem).current_eq]
  exact ⟨_, (reads_of_word hsystem).trans <| (reads_of_symbol hdot).trans <|
    (reads_of_word hout).trans <| (reads_of_symbol hdot').trans <| (reads_of_word hprintln).trans <|
    (reads_of_symbol hopen).trans <| hts.trans <| (reads_of_symbol hclose).trans <|
    reads_of_symbol hend, .print hvalue⟩

theorem reads_of_assignment (c : Cursor) {r : Read Stmt c.size} (h : c.assignment = .ok r) :
    ∃ ts, c.Reads ts r.cursor ∧ r.value.ReadFrom ts := by
  rw [assignment] at h
  obtain ⟨⟨target, c₁, h₁⟩, htarget, h⟩ := bind_eq_ok_iff.mp h
  simp only at h
  split at h
  · next c₂ h₂ hopen =>
    obtain ⟨⟨index, c₃, h₃⟩, hindex, h⟩ := bind_eq_ok_iff.mp h
    obtain ⟨⟨_, c₄, h₄⟩, hclose, h⟩ := bind_eq_ok_iff.mp h
    obtain ⟨⟨_, c₅, h₅⟩, hassign, h⟩ := bind_eq_ok_iff.mp h
    obtain ⟨⟨value, c₆, h₆⟩, hvalue, h⟩ := bind_eq_ok_iff.mp h
    obtain ⟨⟨_, c₇, h₇⟩, hend, h⟩ := bind_eq_ok_iff.mp h
    cases h
    obtain ⟨ts, hts, hindex⟩ := reads_of_expr c₂ hindex
    obtain ⟨us, hus, hvalue⟩ := reads_of_expr c₅ hvalue
    exact ⟨_, (reads_of_ident htarget).trans <| (reads_of_accept hopen).trans <| hts.trans <|
      (reads_of_symbol hclose).trans <| (reads_of_symbol hassign).trans <| hus.trans <|
      reads_of_symbol hend, .arrayAssign hindex hvalue⟩
  · obtain ⟨⟨_, c₂, h₂⟩, hassign, h⟩ := bind_eq_ok_iff.mp h
    obtain ⟨⟨value, c₃, h₃⟩, hvalue, h⟩ := bind_eq_ok_iff.mp h
    obtain ⟨⟨_, c₄, h₄⟩, hend, h⟩ := bind_eq_ok_iff.mp h
    cases h
    obtain ⟨ts, hts, hvalue⟩ := reads_of_expr c₂ hvalue
    exact ⟨_, (reads_of_ident htarget).trans <| (reads_of_symbol hassign).trans <| hts.trans <|
      reads_of_symbol hend, .assign hvalue⟩

mutual

theorem reads_of_stmt (c : Cursor) {r : Read Stmt c.size} (h : c.stmt = .ok r) :
    ∃ ts, c.Reads ts r.cursor ∧ r.value.ReadFrom ts := by
  rw [stmt] at h
  split at h
  · obtain ⟨⟨_, c₁, h₁⟩, hopen, h⟩ := bind_eq_ok_iff.mp h
    obtain ⟨⟨body, c₂, h₂⟩, hbody, h⟩ := bind_eq_ok_iff.mp h
    cases h
    obtain ⟨ts, hts, hbody⟩ := reads_of_stmtsUpTo c₁ hbody
    exact ⟨_, (reads_of_symbol hopen).trans hts, .block hbody⟩
  · obtain ⟨⟨_, c₁, h₁⟩, hif, h⟩ := bind_eq_ok_iff.mp h
    obtain ⟨⟨_, c₂, h₂⟩, hopen, h⟩ := bind_eq_ok_iff.mp h
    obtain ⟨⟨cond, c₃, h₃⟩, hcond, h⟩ := bind_eq_ok_iff.mp h
    obtain ⟨⟨_, c₄, h₄⟩, hclose, h⟩ := bind_eq_ok_iff.mp h
    obtain ⟨⟨thenBranch, c₅, h₅⟩, hthen, h⟩ := bind_eq_ok_iff.mp h
    obtain ⟨⟨_, c₆, h₆⟩, helseKw, h⟩ := bind_eq_ok_iff.mp h
    obtain ⟨⟨elseBranch, c₇, h₇⟩, helse, h⟩ := bind_eq_ok_iff.mp h
    cases h
    obtain ⟨ts, hts, hcond⟩ := reads_of_expr c₂ hcond
    obtain ⟨us, hus, hthen⟩ := reads_of_stmt c₄ hthen
    obtain ⟨vs, hvs, helse⟩ := reads_of_stmt c₆ helse
    rw [hvs.last_eq]
    exact ⟨_, (reads_of_keyword hif).trans <| (reads_of_symbol hopen).trans <| hts.trans <|
      (reads_of_symbol hclose).trans <| hus.trans <| (reads_of_keyword helseKw).trans hvs,
      .ifElse hcond hthen helse⟩
  · obtain ⟨⟨_, c₁, h₁⟩, hwhile, h⟩ := bind_eq_ok_iff.mp h
    obtain ⟨⟨_, c₂, h₂⟩, hopen, h⟩ := bind_eq_ok_iff.mp h
    obtain ⟨⟨cond, c₃, h₃⟩, hcond, h⟩ := bind_eq_ok_iff.mp h
    obtain ⟨⟨_, c₄, h₄⟩, hclose, h⟩ := bind_eq_ok_iff.mp h
    obtain ⟨⟨body, c₅, h₅⟩, hbody, h⟩ := bind_eq_ok_iff.mp h
    cases h
    obtain ⟨ts, hts, hcond⟩ := reads_of_expr c₂ hcond
    obtain ⟨us, hus, hbody⟩ := reads_of_stmt c₄ hbody
    rw [hus.last_eq]
    exact ⟨_, (reads_of_keyword hwhile).trans <| (reads_of_symbol hopen).trans <| hts.trans <|
      (reads_of_symbol hclose).trans hus, .whileLoop hcond hbody⟩
  · split at h
    · exact reads_of_printStmt c h
    · exact reads_of_assignment c h
  · cases h
termination_by (c.size, 0)

/-- The tokens of the statements are followed by the one that closes the list. -/
theorem reads_of_stmtsUpTo (c : Cursor) {close : Token.Kind} {r : Read (List Stmt) c.size}
    (h : c.stmtsUpTo close = .ok r) :
    ∃ ts, c.Reads (ts ++ [⟨close, r.cursor.last⟩]) r.cursor ∧ Stmt.AllReadFrom r.value ts := by
  rw [stmtsUpTo] at h
  split at h
  · next c₁ h₁ hclose =>
    cases h
    exact ⟨[], reads_of_accept hclose, .nil⟩
  split at h
  · cases h
  · obtain ⟨⟨first, c₁, h₁⟩, hfirst, h⟩ := bind_eq_ok_iff.mp h
    obtain ⟨⟨more, c₂, h₂⟩, hmore, h⟩ := bind_eq_ok_iff.mp h
    cases h
    obtain ⟨ts, hts, hfirst⟩ := reads_of_stmt c hfirst
    obtain ⟨us, hus, hmore⟩ := reads_of_stmtsUpTo c₁ hmore
    refine ⟨ts ++ us, ?_, .cons hfirst hmore⟩
    rw [List.append_assoc]
    exact hts.trans hus
termination_by (c.size, 1)

end

/-! ### Declarations -/

theorem reads_of_typeExpr (c : Cursor) {r : Read TypeExpr c.size} (h : c.typeExpr = .ok r) :
    ∃ ts, c.Reads ts r.cursor ∧ r.value.ReadFrom ts := by
  rw [typeExpr] at h
  split at h
  · obtain ⟨⟨_, c₁, h₁⟩, hint, h⟩ := bind_eq_ok_iff.mp h
    simp only at h
    split at h
    · next c₂ h₂ hopen =>
      obtain ⟨⟨_, c₃, h₃⟩, hclose, h⟩ := bind_eq_ok_iff.mp h
      cases h
      exact ⟨_, (reads_of_keyword hint).trans <| (reads_of_accept hopen).trans <|
        reads_of_symbol hclose, .intArray⟩
    · cases h
      exact ⟨_, reads_of_keyword hint, .int⟩
  · obtain ⟨⟨_, c₁, h₁⟩, hboolean, h⟩ := bind_eq_ok_iff.mp h
    cases h
    exact ⟨_, reads_of_keyword hboolean, .boolean⟩
  · obtain ⟨⟨name, c₁, h₁⟩, hname, h⟩ := bind_eq_ok_iff.mp h
    cases h
    exact ⟨_, reads_of_ident hname, .named⟩
  · cases h

theorem reads_of_varDecl (c : Cursor) {r : Read VarDecl c.size} (h : c.varDecl = .ok r) :
    ∃ ts, c.Reads ts r.cursor ∧ r.value.ReadFrom ts := by
  rw [varDecl] at h
  obtain ⟨⟨type, c₁, h₁⟩, htype, h⟩ := bind_eq_ok_iff.mp h
  obtain ⟨⟨name, c₂, h₂⟩, hname, h⟩ := bind_eq_ok_iff.mp h
  obtain ⟨⟨_, c₃, h₃⟩, hend, h⟩ := bind_eq_ok_iff.mp h
  cases h
  obtain ⟨ts, hts, htype⟩ := reads_of_typeExpr c htype
  exact ⟨_, hts.trans <| (reads_of_ident hname).trans <| reads_of_symbol hend, .intro htype⟩

theorem reads_of_varDecls (c : Cursor) {r : Read (List VarDecl) (c.size + 1)}
    (h : c.varDecls = .ok r) :
    ∃ ts, c.Reads ts r.cursor ∧ ReadAll VarDecl.ReadFrom r.value ts := by
  rw [varDecls] at h
  split at h
  · obtain ⟨⟨first, c₁, h₁⟩, hfirst, h⟩ := bind_eq_ok_iff.mp h
    obtain ⟨⟨more, c₂, h₂⟩, hmore, h⟩ := bind_eq_ok_iff.mp h
    cases h
    obtain ⟨ts, hts, hfirst⟩ := reads_of_varDecl c hfirst
    obtain ⟨us, hus, hmore⟩ := reads_of_varDecls c₁ hmore
    exact ⟨_, hts.trans hus, .cons hfirst hmore⟩
  · cases h
    exact ⟨[], .refl c, .nil⟩
termination_by c.size

/-- The tokens of the parameters are followed by the parenthesis that closes the list. -/
theorem reads_of_params (c : Cursor) {r : Read (List VarDecl) c.size} (h : c.params = .ok r) :
    ∃ ts, c.Reads (ts ++ [⟨.symbol .rparen, r.cursor.last⟩]) r.cursor ∧ r.value ≠ [] ∧
      VarDecl.ParamsReadFrom r.value ts := by
  rw [params] at h
  obtain ⟨⟨type, c₁, h₁⟩, htype, h⟩ := bind_eq_ok_iff.mp h
  obtain ⟨⟨name, c₂, h₂⟩, hname, h⟩ := bind_eq_ok_iff.mp h
  obtain ⟨ts, hts, htype⟩ := reads_of_typeExpr c htype
  have hparam : c.Reads (ts ++ [name.token]) c₂ := hts.trans (reads_of_ident hname)
  have hlast : c₂.last = name.span := (reads_of_ident hname).last_eq
  simp only [hlast] at h
  split at h
  · next c₃ h₃ hcomma =>
    obtain ⟨⟨more, c₄, h₄⟩, hmore, h⟩ := bind_eq_ok_iff.mp h
    cases h
    obtain ⟨us, hus, hne, hmore⟩ := reads_of_params c₃ hmore
    obtain ⟨next, more, rfl⟩ := List.exists_cons_of_ne_nil hne
    refine ⟨ts ++ [name.token] ++ ⟨.symbol .comma, c₃.last⟩ :: us, ?_, List.cons_ne_nil _ _,
      .cons (.intro htype) hmore⟩
    rw [List.append_assoc]
    exact hparam.trans <| (reads_of_accept hcomma).trans hus
  · obtain ⟨⟨_, c₃, h₃⟩, hclose, h⟩ := bind_eq_ok_iff.mp h
    cases h
    exact ⟨_, hparam.trans (reads_of_symbol hclose), List.cons_ne_nil _ _, .one (.intro htype)⟩
termination_by c.size

theorem reads_of_paramList (c : Cursor) {r : Read (List VarDecl) c.size}
    (h : c.paramList = .ok r) :
    ∃ a ts, c.Reads (⟨.symbol .lparen, a⟩ :: ts ++ [⟨.symbol .rparen, r.cursor.last⟩]) r.cursor ∧
      VarDecl.ParamsReadFrom r.value ts := by
  rw [paramList] at h
  obtain ⟨⟨_, c₁, h₁⟩, hopen, h⟩ := bind_eq_ok_iff.mp h
  simp only at h
  split at h
  · next c₂ h₂ hclose =>
    cases h
    exact ⟨c₁.last, [], (reads_of_symbol hopen).trans (reads_of_accept hclose), .nil⟩
  · obtain ⟨⟨params, c₂, h₂⟩, hparams, h⟩ := bind_eq_ok_iff.mp h
    cases h
    obtain ⟨ts, hts, -, hparams⟩ := reads_of_params c₁ hparams
    exact ⟨c₁.last, ts, (reads_of_symbol hopen).trans hts, hparams⟩

theorem reads_of_methodDecl (c : Cursor) {r : Read MethodDecl c.size} (h : c.methodDecl = .ok r) :
    ∃ ts, c.Reads ts r.cursor ∧ r.value.ReadFrom ts := by
  rw [methodDecl] at h
  obtain ⟨⟨_, c₁, h₁⟩, hpublic, h⟩ := bind_eq_ok_iff.mp h
  obtain ⟨⟨returns, c₂, h₂⟩, hreturns, h⟩ := bind_eq_ok_iff.mp h
  obtain ⟨⟨name, c₃, h₃⟩, hname, h⟩ := bind_eq_ok_iff.mp h
  obtain ⟨⟨params, c₄, h₄⟩, hparams, h⟩ := bind_eq_ok_iff.mp h
  obtain ⟨⟨_, c₅, h₅⟩, hopen, h⟩ := bind_eq_ok_iff.mp h
  obtain ⟨⟨vars, c₆, h₆⟩, hvars, h⟩ := bind_eq_ok_iff.mp h
  obtain ⟨⟨body, c₇, h₇⟩, hbody, h⟩ := bind_eq_ok_iff.mp h
  obtain ⟨⟨result, c₈, h₈⟩, hresult, h⟩ := bind_eq_ok_iff.mp h
  obtain ⟨⟨_, c₉, h₉⟩, hend, h⟩ := bind_eq_ok_iff.mp h
  obtain ⟨⟨_, c₁₀, h₁₀⟩, hclose, h⟩ := bind_eq_ok_iff.mp h
  cases h
  obtain ⟨ts, hts, hreturns⟩ := reads_of_typeExpr c₁ hreturns
  obtain ⟨a, us, hus, hparams⟩ := reads_of_paramList c₃ hparams
  obtain ⟨vs, hvs, hvars⟩ := reads_of_varDecls c₅ hvars
  obtain ⟨ws, hws, hbody⟩ := reads_of_stmtsUpTo c₆ hbody
  obtain ⟨xs, hxs, hresult⟩ := reads_of_expr c₇ hresult
  rw [(reads_of_keyword hpublic).current_eq]
  exact ⟨_, (reads_of_keyword hpublic).trans <| hts.trans <| (reads_of_ident hname).trans <|
    hus.append_trans <| (reads_of_symbol hopen).trans <| hvs.trans <| hws.append_trans <|
    hxs.trans <| (reads_of_symbol hend).trans <| reads_of_symbol hclose,
    .intro hreturns hparams hvars hbody hresult⟩

theorem reads_of_methodDecls (c : Cursor) {r : Read (List MethodDecl) (c.size + 1)}
    (h : c.methodDecls = .ok r) :
    ∃ ts, c.Reads ts r.cursor ∧ ReadAll MethodDecl.ReadFrom r.value ts := by
  rw [methodDecls] at h
  split at h
  · obtain ⟨⟨first, c₁, h₁⟩, hfirst, h⟩ := bind_eq_ok_iff.mp h
    obtain ⟨⟨more, c₂, h₂⟩, hmore, h⟩ := bind_eq_ok_iff.mp h
    cases h
    obtain ⟨ts, hts, hfirst⟩ := reads_of_methodDecl c hfirst
    obtain ⟨us, hus, hmore⟩ := reads_of_methodDecls c₁ hmore
    exact ⟨_, hts.trans hus, .cons hfirst hmore⟩
  · cases h
    exact ⟨[], .refl c, .nil⟩
termination_by c.size

theorem reads_of_parent (c : Cursor) {r : Read (Option Ident) (c.size + 1)}
    (h : c.parent = .ok r) :
    ∃ ts, c.Reads ts r.cursor ∧ ClassDecl.ParentReadFrom r.value ts := by
  rw [parent] at h
  split at h
  · next c₁ h₁ hextends =>
    obtain ⟨⟨name, c₂, h₂⟩, hname, h⟩ := bind_eq_ok_iff.mp h
    cases h
    exact ⟨_, (reads_of_accept hextends).trans (reads_of_ident hname), .some⟩
  · cases h
    exact ⟨[], .refl c, .none⟩

theorem reads_of_classDecl (c : Cursor) {r : Read ClassDecl c.size} (h : c.classDecl = .ok r) :
    ∃ ts, c.Reads ts r.cursor ∧ r.value.ReadFrom ts := by
  rw [classDecl] at h
  obtain ⟨⟨_, c₁, h₁⟩, hclass, h⟩ := bind_eq_ok_iff.mp h
  obtain ⟨⟨name, c₂, h₂⟩, hname, h⟩ := bind_eq_ok_iff.mp h
  obtain ⟨⟨parent, c₃, h₃⟩, hparent, h⟩ := bind_eq_ok_iff.mp h
  obtain ⟨⟨_, c₄, h₄⟩, hopen, h⟩ := bind_eq_ok_iff.mp h
  obtain ⟨⟨fields, c₅, h₅⟩, hfields, h⟩ := bind_eq_ok_iff.mp h
  obtain ⟨⟨methods, c₆, h₆⟩, hmethods, h⟩ := bind_eq_ok_iff.mp h
  obtain ⟨⟨_, c₇, h₇⟩, hclose, h⟩ := bind_eq_ok_iff.mp h
  cases h
  obtain ⟨ts, hts, hparent⟩ := reads_of_parent c₂ hparent
  obtain ⟨us, hus, hfields⟩ := reads_of_varDecls c₄ hfields
  obtain ⟨vs, hvs, hmethods⟩ := reads_of_methodDecls c₅ hmethods
  rw [(reads_of_keyword hclass).current_eq]
  exact ⟨_, (reads_of_keyword hclass).trans <| (reads_of_ident hname).trans <| hts.trans <|
    (reads_of_symbol hopen).trans <| hus.trans <| hvs.trans <| reads_of_symbol hclose,
    .intro hparent hfields hmethods⟩

theorem reads_of_mainClass (c : Cursor) {r : Read MainClass c.size} (h : c.mainClass = .ok r) :
    ∃ ts, c.Reads ts r.cursor ∧ r.value.ReadFrom ts := by
  rw [mainClass] at h
  obtain ⟨⟨_, c₁, h₁⟩, hclass, h⟩ := bind_eq_ok_iff.mp h
  obtain ⟨⟨name, c₂, h₂⟩, hname, h⟩ := bind_eq_ok_iff.mp h
  obtain ⟨⟨_, c₃, h₃⟩, hopen, h⟩ := bind_eq_ok_iff.mp h
  obtain ⟨⟨_, c₄, h₄⟩, hpublic, h⟩ := bind_eq_ok_iff.mp h
  obtain ⟨⟨_, c₅, h₅⟩, hstatic, h⟩ := bind_eq_ok_iff.mp h
  obtain ⟨⟨_, c₆, h₆⟩, hvoid, h⟩ := bind_eq_ok_iff.mp h
  obtain ⟨⟨_, c₇, h₇⟩, hmain, h⟩ := bind_eq_ok_iff.mp h
  obtain ⟨⟨_, c₈, h₈⟩, hparen, h⟩ := bind_eq_ok_iff.mp h
  obtain ⟨⟨_, c₉, h₉⟩, hstring, h⟩ := bind_eq_ok_iff.mp h
  obtain ⟨⟨_, c₁₀, h₁₀⟩, hbracket, h⟩ := bind_eq_ok_iff.mp h
  obtain ⟨⟨_, c₁₁, h₁₁⟩, hbracket', h⟩ := bind_eq_ok_iff.mp h
  obtain ⟨⟨args, c₁₂, h₁₂⟩, hargs, h⟩ := bind_eq_ok_iff.mp h
  obtain ⟨⟨_, c₁₃, h₁₃⟩, hparen', h⟩ := bind_eq_ok_iff.mp h
  obtain ⟨⟨_, c₁₄, h₁₄⟩, hopen', h⟩ := bind_eq_ok_iff.mp h
  obtain ⟨⟨vars, c₁₅, h₁₅⟩, hvars, h⟩ := bind_eq_ok_iff.mp h
  obtain ⟨⟨body, c₁₆, h₁₆⟩, hbody, h⟩ := bind_eq_ok_iff.mp h
  obtain ⟨⟨_, c₁₇, h₁₇⟩, hclose, h⟩ := bind_eq_ok_iff.mp h
  cases h
  obtain ⟨ts, hts, hvars⟩ := reads_of_varDecls c₁₄ hvars
  obtain ⟨us, hus, hbody⟩ := reads_of_stmtsUpTo c₁₅ hbody
  rw [(reads_of_keyword hclass).current_eq]
  exact ⟨_, (reads_of_keyword hclass).trans <| (reads_of_ident hname).trans <|
    (reads_of_symbol hopen).trans <| (reads_of_keyword hpublic).trans <|
    (reads_of_keyword hstatic).trans <| (reads_of_keyword hvoid).trans <|
    (reads_of_word hmain).trans <| (reads_of_symbol hparen).trans <|
    (reads_of_word hstring).trans <| (reads_of_symbol hbracket).trans <|
    (reads_of_symbol hbracket').trans <| (reads_of_ident hargs).trans <|
    (reads_of_symbol hparen').trans <| (reads_of_symbol hopen').trans <| hts.trans <|
    hus.append_trans <| reads_of_symbol hclose, .intro hvars hbody⟩

/-- What is left behind the last class begins with an end mark, if anything is left. -/
theorem reads_of_classDecls (c : Cursor) {classes : List ClassDecl}
    (h : c.classDecls = .ok classes) :
    ∃ ts c', c.Reads ts c' ∧ c'.kind = .eof ∧ ReadAll ClassDecl.ReadFrom classes ts := by
  rw [classDecls] at h
  split at h
  · next heof =>
    cases h
    exact ⟨[], c, .refl c, heof, .nil⟩
  · obtain ⟨⟨first, c₁, h₁⟩, hfirst, h⟩ := bind_eq_ok_iff.mp h
    obtain ⟨more, hmore, h⟩ := bind_eq_ok_iff.mp h
    cases h
    obtain ⟨ts, hts, hfirst⟩ := reads_of_classDecl c hfirst
    obtain ⟨us, c', hus, heof, hmore⟩ := reads_of_classDecls c₁ hmore
    exact ⟨_, c', hts.trans hus, heof, .cons hfirst hmore⟩
termination_by c.size

end Cursor

/-! ### Programs -/

/-- A program that is read from tokens has a derivation from the first of them, and behind these is
the end. -/
theorem Program.readFrom_of_ofTokens {tokens : List Token} {p : Program}
    (h : Program.ofTokens tokens = .ok p) :
    ∃ ts, ∃ c : Cursor, tokens = ts ++ c.rest ∧ c.kind = .eof ∧ p.ReadFrom ts := by
  rw [Program.ofTokens] at h
  obtain ⟨⟨main, c₁, h₁⟩, hmain, h⟩ := bind_eq_ok_iff.mp h
  obtain ⟨classes, hclasses, h⟩ := bind_eq_ok_iff.mp h
  cases h
  obtain ⟨ts, hts, hmain⟩ := Cursor.reads_of_mainClass _ hmain
  obtain ⟨us, c, hus, heof, hclasses⟩ := Cursor.reads_of_classDecls c₁ hclasses
  exact ⟨_, c, (hts.trans hus).rest_eq, heof, .intro hmain hclasses⟩

/-- The words of a program end where the only end mark is. -/
theorem Program.ReadFrom.eq_of_append {p : Program} {ts words : List Token} {mark : Token}
    {c : Cursor} (h : p.ReadFrom ts) (heof : c.kind = .eof) (hmark : mark.kind = .eof)
    (hwords : ∀ t ∈ words, t.kind ≠ .eof) (heq : words ++ [mark] = ts ++ c.rest) : words = ts := by
  have hts : ∀ t ∈ ts, t.kind ≠ .eof := by
    intro t ht hkind
    have := h.allAdmissible t ht
    rw [hkind] at this
    cases this
  obtain ⟨last, rest⟩ := c
  rcases List.eq_nil_or_concat rest with rfl | ⟨init, t, rfl⟩
  · -- nothing is left, so the end mark would be a word of the program
    have : mark ∈ ts := by
      rw [← List.append_nil ts, ← heq]
      exact List.mem_append_right _ (List.mem_singleton_self mark)
    exact absurd hmark (hts mark this)
  · rw [List.concat_eq_append, ← List.append_assoc] at heq
    obtain ⟨rfl, -⟩ := List.append_inj' heq rfl
    cases init with
    | nil => rw [List.append_nil]
    | cons u init => exact absurd heof (hwords u (by simp))

/-- A program that is read from a text has a derivation from all the words of the text. -/
theorem Program.readFrom_of_parse {text : String} {file : Nat} {p : Program}
    (h : Program.parse text file = .ok p) :
    ∃ words mark, tokenize text file = words ++ [mark] ∧ mark.kind = .eof ∧ AllLexical words ∧
      p.ReadFrom words := by
  obtain ⟨words, mark, htokens, hmark, hwords⟩ := tokenize_shape text file
  obtain ⟨ts, c, heq, heof, hp⟩ := Program.readFrom_of_ofTokens h
  rw [htokens] at heq
  obtain rfl := hp.eq_of_append heof hmark (fun t ht => (hwords t ht).1) heq
  exact ⟨words, mark, htokens, hmark, fun t ht => (hwords t ht).2, hp⟩

theorem writes_of_canonicalKinds {ts : List Token} {ks : List Token.Kind} (hts : AllLexical ts)
    (h : canonicalKinds ts = ks) : List.Forall₂ Token.Kind.Writes (ts.map Token.kind) ks := by
  subst h
  induction ts with
  | nil => exact .nil
  | cons t ts ih =>
    obtain ⟨ht, hts⟩ := allLexical_cons.mp hts
    exact .cons ht.writes_canonical (ih hts)

/-- A program that is read from a text is one of the grammar, and the text is a way to write it. -/
theorem Program.written_of_parse {text : String} {file : Nat} {p : Program}
    (h : Program.parse text file = .ok p) :
    p.wellFormed = true ∧
      List.Forall₂ Token.Kind.Writes ((tokenize text file).map Token.kind) (p.kinds ++ [.eof]) := by
  obtain ⟨words, mark, htokens, hmark, hlex, hp⟩ := Program.readFrom_of_parse h
  have hall : AllLexical (words ++ [mark]) := by
    simp [hlex, hmark, Token.Kind.Lexical]
  rw [htokens]
  refine ⟨hp.wellFormed hlex, writes_of_canonicalKinds hall ?_⟩
  rw [canonicalKinds_append, hp.kinds_eq, canonicalKinds_cons, hmark]
  rfl

end MiniJava
