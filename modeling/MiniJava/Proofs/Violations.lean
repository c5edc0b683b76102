import MiniJava.Analysis.Violation
import MiniJava.Proofs.DeclaredTable
import MiniJava.Proofs.TypeSystem

/-!
# The errors of the checker are violations

Where the check of a program fails, one of its nodes breaks a rule in the scope around it, and the
error tells this very violation. The argument goes down the tree as the checker does: what fails is
either a test of the node itself, or the check of a node inside it, whose error is passed on as it
is.
-/

namespace MiniJava

/-! ### Failing steps -/

section

variable {t : SymbolTable} {s : Scope} {span : Span} {e : SemanticError}

theorem Scope.resolve_eq_error_iff {x : String} :
    (s.resolve t x span).result = .error e ↔
      (∀ type, ¬ Resolves t s x type) ∧ e = ⟨.unresolvedIdentifier x, span⟩ := by
  unfold resolve
  cases hfind : s.find? t x with
  | none =>
    have hno : ∀ type, ¬ Resolves t s x type := by
      intro type h
      have hfound := find?_of_resolves h
      rw [hfind] at hfound
      cases hfound
    simp [hno, eq_comm]
  | some found =>
    have hresolves : Resolves t s x found.1 := resolves_of_find? (by rw [hfind, Option.map_some])
    simp only [reduceCtorEq, false_iff]
    exact fun h => h.1 found.1 hresolves

theorem requireOperand_eq_error_iff {rule : OperandRule} {expected found : Ty} :
    requireOperand rule expected found span = .error e ↔
      found ≠ expected ∧ e = ⟨.operandTypeMismatch rule found, span⟩ := by
  by_cases h : found = expected <;> simp [requireOperand, h, eq_comm]

theorem requirePart_eq_error_iff {part : ArrayPart} {expected found : Ty} :
    requirePart part expected found span = .error e ↔
      found ≠ expected ∧ e = ⟨.arrayAssignmentTypeMismatch part expected found, span⟩ := by
  by_cases h : found = expected <;> simp [requirePart, h, eq_comm]

theorem SymbolTable.lookup_eq_error_iff {x : String} :
    t.lookup x span = .error e ↔ t.get? x = none ∧ e = ⟨.unknownClass (.cls x), span⟩ := by
  unfold lookup
  cases t.get? x <;> simp [eq_comm]

theorem ClassEntry.lookupMethod_eq_error_iff {c : ClassEntry} {x : String} :
    c.lookupMethod x span = .error e ↔
      c.method? x = none ∧ e = ⟨.unresolvedIdentifier x, span⟩ := by
  unfold lookupMethod
  cases c.method? x <;> simp [eq_comm]

theorem SymbolTable.receiver_eq_error_iff {type : Ty} :
    t.receiver type span = .error e ↔
      (∀ cls, type = .cls cls → t.get? cls = none) ∧ e = ⟨.unknownClass type, span⟩ := by
  cases type with
  | cls name =>
    simp only [receiver, Ty.className?, Option.bind_some]
    cases hg : t.get? name <;> simp [hg, eq_comm]
  | _ => simp [receiver, Ty.className?, eq_comm]

theorem Scope.this_eq_error_iff :
    s.this span = .error e ↔
      s.cls = none ∧ e = ⟨.unresolvedIdentifier Keyword.thisKw.text, span⟩ := by
  unfold Scope.this
  cases s.cls <;> simp [eq_comm]

theorem PendingCall.finish_eq_error_iff {call : PendingCall} :
    call.finish span = .error e ↔
      call.position < call.method.params.length ∧ e = call.countMismatch call.position span := by
  unfold finish
  by_cases h : call.position < call.method.params.length <;> simp [h, eq_comm]

theorem Analysis.result_ite_fail_eq_error_iff {α : Type} {c : Prop} [Decidable c] {p : Analysis α}
    {e' : SemanticError} :
    (if c then p else fail e').result = .error e ↔
      (c ∧ p.result = .error e) ∨ (¬ c ∧ e = e') := by
  by_cases h : c <;> simp [h, eq_comm]

end

/-! ### Nodes -/

section

variable {p : Program} {t : SymbolTable} {s : Scope}

/-- Every node lies in a class. -/
theorem Program.HasNode.exists_cls {n : Node} (h : p.HasNode s n) : ∃ c, s.cls = some c := by
  induction h with
  | mainVar _ | mainStmt _ | field _ _ | method _ _ => exact ⟨_, rfl⟩
  | part _ _ ih => exact ih

theorem Program.HasNode.expr_part {e part : Expr} (h : p.HasNode s (.expr e))
    (hpart : part ∈ e.parts) : p.HasNode s (.expr part) :=
  .part h (List.mem_map_of_mem hpart)

theorem Program.HasNode.stmt_expr {stmt : Stmt} {e : Expr} (h : p.HasNode s (.stmt stmt))
    (he : e ∈ stmt.exprs) : p.HasNode s (.expr e) :=
  .part h (List.mem_append_left _ (List.mem_map_of_mem he))

theorem Program.HasNode.stmt_stmt {stmt part : Stmt} (h : p.HasNode s (.stmt stmt))
    (hpart : part ∈ stmt.stmts) : p.HasNode s (.stmt part) :=
  .part h (List.mem_append_right _ (List.mem_map_of_mem hpart))

/-- Both operands of an operator are under its rule. -/
theorem Expr.Operand.binary {span : Span} {op : BinOp} {left right operand : Expr}
    (h : operand ∈ [left, right]) :
    Expr.Operand (.binary span op left right) operand op.rule op.operand := by
  cases op with
  | and => exact .and h
  | less => exact .less h
  | add | sub | mul => exact .arithmetic (by simp) h

/-! ### Expressions -/

/-- Arguments that pass are met one by one. -/
theorem Expr.call_of_checkArgs {cls : String} {got : Nat} : ∀ (args : List Expr)
    {call call' : PendingCall}, (Expr.checkArgs t s cls got call args).result = .ok call' →
    call' = ⟨call.method, call.position + args.length⟩
  | [], _, _, h => by
    rw [Expr.checkArgs, Analysis.result_pure, Except.ok.injEq] at h
    exact h.symm
  | arg :: args, call, call', h => by
    simp only [Expr.checkArgs, Analysis.result_bind_eq_ok_iff, Analysis.result_liftM,
      Analysis.result_ite_fail_eq_ok_iff] at h
    obtain ⟨r, hnext, found, -, -, hargs⟩ := h
    cases hp : call.remaining with
    | nil => cases (PendingCall.next_of_remaining_nil hp got arg.span).symm.trans hnext
    | cons param params =>
      cases (PendingCall.next_of_remaining_cons hp got arg.span).symm.trans hnext
      rw [Expr.call_of_checkArgs args hargs, List.length_cons]
      simp only [Nat.add_assoc, Nat.add_comm 1]

mutual

/-- Where the check of an expression fails, a node breaks a rule. -/
theorem Program.HasNode.violation_of_check : ∀ {e : Expr} {err : SemanticError},
    p.HasNode s (.expr e) → (e.check t s).result = .error err → p.Violation t err
  | .int _ _, _, _, h | .bool _ _, _, _, h => by
    rw [Expr.check] at h
    cases h
  | .ident name, _, hn, h => by
    rw [Expr.check, Scope.resolve_eq_error_iff] at h
    obtain ⟨hno, rfl⟩ := h
    exact ⟨s, _, hn, .unresolved .ident hno⟩
  | .this _, _, hn, h => by
    rw [Expr.check, Analysis.result_liftM, Scope.this_eq_error_iff] at h
    obtain ⟨c, hc⟩ := hn.exists_cls
    cases hc.symm.trans h.1
  | .binary _ op left right, _, hn, h => by
    simp only [Expr.check, Analysis.result_bind_eq_error_iff, Analysis.result_liftM,
      requireOperand_eq_error_iff, Expr.check_result_iff, Analysis.result_pure, reduceCtorEq,
      and_false, exists_false, or_false] at h
    rcases h with hl | ⟨leftType, hl, hr | ⟨rightType, hr, ⟨hne, rfl⟩ | ⟨-, -, hne, rfl⟩⟩⟩
    · exact (hn.expr_part (by simp [Expr.parts])).violation_of_check hl
    · exact (hn.expr_part (by simp [Expr.parts])).violation_of_check hr
    · exact ⟨s, _, hn, .operand (.binary (by simp)) hl hne⟩
    · exact ⟨s, _, hn, .operand (.binary (by simp)) hr hne⟩
  | .not _ operand, _, hn, h => by
    simp only [Expr.check, Analysis.result_bind_eq_error_iff, Analysis.result_liftM,
      requireOperand_eq_error_iff, Expr.check_result_iff, Analysis.result_pure, reduceCtorEq,
      and_false, exists_false, or_false] at h
    rcases h with ho | ⟨type, ho, hne, rfl⟩
    · exact (hn.expr_part (by simp [Expr.parts])).violation_of_check ho
    · exact ⟨s, _, hn, .operand .not ho hne⟩
  | .index _ array position, _, hn, h => by
    simp only [Expr.check, Analysis.result_bind_eq_error_iff, Analysis.result_liftM,
      requireOperand_eq_error_iff, Expr.check_result_iff, Analysis.result_pure, reduceCtorEq,
      and_false, exists_false, or_false] at h
    rcases h with ha | ⟨arrayType, ha, hp | ⟨positionType, hp, ⟨hne, rfl⟩ | ⟨-, -, hne, rfl⟩⟩⟩
    · exact (hn.expr_part (by simp [Expr.parts])).violation_of_check ha
    · exact (hn.expr_part (by simp [Expr.parts])).violation_of_check hp
    · exact ⟨s, _, hn, .operand .array ha hne⟩
    · exact ⟨s, _, hn, .operand .position hp hne⟩
  | .length _ array, _, hn, h => by
    simp only [Expr.check, Analysis.result_bind_eq_error_iff, Analysis.result_liftM,
      requireOperand_eq_error_iff, Expr.check_result_iff, Analysis.result_pure, reduceCtorEq,
      and_false, exists_false, or_false] at h
    rcases h with ha | ⟨type, ha, hne, rfl⟩
    · exact (hn.expr_part (by simp [Expr.parts])).violation_of_check ha
    · exact ⟨s, _, hn, .operand .length ha hne⟩
  | .newArray _ size, _, hn, h => by
    simp only [Expr.check, Analysis.result_bind_eq_error_iff, Analysis.result_liftM,
      requireOperand_eq_error_iff, Expr.check_result_iff, Analysis.result_pure, reduceCtorEq,
      and_false, exists_false, or_false] at h
    rcases h with hs | ⟨type, hs, hne, rfl⟩
    · exact (hn.expr_part (by simp [Expr.parts])).violation_of_check hs
    · exact ⟨s, _, hn, .operand .size hs hne⟩
  | .newObject _ name, _, hn, h => by
    simp only [Expr.check, Analysis.result_bind_eq_error_iff, Analysis.result_liftM,
      SymbolTable.lookup_eq_error_iff, Analysis.result_pure, reduceCtorEq, and_false, exists_false,
      or_false] at h
    obtain ⟨hnone, rfl⟩ := h
    exact ⟨s, _, hn, .noClass hnone⟩
  | .paren _ inner, _, hn, h => by
    rw [Expr.check] at h
    exact (hn.expr_part (by simp [Expr.parts])).violation_of_check h
  | .send _ receiver message args, _, hn, h => by
    simp only [Expr.check, Analysis.result_bind_eq_error_iff, Analysis.result_liftM,
      SymbolTable.receiver_eq_error_iff, SymbolTable.receiver_eq_ok_iff,
      ClassEntry.lookupMethod_eq_error_iff, ClassEntry.lookupMethod_eq_ok_iff,
      PendingCall.finish_eq_error_iff, Expr.check_result_iff, Analysis.result_note,
      Analysis.result_pure, reduceCtorEq, and_false, exists_false, or_false, false_or] at h
    rcases h with hr | ⟨type, hr, ⟨hnone, rfl⟩ | ⟨c, ⟨cls, rfl, hc⟩, ⟨hnone, rfl⟩ | ⟨m, hm, -, -, h⟩⟩⟩
    · exact (hn.expr_part (by simp [Expr.parts])).violation_of_check hr
    · exact ⟨s, _, hn, .noReceiver hr hnone⟩
    · exact ⟨s, _, hn, .noMethod hr hc hnone⟩
    · obtain rfl : c.name = cls := SymbolTable.name_of_get? hc
      have hreaches : Reaches t s receiver message c m := ⟨hr, hc, hm⟩
      rcases h with hargs | ⟨call, hargs, hlt, rfl⟩
      · exact hn.violation_of_checkArgs [] args hreaches rfl (Nat.zero_le _) hargs
      · obtain rfl := Expr.call_of_checkArgs args hargs
        simp only [PendingCall.start, Nat.zero_add, PendingCall.countMismatch,
          ClassEntry.name_of_method? hm] at hlt ⊢
        exact ⟨s, _, hn, .tooFewArguments hreaches hlt⟩

/-- Where the check of the arguments of a call fails, a node breaks a rule. The call has met the
arguments `done` before those that are left. -/
theorem Program.HasNode.violation_of_checkArgs : ∀ (done args : List Expr) {err : SemanticError}
    {span : Span} {receiver : Expr} {message : Ident} {all : List Expr} {c : ClassEntry}
    {m : MethodEntry}, p.HasNode s (.expr (.send span receiver message all)) →
    Reaches t s receiver message c m → all = done ++ args → done.length ≤ m.params.length →
    (Expr.checkArgs t s c.name all.length ⟨m, done.length⟩ args).result = .error err →
    p.Violation t err
  | _, [], _, _, _, _, _, _, _, _, _, _, _, h => by
    rw [Expr.checkArgs] at h
    cases h
  | done, arg :: args, _, _, _, _, all, c, m, hn, hreaches, hall, hle, h => by
    have harg : all[done.length]? = some arg := by
      rw [hall]
      simp
    have hpart : p.HasNode s (.expr arg) := hn.expr_part (by simp [Expr.parts, hall])
    simp only [Expr.checkArgs, Analysis.result_bind_eq_error_iff, Analysis.result_liftM,
      PendingCall.next, Analysis.result_ite_fail_eq_error_iff, Expr.check_result_iff,
      Ty.assignableTo_iff] at h
    cases hparam : m.params[done.length]? with
    | none =>
      -- every parameter has met its argument
      have hlength : done.length = m.params.length :=
        Nat.le_antisymm hle (List.getElem?_eq_none_iff.mp hparam)
      simp only [hparam, Except.error.injEq, reduceCtorEq, false_and, exists_false, or_false,
        PendingCall.countMismatch, ClassEntry.name_of_method? hreaches.method] at h
      subst h
      exact ⟨s, _, hn, .tooManyArguments hreaches (hlength ▸ harg)⟩
    | some param =>
      simp only [hparam, reduceCtorEq, Except.ok.injEq, exists_eq_left', false_or] at h
      rcases h with herr | ⟨found, hfound, ⟨-, hargs⟩ | ⟨hno, rfl⟩⟩
      · exact hpart.violation_of_check herr
      · have hlt : done.length < m.params.length := (List.getElem?_eq_some_iff.mp hparam).1
        refine hn.violation_of_checkArgs (done ++ [arg]) args hreaches ?_ ?_ ?_
        · rw [hall, List.append_assoc, List.singleton_append]
        · rw [List.length_append, List.length_singleton]
          exact hlt
        · rwa [List.length_append, List.length_singleton]
      · rw [ClassEntry.name_of_method? hreaches.method]
        exact ⟨s, _, hn, .argument hreaches harg hparam hfound hno⟩

end

/-! ### Statements -/

theorem Program.HasNode.violation_of_checkCondition {stmt : Stmt} {construct : Construct}
    {cond : Expr} {err : SemanticError} (hn : p.HasNode s (.stmt stmt)) (hcond : cond ∈ stmt.exprs)
    (hstmt : stmt.Condition construct cond)
    (h : (cond.checkCondition t s construct).result = .error err) : p.Violation t err := by
  simp only [Expr.checkCondition, Analysis.result_bind_eq_error_iff,
    Analysis.result_ite_fail_eq_error_iff, Expr.check_result_iff, Analysis.result_pure,
    reduceCtorEq, and_false, false_or] at h
  rcases h with hcheck | ⟨found, hfound, hne, rfl⟩
  · exact (hn.stmt_expr hcond).violation_of_check hcheck
  · exact ⟨s, _, hn, .condition hstmt hfound hne⟩

mutual

/-- Where the check of a statement fails, a node breaks a rule. -/
theorem Program.HasNode.violation_of_checkStmt : ∀ {stmt : Stmt} {err : SemanticError},
    p.HasNode s (.stmt stmt) → (stmt.check t s).result = .error err → p.Violation t err
  | .block _ body, _, hn, h => by
    rw [Stmt.check] at h
    exact violation_of_checkAll (fun stmt hstmt => hn.stmt_stmt hstmt) h
  | .assign _ target value, _, hn, h => by
    simp only [Stmt.check, Analysis.result_bind_eq_error_iff, Scope.resolve_eq_error_iff,
      Scope.resolve_result_iff, Expr.check_result_iff, Analysis.result_ite_fail_eq_error_iff,
      Ty.assignableTo_iff, Analysis.result_pure, reduceCtorEq, and_false, false_or] at h
    rcases h with ⟨hno, rfl⟩ | ⟨expected, ht, hvalue | ⟨found, hfound, hno, rfl⟩⟩
    · exact ⟨s, _, hn, .unresolved .target hno⟩
    · exact (hn.stmt_expr (by simp [Stmt.exprs])).violation_of_check hvalue
    · exact ⟨s, _, hn, .assignment ht hfound hno⟩
  | .arrayAssign _ target position value, _, hn, h => by
    simp only [Stmt.check, Analysis.result_bind_eq_error_iff, Scope.resolve_eq_error_iff,
      Scope.resolve_result_iff, Expr.check_result_iff, Analysis.result_liftM,
      requirePart_eq_error_iff] at h
    rcases h with ⟨hno, rfl⟩ | ⟨targetType, ht, hposition | ⟨positionType, hp, hvalue |
      ⟨valueType, hv, ⟨hne, rfl⟩ | ⟨-, -, ⟨hne, rfl⟩ | ⟨-, -, hne, rfl⟩⟩⟩⟩⟩
    · exact ⟨s, _, hn, .unresolved .arrayTarget hno⟩
    · exact (hn.stmt_expr (by simp [Stmt.exprs])).violation_of_check hposition
    · exact (hn.stmt_expr (by simp [Stmt.exprs])).violation_of_check hvalue
    · exact ⟨s, _, hn, .arrayTarget ht hne⟩
    · exact ⟨s, _, hn, .arrayIndex hp hne⟩
    · exact ⟨s, _, hn, .arrayValue hv hne⟩
  | .ifElse _ cond thenBranch elseBranch, _, hn, h => by
    simp only [Stmt.check, Analysis.result_bind_eq_error_iff] at h
    rcases h with hcond | ⟨-, -, hthen | ⟨-, -, helse⟩⟩
    · exact hn.violation_of_checkCondition (by simp [Stmt.exprs]) .ifElse hcond
    · exact (hn.stmt_stmt (by simp [Stmt.stmts])).violation_of_checkStmt hthen
    · exact (hn.stmt_stmt (by simp [Stmt.stmts])).violation_of_checkStmt helse
  | .whileLoop _ cond body, _, hn, h => by
    simp only [Stmt.check, Analysis.result_bind_eq_error_iff] at h
    rcases h with hcond | ⟨-, -, hbody⟩
    · exact hn.violation_of_checkCondition (by simp [Stmt.exprs]) .whileLoop hcond
    · exact (hn.stmt_stmt (by simp [Stmt.stmts])).violation_of_checkStmt hbody
  | .print _ value, _, hn, h => by
    rw [Stmt.check, Analysis.result_discard_eq_error_iff] at h
    exact (hn.stmt_expr (by simp [Stmt.exprs])).violation_of_check h

theorem Program.HasNode.violation_of_checkAll : ∀ {body : List Stmt} {err : SemanticError},
    (∀ stmt ∈ body, p.HasNode s (.stmt stmt)) → (Stmt.checkAll t s body).result = .error err →
    p.Violation t err
  | [], _, _, h => by
    rw [Stmt.checkAll] at h
    cases h
  | first :: more, _, hn, h => by
    rw [List.forall_mem_cons] at hn
    rw [Stmt.checkAll, Analysis.result_bind_eq_error_iff] at h
    rcases h with hfirst | ⟨-, -, hmore⟩
    · exact hn.1.violation_of_checkStmt hfirst
    · exact violation_of_checkAll hn.2 hmore

end

/-! ### Declarations -/

theorem Program.HasNode.violation_of_checkVar {d : VarDecl} {err : SemanticError}
    (hn : p.HasNode s (.var d)) (h : (d.check t s).result = .error err) : p.Violation t err := by
  unfold VarDecl.check at h
  split at h
  · rename_i name hd
    rw [Analysis.result_discard_eq_error_iff, Scope.resolve_eq_error_iff] at h
    obtain ⟨hno, rfl⟩ := h
    exact ⟨s, _, hn, .unresolved (.type hd) hno⟩
  · cases h

/-- Where the check of a method fails, a node breaks a rule; the method itself is found in its
class. -/
theorem Program.HasNode.violation_of_checkMethod {c : ClassDecl} {m : MethodDecl}
    {err : SemanticError} (hn : p.HasNode (m.scope c) (.method m)) (hc : c.Declarable)
    (hm : m ∈ c.methods) (h : (m.check t c.entry).result = .error err) : p.Violation t err := by
  have hvar : ∀ d ∈ m.vars, p.HasNode (m.scope c) (.var d) :=
    fun d hd => .part hn (by simp [Node.parts, hd])
  have hstmt : ∀ stmt ∈ m.body, p.HasNode (m.scope c) (.stmt stmt) :=
    fun stmt hstmt => .part hn (by simp [Node.parts, hstmt])
  have hresult : p.HasNode (m.scope c) (.expr m.result) := .part hn (by simp [Node.parts])
  simp only [MethodDecl.check, ClassEntry.lookupMethod, hc.method?_eq hm,
    Analysis.result_bind_eq_error_iff, Analysis.result_liftM, List.forM_eq_forM,
    Expr.check_result_iff, Analysis.result_note, Analysis.result_pure,
    Analysis.result_ite_fail_eq_error_iff, Ty.assignableTo_iff, reduceCtorEq, Except.ok.injEq,
    exists_eq_left', and_false, false_or] at h
  rcases h with ⟨-, -, hvars | ⟨-, -, hbody | ⟨-, -, hcheck | ⟨found, hfound, hno, rfl⟩⟩⟩⟩
  · obtain ⟨d, hd, hfail⟩ := Analysis.exists_of_result_forM_eq_error hvars
    exact (hvar d hd).violation_of_checkVar hfail
  · exact violation_of_checkAll hstmt hbody
  · exact hresult.violation_of_check hcheck
  · exact ⟨_, _, hn, .result rfl hfound hno⟩

theorem ClassDecl.violation_of_check {c : ClassDecl} {err : SemanticError} (hp : p.Declarable)
    (hc : c ∈ p.classes) (h : (c.check p.table).result = .error err) :
    p.Violation p.table err := by
  simp only [ClassDecl.check, SymbolTable.lookup, hp.get?_class hc,
    Analysis.result_bind_eq_error_iff, Analysis.result_liftM, List.forM_eq_forM,
    Analysis.result_note, reduceCtorEq, Except.ok.injEq, exists_eq_left', false_or] at h
  rcases h with ⟨-, -, hfields | ⟨-, -, hmethods⟩⟩
  · obtain ⟨d, hd, hfail⟩ := Analysis.exists_of_result_forM_eq_error hfields
    exact (Program.HasNode.field hc hd).violation_of_checkVar hfail
  · obtain ⟨m, hm, hfail⟩ := Analysis.exists_of_result_forM_eq_error hmethods
    exact (Program.HasNode.method hc hm).violation_of_checkMethod (hp.eachClass c hc) hm hfail

theorem MainClass.violation_of_check {err : SemanticError} (hp : p.Declarable)
    (h : (p.main.check p.table).result = .error err) : p.Violation p.table err := by
  simp only [MainClass.check, SymbolTable.lookup, ClassEntry.lookupMethod, hp.get?_main,
    MainClass.method?_mainMethod, Analysis.result_bind_eq_error_iff, Analysis.result_liftM,
    List.forM_eq_forM, Analysis.result_note, reduceCtorEq, Except.ok.injEq, exists_eq_left',
    false_or] at h
  rcases h with ⟨-, -, hvars | ⟨-, -, hbody⟩⟩
  · obtain ⟨d, hd, hfail⟩ := Analysis.exists_of_result_forM_eq_error hvars
    exact (Program.HasNode.mainVar hd).violation_of_checkVar hfail
  · exact Program.HasNode.violation_of_checkAll (fun stmt hstmt => .mainStmt hstmt) hbody

/-- Where the check of a program against its own table fails, a node breaks a rule. -/
theorem Program.Declarable.violation_of_check {err : SemanticError} (hp : p.Declarable)
    (h : (p.check p.table).result = .error err) : p.Violation p.table err := by
  simp only [Program.check, Analysis.result_bind_eq_error_iff, List.forM_eq_forM,
    Analysis.result_note, reduceCtorEq, and_false, exists_false, or_false, false_or] at h
  rcases h with ⟨-, -, hmain | ⟨-, -, hclasses⟩⟩
  · exact MainClass.violation_of_check hp hmain
  · obtain ⟨c, hc, hfail⟩ := Analysis.exists_of_result_forM_eq_error hclasses
    exact ClassDecl.violation_of_check hp hc hfail

end

/-- **The errors of the checker are truthful.** Where the check of a program against its own table
fails, a node of the program breaks a rule in the scope of the class and the method around it, and
the error tells what is found there, what the rule demands, and where this is. -/
theorem type_errors_truthful {p : Program} {t : SymbolTable} {e : SemanticError}
    (ht : p.declare.result = .ok t) (he : (p.check t).result = .error e) : p.Violation t e := by
  obtain ⟨hp, rfl⟩ := Program.declarable_of_declare ht
  exact hp.violation_of_check he

/-- A program whose second class passes a number for a flag, in a call inside of another one:
`class M { … } class A { public int f(int x, boolean y) { return x; } }
class B { public int g(A a) { while (1 < (a.f(a.f(1, 2), true))) { } return 0; } }`. -/
def brokenCall : Program :=
  let place (start stop : Nat) : Span := ⟨start, stop, 0⟩
  let call (start stop : Nat) (args : List Expr) : Expr :=
    .send (place start stop) (.ident ⟨"a", place start (start + 1)⟩)
      ⟨"f", place (start + 2) (start + 3)⟩ args
  { main := ⟨⟨"M", place 6 7⟩, ⟨"args", place 30 34⟩, [], [], place 0 40⟩
    classes :=
      [⟨⟨"A", place 46 47⟩, none, [],
        [⟨.int (place 50 53), ⟨"f", place 54 55⟩,
          [⟨.int (place 56 59), ⟨"x", place 60 61⟩, place 56 61⟩,
            ⟨.boolean (place 63 70), ⟨"y", place 71 72⟩, place 63 72⟩],
          [], [], .ident ⟨"x", place 80 81⟩, place 50 84⟩], place 40 86⟩,
       ⟨⟨"B", place 92 93⟩, none, [],
        [⟨.int (place 96 99), ⟨"g", place 100 101⟩,
          [⟨.named ⟨"A", place 102 103⟩, ⟨"a", place 104 105⟩, place 102 105⟩], [],
          [.whileLoop (place 108 150)
            (.binary (place 115 140) .less (.int (place 115 116) 1)
              (.paren (place 119 140) (call 120 139 [call 124 132 [.int (place 128 129) 1,
                .int (place 131 132) 2], .bool (place 134 138) true])))
            (.block (place 142 145) [])],
          .int (place 153 154) 0, place 96 156⟩], place 86 158⟩] }

theorem type_errors_truthful_brokenCall :
    brokenCall.declare.result = .ok brokenCall.table ∧
      (brokenCall.check brokenCall.table).result =
        .error ⟨.argumentTypeMismatch ⟨"A", "f"⟩ 2 .boolean .int, ⟨131, 132, 0⟩⟩ ∧
      brokenCall.Violation brokenCall.table
        ⟨.argumentTypeMismatch ⟨"A", "f"⟩ 2 .boolean .int, ⟨131, 132, 0⟩⟩ :=
  ⟨rfl, rfl, type_errors_truthful rfl rfl⟩

end MiniJava
