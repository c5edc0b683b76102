import MiniJava.Analysis.Rules
import MiniJava.Proofs.Outcome

/-!
# The checker decides the typing rules

The check of an expression, a statement or a declaration succeeds exactly if a typing rule gives a
reason for it, over any table and in any scope; for expressions, the type that is found is the
type that the rules give. The argument goes construct by construct, as the rules do. The one place
where the two sides differ in shape is a call: the checker moves a `PendingCall` along the
parameters, while `Fits` pairs them with the arguments.
-/

namespace MiniJava

/-! ### Names and types -/

theorem Ty.assignableTo_iff {t : SymbolTable} {source target : Ty} :
    source.assignableTo t target = true ↔ Assignable t source target := by
  constructor
  · intro h
    unfold assignableTo at h
    rcases (Bool.or_eq_true _ _).mp h with he | hp
    · exact beq_iff_eq.mp he ▸ .same
    · split at hp
      · obtain ⟨c, hc, hp⟩ := (Option.any_eq_true _ _).mp hp
        exact .parent hc (beq_iff_eq.mp hp)
      · contradiction
  · rintro (_ | ⟨hc, hp⟩)
    · exact assignableTo_self t source
    · simp [assignableTo, hc, hp]

theorem ClassEntry.name_of_method? {c : ClassEntry} {x : String} {m : MethodEntry}
    (h : c.method? x = some m) : m.name = x := by
  simpa using List.find?_some h

theorem SymbolTable.name_of_get? {t : SymbolTable} {x : String} {c : ClassEntry}
    (h : t.get? x = some c) : c.name = x := by
  simpa using List.find?_some h

theorem ClassEntry.member?_eq_some_iff {c : ClassEntry} {x : String} {type : Ty} :
    c.member? x = some type ↔ MemberType c x type := by
  constructor
  · intro h
    cases hf : c.field? x with
    | some found =>
      obtain rfl : found = type := by simpa [member?, hf] using h
      exact .field hf
    | none =>
      obtain ⟨m, hm, rfl⟩ : ∃ m, c.method? x = some m ∧ .cls m.name = type := by
        simpa [member?, hf] using h
      rw [name_of_method? hm]
      exact .method hf hm
  · rintro (hf | ⟨hf, hm⟩)
    · simp [member?, hf]
    · simp [member?, hf, hm, name_of_method? hm]

theorem ClassEntry.member?_eq_none_iff {c : ClassEntry} {x : String} :
    c.member? x = none ↔ ∀ type, ¬ MemberType c x type := by
  simp [Option.eq_none_iff_forall_ne_some, member?_eq_some_iff]

theorem MethodEntry.variable_eq_some_iff {m : MethodEntry} {x : String} {type : Ty} :
    (m.param? x).or (m.local? x) = some type ↔ VariableType m x type := by
  constructor
  · intro h
    cases hp : m.param? x with
    | some found =>
      obtain rfl : found = type := by simpa [hp] using h
      exact .param hp
    | none => exact .local hp (by simpa [hp] using h)
  · rintro (hp | ⟨hp, hl⟩)
    · simp [hp]
    · simp [hp, hl]

theorem MethodEntry.variable_eq_none_iff {m : MethodEntry} {x : String} :
    (m.param? x).or (m.local? x) = none ↔ ∀ type, ¬ VariableType m x type := by
  rw [Option.eq_none_iff_forall_ne_some]
  exact forall_congr' fun _ => not_congr variable_eq_some_iff

namespace Scope

variable {s : Scope} {t : SymbolTable} {c : ClassEntry} {x : String} {type : Ty}

/-- A variable of the method around is found with its type, whatever is logged about it. -/
theorem local?_eq (s : Scope) (c : ClassEntry) (x : String) :
    (s.local? c x).map Prod.fst = s.method.bind fun m => (m.param? x).or (m.local? x) := by
  cases hm : s.method with
  | none => simp [local?, hm]
  | some m => cases hv : (m.param? x).or (m.local? x) <;> simp [local?, hm, hv]

theorem local?_eq_none_iff : s.local? c x = none ↔ s.NoVariable x := by
  rw [← Option.map_eq_none_iff, local?_eq, Option.bind_eq_none_iff]
  simp only [MethodEntry.variable_eq_none_iff, NoVariable]
  exact ⟨fun h m type hm => h m hm type, fun h m hm type => h m type hm⟩

theorem resolve_eq_ok_iff {span : Span} :
    (s.resolve t x span).result = .ok type ↔ (s.find? t x).map Prod.fst = some type := by
  unfold resolve
  cases s.find? t x <;> simp

/-- The order in which the places for a name are searched. -/
theorem find?_eq (h : s.cls = some c) :
    (s.find? t x).map Prod.fst = ((s.local? c x).map Prod.fst).or
      (((t.get? x).map fun _ => .cls x).or ((c.member? x).or
        ((t.parentOf? c).bind (·.member? x)))) := by
  have class?_eq : (class? t x).map Prod.fst = (t.get? x).map fun _ => .cls x := by
    cases hg : t.get? x <;> simp [class?, SymbolTable.contains, hg]
  have member?_eq : (member? c x).map Prod.fst = c.member? x := by
    simp [member?, Function.comp_def]
  have inherited?_eq :
      (inherited? t c x).map Prod.fst = (t.parentOf? c).bind (·.member? x) := by
    cases hp : t.parentOf? c with
    | none => simp [inherited?, hp]
    | some p => cases hm : p.member? x <;> simp [inherited?, hp, hm]
  simp only [find?, h, Option.orElse_eq_orElse, Option.orElse_eq_or, Option.map_or, class?_eq,
    member?_eq, inherited?_eq]

theorem resolves_of_find? (h : (s.find? t x).map Prod.fst = some type) : Resolves t s x type := by
  cases hc : s.cls with
  | none =>
    obtain rfl : .cls x = type := by simpa [find?, hc] using h
    exact .outside hc
  | some c =>
    -- one place after the other: each of them has the name, or rules itself out for those behind it
    rw [find?_eq hc, Option.or_eq_some_iff] at h
    rcases h with hl | ⟨hl, h⟩
    · rw [local?_eq, Option.bind_eq_some_iff] at hl
      obtain ⟨m, hm, hv⟩ := hl
      exact .inMethod hc hm (MethodEntry.variable_eq_some_iff.mp hv)
    have hn : s.NoVariable x := local?_eq_none_iff.mp (Option.map_eq_none_iff.mp hl)
    rw [Option.or_eq_some_iff] at h
    rcases h with hx | ⟨hx, h⟩
    · obtain ⟨entry, hg, rfl⟩ := Option.map_eq_some_iff.mp hx
      exact .cls hc hn hg
    have hg : t.get? x = none := Option.map_eq_none_iff.mp hx
    rw [Option.or_eq_some_iff] at h
    rcases h with hm | ⟨hm, hp⟩
    · exact .member hc hn hg (ClassEntry.member?_eq_some_iff.mp hm)
    · obtain ⟨parent, hp, hi⟩ := Option.bind_eq_some_iff.mp hp
      exact .inherited hc hn hg (ClassEntry.member?_eq_none_iff.mp hm) hp
        (ClassEntry.member?_eq_some_iff.mp hi)

theorem find?_of_resolves (h : Resolves t s x type) : (s.find? t x).map Prod.fst = some type := by
  cases h with
  | outside hc => simp [find?, hc]
  | inMethod hc hm hv =>
    rw [find?_eq hc, local?_eq, hm, Option.bind_some, MethodEntry.variable_eq_some_iff.mpr hv,
      Option.some_or]
  | cls hc hn hg => rw [find?_eq hc, local?_eq_none_iff.mpr hn, hg]; rfl
  | member hc hn hg hm =>
    rw [find?_eq hc, local?_eq_none_iff.mpr hn, hg, ClassEntry.member?_eq_some_iff.mpr hm]; rfl
  | inherited hc hn hg hm hp hi =>
    rw [find?_eq hc, local?_eq_none_iff.mpr hn, hg, ClassEntry.member?_eq_none_iff.mpr hm, hp,
      Option.bind_some, ClassEntry.member?_eq_some_iff.mpr hi]
    rfl

/-- Resolution finds what the rules say that a name stands for. -/
theorem resolve_result_iff {span : Span} :
    (s.resolve t x span).result = .ok type ↔ Resolves t s x type :=
  resolve_eq_ok_iff.trans ⟨resolves_of_find?, find?_of_resolves⟩

end Scope

/-! ### Steps of the checker -/

@[simp] theorem requireOperand_eq_ok_iff {rule : OperandRule} {expected found : Ty} {span : Span}
    {u : Unit} : requireOperand rule expected found span = .ok u ↔ found = expected := by
  by_cases h : found = expected <;> simp [requireOperand, h]

@[simp] theorem requirePart_eq_ok_iff {part : ArrayPart} {expected found : Ty} {span : Span} {u : Unit} :
    requirePart part expected found span = .ok u ↔ found = expected := by
  by_cases h : found = expected <;> simp [requirePart, h]

@[simp] theorem SymbolTable.lookup_eq_ok_iff {t : SymbolTable} {x : String} {span : Span}
    {c : ClassEntry} : t.lookup x span = .ok c ↔ t.get? x = some c := by
  unfold lookup
  cases t.get? x <;> simp

@[simp] theorem ClassEntry.lookupMethod_eq_ok_iff {c : ClassEntry} {x : String} {span : Span}
    {m : MethodEntry} : c.lookupMethod x span = .ok m ↔ c.method? x = some m := by
  unfold lookupMethod
  cases c.method? x <;> simp

@[simp] theorem SymbolTable.receiver_eq_ok_iff {t : SymbolTable} {type : Ty} {span : Span}
    {c : ClassEntry} :
    t.receiver type span = .ok c ↔ ∃ cls, type = .cls cls ∧ t.get? cls = some c := by
  cases type with
  | cls name =>
    simp only [receiver, Ty.className?, Option.bind_some]
    cases hg : t.get? name <;> simp [hg]
  | _ => simp [receiver, Ty.className?]

@[simp] theorem Scope.this_eq_ok_iff {s : Scope} {span : Span} {type : Ty} :
    s.this span = .ok type ↔ ∃ c, s.cls = some c ∧ .cls c.name = type := by
  unfold Scope.this
  cases s.cls <;> simp [ClassEntry.type]

namespace PendingCall

/-- The parameters that wait for an argument. -/
def remaining (call : PendingCall) : List Variable :=
  call.method.params.drop call.position

@[simp] theorem remaining_start (m : MethodEntry) : (start m).remaining = m.params := rfl

theorem next_of_param {call : PendingCall} {param : Variable}
    (h : call.method.params[call.position]? = some param) (got : Nat) (span : Span) :
    call.next got span = .ok (param.type, ⟨call.method, call.position + 1⟩) := by
  rw [next, h]

theorem next_of_no_param {call : PendingCall} (h : call.method.params[call.position]? = none)
    (got : Nat) (span : Span) : call.next got span = .error (call.countMismatch got span) := by
  rw [next, h]

/-- The next argument meets the first of the waiting parameters. -/
theorem next_of_remaining_cons {call : PendingCall} {param : Variable} {params : List Variable}
    (h : call.remaining = param :: params) (got : Nat) (span : Span) :
    call.next got span = .ok (param.type, ⟨call.method, call.position + 1⟩) := by
  have hp : call.method.params[call.position]? = some param := by
    simpa [remaining] using congrArg List.head? h
  exact next_of_param hp got span

/-- The other parameters go on waiting. -/
theorem remaining_succ {call : PendingCall} {param : Variable} {params : List Variable}
    (h : call.remaining = param :: params) :
    remaining ⟨call.method, call.position + 1⟩ = params := by
  simpa [remaining] using congrArg List.tail h

theorem next_of_remaining_nil {call : PendingCall} (h : call.remaining = []) (got : Nat)
    (span : Span) : call.next got span = .error (call.countMismatch got span) := by
  have hp : call.method.params[call.position]? = none := by
    simpa [remaining] using congrArg List.head? h
  exact next_of_no_param hp got span

/-- A call can end exactly if no parameter waits any more. -/
@[simp] theorem finish_eq_ok_iff {call : PendingCall} {span : Span} {u : Unit} :
    call.finish span = .ok u ↔ call.remaining = [] := by
  unfold finish remaining
  rw [List.drop_eq_nil_iff]
  by_cases h : call.position < call.method.params.length
  · simp [h]
  · simp [h, Nat.le_of_not_lt h]

end PendingCall

/-! ### Expressions -/

section Expressions

variable {t : SymbolTable} {s : Scope}

mutual

/-- The type that the checker finds is given by the rules. -/
theorem HasType.of_check : ∀ (e : Expr) {type : Ty},
    (e.check t s).result = .ok type → HasType t s e type
  | .int _ _, _, h => by
    rw [Expr.check, Analysis.result_pure, Except.ok.injEq] at h
    exact h ▸ .int
  | .bool _ _, _, h => by
    rw [Expr.check, Analysis.result_pure, Except.ok.injEq] at h
    exact h ▸ .bool
  | .ident name, _, h => by
    rw [Expr.check, Scope.resolve_result_iff] at h
    exact .ident h
  | .this _, _, h => by
    rw [Expr.check, Analysis.result_liftM, Scope.this_eq_ok_iff] at h
    obtain ⟨c, hc, rfl⟩ := h
    exact .this hc
  | .binary _ op left right, _, h => by
    simp only [Expr.check, Analysis.result_bind_eq_ok_iff, Analysis.result_liftM,
      requireOperand_eq_ok_iff, Analysis.result_pure, Except.ok.injEq] at h
    obtain ⟨_, hl, _, hr, -, rfl, -, rfl, rfl⟩ := h
    have hl := HasType.of_check left hl
    have hr := HasType.of_check right hr
    cases op with
    | and => exact .and hl hr
    | less => exact .less hl hr
    | add => exact .arithmetic (.inl rfl) hl hr
    | sub => exact .arithmetic (.inr (.inl rfl)) hl hr
    | mul => exact .arithmetic (.inr (.inr rfl)) hl hr
  | .not _ operand, _, h => by
    simp only [Expr.check, Analysis.result_bind_eq_ok_iff, Analysis.result_liftM,
      requireOperand_eq_ok_iff, Analysis.result_pure, Except.ok.injEq] at h
    obtain ⟨_, ho, -, rfl, rfl⟩ := h
    exact .not (HasType.of_check operand ho)
  | .index _ array position, _, h => by
    simp only [Expr.check, Analysis.result_bind_eq_ok_iff, Analysis.result_liftM,
      requireOperand_eq_ok_iff, Analysis.result_pure, Except.ok.injEq] at h
    obtain ⟨_, ha, _, hp, -, rfl, -, rfl, rfl⟩ := h
    exact .index (HasType.of_check array ha) (HasType.of_check position hp)
  | .length _ array, _, h => by
    simp only [Expr.check, Analysis.result_bind_eq_ok_iff, Analysis.result_liftM,
      requireOperand_eq_ok_iff, Analysis.result_pure, Except.ok.injEq] at h
    obtain ⟨_, ha, -, rfl, rfl⟩ := h
    exact .length (HasType.of_check array ha)
  | .newArray _ size, _, h => by
    simp only [Expr.check, Analysis.result_bind_eq_ok_iff, Analysis.result_liftM,
      requireOperand_eq_ok_iff, Analysis.result_pure, Except.ok.injEq] at h
    obtain ⟨_, hs, -, rfl, rfl⟩ := h
    exact .newArray (HasType.of_check size hs)
  | .newObject _ name, _, h => by
    simp only [Expr.check, Analysis.result_bind_eq_ok_iff, Analysis.result_liftM,
      SymbolTable.lookup_eq_ok_iff, Analysis.result_pure, Except.ok.injEq] at h
    obtain ⟨c, hc, rfl⟩ := h
    rw [ClassEntry.type, SymbolTable.name_of_get? hc]
    exact .newObject hc
  | .paren _ inner, _, h => by
    rw [Expr.check] at h
    exact .paren (HasType.of_check inner h)
  | .send _ receiver method args, _, h => by
    simp only [Expr.check, Analysis.result_bind_eq_ok_iff, Analysis.result_liftM,
      SymbolTable.receiver_eq_ok_iff, ClassEntry.lookupMethod_eq_ok_iff,
      PendingCall.finish_eq_ok_iff, Analysis.result_pure, Except.ok.injEq] at h
    obtain ⟨_, hr, c, ⟨cls, rfl, hc⟩, m, hm, -, -, call, hargs, -, hend, rfl⟩ := h
    exact .send (HasType.of_check receiver hr) hc hm (Fits.of_checkArgs args hargs hend)

/-- Arguments that the checker passes, and after which the call can end, fit the parameters that
were waiting. -/
theorem Fits.of_checkArgs : ∀ (args : List Expr) {cls : String} {got : Nat}
    {call call' : PendingCall}, (Expr.checkArgs t s cls got call args).result = .ok call' →
    call'.remaining = [] → Fits t s args call.remaining
  | [], _, _, _, _, h, hend => by
    rw [Expr.checkArgs, Analysis.result_pure, Except.ok.injEq] at h
    subst h
    exact hend ▸ .nil
  | arg :: args, _, got, call, _, h, hend => by
    simp only [Expr.checkArgs, Analysis.result_bind_eq_ok_iff, Analysis.result_liftM,
      Analysis.result_ite_fail_eq_ok_iff, Ty.assignableTo_iff] at h
    obtain ⟨r, hnext, found, harg, hassign, hargs⟩ := h
    -- the position of the call moves over the parameters in step with the arguments
    cases hp : call.remaining with
    | nil => cases (PendingCall.next_of_remaining_nil hp got arg.span).symm.trans hnext
    | cons param params =>
      cases (PendingCall.next_of_remaining_cons hp got arg.span).symm.trans hnext
      have hrest := Fits.of_checkArgs args hargs hend
      rw [PendingCall.remaining_succ hp] at hrest
      exact .cons (HasType.of_check arg harg) hassign hrest

end

mutual

/-- What the rules give, the checker finds. -/
theorem HasType.check_result : ∀ {e : Expr} {type : Ty},
    HasType t s e type → (e.check t s).result = .ok type
  | _, _, .int | _, _, .bool => by rw [Expr.check, Analysis.result_pure]
  | _, _, .ident h => by rw [Expr.check, Scope.resolve_result_iff.mpr h]
  | _, _, .this hc => by simp [Expr.check, hc]
  | _, _, .and hl hr | _, _, .less hl hr => by
    simp [Expr.check, hl.check_result, hr.check_result, BinOp.operand, BinOp.result]
  | _, _, .arithmetic hop hl hr => by
    rcases hop with rfl | rfl | rfl <;>
      simp [Expr.check, hl.check_result, hr.check_result, BinOp.operand, BinOp.result]
  | _, _, .not ho => by simp [Expr.check, ho.check_result]
  | _, _, .index ha hp => by simp [Expr.check, ha.check_result, hp.check_result]
  | _, _, .length ha => by simp [Expr.check, ha.check_result]
  | _, _, .newArray hs => by simp [Expr.check, hs.check_result]
  | _, _, .newObject hc => by
    simp [Expr.check, hc, ClassEntry.type, SymbolTable.name_of_get? hc]
  | _, _, .paren h => by rw [Expr.check, h.check_result]
  | _, _, .send hr hc hm hargs => by
    have hcall := fun cls got => hargs.checkArgs_result cls got (PendingCall.remaining_start _)
    simp [Expr.check, hr.check_result, hc, hm, hcall]

/-- Arguments that fit the waiting parameters pass the checker, and none waits after them. -/
theorem Fits.checkArgs_result : ∀ {args : List Expr} {params : List Variable},
    Fits t s args params → ∀ (cls : String) (got : Nat) {call : PendingCall},
    call.remaining = params →
    ∃ call', (Expr.checkArgs t s cls got call args).result = .ok call' ∧ call'.remaining = []
  | _, _, .nil, _, _, call, hp => ⟨call, by rw [Expr.checkArgs, Analysis.result_pure], hp⟩
  | _, _, .cons harg hassign hargs, cls, got, call, hp => by
    obtain ⟨call', hcall', hend⟩ := hargs.checkArgs_result cls got (PendingCall.remaining_succ hp)
    refine ⟨call', ?_, hend⟩
    simp [Expr.checkArgs, PendingCall.next_of_remaining_cons hp, harg.check_result,
      Ty.assignableTo_iff.mpr hassign, hcall']

end

/-- The checker finds exactly the type that the rules give. -/
theorem Expr.check_result_iff {e : Expr} {type : Ty} :
    (e.check t s).result = .ok type ↔ HasType t s e type :=
  ⟨HasType.of_check e, HasType.check_result⟩

end Expressions

/-! ### Statements -/

section Statements

variable {t : SymbolTable} {s : Scope}

theorem Expr.checkCondition_result_iff {construct : Construct} {cond : Expr} {u : Unit} :
    (cond.checkCondition t s construct).result = .ok u ↔ HasType t s cond .boolean := by
  simp [checkCondition, Expr.check_result_iff]

mutual

/-- A statement that passes the checker is well typed. -/
theorem Stmt.WellTyped.of_check : ∀ (stmt : Stmt) {u : Unit},
    (stmt.check t s).result = .ok u → Stmt.WellTyped t s stmt
  | .block _ body, _, h => by
    rw [Stmt.check] at h
    exact .block (Stmt.AllWellTyped.of_checkAll body h)
  | .assign _ target value, _, h => by
    simp only [Stmt.check, Analysis.result_bind_eq_ok_iff, Scope.resolve_result_iff,
      Expr.check_result_iff, Analysis.result_ite_fail_eq_ok_iff, Ty.assignableTo_iff] at h
    obtain ⟨expected, ht, found, hv, hassign, -⟩ := h
    exact .assign ht hv hassign
  | .arrayAssign _ target position value, _, h => by
    simp only [Stmt.check, Analysis.result_bind_eq_ok_iff, Scope.resolve_result_iff,
      Expr.check_result_iff, Analysis.result_liftM, requirePart_eq_ok_iff] at h
    obtain ⟨_, ht, _, hp, _, hv, -, rfl, -, rfl, rfl⟩ := h
    exact .arrayAssign ht hp hv
  | .ifElse _ cond thenBranch elseBranch, _, h => by
    simp only [Stmt.check, Analysis.result_bind_eq_ok_iff, Expr.checkCondition_result_iff] at h
    obtain ⟨_, hc, _, ht, he⟩ := h
    exact .ifElse hc (Stmt.WellTyped.of_check thenBranch ht)
      (Stmt.WellTyped.of_check elseBranch he)
  | .whileLoop _ cond body, _, h => by
    simp only [Stmt.check, Analysis.result_bind_eq_ok_iff, Expr.checkCondition_result_iff] at h
    obtain ⟨-, hc, hbody⟩ := h
    exact .whileLoop hc (Stmt.WellTyped.of_check body hbody)
  | .print _ value, _, h => by
    simp only [Stmt.check, Analysis.result_discard_eq_ok_iff, Expr.check_result_iff] at h
    obtain ⟨type, hv⟩ := h
    exact .print hv

/-- Statements that pass the checker one by one are well typed. -/
theorem Stmt.AllWellTyped.of_checkAll : ∀ (body : List Stmt) {u : Unit},
    (Stmt.checkAll t s body).result = .ok u → Stmt.AllWellTyped t s body
  | [], _, _ => .nil
  | first :: more, _, h => by
    rw [Stmt.checkAll, Analysis.result_bind_eq_ok_iff] at h
    obtain ⟨_, hfirst, hmore⟩ := h
    exact .cons (Stmt.WellTyped.of_check first hfirst) (Stmt.AllWellTyped.of_checkAll more hmore)

end

mutual

/-- A well-typed statement passes the checker. -/
theorem Stmt.WellTyped.check_result : ∀ {stmt : Stmt},
    Stmt.WellTyped t s stmt → (stmt.check t s).result = .ok ()
  | _, .block hbody => by rw [Stmt.check, hbody.checkAll_result]
  | _, .assign ht hv hassign => by
    simp [Stmt.check, Scope.resolve_result_iff.mpr ht, hv.check_result,
      Ty.assignableTo_iff.mpr hassign]
  | _, .arrayAssign ht hp hv => by
    simp [Stmt.check, Scope.resolve_result_iff.mpr ht, hp.check_result, hv.check_result]
  | _, .ifElse hc ht he => by
    simp [Stmt.check, Expr.checkCondition_result_iff, hc, ht.check_result, he.check_result]
  | _, .whileLoop hc hbody => by
    simp [Stmt.check, Expr.checkCondition_result_iff, hc, hbody.check_result]
  | _, .print hv => by simp [Stmt.check, hv.check_result]

/-- Well-typed statements pass the checker one by one. -/
theorem Stmt.AllWellTyped.checkAll_result : ∀ {body : List Stmt},
    Stmt.AllWellTyped t s body → (Stmt.checkAll t s body).result = .ok ()
  | _, .nil => by rw [Stmt.checkAll, Analysis.result_pure]
  | _, .cons hfirst hmore => by
    simp [Stmt.checkAll, hfirst.check_result, hmore.checkAll_result]

end

theorem Stmt.check_result_iff {stmt : Stmt} {u : Unit} :
    (stmt.check t s).result = .ok u ↔ Stmt.WellTyped t s stmt :=
  ⟨Stmt.WellTyped.of_check stmt, Stmt.WellTyped.check_result⟩

theorem Stmt.checkAll_result_iff {body : List Stmt} {u : Unit} :
    (Stmt.checkAll t s body).result = .ok u ↔ Stmt.AllWellTyped t s body :=
  ⟨Stmt.AllWellTyped.of_checkAll body, Stmt.AllWellTyped.checkAll_result⟩

end Statements

/-! ### Declarations -/

section Declarations

variable {t : SymbolTable}

theorem VarDecl.check_result_iff {s : Scope} {d : VarDecl} {u : Unit} :
    (d.check t s).result = .ok u ↔ VarDecl.WellTyped t s d := by
  unfold VarDecl.check
  split
  · rename_i name hd
    simp only [Analysis.result_discard_eq_ok_iff, Scope.resolve_result_iff]
    constructor
    · rintro ⟨type, h⟩
      exact .named hd h
    · rintro (hbuiltin | ⟨hd', h⟩)
      · exact absurd hd (hbuiltin name)
      · cases hd.symm.trans hd'
        exact ⟨_, h⟩
  · rename_i hd
    simp only [Analysis.result_pure, true_iff]
    exact .builtin hd

theorem MethodDecl.check_result_iff {c : ClassEntry} {d : MethodDecl} {u : Unit} :
    (d.check t c).result = .ok u ↔ MethodDecl.WellTyped t c d := by
  simp only [MethodDecl.check, Analysis.result_bind_eq_ok_iff, Analysis.result_liftM,
    ClassEntry.lookupMethod_eq_ok_iff, List.forM_eq_forM, Analysis.result_forM_eq_ok_iff,
    VarDecl.check_result_iff, Stmt.checkAll_result_iff, Expr.check_result_iff,
    Analysis.result_ite_fail_eq_ok_iff, Ty.assignableTo_iff]
  constructor
  · rintro ⟨m, hm, -, -, -, hvars, -, hbody, found, hresult, hassign, -⟩
    exact .intro hm hvars hbody hresult hassign
  · rintro ⟨hm, hvars, hbody, hresult, hassign⟩
    exact ⟨_, hm, (), rfl, ⟨⟩, hvars, (), hbody, _, hresult, hassign, rfl⟩

theorem ClassDecl.check_result_iff {d : ClassDecl} {u : Unit} :
    (d.check t).result = .ok u ↔ ClassDecl.WellTyped t d := by
  simp only [ClassDecl.check, Analysis.result_bind_eq_ok_iff, Analysis.result_liftM,
    SymbolTable.lookup_eq_ok_iff, List.forM_eq_forM, Analysis.result_forM_eq_ok_iff,
    VarDecl.check_result_iff, MethodDecl.check_result_iff]
  constructor
  · rintro ⟨c, hc, -, -, -, hfields, hmethods⟩
    exact .intro hc hfields hmethods
  · rintro ⟨hc, hfields, hmethods⟩
    exact ⟨_, hc, (), rfl, ⟨⟩, hfields, hmethods⟩

theorem MainClass.check_result_iff {d : MainClass} {u : Unit} :
    (d.check t).result = .ok u ↔ MainClass.WellTyped t d := by
  simp only [MainClass.check, Analysis.result_bind_eq_ok_iff, Analysis.result_liftM,
    SymbolTable.lookup_eq_ok_iff, ClassEntry.lookupMethod_eq_ok_iff, List.forM_eq_forM,
    Analysis.result_forM_eq_ok_iff, VarDecl.check_result_iff, Stmt.checkAll_result_iff]
  constructor
  · rintro ⟨c, hc, m, hm, -, -, -, hvars, hbody⟩
    exact .intro hc hm hvars hbody
  · rintro ⟨hc, hm, hvars, hbody⟩
    exact ⟨_, hc, _, hm, (), rfl, ⟨⟩, hvars, hbody⟩

theorem Program.check_result_iff {p : Program} {u : Unit} :
    (p.check t).result = .ok u ↔ Program.WellTyped t p := by
  simp only [Program.check, Analysis.result_bind_eq_ok_iff, List.forM_eq_forM,
    Analysis.result_forM_eq_ok_iff, MainClass.check_result_iff, ClassDecl.check_result_iff]
  constructor
  · rintro ⟨-, -, -, hmain, -, hclasses, -⟩
    exact ⟨hmain, hclasses⟩
  · rintro ⟨hmain, hclasses⟩
    exact ⟨(), rfl, (), hmain, ⟨⟩, hclasses, rfl⟩

end Declarations

/-- **The checker decides the typing rules**, for every table, whether or not it was made from the
program that is checked. -/
theorem check_decides_typing (t : SymbolTable) :
    (∀ (s : Scope) (e : Expr) (type : Ty),
      (e.check t s).result = .ok type ↔ HasType t s e type) ∧
    (∀ (s : Scope) (stmt : Stmt),
      (stmt.check t s).result = .ok () ↔ Stmt.WellTyped t s stmt) ∧
    (∀ (c : ClassEntry) (d : MethodDecl),
      (d.check t c).result = .ok () ↔ MethodDecl.WellTyped t c d) ∧
    (∀ d : ClassDecl, (d.check t).result = .ok () ↔ ClassDecl.WellTyped t d) ∧
    (∀ d : MainClass, (d.check t).result = .ok () ↔ MainClass.WellTyped t d) ∧
    ∀ p : Program, (p.check t).result = .ok () ↔ Program.WellTyped t p :=
  ⟨fun _ _ _ => Expr.check_result_iff, fun _ _ => Stmt.check_result_iff,
    fun _ _ => MethodDecl.check_result_iff, fun _ => ClassDecl.check_result_iff,
    fun _ => MainClass.check_result_iff, fun _ => Program.check_result_iff⟩

end MiniJava
