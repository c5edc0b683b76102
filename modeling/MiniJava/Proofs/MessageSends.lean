import Mathlib.Data.Nat.Find
import MiniJava.Proofs.Violations

/-!
# Where a message send fails

The arguments of a message are checked from left to right, each against the parameter that waits for
it, and the first thing wrong ends the check. `SendOutcome` says what comes of this, and how many
arguments have been looked at by then. After `n` arguments that pass, the call stands at position
`n`, whatever calls there are inside of them (`Expr.checkArgs_of_passes`); what comes next decides
the outcome.
-/

namespace MiniJava

/-- The argument number `i`, from zero, has a type that may be passed for the parameter of this
number; if one of the two is missing, nothing is asked. -/
def Passes (t : SymbolTable) (s : Scope) (args : List Expr) (params : List Variable) (i : Nat) :
    Prop :=
  ∀ arg param, args[i]? = some arg → params[i]? = some param →
    ∃ found, (arg.check t s).result = .ok found ∧ found.assignableTo t param.type = true

/-- The outcome of sending some arguments to the method `m` of the class `cls`, and the number of
arguments that are checked for it. Positions in errors count from one. -/
inductive SendOutcome (t : SymbolTable) (s : Scope) (span : Span) (args : List Expr) (cls : String)
    (m : MethodEntry) : Nat → Except SemanticError Ty → Prop
  | argumentFails {j : Nat} {arg : Expr} {param : Variable} {e : SemanticError} :
    args[j]? = some arg → m.params[j]? = some param → (∀ i < j, Passes t s args m.params i) →
    (arg.check t s).result = .error e → SendOutcome t s span args cls m (j + 1) (.error e)
  | argumentMismatch {j : Nat} {arg : Expr} {param : Variable} {found : Ty} :
    args[j]? = some arg → m.params[j]? = some param → (∀ i < j, Passes t s args m.params i) →
    (arg.check t s).result = .ok found → found.assignableTo t param.type = false →
    SendOutcome t s span args cls m (j + 1)
      (.error ⟨.argumentTypeMismatch ⟨cls, m.name⟩ (j + 1) param.type found, arg.span⟩)
  | tooMany {first : Expr} :
    args[m.params.length]? = some first → (∀ i < m.params.length, Passes t s args m.params i) →
    SendOutcome t s span args cls m m.params.length
      (.error ⟨.argumentCountMismatch m.name m.params.length args.length, first.span⟩)
  | tooFew :
    args.length < m.params.length → (∀ i < args.length, Passes t s args m.params i) →
    SendOutcome t s span args cls m args.length
      (.error ⟨.argumentCountMismatch m.name m.params.length args.length, span⟩)
  | fits :
    args.length = m.params.length → (∀ i < args.length, Passes t s args m.params i) →
    SendOutcome t s span args cls m args.length (.ok m.returns)

/-- What the checks of some arguments log. -/
def argumentLog (t : SymbolTable) (s : Scope) (args : List Expr) : List Event :=
  args.flatMap fun arg => (arg.check t s).log

section

variable {t : SymbolTable} {s : Scope} {span : Span} {receiver arg : Expr} {method : Ident}
  {args rest : List Expr} {cls : String} {c : ClassEntry} {m : MethodEntry} {param : Variable}
  {found : Ty} {e : SemanticError} {got n : Nat}

/-! ### One argument -/

/-- An argument for which a parameter waits is checked, and then the call stands one further. -/
theorem Expr.checkArgs_of_param (hparam : m.params[n]? = some param) :
    Expr.checkArgs t s cls got ⟨m, n⟩ (arg :: rest) = arg.check t s >>= fun found =>
      if found.assignableTo t param.type then Expr.checkArgs t s cls got ⟨m, n + 1⟩ rest
      else .fail ⟨.argumentTypeMismatch ⟨cls, m.name⟩ (n + 1) param.type found, arg.span⟩ := by
  have hnext : PendingCall.next ⟨m, n⟩ got arg.span = .ok (param.type, ⟨m, n + 1⟩) :=
    PendingCall.next_of_param hparam got arg.span
  rw [Expr.checkArgs, hnext, Analysis.liftM_ok_bind]

/-- The step: an argument that passes moves the call on by one. -/
theorem Expr.checkArgs_of_pass (hparam : m.params[n]? = some param)
    (hfound : (arg.check t s).result = .ok found) (hpass : found.assignableTo t param.type = true) :
    Expr.checkArgs t s cls got ⟨m, n⟩ (arg :: rest) =
      ⟨(arg.check t s).log ++ (Expr.checkArgs t s cls got ⟨m, n + 1⟩ rest).log,
        (Expr.checkArgs t s cls got ⟨m, n + 1⟩ rest).result⟩ := by
  rw [Expr.checkArgs_of_param hparam, Analysis.bind_of_ok hfound, if_pos hpass]

theorem Expr.checkArgs_of_error (hparam : m.params[n]? = some param)
    (he : (arg.check t s).result = .error e) :
    Expr.checkArgs t s cls got ⟨m, n⟩ (arg :: rest) = ⟨(arg.check t s).log, .error e⟩ := by
  rw [Expr.checkArgs_of_param hparam, Analysis.bind_of_error he]

theorem Expr.checkArgs_of_mismatch (hparam : m.params[n]? = some param)
    (hfound : (arg.check t s).result = .ok found)
    (hno : found.assignableTo t param.type = false) :
    Expr.checkArgs t s cls got ⟨m, n⟩ (arg :: rest) =
      ⟨(arg.check t s).log,
        .error ⟨.argumentTypeMismatch ⟨cls, m.name⟩ (n + 1) param.type found, arg.span⟩⟩ := by
  have hno : ¬ found.assignableTo t param.type = true := ne_true_of_eq_false hno
  rw [Expr.checkArgs_of_param hparam, Analysis.bind_of_ok hfound, if_neg hno, Analysis.log_fail,
    Analysis.result_fail, List.append_nil]

/-- An argument for which no parameter waits is not looked at. -/
theorem Expr.checkArgs_of_no_param (hparam : m.params[n]? = none) :
    Expr.checkArgs t s cls got ⟨m, n⟩ (arg :: rest) =
      ⟨[], .error ⟨.argumentCountMismatch m.name m.params.length got, arg.span⟩⟩ := by
  have hnext : PendingCall.next ⟨m, n⟩ got arg.span =
      .error ⟨.argumentCountMismatch m.name m.params.length got, arg.span⟩ :=
    PendingCall.next_of_no_param hparam got arg.span
  rw [Expr.checkArgs, Analysis.bind_of_error hnext]
  rfl

/-! ### Arguments in a row -/

theorem argumentLog_take_succ (h : args[n]? = some arg) :
    argumentLog t s (args.take (n + 1)) = argumentLog t s (args.take n) ++ (arg.check t s).log := by
  rw [List.take_add_one, h, argumentLog, List.flatMap_append]
  exact congrArg _ (List.append_nil _)

/-- The run: after `n` arguments that pass, the call stands at position `n`. -/
theorem Expr.checkArgs_of_passes (hargs : n ≤ args.length) (hparams : n ≤ m.params.length)
    (h : ∀ i < n, Passes t s args m.params i) :
    Expr.checkArgs t s cls got (.start m) args =
      ⟨argumentLog t s (args.take n) ++ (Expr.checkArgs t s cls got ⟨m, n⟩ (args.drop n)).log,
        (Expr.checkArgs t s cls got ⟨m, n⟩ (args.drop n)).result⟩ := by
  induction n with
  | zero => rfl
  | succ n ih =>
    -- the run grows at its far end: `n` arguments, and then the step for one more
    have harg := List.getElem?_eq_getElem (Nat.lt_of_succ_le hargs)
    have hparam := List.getElem?_eq_getElem (Nat.lt_of_succ_le hparams)
    obtain ⟨found, hfound, hpass⟩ := h n (Nat.lt_succ_self n) _ _ harg hparam
    have hbefore := ih (Nat.le_of_succ_le hargs) (Nat.le_of_succ_le hparams)
      fun i hi => h i (Nat.lt_succ_of_lt hi)
    rw [hbefore, List.drop_eq_getElem_cons (Nat.lt_of_succ_le hargs),
      Expr.checkArgs_of_pass hparam hfound hpass, argumentLog_take_succ harg, List.append_assoc]

/-- An argument that ends the check ends it behind those that pass. -/
theorem Expr.checkArgs_of_stop {log : List Event} (harg : args[n]? = some arg)
    (hparams : n ≤ m.params.length) (h : ∀ i < n, Passes t s args m.params i)
    (hstop : ∀ rest, Expr.checkArgs t s cls got ⟨m, n⟩ (arg :: rest) = ⟨log, .error e⟩) :
    Expr.checkArgs t s cls got (.start m) args =
      ⟨argumentLog t s (args.take n) ++ log, .error e⟩ := by
  obtain ⟨hlt, rfl⟩ := List.getElem?_eq_some_iff.mp harg
  rw [Expr.checkArgs_of_passes (Nat.le_of_lt hlt) hparams h, List.drop_eq_getElem_cons hlt, hstop]

theorem Expr.checkArgs_of_all (hparams : args.length ≤ m.params.length)
    (h : ∀ i < args.length, Passes t s args m.params i) :
    Expr.checkArgs t s cls got (.start m) args =
      ⟨argumentLog t s args, .ok ⟨m, args.length⟩⟩ := by
  rw [Expr.checkArgs_of_passes (Nat.le_refl _) hparams h, List.drop_length, List.take_length,
    Expr.checkArgs, Analysis.log_pure, Analysis.result_pure, List.append_nil]

/-! ### Calls -/

/-- What is left of the check of a message when its method is found. -/
def Expr.checkCall (t : SymbolTable) (s : Scope) (span : Span) (args : List Expr) (cls : String)
    (m : MethodEntry) : Analysis Ty := do
  let call ← Expr.checkArgs t s cls args.length (.start m) args
  call.finish span
  return m.returns

theorem Expr.check_send (hr : (receiver.check t s).result = .ok (.cls cls))
    (hc : t.get? cls = some c) (hm : c.method? method.name = some m) :
    (Expr.send span receiver method args).check t s =
      ⟨(receiver.check t s).log ++
          .call ⟨cls, m.name⟩ args.length :: (Expr.checkCall t s span args cls m).log,
        (Expr.checkCall t s span args cls m).result⟩ := by
  obtain rfl : c.name = cls := SymbolTable.name_of_get? hc
  have hclass : t.receiver (.cls c.name) receiver.span = .ok c :=
    SymbolTable.receiver_eq_ok_iff.mpr ⟨_, rfl, hc⟩
  have hmethod : c.lookupMethod method.name method.span = .ok m :=
    ClassEntry.lookupMethod_eq_ok_iff.mpr hm
  rw [Expr.check, Analysis.bind_of_ok hr]
  simp only [hclass, hmethod, Analysis.liftM_ok_bind]
  rfl

/-- Each outcome is what the check of the call gives. -/
theorem SendOutcome.checkCall_eq {r : Except SemanticError Ty}
    (h : SendOutcome t s span args cls m n r) :
    Expr.checkCall t s span args cls m = ⟨argumentLog t s (args.take n), r⟩ := by
  cases h with
  | @argumentFails j arg param e harg hparam hpass he =>
    have hlt := (List.getElem?_eq_some_iff.mp hparam).1
    have hargs : Expr.checkArgs t s cls args.length (.start m) args =
        ⟨argumentLog t s (args.take j) ++ (arg.check t s).log, .error e⟩ :=
      Expr.checkArgs_of_stop harg (Nat.le_of_lt hlt) hpass fun _ =>
        Expr.checkArgs_of_error hparam he
    rw [Expr.checkCall, hargs, Analysis.bind_of_error rfl, argumentLog_take_succ harg]
  | @argumentMismatch j arg param found harg hparam hpass hfound hno =>
    have hlt := (List.getElem?_eq_some_iff.mp hparam).1
    have hargs : Expr.checkArgs t s cls args.length (.start m) args =
        ⟨argumentLog t s (args.take j) ++ (arg.check t s).log,
          .error ⟨.argumentTypeMismatch ⟨cls, m.name⟩ (j + 1) param.type found, arg.span⟩⟩ :=
      Expr.checkArgs_of_stop harg (Nat.le_of_lt hlt) hpass fun _ =>
        Expr.checkArgs_of_mismatch hparam hfound hno
    rw [Expr.checkCall, hargs, Analysis.bind_of_error rfl, argumentLog_take_succ harg]
  | @tooMany first harg hpass =>
    -- the surplus argument adds nothing to the log
    have hnone : m.params[m.params.length]? = none := List.getElem?_eq_none (Nat.le_refl _)
    have hargs : Expr.checkArgs t s cls args.length (.start m) args =
        ⟨argumentLog t s (args.take m.params.length) ++ [],
          .error ⟨.argumentCountMismatch m.name m.params.length args.length, first.span⟩⟩ :=
      Expr.checkArgs_of_stop harg (Nat.le_refl _) hpass fun _ => Expr.checkArgs_of_no_param hnone
    rw [Expr.checkCall, hargs, Analysis.bind_of_error rfl, List.append_nil]
  | tooFew hlt hpass =>
    have hargs : Expr.checkArgs t s cls args.length (.start m) args =
        ⟨argumentLog t s args, .ok ⟨m, args.length⟩⟩ :=
      Expr.checkArgs_of_all (Nat.le_of_lt hlt) hpass
    -- here the count comes from the place of the call, which is the number of arguments
    have hfinish : PendingCall.finish ⟨m, args.length⟩ span =
        .error ⟨.argumentCountMismatch m.name m.params.length args.length, span⟩ :=
      PendingCall.finish_eq_error_iff.mpr ⟨hlt, rfl⟩
    rw [Expr.checkCall, hargs, Analysis.bind_of_ok rfl, hfinish, List.take_length]
    exact congrArg (Analysis.mk · _) (List.append_nil _)
  | fits heq hpass =>
    have hargs : Expr.checkArgs t s cls args.length (.start m) args =
        ⟨argumentLog t s args, .ok ⟨m, args.length⟩⟩ :=
      Expr.checkArgs_of_all (Nat.le_of_eq heq) hpass
    have hfinish : PendingCall.finish ⟨m, args.length⟩ span = .ok () :=
      PendingCall.finish_eq_ok_iff.mpr (List.drop_eq_nil_of_le (Nat.le_of_eq heq.symm))
    rw [Expr.checkCall, hargs, Analysis.bind_of_ok rfl, hfinish, List.take_length]
    exact congrArg (Analysis.mk · _) (List.append_nil _)

/-- Of arguments that do not all pass, one is the first. -/
theorem exists_first_not_passes {params : List Variable}
    (h : ∃ j, ¬ Passes t s args params j) :
    ∃ j, ¬ Passes t s args params j ∧ ∀ i < j, Passes t s args params i := by
  classical
  refine ⟨Nat.find h, Nat.find_spec h, fun i hi => ?_⟩
  exact not_not.mp (Nat.find_min h hi)

/-- There is an outcome: an argument is the first not to pass, or all pass and are counted. -/
theorem exists_sendOutcome (t : SymbolTable) (s : Scope) (span : Span) (args : List Expr)
    (cls : String) (m : MethodEntry) : ∃ n r, SendOutcome t s span args cls m n r := by
  by_cases hall : ∀ i, Passes t s args m.params i
  · rcases Nat.lt_trichotomy args.length m.params.length with hlt | heq | hgt
    · exact ⟨_, _, .tooFew hlt fun i _ => hall i⟩
    · exact ⟨_, _, .fits heq fun i _ => hall i⟩
    · exact ⟨_, _, .tooMany (List.getElem?_eq_getElem hgt) fun i _ => hall i⟩
  · obtain ⟨j, hfirst, hbefore⟩ := exists_first_not_passes (not_forall.mp hall)
    simp only [Passes, not_forall] at hfirst
    obtain ⟨arg, param, harg, hparam, hno⟩ := hfirst
    cases hcheck : (arg.check t s).result with
    | error e => exact ⟨_, _, .argumentFails harg hparam hbefore hcheck⟩
    | ok found =>
      have hfalse : found.assignableTo t param.type = false :=
        eq_false_of_ne_true fun hpass => hno ⟨found, hcheck, hpass⟩
      exact ⟨_, _, .argumentMismatch harg hparam hbefore hcheck hfalse⟩

/-! ### The outcome of a send -/

/-- A message whose method is found ends at the first thing wrong with its arguments. There is an
outcome; each outcome is what the check gives, and only the arguments that it counts are checked;
and the place of a call among its parameters is moved by its own arguments alone. -/
theorem send_ends_at_first_fault (hr : (receiver.check t s).result = .ok (.cls cls))
    (hc : t.get? cls = some c) (hm : c.method? method.name = some m) :
    (∃ n r, SendOutcome t s span args cls m n r) ∧
      (∀ n r, SendOutcome t s span args cls m n r →
        (Expr.send span receiver method args).check t s =
          ⟨(receiver.check t s).log ++
            .call ⟨cls, method.name⟩ args.length :: argumentLog t s (args.take n), r⟩) ∧
      ∀ (front : List Expr) (got : Nat) (call call' : PendingCall),
        (Expr.checkArgs t s cls got call front).result = .ok call' →
          call' = ⟨call.method, call.position + front.length⟩ := by
  refine ⟨exists_sendOutcome t s span args cls m, fun n r h => ?_, fun front got call call' h => ?_⟩
  · rw [Expr.check_send hr hc hm, h.checkCall_eq, ClassEntry.name_of_method? hm]
  · exact Expr.call_of_checkArgs front h

end

/-- The send `a.f(args)` with the given bounds. -/
def sendOfF (start stop : Nat) (args : List Expr) : Expr :=
  .send ⟨start, stop, 0⟩ (.ident ⟨"a", ⟨start, start + 1, 0⟩⟩) ⟨"f", ⟨start + 2, start + 3, 0⟩⟩ args

/-- The arguments `a.f(1, true), true, zzz`, where `zzz` is no name. -/
def surplusArgs : List Expr :=
  [sendOfF 4 16 [.int ⟨8, 9, 0⟩ 1, .bool ⟨11, 15, 0⟩ true], .bool ⟨18, 22, 0⟩ true,
    .ident ⟨"zzz", ⟨24, 27, 0⟩⟩]

theorem send_ends_at_first_fault_surplus :
    let s : Scope := ⟨some brokenCall.classes[1].entry,
      some brokenCall.classes[1].methods[0].entry⟩
    (Expr.check brokenCall.table s (.ident ⟨"zzz", ⟨24, 27, 0⟩⟩)).result =
        .error ⟨.unresolvedIdentifier "zzz", ⟨24, 27, 0⟩⟩ ∧
      ((sendOfF 0 28 surplusArgs).check brokenCall.table s).result =
        .error ⟨.argumentCountMismatch "f" 2 3, ⟨24, 27, 0⟩⟩ := by
  intro s
  have hpass : ∀ i < 2, Passes brokenCall.table s surplusArgs
      brokenCall.classes[0].methods[0].entry.params i
    | 0, _ => by
      rintro _ _ ⟨⟩ ⟨⟩
      exact ⟨.int, rfl, rfl⟩
    | 1, _ => by
      rintro _ _ ⟨⟩ ⟨⟩
      exact ⟨.boolean, rfl, rfl⟩
  have hsend := (@send_ends_at_first_fault brokenCall.table s ⟨0, 28, 0⟩
    (.ident ⟨"a", ⟨0, 1, 0⟩⟩) ⟨"f", ⟨2, 3, 0⟩⟩ surplusArgs "A" _ _ rfl rfl rfl).2.1 2 _
      (.tooMany rfl hpass)
  exact ⟨rfl, congrArg Analysis.result hsend⟩

end MiniJava
