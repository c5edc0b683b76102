import MiniJava.Proofs.Declaration
import MiniJava.Proofs.TypeSystem

/-!
# The log for debugging

The two passes announce where they are: at their beginning and end, and at each class and method.
`Program.course` lists all of these events, as the declarations of a program alone determine them.
`Program.analyze_completes` says that an analysis goes through them in this order and comes to the end
exactly if it succeeds.

* `Analysis.KeepsTo` is what holds of a part of an analysis: it goes through a list of events in
  order, and through all of them if it succeeds. It may fail behind the last one, too.
* `Analysis.Completes` says in addition that it does not.
-/

namespace MiniJava

variable {α β σ : Type}

/-- The events for debugging that a step logs. -/
def Analysis.debugLog (p : Analysis α) : List Event :=
  p.log.filter (·.level = .debug)

/-- The messages for debugging that a step logs. -/
def Analysis.debugMessages (p : Analysis α) : List String :=
  p.debugLog.map Event.message

namespace ClassDecl

/-- What the declaration pass announces of a class: the class with its parent, then its methods. -/
def declaringEvents (d : ClassDecl) : List Event :=
  .declaringClass d.name.name (d.parent.map Ident.name) ::
    d.methods.map fun m => .declaringMethod ⟨d.name.name, m.name.name⟩

/-- What the type check announces of a class: the class, then its methods. -/
def checkingEvents (d : ClassDecl) : List Event :=
  .checkingClass d.name.name :: d.methods.map fun m => .checkingMethod ⟨d.name.name, m.name.name⟩

end ClassDecl

namespace Program

/-- What the declaration pass announces of a program. -/
def declaringEvents (p : Program) : List Event :=
  .declarationPass (p.classes.length + 1) :: .declaringMain p.main.name.name ::
    (p.classes.flatMap ClassDecl.declaringEvents ++ [.declarationPassDone])

/-- What the type check announces of a program. -/
def checkingEvents (p : Program) : List Event :=
  .typeCheckPass (p.classes.length + 1) :: .checkingMain ⟨p.main.name.name, mainMethod⟩ ::
    (p.classes.flatMap ClassDecl.checkingEvents ++ [.typeCheckPassDone])

/-- All events for debugging of an analysis that comes to its end. -/
def course (p : Program) : List Event :=
  p.declaringEvents ++ p.checkingEvents

end Program

/-! ### Steps in a row -/

namespace Analysis

/-- The step goes through the events in order, and through all of them if it succeeds. -/
structure KeepsTo (p : Analysis α) (course : List Event) : Prop where
  inOrder : p.debugLog <+: course
  toEnd : ∀ a, p.result = .ok a → p.debugLog = course

/-- The step goes through the events in order, and through all of them exactly if it succeeds. -/
structure Completes (p : Analysis α) (course : List Event) : Prop extends KeepsTo p course where
  succeeds : p.debugLog = course → ∃ a, p.result = .ok a

/-- The step goes through no events. -/
def Silent (p : Analysis α) : Prop :=
  p.debugLog = []

theorem debugLog_bind_of_ok {p : Analysis α} {a : α} (h : p.result = .ok a) (f : α → Analysis β) :
    (p >>= f).debugLog = p.debugLog ++ (f a).debugLog := by
  rw [debugLog, log_bind_of_ok h, List.filter_append]
  rfl

theorem debugLog_bind_of_error {p : Analysis α} {e : SemanticError} (h : p.result = .error e)
    (f : α → Analysis β) : (p >>= f).debugLog = p.debugLog := by
  rw [debugLog, log_bind_of_error h]
  rfl

section

variable {p : Analysis α} {f : α → Analysis β} {xs ys : List Event}

theorem KeepsTo.bind (hp : p.KeepsTo xs) (hf : ∀ a, p.result = .ok a → (f a).KeepsTo ys) :
    (p >>= f).KeepsTo (xs ++ ys) := by
  cases h : p.result with
  | error e =>
    refine ⟨?_, fun b hb => ?_⟩
    · rw [debugLog_bind_of_error h]
      exact hp.inOrder.trans (List.prefix_append xs ys)
    · rw [result_bind, h] at hb
      cases hb
  | ok a =>
    have hlog : (p >>= f).debugLog = xs ++ (f a).debugLog := by
      rw [debugLog_bind_of_ok h, hp.toEnd a h]
    refine ⟨?_, fun b hb => ?_⟩
    · rw [hlog, List.prefix_append_right_inj]
      exact (hf a h).inOrder
    · rw [result_bind, h, ok_bind] at hb
      rw [hlog, (hf a h).toEnd b hb]

/-- Steps in a row show that they succeed if the last one does, in a log that is not empty: where an
earlier one fails, the log of the last one is missing. -/
theorem KeepsTo.bind_completes (hp : p.KeepsTo xs) (hys : ys ≠ [])
    (hf : ∀ a, p.result = .ok a → (f a).Completes ys) : (p >>= f).Completes (xs ++ ys) := by
  refine ⟨hp.bind fun a ha => (hf a ha).toKeepsTo, fun hlog => ?_⟩
  cases h : p.result with
  | error e =>
    rw [debugLog_bind_of_error h] at hlog
    have hlength := hp.inOrder.length_le
    rw [hlog, List.length_append] at hlength
    exact absurd (List.eq_nil_of_length_eq_zero (by omega)) hys
  | ok a =>
    rw [debugLog_bind_of_ok h, hp.toEnd a h, List.append_cancel_left_eq] at hlog
    rw [result_bind, h, ok_bind]
    exact (hf a h).succeeds hlog

theorem Silent.keepsTo (hp : p.Silent) : p.KeepsTo [] :=
  ⟨(congrArg (· <+: []) hp).mpr List.prefix_rfl, fun _ _ => hp⟩

theorem Silent.bind (hp : p.Silent) (hf : ∀ a, (f a).Silent) : (p >>= f).Silent :=
  List.prefix_nil.mp (hp.keepsTo.bind fun a _ => (hf a).keepsTo).inOrder

theorem Silent.bind_keepsTo (hp : p.Silent) (hf : ∀ a, p.result = .ok a → (f a).KeepsTo ys) :
    (p >>= f).KeepsTo ys :=
  hp.keepsTo.bind hf

theorem silent_pure (a : α) : (pure a : Analysis α).Silent := rfl

theorem silent_lift (r : Except SemanticError α) : (liftM r : Analysis α).Silent := rfl

theorem silent_fail (e : SemanticError) : (fail e : Analysis α).Silent := rfl

theorem silent_note {e : Event} (he : e.level = .trace) : (note e).Silent := by
  simp [Silent, debugLog, he]

theorem Silent.ite {c : Prop} [Decidable c] {q : Analysis α} (hp : p.Silent) (hq : q.Silent) :
    (if c then p else q).Silent := by
  split
  · exact hp
  · exact hq

theorem Silent.discard (hp : p.Silent) : (Functor.discard p).Silent := by
  simp only [Functor.discard, map_const, Function.comp_apply, map_eq_pure_bind]
  exact hp.bind fun _ => silent_pure _

theorem keepsTo_note {e : Event} (he : e.level = .debug) : (note e).KeepsTo [e] := by
  have hlog : (note e).debugLog = [e] := by simp [debugLog, he]
  exact ⟨(congrArg (· <+: [e]) hlog).mpr List.prefix_rfl, fun _ _ => hlog⟩

theorem completes_note {e : Event} (he : e.level = .debug) : (note e).Completes [e] :=
  ⟨keepsTo_note he, fun _ => ⟨(), rfl⟩⟩

theorem KeepsTo.bind_pure (hp : p.KeepsTo xs) (g : α → β) :
    (p >>= fun a => pure (g a)).KeepsTo xs := by
  have hkeeps := hp.bind fun a _ => (silent_pure (g a)).keepsTo
  rwa [List.append_nil] at hkeeps

theorem Completes.bind_pure (hp : p.Completes xs) (g : α → β) :
    (p >>= fun a => pure (g a)).Completes xs := by
  refine ⟨hp.toKeepsTo.bind_pure g, fun hlog => ?_⟩
  cases h : p.result with
  | error e =>
    rw [debugLog_bind_of_error h] at hlog
    obtain ⟨a, ha⟩ := hp.succeeds hlog
    cases h.symm.trans ha
  | ok a => exact ⟨g a, by rw [result_bind, h]; rfl⟩

end

/-- Steps over a list go through the events of its elements, as long as `Inv` holds of the states in
between. -/
theorem KeepsTo.foldlM {step : σ → α → Analysis σ} {events : α → List Event} (Inv : σ → Prop)
    (hstep : ∀ s a, Inv s → (step s a).KeepsTo (events a))
    (hinv : ∀ s a s', Inv s → (step s a).result = .ok s' → Inv s') (l : List α) {s : σ}
    (hs : Inv s) : (l.foldlM step s).KeepsTo (l.flatMap events) := by
  induction l generalizing s with
  | nil => exact (silent_pure s).keepsTo
  | cons a l ih =>
    rw [List.foldlM_cons, List.flatMap_cons]
    exact (hstep s a hs).bind fun s' hs' => ih (hinv s a s' hs hs')

theorem KeepsTo.forM {step : α → Analysis PUnit} {events : α → List Event} (l : List α)
    (hstep : ∀ a, (step a).KeepsTo (events a)) : (l.forM step).KeepsTo (l.flatMap events) := by
  induction l with
  | nil => exact (silent_pure _).keepsTo
  | cons a l ih =>
    rw [List.flatMap_cons]
    exact (hstep a).bind fun _ _ => ih

theorem Silent.forM {step : α → Analysis PUnit} (l : List α) (hstep : ∀ a, (step a).Silent) :
    (l.forM step).Silent := by
  induction l with
  | nil => exact silent_pure _
  | cons a l ih => exact (hstep a).bind fun _ => ih

end Analysis

open Analysis

/-! ### The declaration pass -/

theorem ClassEntry.declare_keepsTo (c : ClassEntry) (d : MethodDecl) :
    (c.declare d).KeepsTo [.declaringMethod ⟨c.name, d.name.name⟩] :=
  (keepsTo_note rfl).bind fun _ _ =>
    (silent_lift _).bind_keepsTo fun _ _ =>
    (silent_lift _).bind_keepsTo fun _ _ =>
    (silent_lift _).bind_keepsTo fun _ _ => (silent_pure _).keepsTo

theorem MainClass.declare_keepsTo (d : MainClass) :
    d.declare.KeepsTo [.declaringMain d.name.name] :=
  (keepsTo_note rfl).bind fun _ _ =>
    (silent_lift _).bind_keepsTo fun _ _ => (silent_pure _).keepsTo

/-- Methods are announced with the name of the class in its entry, which they do not change. -/
theorem ClassEntry.declareMethods_keepsTo (c : ClassEntry) (ds : List MethodDecl) :
    (ds.foldlM ClassEntry.declare c).KeepsTo
      (ds.map fun d => .declaringMethod ⟨c.name, d.name.name⟩) := by
  rw [List.map_eq_flatMap]
  refine KeepsTo.foldlM (·.name = c.name) (fun c' d hc => ?_) (fun c' d c'' hc h => ?_) ds rfl
  · rw [← hc]
    exact c'.declare_keepsTo d
  · obtain ⟨-, rfl⟩ := ClassEntry.declare_result_iff.mp h
    exact hc

theorem SymbolTable.declare_keepsTo (t : SymbolTable) (d : ClassDecl) :
    (t.declare d).KeepsTo d.declaringEvents := by
  refine (silent_lift _).bind_keepsTo fun _ _ => (silent_lift _).bind_keepsTo fun _ _ =>
    (keepsTo_note rfl).bind fun _ _ => (silent_lift _).bind_keepsTo fun c hc => ?_
  have hname : c.name = d.name.name := by
    obtain ⟨-, rfl⟩ := (ClassEntry.declareFields_eq_ok_iff rfl).mp hc
    rfl
  rw [← hname]
  exact (c.declareMethods_keepsTo d.methods).bind_pure t.push

/-- The declaration pass keeps to its course. -/
theorem Program.declare_keepsTo (p : Program) : p.declare.KeepsTo p.declaringEvents :=
  (keepsTo_note rfl).bind fun _ _ =>
    p.main.declare_keepsTo.bind fun _ _ =>
    (KeepsTo.foldlM (fun _ => True) (fun t d _ => t.declare_keepsTo d) (fun _ _ _ _ _ => trivial)
      p.classes trivial).bind fun t _ =>
    (keepsTo_note rfl).bind fun _ _ => (silent_pure t).keepsTo

/-! ### The type check -/

/-- Whatever a name stands for, what is logged about it is too fine for debugging. -/
theorem Scope.level_of_find? {s : Scope} {t : SymbolTable} {x : String} {type : Ty} {e : Event}
    (h : s.find? t x = some (type, some e)) : e.level = .trace := by
  cases hc : s.cls with
  | none =>
    rw [find?, hc] at h
    cases h
  | some c =>
    simp only [find?, hc, Option.orElse_eq_orElse, Option.orElse_eq_or, Option.or_eq_some_iff] at h
    rcases h with h | ⟨-, h | ⟨-, h | ⟨-, h⟩⟩⟩
    · obtain ⟨m, -, h⟩ := Option.bind_eq_some_iff.mp h
      obtain ⟨type', -, h⟩ := Option.bind_eq_some_iff.mp h
      cases h
      rfl
    · rw [class?] at h
      split at h <;> cases h
    · obtain ⟨type', -, h⟩ := Option.map_eq_some_iff.mp h
      cases h
      rfl
    · obtain ⟨parent, -, h⟩ := Option.bind_eq_some_iff.mp h
      obtain ⟨type', -, h⟩ := Option.bind_eq_some_iff.mp h
      cases h
      rfl

theorem Scope.resolve_silent (s : Scope) (t : SymbolTable) (x : String) (span : Span) :
    (s.resolve t x span).Silent := by
  rw [resolve]
  cases h : s.find? t x with
  | none => exact silent_fail _
  | some found =>
    obtain ⟨type, event⟩ := found
    cases event with
    | none => exact silent_pure type
    | some e => exact (silent_note (level_of_find? h)).bind fun _ => silent_pure type

section

variable (t : SymbolTable) (s : Scope)

mutual

/-- What happens to names and calls is not for debugging. -/
theorem Expr.check_silent (e : Expr) : (e.check t s).Silent :=
  match e with
  | .int _ _ | .bool _ _ => by
    rw [Expr.check]
    exact silent_pure _
  | .ident name => by
    rw [Expr.check]
    exact s.resolve_silent t name.name name.span
  | .this span => by
    rw [Expr.check]
    exact silent_lift _
  | .binary _ op left right => by
    rw [Expr.check]
    exact left.check_silent.bind fun _ => right.check_silent.bind fun _ =>
      (silent_lift _).bind fun _ => (silent_lift _).bind fun _ => silent_pure _
  | .index _ array position => by
    rw [Expr.check]
    exact array.check_silent.bind fun _ => position.check_silent.bind fun _ =>
      (silent_lift _).bind fun _ => (silent_lift _).bind fun _ => silent_pure _
  | .not _ operand | .length _ operand | .newArray _ operand => by
    rw [Expr.check]
    exact operand.check_silent.bind fun _ => (silent_lift _).bind fun _ => silent_pure _
  | .newObject _ _ => by
    rw [Expr.check]
    exact (silent_lift _).bind fun _ => silent_pure _
  | .paren _ inner => by
    rw [Expr.check]
    exact inner.check_silent
  | .send _ receiver _ args => by
    rw [Expr.check]
    exact receiver.check_silent.bind fun _ => (silent_lift _).bind fun c =>
      (silent_lift _).bind fun m => (silent_note rfl).bind fun _ =>
      (Expr.checkArgs_silent c.name args.length (.start m) args).bind fun _ =>
      (silent_lift _).bind fun _ => silent_pure _

theorem Expr.checkArgs_silent (cls : String) (got : Nat) (call : PendingCall) (args : List Expr) :
    (Expr.checkArgs t s cls got call args).Silent :=
  match args with
  | [] => by
    rw [Expr.checkArgs]
    exact silent_pure _
  | arg :: args => by
    rw [Expr.checkArgs]
    exact (silent_lift _).bind fun next => arg.check_silent.bind fun _ =>
      .ite (Expr.checkArgs_silent cls got next.2 args) (silent_fail _)

end

theorem Expr.checkCondition_silent (construct : Construct) (cond : Expr) :
    (cond.checkCondition t s construct).Silent :=
  (cond.check_silent t s).bind fun _ => .ite (silent_pure _) (silent_fail _)

mutual

theorem Stmt.check_silent (stmt : Stmt) : (stmt.check t s).Silent :=
  match stmt with
  | .block _ body => by
    rw [Stmt.check]
    exact Stmt.checkAll_silent body
  | .assign _ target value => by
    rw [Stmt.check]
    exact (s.resolve_silent t target.name target.span).bind fun _ =>
      (value.check_silent t s).bind fun _ => .ite (silent_pure _) (silent_fail _)
  | .arrayAssign _ target position value => by
    rw [Stmt.check]
    exact (s.resolve_silent t target.name target.span).bind fun _ =>
      (position.check_silent t s).bind fun _ => (value.check_silent t s).bind fun _ =>
      (silent_lift _).bind fun _ => (silent_lift _).bind fun _ => silent_lift _
  | .ifElse _ cond thenBranch elseBranch => by
    rw [Stmt.check]
    exact (cond.checkCondition_silent t s .ifElse).bind fun _ =>
      thenBranch.check_silent.bind fun _ => elseBranch.check_silent
  | .whileLoop _ cond body => by
    rw [Stmt.check]
    exact (cond.checkCondition_silent t s .whileLoop).bind fun _ => body.check_silent
  | .print _ value => by
    rw [Stmt.check]
    exact (value.check_silent t s).discard

theorem Stmt.checkAll_silent (body : List Stmt) : (Stmt.checkAll t s body).Silent :=
  match body with
  | [] => by
    rw [Stmt.checkAll]
    exact silent_pure _
  | first :: more => by
    rw [Stmt.checkAll]
    exact first.check_silent.bind fun _ => Stmt.checkAll_silent more

end

theorem VarDecl.check_silent (d : VarDecl) : (d.check t s).Silent := by
  unfold VarDecl.check
  split
  next name _ => exact (s.resolve_silent t name.name name.span).discard
  next => exact silent_pure _

end

section

variable (t : SymbolTable)

theorem MainClass.check_keepsTo (d : MainClass) :
    (d.check t).KeepsTo [.checkingMain ⟨d.name.name, mainMethod⟩] := by
  refine (silent_lift _).bind_keepsTo fun c hc => (silent_lift _).bind_keepsTo fun m _ => ?_
  rw [← SymbolTable.name_of_get? (SymbolTable.lookup_eq_ok_iff.mp hc)]
  exact (keepsTo_note rfl).bind fun _ _ =>
    (Silent.forM d.vars (VarDecl.check_silent t _)).bind_keepsTo fun _ _ =>
    (Stmt.checkAll_silent t _ d.body).keepsTo

theorem MethodDecl.check_keepsTo (c : ClassEntry) (d : MethodDecl) :
    (d.check t c).KeepsTo [.checkingMethod ⟨c.name, d.name.name⟩] := by
  refine (silent_lift _).bind_keepsTo fun m hm => ?_
  rw [← ClassEntry.name_of_method? (ClassEntry.lookupMethod_eq_ok_iff.mp hm)]
  exact (keepsTo_note rfl).bind fun _ _ =>
    (Silent.forM d.vars (VarDecl.check_silent t _)).bind_keepsTo fun _ _ =>
    (Stmt.checkAll_silent t _ d.body).bind_keepsTo fun _ _ =>
    (d.result.check_silent t _).bind_keepsTo fun _ _ =>
    (Silent.ite (silent_pure _) (silent_fail _)).keepsTo

/-- A class and its methods are announced by the names in the table, which are those by which they
were looked up. -/
theorem ClassDecl.check_keepsTo (d : ClassDecl) : (d.check t).KeepsTo d.checkingEvents := by
  refine (silent_lift _).bind_keepsTo fun c hc => ?_
  rw [ClassDecl.checkingEvents, List.map_eq_flatMap,
    ← SymbolTable.name_of_get? (SymbolTable.lookup_eq_ok_iff.mp hc)]
  exact (keepsTo_note rfl).bind fun _ _ =>
    (Silent.forM d.fields (VarDecl.check_silent t _)).bind_keepsTo fun _ _ =>
    KeepsTo.forM d.methods (MethodDecl.check_keepsTo t c)

/-- The type check comes to the end of its course exactly if it succeeds, whatever the table. -/
theorem Program.check_completes (p : Program) : (p.check t).Completes p.checkingEvents :=
  (keepsTo_note rfl).bind_completes (List.cons_ne_nil _ _) fun _ _ =>
    (p.main.check_keepsTo t).bind_completes (by simp) fun _ _ =>
    (KeepsTo.forM p.classes (ClassDecl.check_keepsTo t)).bind_completes (List.cons_ne_nil _ _)
      fun _ _ => completes_note rfl

end

/-! ### Both passes -/

theorem Program.analyze_completes (p : Program) : p.analyze.Completes p.course :=
  p.declare_keepsTo.bind_completes (List.cons_ne_nil _ _) fun t _ =>
    (p.check_completes t).bind_pure fun _ => t

/-- **The debug log is a faithful trace.** The messages for debugging that the analysis of a program
logs are the beginning of the list that the declarations of the program determine, and they are the
whole list exactly if the program is accepted. -/
theorem debug_log_follows_course (p : Program) :
    p.analyze.debugMessages <+: p.course.map Event.message ∧
      (p.analyze.debugMessages = p.course.map Event.message ↔ ∃ t, p.analyze.result = .ok t) := by
  have hp := p.analyze_completes
  refine ⟨hp.inOrder.map Event.message, fun hmessages => hp.succeeds ?_, ?_⟩
  · -- two events may read alike, but there are no fewer messages than events
    have hlength := congrArg List.length hmessages
    rw [Analysis.debugMessages, List.length_map, List.length_map] at hlength
    exact hp.inOrder.eq_of_length hlength
  · rintro ⟨t, ht⟩
    rw [Analysis.debugMessages, hp.toEnd t ht]

-- the whole list for a main class `M` and a class `A` that extends it and has a method `f`
example :
    let s : Span := default
    (Program.course ⟨⟨⟨"M", s⟩, ⟨"args", s⟩, [], [], s⟩,
      [⟨⟨"A", s⟩, some ⟨"M", s⟩, [], [⟨.int s, ⟨"f", s⟩, [], [], [], .int s 0, s⟩], s⟩]⟩).map
        Event.message =
      ["declaration pass over 2 classes", "declaring main class M",
        "declaring class A (parent Some(\"M\"))", "declaring method A.f", "declaration pass done",
        "type-check pass over 2 classes", "checking M.main", "checking class A",
        "checking method A.f", "type-check pass done"] := by decide

end MiniJava
