import MiniJava.Analysis.Rename
import MiniJava.Analysis.Typing
import MiniJava.Program.Map
import MiniJava.Proofs.Outcome

/-!
# Analyses do not look at names and spans

Both passes compare names with each other only, and spans with nothing. So they commute with every
change of names that keeps different names different, and with every change of spans:
`Program.declare_map` and `Program.check_map`.
-/

namespace MiniJava

open Function (Injective)

variable {f : String → String} {g : Span → Span} {α β γ δ : Type}

/-! ### Steps in a row -/

theorem relabel_bind {h : α → β} {h' : γ → δ} {x : Except SemanticError α}
    {y : Except SemanticError β} {k : α → Except SemanticError γ} {k' : β → Except SemanticError δ}
    (hxy : y = relabel f g h x) (hk : ∀ a, k' (h a) = relabel f g h' (k a)) :
    y >>= k' = relabel f g h' (x >>= k) := by
  subst hxy
  cases x with
  | ok a => exact hk a
  | error e => rfl

theorem relabel_ite {h : α → β} {c c' : Prop} [Decidable c] [Decidable c']
    {x y : Except SemanticError α} {x' y' : Except SemanticError β} (hc : c' ↔ c)
    (hx : x' = relabel f g h x) (hy : y' = relabel f g h y) :
    (if c' then x' else y') = relabel f g h (if c then x else y) := by
  by_cases h : c
  · rw [if_pos h, if_pos (hc.mpr h), hx]
  · rw [if_neg h, if_neg (mt hc.mp h), hy]

theorem relabel_foldlM {h : β → δ} {φ : α → γ} {step : β → α → Except SemanticError β}
    {step' : δ → γ → Except SemanticError δ}
    (hstep : ∀ b a, step' (h b) (φ a) = relabel f g h (step b a)) (l : List α) (b : β) :
    (l.map φ).foldlM step' (h b) = relabel f g h (l.foldlM step b) := by
  induction l generalizing b with
  | nil => rfl
  | cons a l ih =>
    rw [List.map_cons, List.foldlM_cons, List.foldlM_cons]
    exact relabel_bind (hstep b a) ih

namespace Analysis

theorem bind_relabel {h : α → β} {h' : γ → δ} {p : Analysis α} {q : Analysis β}
    {k : α → Analysis γ} {k' : β → Analysis δ} (hpq : q = p.relabel f g h)
    (hk : ∀ a, k' (h a) = (k a).relabel f g h') : q >>= k' = (p >>= k).relabel f g h' := by
  subst hpq
  obtain ⟨log, result⟩ := p
  cases result with
  | error e => rfl
  | ok a =>
    show Analysis.bind _ _ = Analysis.relabel f g h' (Analysis.bind _ _)
    simp only [Analysis.bind, Analysis.relabel, MiniJava.relabel, hk a, List.map_append]

theorem ite_relabel {h : α → β} {c c' : Prop} [Decidable c] [Decidable c'] {p q : Analysis α}
    {p' q' : Analysis β} (hc : c' ↔ c) (hp : p' = p.relabel f g h) (hq : q' = q.relabel f g h) :
    (if c' then p' else q') = (if c then p else q).relabel f g h := by
  by_cases h : c
  · rw [if_pos h, if_pos (hc.mpr h), hp]
  · rw [if_neg h, if_neg (mt hc.mp h), hq]

theorem pure_relabel {h : α → β} {a : α} {b : β} (hab : b = h a) :
    (pure b : Analysis β) = (pure a : Analysis α).relabel f g h := by
  subst hab
  rfl

theorem note_relabel {e e' : Event} (h : e' = e.rename f) :
    note e' = (note e).relabel f g id := by
  subst h
  rfl

theorem lift_relabel {h : α → β} {x : Except SemanticError α} {y : Except SemanticError β}
    (hxy : y = MiniJava.relabel f g h x) :
    (liftM y : Analysis β) = (liftM x : Analysis α).relabel f g h := by
  subst hxy
  rfl

theorem foldlM_relabel {h : β → δ} {φ : α → γ} {step : β → α → Analysis β}
    {step' : δ → γ → Analysis δ}
    (hstep : ∀ b a, step' (h b) (φ a) = (step b a).relabel f g h) (l : List α) (b : β) :
    (l.map φ).foldlM step' (h b) = (l.foldlM step b).relabel f g h := by
  induction l generalizing b with
  | nil => rfl
  | cons a l ih =>
    rw [List.map_cons, List.foldlM_cons, List.foldlM_cons]
    exact bind_relabel (hstep b a) ih

theorem forM_relabel {φ : α → γ} {step : α → Analysis PUnit} {step' : γ → Analysis PUnit}
    (l : List α) (hstep : ∀ a, step' (φ a) = (step a).relabel f g id) :
    (l.map φ).forM step' = (l.forM step).relabel f g id := by
  induction l with
  | nil => rfl
  | cons a l ih => exact bind_relabel (hstep a) fun _ => ih

theorem discard_relabel {h : α → β} {p : Analysis α} {q : Analysis β}
    (hpq : q = p.relabel f g h) : discard q = (discard p).relabel f g id := by
  simp only [Functor.discard, map_const, Function.comp_apply, map_eq_pure_bind]
  exact bind_relabel hpq fun _ => rfl

end Analysis

/-! ### Looking names up -/

section

variable (hf : Injective f)
include hf

theorem Ty.rename_injective : Injective (Ty.rename f) := by
  intro a b h
  cases a <;> cases b <;> simp_all [Ty.rename, hf.eq_iff]

/-- A name is found under its new name, if the names of a list change. -/
theorem find?_name_rename (name : α → String) {φ : α → α} (hφ : ∀ a, name (φ a) = f (name a))
    (l : List α) (x : String) :
    (l.map φ).find? (name · == f x) = (l.find? (name · == x)).map φ := by
  have hname : ((name · == f x) ∘ φ) = (name · == x) := by
    funext a
    rw [Function.comp_apply, hφ, Bool.eq_iff_iff, beq_iff_eq, beq_iff_eq, hf.eq_iff]
  rw [List.find?_map, hname]

theorem typeOf?_rename (vars : List Variable) (x : String) :
    typeOf? (vars.map (Variable.rename f)) (f x) = (typeOf? vars x).map (Ty.rename f) := by
  rw [typeOf?, typeOf?, find?_name_rename hf Variable.name (fun _ => rfl), Option.map_map,
    Option.map_map]
  rfl

theorem ClassEntry.method?_rename (c : ClassEntry) (x : String) :
    (c.rename f).method? (f x) = (c.method? x).map (MethodEntry.rename f) :=
  find?_name_rename hf MethodEntry.name (fun _ => rfl) c.methods x

theorem SymbolTable.get?_rename (t : SymbolTable) (x : String) :
    (t.rename f).get? (f x) = (t.get? x).map (ClassEntry.rename f) :=
  find?_name_rename hf ClassEntry.name (fun _ => rfl) t.classes x

theorem SymbolTable.contains_rename (t : SymbolTable) (x : String) :
    (t.rename f).contains (f x) = t.contains x := by
  rw [contains, contains, get?_rename hf, Option.isSome_map]

theorem SymbolTable.parentOf?_rename (t : SymbolTable) (c : ClassEntry) :
    (t.rename f).parentOf? (c.rename f) = (t.parentOf? c).map (ClassEntry.rename f) := by
  cases hp : c.parent with
  | none => simp [parentOf?, ClassEntry.rename, hp]
  | some parent => simp [parentOf?, ClassEntry.rename, hp, get?_rename hf]

theorem ClassEntry.member?_rename (c : ClassEntry) (x : String) :
    (c.rename f).member? (f x) = (c.member? x).map (Ty.rename f) := by
  have hfield : (c.rename f).field? (f x) = (c.field? x).map (Ty.rename f) :=
    typeOf?_rename hf c.fields x
  rw [member?, member?, hfield, method?_rename hf]
  cases c.field? x with
  | some type => rfl
  | none => cases c.method? x <;> rfl

theorem Ty.assignableTo_rename (t : SymbolTable) (source target : Ty) :
    (source.rename f).assignableTo (t.rename f) (target.rename f) =
      source.assignableTo t target := by
  have hparent (c : ClassEntry) (p : String) :
      ((c.rename f).parent == some (f p)) = (c.parent == some p) := by
    rw [ClassEntry.rename, Bool.eq_iff_iff, beq_iff_eq, beq_iff_eq]
    cases c.parent <;> simp [hf.eq_iff]
  have heq (s p : String) : (cls (f s) == cls (f p)) = (cls s == cls p) := by
    rw [Bool.eq_iff_iff, beq_iff_eq, beq_iff_eq, cls.injEq, cls.injEq, hf.eq_iff]
  cases source with
  | cls s =>
    cases target with
    | cls p =>
      simp only [assignableTo, rename, SymbolTable.get?_rename hf, heq, Option.any_map, hparent]
    | _ => rfl
  | _ => cases target <;> rfl

/-! ### Resolving names -/

namespace Scope

/-- What is found for a name, with other names in it. -/
private def renameFound (f : String → String) (found : Ty × Option Event) : Ty × Option Event :=
  (found.1.rename f, found.2.map (Event.rename f))

theorem local?_rename (s : Scope) (c : ClassEntry) (x : String) :
    (s.rename f).local? (c.rename f) (f x) = (s.local? c x).map (renameFound f) := by
  cases hm : s.method with
  | none => simp [local?, rename, hm]
  | some m =>
    have hparam : (m.rename f).param? (f x) = (m.param? x).map (Ty.rename f) :=
      typeOf?_rename hf m.params x
    have hlocal : (m.rename f).local? (f x) = (m.local? x).map (Ty.rename f) :=
      typeOf?_rename hf m.locals x
    cases hp : m.param? x with
    | some type => simp [local?, rename, hm, hparam, hp]; rfl
    | none =>
      cases hl : m.local? x with
      | some type => simp [local?, rename, hm, hparam, hlocal, hp, hl]; rfl
      | none => simp [local?, rename, hm, hparam, hlocal, hp, hl]

theorem class?_rename (t : SymbolTable) (x : String) :
    class? (t.rename f) (f x) = (class? t x).map (renameFound f) := by
  rw [class?, class?, SymbolTable.contains_rename hf]
  cases t.contains x <;> rfl

theorem member?_rename (c : ClassEntry) (x : String) :
    member? (c.rename f) (f x) = (member? c x).map (renameFound f) := by
  rw [member?, member?, ClassEntry.member?_rename hf]
  cases c.member? x <;> rfl

theorem inherited?_rename (t : SymbolTable) (c : ClassEntry) (x : String) :
    inherited? (t.rename f) (c.rename f) (f x) = (inherited? t c x).map (renameFound f) := by
  cases hp : t.parentOf? c with
  | none => simp [inherited?, SymbolTable.parentOf?_rename hf, hp]
  | some parent =>
    cases hm : parent.member? x with
    | none =>
      simp [inherited?, SymbolTable.parentOf?_rename hf, ClassEntry.member?_rename hf, hp, hm]
    | some type =>
      simp [inherited?, SymbolTable.parentOf?_rename hf, ClassEntry.member?_rename hf, hp, hm]
      rfl

theorem find?_rename (s : Scope) (t : SymbolTable) (x : String) :
    (s.rename f).find? (t.rename f) (f x) = (s.find? t x).map (renameFound f) := by
  cases hc : s.cls with
  | none => simp [find?, rename, hc]; rfl
  | some c =>
    have hcls : (s.rename f).cls = some (c.rename f) := by simp [rename, hc]
    simp only [find?, hcls, hc, local?_rename hf, class?_rename hf, member?_rename hf,
      inherited?_rename hf]
    cases s.local? c x <;> cases class? t x <;> cases member? c x <;> rfl

theorem resolve_map (s : Scope) (t : SymbolTable) (x : String) (span : Span) :
    (s.rename f).resolve (t.rename f) (f x) (g span) =
      (s.resolve t x span).relabel f g (Ty.rename f) := by
  rw [resolve, resolve, find?_rename hf]
  cases s.find? t x with
  | none => rfl
  | some found =>
    obtain ⟨type, event⟩ := found
    cases event <;> rfl

end Scope

/-! ### Declarations -/

omit hf in
theorem TypeExpr.denote_map (type : TypeExpr) : (type.map f g).denote = type.denote.rename f := by
  cases type <;> rfl

omit hf in
theorem VarDecl.toVariable_map (d : VarDecl) :
    (d.map f g).toVariable = d.toVariable.rename f := by
  rw [toVariable, VarDecl.map, TypeExpr.denote_map]
  rfl

theorem MethodEntry.declareParams_map (m : MethodEntry) (ds : List VarDecl) :
    (m.rename f).declareParams (ds.map (VarDecl.map f g)) =
      relabel f g (rename f) (m.declareParams ds) := by
  refine relabel_foldlM (fun m d => ?_) ds m
  rw [VarDecl.toVariable_map]
  refine relabel_ite ?_ rfl (by simp [MethodEntry.rename, relabel])
  show (typeOf? (m.params.map _) (f d.name.name)).isSome ↔ (typeOf? m.params _).isSome
  rw [typeOf?_rename hf, Option.isSome_map]
  rfl

theorem MethodEntry.declareLocals_map (m : MethodEntry) (ds : List VarDecl) :
    (m.rename f).declareLocals (ds.map (VarDecl.map f g)) =
      relabel f g (rename f) (m.declareLocals ds) := by
  refine relabel_foldlM (fun m d => ?_) ds m
  rw [VarDecl.toVariable_map]
  refine relabel_ite ?_ rfl (by simp [MethodEntry.rename, relabel])
  show (typeOf? (m.locals.map _) (f d.name.name)).isSome ↔ (typeOf? m.locals _).isSome
  rw [typeOf?_rename hf, Option.isSome_map]
  rfl

theorem ClassEntry.declareFields_map (c : ClassEntry) (ds : List VarDecl) :
    (c.rename f).declareFields (ds.map (VarDecl.map f g)) =
      relabel f g (rename f) (c.declareFields ds) := by
  refine relabel_foldlM (fun c d => ?_) ds c
  rw [VarDecl.toVariable_map]
  refine relabel_ite ?_ rfl (by simp [ClassEntry.rename, relabel])
  show (typeOf? (c.fields.map _) (f d.name.name)).isSome ↔ (typeOf? c.fields _).isSome
  rw [typeOf?_rename hf, Option.isSome_map]
  rfl

theorem ClassEntry.declare_map (c : ClassEntry) (d : MethodDecl) :
    (c.rename f).declare (d.map f g) = (c.declare d).relabel f g (rename f) := by
  have hfresh : (c.rename f).freshMethod (f d.name.name) (g d.name.span) =
      relabel f g id (c.freshMethod d.name.name d.name.span) :=
    relabel_ite (by rw [method?_rename hf, Option.isSome_map]) rfl rfl
  have hempty : MethodEntry.empty (f d.name.name) (d.returns.map f g).denote =
      (MethodEntry.empty d.name.name d.returns.denote).rename f := by
    rw [TypeExpr.denote_map]
    rfl
  have hparams : (MethodEntry.empty (f d.name.name) (d.returns.map f g).denote).declareParams
      (d.params.map (VarDecl.map f g)) = relabel f g (MethodEntry.rename f)
        ((MethodEntry.empty d.name.name d.returns.denote).declareParams d.params) := by
    rw [hempty, MethodEntry.declareParams_map hf]
  exact Analysis.bind_relabel (Analysis.note_relabel rfl) fun _ =>
    Analysis.bind_relabel (Analysis.lift_relabel hfresh) fun _ =>
    Analysis.bind_relabel (Analysis.lift_relabel hparams) fun m =>
    Analysis.bind_relabel (Analysis.lift_relabel (m.declareLocals_map hf d.vars)) fun m =>
    Analysis.pure_relabel (by simp [pushMethod, rename])

theorem MainClass.declare_map (hmain : f mainMethod = mainMethod) (d : MainClass) :
    (d.map f g).declare = d.declare.relabel f g (ClassEntry.rename f) := by
  have hlocals : MethodEntry.declareLocals ⟨mainMethod, .void, [⟨f d.args.name, .stringArray⟩], []⟩
      (d.vars.map (VarDecl.map f g)) = relabel f g (MethodEntry.rename f)
        (MethodEntry.declareLocals ⟨mainMethod, .void, [⟨d.args.name, .stringArray⟩], []⟩
          d.vars) := by
    rw [← MethodEntry.declareLocals_map hf, MethodEntry.rename, hmain]
    rfl
  exact Analysis.bind_relabel (Analysis.note_relabel rfl) fun _ =>
    Analysis.bind_relabel (Analysis.lift_relabel hlocals) fun _ => Analysis.pure_relabel rfl

theorem SymbolTable.checkParent_map (t : SymbolTable) (cls : String) (parent : Option Ident) :
    (t.rename f).checkParent (f cls) (parent.map (Ident.map f g)) =
      relabel f g id (t.checkParent cls parent) := by
  cases parent with
  | none => rfl
  | some parent =>
    simp only [checkParent, Option.map_some, Ident.map, get?_rename hf]
    cases t.get? parent.name with
    | none => rfl
    | some entry =>
      cases hp : entry.parent with
      | none => simp [ClassEntry.rename, hp, relabel]
      | some grandparent =>
        simp [ClassEntry.rename, hp, relabel, SemanticError.map, SemanticFault.rename]

theorem SymbolTable.declare_map (t : SymbolTable) (d : ClassDecl) :
    (t.rename f).declare (d.map f g) = (t.declare d).relabel f g (rename f) := by
  have hfresh : (t.rename f).freshClass (f d.name.name) (g d.name.span) =
      relabel f g id (t.freshClass d.name.name d.name.span) :=
    relabel_ite (by rw [contains_rename hf]) rfl rfl
  have hparent :
      (d.parent.map (Ident.map f g)).map Ident.name = (d.parent.map Ident.name).map f := by
    rw [Option.map_map, Option.map_map]
    rfl
  have hfields : (ClassEntry.empty (f d.name.name)
        ((d.parent.map (Ident.map f g)).map Ident.name)).declareFields
      (d.fields.map (VarDecl.map f g)) = relabel f g (ClassEntry.rename f)
        ((ClassEntry.empty d.name.name (d.parent.map Ident.name)).declareFields d.fields) := by
    rw [hparent, ← ClassEntry.declareFields_map hf]
    rfl
  exact Analysis.bind_relabel (Analysis.lift_relabel hfresh) fun _ =>
    Analysis.bind_relabel (Analysis.lift_relabel (t.checkParent_map hf _ d.parent)) fun _ =>
    Analysis.bind_relabel (Analysis.note_relabel (congrArg _ hparent)) fun _ =>
    Analysis.bind_relabel (Analysis.lift_relabel hfields) fun c =>
    Analysis.bind_relabel (Analysis.foldlM_relabel (ClassEntry.declare_map hf) d.methods c) fun _ =>
    Analysis.pure_relabel (by simp [push, rename])

/-- Collecting declarations commutes with a change of names and spans. -/
theorem Program.declare_map (hmain : f mainMethod = mainMethod) (p : Program) :
    (p.map f g).declare = p.declare.relabel f g (SymbolTable.rename f) := by
  have hpass : Event.declarationPass ((p.map f g).classes.length + 1) =
      .rename f (.declarationPass (p.classes.length + 1)) := by
    simp [Program.map, Event.rename]
  exact Analysis.bind_relabel (Analysis.note_relabel hpass) fun _ =>
    Analysis.bind_relabel (p.main.declare_map hf hmain) fun main =>
    Analysis.bind_relabel
      (Analysis.foldlM_relabel (SymbolTable.declare_map hf) p.classes ⟨[main]⟩) fun _ =>
    Analysis.bind_relabel (Analysis.note_relabel rfl) fun _ => Analysis.pure_relabel rfl

/-! ### Checks -/

theorem requireOperand_map {expected : Ty} (hexpected : expected.rename f = expected)
    (rule : OperandRule) (found : Ty) (span : Span) :
    requireOperand rule expected (found.rename f) (g span) =
      relabel f g id (requireOperand rule expected found span) := by
  exact relabel_ite ((Ty.rename_injective hf).eq_iff' hexpected) rfl rfl

theorem requirePart_map {expected : Ty} (hexpected : expected.rename f = expected)
    (part : ArrayPart) (found : Ty) (span : Span) :
    requirePart part expected (found.rename f) (g span) =
      relabel f g id (requirePart part expected found span) := by
  refine relabel_ite ((Ty.rename_injective hf).eq_iff' hexpected) rfl ?_
  simp [relabel, SemanticError.map, SemanticFault.rename, hexpected]

theorem SymbolTable.lookup_map (t : SymbolTable) (x : String) (span : Span) :
    (t.rename f).lookup (f x) (g span) =
      relabel f g (ClassEntry.rename f) (t.lookup x span) := by
  rw [lookup, lookup, get?_rename hf]
  cases t.get? x <;> rfl

theorem ClassEntry.lookupMethod_map (c : ClassEntry) (x : String) (span : Span) :
    (c.rename f).lookupMethod (f x) (g span) =
      relabel f g (MethodEntry.rename f) (c.lookupMethod x span) := by
  rw [lookupMethod, lookupMethod, method?_rename hf]
  cases c.method? x <;> rfl

theorem SymbolTable.receiver_map (t : SymbolTable) (type : Ty) (span : Span) :
    (t.rename f).receiver (type.rename f) (g span) =
      relabel f g (ClassEntry.rename f) (t.receiver type span) := by
  have hcls : (type.rename f).className?.bind (t.rename f).get? =
      (type.className?.bind t.get?).map (ClassEntry.rename f) := by
    cases type with
    | cls x => exact get?_rename hf t x
    | _ => rfl
  rw [receiver, receiver, hcls]
  cases type.className?.bind t.get? <;> rfl

omit hf in
theorem Scope.this_map {s : Scope} (hs : s.cls.isSome) (span : Span) :
    (s.rename f).this (g span) = relabel f g (Ty.rename f) (s.this span) := by
  obtain ⟨c, hc⟩ := Option.isSome_iff_exists.mp hs
  simp only [this, rename, hc, Option.map_some]
  rfl

omit hf in
theorem PendingCall.next_map (call : PendingCall) (got : Nat) (span : Span) :
    (call.rename f).next got (g span) =
      relabel f g (Prod.map (Ty.rename f) (rename f)) (call.next got span) := by
  have hparam : (call.rename f).method.params[(call.rename f).position]? =
      call.method.params[call.position]?.map (Variable.rename f) := List.getElem?_map
  rw [next, next, hparam]
  cases call.method.params[call.position]? with
  | some param => rfl
  | none =>
    simp [relabel, SemanticError.map, SemanticFault.rename, countMismatch, rename,
      MethodEntry.rename]

omit hf in
theorem PendingCall.finish_map (call : PendingCall) (span : Span) :
    (call.rename f).finish (g span) = relabel f g id (call.finish span) := by
  refine relabel_ite ?_ ?_ rfl
  · simp [rename, MethodEntry.rename]
  · simp [relabel, SemanticError.map, SemanticFault.rename, countMismatch, rename,
      MethodEntry.rename]

omit hf in
@[simp] theorem Expr.span_map (e : Expr) : (e.map f g).span = g e.span := by
  cases e <;> rfl

omit hf in
theorem Expr.length_mapAll (es : List Expr) : (Expr.mapAll f g es).length = es.length := by
  induction es with
  | nil => rfl
  | cons e es ih => rw [Expr.mapAll, List.length_cons, List.length_cons, ih]

open Analysis in
mutual

theorem Expr.check_map {t : SymbolTable} {s : Scope} (hs : s.cls.isSome) (e : Expr) :
    (e.map f g).check (t.rename f) (s.rename f) = (e.check t s).relabel f g (Ty.rename f) :=
  match e with
  | .int _ _ | .bool _ _ => by
    simp only [Expr.map, Expr.check]
    rfl
  | .ident name => by
    simp only [Expr.map, Expr.check]
    exact s.resolve_map hf t name.name name.span
  | .this span => by
    simp only [Expr.map, Expr.check]
    exact lift_relabel (s.this_map hs span)
  | .binary _ op left right => by
    have hop : op.operand.rename f = op.operand := by cases op <;> rfl
    have hresult : op.result = op.result.rename f := by cases op <;> rfl
    simp only [Expr.map, Expr.check, Expr.span_map]
    exact bind_relabel (left.check_map hs) fun leftType =>
      bind_relabel (right.check_map hs) fun rightType =>
      bind_relabel (lift_relabel (requireOperand_map hf hop op.rule leftType left.span)) fun _ =>
      bind_relabel (lift_relabel (requireOperand_map hf hop op.rule rightType right.span)) fun _ =>
      pure_relabel hresult
  | .not _ operand => by
    simp only [Expr.map, Expr.check, Expr.span_map]
    exact bind_relabel (operand.check_map hs) fun type =>
      bind_relabel (lift_relabel (requireOperand_map hf rfl .notBoolean type operand.span)) fun _ =>
      pure_relabel rfl
  | .index _ array position => by
    simp only [Expr.map, Expr.check, Expr.span_map]
    exact bind_relabel (array.check_map hs) fun arrayType =>
      bind_relabel (position.check_map hs) fun found =>
      bind_relabel (lift_relabel (requireOperand_map hf rfl .indexNotArray arrayType array.span))
        fun _ =>
      bind_relabel (lift_relabel (requireOperand_map hf rfl .indexNotInt found position.span))
        fun _ =>
      pure_relabel rfl
  | .length _ array => by
    simp only [Expr.map, Expr.check, Expr.span_map]
    exact bind_relabel (array.check_map hs) fun type =>
      bind_relabel (lift_relabel (requireOperand_map hf rfl .lengthNotArray type array.span))
        fun _ =>
      pure_relabel rfl
  | .newArray _ size => by
    simp only [Expr.map, Expr.check, Expr.span_map]
    exact bind_relabel (size.check_map hs) fun type =>
      bind_relabel (lift_relabel (requireOperand_map hf rfl .sizeNotInt type size.span)) fun _ =>
      pure_relabel rfl
  | .newObject _ cls => by
    simp only [Expr.map, Expr.check]
    exact bind_relabel (lift_relabel (t.lookup_map hf cls.name cls.span)) fun _ => pure_relabel rfl
  | .paren _ inner => by
    simp only [Expr.map, Expr.check]
    exact inner.check_map hs
  | .send span receiver method args => by
    simp only [Expr.map, Expr.check, Expr.span_map, Expr.length_mapAll]
    exact bind_relabel (receiver.check_map hs) fun type =>
      bind_relabel (lift_relabel (t.receiver_map hf type receiver.span)) fun c =>
      bind_relabel (lift_relabel (c.lookupMethod_map hf method.name method.span)) fun m =>
      bind_relabel (note_relabel rfl) fun _ =>
      bind_relabel (Expr.checkArgs_map hs c.name args.length (.start m) args) fun call =>
      bind_relabel (lift_relabel (call.finish_map span)) fun _ => pure_relabel rfl

theorem Expr.checkArgs_map {t : SymbolTable} {s : Scope} (hs : s.cls.isSome) (cls : String)
    (got : Nat) (call : PendingCall) (args : List Expr) :
    Expr.checkArgs (t.rename f) (s.rename f) (f cls) got (call.rename f) (Expr.mapAll f g args) =
      (Expr.checkArgs t s cls got call args).relabel f g (PendingCall.rename f) :=
  match args with
  | [] => by
    simp only [Expr.mapAll, Expr.checkArgs]
    rfl
  | arg :: args => by
    simp only [Expr.mapAll, Expr.checkArgs, Expr.span_map]
    exact bind_relabel (lift_relabel (call.next_map got arg.span)) fun (expected, call) =>
      bind_relabel (arg.check_map hs) fun found =>
      ite_relabel (Bool.eq_iff_iff.mp (Ty.assignableTo_rename hf t found expected))
        (Expr.checkArgs_map hs cls got call args) rfl

end

open Analysis in
theorem Expr.checkCondition_map {t : SymbolTable} {s : Scope} (hs : s.cls.isSome)
    (construct : Construct) (cond : Expr) :
    (cond.map f g).checkCondition (t.rename f) (s.rename f) construct =
      (cond.checkCondition t s construct).relabel f g id := by
  simp only [Expr.checkCondition, Expr.span_map]
  exact bind_relabel (cond.check_map hf hs) fun found =>
    ite_relabel ((Ty.rename_injective hf).eq_iff' rfl) (pure_relabel rfl) rfl

omit hf in
open Analysis in
mutual

theorem Stmt.check_map (hf : Injective f) {t : SymbolTable} {s : Scope} (hs : s.cls.isSome)
    (stmt : Stmt) :
    (stmt.map f g).check (t.rename f) (s.rename f) = (stmt.check t s).relabel f g id :=
  match stmt with
  | .block _ body => by
    simp only [Stmt.map, Stmt.check]
    exact Stmt.checkAll_map hf hs body
  | .assign span target value => by
    simp only [Stmt.map, Stmt.check]
    exact bind_relabel (s.resolve_map hf t target.name target.span) fun expected =>
      bind_relabel (value.check_map hf hs) fun found =>
      ite_relabel (Bool.eq_iff_iff.mp (Ty.assignableTo_rename hf t found expected))
        (pure_relabel rfl) rfl
  | .arrayAssign _ target position value => by
    simp only [Stmt.map, Stmt.check, Expr.span_map]
    exact bind_relabel (s.resolve_map hf t target.name target.span) fun targetType =>
      bind_relabel (position.check_map hf hs) fun indexType =>
      bind_relabel (value.check_map hf hs) fun valueType =>
      bind_relabel (lift_relabel (requirePart_map hf rfl .target targetType target.span)) fun _ =>
      bind_relabel (lift_relabel (requirePart_map hf rfl .index indexType position.span)) fun _ =>
      lift_relabel (requirePart_map hf rfl .value valueType value.span)
  | .ifElse _ cond thenBranch elseBranch => by
    simp only [Stmt.map, Stmt.check]
    exact bind_relabel (cond.checkCondition_map hf hs .ifElse) fun _ =>
      bind_relabel (thenBranch.check_map hf hs) fun _ => elseBranch.check_map hf hs
  | .whileLoop _ cond body => by
    simp only [Stmt.map, Stmt.check]
    exact bind_relabel (cond.checkCondition_map hf hs .whileLoop) fun _ => body.check_map hf hs
  | .print _ value => by
    simp only [Stmt.map, Stmt.check]
    exact discard_relabel (value.check_map hf hs)

theorem Stmt.checkAll_map (hf : Injective f) {t : SymbolTable} {s : Scope} (hs : s.cls.isSome)
    (body : List Stmt) :
    Stmt.checkAll (t.rename f) (s.rename f) (Stmt.mapAll f g body) =
      (Stmt.checkAll t s body).relabel f g id :=
  match body with
  | [] => by
    simp only [Stmt.mapAll, Stmt.checkAll]
    rfl
  | first :: more => by
    simp only [Stmt.mapAll, Stmt.checkAll]
    exact bind_relabel (first.check_map hf hs) fun _ => Stmt.checkAll_map hf hs more

end

theorem VarDecl.check_map (t : SymbolTable) (s : Scope) (d : VarDecl) :
    (d.map f g).check (t.rename f) (s.rename f) = (d.check t s).relabel f g id := by
  obtain ⟨type, name, span⟩ := d
  cases type with
  | named cls => exact Analysis.discard_relabel (s.resolve_map hf t cls.name cls.span)
  | int | boolean | intArray => rfl

open Analysis in
theorem MainClass.check_map (hmain : f mainMethod = mainMethod) (t : SymbolTable) (d : MainClass) :
    (d.map f g).check (t.rename f) = (d.check t).relabel f g id := by
  have hlookup (c : ClassEntry) : (c.rename f).lookupMethod mainMethod (g d.span) =
      relabel f g (MethodEntry.rename f) (c.lookupMethod mainMethod d.span) := by
    rw [← c.lookupMethod_map hf, hmain]
  have hevent (c : ClassEntry) : Event.checkingMain ⟨f c.name, mainMethod⟩ =
      .rename f (.checkingMain ⟨c.name, mainMethod⟩) := by
    simp only [Event.rename, MethodName.rename, hmain]
  exact bind_relabel (lift_relabel (t.lookup_map hf d.name.name d.name.span)) fun c =>
    bind_relabel (lift_relabel (hlookup c)) fun m =>
    bind_relabel (note_relabel (hevent c)) fun _ =>
    bind_relabel (forM_relabel d.vars (VarDecl.check_map hf t ⟨some c, some m⟩)) fun _ =>
    Stmt.checkAll_map hf (s := ⟨some c, some m⟩) rfl d.body

open Analysis in
theorem MethodDecl.check_map (t : SymbolTable) (c : ClassEntry) (d : MethodDecl) :
    (d.map f g).check (t.rename f) (c.rename f) = (d.check t c).relabel f g id := by
  simp only [MethodDecl.check, MethodDecl.map, Expr.span_map]
  exact bind_relabel (lift_relabel (c.lookupMethod_map hf d.name.name d.name.span)) fun m =>
    bind_relabel (note_relabel rfl) fun _ =>
    bind_relabel (forM_relabel d.vars (VarDecl.check_map hf t ⟨some c, some m⟩)) fun _ =>
    bind_relabel (Stmt.checkAll_map hf (s := ⟨some c, some m⟩) rfl d.body) fun _ =>
    bind_relabel (d.result.check_map hf (s := ⟨some c, some m⟩) rfl) fun found =>
    ite_relabel (Bool.eq_iff_iff.mp (Ty.assignableTo_rename hf t found m.returns))
      (pure_relabel rfl) rfl

open Analysis in
theorem ClassDecl.check_map (t : SymbolTable) (d : ClassDecl) :
    (d.map f g).check (t.rename f) = (d.check t).relabel f g id :=
  bind_relabel (lift_relabel (t.lookup_map hf d.name.name d.name.span)) fun c =>
    bind_relabel (note_relabel rfl) fun _ =>
    bind_relabel (forM_relabel d.fields (VarDecl.check_map hf t ⟨some c, none⟩)) fun _ =>
    forM_relabel d.methods (MethodDecl.check_map hf t c)

open Analysis in
/-- Checking a program commutes with a change of names and spans. -/
theorem Program.check_map (hmain : f mainMethod = mainMethod) (t : SymbolTable) (p : Program) :
    (p.map f g).check (t.rename f) = (p.check t).relabel f g id := by
  have hpass : Event.typeCheckPass ((p.map f g).classes.length + 1) =
      .rename f (.typeCheckPass (p.classes.length + 1)) := by
    simp [Program.map, Event.rename]
  exact bind_relabel (note_relabel hpass) fun _ =>
    bind_relabel (p.main.check_map hf hmain t) fun _ =>
    bind_relabel (forM_relabel p.classes (ClassDecl.check_map hf t)) fun _ => note_relabel rfl

/-- Both passes together commute with a change of names and spans. -/
theorem Program.analyze_map (hmain : f mainMethod = mainMethod) (p : Program) :
    (p.map f g).analyze = p.analyze.relabel f g (SymbolTable.rename f) :=
  Analysis.bind_relabel (p.declare_map hf hmain) fun t =>
    Analysis.bind_relabel (p.check_map hf hmain t) fun _ => Analysis.pure_relabel rfl

end

/-! ### Programs that differ in their spans only -/

section

theorem Ty.rename_id (type : Ty) : type.rename id = type := by
  cases type <;> rfl

theorem Variable.rename_id : Variable.rename id = id := by
  funext v
  rw [Variable.rename, Ty.rename_id]
  rfl

theorem MethodEntry.rename_id : MethodEntry.rename id = id := by
  funext m
  simp [MethodEntry.rename, Variable.rename_id, Ty.rename_id]

theorem ClassEntry.rename_id : ClassEntry.rename id = id := by
  funext c
  simp [ClassEntry.rename, Variable.rename_id, MethodEntry.rename_id]

theorem SymbolTable.rename_id : SymbolTable.rename id = id := by
  funext t
  simp [SymbolTable.rename, ClassEntry.rename_id]

theorem Event.rename_id : Event.rename id = id := by
  funext e
  cases e <;> simp [Event.rename, MethodName.rename]

theorem SemanticFault.rename_id (fault : SemanticFault) : fault.rename id = fault := by
  cases fault <;> simp [SemanticFault.rename, MethodName.rename, Ty.rename_id]

theorem SameUpToSpan.of_relabel {x y : Except SemanticError α}
    (h : relabel id g id x = relabel id g id y) : SameUpToSpan x y := by
  cases x with
  | ok a =>
    cases y with
    | ok b =>
      obtain rfl : a = b := Except.ok.inj h
      exact .ok a
    | error e => cases h
  | error e =>
    cases y with
    | ok b => cases h
    | error e' =>
      have hfault : e.fault.rename id = e'.fault.rename id :=
        congrArg SemanticError.fault (Except.error.inj h)
      obtain ⟨fault, a⟩ := e
      obtain ⟨fault', b⟩ := e'
      obtain rfl : fault = fault' := by rwa [fault.rename_id, fault'.rename_id] at hfault
      exact .error fault a b

theorem Analysis.same_of_relabel {p q : Analysis α}
    (h : p.relabel id g id = q.relabel id g id) :
    p.log = q.log ∧ SameUpToSpan p.result q.result := by
  obtain ⟨hlog, hresult⟩ := Analysis.mk.inj h
  rw [Event.rename_id, List.map_id, List.map_id] at hlog
  exact ⟨hlog, .of_relabel hresult⟩

variable {p q : Program}

theorem Program.declare_eraseSpans (h : p.eraseSpans = q.eraseSpans) :
    p.declare.log = q.declare.log ∧ SameUpToSpan p.declare.result q.declare.result := by
  have hid : Injective (id : String → String) := fun _ _ => id
  have heq := congrArg Program.declare h
  rw [eraseSpans, eraseSpans, declare_map hid rfl, declare_map hid rfl,
    SymbolTable.rename_id] at heq
  exact Analysis.same_of_relabel heq

theorem Program.check_eraseSpans (h : p.eraseSpans = q.eraseSpans) (t : SymbolTable) :
    (p.check t).log = (q.check t).log ∧ SameUpToSpan (p.check t).result (q.check t).result := by
  have hid : Injective (id : String → String) := fun _ _ => id
  have heq := congrArg (Program.check (t.rename id)) h
  rw [eraseSpans, eraseSpans, check_map hid rfl, check_map hid rfl] at heq
  exact Analysis.same_of_relabel heq

theorem Program.analyze_eraseSpans (h : p.eraseSpans = q.eraseSpans) :
    p.analyze.log = q.analyze.log ∧ SameUpToSpan p.analyze.result q.analyze.result := by
  have hid : Injective (id : String → String) := fun _ _ => id
  have heq := congrArg Program.analyze h
  rw [eraseSpans, eraseSpans, analyze_map hid rfl, analyze_map hid rfl,
    SymbolTable.rename_id] at heq
  exact Analysis.same_of_relabel heq

end

end MiniJava
