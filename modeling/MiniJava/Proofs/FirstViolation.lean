import MiniJava.Analysis.DeclarationOrder
import MiniJava.Proofs.Declaration

/-!
# The declaration pass reports the first violation

The declarations of a program can be taken in one after the other, each by its own rule
(`Declaration.accept`). `Accepts` says of a part of the pass that it does just this for some
declarations in a row. Each function of the pass is shown to accept the declarations it is there for,
as long as what it has built so far holds the declarations before (`Records`); so the pass over a
program accepts `Program.declarations`, and stops where the first of them is refused.
-/

namespace MiniJava

/-! ### Declarations in a row -/

theorem Binding.repeated?_eq_none_iff {before : List Binding} {b : Binding}
    {fault : SemanticFault} : b.repeated? before fault = none ↔ b ∉ before := by
  simp [repeated?]

/-- Takes a declaration in behind others, or refuses it. -/
def Declaration.accept (before : List Binding) (d : Declaration) :
    Except SemanticError (List Binding) :=
  match d.binding.fault? before with
  | some fault => .error ⟨fault, d.span⟩
  | none => .ok (before ++ [d.binding])

/-- Takes declarations in, one after the other. -/
def acceptAll (before : List Binding) (ds : List Declaration) :
    Except SemanticError (List Binding) :=
  ds.foldlM Declaration.accept before

theorem Declaration.accept_eq_ok_iff (before : List Binding) (d : Declaration)
    (after : List Binding) :
    d.accept before = .ok after ↔
      d.binding.fault? before = none ∧ after = before ++ [d.binding] := by
  rw [accept]
  cases hfault : d.binding.fault? before with
  | none => simp [eq_comm]
  | some fault => simp

theorem Declaration.accept_eq_error_iff {before : List Binding} {d : Declaration}
    {e : SemanticError} :
    d.accept before = .error e ↔ d.binding.fault? before = some e.fault ∧ d.span = e.span := by
  rw [accept]
  cases hfault : d.binding.fault? before with
  | none => simp
  | some fault =>
    cases e
    simp

theorem foldl_binding (ds : List Declaration) (before : List Binding) :
    ds.foldl (fun before d => before ++ [d.binding]) before =
      before ++ ds.map Declaration.binding := by
  induction ds generalizing before with
  | nil => rw [List.foldl_nil, List.map_nil, List.append_nil]
  | cons d ds ih =>
    rw [List.foldl_cons, ih, List.map_cons]
    exact (List.append_cons ..).symm

theorem acceptAll_append (before : List Binding) (ds es : List Declaration) :
    acceptAll before (ds ++ es) = acceptAll before ds >>= fun after => acceptAll after es :=
  List.foldlM_append

/-- Declarations are taken in exactly if none of them breaks its rule behind those before it. -/
theorem acceptAll_eq_ok_iff {before after : List Binding} {ds : List Declaration} :
    acceptAll before ds = .ok after ↔
      (∀ first d rest, ds = first ++ d :: rest →
        d.binding.fault? (before ++ first.map Declaration.binding) = none) ∧
        after = before ++ ds.map Declaration.binding := by
  rw [acceptAll, foldlM_eq_ok_iff fun before d after => d.accept_eq_ok_iff before after]
  simp only [foldl_binding]

/-- Declarations are refused exactly for the first of them that breaks its rule. -/
theorem acceptAll_eq_error_iff {before : List Binding} {ds : List Declaration} {e : SemanticError} :
    acceptAll before ds = .error e ↔
      ∃ first d rest, ds = first ++ d :: rest ∧
        (d.binding.fault? (before ++ first.map Declaration.binding) = some e.fault ∧
          d.span = e.span) ∧
        ∀ start f between, first = start ++ f :: between →
          f.binding.fault? (before ++ start.map Declaration.binding) = none := by
  rw [acceptAll, foldlM_eq_error_iff fun before d after => d.accept_eq_ok_iff before after]
  simp only [foldl_binding, Declaration.accept_eq_error_iff]

/-! ### Parts of the pass -/

/-- A part of the pass takes in the declarations `ds` behind others: it stops at the first of them
that is refused, and gives `a` if there is none. -/
def Accepts {α : Type} (part : Except SemanticError α) (before : List Binding)
    (ds : List Declaration) (a : α) : Prop :=
  part = acceptAll before ds >>= fun _ => .ok a

namespace Accepts

variable {α β σ : Type} {before : List Binding}

theorem ok (before : List Binding) (a : α) : Accepts (.ok a) before [] a := rfl

/-- One part after the other. Only where the first one succeeds, the second one matters. -/
theorem append {part : Except SemanticError α} {f : α → Except SemanticError β}
    {ds es : List Declaration} {a : α} {b : β} (hpart : Accepts part before ds a)
    (hf : acceptAll before ds = .ok (before ++ ds.map Declaration.binding) →
      Accepts (f a) (before ++ ds.map Declaration.binding) es b) :
    Accepts (part >>= f) before (ds ++ es) b := by
  unfold Accepts at *
  rw [hpart, acceptAll_append]
  cases hds : acceptAll before ds with
  | error e => rfl
  | ok after =>
    obtain ⟨-, rfl⟩ := acceptAll_eq_ok_iff.mp hds
    exact hf hds

theorem cons {part : Except SemanticError α} {f : α → Except SemanticError β} {d : Declaration}
    {es : List Declaration} {a : α} {b : β} (hpart : Accepts part before [d] a)
    (hf : d.binding.fault? before = none → Accepts (f a) (before ++ [d.binding]) es b) :
    Accepts (part >>= f) before (d :: es) b := by
  show Accepts (part >>= f) before ([d] ++ es) b
  refine hpart.append fun hok => hf ?_
  have hfault := (acceptAll_eq_ok_iff.mp hok).1 [] d [] rfl
  rwa [List.map_nil, List.append_nil] at hfault

theorem eq_error_iff {part : Except SemanticError α} {ds : List Declaration} {a : α}
    (hpart : Accepts part before ds a) {e : SemanticError} :
    part = .error e ↔ acceptAll before ds = .error e := by
  rw [hpart, bind_eq_error_iff]
  simp

theorem eq_ok_iff {part : Except SemanticError α} {ds : List Declaration} {a : α}
    (hpart : Accepts part before ds a) {b : α} :
    part = .ok b ↔ b = a ∧ acceptAll before ds = .ok (before ++ ds.map Declaration.binding) := by
  rw [hpart, bind_eq_ok_iff]
  constructor
  · rintro ⟨after, hok, hb⟩
    obtain ⟨-, rfl⟩ := acceptAll_eq_ok_iff.mp hok
    exact ⟨(Except.ok.inj hb).symm, hok⟩
  · rintro ⟨rfl, hok⟩
    exact ⟨_, hok, rfl⟩

/-- A part that only computes something from what came before. -/
theorem map {part : Except SemanticError α} {ds : List Declaration} {a : α}
    (hpart : Accepts part before ds a) (f : α → β) :
    Accepts (part >>= fun a => .ok (f a)) before ds (f a) := by
  have h := hpart.append (f := fun a => .ok (f a)) (b := f a) fun _ => ok _ _
  rwa [List.append_nil] at h

/-- A part that follows the rule of one declaration. -/
theorem ofRule {part : Except SemanticError α} {b : Binding} {span : Span} {a : α}
    (hfault : ∀ fault, b.fault? before = some fault → part = .error ⟨fault, span⟩)
    (hok : b.fault? before = none → part = .ok a) : Accepts part before [⟨b, span⟩] a := by
  unfold Accepts
  rw [acceptAll, List.foldlM_cons, Declaration.accept]
  cases hb : b.fault? before with
  | none => exact hok hb
  | some fault => exact hfault fault hb

/-- A test that refuses a repeated declaration. -/
theorem ofTest {b : Binding} {fault : SemanticFault} {span : Span} {p : Prop} [Decidable p]
    (hrule : b.fault? before = b.repeated? before fault) (hp : p ↔ b ∈ before) (a : α) :
    Accepts (if p then .error ⟨fault, span⟩ else .ok a) before [⟨b, span⟩] a := by
  apply ofRule <;> rw [hrule]
  · intro fault' h
    obtain ⟨hb, heq⟩ := Option.ite_none_right_eq_some.mp h
    rw [if_pos (hp.mpr hb), Option.some.inj heq]
  · intro h
    rw [if_neg fun hb => Binding.repeated?_eq_none_iff.mp h (hp.mp hb)]

/-- Parts in a row, where `Inv` holds between them. -/
theorem foldlM {step : σ → α → Except SemanticError σ} {add : σ → α → σ}
    {declarations : α → List Declaration} (Inv : List Binding → σ → Prop)
    (hstep : ∀ before s a, Inv before s → Accepts (step s a) before (declarations a) (add s a))
    (hinv : ∀ before s a, Inv before s →
      acceptAll before (declarations a) =
        .ok (before ++ (declarations a).map Declaration.binding) →
      Inv (before ++ (declarations a).map Declaration.binding) (add s a))
    (l : List α) {s : σ} (hs : Inv before s) :
    Accepts (l.foldlM step s) before (l.flatMap declarations) (l.foldl add s) := by
  induction l generalizing before s with
  | nil => exact ok before s
  | cons a l ih =>
    rw [List.foldlM_cons, List.flatMap_cons, List.foldl_cons]
    exact (hstep before s a hs).append fun hok => ih (hinv before s a hs hok)

end Accepts

/-! ### Variables -/

/-- Variables of one entry are declared in a row. The entry holds those that are bound before. -/
theorem accepts_vars {σ : Type} (entry : List Variable → σ) (fault : String → SemanticFault)
    {step : σ → Variable → Span → Except SemanticError σ} {bind : String → Binding}
    (hinj : ∀ x y, bind x = bind y → x = y)
    (hrule : ∀ before x, (bind x).fault? before = (bind x).repeated? before (fault x))
    (hstep : ∀ vars v span, step (entry vars) v span =
      if (typeOf? vars v.name).isSome then .error ⟨fault v.name, span⟩
      else .ok (entry (vars ++ [v])))
    (ds : List VarDecl) (vars : List Variable) {before : List Binding}
    (hbefore : ∀ x, bind x ∈ before ↔ x ∈ vars.map Variable.name) :
    Accepts (ds.foldlM (fun s d => step s d.toVariable d.name.span) (entry vars)) before
      (ds.map (VarDecl.declaration bind)) (entry (vars ++ ds.map VarDecl.toVariable)) := by
  induction ds generalizing before vars with
  | nil =>
    rw [List.map_nil, List.map_nil, List.append_nil]
    exact Accepts.ok before _
  | cons d ds ih =>
    have hnext : ∀ x, bind x ∈ before ++ [bind d.name.name] ↔
        x ∈ (vars ++ [d.toVariable]).map Variable.name := by
      intro x
      rw [List.mem_append, hbefore, List.map_append, List.mem_append, List.mem_singleton,
        List.map_singleton, List.mem_singleton]
      exact or_congr_right ⟨hinj x _, congrArg bind⟩
    rw [List.foldlM_cons, List.map_cons, List.map_cons, List.append_cons, hstep]
    refine Accepts.cons (Accepts.ofTest (hrule before d.name.name) ?_ _) fun _ => ih _ hnext
    rw [typeOf?_isSome_iff, hbefore]
    rfl

theorem MethodEntry.accepts_declareParams {m : MethodEntry} (hm : m.params = []) {cls : String}
    {before : List Binding} (hbefore : ∀ x, .param ⟨cls, m.name⟩ x ∉ before) (ds : List VarDecl) :
    Accepts (m.declareParams ds) before (ds.map (VarDecl.declaration (.param ⟨cls, m.name⟩)))
      { m with params := ds.map VarDecl.toVariable } := by
  obtain ⟨name, returns, params, vars⟩ := m
  subst hm
  exact accepts_vars (fun vs => (⟨name, returns, vs, vars⟩ : MethodEntry)) (.duplicateParameter name)
    (fun _ _ h => (Binding.param.inj h).2) (fun _ _ => rfl) (fun _ _ _ => rfl) ds []
    fun x => iff_of_false (hbefore x) List.not_mem_nil

theorem MethodEntry.accepts_declareLocals {m : MethodEntry} (hm : m.locals = []) {cls : String}
    {before : List Binding} (hbefore : ∀ x, .localVar ⟨cls, m.name⟩ x ∉ before)
    (ds : List VarDecl) :
    Accepts (m.declareLocals ds) before (ds.map (VarDecl.declaration (.localVar ⟨cls, m.name⟩)))
      { m with locals := ds.map VarDecl.toVariable } := by
  obtain ⟨name, returns, params, vars⟩ := m
  subst hm
  exact accepts_vars (fun vs => (⟨name, returns, params, vs⟩ : MethodEntry)) .duplicateVariable
    (fun _ _ h => (Binding.localVar.inj h).2) (fun _ _ => rfl) (fun _ _ _ => rfl) ds []
    fun x => iff_of_false (hbefore x) List.not_mem_nil

theorem ClassEntry.accepts_declareFields {c : ClassEntry} (hc : c.fields = [])
    {before : List Binding} (hbefore : ∀ x, .field c.name x ∉ before) (ds : List VarDecl) :
    Accepts (c.declareFields ds) before (ds.map (VarDecl.declaration (.field c.name)))
      { c with fields := ds.map VarDecl.toVariable } := by
  obtain ⟨name, parent, fields, methods⟩ := c
  subst hc
  exact accepts_vars (fun vs => (⟨name, parent, vs, methods⟩ : ClassEntry)) .duplicateVariable
    (fun _ _ h => (Binding.field.inj h).2) (fun _ _ => rfl) (fun _ _ _ => rfl) ds []
    fun x => iff_of_false (hbefore x) List.not_mem_nil

/-! ### Methods -/

/-- The methods of an entry are those that are declared before in its class, and nothing is declared
before in another method of the class. -/
structure ClassEntry.Records (c : ClassEntry) (before : List Binding) : Prop where
  methods : ∀ name, .method ⟨c.name, name⟩ ∈ before ↔ name ∈ c.methods.map MethodEntry.name
  inside : ∀ b ∈ before, ∀ name, b.method? = some ⟨c.name, name⟩ →
    name ∈ c.methods.map MethodEntry.name

theorem ClassEntry.accepts_freshMethod {c : ClassEntry} {before : List Binding}
    (h : c.Records before) (name : String) (span : Span) :
    Accepts (c.freshMethod name span) before [⟨.method ⟨c.name, name⟩, span⟩] () := by
  refine Accepts.ofTest rfl ?_ ()
  rw [method?, find?_name_isSome_iff, h.methods]

/-- A method of a class is declared by its name, its parameters and its local variables. -/
theorem ClassEntry.Records.accepts_declare {c : ClassEntry} {before : List Binding}
    (h : c.Records before) (d : MethodDecl) :
    Accepts (c.declare d).result before (d.declarations c.name) (c.pushMethod d.entry) := by
  simp only [ClassEntry.declare, Analysis.result_bind, Analysis.result_note, Analysis.result_liftM,
    Analysis.result_pure, ok_bind]
  refine (accepts_freshMethod h _ _).cons fun hname => ?_
  have hfresh : d.name.name ∉ c.methods.map MethodEntry.name := by
    rw [← h.methods]
    exact Binding.repeated?_eq_none_iff.mp hname
  refine (MethodEntry.accepts_declareParams rfl (fun x hx => ?_) d.params).append fun _ =>
    (MethodEntry.accepts_declareLocals rfl (fun x hx => ?_) d.vars).map _
  · have hx : .param ⟨c.name, d.name.name⟩ x ∈ before := by
      simpa [MethodEntry.empty] using hx
    exact hfresh (h.inside _ hx _ rfl)
  · have hx : .localVar ⟨c.name, d.name.name⟩ x ∈ before := by
      simpa [MethodEntry.empty, VarDecl.declaration] using hx
    exact hfresh (h.inside _ hx _ rfl)

theorem MethodDecl.method?_of_mem_declarations {cls : String} {d : MethodDecl} {b : Binding}
    (hb : b ∈ (d.declarations cls).map Declaration.binding) :
    b.method? = some ⟨cls, d.name.name⟩ := by
  simp only [declarations, VarDecl.declaration, List.map_cons, List.map_append, List.map_map,
    List.mem_cons, List.mem_append, List.mem_map, Function.comp_apply] at hb
  rcases hb with rfl | ⟨v, -, rfl⟩ | ⟨v, -, rfl⟩ <;> rfl

theorem MethodDecl.method_mem_declarations_iff {cls name : String} {d : MethodDecl} :
    .method ⟨cls, name⟩ ∈ (d.declarations cls).map Declaration.binding ↔ name = d.name.name := by
  simp [declarations, VarDecl.declaration]

/-- A method that is added is recorded with all that it declares. -/
theorem ClassEntry.Records.pushMethod {c : ClassEntry} {before : List Binding}
    (h : c.Records before) (d : MethodDecl) :
    (c.pushMethod d.entry).Records
      (before ++ (d.declarations c.name).map Declaration.binding) := by
  have hnames : (c.pushMethod d.entry).methods.map MethodEntry.name =
      c.methods.map MethodEntry.name ++ [d.name.name] :=
    List.map_append
  constructor
  case methods =>
    intro name
    rw [hnames, List.mem_append, List.mem_append, List.mem_singleton]
    exact or_congr (h.methods name) MethodDecl.method_mem_declarations_iff
  case inside =>
    intro b hb name hname
    rw [hnames, List.mem_append, List.mem_singleton]
    rcases List.mem_append.mp hb with hb | hb
    · exact .inl (h.inside b hb name hname)
    · rw [MethodDecl.method?_of_mem_declarations hb] at hname
      exact .inr (MethodName.mk.inj (Option.some.inj hname)).2.symm

theorem ClassEntry.Records.accepts_declareMethods {c : ClassEntry} {before : List Binding}
    (h : c.Records before) (ds : List MethodDecl) :
    Accepts (ds.foldlM ClassEntry.declare c).result before
      (ds.flatMap (MethodDecl.declarations c.name))
      { c with methods := c.methods ++ ds.map MethodDecl.entry } := by
  rw [Analysis.result_foldlM, ← foldl_pushMethod_entry]
  refine Accepts.foldlM (fun before c' => c'.name = c.name ∧ c'.Records before) ?_ ?_ ds ⟨rfl, h⟩
  · rintro before c' d ⟨hname, hc'⟩
    rw [← hname]
    exact hc'.accepts_declare d
  · rintro before c' d ⟨hname, hc'⟩ -
    rw [← hname]
    exact ⟨rfl, hc'.pushMethod d⟩

/-! ### Classes -/

/-- The classes of a table and their parents are those that are declared before, and nothing is
declared before in another class. -/
structure SymbolTable.Records (t : SymbolTable) (before : List Binding) : Prop where
  classes : ∀ name, .cls name ∈ before ↔ name ∈ t.classes.map ClassEntry.name
  parents : ∀ name parent, .parent name parent ∈ before ↔
    (t.get? name).bind ClassEntry.parent = some parent
  inside : ∀ b ∈ before, b.home ∈ t.classes.map ClassEntry.name

theorem Binding.parentOf?_eq_some_iff {name above : String} {b : Binding} :
    b.parentOf? name = some above ↔ b = .parent name above := by
  cases b <;> simp [parentOf?]

theorem Binding.home_of_method? {b : Binding} {m : MethodName} (h : b.method? = some m) :
    b.home = m.cls := by
  cases b <;> simp_all [method?, home]

theorem findSome?_parentOf? {before : List Binding} {name : String} {parent : Option String}
    (h : ∀ above, .parent name above ∈ before ↔ parent = some above) :
    before.findSome? (Binding.parentOf? name) = parent := by
  cases hfind : before.findSome? (Binding.parentOf? name) with
  | some above =>
    obtain ⟨b, hb, habove⟩ := List.exists_of_findSome?_eq_some hfind
    rw [Binding.parentOf?_eq_some_iff.mp habove, h] at hb
    exact hb.symm
  | none =>
    cases parent with
    | none => rfl
    | some above =>
      have hnone := List.findSome?_eq_none_iff.mp hfind _ ((h above).mpr rfl)
      rw [Binding.parentOf?_eq_some_iff.mpr rfl] at hnone
      cases hnone

theorem SymbolTable.accepts_freshClass {t : SymbolTable} {before : List Binding}
    (h : t.Records before) (name : String) (span : Span) :
    Accepts (t.freshClass name span) before [⟨.cls name, span⟩] () := by
  refine Accepts.ofTest rfl ?_ ()
  rw [contains, get?, find?_name_isSome_iff, h.classes]

/-- The rule for the parent clause of a new class, which stands behind the name of the class, told by
the table. -/
theorem SymbolTable.Records.fault?_parent {t : SymbolTable} {before : List Binding}
    (h : t.Records before) {cls : String} (hcls : cls ∉ t.classes.map ClassEntry.name)
    (name : String) :
    (Binding.parent cls name).fault? (before ++ [.cls cls]) =
      (t.get? name).elim (some (.unknownParent cls name)) fun entry =>
        entry.parent.map (.multipleInheritance cls name) := by
  have hknown : .cls name ∈ before ++ [.cls cls] ↔ (t.get? name).isSome ∨ name = cls := by
    rw [List.mem_append, h.classes, List.mem_singleton, get?, find?_name_isSome_iff,
      Binding.cls.injEq]
  rw [Binding.fault?]
  cases hget : t.get? name with
  | none =>
    rw [if_pos]
    · rfl
    · rw [hknown, hget]
      simp [Decidable.em]
  | some entry =>
    have hne : name ≠ cls := by
      rintro rfl
      rw [get?_eq_none_iff.mpr hcls] at hget
      cases hget
    have hparent : (before ++ [Binding.cls cls]).findSome? (Binding.parentOf? name) =
        entry.parent := by
      apply findSome?_parentOf?
      intro above
      rw [List.mem_append, h.parents, hget, Option.bind_some]
      simp
    rw [if_neg, hparent]
    · rfl
    · rw [hknown, hget]
      simp [hne]

theorem SymbolTable.Records.accepts_checkParent {t : SymbolTable} {before : List Binding}
    (h : t.Records before) {cls : String} (hcls : cls ∉ t.classes.map ClassEntry.name)
    (parent : Option Ident) :
    Accepts (t.checkParent cls parent) (before ++ [.cls cls])
      (ClassDecl.parentDeclarations cls parent) () := by
  cases parent with
  | none => exact Accepts.ok _ ()
  | some i =>
    show Accepts _ _ [⟨.parent cls i.name, i.span⟩] ()
    apply Accepts.ofRule <;> rw [h.fault?_parent hcls, checkParent]
    · intro fault
      rcases t.get? i.name with _ | ⟨_, _ | above, _, _⟩
      · rintro ⟨⟩
        rfl
      · rintro ⟨⟩
      · rintro ⟨⟩
        rfl
    · rcases t.get? i.name with _ | ⟨_, _ | above, _, _⟩
      · rintro ⟨⟩
      · exact fun _ => rfl
      · rintro ⟨⟩

/-- A class is declared by its name, its parent clause, its fields and its methods. -/
theorem SymbolTable.Records.accepts_declare {t : SymbolTable} {before : List Binding}
    (h : t.Records before) (d : ClassDecl) :
    Accepts (t.declare d).result before d.declarations (t.push d.entry) := by
  simp only [SymbolTable.declare, Analysis.result_bind, Analysis.result_note,
    Analysis.result_liftM, Analysis.result_pure, ok_bind]
  refine (accepts_freshClass h _ _).cons fun hname => ?_
  have hfresh : d.name.name ∉ t.classes.map ClassEntry.name := by
    rw [← h.classes]
    exact Binding.repeated?_eq_none_iff.mp hname
  -- nothing is declared in the class yet
  have hnone : ∀ b : Binding, b.home = d.name.name → b ∉ before :=
    fun b hb hmem => hfresh (hb ▸ h.inside b hmem)
  refine (h.accepts_checkParent hfresh d.parent).append fun _ => ?_
  refine (ClassEntry.accepts_declareFields rfl (fun x hx => ?_) d.fields).append fun _ => ?_
  · refine hnone (.field d.name.name x) rfl ?_
    simpa [ClassEntry.empty, ClassDecl.parentDeclarations] using hx
  · have hinside : ∀ (b : Binding) (name : String), b.method? = some ⟨d.name.name, name⟩ →
        b ∉ before ++ [.cls d.name.name] ++
          (ClassDecl.parentDeclarations d.name.name d.parent).map Declaration.binding ++
          (d.fields.map (VarDecl.declaration (.field d.name.name))).map Declaration.binding := by
      intro b name hname hb
      simp only [ClassDecl.parentDeclarations, List.map_map, List.mem_append, List.mem_singleton,
        List.mem_map] at hb
      rcases hb with ((hb | rfl) | ⟨i, -, rfl⟩) | ⟨v, -, rfl⟩
      · exact hnone b (Binding.home_of_method? hname) hb
      · cases hname
      · cases hname
      · cases hname
    refine (ClassEntry.Records.accepts_declareMethods ⟨fun name => ?_, fun b hb name hname => ?_⟩
      d.methods).map _
    · exact iff_of_false (hinside (.method ⟨d.name.name, name⟩) name rfl) List.not_mem_nil
    · exact absurd hb (hinside b name hname)

theorem ClassDecl.mem_declarations_iff {d : ClassDecl} {b : Binding} :
    b ∈ d.declarations.map Declaration.binding ↔
      b = .cls d.name.name ∨ (∃ i, d.parent = some i ∧ b = .parent d.name.name i.name) ∨
        (∃ v ∈ d.fields, b = .field d.name.name v.name.name) ∨
        ∃ m ∈ d.methods, b ∈ (m.declarations d.name.name).map Declaration.binding := by
  simp only [declarations, parentDeclarations, VarDecl.declaration, List.map_cons, List.map_append,
    List.map_map, List.map_flatMap, List.mem_cons, List.mem_append, List.mem_map, List.mem_flatMap,
    Option.mem_toList, Function.comp_apply, eq_comm]

theorem ClassDecl.home_of_mem_declarations {d : ClassDecl} {b : Binding}
    (hb : b ∈ d.declarations.map Declaration.binding) : b.home = d.name.name := by
  rcases mem_declarations_iff.mp hb with rfl | ⟨i, -, rfl⟩ | ⟨v, -, rfl⟩ | ⟨m, -, hm⟩
  · rfl
  · rfl
  · rfl
  · exact Binding.home_of_method? (MethodDecl.method?_of_mem_declarations hm)

theorem ClassDecl.cls_mem_declarations_iff {d : ClassDecl} {name : String} :
    .cls name ∈ d.declarations.map Declaration.binding ↔ name = d.name.name := by
  refine mem_declarations_iff.trans ⟨?_, fun h => .inl (congrArg Binding.cls h)⟩
  rintro (h | ⟨i, -, h⟩ | ⟨v, -, h⟩ | ⟨m, -, hm⟩)
  · exact Binding.cls.inj h
  · cases h
  · cases h
  · cases MethodDecl.method?_of_mem_declarations hm

theorem ClassDecl.parent_mem_declarations_iff {d : ClassDecl} {name above : String} :
    .parent name above ∈ d.declarations.map Declaration.binding ↔
      name = d.name.name ∧ d.parent.map Ident.name = some above := by
  rw [mem_declarations_iff, Option.map_eq_some_iff]
  constructor
  · rintro (h | ⟨i, hi, h⟩ | ⟨v, -, h⟩ | ⟨m, -, hm⟩)
    · cases h
    · obtain ⟨rfl, rfl⟩ := Binding.parent.inj h
      exact ⟨rfl, i, hi, rfl⟩
    · cases h
    · cases MethodDecl.method?_of_mem_declarations hm
  · rintro ⟨rfl, i, hi, rfl⟩
    exact .inr (.inl ⟨i, hi, rfl⟩)

/-- A new class that is added is recorded with all that it declares. -/
theorem SymbolTable.Records.push {t : SymbolTable} {before : List Binding} (h : t.Records before)
    {d : ClassDecl} (hfresh : d.name.name ∉ t.classes.map ClassEntry.name) :
    (t.push d.entry).Records (before ++ d.declarations.map Declaration.binding) := by
  have hnames : (t.push d.entry).classes.map ClassEntry.name =
      t.classes.map ClassEntry.name ++ [d.name.name] :=
    List.map_append
  constructor
  case classes =>
    intro name
    rw [hnames, List.mem_append, List.mem_append, List.mem_singleton]
    exact or_congr (h.classes name) ClassDecl.cls_mem_declarations_iff
  case parents =>
    intro name above
    rw [List.mem_append, ClassDecl.parent_mem_declarations_iff]
    by_cases hname : name = d.name.name
    · have hnone : .parent name above ∉ before := fun hb => hfresh (hname ▸ h.inside _ hb)
      have hget : (t.push d.entry).get? name = some d.entry := hname ▸ get?_push_self hfresh
      rw [hget, Option.bind_some, or_iff_right hnone, and_iff_right hname]
      rfl
    · rw [get?_push hname, h.parents]
      exact or_iff_left fun hd => hname hd.1
  case inside =>
    intro b hb
    rw [hnames, List.mem_append, List.mem_singleton]
    rcases List.mem_append.mp hb with hb | hb
    · exact .inl (h.inside b hb)
    · exact .inr (ClassDecl.home_of_mem_declarations hb)

/-! ### Programs -/

theorem MainClass.accepts_declare (d : MainClass) :
    Accepts d.declare.result [] d.declarations d.entry := by
  simp only [MainClass.declare, Analysis.result_bind, Analysis.result_note, Analysis.result_liftM,
    Analysis.result_pure, ok_bind]
  -- the first name of all cannot be a repeated one
  have hname : Accepts (.ok () : Except SemanticError Unit) []
      [⟨.cls d.name.name, d.name.span⟩] () :=
    Accepts.ofRule (fun _ h => by cases h) fun _ => rfl
  rw [← ok_bind () fun _ => Bind.bind _ _]
  refine hname.cons fun _ => (MethodEntry.accepts_declareLocals rfl (fun x hx => ?_) d.vars).map
    fun m => (⟨d.name.name, none, [], [m]⟩ : ClassEntry)
  simp at hx

theorem MainClass.records (d : MainClass) :
    SymbolTable.Records ⟨[d.entry]⟩ (d.declarations.map Declaration.binding) := by
  constructor
  case classes =>
    intro name
    simp [declarations, VarDecl.declaration, entry]
  case parents =>
    intro name above
    have hparent : (SymbolTable.get? ⟨[d.entry]⟩ name).bind ClassEntry.parent = none := by
      rw [SymbolTable.get?, List.find?_singleton]
      split <;> rfl
    rw [hparent]
    simp [declarations, VarDecl.declaration]
  case inside =>
    simp [declarations, VarDecl.declaration, Binding.home, entry]

/-- The pass over a program takes in its declarations, one after the other. -/
theorem Program.accepts_declare (p : Program) :
    Accepts p.declare.result [] p.declarations p.table := by
  simp only [Program.declare, Analysis.result_bind, Analysis.result_note, Analysis.result_pure,
    ok_bind]
  refine p.main.accepts_declare.append fun _ => ?_
  rw [Analysis.result_foldlM]
  have hclasses := Accepts.foldlM (fun before t => SymbolTable.Records t before)
    (fun _ _ d h => h.accepts_declare d) (fun before t d h hok => h.push ?_) p.classes
    p.main.records
  · rw [SymbolTable.foldl_push_entry] at hclasses
    exact hclasses.map _
  · have hname := (acceptAll_eq_ok_iff.mp hok).1 [] _ _ rfl
    rw [List.map_nil, List.append_nil] at hname
    rw [← h.classes]
    exact Binding.repeated?_eq_none_iff.mp hname

/-! ### Programs with the first declarations only -/

theorem flatMap_cutParts {α : Type} {declarations : α → List Declaration} {cut : α → Nat → α}
    (hcut : ∀ a n, 0 < n → declarations (cut a n) = (declarations a).take n) (l : List α)
    (n : Nat) : (cutParts declarations cut l n).flatMap declarations = (l.flatMap declarations).take n := by
  induction l generalizing n with
  | nil => rw [cutParts, List.flatMap_nil, List.take_nil]
  | cons a l ih =>
    rw [cutParts, List.flatMap_cons, List.take_append]
    by_cases hn : n = 0
    · rw [if_pos hn, hn, Nat.zero_sub, List.take_zero, List.take_zero]
      rfl
    · rw [if_neg hn, List.flatMap_cons, hcut a n (Nat.pos_of_ne_zero hn), ih]

theorem MethodDecl.declarations_cut (cls : String) (d : MethodDecl) (n : Nat) (hn : 0 < n) :
    (d.cut n).declarations cls = (d.declarations cls).take n := by
  obtain ⟨n, rfl⟩ := Nat.exists_eq_add_of_lt hn
  simp [cut, declarations, List.take_append]

theorem ClassDecl.parentDeclarations_cut (cls : String) (parent : Option Ident) (n : Nat) :
    parentDeclarations cls (if n + 1 ≤ 1 then none else parent) =
      (parentDeclarations cls parent).take n := by
  cases n with
  | zero => rfl
  | succ n => cases parent <;> simp [parentDeclarations]

theorem ClassDecl.declarations_cut (d : ClassDecl) (n : Nat) (hn : 0 < n) :
    (d.cut n).declarations = d.declarations.take n := by
  obtain ⟨k, rfl⟩ := Nat.exists_eq_add_of_lt hn
  have hparent : (parentDeclarations d.name.name d.parent).length = d.parent.toList.length :=
    List.length_map _
  rw [Nat.zero_add, declarations, cut, parentDeclarations_cut, declarations, List.take_succ_cons,
    List.take_append, List.take_append, hparent, List.length_map, ← List.map_take,
    Nat.add_sub_cancel, flatMap_cutParts (MethodDecl.declarations_cut d.name.name)]

theorem MainClass.declarations_cut (d : MainClass) (n : Nat) (hn : 0 < n) :
    (d.cut n).declarations = d.declarations.take n := by
  obtain ⟨k, rfl⟩ := Nat.exists_eq_add_of_lt hn
  simp [cut, declarations]

/-- A program that is cut declares just the first of its declarations. -/
theorem Program.declarations_cut (p : Program) (n : Nat) (hn : 0 < n) :
    (p.cut n).declarations = p.declarations.take n := by
  rw [declarations, cut, p.main.declarations_cut n hn,
    flatMap_cutParts ClassDecl.declarations_cut, declarations, List.take_append]

/-- **The declaration pass reports the first violation.** It fails with an error exactly if this is
the error of a declaration that breaks its rule behind the ones before it, and none of those breaks
its own rule. The program with just the declarations before it can be declared, and the program
with this declaration as its last one fails with the same error. -/
theorem declare_reports_first_violation (p : Program) (e : SemanticError) :
    p.declare.result = .error e ↔
      ∃ before d after, p.declarations = before ++ d :: after ∧
        (d.binding.fault? (before.map Declaration.binding) = some e.fault ∧ d.span = e.span) ∧
        (∀ earlier f between, before = earlier ++ f :: between →
          f.binding.fault? (earlier.map Declaration.binding) = none) ∧
        ((p.cut before.length).declarations = before ∧
          ∃ t, (p.cut before.length).declare.result = .ok t) ∧
        (p.cut (before.length + 1)).declarations = before ++ [d] ∧
          (p.cut (before.length + 1)).declare.result = .error e := by
  rw [p.accepts_declare.eq_error_iff, acceptAll_eq_error_iff]
  simp only [List.nil_append]
  refine ⟨fun ⟨before, d, after, hp, hd, hbefore⟩ => ?_,
    fun ⟨before, d, after, hp, hd, hbefore, _⟩ => ⟨before, d, after, hp, hd, hbefore⟩⟩
  have hpos : 0 < before.length := by
    rw [List.length_pos_iff]
    rintro rfl
    obtain ⟨rfl, -⟩ := List.cons.inj hp
    cases hd.1
  have hcut : (p.cut before.length).declarations = before := by
    rw [p.declarations_cut _ hpos, hp, List.take_left]
  have hcut' : (p.cut (before.length + 1)).declarations = before ++ [d] := by
    rw [p.declarations_cut _ (Nat.succ_pos _), hp, List.append_cons]
    exact List.take_left' List.length_append
  refine ⟨before, d, after, hp, hd, hbefore, ⟨hcut, (p.cut before.length).table, ?_⟩, hcut', ?_⟩
  · rw [(p.cut before.length).accepts_declare.eq_ok_iff, hcut, acceptAll_eq_ok_iff]
    exact ⟨rfl, hbefore, rfl⟩
  · rw [(p.cut (before.length + 1)).accepts_declare.eq_error_iff, hcut', acceptAll_eq_error_iff]
    exact ⟨before, d, [], rfl, hd, hbefore⟩

end MiniJava
