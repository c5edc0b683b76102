import MiniJava.Program.Names
import MiniJava.Proofs.TypeSystem

/-!
# What the check of a program looks up

The checker looks at a table only through lookups of classes by their names, and all names that it
looks up are written in the program or come from the entries that it finds. So two tables that agree
on a set of names, closed under what their entries mention, give the same check of whatever is
written with these names.

* `Ty.Within`, `ClassEntry.Within` and so on say that all class types that are mentioned have names
  in the set.
* `SymbolTable.AgreeOn` says that two tables have the same entries under the names in the set, and
  that the set is closed.
* `Expr.check_congr`, `Stmt.check_congr` and so on, up to `Program.check_congr`, give the same check,
  log included.
-/

namespace MiniJava

variable {N : String → Prop}

/-! ### Names that entries mention -/

/-- A class type has its name in the set. -/
def Ty.Within (N : String → Prop) (type : Ty) : Prop :=
  ∀ name, type = .cls name → N name

/-- The types of the variables are within the set. -/
def VariablesWithin (N : String → Prop) (vars : List Variable) : Prop :=
  ∀ v ∈ vars, v.type.Within N

/-- All types in the method are within the set. -/
structure MethodEntry.Within (N : String → Prop) (m : MethodEntry) : Prop where
  returns : m.returns.Within N
  params : VariablesWithin N m.params
  locals : VariablesWithin N m.locals

/-- The name of the class, that of its parent and all types in the class are within the set. -/
structure ClassEntry.Within (N : String → Prop) (c : ClassEntry) : Prop where
  name : N c.name
  parent : ∀ name, c.parent = some name → N name
  fields : VariablesWithin N c.fields
  methods : ∀ m ∈ c.methods, m.Within N

/-- The class and the method around are within the set. -/
structure Scope.Within (N : String → Prop) (s : Scope) : Prop where
  cls : ∀ c, s.cls = some c → c.Within N
  method : ∀ m, s.method = some m → m.Within N

/-- The tables have the same classes under the names in the set, and these classes mention no other
names. -/
structure SymbolTable.AgreeOn (N : String → Prop) (t t' : SymbolTable) : Prop where
  get?_eq : ∀ x, N x → t.get? x = t'.get? x
  within : ∀ x c, N x → t.get? x = some c → c.Within N

theorem VariablesWithin.typeOf? {vars : List Variable} (h : VariablesWithin N vars) {x : String}
    {type : Ty} (ht : typeOf? vars x = some type) : type.Within N := by
  rw [MiniJava.typeOf?, Option.map_eq_some_iff] at ht
  obtain ⟨v, hv, rfl⟩ := ht
  exact h v (List.mem_of_find?_eq_some hv)

theorem ClassEntry.Within.method? {c : ClassEntry} (h : c.Within N) {x : String} {m : MethodEntry}
    (hm : c.method? x = some m) : m.Within N :=
  h.methods m (List.mem_of_find?_eq_some hm)

theorem MemberType.within {c : ClassEntry} (hc : c.Within N) {x : String} (hx : N x) {type : Ty}
    (h : MemberType c x type) : type.Within N := by
  cases h with
  | field hf => exact hc.fields.typeOf? hf
  | method _ _ =>
    rintro name ⟨⟩
    exact hx

theorem VariableType.within {m : MethodEntry} (hm : m.Within N) {x : String} {type : Ty}
    (h : VariableType m x type) : type.Within N := by
  cases h with
  | param hp => exact hm.params.typeOf? hp
  | «local» _ hl => exact hm.locals.typeOf? hl

/-! ### Names and types -/

section

variable {t t' : SymbolTable} {s : Scope}

theorem SymbolTable.AgreeOn.parentOf?_eq (h : t.AgreeOn N t') {c : ClassEntry} (hc : c.Within N) :
    t.parentOf? c = t'.parentOf? c := by
  unfold SymbolTable.parentOf?
  cases hp : c.parent with
  | none => rfl
  | some parent => exact h.get?_eq parent (hc.parent parent hp)

theorem Resolves.within (h : t.AgreeOn N t') (hs : s.Within N) {x : String} (hx : N x) {type : Ty}
    (hr : Resolves t s x type) : type.Within N := by
  cases hr with
  | outside _ =>
    rintro name ⟨⟩
    exact hx
  | inMethod _ hm hv => exact hv.within (hs.method _ hm)
  | cls _ _ _ =>
    rintro name ⟨⟩
    exact hx
  | member hc _ _ hm => exact hm.within (hs.cls _ hc) hx
  | inherited hc _ _ _ hp hm =>
    obtain ⟨parent, hparent, hget⟩ := Option.bind_eq_some_iff.mp hp
    exact hm.within (h.within parent _ ((hs.cls _ hc).parent parent hparent) hget) hx

theorem Scope.resolve_congr (h : t.AgreeOn N t') (hs : s.Within N) {x : String} (hx : N x)
    (span : Span) : s.resolve t x span = s.resolve t' x span := by
  have hfind : s.find? t x = s.find? t' x := by
    unfold find?
    cases hc : s.cls with
    | none => rfl
    | some c =>
      have hcls : class? t x = class? t' x := by
        rw [class?, class?, SymbolTable.contains, SymbolTable.contains, h.get?_eq x hx]
      have hinherited : inherited? t c x = inherited? t' c x := by
        rw [inherited?, inherited?, h.parentOf?_eq (hs.cls c hc)]
      simp only [hcls, hinherited]
  unfold resolve
  rw [hfind]

/-- Whether a value may go somewhere is asked of the class of the value. -/
theorem Ty.assignableTo_congr (h : t.AgreeOn N t') {source target : Ty} (hs : source.Within N) :
    source.assignableTo t target = source.assignableTo t' target := by
  unfold assignableTo
  cases source with
  | cls name =>
    cases target with
    | cls target => simp only [h.get?_eq name (hs name rfl)]
    | _ => rfl
  | _ => rfl

theorem SymbolTable.receiver_congr (h : t.AgreeOn N t') {type : Ty} (ht : type.Within N)
    (span : Span) : t.receiver type span = t'.receiver type span := by
  unfold receiver
  cases type with
  | cls name => rw [Ty.className?, Option.bind_some, Option.bind_some, h.get?_eq name (ht name rfl)]
  | _ => rfl

theorem SymbolTable.lookup_congr (h : t.AgreeOn N t') {x : String} (hx : N x) (span : Span) :
    t.lookup x span = t'.lookup x span := by
  unfold lookup
  rw [h.get?_eq x hx]

/-! ### Expressions -/

/-- The type of an expression mentions a class only if the set does. -/
theorem HasType.within (h : t.AgreeOn N t') (hs : s.Within N) : ∀ {e : Expr} {type : Ty},
    (∀ x ∈ e.names, N x) → HasType t s e type → type.Within N
  | .ident name, _, hN, .ident hr => hr.within h hs (hN _ (by simp [Expr.names]))
  | .this _, _, _, .this hc => by
    rintro name ⟨⟩
    exact (hs.cls _ hc).name
  | .newObject _ cls, _, hN, .newObject _ => by
    rintro name ⟨⟩
    exact hN _ (by simp [Expr.names])
  | .paren _ inner, _, hN, .paren hi => hi.within h hs (by simpa [Expr.names] using hN)
  | .send _ receiver method args, _, hN, .send hr hc hm _ => by
    have hcls := hr.within h hs (fun x hx => hN x (by simp [Expr.names, hx]))
    exact ((h.within _ _ (hcls _ rfl) hc).method? hm).returns
  | .int _ _, _, _, .int | .bool _ _, _, _, .bool | .binary _ _ _ _, _, _, .and _ _
  | .binary _ _ _ _, _, _, .less _ _ | .binary _ _ _ _, _, _, .arithmetic _ _ _
  | .not _ _, _, _, .not _ | .index _ _ _, _, _, .index _ _ | .length _ _, _, _, .length _
  | .newArray _ _, _, _, .newArray _ => nofun

mutual

/-- The check of an expression is the same against tables that agree on its names. -/
theorem Expr.check_congr (h : t.AgreeOn N t') (hs : s.Within N) : ∀ (e : Expr),
    (∀ x ∈ e.names, N x) → e.check t s = e.check t' s
  | .int _ _, _ | .bool _ _, _ | .this _, _ => by rw [Expr.check, Expr.check]
  | .ident name, hN => by
    rw [Expr.check, Expr.check, Scope.resolve_congr h hs (hN _ (by simp [Expr.names]))]
  | .binary _ op left right, hN => by
    simp only [Expr.names, List.forall_mem_append] at hN
    rw [Expr.check, Expr.check, Expr.check_congr h hs left hN.1, Expr.check_congr h hs right hN.2]
  | .not _ operand, hN => by
    rw [Expr.names] at hN
    rw [Expr.check, Expr.check, Expr.check_congr h hs operand hN]
  | .index _ array position, hN => by
    simp only [Expr.names, List.forall_mem_append] at hN
    rw [Expr.check, Expr.check, Expr.check_congr h hs array hN.1,
      Expr.check_congr h hs position hN.2]
  | .length _ array, hN => by
    rw [Expr.names] at hN
    rw [Expr.check, Expr.check, Expr.check_congr h hs array hN]
  | .newArray _ size, hN => by
    rw [Expr.names] at hN
    rw [Expr.check, Expr.check, Expr.check_congr h hs size hN]
  | .newObject _ cls, hN => by
    rw [Expr.check, Expr.check, SymbolTable.lookup_congr h (hN _ (by simp [Expr.names]))]
  | .paren _ inner, hN => by
    rw [Expr.names] at hN
    rw [Expr.check, Expr.check, Expr.check_congr h hs inner hN]
  | .send _ receiver method args, hN => by
    simp only [Expr.names, List.forall_mem_append, List.forall_mem_cons] at hN
    rw [Expr.check, Expr.check]
    refine Analysis.bind_congr_of_ok (Expr.check_congr h hs receiver hN.1) fun type htype => ?_
    -- the class of the receiver is looked up by a name of the set
    have hwithin : type.Within N := (Expr.check_result_iff.mp htype).within h hs hN.1
    rw [SymbolTable.receiver_congr h hwithin]
    simp only [Expr.checkArgs_congr h hs args hN.2.2]

/-- The check of arguments is the same against tables that agree on their names. -/
theorem Expr.checkArgs_congr (h : t.AgreeOn N t') (hs : s.Within N) : ∀ (args : List Expr),
    (∀ x ∈ Expr.allNames args, N x) → ∀ (cls : String) (got : Nat) (call : PendingCall),
    Expr.checkArgs t s cls got call args = Expr.checkArgs t' s cls got call args
  | [], _, _, _, _ => by rw [Expr.checkArgs, Expr.checkArgs]
  | arg :: args, hN, cls, got, call => by
    simp only [Expr.allNames, List.forall_mem_append] at hN
    rw [Expr.checkArgs, Expr.checkArgs]
    refine Analysis.bind_congr_of_ok rfl fun next _ => ?_
    refine Analysis.bind_congr_of_ok (Expr.check_congr h hs arg hN.1) fun found hfound => ?_
    have hwithin : found.Within N := (Expr.check_result_iff.mp hfound).within h hs hN.1
    rw [Ty.assignableTo_congr h hwithin, Expr.checkArgs_congr h hs args hN.2]

end

/-! ### Statements -/

theorem Expr.checkCondition_congr (h : t.AgreeOn N t') (hs : s.Within N) {cond : Expr}
    (hN : ∀ x ∈ cond.names, N x) (construct : Construct) :
    cond.checkCondition t s construct = cond.checkCondition t' s construct := by
  rw [Expr.checkCondition, Expr.checkCondition, Expr.check_congr h hs cond hN]

mutual

theorem Stmt.check_congr (h : t.AgreeOn N t') (hs : s.Within N) : ∀ (stmt : Stmt),
    (∀ x ∈ stmt.names, N x) → stmt.check t s = stmt.check t' s
  | .block _ body, hN => by
    rw [Stmt.names] at hN
    rw [Stmt.check, Stmt.check, Stmt.checkAll_congr h hs body hN]
  | .assign _ target value, hN => by
    simp only [Stmt.names, List.forall_mem_cons] at hN
    rw [Stmt.check, Stmt.check, Scope.resolve_congr h hs hN.1]
    refine Analysis.bind_congr_of_ok rfl fun expected _ => ?_
    refine Analysis.bind_congr_of_ok (Expr.check_congr h hs value hN.2) fun found hfound => ?_
    have hwithin : found.Within N := (Expr.check_result_iff.mp hfound).within h hs hN.2
    rw [Ty.assignableTo_congr h hwithin]
  | .arrayAssign _ target position value, hN => by
    simp only [Stmt.names, List.forall_mem_cons, List.forall_mem_append] at hN
    rw [Stmt.check, Stmt.check, Scope.resolve_congr h hs hN.1,
      Expr.check_congr h hs position hN.2.1, Expr.check_congr h hs value hN.2.2]
  | .ifElse _ cond thenBranch elseBranch, hN => by
    simp only [Stmt.names, List.forall_mem_append] at hN
    rw [Stmt.check, Stmt.check, Expr.checkCondition_congr h hs hN.1,
      Stmt.check_congr h hs thenBranch hN.2.1, Stmt.check_congr h hs elseBranch hN.2.2]
  | .whileLoop _ cond body, hN => by
    simp only [Stmt.names, List.forall_mem_append] at hN
    rw [Stmt.check, Stmt.check, Expr.checkCondition_congr h hs hN.1,
      Stmt.check_congr h hs body hN.2]
  | .print _ value, hN => by
    rw [Stmt.names] at hN
    rw [Stmt.check, Stmt.check, Expr.check_congr h hs value hN]

theorem Stmt.checkAll_congr (h : t.AgreeOn N t') (hs : s.Within N) : ∀ (body : List Stmt),
    (∀ x ∈ Stmt.allNames body, N x) → Stmt.checkAll t s body = Stmt.checkAll t' s body
  | [], _ => by rw [Stmt.checkAll, Stmt.checkAll]
  | first :: more, hN => by
    simp only [Stmt.allNames, List.forall_mem_append] at hN
    rw [Stmt.checkAll, Stmt.checkAll, Stmt.check_congr h hs first hN.1,
      Stmt.checkAll_congr h hs more hN.2]

end

/-! ### Declarations -/

theorem VarDecl.check_congr (h : t.AgreeOn N t') (hs : s.Within N) {d : VarDecl}
    (hN : ∀ x ∈ d.names, N x) : d.check t s = d.check t' s := by
  unfold VarDecl.check
  cases hd : d.type with
  | named name =>
    have hname : N name.name := hN _ (by simp [VarDecl.names, hd, TypeExpr.names])
    simp only [Scope.resolve_congr h hs hname]
  | _ => rfl

theorem VarDecl.forM_check_congr (h : t.AgreeOn N t') (hs : s.Within N) {ds : List VarDecl}
    (hN : ∀ d ∈ ds, ∀ x ∈ d.names, N x) :
    ds.forM (VarDecl.check t s) = ds.forM (VarDecl.check t' s) :=
  Analysis.forM_congr fun d hd => VarDecl.check_congr h hs (hN d hd)

theorem MethodDecl.check_congr (h : t.AgreeOn N t') {c : ClassEntry} (hc : c.Within N)
    {d : MethodDecl} (hN : ∀ x ∈ d.names, N x) : d.check t c = d.check t' c := by
  obtain ⟨-, -, -, hvars, hbody, hresult⟩ := MethodDecl.forall_mem_names_iff.mp hN
  unfold MethodDecl.check
  refine Analysis.bind_congr_of_ok rfl fun m hm => ?_
  rw [Analysis.result_liftM, ClassEntry.lookupMethod_eq_ok_iff] at hm
  have hs : Scope.Within N ⟨some c, some m⟩ :=
    ⟨by rintro _ ⟨⟩; exact hc, by rintro _ ⟨⟩; exact hc.method? hm⟩
  simp only [Scope.enterClass, Scope.enterMethod, VarDecl.forM_check_congr h hs hvars,
    Stmt.checkAll_congr h hs d.body hbody]
  refine Analysis.bind_congr_of_ok rfl fun _ _ => ?_
  refine Analysis.bind_congr_of_ok rfl fun _ _ => ?_
  refine Analysis.bind_congr_of_ok rfl fun _ _ => ?_
  refine Analysis.bind_congr_of_ok (Expr.check_congr h hs d.result hresult) fun found hfound => ?_
  have hwithin : found.Within N := (Expr.check_result_iff.mp hfound).within h hs hresult
  rw [Ty.assignableTo_congr h hwithin]

theorem ClassDecl.check_congr (h : t.AgreeOn N t') {d : ClassDecl} (hN : ∀ x ∈ d.names, N x) :
    d.check t = d.check t' := by
  obtain ⟨hname, -, hfields, hmethods⟩ := ClassDecl.forall_mem_names_iff.mp hN
  unfold ClassDecl.check
  rw [SymbolTable.lookup_congr h hname]
  refine Analysis.bind_congr_of_ok rfl fun c hc => ?_
  rw [Analysis.result_liftM, SymbolTable.lookup_eq_ok_iff, ← h.get?_eq _ hname] at hc
  have hwithin : c.Within N := h.within _ _ hname hc
  have hs : Scope.Within N ⟨some c, none⟩ := ⟨by rintro _ ⟨⟩; exact hwithin, nofun⟩
  have hforM : d.methods.forM (MethodDecl.check t c) = d.methods.forM (MethodDecl.check t' c) :=
    Analysis.forM_congr fun m hm => MethodDecl.check_congr h hwithin (hmethods m hm)
  simp only [Scope.enterClass, VarDecl.forM_check_congr h hs hfields, hforM]

theorem MainClass.check_congr (h : t.AgreeOn N t') {d : MainClass} (hN : ∀ x ∈ d.names, N x) :
    d.check t = d.check t' := by
  obtain ⟨hname, -, hvars, hbody⟩ := MainClass.forall_mem_names_iff.mp hN
  unfold MainClass.check
  rw [SymbolTable.lookup_congr h hname]
  refine Analysis.bind_congr_of_ok rfl fun c hc => ?_
  rw [Analysis.result_liftM, SymbolTable.lookup_eq_ok_iff, ← h.get?_eq _ hname] at hc
  have hwithin : c.Within N := h.within _ _ hname hc
  refine Analysis.bind_congr_of_ok rfl fun m hm => ?_
  rw [Analysis.result_liftM, ClassEntry.lookupMethod_eq_ok_iff] at hm
  have hs : Scope.Within N ⟨some c, some m⟩ :=
    ⟨by rintro _ ⟨⟩; exact hwithin, by rintro _ ⟨⟩; exact hwithin.method? hm⟩
  simp only [Scope.enterClass, Scope.enterMethod, VarDecl.forM_check_congr h hs hvars,
    Stmt.checkAll_congr h hs d.body hbody]

theorem Program.check_congr (h : t.AgreeOn N t') {p : Program} (hN : ∀ x ∈ p.names, N x) :
    p.check t = p.check t' := by
  obtain ⟨hmain, hclasses⟩ := Program.forall_mem_names_iff.mp hN
  have hforM : p.classes.forM (ClassDecl.check t) = p.classes.forM (ClassDecl.check t') :=
    Analysis.forM_congr fun d hd => ClassDecl.check_congr h (hclasses d hd)
  rw [Program.check, Program.check, MainClass.check_congr h hmain, hforM]

end

end MiniJava
