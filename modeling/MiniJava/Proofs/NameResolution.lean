import MiniJava.Analysis.SourceNames
import MiniJava.Proofs.DeclaredTable
import MiniJava.Proofs.Violations

/-!
# Names stand for what the source declares

In a program that can be declared, each lookup in its table finds exactly what one of its
declarations says (`Program.Declarable.field?_eq_some_iff` and its like): names are distinct, so the
first declaration of a name is the only one. The searches for a name, which go from the method
outwards, hence give what the source says that the name means.
-/

namespace MiniJava

/-- In the scope, each name that means a type resolves to this type, and any other name is refused
as unresolved. -/
def Scope.Follows (s : Scope) (t : SymbolTable) (means : String → Ty → Prop) : Prop :=
  ∀ x span, (∀ type, (s.resolve t x span).result = .ok type ↔ means x type) ∧
    ∀ e, (s.resolve t x span).result = .error e ↔
      (∀ type, ¬ means x type) ∧ e = ⟨.unresolvedIdentifier x, span⟩

/-- Resolution follows the rules. -/
theorem Scope.follows_of_resolves {s : Scope} {t : SymbolTable} {means : String → Ty → Prop}
    (h : ∀ x type, Resolves t s x type ↔ means x type) : s.Follows t means := by
  intro x span
  constructor
  · intro type
    rw [Scope.resolve_result_iff, h]
  · intro e
    rw [Scope.resolve_eq_error_iff]
    simp only [h]

/-- Where the declared names are distinct, a name has the type that is written with it. -/
theorem typeOf?_toVariable_eq_some_iff {ds : List VarDecl} (hds : VarDecl.Distinct ds) {x : String}
    {type : Ty} : typeOf? (ds.map VarDecl.toVariable) x = some type ↔
      ∃ d ∈ ds, d.name.name = x ∧ d.type.denote = type := by
  have hnames : ((ds.map VarDecl.toVariable).map Variable.name).Nodup := by
    rw [List.map_map]
    exact hds
  rw [typeOf?, Option.map_eq_some_iff]
  simp only [find?_name_eq_some_iff hnames]
  constructor
  · rintro ⟨v, ⟨hv, rfl⟩, rfl⟩
    obtain ⟨d, hd, rfl⟩ := List.mem_map.mp hv
    exact ⟨d, hd, rfl, rfl⟩
  · rintro ⟨d, hd, rfl, rfl⟩
    exact ⟨d.toVariable, ⟨List.mem_map_of_mem hd, rfl⟩, rfl⟩

namespace Program.Declarable

variable {p : Program} {cls method x : String} {c : ClassEntry} {m : MethodEntry} {type : Ty}

/-! ### Lookups and declarations -/

/-- An entry of the table is that of the main class or of another class. -/
theorem class_cases (hp : p.Declarable) (hc : p.table.get? cls = some c) :
    (cls = p.main.name.name ∧ c = p.main.entry) ∨
      ∃ d ∈ p.classes, cls = d.name.name ∧ c = d.entry := by
  obtain ⟨hmem, rfl⟩ := hp.get?_eq_some_iff.mp hc
  rcases List.mem_cons.mp hmem with rfl | hmem
  · exact .inl ⟨rfl, rfl⟩
  · obtain ⟨d, hd, rfl⟩ := List.mem_map.mp hmem
    exact .inr ⟨d, hd, rfl, rfl⟩

/-- An entry of a method is that of the entry method or of a method of another class. -/
theorem method_cases (hp : p.Declarable) (hc : p.table.get? cls = some c)
    (hm : c.method? method = some m) :
    ((⟨cls, method⟩ : MethodName) = p.mainName ∧ m = p.main.methodEntry) ∨
      ∃ d ∈ p.classes, ∃ decl ∈ d.methods,
        (⟨cls, method⟩ : MethodName) = ⟨d.name.name, decl.name.name⟩ ∧ m = decl.entry := by
  have hmem := List.mem_of_find?_eq_some hm
  obtain rfl : m.name = method := ClassEntry.name_of_method? hm
  rcases hp.class_cases hc with ⟨rfl, rfl⟩ | ⟨d, hd, rfl, rfl⟩
  · obtain rfl := List.mem_singleton.mp hmem
    exact .inl ⟨rfl, rfl⟩
  · obtain ⟨decl, hdecl, rfl⟩ := List.mem_map.mp hmem
    exact .inr ⟨d, hd, decl, hdecl, rfl, rfl⟩

theorem eq_mainEntry (hp : p.Declarable) (hc : p.table.get? p.main.name.name = some c) :
    c = p.main.entry :=
  Option.some.inj (hc.symm.trans hp.get?_main)

theorem eq_classEntry (hp : p.Declarable) {d : ClassDecl} (hd : d ∈ p.classes)
    (hc : p.table.get? d.name.name = some c) : c = d.entry :=
  Option.some.inj (hc.symm.trans (hp.get?_class hd))

theorem eq_mainMethodEntry (hp : p.Declarable) (hc : p.table.get? p.main.name.name = some c)
    (hm : c.method? mainMethod = some m) : m = p.main.methodEntry := by
  obtain rfl := hp.eq_mainEntry hc
  exact Option.some.inj (hm.symm.trans p.main.method?_mainMethod)

theorem eq_methodEntry (hp : p.Declarable) {d : ClassDecl} (hd : d ∈ p.classes)
    {decl : MethodDecl} (hdecl : decl ∈ d.methods) (hc : p.table.get? d.name.name = some c)
    (hm : c.method? decl.name.name = some m) : m = decl.entry := by
  obtain rfl := hp.eq_classEntry hd hc
  exact Option.some.inj (hm.symm.trans ((hp.eachClass d hd).method?_eq hdecl))

theorem exists_get?_iff (hp : p.Declarable) :
    (∃ c, p.table.get? cls = some c) ↔ p.Declares (.cls cls) := by
  constructor
  · rintro ⟨c, hc⟩
    rcases hp.class_cases hc with ⟨rfl, -⟩ | ⟨d, hd, rfl, -⟩
    · exact .mainClass
    · exact .cls hd
  · intro h
    cases h with
    | mainClass => exact ⟨_, hp.get?_main⟩
    | cls hd => exact ⟨_, hp.get?_class hd⟩

theorem parent_eq_some_iff (hp : p.Declarable) (hc : p.table.get? cls = some c) :
    c.parent = some x ↔ p.Declares (.parent cls x) := by
  constructor
  · intro h
    rcases hp.class_cases hc with ⟨rfl, rfl⟩ | ⟨d, hd, rfl, rfl⟩
    · cases h
    · obtain ⟨parent, hparent, rfl⟩ := Option.map_eq_some_iff.mp h
      exact .parent hd hparent
  · intro h
    cases h with
    | parent hd hparent =>
      obtain rfl := hp.eq_classEntry hd hc
      exact Option.map_eq_some_iff.mpr ⟨_, hparent, rfl⟩

theorem field?_eq_some_iff (hp : p.Declarable) (hc : p.table.get? cls = some c) :
    c.field? x = some type ↔ p.Declares (.field cls x type) := by
  constructor
  · intro h
    rcases hp.class_cases hc with ⟨rfl, rfl⟩ | ⟨d, hd, rfl, rfl⟩
    · cases h
    · have hfields := (hp.eachClass d hd).fields
      obtain ⟨v, hv, rfl, rfl⟩ := (typeOf?_toVariable_eq_some_iff hfields).mp h
      exact .field hd hv
  · intro h
    cases h with
    | field hd hv =>
      obtain rfl := hp.eq_classEntry hd hc
      have hfields := (hp.eachClass _ hd).fields
      exact (typeOf?_toVariable_eq_some_iff hfields).mpr ⟨_, hv, rfl, rfl⟩

theorem exists_method?_iff (hp : p.Declarable) (hc : p.table.get? cls = some c) :
    (∃ m, c.method? x = some m) ↔ p.Declares (.method ⟨cls, x⟩) := by
  constructor
  · rintro ⟨m, hm⟩
    rcases hp.method_cases hc hm with ⟨hname, -⟩ | ⟨d, hd, decl, hdecl, hname, -⟩
    · exact hname ▸ .mainMethod
    · exact hname ▸ .method hd hdecl
  · intro h
    cases h with
    | mainMethod =>
      obtain rfl := hp.eq_mainEntry hc
      exact ⟨_, p.main.method?_mainMethod⟩
    | method hd hdecl =>
      obtain rfl := hp.eq_classEntry hd hc
      exact ⟨_, (hp.eachClass _ hd).method?_eq hdecl⟩

theorem param?_eq_some_iff (hp : p.Declarable) (hc : p.table.get? cls = some c)
    (hm : c.method? method = some m) :
    m.param? x = some type ↔ p.Declares (.param ⟨cls, method⟩ x type) := by
  constructor
  · intro h
    rcases hp.method_cases hc hm with ⟨hname, rfl⟩ | ⟨d, hd, decl, hdecl, hname, rfl⟩
    · obtain ⟨v, hv, rfl⟩ := Option.map_eq_some_iff.mp h
      obtain rfl : v.name = x := by simpa using List.find?_some hv
      obtain rfl := List.mem_singleton.mp (List.mem_of_find?_eq_some hv)
      exact hname ▸ .mainParam
    · have hparams := ((hp.eachClass d hd).eachMethod decl hdecl).params
      obtain ⟨v, hv, rfl, rfl⟩ := (typeOf?_toVariable_eq_some_iff hparams).mp h
      exact hname ▸ .param hd hdecl hv
  · intro h
    cases h with
    | mainParam =>
      obtain rfl := hp.eq_mainMethodEntry hc hm
      simp [MethodEntry.param?, MainClass.methodEntry, typeOf?]
    | param hd hdecl hv =>
      obtain rfl := hp.eq_methodEntry hd hdecl hc hm
      have hparams := ((hp.eachClass _ hd).eachMethod _ hdecl).params
      exact (typeOf?_toVariable_eq_some_iff hparams).mpr ⟨_, hv, rfl, rfl⟩

theorem local?_eq_some_iff (hp : p.Declarable) (hc : p.table.get? cls = some c)
    (hm : c.method? method = some m) :
    m.local? x = some type ↔ p.Declares (.localVar ⟨cls, method⟩ x type) := by
  constructor
  · intro h
    rcases hp.method_cases hc hm with ⟨hname, rfl⟩ | ⟨d, hd, decl, hdecl, hname, rfl⟩
    · obtain ⟨v, hv, rfl, rfl⟩ := (typeOf?_toVariable_eq_some_iff hp.mainLocals).mp h
      exact hname ▸ .mainLocal hv
    · have hlocals := ((hp.eachClass d hd).eachMethod decl hdecl).locals
      obtain ⟨v, hv, rfl, rfl⟩ := (typeOf?_toVariable_eq_some_iff hlocals).mp h
      exact hname ▸ .localVar hd hdecl hv
  · intro h
    cases h with
    | mainLocal hv =>
      obtain rfl := hp.eq_mainMethodEntry hc hm
      exact (typeOf?_toVariable_eq_some_iff hp.mainLocals).mpr ⟨_, hv, rfl, rfl⟩
    | localVar hd hdecl hv =>
      obtain rfl := hp.eq_methodEntry hd hdecl hc hm
      have hlocals := ((hp.eachClass _ hd).eachMethod _ hdecl).locals
      exact (typeOf?_toVariable_eq_some_iff hlocals).mpr ⟨_, hv, rfl, rfl⟩

/-! ### Meanings -/

/-- What a class extends is a class of the program. -/
theorem declares_parent (hp : p.Declarable) (h : p.Declares (.parent cls x)) :
    p.Declares (.cls x) := by
  cases h with
  | parent hd hparent =>
    obtain ⟨before, after, hclasses⟩ := List.append_of_mem hd
    rcases hp.parents before _ after hclasses _ hparent with hmain | ⟨e, he, hname, -⟩
    · exact hmain ▸ .mainClass
    · exact hname ▸ .cls (hclasses ▸ List.mem_append_left _ he)

/-- The variables of an entry are those that the source means. -/
theorem variableType_iff (hp : p.Declarable) (hc : p.table.get? cls = some c)
    (hm : c.method? method = some m) :
    VariableType m x type ↔ p.MeansVariable ⟨cls, method⟩ x type := by
  have hparam : m.param? x = none ↔ ∀ other, ¬ p.Declares (.param ⟨cls, method⟩ x other) := by
    rw [Option.eq_none_iff_forall_ne_some]
    exact forall_congr' fun _ => not_congr (hp.param?_eq_some_iff hc hm)
  constructor
  · rintro (h | ⟨hno, h⟩)
    · exact .param ((hp.param?_eq_some_iff hc hm).mp h)
    · exact .localVar (hparam.mp hno) ((hp.local?_eq_some_iff hc hm).mp h)
  · rintro (h | ⟨hno, h⟩)
    · exact .param ((hp.param?_eq_some_iff hc hm).mpr h)
    · exact .local (hparam.mpr hno) ((hp.local?_eq_some_iff hc hm).mpr h)

/-- The members of an entry are those that the source means. -/
theorem memberType_iff (hp : p.Declarable) (hc : p.table.get? cls = some c) :
    MemberType c x type ↔ p.MeansMember cls x type := by
  have hfield : c.field? x = none ↔ ∀ other, ¬ p.Declares (.field cls x other) := by
    rw [Option.eq_none_iff_forall_ne_some]
    exact forall_congr' fun _ => not_congr (hp.field?_eq_some_iff hc)
  constructor
  · rintro (h | ⟨hno, h⟩)
    · exact .field ((hp.field?_eq_some_iff hc).mp h)
    · exact .method (hfield.mp hno) ((hp.exists_method?_iff hc).mp ⟨_, h⟩)
  · rintro (h | ⟨hno, h⟩)
    · exact .field ((hp.field?_eq_some_iff hc).mpr h)
    · obtain ⟨m, hm⟩ := (hp.exists_method?_iff hc).mpr h
      exact .method (hfield.mpr hno) hm

/-- Names resolve to what the source means, in a scope whose variables are those that the source
means. -/
theorem resolves_iff (hp : p.Declarable) (hc : p.table.get? cls = some c) {s : Scope}
    (hs : s.cls = some c) {method : Option String}
    (hvariable : ∀ x type, (∃ m, s.method = some m ∧ VariableType m x type) ↔
      ∃ name, method = some name ∧ p.MeansVariable ⟨cls, name⟩ x type) :
    Resolves p.table s x type ↔ p.Means cls method x type := by
  have hno : s.NoVariable x ↔ p.NoVariable cls method x := by
    constructor
    · intro h name type hname hmeans
      obtain ⟨m, hm, htype⟩ := (hvariable x type).mpr ⟨name, hname, hmeans⟩
      exact h m type hm htype
    · intro h m type hm htype
      obtain ⟨name, hname, hmeans⟩ := (hvariable x type).mp ⟨m, hm, htype⟩
      exact h name type hname hmeans
  have hcls : p.table.get? x = none ↔ ¬ p.Declares (.cls x) := by
    rw [← hp.exists_get?_iff, Option.eq_none_iff_forall_ne_some, not_exists]
  have hmember : (∀ other, ¬ MemberType c x other) ↔ ∀ other, ¬ p.MeansMember cls x other :=
    forall_congr' fun _ => not_congr (hp.memberType_iff hc)
  constructor
  · intro h
    cases h with
    | outside hnone => cases hs.symm.trans hnone
    | inMethod _ hm htype =>
      obtain ⟨name, hname, hmeans⟩ := (hvariable x type).mp ⟨_, hm, htype⟩
      exact .inMethod hname hmeans
    | cls _ hvar hget => exact .cls (hno.mp hvar) (hp.exists_get?_iff.mp ⟨_, hget⟩)
    | member hs' hvar hget htype =>
      obtain rfl := Option.some.inj (hs.symm.trans hs')
      exact .member (hno.mp hvar) (hcls.mp hget) ((hp.memberType_iff hc).mp htype)
    | inherited hs' hvar hget hown hparent htype =>
      obtain rfl := Option.some.inj (hs.symm.trans hs')
      obtain ⟨q, hq, hentry⟩ := Option.bind_eq_some_iff.mp hparent
      exact .inherited (hno.mp hvar) (hcls.mp hget) (hmember.mp hown)
        ((hp.parent_eq_some_iff hc).mp hq) ((hp.memberType_iff hentry).mp htype)
  · intro h
    cases h with
    | inMethod hname hmeans =>
      obtain ⟨m, hm, htype⟩ := (hvariable x type).mpr ⟨_, hname, hmeans⟩
      exact .inMethod hs hm htype
    | cls hvar hget =>
      obtain ⟨entry, hentry⟩ := hp.exists_get?_iff.mpr hget
      exact .cls hs (hno.mpr hvar) hentry
    | member hvar hget hmeans =>
      exact .member hs (hno.mpr hvar) (hcls.mpr hget) ((hp.memberType_iff hc).mpr hmeans)
    | inherited hvar hget hown hparent hmeans =>
      obtain ⟨entry, hentry⟩ := hp.exists_get?_iff.mpr (hp.declares_parent hparent)
      exact .inherited hs (hno.mpr hvar) (hcls.mpr hget) (hmember.mpr hown)
        (Option.bind_eq_some_iff.mpr ⟨_, (hp.parent_eq_some_iff hc).mpr hparent, hentry⟩)
        ((hp.memberType_iff hentry).mpr hmeans)

end Program.Declarable

/-- **Names stand for what the source declares.** Each class of a program is found in its table, and
each method in the entry of its class. In these scopes every name resolves to what it means by the
declarations of the program alone, and a name that means nothing is refused as unresolved. -/
theorem names_resolve_as_declared {p : Program} {t : SymbolTable} (h : p.declare.result = .ok t)
    {cls : String} (hcls : p.Declares (.cls cls)) :
    ∃ c, t.get? cls = some c ∧ (Scope.root.enterClass c).Follows t (p.Means cls none) ∧
      ∀ method, p.Declares (.method ⟨cls, method⟩) → ∃ m, c.method? method = some m ∧
        ((Scope.root.enterClass c).enterMethod m).Follows t (p.Means cls (some method)) := by
  obtain ⟨hp, rfl⟩ := Program.declarable_of_declare h
  obtain ⟨c, hc⟩ := hp.exists_get?_iff.mpr hcls
  refine ⟨c, hc, ?_, ?_⟩
  · apply Scope.follows_of_resolves
    intro x type
    apply hp.resolves_iff hc rfl
    -- neither side has a method
    intro x type
    constructor
    · rintro ⟨m, ⟨⟩, -⟩
    · rintro ⟨name, ⟨⟩, -⟩
  · intro method hmethod
    obtain ⟨m, hm⟩ := (hp.exists_method?_iff hc).mpr hmethod
    refine ⟨m, hm, ?_⟩
    apply Scope.follows_of_resolves
    intro x type
    apply hp.resolves_iff hc rfl
    intro x type
    constructor
    · rintro ⟨_, ⟨⟩, htype⟩
      exact ⟨method, rfl, (hp.variableType_iff hc hm).mp htype⟩
    · rintro ⟨_, ⟨⟩, hmeans⟩
      exact ⟨m, rfl, (hp.variableType_iff hc hm).mpr hmeans⟩

/-- A program that uses few names for many things:
`class M { public static void main(String[] x) { int x; } }
class A { int x; boolean y; public int y() { return 0; } public int z() { return 0; } }
class B extends A { boolean x; public int f(int x) { boolean x; return 0; } }`. -/
def shadowed : Program :=
  let name (x : String) : Ident := ⟨x, default⟩
  let int (x : String) : VarDecl := ⟨.int default, name x, default⟩
  let boolean (x : String) : VarDecl := ⟨.boolean default, name x, default⟩
  let method (x : String) (params vars : List VarDecl) : MethodDecl :=
    ⟨.int default, name x, params, vars, [], .int default 0, default⟩
  { main := ⟨name "M", name "x", [int "x"], [], default⟩
    classes :=
      [⟨name "A", none, [int "x", boolean "y"], [method "y" [] [], method "z" [] []], default⟩,
       ⟨name "B", some (name "A"), [boolean "x"], [method "f" [int "x"] [boolean "x"]],
        default⟩] }

theorem names_resolve_as_declared_shadowed :
    shadowed.declare.result = .ok shadowed.table ∧
      shadowed.Means "B" (some "f") "x" .int ∧ shadowed.Means "B" none "x" .boolean ∧
      shadowed.Means "B" (some "f") "y" .boolean ∧ shadowed.Means "B" none "z" (.cls "z") ∧
      ∀ type, ¬ shadowed.Means "M" (some "main") "y" type := by
  have hchild : shadowed.classes[1] ∈ shadowed.classes := List.getElem_mem _
  have hf : shadowed.classes[1].methods[0] ∈ shadowed.classes[1].methods := List.getElem_mem _
  obtain ⟨b, hb, hclass, hmethods⟩ :=
    @names_resolve_as_declared shadowed _ rfl "B" (Program.Declares.cls hchild)
  obtain ⟨f, hf, hmethod⟩ := hmethods "f" (Program.Declares.method hchild hf)
  obtain ⟨m, hm, -, hmain⟩ := @names_resolve_as_declared shadowed _ rfl "M" .mainClass
  obtain ⟨entry, hentry, hmain⟩ := hmain "main" .mainMethod
  cases hb
  cases hf
  cases hm
  cases hentry
  exact ⟨rfl, ((hmethod "x" default).1 _).mp rfl, ((hclass "x" default).1 _).mp rfl,
    ((hmethod "y" default).1 _).mp rfl, ((hclass "z" default).1 _).mp rfl,
    (((hmain "y" default).2 _).mp rfl).1⟩

end MiniJava
