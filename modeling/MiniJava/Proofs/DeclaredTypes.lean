import MiniJava.Proofs.DeclaredTable
import MiniJava.Proofs.Naturality
import MiniJava.Proofs.RoundTrip
import MiniJava.Proofs.TypeSystem

/-!
# The declared types of an accepted program

The written type of a field or of a local variable is resolved like any other bare name. So in an
accepted program it names a class, unless the name stands for something else where it is written.
-/

namespace MiniJava

/-- The method has a parameter or a local variable of this name. -/
def MethodEntry.HasVariable (m : MethodEntry) (x : String) : Prop :=
  x ∈ m.params.map Variable.name ∨ x ∈ m.locals.map Variable.name

/-- The class itself has a field or a method of this name. -/
def ClassEntry.HasMember (c : ClassEntry) (x : String) : Prop :=
  x ∈ c.fields.map Variable.name ∨ x ∈ c.methods.map MethodEntry.name

/-- The class or its parent has a field or a method of this name. -/
def SymbolTable.HasMember (t : SymbolTable) (c : ClassEntry) (x : String) : Prop :=
  c.HasMember x ∨ ∃ parent, t.parentOf? c = some parent ∧ parent.HasMember x

theorem mem_names_of_typeOf? {vars : List Variable} {x : String} {type : Ty}
    (h : typeOf? vars x = some type) : x ∈ vars.map Variable.name :=
  typeOf?_isSome_iff.mp (Option.isSome_of_eq_some h)

theorem VariableType.hasVariable {m : MethodEntry} {x : String} {type : Ty}
    (h : VariableType m x type) : m.HasVariable x := by
  cases h with
  | param hp => exact .inl (mem_names_of_typeOf? hp)
  | «local» _ hl => exact .inr (mem_names_of_typeOf? hl)

theorem MemberType.hasMember {c : ClassEntry} {x : String} {type : Ty}
    (h : MemberType c x type) : c.HasMember x := by
  cases h with
  | field hf => exact .inl (mem_names_of_typeOf? hf)
  | method _ hm => exact .inr (find?_name_isSome_iff.mp (Option.isSome_of_eq_some hm))

/-- What a name can stand for inside of a class. -/
theorem Resolves.declared {t : SymbolTable} {s : Scope} {c : ClassEntry} {x : String} {type : Ty}
    (hc : s.cls = some c) (h : Resolves t s x type) :
    t.contains x = true ∨ (∃ m, s.method = some m ∧ m.HasVariable x) ∨ t.HasMember c x := by
  cases h with
  | outside hnone => simp [hc] at hnone
  | inMethod _ hm hv => exact .inr (.inl ⟨_, hm, hv.hasVariable⟩)
  | cls _ _ hg => exact .inl (by simp [SymbolTable.contains, hg])
  | member hc' _ _ hmem =>
    obtain rfl := Option.some.inj (hc.symm.trans hc')
    exact .inr (.inr (.inl hmem.hasMember))
  | inherited hc' _ _ _ hp hmem =>
    obtain rfl := Option.some.inj (hc.symm.trans hc')
    exact .inr (.inr (.inr ⟨_, hp, hmem.hasMember⟩))

theorem VarDecl.WellTyped.declared {t : SymbolTable} {s : Scope} {c : ClassEntry} {d : VarDecl}
    {x : String} (hc : s.cls = some c) (h : d.WellTyped t s) (hx : d.toVariable.type = .cls x) :
    t.contains x = true ∨ (∃ m, s.method = some m ∧ m.HasVariable x) ∨ t.HasMember c x := by
  cases h with
  | builtin hb =>
    cases hd : d.type with
    | named name => exact absurd hd (hb name)
    | int | boolean | intArray => simp [VarDecl.toVariable, hd, TypeExpr.denote] at hx
  | named hd hr =>
    obtain rfl : _ = x := by simpa [VarDecl.toVariable, hd, TypeExpr.denote] using hx
    exact hr.declared hc

/-- **Declared types stand for something.** In the table of an accepted program, the class type of a
field names a class of the table, or a field or a method of the class around or of its parent. The
class type of a local variable may name a parameter or a local variable of the method as well. -/
theorem declared_types_resolve {p : Program} {t : SymbolTable} (h : p.analyze.result = .ok t) :
    ∀ c ∈ t.classes,
      (∀ v ∈ c.fields, ∀ x, v.type = .cls x → t.contains x = true ∨ t.HasMember c x) ∧
      ∀ m ∈ c.methods, ∀ v ∈ m.locals, ∀ x, v.type = .cls x →
        t.contains x = true ∨ m.HasVariable x ∨ t.HasMember c x := by
  simp only [Program.analyze, Analysis.result_bind_eq_ok_iff, Analysis.result_pure] at h
  obtain ⟨t', ht, _, hcheck, h⟩ := h
  obtain rfl := Except.ok.inj h
  obtain ⟨hp, rfl⟩ := Program.declarable_of_declare ht
  obtain ⟨hmain, hclasses⟩ := Program.check_result_iff.mp hcheck
  intro c hc
  rcases List.mem_cons.mp hc with rfl | hc
  · -- the main class has no fields and one method
    refine ⟨fun v hv => absurd hv List.not_mem_nil, fun m hm v hv x hx => ?_⟩
    obtain rfl := List.mem_singleton.mp hm
    obtain ⟨d, hd, rfl⟩ := List.mem_map.mp hv
    obtain ⟨hget, hmethod, hvars, -⟩ := hmain
    obtain rfl := Option.some.inj (hp.get?_main.symm.trans hget)
    obtain rfl := Option.some.inj (p.main.method?_mainMethod.symm.trans hmethod)
    rcases (hvars d hd).declared rfl hx with hcls | ⟨_, ⟨⟩, hvar⟩ | hmem
    · exact .inl hcls
    · exact .inr (.inl hvar)
    · exact .inr (.inr hmem)
  · obtain ⟨d, hd, rfl⟩ := List.mem_map.mp hc
    obtain ⟨hget, hfields, hmethods⟩ := hclasses d hd
    obtain rfl := Option.some.inj ((hp.get?_class hd).symm.trans hget)
    refine ⟨fun v hv x hx => ?_, fun m hm v hv x hx => ?_⟩
    · obtain ⟨f, hf, rfl⟩ := List.mem_map.mp hv
      rcases (hfields f hf).declared rfl hx with hcls | ⟨_, ⟨⟩, -⟩ | hmem
      · exact .inl hcls
      · exact .inr hmem
    · obtain ⟨md, hmd, rfl⟩ := List.mem_map.mp hm
      obtain ⟨f, hf, rfl⟩ := List.mem_map.mp hv
      obtain ⟨hmethod, hvars, -⟩ := hmethods md hmd
      obtain rfl := Option.some.inj (((hp.eachClass d hd).method?_eq hmd).symm.trans hmethod)
      rcases (hvars f hf).declared rfl hx with hcls | ⟨_, ⟨⟩, hvar⟩ | hmem
      · exact .inl hcls
      · exact .inr (.inl hvar)
      · exact .inr (.inr hmem)

/-- A text with a local variable that bears the name of its own type. -/
def selfTypedText : String :=
  "class M\x7bpublic static void main(String[] a)\x7bx x;\x7d\x7d"

/-- What `selfTypedText` is read as, up to spans. -/
def selfTyped : Program :=
  let name (x : String) : Ident := ⟨x, default⟩
  ⟨⟨name "M", name "a", [⟨.named (name "x"), name "x", default⟩], [], default⟩, []⟩

theorem declared_types_resolve_selfTyped :
    selfTyped.analyze.result = .ok selfTyped.table ∧
      (selfTyped.table.contains "x" = true ∨ selfTyped.main.methodEntry.HasVariable "x" ∨
        selfTyped.table.HasMember selfTyped.main.entry "x") :=
  ⟨rfl, (declared_types_resolve (p := selfTyped) rfl _ List.mem_cons_self).2 _ List.mem_cons_self
    ⟨"x", .cls "x"⟩ List.mem_cons_self "x" rfl⟩

/-- The type of a local variable need not be a class: the name of the variable itself is enough. -/
theorem declared_type_without_class :
    ∃ p t, Program.parse selfTypedText 0 = .ok p ∧ p.analyze.result = .ok t ∧
      ∃ c ∈ t.classes, ∃ m ∈ c.methods, ∃ v ∈ m.locals,
        v.type = .cls "x" ∧ t.contains "x" = false := by
  have hkinds : canonicalKinds (tokenize selfTypedText 0) = selfTyped.kinds ++ [.eof] := by
    decide +kernel
  obtain ⟨p, hp, hspans⟩ := Program.parse_of_canonicalKinds (by decide) hkinds
  have hsame : SameUpToSpan p.analyze.result (.ok selfTyped.table) :=
    (Program.analyze_eraseSpans hspans).2
  cases hr : p.analyze.result with
  | error e => rw [hr] at hsame; cases hsame
  | ok t =>
    rw [hr] at hsame
    cases hsame
    exact ⟨p, _, hp, hr, selfTyped.main.entry, List.mem_cons_self, selfTyped.main.methodEntry,
      List.mem_cons_self, ⟨"x", .cls "x"⟩, List.mem_cons_self, rfl, by decide⟩

end MiniJava
