import MiniJava.Analysis.Reentry
import MiniJava.Proofs.FirstViolation
import MiniJava.Proofs.TableRuns
import MiniJava.Proofs.Violations

/-!
# The passes agree on what is declared

An entry that is being filled is the last one of its list, and its name is new there. So it is the
one that is found under its name (`changeClass_push`, `changeMethod_pushMethod`), and what is added
to it in place is what is added to it at hand. In the finished table names are distinct, so each
declaration of a class or a method finds its own entry (`Program.Declarable.foundIn`).
-/

namespace MiniJava

/-! ### Entries that come last -/

/-- The class that was added last is the one that is found under its name. -/
theorem IndexedTable.changeClass_push {t : IndexedTable} {c : ClassEntry} {span : Span}
    {f : ClassEntry → Except SemanticError ClassEntry}
    (hf : ∀ c', f c = .ok c' → c'.name = c.name) :
    (t.push c).changeClass c.name span f = (f c).map t.push := by
  have hclass : (t.push c).classes[t.classes.length]? = some c := List.getElem?_concat_length
  rw [changeClass, place?_push, if_pos rfl]
  simp only [hclass]
  cases hfc : f c with
  | error e => rfl
  | ok c' =>
    have hset : (t.push c).classes.set t.classes.length c' = (t.push c').classes := by
      simp [IndexedTable.push, SymbolTable.push]
    simp only [Except.map, hset]
    rw [IndexedTable.push, IndexedTable.push, hf c' hfc]

theorem updateFirst?_concat {α ε : Type} {p : α → Bool} {f : α → Except ε α} {l : List α} {a : α}
    (hl : ∀ b ∈ l, ¬ p b) (ha : p a) :
    updateFirst? p f (l ++ [a]) = some ((f a).map fun a' => l ++ [a']) := by
  induction l with
  | nil =>
    rw [List.nil_append, updateFirst?, if_pos ha]
    rfl
  | cons b l ih =>
    rw [List.forall_mem_cons] at hl
    rw [List.cons_append, updateFirst?, if_neg hl.1, ih hl.2, Option.map_some]
    cases f a <;> rfl

/-- The method that was added last is the one that is found under its name, which was new. -/
theorem ClassEntry.changeMethod_pushMethod {c : ClassEntry} {m : MethodEntry} {span : Span}
    {f : MethodEntry → Except SemanticError MethodEntry}
    (hfresh : m.name ∉ c.methods.map MethodEntry.name) :
    (c.pushMethod m).changeMethod m.name span f = (f m).map c.pushMethod := by
  have hl : ∀ a ∈ c.methods, ¬ (a.name == m.name) := by
    intro a ha hname
    exact hfresh (beq_iff_eq.mp hname ▸ List.mem_map_of_mem ha)
  rw [changeMethod, pushMethod, updateFirst?_concat hl (beq_self_eq_true _)]
  cases f m <;> rfl

/-! ### Filling an entry -/

theorem IndexedTable.declareVars_cls (t : IndexedTable) (c : ClassEntry) (ds : List VarDecl) :
    (t.push c).declareVars (.cls c.name) ds = (c.declareFields ds).map t.push := by
  refine foldlM_map_eq (fun c' => c'.name = c.name) (fun c' d hname => ?_)
    (fun c' d c'' hname hok => ?_) ds rfl
  · rw [← hname]
    refine changeClass_push fun c'' hok => ?_
    obtain ⟨-, rfl⟩ := ite_error_eq_ok_iff.mp hok
    rfl
  · obtain ⟨-, rfl⟩ := ite_error_eq_ok_iff.mp hok
    exact hname

theorem IndexedTable.declareVars_method (t : IndexedTable) {c : ClassEntry} {m : MethodEntry}
    (hfresh : m.name ∉ c.methods.map MethodEntry.name) (ds : List VarDecl) :
    (t.push (c.pushMethod m)).declareVars (.method ⟨c.name, m.name⟩) ds =
      (m.declareLocals ds).map fun m' => t.push (c.pushMethod m') := by
  refine foldlM_map_eq (g := fun m' => t.push (c.pushMethod m')) (fun m' => m'.name = m.name)
    (fun m' d hname => ?_) (fun m' d m'' hname hok => ?_) ds rfl
  · rw [← hname] at hfresh ⊢
    rw [declareVar]
    refine (changeClass_push fun c' hok => ?_).trans ?_
    · rw [ClassEntry.changeMethod_pushMethod hfresh, map_eq_ok_iff] at hok
      obtain ⟨m'', -, rfl⟩ := hok
      rfl
    · rw [ClassEntry.changeMethod_pushMethod hfresh]
      cases m'.declareLocal d.toVariable d.name.span <;> rfl
  · obtain ⟨-, rfl⟩ := ite_error_eq_ok_iff.mp hok
    exact hname

/-- A method is declared in place as it is in its class. -/
theorem IndexedTable.declareMethod_push (t : IndexedTable) (c : ClassEntry) (d : MethodDecl) :
    (t.push c).declareMethod c.name d = t.push <$> c.declare d := by
  have hname : ∀ c', c.openMethod d.name.name d.returns.denote d.name.span
      (·.declareParams d.params) = .ok c' → c'.name = c.name := by
    intro c' hok
    rw [ClassEntry.openMethod] at hok
    simp only [bind_eq_ok_iff] at hok
    obtain ⟨-, -, m, -, hm⟩ := hok
    rw [← Except.ok.inj hm]
    rfl
  rw [declareMethod, changeClass_push hname, ClassEntry.openMethod, ClassEntry.declare, map_bind]
  refine Analysis.bind_congr_of_ok rfl fun _ _ => ?_
  cases hfresh : c.freshMethod d.name.name d.name.span with
  | error e => rfl
  | ok u =>
    cases hparams : (MethodEntry.empty d.name.name d.returns.denote).declareParams d.params with
    | error e => rfl
    | ok m =>
      have hm : m.name = d.name.name := by
        rw [((MethodEntry.declareParams_eq_ok_iff rfl).mp hparams).2]
        rfl
      have hnew : m.name ∉ c.methods.map MethodEntry.name :=
        hm ▸ ClassEntry.freshMethod_eq_ok_iff.mp hfresh
      have hvars := t.declareVars_method hnew d.vars
      rw [hm] at hvars
      show liftM ((t.push (c.pushMethod m)).declareVars (.method ⟨c.name, d.name.name⟩) d.vars) =
        t.push <$> (liftM (m.declareLocals d.vars) >>= fun m' => pure (c.pushMethod m'))
      rw [hvars]
      cases m.declareLocals d.vars <;> rfl

theorem IndexedTable.declareMethods_push (t : IndexedTable) (c : ClassEntry)
    (ds : List MethodDecl) :
    ds.foldlM (declareMethod c.name) (t.push c) = t.push <$> ds.foldlM ClassEntry.declare c := by
  refine Analysis.foldlM_map_eq (fun c' => c'.name = c.name) (fun c' d hname => ?_)
    (fun c' d c'' hname hok => ?_) ds rfl
  · rw [← hname]
    exact t.declareMethod_push c' d
  · rw [(ClassEntry.declare_result_iff.mp hok).2]
    exact hname

/-! ### Classes and programs -/

namespace IndexedTable

variable {t : IndexedTable}

theorem Coherent.freshClass_eq (ht : t.Coherent) (name : String) (span : Span) :
    t.freshClass name span = t.toSymbolTable.freshClass name span := by
  rw [freshClass, ht.contains_eq, SymbolTable.freshClass]

theorem Coherent.checkParent_eq (ht : t.Coherent) (cls : String) (parent : Option Ident) :
    t.checkParent cls parent = t.toSymbolTable.checkParent cls parent := by
  cases parent with
  | none => rfl
  | some i =>
    rw [checkParent, Option.elim_some, ht.get?_eq, SymbolTable.checkParent]
    cases t.toSymbolTable.get? i.name with
    | none => rfl
    | some entry =>
      obtain ⟨name, parent, fields, methods⟩ := entry
      cases parent <;> rfl

/-- A class is declared in place as it is behind the classes of a plain table. -/
theorem Coherent.declareClass_eq (ht : t.Coherent) (d : ClassDecl) :
    t.declareClass d = do
      t.toSymbolTable.freshClass d.name.name d.name.span
      t.toSymbolTable.checkParent d.name.name d.parent
      .note (.declaringClass d.name.name (d.parent.map Ident.name))
      let c ← (ClassEntry.empty d.name.name (d.parent.map Ident.name)).declareFields d.fields
      let c ← d.methods.foldlM ClassEntry.declare c
      return t.push c := by
  rw [declareClass, ht.freshClass_eq, ht.checkParent_eq]
  refine Analysis.bind_congr_of_ok rfl fun _ hfresh => Analysis.bind_congr_of_ok rfl fun _ _ =>
    Analysis.bind_congr_of_ok rfl fun _ _ => ?_
  have hopen : t.openClass (.empty d.name.name (d.parent.map Ident.name)) d.name.span =
      .ok (t.push (.empty d.name.name (d.parent.map Ident.name))) := by
    rw [openClass, ht.freshClass_eq]
    exact congrArg (· >>= _) hfresh
  have hfields : (t.push (.empty d.name.name (d.parent.map Ident.name))).declareVars
      (.cls d.name.name) d.fields =
      ((ClassEntry.empty d.name.name (d.parent.map Ident.name)).declareFields d.fields).map t.push :=
    t.declareVars_cls _ d.fields
  rw [hopen, Analysis.liftM_ok_bind, hfields, Analysis.liftM_map, bind_map_left]
  refine Analysis.bind_congr_of_ok rfl fun c hc => ?_
  have hname : c.name = d.name.name := by
    rw [((ClassEntry.declareFields_eq_ok_iff rfl).mp hc).2]
    rfl
  rw [← hname, t.declareMethods_push c, map_eq_pure_bind]

theorem Coherent.map_declareClass (ht : t.Coherent) (d : ClassDecl) :
    t.toSymbolTable.declare d = toSymbolTable <$> t.declareClass d := by
  rw [ht.declareClass_eq, SymbolTable.declare]
  simp only [map_bind, map_pure]
  rfl

end IndexedTable

/-- The main class is declared in place as it is on its own. -/
theorem MainClass.declareMain_eq (d : MainClass) :
    IndexedTable.empty.declareMain d = IndexedTable.empty.push <$> d.declare := by
  let c := ClassEntry.empty d.name.name none
  let m : MethodEntry := ⟨mainMethod, .void, [⟨d.args.name, .stringArray⟩], []⟩
  have hvars : (IndexedTable.empty.push (c.pushMethod m)).declareVars
      (.method ⟨d.name.name, mainMethod⟩) d.vars =
      (m.declareLocals d.vars).map fun m' => IndexedTable.empty.push (c.pushMethod m') :=
    IndexedTable.empty.declareVars_method (m := m) List.not_mem_nil d.vars
  rw [IndexedTable.declareMain, IndexedTable.Coherent.empty.freshClass_eq, MainClass.declare,
    map_bind]
  refine Analysis.bind_congr_of_ok rfl fun _ _ => ?_
  show liftM ((IndexedTable.empty.push (c.pushMethod m)).declareVars
      (.method ⟨d.name.name, mainMethod⟩) d.vars) =
    IndexedTable.empty.push <$>
      (liftM (m.declareLocals d.vars) >>= fun m' => pure (c.pushMethod m'))
  rw [hvars]
  cases m.declareLocals d.vars <;> rfl

theorem VarDecl.Distinct.nodup {ds : List VarDecl} (h : VarDecl.Distinct ds) :
    ((ds.map VarDecl.toVariable).map Variable.name).Nodup := by
  rw [List.map_map]
  exact h

theorem ClassDecl.Declarable.distinct {d : ClassDecl} (h : d.Declarable) : d.entry.Distinct where
  fields := h.fields.nodup
  methods := by
    rw [ClassDecl.entry, List.map_map]
    exact h.methods
  eachMethod := by
    intro entry hentry
    obtain ⟨m, hm, rfl⟩ := List.mem_map.mp hentry
    exact ⟨(h.eachMethod m hm).params.nodup, (h.eachMethod m hm).locals.nodup⟩

theorem MainClass.entry_distinct {d : MainClass} (h : VarDecl.Distinct d.vars) :
    d.entry.Distinct where
  fields := List.nodup_nil
  methods := by simp [MainClass.entry]
  eachMethod := by
    intro entry hentry
    rw [List.mem_singleton.mp hentry]
    exact ⟨by simp, h.nodup⟩

theorem SymbolTable.Distinct.push {t : SymbolTable} (ht : t.Distinct) {c : ClassEntry}
    (hfresh : c.name ∉ t.classes.map ClassEntry.name) (hc : c.Distinct) : (t.push c).Distinct where
  classes := by
    rw [SymbolTable.push, List.map_append, List.map_singleton, List.nodup_append]
    refine ⟨ht.classes, by simp, fun x hx y hy hxy => hfresh ?_⟩
    rw [List.mem_singleton] at hy
    rwa [← hy, ← hxy]
  eachClass := by
    intro c' hc'
    rcases List.mem_append.mp hc' with hc' | hc'
    · exact ht.eachClass c' hc'
    · rwa [List.mem_singleton.mp hc']

/-- The places stay right while classes are declared. -/
theorem IndexedTable.Coherent.of_declareClass {t t' : IndexedTable} (ht : t.Coherent)
    {d : ClassDecl} (hok : (t.declareClass d).result = .ok t') : t'.Coherent := by
  have hplain : (t.toSymbolTable.declare d).result = .ok t'.toSymbolTable := by
    rw [ht.map_declareClass, Analysis.result_map, hok]
    rfl
  obtain ⟨⟨⟨hfresh, -⟩, hd⟩, htable⟩ := SymbolTable.declare_result_iff.mp hplain
  obtain ⟨c, rfl⟩ : ∃ c, t' = t.push c := by
    rw [ht.declareClass_eq] at hok
    simp only [Analysis.result_bind_eq_ok_iff] at hok
    obtain ⟨-, -, -, -, -, -, -, -, c, -, hc⟩ := hok
    exact ⟨c, (Except.ok.inj hc).symm⟩
  obtain rfl : c = d.entry := by
    simpa [IndexedTable.push, SymbolTable.push] using htable
  exact ht.push (ht.distinct.push hfresh hd.distinct)

/-- Declarations that are collected in place, by looking classes and methods up again and again, make
the same table with the same log, or fail with the same error. -/
theorem Program.map_declareInPlace (p : Program) :
    IndexedTable.toSymbolTable <$> p.declareInPlace = p.declare := by
  rw [declareInPlace, p.main.declareMain_eq, declare]
  simp only [map_bind, map_pure, bind_map_left]
  refine Analysis.bind_congr_of_ok rfl fun _ _ => Analysis.bind_congr_of_ok rfl fun c hc => ?_
  obtain ⟨hvars, rfl⟩ := MainClass.declare_result_iff.mp hc
  have hcoherent : (IndexedTable.empty.push p.main.entry).Coherent :=
    IndexedTable.Coherent.empty.push (IndexedTable.Coherent.empty.distinct.push
      List.not_mem_nil (MainClass.entry_distinct hvars))
  have hclasses := Analysis.foldlM_map_eq IndexedTable.Coherent
    (fun t d ht => ht.map_declareClass d) (fun t d t' ht hok => ht.of_declareClass hok) p.classes
    hcoherent
  have htable : (IndexedTable.empty.push p.main.entry).toSymbolTable = ⟨[p.main.entry]⟩ := rfl
  rw [htable] at hclasses
  rw [hclasses, bind_map_left]

/-! ### The check finds what was declared -/

section

variable {p : Program}

theorem MainClass.check_eq (hp : p.Declarable) :
    p.main.check p.table = p.main.checkAsWritten p.table := by
  simp only [MainClass.check, SymbolTable.lookup, ClassEntry.lookupMethod, hp.get?_main,
    Analysis.liftM_ok_bind, MainClass.method?_mainMethod]
  rfl

theorem MethodDecl.check_eq {c : ClassDecl} (hc : c.Declarable) {d : MethodDecl}
    (hd : d ∈ c.methods) (t : SymbolTable) : d.check t c.entry = d.checkAsWritten t c := by
  simp only [MethodDecl.check, ClassEntry.lookupMethod, hc.method?_eq hd, Analysis.liftM_ok_bind]
  rfl

theorem ClassDecl.check_eq (hp : p.Declarable) {d : ClassDecl} (hd : d ∈ p.classes) :
    d.check p.table = d.checkAsWritten p.table := by
  have hmethods := Analysis.forM_congr fun m hm =>
    MethodDecl.check_eq (hp.eachClass d hd) (d := m) hm p.table
  simp only [ClassDecl.check, SymbolTable.lookup, hp.get?_class hd, Analysis.liftM_ok_bind,
    List.forM_eq_forM, hmethods]
  rfl

/-- The check of a program against its own table is the one that looks nothing of the program up. -/
theorem Program.Declarable.check_eq (hp : p.Declarable) :
    p.check p.table = p.checkAsWritten p.table := by
  have hclasses := Analysis.forM_congr fun d hd => ClassDecl.check_eq hp (d := d) hd
  simp only [Program.check, MainClass.check_eq hp, List.forM_eq_forM, hclasses]
  rfl

theorem Program.HasNode.exists_mem_table {s : Scope} {n : Node} (h : p.HasNode s n) :
    ∃ c ∈ p.table.classes, s.cls = some c := by
  induction h with
  | mainVar _ | mainStmt _ => exact ⟨p.main.entry, List.mem_cons_self, rfl⟩
  | field hc _ | method hc _ =>
    exact ⟨_, List.mem_cons_of_mem _ (List.mem_map_of_mem hc), rfl⟩
  | part _ _ ih => exact ih

/-- The table has, under the names in the program, the entries that the declarations stand for, and
the check uses these. -/
structure Program.FoundIn (p : Program) (t : SymbolTable) : Prop where
  main : ∀ span, t.lookup p.main.name.name span = .ok p.main.entry
  mainMethod : ∀ span, p.main.entry.lookupMethod mainMethod span = .ok p.main.methodEntry
  cls : ∀ d ∈ p.classes, ∀ span, t.lookup d.name.name span = .ok d.entry
  method : ∀ d ∈ p.classes, ∀ m ∈ d.methods, ∀ span,
    d.entry.lookupMethod m.name.name span = .ok m.entry
  this : ∀ s n, p.HasNode s n → ∃ c ∈ t.classes, ∀ span, s.this span = .ok c.type
  check : p.check t = p.checkAsWritten t

theorem Program.Declarable.foundIn (hp : p.Declarable) : p.FoundIn p.table where
  main span := by rw [SymbolTable.lookup, hp.get?_main]
  mainMethod span := by rw [ClassEntry.lookupMethod, MainClass.method?_mainMethod]
  cls d hd span := by rw [SymbolTable.lookup, hp.get?_class hd]
  method d hd m hm span := by rw [ClassEntry.lookupMethod, (hp.eachClass d hd).method?_eq hm]
  this s n hn := by
    obtain ⟨c, hc, hs⟩ := hn.exists_mem_table
    refine ⟨c, hc, fun span => ?_⟩
    rw [Scope.this, hs]
  check := hp.check_eq

end

/-! ### Codes -/

theorem Binding.code_of_fault? {before : List Binding} {b : Binding} {fault : SemanticFault}
    (h : b.fault? before = some fault) : fault.code ∈ declarationCodes := by
  cases b with
  | parent child name =>
    rw [fault?] at h
    split at h
    · rw [← Option.some.inj h]
      simp [SemanticFault.code, declarationCodes]
    · obtain ⟨above, -, rfl⟩ := Option.map_eq_some_iff.mp h
      simp [SemanticFault.code, declarationCodes]
  | _ =>
    obtain ⟨-, hfault⟩ := Option.ite_none_right_eq_some.mp h
    rw [← Option.some.inj hfault]
    simp [SemanticFault.code, declarationCodes]

theorem Program.code_of_declare {p : Program} {e : SemanticError}
    (h : p.declare.result = .error e) : e.fault.code ∈ declarationCodes := by
  rw [p.accepts_declare.eq_error_iff, acceptAll_eq_error_iff] at h
  obtain ⟨first, d, rest, -, ⟨hfault, -⟩, -⟩ := h
  exact Binding.code_of_fault? hfault

theorem Node.Violates.code_mem {t : SymbolTable} {s : Scope} {n : Node} {e : SemanticError}
    (h : n.Violates t s e) : e.fault.code ∈ checkCodes := by
  cases h <;> simp [SemanticFault.code, checkCodes]

theorem Program.code_of_check {p : Program} {t : SymbolTable} {e : SemanticError}
    (ht : p.declare.result = .ok t) (h : (p.check t).result = .error e) :
    e.fault.code ∈ checkCodes := by
  obtain ⟨hp, rfl⟩ := Program.declarable_of_declare ht
  obtain ⟨s, n, -, hviolates⟩ := hp.violation_of_check h
  exact hviolates.code_mem

theorem not_mem_checkCodes : ∀ code ∈ declarationCodes, code ∉ checkCodes := by
  decide

/-- An analysis fails where its first pass does, or where that succeeds and the second one fails. -/
theorem Program.analyze_eq_error_iff {p : Program} {e : SemanticError} :
    p.analyze.result = .error e ↔
      p.declare.result = .error e ∨
        ∃ t, p.declare.result = .ok t ∧ (p.check t).result = .error e := by
  simp only [Program.analyze, Analysis.result_bind_eq_error_iff, Analysis.result_pure, reduceCtorEq,
    and_false, exists_false, or_false]

/-- **The passes agree on what is declared, and their errors never mix.** Collecting declarations in
place, where classes and methods that are being filled are looked up by their names, is the same as
collecting them without any lookup; so none of these lookups fails. In the table of a program every
class and every method of it is found as it was declared, and the check is the same as one that does
not look them up; so the check never fails there, and `this` has a type everywhere. An analysis fails
with the code of a declaration exactly if the first pass fails, and with one of the other codes
exactly if the second one does. -/
theorem passes_agree (p : Program) :
    IndexedTable.toSymbolTable <$> p.declareInPlace = p.declare ∧
      (∀ e, p.declare.result = .error e →
        (∀ type, e.fault ≠ .unknownClass type) ∧ ∀ name, e.fault ≠ .unresolvedIdentifier name) ∧
      (∀ t, p.declare.result = .ok t → p.FoundIn t) ∧
      (∀ e, p.analyze.result = .error e ∧ e.fault.code ∈ declarationCodes ↔
        p.declare.result = .error e) ∧
      ∀ e, p.analyze.result = .error e ∧ e.fault.code ∈ checkCodes ↔
        ∃ t, p.declare.result = .ok t ∧ (p.check t).result = .error e := by
  refine ⟨p.map_declareInPlace, fun e he => ?_, fun t ht => ?_, fun e => ?_, fun e => ?_⟩
  · have hcode := Program.code_of_declare he
    refine ⟨fun type htype => ?_, fun name hname => ?_⟩
    · rw [htype] at hcode
      exact not_mem_checkCodes _ hcode (by simp [SemanticFault.code, checkCodes])
    · rw [hname] at hcode
      exact not_mem_checkCodes _ hcode (by simp [SemanticFault.code, checkCodes])
  · obtain ⟨hp, rfl⟩ := Program.declarable_of_declare ht
    exact hp.foundIn
  · rw [Program.analyze_eq_error_iff]
    refine ⟨fun ⟨h, hcode⟩ => h.resolve_right fun ⟨t, ht, hcheck⟩ => ?_, fun h =>
      ⟨.inl h, Program.code_of_declare h⟩⟩
    exact not_mem_checkCodes _ hcode (Program.code_of_check ht hcheck)
  · rw [Program.analyze_eq_error_iff]
    refine ⟨fun ⟨h, hcode⟩ => h.resolve_left fun hdeclare => ?_, fun ⟨t, ht, hcheck⟩ =>
      ⟨.inr ⟨t, ht, hcheck⟩, Program.code_of_check ht hcheck⟩⟩
    exact not_mem_checkCodes _ (Program.code_of_declare hdeclare) hcode

end MiniJava
