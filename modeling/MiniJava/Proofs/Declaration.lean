import MiniJava.Analysis.Declared
import MiniJava.Proofs.Outcome

/-!
# The declaration pass is exact

A pass over declarations succeeds exactly if each of them keeps its rule in the state that the ones
before it lead to (`foldlM_eq_ok_iff`). With the rule of each kind of declaration this gives that a
program can be declared exactly if it is `Declarable`, and that the result is its `table`.
-/

namespace MiniJava

/-! ### Names -/

section

variable {α β : Type}

/-- Names are distinct exactly if none of them occurs before its place. -/
theorem nodup_append_map_iff {f : α → β} {init : List β} (hinit : init.Nodup) {l : List α} :
    (init ++ l.map f).Nodup ↔
      ∀ before a after, l = before ++ a :: after → f a ∉ init ++ before.map f := by
  induction l generalizing init with
  | nil =>
    rw [List.map_nil, List.append_nil]
    exact ⟨fun _ before a after heq => by simp at heq, fun _ => hinit⟩
  | cons a l ih =>
    rw [forall_places_cons, List.map_nil, List.append_nil, List.map_cons, List.append_cons]
    by_cases ha : f a ∈ init
    · refine ⟨fun h => ?_, fun h => absurd ha h.1⟩
      have hdup := (List.nodup_append.mp h).1
      exact absurd rfl ((List.nodup_append.mp hdup).2.2 (f a) ha (f a) (List.mem_singleton_self _))
    · have hinit' : (init ++ [f a]).Nodup := by
        rw [List.nodup_append]
        refine ⟨hinit, by simp, fun x hx y hy hxy => ha ?_⟩
        rw [List.mem_singleton] at hy
        rwa [← hy, ← hxy]
      rw [ih hinit']
      simp only [List.map_cons, ← List.append_cons]
      exact ⟨fun h => ⟨ha, h⟩, And.right⟩

theorem nodup_map_iff {f : α → β} {l : List α} :
    (l.map f).Nodup ↔ ∀ before a after, l = before ++ a :: after → f a ∉ before.map f :=
  nodup_append_map_iff List.nodup_nil

end

/-! ### Variables -/

section

variable {σ : Type} (vars : σ → List Variable) (set : σ → List Variable → σ)
  {step : σ → Variable → Span → Except SemanticError σ}

/-- Variables are declared in a row, in an entry that has none, exactly if their names are distinct;
then the entry has these variables. The rule of one step is the same for parameters, local variables
and fields. -/
theorem declareVars_eq_ok_iff (hvars : ∀ s vs, vars (set s vs) = vs)
    (hset : ∀ s vs ws, set (set s vs) ws = set s ws) (hself : ∀ s, set s (vars s) = s)
    (hstep : ∀ s v span s', step s v span = .ok s' ↔
      v.name ∉ (vars s).map Variable.name ∧ s' = set s (vars s ++ [v]))
    {s s' : σ} (hs : vars s = []) {ds : List VarDecl} :
    ds.foldlM (fun s d => step s d.toVariable d.name.span) s = .ok s' ↔
      VarDecl.Distinct ds ∧ s' = set s (ds.map VarDecl.toVariable) := by
  -- where the variables before a place lead to
  have hfold : ∀ (ds : List VarDecl) (s : σ),
      ds.foldl (fun s d => set s (vars s ++ [d.toVariable])) s =
        set s (vars s ++ ds.map VarDecl.toVariable) := by
    intro ds
    induction ds with
    | nil =>
      intro s
      rw [List.foldl_nil, List.map_nil, List.append_nil, hself]
    | cons d ds ih =>
      intro s
      rw [List.foldl_cons, ih, hset, hvars, List.append_assoc, List.map_cons,
        List.singleton_append]
  rw [foldlM_eq_ok_iff (fun s d s' => hstep s d.toVariable d.name.span s'), hfold, hs,
    List.nil_append, VarDecl.Distinct, nodup_map_iff]
  simp only [hfold, hvars, hs, List.nil_append, List.map_map]
  rfl

end

theorem find?_name_isSome_iff {α : Type} {f : α → String} {l : List α} {name : String} :
    (l.find? (f · == name)).isSome = true ↔ name ∈ l.map f := by
  rw [List.find?_isSome]
  simp

theorem typeOf?_isSome_iff {vars : List Variable} {name : String} :
    (typeOf? vars name).isSome = true ↔ name ∈ vars.map Variable.name := by
  rw [typeOf?, Option.isSome_map, find?_name_isSome_iff]

theorem MethodEntry.declareParams_eq_ok_iff {m m' : MethodEntry} (hm : m.params = [])
    {ds : List VarDecl} :
    m.declareParams ds = .ok m' ↔
      VarDecl.Distinct ds ∧ m' = { m with params := ds.map VarDecl.toVariable } := by
  refine declareVars_eq_ok_iff MethodEntry.params (fun m vs => { m with params := vs })
    (fun _ _ => rfl) (fun _ _ _ => rfl) (fun _ => rfl) (fun s v span s' => ?_) hm
  rw [declareParam, param?, ite_error_eq_ok_iff, typeOf?_isSome_iff]

theorem MethodEntry.declareLocals_eq_ok_iff {m m' : MethodEntry} (hm : m.locals = [])
    {ds : List VarDecl} :
    m.declareLocals ds = .ok m' ↔
      VarDecl.Distinct ds ∧ m' = { m with locals := ds.map VarDecl.toVariable } := by
  refine declareVars_eq_ok_iff MethodEntry.locals (fun m vs => { m with locals := vs })
    (fun _ _ => rfl) (fun _ _ _ => rfl) (fun _ => rfl) (fun s v span s' => ?_) hm
  rw [declareLocal, local?, ite_error_eq_ok_iff, typeOf?_isSome_iff]

theorem ClassEntry.declareFields_eq_ok_iff {c c' : ClassEntry} (hc : c.fields = [])
    {ds : List VarDecl} :
    c.declareFields ds = .ok c' ↔
      VarDecl.Distinct ds ∧ c' = { c with fields := ds.map VarDecl.toVariable } := by
  refine declareVars_eq_ok_iff ClassEntry.fields (fun c vs => { c with fields := vs })
    (fun _ _ => rfl) (fun _ _ _ => rfl) (fun _ => rfl) (fun s v span s' => ?_) hc
  rw [declareField, field?, ite_error_eq_ok_iff, typeOf?_isSome_iff]

/-! ### Methods -/

theorem ClassEntry.freshMethod_eq_ok_iff {c : ClassEntry} {name : String} {span : Span} {u : Unit} :
    c.freshMethod name span = .ok u ↔ name ∉ c.methods.map MethodEntry.name := by
  rw [freshMethod, ite_error_eq_ok_iff, method?, find?_name_isSome_iff]
  exact and_iff_left rfl

/-- A method is added to a class exactly if its name is new there and its own declarations keep
their rules. -/
theorem ClassEntry.declare_result_iff {c c' : ClassEntry} {d : MethodDecl} :
    (c.declare d).result = .ok c' ↔
      (d.name.name ∉ c.methods.map MethodEntry.name ∧ d.Declarable) ∧
        c' = c.pushMethod d.entry := by
  simp only [ClassEntry.declare, Analysis.result_bind, Analysis.result_note, Analysis.result_liftM,
    Analysis.result_pure, ok_bind, bind_eq_ok_iff, freshMethod_eq_ok_iff]
  constructor
  · rintro ⟨-, hfresh, m, hm, m', hm', h⟩
    obtain ⟨hparams, rfl⟩ := (MethodEntry.declareParams_eq_ok_iff rfl).mp hm
    obtain ⟨hlocals, rfl⟩ := (MethodEntry.declareLocals_eq_ok_iff rfl).mp hm'
    exact ⟨⟨hfresh, hparams, hlocals⟩, (Except.ok.inj h).symm⟩
  · rintro ⟨⟨hfresh, hd⟩, rfl⟩
    exact ⟨(), hfresh, _, (MethodEntry.declareParams_eq_ok_iff rfl).mpr ⟨hd.params, rfl⟩, _,
      (MethodEntry.declareLocals_eq_ok_iff rfl).mpr ⟨hd.locals, rfl⟩, rfl⟩

theorem ClassEntry.foldl_pushMethod_entry (ds : List MethodDecl) (c : ClassEntry) :
    ds.foldl (fun c d => c.pushMethod d.entry) c =
      { c with methods := c.methods ++ ds.map MethodDecl.entry } := by
  induction ds generalizing c with
  | nil => rw [List.foldl_nil, List.map_nil, List.append_nil]
  | cons d ds ih =>
    rw [List.foldl_cons, ih, pushMethod, List.append_assoc, List.map_cons, List.singleton_append]

/-- Methods are declared in a row, in a class that has none, exactly if their names are distinct and
their own declarations keep their rules. -/
theorem ClassEntry.declareMethods_result_iff {c c' : ClassEntry} (hc : c.methods = [])
    {ds : List MethodDecl} :
    (ds.foldlM ClassEntry.declare c).result = .ok c' ↔
      ((ds.map (·.name.name)).Nodup ∧ ∀ d ∈ ds, d.Declarable) ∧
        c' = { c with methods := ds.map MethodDecl.entry } := by
  rw [Analysis.result_foldlM, foldlM_eq_ok_iff (fun _ _ _ => ClassEntry.declare_result_iff),
    foldl_pushMethod_entry, hc, List.nil_append, nodup_map_iff]
  simp only [foldl_pushMethod_entry, hc, List.nil_append, List.map_map]
  rw [forall_places_and_iff]
  rfl

/-! ### Classes -/

theorem SymbolTable.freshClass_eq_ok_iff {t : SymbolTable} {name : String} {span : Span} {u : Unit} :
    t.freshClass name span = .ok u ↔ name ∉ t.classes.map ClassEntry.name := by
  rw [freshClass, ite_error_eq_ok_iff, contains, get?, find?_name_isSome_iff]
  exact and_iff_left rfl

theorem SymbolTable.get?_push {t : SymbolTable} {c : ClassEntry} {x : String} (h : x ≠ c.name) :
    (t.push c).get? x = t.get? x := by
  simp [SymbolTable.push, SymbolTable.get?, List.find?_append, h.symm]

theorem SymbolTable.get?_eq_none_iff {t : SymbolTable} {name : String} :
    t.get? name = none ↔ name ∉ t.classes.map ClassEntry.name := by
  rw [← Option.not_isSome_iff_eq_none, get?, find?_name_isSome_iff]

/-- A class with a new name is found under this name once it is added. -/
theorem SymbolTable.get?_push_self {t : SymbolTable} {c : ClassEntry}
    (h : c.name ∉ t.classes.map ClassEntry.name) : (t.push c).get? c.name = some c := by
  have hnone : t.classes.find? (·.name == c.name) = none := get?_eq_none_iff.mpr h
  rw [get?, push, List.find?_append, hnone, Option.none_or, List.find?_singleton, beq_self_eq_true]
  rfl

theorem SymbolTable.checkParent_eq_ok_iff {t : SymbolTable} {cls : String} {parent : Option Ident}
    {u : Unit} :
    t.checkParent cls parent = .ok u ↔
      ∀ i, parent = some i → ∃ e, t.get? i.name = some e ∧ e.parent = none := by
  cases parent with
  | none => exact ⟨fun _ => nofun, fun _ => rfl⟩
  | some i =>
    rw [checkParent]
    cases hget : t.get? i.name with
    | none =>
      refine ⟨nofun, fun h => ?_⟩
      obtain ⟨e, he, -⟩ := h i rfl
      rw [hget] at he
      cases he
    | some e =>
      cases hparent : e.parent with
      | none =>
        refine ⟨fun _ j hj => ?_, fun _ => ?_⟩
        · cases hj
          exact ⟨e, hget, hparent⟩
        · simp only [hparent]
      | some grandparent =>
        refine ⟨fun h => ?_, fun h => ?_⟩
        · simp only [hparent] at h
          cases h
        · obtain ⟨e', he', hnone⟩ := h i rfl
          rw [hget] at he'
          cases he'
          rw [hparent] at hnone
          cases hnone

/-- A class is added to a table exactly if its name is new there, its parent is there without one
itself, and its own declarations keep their rules. -/
theorem SymbolTable.declare_result_iff {t t' : SymbolTable} {d : ClassDecl} :
    (t.declare d).result = .ok t' ↔
      ((d.name.name ∉ t.classes.map ClassEntry.name ∧
        ∀ i, d.parent = some i → ∃ e, t.get? i.name = some e ∧ e.parent = none) ∧ d.Declarable) ∧
        t' = t.push d.entry := by
  simp only [SymbolTable.declare, Analysis.result_bind, Analysis.result_note, Analysis.result_liftM,
    Analysis.result_pure, ok_bind, bind_eq_ok_iff, freshClass_eq_ok_iff, checkParent_eq_ok_iff]
  constructor
  · rintro ⟨-, hfresh, -, hparent, c, hc, c', hc', h⟩
    obtain ⟨hfields, rfl⟩ := (ClassEntry.declareFields_eq_ok_iff rfl).mp hc
    obtain ⟨⟨hnames, hmethods⟩, rfl⟩ := (ClassEntry.declareMethods_result_iff rfl).mp hc'
    exact ⟨⟨⟨hfresh, hparent⟩, hfields, hnames, hmethods⟩, (Except.ok.inj h).symm⟩
  · rintro ⟨⟨⟨hfresh, hparent⟩, hd⟩, rfl⟩
    exact ⟨(), hfresh, (), hparent, _, (ClassEntry.declareFields_eq_ok_iff rfl).mpr ⟨hd.fields, rfl⟩,
      _, (ClassEntry.declareMethods_result_iff rfl).mpr ⟨⟨hd.methods, hd.eachMethod⟩, rfl⟩, rfl⟩

/-- Where names are distinct, looking one up finds the element of this name. -/
theorem find?_name_eq_some_iff {α : Type} {f : α → String} {l : List α} (hl : (l.map f).Nodup)
    {name : String} {a : α} : l.find? (f · == name) = some a ↔ a ∈ l ∧ f a = name := by
  induction l with
  | nil => simp
  | cons b l ih =>
    obtain ⟨hb, hl⟩ := List.nodup_cons.mp hl
    by_cases hname : f b = name
    · rw [List.find?_cons_of_pos (by simpa using hname), Option.some.injEq, List.mem_cons]
      constructor
      · rintro rfl
        exact ⟨.inl rfl, hname⟩
      · rintro ⟨rfl | ha, hfa⟩
        · rfl
        · -- a second element of this name
          rw [← hname] at hfa
          exact absurd (hfa ▸ List.mem_map_of_mem ha) hb
    · rw [List.find?_cons_of_neg (by simpa using hname), ih hl, List.mem_cons]
      refine ⟨fun ⟨ha, hfa⟩ => ⟨.inr ha, hfa⟩, ?_⟩
      rintro ⟨rfl | ha, hfa⟩
      · exact absurd hfa hname
      · exact ⟨ha, hfa⟩

/-! ### Programs -/

theorem MainClass.declare_result_iff {d : MainClass} {c : ClassEntry} :
    d.declare.result = .ok c ↔ VarDecl.Distinct d.vars ∧ c = d.entry := by
  simp only [MainClass.declare, Analysis.result_bind, Analysis.result_note, Analysis.result_liftM,
    Analysis.result_pure, ok_bind, bind_eq_ok_iff]
  constructor
  · rintro ⟨m, hm, h⟩
    obtain ⟨hlocals, rfl⟩ := (MethodEntry.declareLocals_eq_ok_iff rfl).mp hm
    exact ⟨hlocals, (Except.ok.inj h).symm⟩
  · rintro ⟨hlocals, rfl⟩
    exact ⟨_, (MethodEntry.declareLocals_eq_ok_iff rfl).mpr ⟨hlocals, rfl⟩, rfl⟩

/-- A parent is found, without a parent itself, among the classes before its child exactly if it is
the main class or a class without a parent that is declared before. -/
theorem exists_parent_iff {main : MainClass} {before : List ClassDecl} {name : String}
    (hnames : (main.name.name :: before.map (·.name.name)).Nodup) :
    (∃ e, SymbolTable.get? ⟨main.entry :: before.map ClassDecl.entry⟩ name = some e ∧
        e.parent = none) ↔
      name = main.name.name ∨ ∃ d ∈ before, d.name.name = name ∧ d.parent = none := by
  have hentries : ((main.entry :: before.map ClassDecl.entry).map ClassEntry.name).Nodup := by
    rw [List.map_cons, List.map_map]
    exact hnames
  simp only [SymbolTable.get?, find?_name_eq_some_iff hentries]
  constructor
  · rintro ⟨e, ⟨he, rfl⟩, hparent⟩
    rcases List.mem_cons.mp he with rfl | he
    · exact .inl rfl
    · obtain ⟨d, hd, rfl⟩ := List.mem_map.mp he
      exact .inr ⟨d, hd, rfl, Option.map_eq_none_iff.mp hparent⟩
  · rintro (rfl | ⟨d, hd, rfl, hparent⟩)
    · exact ⟨main.entry, ⟨List.mem_cons_self, rfl⟩, rfl⟩
    · exact ⟨d.entry, ⟨List.mem_cons_of_mem _ (List.mem_map_of_mem hd), rfl⟩,
        Option.map_eq_none_iff.mpr hparent⟩

theorem SymbolTable.foldl_push_entry (ds : List ClassDecl) (t : SymbolTable) :
    ds.foldl (fun t d => t.push d.entry) t = ⟨t.classes ++ ds.map ClassDecl.entry⟩ := by
  induction ds generalizing t with
  | nil => rw [List.foldl_nil, List.map_nil, List.append_nil]
  | cons d ds ih =>
    rw [List.foldl_cons, ih, push, List.append_assoc, List.map_cons, List.singleton_append]

/-- Classes are declared in a row behind the main class exactly if all names are distinct, the own
declarations of each class keep their rules, and parents come before their children. -/
theorem SymbolTable.declareClasses_result_iff {main : MainClass} {ds : List ClassDecl}
    {t : SymbolTable} :
    (ds.foldlM SymbolTable.declare ⟨[main.entry]⟩).result = .ok t ↔
      ((main.name.name :: ds.map (·.name.name)).Nodup ∧ (∀ d ∈ ds, d.Declarable) ∧
        ∀ before d after, ds = before ++ d :: after → ∀ parent, d.parent = some parent →
          parent.name = main.name.name ∨
            ∃ e ∈ before, e.name.name = parent.name ∧ e.parent = none) ∧
        t = ⟨main.entry :: ds.map ClassDecl.entry⟩ := by
  have hinit : [main.name.name].Nodup := by simp
  have hnodup := nodup_append_map_iff (f := fun d : ClassDecl => d.name.name) hinit (l := ds)
  have hmap : ∀ before : List ClassDecl,
      ([main.entry] ++ before.map ClassDecl.entry).map ClassEntry.name =
        [main.name.name] ++ before.map (·.name.name) := by
    intro before
    rw [List.map_append, List.map_map]
    rfl
  -- the names before a place are distinct if all names are
  have hbefore : ∀ before d after, ds = before ++ d :: after →
      (main.name.name :: ds.map (·.name.name)).Nodup →
      (main.name.name :: before.map (·.name.name)).Nodup := by
    rintro before d after rfl h
    rw [List.map_append, ← List.cons_append] at h
    exact (List.nodup_append.mp h).1
  rw [Analysis.result_foldlM, foldlM_eq_ok_iff (fun _ _ _ => SymbolTable.declare_result_iff),
    foldl_push_entry, forall_places_and_iff]
  simp only [foldl_push_entry, hmap]
  refine and_congr_left fun _ => ⟨fun ⟨hplaces, heach⟩ => ?_, fun ⟨hnames, heach, hparents⟩ => ?_⟩
  · have hnames := hnodup.mpr fun before d after heq => (hplaces before d after heq).1
    refine ⟨hnames, heach, fun before d after heq parent hparent => ?_⟩
    exact (exists_parent_iff (hbefore before d after heq hnames)).mp
      ((hplaces before d after heq).2 parent hparent)
  · refine ⟨fun before d after heq => ⟨hnodup.mp hnames before d after heq, ?_⟩, heach⟩
    intro parent hparent
    exact (exists_parent_iff (hbefore before d after heq hnames)).mpr
      (hparents before d after heq parent hparent)

/-- A program that can be declared keeps the rules for declarations, and its table is read off
them. -/
theorem Program.declarable_of_declare {p : Program} {t : SymbolTable}
    (h : p.declare.result = .ok t) : p.Declarable ∧ t = p.table := by
  simp only [Program.declare, Analysis.result_bind, Analysis.result_note, Analysis.result_pure,
    ok_bind, bind_eq_ok_iff, MainClass.declare_result_iff] at h
  obtain ⟨main, ⟨hlocals, rfl⟩, t', ht, h⟩ := h
  obtain rfl := Except.ok.inj h
  obtain ⟨⟨hnames, heach, hparents⟩, rfl⟩ := SymbolTable.declareClasses_result_iff.mp ht
  exact ⟨⟨hlocals, hnames, heach, hparents⟩, rfl⟩

/-- **The declaration pass is exact.** A program can be declared exactly if its declarations keep
the rules, and the table is the one that is read off them. -/
theorem declare_exact (p : Program) (t : SymbolTable) :
    p.declare.result = .ok t ↔ p.Declarable ∧ t = p.table := by
  refine ⟨Program.declarable_of_declare, ?_⟩
  rintro ⟨hp, rfl⟩
  simp only [Program.declare, Analysis.result_bind, Analysis.result_note, Analysis.result_pure,
    ok_bind, bind_eq_ok_iff, MainClass.declare_result_iff]
  exact ⟨p.main.entry, ⟨hp.mainLocals, rfl⟩, p.table,
    SymbolTable.declareClasses_result_iff.mpr ⟨⟨hp.classes, hp.eachClass, hp.parents⟩, rfl⟩, rfl⟩

end MiniJava
