import MiniJava.Proofs.ClassOrder

/-!
# Programs with one more class

A class that comes last in a program, and whose name is used nowhere before, changes nothing in what
comes before it. All types that arise in the program are named by names that are written in it
(`HasType.within`), and under these names the table with one more class has the same entries
(`Program.agreeOn_addClass`).
-/

namespace MiniJava

/-- The program with one more class behind the others. -/
def Program.addClass (p : Program) (d : ClassDecl) : Program :=
  { p with classes := p.classes ++ [d] }

/-! ### Entries mention written names only -/

section

variable {N : String → Prop}

theorem TypeExpr.denote_within {type : TypeExpr} (h : ∀ x ∈ type.names, N x) :
    type.denote.Within N := by
  cases type with
  | named name =>
    rintro _ ⟨⟩
    exact h _ (List.mem_singleton_self _)
  | _ => rintro _ ⟨⟩

theorem VarDecl.variables_within {ds : List VarDecl} (h : ∀ d ∈ ds, ∀ x ∈ d.names, N x) :
    VariablesWithin N (ds.map VarDecl.toVariable) := by
  intro v hv
  obtain ⟨d, hd, rfl⟩ := List.mem_map.mp hv
  exact TypeExpr.denote_within fun x hx => h d hd x (List.mem_cons_of_mem _ hx)

theorem MethodDecl.entry_within {d : MethodDecl} (h : ∀ x ∈ d.names, N x) : d.entry.Within N := by
  obtain ⟨-, hreturns, hparams, hvars, -, -⟩ := MethodDecl.forall_mem_names_iff.mp h
  exact ⟨TypeExpr.denote_within hreturns, VarDecl.variables_within hparams,
    VarDecl.variables_within hvars⟩

theorem ClassDecl.entry_within {d : ClassDecl} (h : ∀ x ∈ d.names, N x) : d.entry.Within N := by
  obtain ⟨hname, hparent, hfields, hmethods⟩ := ClassDecl.forall_mem_names_iff.mp h
  refine ⟨hname, fun parent hp => ?_, VarDecl.variables_within hfields, fun m hm => ?_⟩
  · obtain ⟨i, hi, rfl⟩ := Option.map_eq_some_iff.mp hp
    exact hparent i hi
  · obtain ⟨d', hd', rfl⟩ := List.mem_map.mp hm
    exact MethodDecl.entry_within (hmethods d' hd')

theorem MainClass.methodEntry_within {d : MainClass} (h : ∀ x ∈ d.names, N x) :
    d.methodEntry.Within N := by
  obtain ⟨-, -, hvars, -⟩ := MainClass.forall_mem_names_iff.mp h
  refine ⟨by rintro _ ⟨⟩, fun v hv => ?_, VarDecl.variables_within hvars⟩
  obtain rfl := List.mem_singleton.mp hv
  rintro _ ⟨⟩

theorem MainClass.entry_within {d : MainClass} (h : ∀ x ∈ d.names, N x) : d.entry.Within N := by
  refine ⟨h _ List.mem_cons_self, by rintro _ ⟨⟩, by rintro _ ⟨⟩, fun m hm => ?_⟩
  obtain rfl := List.mem_singleton.mp hm
  exact MainClass.methodEntry_within h

theorem Program.table_within {p : Program} (h : ∀ x ∈ p.names, N x) :
    ∀ c ∈ p.table.classes, c.Within N := by
  obtain ⟨hmain, hclasses⟩ := Program.forall_mem_names_iff.mp h
  intro c hc
  rcases List.mem_cons.mp hc with rfl | hc
  · exact MainClass.entry_within hmain
  · obtain ⟨d, hd, rfl⟩ := List.mem_map.mp hc
    exact ClassDecl.entry_within (hclasses d hd)

end

/-! ### Names of nodes -/

/-- The names in a node. -/
def Node.names : Node → List String
  | .expr e => e.names
  | .stmt s => s.names
  | .var d => d.names
  | .method d => d.names

theorem Expr.mem_allNames_iff {es : List Expr} {x : String} :
    x ∈ Expr.allNames es ↔ ∃ e ∈ es, x ∈ e.names := by
  induction es with
  | nil => simp [Expr.allNames]
  | cons e es ih => simp [Expr.allNames, ih]

theorem Stmt.mem_allNames_iff {body : List Stmt} {x : String} :
    x ∈ Stmt.allNames body ↔ ∃ stmt ∈ body, x ∈ stmt.names := by
  induction body with
  | nil => simp [Stmt.allNames]
  | cons stmt body ih => simp [Stmt.allNames, ih]

theorem Expr.names_subset_of_mem_parts {e part : Expr} (h : part ∈ e.parts) :
    part.names ⊆ e.names := by
  cases e with
  | int | bool | ident | this | newObject => exact absurd h List.not_mem_nil
  | not | length | newArray | paren =>
    obtain rfl := List.mem_singleton.mp h
    simp [Expr.names]
  | binary | index =>
    simp only [Expr.parts, List.mem_cons, List.not_mem_nil, or_false] at h
    rcases h with rfl | rfl <;> simp [Expr.names]
  | send _ receiver method args =>
    rcases List.mem_cons.mp h with rfl | h
    · simp [Expr.names]
    · intro x hx
      simp only [Expr.names, List.mem_append, List.mem_cons]
      exact .inr (.inr (Expr.mem_allNames_iff.mpr ⟨part, h, hx⟩))

theorem Stmt.names_subset_of_mem_exprs {stmt : Stmt} {e : Expr} (h : e ∈ stmt.exprs) :
    e.names ⊆ stmt.names := by
  cases stmt with
  | block => exact absurd h List.not_mem_nil
  | assign | ifElse | whileLoop | print =>
    obtain rfl := List.mem_singleton.mp h
    simp [Stmt.names]
  | arrayAssign =>
    simp only [Stmt.exprs, List.mem_cons, List.not_mem_nil, or_false] at h
    rcases h with rfl | rfl <;> exact fun x hx => by simp [Stmt.names, hx]

theorem Stmt.names_subset_of_mem_stmts {stmt part : Stmt} (h : part ∈ stmt.stmts) :
    part.names ⊆ stmt.names := by
  cases stmt with
  | assign | arrayAssign | print => exact absurd h List.not_mem_nil
  | block _ body => exact fun x hx => Stmt.mem_allNames_iff.mpr ⟨part, h, hx⟩
  | whileLoop =>
    obtain rfl := List.mem_singleton.mp h
    simp [Stmt.names]
  | ifElse =>
    simp only [Stmt.stmts, List.mem_cons, List.not_mem_nil, or_false] at h
    rcases h with rfl | rfl <;> exact fun x hx => by simp [Stmt.names, hx]

theorem Node.names_subset_of_mem_parts {n part : Node} (h : part ∈ n.parts) :
    part.names ⊆ n.names := by
  cases n with
  | expr e =>
    obtain ⟨inner, hinner, rfl⟩ := List.mem_map.mp h
    exact Expr.names_subset_of_mem_parts hinner
  | stmt s =>
    rcases List.mem_append.mp h with h | h
    · obtain ⟨inner, hinner, rfl⟩ := List.mem_map.mp h
      exact Stmt.names_subset_of_mem_exprs hinner
    · obtain ⟨inner, hinner, rfl⟩ := List.mem_map.mp h
      exact Stmt.names_subset_of_mem_stmts hinner
  | var d => exact absurd h List.not_mem_nil
  | method d =>
    simp only [Node.parts, List.mem_append, List.mem_map, List.mem_singleton] at h
    intro x hx
    simp only [Node.names, MethodDecl.names, List.mem_cons, List.mem_append]
    rcases h with (⟨v, hv, rfl⟩ | ⟨stmt, hstmt, rfl⟩) | rfl
    · exact .inr (.inl (.inl (.inr (List.mem_flatMap.mpr ⟨v, hv, hx⟩))))
    · exact .inr (.inl (.inr (Stmt.mem_allNames_iff.mpr ⟨stmt, hstmt, hx⟩)))
    · exact .inr (.inr hx)

/-- The scope around a node and the node itself mention names of the program only. -/
theorem Program.HasNode.within {N : String → Prop} {p : Program} (hN : ∀ x ∈ p.names, N x)
    {s : Scope} {n : Node} (h : p.HasNode s n) : s.Within N ∧ ∀ x ∈ n.names, N x := by
  obtain ⟨hmain, hclasses⟩ := Program.forall_mem_names_iff.mp hN
  have hmainScope : p.main.scope.Within N :=
    ⟨by rintro _ ⟨⟩; exact MainClass.entry_within hmain,
      by rintro _ ⟨⟩; exact MainClass.methodEntry_within hmain⟩
  obtain ⟨-, -, hvars, hbody⟩ := MainClass.forall_mem_names_iff.mp hmain
  -- the scope stays the same on the way down to a part, and names only get fewer
  induction h with
  | mainVar hd => exact ⟨hmainScope, hvars _ hd⟩
  | mainStmt hstmt =>
    exact ⟨hmainScope, fun x hx => hbody x (Stmt.mem_allNames_iff.mpr ⟨_, hstmt, hx⟩)⟩
  | field hc hd =>
    obtain ⟨-, -, hfields, -⟩ := ClassDecl.forall_mem_names_iff.mp (hclasses _ hc)
    exact ⟨⟨by rintro _ ⟨⟩; exact ClassDecl.entry_within (hclasses _ hc), by rintro _ ⟨⟩⟩,
      hfields _ hd⟩
  | method hc hm =>
    obtain ⟨-, -, -, hmethods⟩ := ClassDecl.forall_mem_names_iff.mp (hclasses _ hc)
    exact ⟨⟨by rintro _ ⟨⟩; exact ClassDecl.entry_within (hclasses _ hc),
      by rintro _ ⟨⟩; exact MethodDecl.entry_within (hmethods _ hm)⟩, hmethods _ hm⟩
  | part _ hpart ih =>
    exact ⟨ih.1, fun x hx => ih.2 x (Node.names_subset_of_mem_parts hpart hx)⟩

/-! ### The table and the check of the longer program -/

section

variable {p : Program} {d : ClassDecl} {t : SymbolTable}

theorem Program.table_addClass (p : Program) (d : ClassDecl) :
    (p.addClass d).table = p.table.push d.entry := by
  simp [Program.table, Program.addClass, SymbolTable.push]

/-- What is declared before the last class does not depend on it. -/
theorem Program.declare_of_addClass {t' : SymbolTable}
    (h : (p.addClass d).declare.result = .ok t') : p.declare.result = .ok p.table := by
  simp only [Program.declare, Program.addClass, List.foldlM_append, Analysis.result_bind,
    Analysis.result_note, Analysis.result_pure, ok_bind, bind_eq_ok_iff] at h
  obtain ⟨main, hmain, _, ⟨t, ht, -⟩, -⟩ := h
  have hdeclare : p.declare.result = .ok t := by
    simp only [Program.declare, Analysis.result_bind, Analysis.result_note, Analysis.result_pure,
      ok_bind, hmain, ht]
  rw [hdeclare, (Program.declarable_of_declare hdeclare).2]

theorem Program.agreeOn_addClass (hfresh : d.name.name ∉ p.names) :
    p.table.AgreeOn (· ≠ d.name.name) (p.addClass d).table where
  get?_eq x hx := by
    rw [p.table_addClass d]
    exact (SymbolTable.get?_push hx).symm
  within x c _ hc :=
    Program.table_within (fun _ hx => ne_of_mem_of_not_mem hx hfresh) c
      (List.mem_of_find?_eq_some hc)

theorem Program.result_check_addClass (p : Program) (d : ClassDecl) (t : SymbolTable) :
    ((p.addClass d).check t).result = (p.check t).result >>= fun _ => (d.check t).result := by
  have hend (x : Except SemanticError Unit) : (x >>= fun _ => Except.ok ()) = x := bind_pure_unit
  simp only [Program.check, Program.addClass, List.forM_eq_forM, List.forM_append, List.forM_cons,
    List.forM_nil, Analysis.result_bind, Analysis.result_note, Analysis.result_pure, ok_bind,
    bind_assoc, hend]

theorem Program.result_analyze (h : p.declare.result = .ok t) :
    p.analyze.result = (p.check t).result.map fun _ => t := by
  simp only [Program.analyze, Analysis.result_bind, h, ok_bind, Analysis.result_pure]
  cases (p.check t).result <;> rfl

end

/-- **A class with a fresh name changes nothing before it.** If the program with the class can be
declared, then so can the program without it, and its table lacks the last entry only. Its classes
have the same layouts in both tables and its expressions the same checks. An error in the program is
the error of the longer program, and where there is none, the check of the class alone decides. -/
theorem fresh_class_conservative {p : Program} {d : ClassDecl} {t' : SymbolTable}
    (hfresh : d.name.name ∉ p.names) (ht' : (p.addClass d).declare.result = .ok t') :
    ∃ t, p.declare.result = .ok t ∧ t'.classes = t.classes ++ [d.entry] ∧
      (∀ c ∈ t.classes, t'.layout? c.name = t.layout? c.name ∧
        ClassLayout.ofClass t' c = ClassLayout.ofClass t c) ∧
      (∀ s e, p.HasNode s (.expr e) → e.check t' s = e.check t s) ∧
      (∀ error, p.analyze.result = .error error → (p.addClass d).analyze.result = .error error) ∧
      (∀ done, p.analyze.result = .ok done →
        (p.addClass d).analyze.result = (d.check t').result.map fun _ => t') := by
  have hN : ∀ x ∈ p.names, x ≠ d.name.name := fun _ hx => ne_of_mem_of_not_mem hx hfresh
  have ht : p.declare.result = .ok p.table := Program.declare_of_addClass ht'
  have hagree : p.table.AgreeOn (· ≠ d.name.name) (p.addClass d).table :=
    Program.agreeOn_addClass hfresh
  obtain ⟨-, rfl⟩ := Program.declarable_of_declare ht'
  have hparent : ∀ c ∈ p.table.classes, (p.addClass d).table.parentOf? c = p.table.parentOf? c :=
    fun c hc => (hagree.parentOf?_eq (Program.table_within hN c hc)).symm
  -- the new class is checked last, and what is checked before does not see it
  have hanalyze : (p.addClass d).analyze.result =
      ((p.check p.table).result >>= fun _ => (d.check (p.addClass d).table).result).map
        fun _ => (p.addClass d).table := by
    rw [Program.result_analyze ht', Program.result_check_addClass, Program.check_congr hagree hN]
  refine ⟨p.table, ht, ?_, fun c hc => ⟨?_, ClassLayout.ofClass_congr (hparent c hc)⟩, ?_, ?_, ?_⟩
  · rw [p.table_addClass d]
    rfl
  · have hname : c.name ≠ d.name.name := (Program.table_within hN c hc).name
    exact SymbolTable.layout?_congr (hagree.get?_eq _ hname).symm fun c' hc' =>
      hparent c' (List.mem_of_find?_eq_some hc')
  · intro s e he
    obtain ⟨hs, hnames⟩ := he.within hN
    exact (Expr.check_congr hagree hs e hnames).symm
  · intro error herror
    rw [Program.result_analyze ht] at herror
    rw [hanalyze]
    cases hcheck : (p.check p.table).result with
    | error e => rwa [hcheck] at herror
    | ok _ => simp [hcheck, Except.map] at herror
  · intro done hdone
    rw [Program.result_analyze ht, map_eq_ok_iff] at hdone
    obtain ⟨_, hcheck, -⟩ := hdone
    rw [hanalyze, hcheck, ok_bind]

/-- A class that inherits the field `next`, but calls a method of its parent as its own. -/
def eagerChild : ClassDecl :=
  let name (x : String) : Ident := ⟨x, default⟩
  ⟨name "C", some (name "A"), [⟨.named (name "B"), name "other", default⟩],
    [⟨.named (name "B"), name "run", [], [], [.assign default (name "next") (.ident (name "other"))],
      .send default (.this default) (name "make") [], default⟩], default⟩

theorem fresh_class_conservative_eagerChild :
    "C" ∉ (mutualClasses false).names ∧
      ((mutualClasses false).addClass eagerChild).declare.result =
        .ok ((mutualClasses false).addClass eagerChild).table ∧
      (mutualClasses false).analyze.result = .ok (mutualClasses false).table ∧
      ((mutualClasses false).addClass eagerChild).table.classes =
        (mutualClasses false).table.classes ++ [eagerChild.entry] ∧
      (∀ s e, (mutualClasses false).HasNode s (.expr e) →
        e.check ((mutualClasses false).addClass eagerChild).table s =
          e.check (mutualClasses false).table s) ∧
      ((mutualClasses false).addClass eagerChild).analyze.result =
        .error ⟨.unresolvedIdentifier "make", default⟩ := by
  have hfresh : eagerChild.name.name ∉ (mutualClasses false).names := by decide
  obtain ⟨t, ht, hclasses, -, hexpr, -, hok⟩ := fresh_class_conservative hfresh rfl
  obtain rfl : (mutualClasses false).table = t := Except.ok.inj ht
  exact ⟨hfresh, rfl, rfl, hclasses, hexpr, (hok _ rfl).trans rfl⟩

end MiniJava
