import MiniJava.Analysis.Nodes
import MiniJava.Program.Derivation
import MiniJava.Program.Spans

/-!
# The spans in a program that was read

Each span in a program is the span of a token or joins two spans in the program. So what holds of
the spans of the tokens, and passes to joined spans, holds of all spans in the program
(`Program.ReadFrom.forall_mem_spans`).

What holds of the spans in a program also holds of those in its nodes
(`Program.HasNode.forall_mem_spans`).
-/

namespace MiniJava

/-! ### Spans of what was read -/

/-- The property passes to joined spans. -/
def MergeClosed (P : Span → Prop) : Prop :=
  ∀ a b, P a → P b → P (a.merge b)

section

variable {P : Span → Prop}

theorem lastSpan_of_forall {ts : List Token} {last : Span} (hlast : P last)
    (hts : ∀ t ∈ ts, P t.span) : P (lastSpan last ts) := by
  induction ts generalizing last with
  | nil => exact hlast
  | cons t ts ih =>
    obtain ⟨ht, hts⟩ := List.forall_mem_cons.mp hts
    exact ih ht hts

theorem ReadAll.forall_mem_spans {α : Type} {R : α → List Token → Prop} {spans : α → List Span}
    {as : List α} {ts : List Token} (h : ReadAll R as ts) (hts : ∀ t ∈ ts, P t.span)
    (hR : ∀ a us, R a us → (∀ t ∈ us, P t.span) → ∀ s ∈ spans a, P s) :
    ∀ a ∈ as, ∀ s ∈ spans a, P s := by
  induction h with
  | nil => exact fun _ ha => nomatch ha
  | cons ha _ ih =>
    obtain ⟨hts, hus⟩ := List.forall_mem_append.mp hts
    exact List.forall_mem_cons.mpr ⟨hR _ _ ha hts, ih hus⟩

theorem TypeExpr.ReadFrom.span_of_forall (hmerge : MergeClosed P) {type : TypeExpr}
    {ts : List Token} (h : type.ReadFrom ts) (hts : ∀ t ∈ ts, P t.span) : P type.span := by
  cases h with
  | int | boolean | named => exact hts _ List.mem_cons_self
  | intArray =>
    simp only [List.forall_mem_cons] at hts
    exact hmerge _ _ hts.1 hts.2.2.1

mutual

theorem Expr.ReadFrom.forall_mem_spans (hmerge : MergeClosed P) : ∀ {e : Expr} {ts : List Token},
    e.ReadFrom ts → (∀ t ∈ ts, P t.span) → ∀ s ∈ e.spans, P s
  | _, _, .int _, hts | _, _, .bool, hts | _, _, .this, hts | _, _, .ident, hts => by
    simpa [Expr.spans, Ident.token] using hts
  | _, _, .newObject, hts => by
    simp only [List.forall_mem_cons] at hts
    simp only [Expr.spans, List.forall_mem_cons]
    exact ⟨hmerge _ _ hts.1 hts.2.2.2.1, hts.2.1, fun _ hs => nomatch hs⟩
  | _, _, .newArray h, hts => by
    simp only [List.forall_mem_cons, List.forall_mem_append] at hts
    obtain ⟨ha, -, -, hts, hd, -⟩ := hts
    rw [Expr.spans, List.forall_mem_cons]
    exact ⟨hmerge _ _ ha hd, h.forall_mem_spans hmerge hts⟩
  | _, _, .not _ h, hts => by
    obtain ⟨ha, hts⟩ := List.forall_mem_cons.mp hts
    have hoperand := h.forall_mem_spans hmerge hts
    rw [Expr.spans, List.forall_mem_cons]
    exact ⟨hmerge _ _ ha (hoperand _ (Expr.span_mem_spans _)), hoperand⟩
  | _, _, .paren h, hts => by
    simp only [List.forall_mem_cons, List.forall_mem_append] at hts
    obtain ⟨ha, hts, hb, -⟩ := hts
    rw [Expr.spans, List.forall_mem_cons]
    exact ⟨hmerge _ _ ha hb, h.forall_mem_spans hmerge hts⟩
  | _, _, .length _ h, hts => by
    simp only [List.forall_mem_cons, List.forall_mem_append] at hts
    obtain ⟨hts, -, hb, -⟩ := hts
    have harray := h.forall_mem_spans hmerge hts
    rw [Expr.spans, List.forall_mem_cons]
    exact ⟨hmerge _ _ (harray _ (Expr.span_mem_spans _)) hb, harray⟩
  | _, _, .binary _ _ hleft hright, hts => by
    simp only [List.forall_mem_cons, List.forall_mem_append] at hts
    obtain ⟨hts, -, hus⟩ := hts
    have hleft := hleft.forall_mem_spans hmerge hts
    have hright := hright.forall_mem_spans hmerge hus
    rw [Expr.spans, List.forall_mem_cons, List.forall_mem_append]
    exact ⟨hmerge _ _ (hleft _ (Expr.span_mem_spans _)) (hright _ (Expr.span_mem_spans _)),
      hleft, hright⟩
  | _, _, .index _ _ harray hposition, hts => by
    simp only [List.forall_mem_cons, List.forall_mem_append] at hts
    obtain ⟨hts, -, hus, hb, -⟩ := hts
    have harray := harray.forall_mem_spans hmerge hts
    rw [Expr.spans, List.forall_mem_cons, List.forall_mem_append]
    exact ⟨hmerge _ _ (harray _ (Expr.span_mem_spans _)) hb, harray,
      hposition.forall_mem_spans hmerge hus⟩
  | _, _, .send _ h hargs, hts => by
    simp only [List.forall_mem_cons, List.forall_mem_append] at hts
    obtain ⟨hts, -, hmethod, -, hus, hc, -⟩ := hts
    have hreceiver := h.forall_mem_spans hmerge hts
    rw [Expr.spans, List.forall_mem_cons, List.forall_mem_append, List.forall_mem_cons]
    exact ⟨hmerge _ _ (hreceiver _ (Expr.span_mem_spans _)) hc, hreceiver, hmethod,
      hargs.forall_mem_spans hmerge hus⟩

theorem Expr.ArgsReadFrom.forall_mem_spans (hmerge : MergeClosed P) :
    ∀ {args : List Expr} {ts : List Token}, Expr.ArgsReadFrom args ts →
      (∀ t ∈ ts, P t.span) → ∀ s ∈ Expr.allSpans args, P s
  | _, _, .nil, _ => fun _ hs => nomatch hs
  | _, _, .one h, hts => by
    rw [Expr.allSpans, Expr.allSpans, List.append_nil]
    exact h.forall_mem_spans hmerge hts
  | _, _, .cons h hmore, hts => by
    simp only [List.forall_mem_cons, List.forall_mem_append] at hts
    rw [Expr.allSpans, List.forall_mem_append]
    exact ⟨h.forall_mem_spans hmerge hts.1, hmore.forall_mem_spans hmerge hts.2.2⟩

end

mutual

theorem Stmt.ReadFrom.forall_mem_spans (hmerge : MergeClosed P) :
    ∀ {stmt : Stmt} {ts : List Token}, stmt.ReadFrom ts →
      (∀ t ∈ ts, P t.span) → ∀ s ∈ stmt.spans, P s
  | _, _, .block h, hts => by
    simp only [List.forall_mem_cons, List.forall_mem_append] at hts
    obtain ⟨ha, hts, hb, -⟩ := hts
    rw [Stmt.spans, List.forall_mem_cons]
    exact ⟨hmerge _ _ ha hb, h.forall_mem_spans hmerge hts⟩
  | _, _, .assign h, hts => by
    simp only [List.forall_mem_cons, List.forall_mem_append] at hts
    obtain ⟨htarget, -, hts, hb, -⟩ := hts
    rw [Stmt.spans, List.forall_mem_cons, List.forall_mem_cons]
    exact ⟨hmerge _ _ htarget hb, htarget, h.forall_mem_spans hmerge hts⟩
  | _, _, .arrayAssign hposition hvalue, hts => by
    simp only [List.forall_mem_cons, List.forall_mem_append] at hts
    obtain ⟨htarget, -, hts, -, -, hus, hd, -⟩ := hts
    rw [Stmt.spans, List.forall_mem_cons, List.forall_mem_cons, List.forall_mem_append]
    exact ⟨hmerge _ _ htarget hd, htarget, hposition.forall_mem_spans hmerge hts,
      hvalue.forall_mem_spans hmerge hus⟩
  | _, _, .ifElse hcond hthen helse, hts => by
    simp only [List.forall_mem_cons, List.forall_mem_append] at hts
    obtain ⟨ha, -, hts, -, hus, hd, hvs⟩ := hts
    rw [Stmt.spans, List.forall_mem_cons, List.forall_mem_append, List.forall_mem_append]
    exact ⟨hmerge _ _ ha (lastSpan_of_forall hd hvs), hcond.forall_mem_spans hmerge hts,
      hthen.forall_mem_spans hmerge hus, helse.forall_mem_spans hmerge hvs⟩
  | _, _, .whileLoop hcond hbody, hts => by
    simp only [List.forall_mem_cons, List.forall_mem_append] at hts
    obtain ⟨ha, -, hts, hc, hus⟩ := hts
    rw [Stmt.spans, List.forall_mem_cons, List.forall_mem_append]
    exact ⟨hmerge _ _ ha (lastSpan_of_forall hc hus), hcond.forall_mem_spans hmerge hts,
      hbody.forall_mem_spans hmerge hus⟩
  | _, _, .print h, hts => by
    simp only [List.forall_mem_cons, List.forall_mem_append] at hts
    obtain ⟨ha, -, -, -, -, -, hts, -, hh, -⟩ := hts
    rw [Stmt.spans, List.forall_mem_cons]
    exact ⟨hmerge _ _ ha hh, h.forall_mem_spans hmerge hts⟩

theorem Stmt.AllReadFrom.forall_mem_spans (hmerge : MergeClosed P) :
    ∀ {body : List Stmt} {ts : List Token}, Stmt.AllReadFrom body ts →
      (∀ t ∈ ts, P t.span) → ∀ s ∈ Stmt.allSpans body, P s
  | _, _, .nil, _ => fun _ hs => nomatch hs
  | _, _, .cons h hmore, hts => by
    obtain ⟨hts, hus⟩ := List.forall_mem_append.mp hts
    rw [Stmt.allSpans, List.forall_mem_append]
    exact ⟨h.forall_mem_spans hmerge hts, hmore.forall_mem_spans hmerge hus⟩

end

theorem VarDecl.ReadFrom.forall_mem_spans (hmerge : MergeClosed P) {d : VarDecl}
    {ts : List Token} (h : d.ReadFrom ts)
    (hts : ∀ t ∈ ts, P t.span) : ∀ s ∈ d.spans, P s := by
  obtain ⟨htype⟩ := h
  simp only [List.forall_mem_cons, List.forall_mem_append] at hts
  obtain ⟨hts, hname, ha, -⟩ := hts
  have htype := htype.span_of_forall hmerge hts
  exact VarDecl.forall_mem_spans_iff.mpr ⟨hmerge _ _ htype ha, htype, hname⟩

theorem VarDecl.ParamReadFrom.forall_mem_spans (hmerge : MergeClosed P) {d : VarDecl}
    {ts : List Token} (h : d.ParamReadFrom ts) (hts : ∀ t ∈ ts, P t.span) : ∀ s ∈ d.spans, P s := by
  obtain ⟨htype⟩ := h
  simp only [List.forall_mem_cons, List.forall_mem_append] at hts
  obtain ⟨hts, hname, -⟩ := hts
  have htype := htype.span_of_forall hmerge hts
  exact VarDecl.forall_mem_spans_iff.mpr ⟨hmerge _ _ htype hname, htype, hname⟩

theorem VarDecl.ParamsReadFrom.forall_mem_spans (hmerge : MergeClosed P) {ds : List VarDecl}
    {ts : List Token} (h : VarDecl.ParamsReadFrom ds ts) (hts : ∀ t ∈ ts, P t.span) :
    ∀ d ∈ ds, ∀ s ∈ d.spans, P s := by
  induction h with
  | nil => exact fun _ hd => nomatch hd
  | one h =>
    rw [List.forall_mem_singleton]
    exact h.forall_mem_spans hmerge hts
  | cons h _ ih =>
    simp only [List.forall_mem_cons, List.forall_mem_append] at hts
    rw [List.forall_mem_cons]
    exact ⟨h.forall_mem_spans hmerge hts.1, ih hts.2.2⟩

theorem MethodDecl.ReadFrom.forall_mem_spans (hmerge : MergeClosed P) {d : MethodDecl}
    {ts : List Token} (h : d.ReadFrom ts) (hts : ∀ t ∈ ts, P t.span) : ∀ s ∈ d.spans, P s := by
  obtain ⟨hreturns, hparams, hvars, hbody, hresult⟩ := h
  simp only [List.forall_mem_cons, List.forall_mem_append] at hts
  obtain ⟨ha, hts, hname, -, hus, -, -, hvs, hws, -, hxs, -, hg, -⟩ := hts
  exact MethodDecl.forall_mem_spans_iff.mpr ⟨hmerge _ _ ha hg,
    hreturns.span_of_forall hmerge hts, hname, hparams.forall_mem_spans hmerge hus,
    hvars.forall_mem_spans hvs fun _ _ hd => hd.forall_mem_spans hmerge,
    hbody.forall_mem_spans hmerge hws, hresult.forall_mem_spans hmerge hxs⟩

theorem ClassDecl.span_of_parentReadFrom {parent : Option Ident} {ts : List Token}
    (h : ClassDecl.ParentReadFrom parent ts) (hts : ∀ t ∈ ts, P t.span) :
    ∀ i, parent = some i → P i.span := by
  rintro i rfl
  cases h with
  | some => exact hts i.token (List.mem_cons_of_mem _ List.mem_cons_self)

theorem ClassDecl.ReadFrom.forall_mem_spans (hmerge : MergeClosed P) {d : ClassDecl}
    {ts : List Token} (h : d.ReadFrom ts)
    (hts : ∀ t ∈ ts, P t.span) : ∀ s ∈ d.spans, P s := by
  obtain ⟨hparent, hfields, hmethods⟩ := h
  simp only [List.forall_mem_cons, List.forall_mem_append] at hts
  obtain ⟨ha, hname, hts, -, hus, hvs, hc, -⟩ := hts
  exact ClassDecl.forall_mem_spans_iff.mpr ⟨hmerge _ _ ha hc, hname,
    span_of_parentReadFrom hparent hts,
    hfields.forall_mem_spans hus fun _ _ hd => hd.forall_mem_spans hmerge,
    hmethods.forall_mem_spans hvs fun _ _ hm => hm.forall_mem_spans hmerge⟩

theorem MainClass.ReadFrom.forall_mem_spans (hmerge : MergeClosed P) {d : MainClass}
    {ts : List Token} (h : d.ReadFrom ts)
    (hts : ∀ t ∈ ts, P t.span) : ∀ s ∈ d.spans, P s := by
  obtain ⟨hvars, hbody⟩ := h
  simp only [List.forall_mem_cons, List.forall_mem_append] at hts
  obtain ⟨ha, hname, -, -, -, -, -, -, -, -, -, hargs, -, -, hts, hus, -, hn, -⟩ := hts
  exact MainClass.forall_mem_spans_iff.mpr ⟨hmerge _ _ ha hn, hname, hargs,
    hvars.forall_mem_spans hts fun _ _ hd => hd.forall_mem_spans hmerge,
    hbody.forall_mem_spans hmerge hus⟩

/-- What holds of the spans of the tokens of a program, and passes to joined spans, holds of all
spans in the program. -/
theorem Program.ReadFrom.forall_mem_spans (hmerge : MergeClosed P) {p : Program}
    {ts : List Token} (h : p.ReadFrom ts)
    (hts : ∀ t ∈ ts, P t.span) : ∀ s ∈ p.spans, P s := by
  obtain ⟨hmain, hclasses⟩ := h
  obtain ⟨hts, hus⟩ := List.forall_mem_append.mp hts
  exact Program.forall_mem_spans_iff.mpr ⟨hmain.forall_mem_spans hmerge hts,
    hclasses.forall_mem_spans hus fun _ _ hd => hd.forall_mem_spans hmerge⟩

end

/-! ### Spans of nodes -/

/-- The spans in a node. -/
def Node.spans : Node → List Span
  | .expr e => e.spans
  | .stmt s => s.spans
  | .var d => d.spans
  | .method d => d.spans

section

variable {P : Span → Prop}

theorem Expr.forall_mem_spans_of_parts {e : Expr} (h : ∀ s ∈ e.spans, P s) :
    ∀ part ∈ e.parts, ∀ s ∈ part.spans, P s := by
  cases e <;> simp only [Expr.parts, Expr.spans, List.forall_mem_cons, List.forall_mem_append,
    Expr.forall_mem_allSpans_iff] at h ⊢ <;> grind

theorem Stmt.forall_mem_spans_of_exprs {stmt : Stmt} (h : ∀ s ∈ stmt.spans, P s) :
    ∀ e ∈ stmt.exprs, ∀ s ∈ e.spans, P s := by
  cases stmt <;> simp only [Stmt.exprs, Stmt.spans, List.forall_mem_cons,
    List.forall_mem_append] at h ⊢ <;> grind

theorem Stmt.forall_mem_spans_of_stmts {stmt : Stmt} (h : ∀ s ∈ stmt.spans, P s) :
    ∀ part ∈ stmt.stmts, ∀ s ∈ part.spans, P s := by
  cases stmt <;> simp only [Stmt.stmts, Stmt.spans, List.forall_mem_cons, List.forall_mem_append,
    Stmt.forall_mem_allSpans_iff] at h ⊢ <;> grind

theorem Node.forall_mem_spans_of_parts {whole : Node} (h : ∀ s ∈ whole.spans, P s) :
    ∀ n ∈ whole.parts, ∀ s ∈ n.spans, P s := by
  cases whole with
  | expr e =>
    rw [Node.parts, List.forall_mem_map]
    exact Expr.forall_mem_spans_of_parts h
  | stmt stmt =>
    rw [Node.parts, List.forall_mem_append, List.forall_mem_map, List.forall_mem_map]
    exact ⟨Stmt.forall_mem_spans_of_exprs h, Stmt.forall_mem_spans_of_stmts h⟩
  | var d => exact fun _ hn => nomatch hn
  | method d =>
    obtain ⟨-, -, -, -, hvars, hbody, hresult⟩ := MethodDecl.forall_mem_spans_iff.mp h
    rw [Node.parts, List.forall_mem_append, List.forall_mem_append, List.forall_mem_map,
      List.forall_mem_map, List.forall_mem_singleton]
    exact ⟨⟨hvars, Stmt.forall_mem_allSpans_iff.mp hbody⟩, hresult⟩

/-- What holds of the spans in a program holds of those in each of its nodes. -/
theorem Program.HasNode.forall_mem_spans {p : Program} {scope : Scope} {n : Node}
    (h : p.HasNode scope n) (hp : ∀ s ∈ p.spans, P s) : ∀ s ∈ n.spans, P s := by
  obtain ⟨hmain, hclasses⟩ := Program.forall_mem_spans_iff.mp hp
  obtain ⟨-, -, -, hvars, hbody⟩ := MainClass.forall_mem_spans_iff.mp hmain
  induction h with
  | mainVar hd => exact hvars _ hd
  | mainStmt hstmt => exact Stmt.forall_mem_allSpans_iff.mp hbody _ hstmt
  | field hc hd => exact (ClassDecl.forall_mem_spans_iff.mp (hclasses _ hc)).2.2.2.1 _ hd
  | method hc hm => exact (ClassDecl.forall_mem_spans_iff.mp (hclasses _ hc)).2.2.2.2 _ hm
  | part _ hn ih => exact Node.forall_mem_spans_of_parts ih _ hn

end

end MiniJava
