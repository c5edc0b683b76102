import MiniJava.Program.Phrases
import MiniJava.Program.Spans
import MiniJava.Proofs.ParserCompleteness
import MiniJava.Proofs.ParserSoundness
import MiniJava.Proofs.TokenRows

/-!
# The spans of phrases are exact

The reader of each form joins spans in a way of its own, but since the tokens of a text lie in a row,
each phrase has the span from its first token to its last one (`Phrase.ReadFrom.span_eq`). The tokens
of the items of a phrase follow each other (`Phrase.ReadFrom.readAll_items`), and hence so do the
spans of the phrases inside of it (`ReadAll.inside`, `ReadAll.inOrder`). Every span in a program is
that of one of its phrases (`Program.exists_phraseAt`).
-/

namespace MiniJava

/-! ### Phrases and their tokens -/

/-- A phrase and its tokens. -/
def Phrase.ReadFrom : Phrase → List Token → Prop
  | main d => d.ReadFrom
  | cls d => d.ReadFrom
  | method d => d.ReadFrom
  | var d => d.ReadFrom
  | param d => d.ParamReadFrom
  | type t => t.ReadFrom
  | ident i => (· = [i.token])
  | stmt s => s.ReadFrom
  | expr e => e.ReadFrom

/-- An item and its tokens. -/
def Item.ReadFrom : Item → List Token → Prop
  | token k => fun ts => ∃ t, ts = [t] ∧ t.kind.canonical = k
  | phrase q => q.ReadFrom

theorem Phrase.ReadFrom.kinds_eq {q : Phrase} {ts : List Token} (h : q.ReadFrom ts) :
    canonicalKinds ts = q.kinds := by
  cases q with
  | main d => exact MainClass.ReadFrom.kinds_eq h
  | cls d => exact ClassDecl.ReadFrom.kinds_eq h
  | method d => exact MethodDecl.ReadFrom.kinds_eq h
  | var d => exact VarDecl.ReadFrom.kinds_eq h
  | param d => exact VarDecl.ParamReadFrom.kinds_eq h
  | type t => exact TypeExpr.ReadFrom.kinds_eq h
  | ident i =>
    obtain rfl : ts = [i.token] := h
    rfl
  | stmt s => exact Stmt.ReadFrom.kinds_eq h
  | expr e => exact Expr.ReadFrom.kinds_eq h

theorem Phrase.kinds_ne_nil (q : Phrase) : q.kinds ≠ [] := by
  cases q with
  | expr e => cases e <;> simp [kinds, Expr.kinds]
  | stmt s => cases s <;> simp [kinds, Stmt.kinds]
  | type t => cases t <;> simp [kinds, TypeExpr.kinds]
  | _ => simp [kinds, MainClass.kinds, ClassDecl.kinds, MethodDecl.kinds, VarDecl.kinds,
      VarDecl.paramKinds]

theorem Phrase.ReadFrom.ne_nil {q : Phrase} {ts : List Token} (h : q.ReadFrom ts) : ts ≠ [] := by
  rintro rfl
  exact q.kinds_ne_nil h.kinds_eq.symm

theorem Item.ReadFrom.kinds_eq {item : Item} {ts : List Token} (h : item.ReadFrom ts) :
    canonicalKinds ts = item.kinds := by
  cases item with
  | token k =>
    obtain ⟨t, rfl, rfl⟩ := h
    rfl
  | phrase q => exact Phrase.ReadFrom.kinds_eq h

namespace ReadAll

variable {α β : Type} {R : α → List Token → Prop} {S : β → List Token → Prop}
  {as bs : List α} {ts us : List Token}

theorem append (has : ReadAll R as ts) (hbs : ReadAll R bs us) :
    ReadAll R (as ++ bs) (ts ++ us) := by
  induction has with
  | nil => exact hbs
  | cons ha _ ih =>
    rw [List.append_assoc]
    exact .cons ha ih

theorem map {f : α → β} (has : ReadAll R as ts) (h : ∀ a us, R a us → S (f a) us) :
    ReadAll S (as.map f) ts := by
  induction has with
  | nil => exact .nil
  | cons ha _ ih => exact .cons (h _ _ ha) ih

/-- The tokens of one thing lie between those of the things before it and of those behind it. -/
theorem split {a : α} (h : ReadAll R (as ++ a :: bs) ts) :
    ∃ before own after, ts = before ++ (own ++ after) ∧ ReadAll R as before ∧ R a own ∧
      ReadAll R bs after := by
  induction as generalizing ts with
  | nil =>
    cases h with
    | cons ha hbs => exact ⟨[], _, _, rfl, .nil, ha, hbs⟩
  | cons c as ih =>
    cases h with
    | cons hc hrest =>
      obtain ⟨before, own, after, rfl, has, ha, hbs⟩ := ih hrest
      exact ⟨_ ++ before, own, after, (List.append_assoc ..).symm, .cons hc has, ha, hbs⟩

variable {items : List Item}

theorem token {k written : Token.Kind} {a : Span} (hk : written.canonical = k)
    (h : ReadAll Item.ReadFrom items ts) :
    ReadAll Item.ReadFrom (.token k :: items) (⟨written, a⟩ :: ts) :=
  @cons _ Item.ReadFrom (.token k) _ [⟨written, a⟩] _ ⟨⟨written, a⟩, rfl, hk⟩ h

theorem keyword {word : Keyword} {a : Span} (h : ReadAll Item.ReadFrom items ts) :
    ReadAll Item.ReadFrom (.keyword word :: items) (⟨.keyword word, a⟩ :: ts) :=
  token rfl h

theorem symbol {sign : Symbol} {a : Span} (h : ReadAll Item.ReadFrom items ts) :
    ReadAll Item.ReadFrom (.symbol sign :: items) (⟨.symbol sign, a⟩ :: ts) :=
  token rfl h

theorem word {name : String} {a : Span} (h : ReadAll Item.ReadFrom items ts) :
    ReadAll Item.ReadFrom (.word name :: items) (⟨.ident name, a⟩ :: ts) :=
  token rfl h

theorem ident {i : Ident} (h : ReadAll Item.ReadFrom items ts) :
    ReadAll Item.ReadFrom (.phrase (.ident i) :: items) (i.token :: ts) :=
  @cons _ Item.ReadFrom (.phrase (.ident i)) _ [i.token] _ rfl h

theorem phrase {q : Phrase} (hq : q.ReadFrom us) (h : ReadAll Item.ReadFrom items ts) :
    ReadAll Item.ReadFrom (.phrase q :: items) (us ++ ts) :=
  .cons hq h

/-- As `ReadAll.phrase`, where nothing follows. -/
theorem last {q : Phrase} (hq : q.ReadFrom us) : ReadAll Item.ReadFrom [.phrase q] us :=
  List.append_nil us ▸ phrase hq .nil

end ReadAll

/-! ### What a phrase is written with -/

theorem TypeExpr.ReadFrom.readAll_items {type : TypeExpr} {ts : List Token}
    (h : type.ReadFrom ts) : ReadAll Item.ReadFrom type.items ts := by
  cases h with
  | int => exact .keyword .nil
  | boolean => exact .keyword .nil
  | intArray => exact .keyword (.symbol (.symbol .nil))
  | named => exact .ident .nil

theorem Expr.ArgsReadFrom.readAll_items {args : List Expr} {ts : List Token}
    (h : Expr.ArgsReadFrom args ts) :
    ReadAll Item.ReadFrom (Item.separated (args.map fun e => .phrase (.expr e))) ts := by
  cases h with
  | nil => exact .nil
  | one harg => exact .last harg
  | cons harg hmore => exact .phrase harg (.symbol hmore.readAll_items)

theorem Expr.ReadFrom.readAll_items {e : Expr} {ts : List Token} (h : e.ReadFrom ts) :
    ReadAll Item.ReadFrom e.items ts := by
  cases h with
  | int hint => exact .token (Token.Kind.canonical_intLit (isIntText_iff.mp hint).1) .nil
  | bool => exact .keyword .nil
  | ident => exact .ident .nil
  | this => exact .keyword .nil
  | newArray hsize => exact .keyword (.keyword (.symbol (.phrase hsize (.symbol .nil))))
  | newObject => exact .keyword (.ident (.symbol (.symbol .nil)))
  | not _ hoperand => exact .symbol (.last hoperand)
  | paren hinner => exact .symbol (.phrase hinner (.symbol .nil))
  | binary _ _ hleft hright => exact .phrase hleft (.symbol (.last hright))
  | index _ _ harray hposition =>
    exact .phrase harray (.symbol (.phrase hposition (.symbol .nil)))
  | length _ harray => exact .phrase harray (.symbol (.word .nil))
  | send _ hreceiver hargs =>
    exact .phrase hreceiver (.symbol (.ident (.symbol (hargs.readAll_items.append (.symbol .nil)))))

theorem Stmt.AllReadFrom.readAll_items {body : List Stmt} {ts : List Token}
    (h : Stmt.AllReadFrom body ts) :
    ReadAll Item.ReadFrom (body.map fun s => .phrase (.stmt s)) ts := by
  cases h with
  | nil => exact .nil
  | cons hfirst hmore => exact .phrase hfirst hmore.readAll_items

theorem Stmt.ReadFrom.readAll_items {s : Stmt} {ts : List Token} (h : s.ReadFrom ts) :
    ReadAll Item.ReadFrom s.items ts := by
  cases h with
  | block hbody => exact .symbol (hbody.readAll_items.append (.symbol .nil))
  | assign hvalue => exact .ident (.symbol (.phrase hvalue (.symbol .nil)))
  | arrayAssign hposition hvalue =>
    exact .ident (.symbol (.phrase hposition (.symbol (.symbol (.phrase hvalue (.symbol .nil))))))
  | ifElse hcond hthen helse =>
    exact .keyword (.symbol (.phrase hcond (.symbol (.phrase hthen (.keyword (.last helse))))))
  | whileLoop hcond hbody =>
    exact .keyword (.symbol (.phrase hcond (.symbol (.last hbody))))
  | print hvalue =>
    exact .word (.symbol (.word (.symbol (.word (.symbol (.phrase hvalue
      (.symbol (.symbol .nil))))))))

theorem VarDecl.ReadFrom.readAll_items {d : VarDecl} {ts : List Token} (h : d.ReadFrom ts) :
    ReadAll Item.ReadFrom d.items ts := by
  obtain ⟨htype⟩ := h
  exact .phrase htype (.ident (.symbol .nil))

theorem VarDecl.ParamReadFrom.readAll_items {d : VarDecl} {ts : List Token}
    (h : d.ParamReadFrom ts) : ReadAll Item.ReadFrom d.paramItems ts := by
  obtain ⟨htype⟩ := h
  exact .phrase htype (.ident .nil)

theorem VarDecl.ParamsReadFrom.readAll_items {ds : List VarDecl} {ts : List Token}
    (h : VarDecl.ParamsReadFrom ds ts) :
    ReadAll Item.ReadFrom (Item.separated (ds.map fun d => .phrase (.param d))) ts := by
  induction h with
  | nil => exact .nil
  | one hd => exact .last hd
  | cons hd _ ih => exact .phrase hd (.symbol ih)

theorem MethodDecl.ReadFrom.readAll_items {d : MethodDecl} {ts : List Token} (h : d.ReadFrom ts) :
    ReadAll Item.ReadFrom d.items ts := by
  obtain ⟨hreturns, hparams, hvars, hbody, hresult⟩ := h
  have hvars := hvars.map (S := Item.ReadFrom) (f := fun v => .phrase (.var v)) fun _ _ hv => hv
  exact .keyword (.phrase hreturns (.ident (.symbol (hparams.readAll_items.append
    (.symbol (.symbol (hvars.append (hbody.readAll_items.append
      (.keyword (.phrase hresult (.symbol (.symbol .nil))))))))))))

theorem ClassDecl.ParentReadFrom.readAll_items {parent : Option Ident} {ts : List Token}
    (h : ClassDecl.ParentReadFrom parent ts) :
    ReadAll Item.ReadFrom (ClassDecl.parentItems parent) ts := by
  cases h with
  | none => exact .nil
  | some => exact .keyword (.ident .nil)

theorem ClassDecl.ReadFrom.readAll_items {d : ClassDecl} {ts : List Token} (h : d.ReadFrom ts) :
    ReadAll Item.ReadFrom d.items ts := by
  obtain ⟨hparent, hfields, hmethods⟩ := h
  have hfields :=
    hfields.map (S := Item.ReadFrom) (f := fun v => .phrase (.var v)) fun _ _ hv => hv
  have hmethods :=
    hmethods.map (S := Item.ReadFrom) (f := fun m => .phrase (.method m)) fun _ _ hm => hm
  exact .keyword (.ident (hparent.readAll_items.append
    (.symbol (hfields.append (hmethods.append (.symbol .nil))))))

theorem MainClass.ReadFrom.readAll_items {d : MainClass} {ts : List Token} (h : d.ReadFrom ts) :
    ReadAll Item.ReadFrom d.items ts := by
  obtain ⟨hvars, hbody⟩ := h
  have hvars := hvars.map (S := Item.ReadFrom) (f := fun v => .phrase (.var v)) fun _ _ hv => hv
  exact .keyword (.ident (.symbol (.keyword (.keyword (.keyword (.word (.symbol (.word (.symbol
    (.symbol (.ident (.symbol (.symbol
      (hvars.append (hbody.readAll_items.append (.symbol (.symbol .nil)))))))))))))))))

/-- The tokens of a phrase are those of its items, one after the other. -/
theorem Phrase.ReadFrom.readAll_items {q : Phrase} {ts : List Token} (h : q.ReadFrom ts) :
    ReadAll Item.ReadFrom q.items ts := by
  cases q with
  | main d => exact MainClass.ReadFrom.readAll_items h
  | cls d => exact ClassDecl.ReadFrom.readAll_items h
  | method d => exact MethodDecl.ReadFrom.readAll_items h
  | var d => exact VarDecl.ReadFrom.readAll_items h
  | param d => exact VarDecl.ParamReadFrom.readAll_items h
  | type t => exact TypeExpr.ReadFrom.readAll_items h
  | ident i =>
    obtain rfl : ts = [i.token] := h
    exact .token rfl .nil
  | stmt s => exact Stmt.ReadFrom.readAll_items h
  | expr e => exact Expr.ReadFrom.readAll_items h

theorem Program.ReadFrom.readAll_items {p : Program} {ts : List Token} (h : p.ReadFrom ts) :
    ReadAll Item.ReadFrom p.items ts := by
  obtain ⟨hmain, hclasses⟩ := h
  exact .phrase hmain (hclasses.map fun _ _ hd => hd)

/-! ### Spans -/

theorem TypeExpr.ReadFrom.span_eq {type : TypeExpr} {ts : List Token} (h : type.ReadFrom ts) :
    type.span = joined ts := by
  cases h with
  | int | boolean | named => exact (Span.merge_self _).symm
  | intArray => rfl

section

variable {file : Nat}

theorem Expr.ReadFrom.ne_nil {e : Expr} {ts : List Token} (h : e.ReadFrom ts) : ts ≠ [] :=
  @Phrase.ReadFrom.ne_nil (.expr e) ts h

theorem Expr.ReadFrom.span_eq {e : Expr} {ts : List Token} (h : e.ReadFrom ts)
    (hts : InRow file ts) : e.span = joined ts := by
  cases h with
  | int | bool | this | ident => exact (Span.merge_self _).symm
  | newObject => rfl
  | newArray | paren => simp [Expr.span, joined, lastSpan, lastSpan_append]
  | not _ hoperand =>
    rw [Expr.span, hoperand.span_eq hts.tail]
    exact hts.merge_first hoperand.ne_nil
  | binary _ _ hleft hright =>
    rw [Expr.span, hleft.span_eq hts.left, hright.span_eq hts.right.tail]
    exact hts.merge_joined [_] hleft.ne_nil hright.ne_nil
  | index _ _ harray _ =>
    rw [Expr.span, harray.span_eq hts.left]
    exact hts.merge_last (_ :: _) harray.ne_nil
  | length _ harray =>
    rw [Expr.span, harray.span_eq hts.left]
    exact hts.merge_last [_] harray.ne_nil
  | send _ hreceiver _ =>
    rw [Expr.span, hreceiver.span_eq hts.left]
    exact hts.merge_last (_ :: _ :: _ :: _) hreceiver.ne_nil

theorem Stmt.ReadFrom.span_eq {s : Stmt} {ts : List Token} (h : s.ReadFrom ts) :
    s.span = joined ts := by
  cases h <;> simp [Stmt.span, joined, lastSpan, lastSpan_append, Ident.token]

theorem VarDecl.ReadFrom.span_eq {d : VarDecl} {ts : List Token} (h : d.ReadFrom ts)
    (hts : InRow file ts) : d.span = joined ts := by
  obtain ⟨htype⟩ := h
  have hne := @Phrase.ReadFrom.ne_nil (.type _) _ htype
  dsimp only
  rw [htype.span_eq]
  exact hts.merge_last [_] hne

theorem VarDecl.ParamReadFrom.span_eq {d : VarDecl} {ts : List Token} (h : d.ParamReadFrom ts)
    (hts : InRow file ts) : d.span = joined ts := by
  obtain ⟨htype⟩ := h
  have hne := @Phrase.ReadFrom.ne_nil (.type _) _ htype
  dsimp only
  rw [htype.span_eq]
  exact hts.merge_last [] hne

theorem MethodDecl.ReadFrom.span_eq {d : MethodDecl} {ts : List Token} (h : d.ReadFrom ts) :
    d.span = joined ts := by
  obtain ⟨-, -, -, -, -⟩ := h
  simp [joined, lastSpan, lastSpan_append]

theorem ClassDecl.ReadFrom.span_eq {d : ClassDecl} {ts : List Token} (h : d.ReadFrom ts) :
    d.span = joined ts := by
  obtain ⟨-, -, -⟩ := h
  simp [joined, lastSpan, lastSpan_append]

theorem MainClass.ReadFrom.span_eq {d : MainClass} {ts : List Token} (h : d.ReadFrom ts) :
    d.span = joined ts := by
  obtain ⟨-, -⟩ := h
  simp [joined, lastSpan, lastSpan_append]

/-- A phrase has the span from its first token to its last one. -/
theorem Phrase.ReadFrom.span_eq {q : Phrase} {ts : List Token} (h : q.ReadFrom ts)
    (hts : InRow file ts) : q.span = joined ts := by
  cases q with
  | main d => exact MainClass.ReadFrom.span_eq h
  | cls d => exact ClassDecl.ReadFrom.span_eq h
  | method d => exact MethodDecl.ReadFrom.span_eq h
  | var d => exact VarDecl.ReadFrom.span_eq h hts
  | param d => exact VarDecl.ParamReadFrom.span_eq h hts
  | type t => exact TypeExpr.ReadFrom.span_eq h
  | ident i =>
    obtain rfl : ts = [i.token] := h
    exact (joined_singleton i.token).symm
  | stmt s => exact Stmt.ReadFrom.span_eq h
  | expr e => exact Expr.ReadFrom.span_eq h hts

end

/-! ### Phrases inside phrases -/

/-- One phrase ends before the next one starts. -/
def Phrase.InOrder (qs : List Phrase) : Prop :=
  qs.Pairwise fun q r => q.span.stop ≤ r.span.start

namespace ReadAll

variable {file : Nat} {items : List Item} {ts : List Token}

theorem length_eq (h : ReadAll Item.ReadFrom items ts) :
    ts.length = (items.flatMap Item.kinds).length := by
  rw [← h.kinds_eq fun _ _ hitem => hitem.kinds_eq]
  exact List.length_map _ |>.symm

theorem exists_of_mem_phrases (h : ReadAll Item.ReadFrom items ts) {q : Phrase}
    (hq : q ∈ Item.phrases items) :
    ∃ before own after, ts = before ++ (own ++ after) ∧ q.ReadFrom own := by
  obtain ⟨as, bs, rfl⟩ := List.append_of_mem (Item.mem_phrases_iff.mp hq)
  obtain ⟨before, own, after, hts, -, hown, -⟩ := h.split
  exact ⟨before, own, after, hts, hown⟩

theorem inside (h : ReadAll Item.ReadFrom items ts) (hts : InRow file ts) {q : Phrase}
    (hq : q ∈ Item.phrases items) : q.span.Inside (joined ts) := by
  obtain ⟨before, own, after, rfl, hown⟩ := h.exists_of_mem_phrases hq
  rw [hown.span_eq hts.right.left]
  exact hts.joined_inside hown.ne_nil

/-- The phrases among items are in the order of the items. -/
theorem inOrder (h : ReadAll Item.ReadFrom items ts) (hts : InRow file ts) :
    Phrase.InOrder (Item.phrases items) := by
  induction h with
  | nil => exact .nil
  | @cons item items us ts hitem hrest ih =>
    cases item with
    | token k => exact ih hts.right
    | phrase q =>
      have hq : q.ReadFrom us := hitem
      refine .cons (fun r hr => ?_) (ih hts.right)
      obtain ⟨before, own, after, rfl, hown⟩ := hrest.exists_of_mem_phrases hr
      rw [hq.span_eq hts.left, hown.span_eq hts.right.right.left]
      exact hts.joined_stop_le hq.ne_nil hown.ne_nil

end ReadAll

/-- The tokens of a phrase stand at its place among the tokens of the program. -/
theorem Program.PhraseAt.exists_own {p : Program} {words : List Token} (hp : p.ReadFrom words)
    {i : Nat} {q : Phrase} (h : p.PhraseAt i q) :
    ∃ before own after, words = before ++ (own ++ after) ∧ before.length = i ∧ q.ReadFrom own := by
  induction h with
  | top hitems =>
    have hread := hp.readAll_items
    rw [hitems] at hread
    obtain ⟨before, own, after, rfl, hbefore, hown, -⟩ := hread.split
    exact ⟨before, own, after, rfl, hbefore.length_eq, hown⟩
  | inside _ hitems ih =>
    obtain ⟨before, whole, after, rfl, rfl, hwhole⟩ := ih
    have hread := hwhole.readAll_items
    rw [hitems] at hread
    obtain ⟨before', own, after', rfl, hbefore, hown, -⟩ := hread.split
    refine ⟨before ++ before', own, after' ++ after, ?_, ?_, hown⟩
    · simp only [List.append_assoc]
    · rw [List.length_append, hbefore.length_eq]

/-! ### No span is missed -/

theorem Item.mem_separated {q : Phrase} {items : List Item} (h : .phrase q ∈ items) :
    .phrase q ∈ separated items := by
  induction items with
  | nil => exact h
  | cons item items ih =>
    cases items with
    | nil => exact h
    | cons next items =>
      rw [separated, List.intersperse_cons_cons]
      rcases List.mem_cons.mp h with rfl | hrest
      · exact List.mem_cons_self
      · exact List.mem_cons_of_mem _ (List.mem_cons_of_mem _ (ih hrest))

/-- Phrases that have with each phrase all phrases directly inside of it. -/
def PartsClosed (H : Phrase → Prop) : Prop :=
  ∀ q r, H q → .phrase r ∈ q.items → H r

/-- The span is that of a phrase. -/
def SpanOf (H : Phrase → Prop) (s : Span) : Prop :=
  ∃ q, H q ∧ q.span = s

section

variable {H : Phrase → Prop}

mutual

theorem Expr.spanOf_of_mem_spans (hH : PartsClosed H) : ∀ {e : Expr}, H (.expr e) →
    ∀ s ∈ e.spans, SpanOf H s
  | .int .., h | .bool .., h | .this _, h | .ident _, h => by
    rw [Expr.spans, List.forall_mem_singleton]
    exact ⟨_, h, rfl⟩
  | .binary _ _ left right, h => by
    rw [Expr.spans, List.forall_mem_cons, List.forall_mem_append]
    exact ⟨⟨_, h, rfl⟩,
      Expr.spanOf_of_mem_spans hH (hH _ (.expr left) h (by simp [Phrase.items, Expr.items])),
      Expr.spanOf_of_mem_spans hH (hH _ (.expr right) h (by simp [Phrase.items, Expr.items]))⟩
  | .index _ array position, h => by
    rw [Expr.spans, List.forall_mem_cons, List.forall_mem_append]
    exact ⟨⟨_, h, rfl⟩,
      Expr.spanOf_of_mem_spans hH (hH _ (.expr array) h (by simp [Phrase.items, Expr.items])),
      Expr.spanOf_of_mem_spans hH (hH _ (.expr position) h (by simp [Phrase.items, Expr.items]))⟩
  | .not _ inner, h | .length _ inner, h | .newArray _ inner, h | .paren _ inner, h => by
    rw [Expr.spans, List.forall_mem_cons]
    exact ⟨⟨_, h, rfl⟩,
      Expr.spanOf_of_mem_spans hH (hH _ (.expr inner) h (by simp [Phrase.items, Expr.items]))⟩
  | .newObject _ cls, h => by
    rw [Expr.spans, List.forall_mem_cons, List.forall_mem_singleton]
    exact ⟨⟨_, h, rfl⟩, _, hH _ (.ident cls) h (by simp [Phrase.items, Expr.items]), rfl⟩
  | .send _ receiver method args, h => by
    rw [Expr.spans, List.forall_mem_cons, List.forall_mem_append, List.forall_mem_cons]
    refine ⟨⟨_, h, rfl⟩,
      Expr.spanOf_of_mem_spans hH (hH _ (.expr receiver) h (by simp [Phrase.items, Expr.items])),
      ⟨_, hH _ (.ident method) h (by simp [Phrase.items, Expr.items]), rfl⟩,
      Expr.spanOf_of_mem_allSpans hH fun e he => hH _ _ h ?_⟩
    have hmem : Item.phrase (.expr e) ∈ args.map fun e => .phrase (.expr e) :=
      List.mem_map_of_mem he
    simp [Phrase.items, Expr.items, Item.mem_separated hmem]

theorem Expr.spanOf_of_mem_allSpans (hH : PartsClosed H) : ∀ {es : List Expr},
    (∀ e ∈ es, H (.expr e)) → ∀ s ∈ Expr.allSpans es, SpanOf H s
  | [], _ => List.forall_mem_nil _
  | e :: es, h => by
    obtain ⟨he, hes⟩ := List.forall_mem_cons.mp h
    rw [Expr.allSpans, List.forall_mem_append]
    exact ⟨Expr.spanOf_of_mem_spans hH he, Expr.spanOf_of_mem_allSpans hH hes⟩

end

mutual

theorem Stmt.spanOf_of_mem_spans (hH : PartsClosed H) : ∀ {stmt : Stmt}, H (.stmt stmt) →
    ∀ s ∈ stmt.spans, SpanOf H s
  | .block _ body, h => by
    rw [Stmt.spans, List.forall_mem_cons]
    exact ⟨⟨_, h, rfl⟩, Stmt.spanOf_of_mem_allSpans hH fun stmt hstmt =>
      hH _ (.stmt stmt) h (by simp [Phrase.items, Stmt.items, hstmt])⟩
  | .assign _ target value, h => by
    rw [Stmt.spans, List.forall_mem_cons, List.forall_mem_cons]
    exact ⟨⟨_, h, rfl⟩, ⟨_, hH _ (.ident target) h (by simp [Phrase.items, Stmt.items]), rfl⟩,
      Expr.spanOf_of_mem_spans hH (hH _ (.expr value) h (by simp [Phrase.items, Stmt.items]))⟩
  | .arrayAssign _ target position value, h => by
    rw [Stmt.spans, List.forall_mem_cons, List.forall_mem_cons, List.forall_mem_append]
    exact ⟨⟨_, h, rfl⟩, ⟨_, hH _ (.ident target) h (by simp [Phrase.items, Stmt.items]), rfl⟩,
      Expr.spanOf_of_mem_spans hH (hH _ (.expr position) h (by simp [Phrase.items, Stmt.items])),
      Expr.spanOf_of_mem_spans hH (hH _ (.expr value) h (by simp [Phrase.items, Stmt.items]))⟩
  | .ifElse _ cond thenBranch elseBranch, h => by
    rw [Stmt.spans, List.forall_mem_cons, List.forall_mem_append, List.forall_mem_append]
    exact ⟨⟨_, h, rfl⟩,
      Expr.spanOf_of_mem_spans hH (hH _ (.expr cond) h (by simp [Phrase.items, Stmt.items])),
      Stmt.spanOf_of_mem_spans hH (hH _ (.stmt thenBranch) h (by simp [Phrase.items, Stmt.items])),
      Stmt.spanOf_of_mem_spans hH (hH _ (.stmt elseBranch) h (by simp [Phrase.items, Stmt.items]))⟩
  | .whileLoop _ cond body, h => by
    rw [Stmt.spans, List.forall_mem_cons, List.forall_mem_append]
    exact ⟨⟨_, h, rfl⟩,
      Expr.spanOf_of_mem_spans hH (hH _ (.expr cond) h (by simp [Phrase.items, Stmt.items])),
      Stmt.spanOf_of_mem_spans hH (hH _ (.stmt body) h (by simp [Phrase.items, Stmt.items]))⟩
  | .print _ value, h => by
    rw [Stmt.spans, List.forall_mem_cons]
    exact ⟨⟨_, h, rfl⟩,
      Expr.spanOf_of_mem_spans hH (hH _ (.expr value) h (by simp [Phrase.items, Stmt.items]))⟩

theorem Stmt.spanOf_of_mem_allSpans (hH : PartsClosed H) : ∀ {body : List Stmt},
    (∀ stmt ∈ body, H (.stmt stmt)) → ∀ s ∈ Stmt.allSpans body, SpanOf H s
  | [], _ => List.forall_mem_nil _
  | stmt :: body, h => by
    obtain ⟨hstmt, hbody⟩ := List.forall_mem_cons.mp h
    rw [Stmt.allSpans, List.forall_mem_append]
    exact ⟨Stmt.spanOf_of_mem_spans hH hstmt, Stmt.spanOf_of_mem_allSpans hH hbody⟩

end

theorem VarDecl.spanOf_of_mem_spans (hH : PartsClosed H) {d : VarDecl}
    (h : H (.var d) ∨ H (.param d)) : ∀ s ∈ d.spans, SpanOf H s := by
  rw [VarDecl.forall_mem_spans_iff]
  rcases h with h | h
  · exact ⟨⟨_, h, rfl⟩, ⟨_, hH _ (.type d.type) h (by simp [Phrase.items, VarDecl.items]), rfl⟩,
      _, hH _ (.ident d.name) h (by simp [Phrase.items, VarDecl.items]), rfl⟩
  · exact ⟨⟨_, h, rfl⟩,
      ⟨_, hH _ (.type d.type) h (by simp [Phrase.items, VarDecl.paramItems]), rfl⟩,
      _, hH _ (.ident d.name) h (by simp [Phrase.items, VarDecl.paramItems]), rfl⟩

theorem MethodDecl.spanOf_of_mem_spans (hH : PartsClosed H) {d : MethodDecl} (h : H (.method d)) :
    ∀ s ∈ d.spans, SpanOf H s := by
  rw [MethodDecl.forall_mem_spans_iff]
  have hparam : ∀ v ∈ d.params, H (.param v) := fun v hv =>
    hH _ _ h (List.mem_append_right _ (List.mem_append_left _
      (Item.mem_separated (List.mem_map_of_mem hv))))
  have hvar : ∀ v ∈ d.vars, H (.var v) := fun v hv =>
    hH _ _ h (by simp [Phrase.items, MethodDecl.items, hv])
  have hstmt : ∀ stmt ∈ d.body, H (.stmt stmt) := fun stmt hstmt =>
    hH _ _ h (by simp [Phrase.items, MethodDecl.items, hstmt])
  exact ⟨⟨_, h, rfl⟩,
    ⟨_, hH _ (.type d.returns) h (by simp [Phrase.items, MethodDecl.items]), rfl⟩,
    ⟨_, hH _ (.ident d.name) h (by simp [Phrase.items, MethodDecl.items]), rfl⟩,
    fun v hv => VarDecl.spanOf_of_mem_spans hH (.inr (hparam v hv)),
    fun v hv => VarDecl.spanOf_of_mem_spans hH (.inl (hvar v hv)),
    Stmt.spanOf_of_mem_allSpans hH hstmt,
    Expr.spanOf_of_mem_spans hH
      (hH _ (.expr d.result) h (by simp [Phrase.items, MethodDecl.items]))⟩

theorem ClassDecl.spanOf_of_mem_spans (hH : PartsClosed H) {d : ClassDecl} (h : H (.cls d)) :
    ∀ s ∈ d.spans, SpanOf H s := by
  rw [ClassDecl.forall_mem_spans_iff]
  have hparent : ∀ i, d.parent = some i → H (.ident i) := fun i hi =>
    hH _ _ h (by simp [Phrase.items, ClassDecl.items, ClassDecl.parentItems, hi])
  have hfield : ∀ v ∈ d.fields, H (.var v) := fun v hv =>
    hH _ _ h (by simp [Phrase.items, ClassDecl.items, hv])
  have hmethod : ∀ m ∈ d.methods, H (.method m) := fun m hm =>
    hH _ _ h (by simp [Phrase.items, ClassDecl.items, hm])
  exact ⟨⟨_, h, rfl⟩, ⟨_, hH _ (.ident d.name) h (by simp [Phrase.items, ClassDecl.items]), rfl⟩,
    fun i hi => ⟨_, hparent i hi, rfl⟩,
    fun v hv => VarDecl.spanOf_of_mem_spans hH (.inl (hfield v hv)),
    fun m hm => MethodDecl.spanOf_of_mem_spans hH (hmethod m hm)⟩

theorem MainClass.spanOf_of_mem_spans (hH : PartsClosed H) {d : MainClass} (h : H (.main d)) :
    ∀ s ∈ d.spans, SpanOf H s := by
  rw [MainClass.forall_mem_spans_iff]
  have hvar : ∀ v ∈ d.vars, H (.var v) := fun v hv =>
    hH _ _ h (by simp [Phrase.items, MainClass.items, hv])
  have hstmt : ∀ stmt ∈ d.body, H (.stmt stmt) := fun stmt hstmt =>
    hH _ _ h (by simp [Phrase.items, MainClass.items, hstmt])
  exact ⟨⟨_, h, rfl⟩, ⟨_, hH _ (.ident d.name) h (by simp [Phrase.items, MainClass.items]), rfl⟩,
    ⟨_, hH _ (.ident d.args) h (by simp [Phrase.items, MainClass.items]), rfl⟩,
    fun v hv => VarDecl.spanOf_of_mem_spans hH (.inl (hvar v hv)),
    Stmt.spanOf_of_mem_allSpans hH hstmt⟩

end

/-- Every span in a program is that of one of its phrases. -/
theorem Program.exists_phraseAt (p : Program) :
    ∀ s ∈ p.spans, ∃ i q, p.PhraseAt i q ∧ q.span = s := by
  have hclosed : PartsClosed fun q => ∃ i, p.PhraseAt i q := by
    rintro q r ⟨i, hq⟩ hr
    obtain ⟨before, after, hitems⟩ := List.append_of_mem hr
    exact ⟨_, hq.inside hitems⟩
  have htop : ∀ q, .phrase q ∈ p.items → ∃ i, p.PhraseAt i q := by
    intro q hq
    obtain ⟨before, after, hitems⟩ := List.append_of_mem hq
    exact ⟨_, .top hitems⟩
  have hspans : ∀ s ∈ p.spans, SpanOf (fun q => ∃ i, p.PhraseAt i q) s := by
    rw [Program.forall_mem_spans_iff]
    exact ⟨MainClass.spanOf_of_mem_spans hclosed (htop _ List.mem_cons_self), fun d hd =>
      ClassDecl.spanOf_of_mem_spans hclosed
        (htop _ (List.mem_cons_of_mem _ (List.mem_map_of_mem hd)))⟩
  intro s hs
  obtain ⟨q, ⟨i, hq⟩, rfl⟩ := hspans s hs
  exact ⟨i, q, hq, rfl⟩

/-! ### Exact spans -/

/-- The tokens of a phrase, if they begin with token number `i`. -/
def Phrase.own (q : Phrase) (tokens : List Token) (i : Nat) : List Token :=
  (tokens.drop i).take q.kinds.length

/-- The span of a phrase is exact, where the tokens of the phrase begin with token number `i` of a
file: they are a way to write the phrase, the span goes from the first of them to the last one, and
no other tokens lie inside of it. The phrases directly inside the phrase have their spans inside of
its span, one behind the other. -/
structure Phrase.ExactAt (q : Phrase) (file : Nat) (tokens : List Token) (i : Nat) : Prop where
  written : List.Forall₂ Token.Kind.Writes ((q.own tokens i).map Token.kind) q.kinds
  ends : ∃ first last, (q.own tokens i).head? = some first ∧
    (q.own tokens i).getLast? = some last ∧ q.span = ⟨first.span.start, last.span.stop, file⟩
  inside : tokens.filter (fun t => t.kind ≠ .eof ∧ t.span.Inside q.span) = q.own tokens i
  parts_inside : ∀ r ∈ q.parts, r.span.Inside q.span
  parts_inOrder : Phrase.InOrder q.parts

/-- A phrase that was read from some of the tokens of a text has an exact span. -/
theorem Phrase.ReadFrom.exactAt {q : Phrase} {text : String} {file : Nat} {mark : Token}
    {before own after : List Token} (hown : q.ReadFrom own)
    (htokens : tokenize text file = before ++ (own ++ after) ++ [mark]) (hmark : mark.kind = .eof) :
    q.ExactAt file (tokenize text file) before.length := by
  have hrow := inRow_of_tokenize htokens
  have hne := hown.ne_nil
  have hspan := hown.span_eq hrow.right.left
  have hlexical : AllLexical own := fun t ht =>
    allLexical_tokenize text file t (by simp [htokens, ht])
  have hself : q.own (tokenize text file) before.length = own := by
    have hlength : q.kinds.length = own.length := by
      rw [← hown.kinds_eq]
      exact List.length_map _
    rw [Phrase.own, htokens, hlength, List.append_assoc, List.drop_left, List.append_assoc,
      List.take_left]
  constructor
  case written =>
    rw [hself]
    exact writes_of_canonicalKinds hlexical hown.kinds_eq
  case ends =>
    rw [hself]
    refine ⟨_, _, List.head?_eq_some_head hne, List.getLast?_eq_some_getLast hne, ?_⟩
    rw [hspan, hrow.right.left.joined_eq hne]
  case inside =>
    have hwords := hrow.filter_inside_joined hne
    rw [← hspan] at hwords
    rw [hself, htokens, List.filter_append, List.filter_cons_of_neg (by simp [hmark]),
      List.filter_nil, List.append_nil]
    refine Eq.trans (List.filter_congr fun t ht => ?_) hwords
    simp [ne_eof_of_tokenize htokens t ht]
  case parts_inside =>
    intro r hr
    rw [hspan]
    exact hown.readAll_items.inside hrow.right.left hr
  case parts_inOrder => exact hown.readAll_items.inOrder hrow.right.left

/-- **Spans are exact.** Every span in a program that is read from a text is that of a phrase, and
the span of a phrase goes from its first token to its last one, in the file of the text. The tokens
of the text inside of it are exactly those that write the phrase. The phrases directly inside a
phrase have their spans inside of its span, one behind the other, as have the classes of the
program. -/
theorem phrase_spans_exact {text : String} {file : Nat} {p : Program}
    (h : Program.parse text file = .ok p) :
    (∀ s ∈ p.spans, ∃ i q, p.PhraseAt i q ∧ q.span = s) ∧
      (∀ i q, p.PhraseAt i q → q.ExactAt file (tokenize text file) i) ∧
      Phrase.InOrder p.parts := by
  obtain ⟨words, mark, htokens, hmark, -, hp⟩ := Program.readFrom_of_parse h
  refine ⟨p.exists_phraseAt, fun i q hq => ?_, hp.readAll_items.inOrder (inRow_of_tokenize htokens)⟩
  obtain ⟨before, own, after, rfl, rfl, hown⟩ := hq.exists_own hp
  exact hown.exactAt htokens hmark

/-- A text with a comment inside of a call, whose receiver is a negation. -/
def negatedCallText : String :=
  "class M\x7bpublic static void main(String[] a)\x7bx = !y /* */ .f(07);\x7d\x7d"

/-- The call in `negatedCallText`. -/
def negatedCall : Expr :=
  .send ⟨48, 63, 3⟩ (.not ⟨48, 50, 3⟩ (.ident ⟨"y", ⟨49, 50, 3⟩⟩)) ⟨"f", ⟨58, 59, 3⟩⟩
    [.int ⟨60, 62, 3⟩ 7]

/-- What `negatedCallText` is read as, spans included. -/
def negatedCallProgram : Program :=
  ⟨⟨⟨"M", ⟨6, 7, 3⟩⟩, ⟨"a", ⟨41, 42, 3⟩⟩, [],
    [.assign ⟨44, 64, 3⟩ ⟨"x", ⟨44, 45, 3⟩⟩ negatedCall], ⟨0, 66, 3⟩⟩, []⟩

theorem phrase_spans_exact_negatedCall :
    Program.parse negatedCallText 3 = .ok negatedCallProgram ∧
      negatedCallProgram.PhraseAt 16 (.expr negatedCall) ∧
      (Phrase.expr negatedCall).ExactAt 3 (tokenize negatedCallText 3) 16 := by
  have htokens : tokenize negatedCallText 3 =
      [⟨.keyword .classKw, ⟨0, 5, 3⟩⟩, ⟨.ident "M", ⟨6, 7, 3⟩⟩, ⟨.symbol .lbrace, ⟨7, 8, 3⟩⟩,
        ⟨.keyword .publicKw, ⟨8, 14, 3⟩⟩, ⟨.keyword .staticKw, ⟨15, 21, 3⟩⟩,
        ⟨.keyword .voidKw, ⟨22, 26, 3⟩⟩, ⟨.ident "main", ⟨27, 31, 3⟩⟩,
        ⟨.symbol .lparen, ⟨31, 32, 3⟩⟩, ⟨.ident "String", ⟨32, 38, 3⟩⟩,
        ⟨.symbol .lbracket, ⟨38, 39, 3⟩⟩, ⟨.symbol .rbracket, ⟨39, 40, 3⟩⟩,
        ⟨.ident "a", ⟨41, 42, 3⟩⟩, ⟨.symbol .rparen, ⟨42, 43, 3⟩⟩, ⟨.symbol .lbrace, ⟨43, 44, 3⟩⟩,
        ⟨.ident "x", ⟨44, 45, 3⟩⟩, ⟨.symbol .assign, ⟨46, 47, 3⟩⟩, ⟨.symbol .bang, ⟨48, 49, 3⟩⟩,
        ⟨.ident "y", ⟨49, 50, 3⟩⟩, ⟨.symbol .dot, ⟨57, 58, 3⟩⟩, ⟨.ident "f", ⟨58, 59, 3⟩⟩,
        ⟨.symbol .lparen, ⟨59, 60, 3⟩⟩, ⟨.intLit "07", ⟨60, 62, 3⟩⟩, ⟨.symbol .rparen, ⟨62, 63, 3⟩⟩,
        ⟨.symbol .semicolon, ⟨63, 64, 3⟩⟩, ⟨.symbol .rbrace, ⟨64, 65, 3⟩⟩,
        ⟨.symbol .rbrace, ⟨65, 66, 3⟩⟩, ⟨.eof, ⟨66, 66, 3⟩⟩] := by
    decide +kernel
  have hcall := @Expr.ReadFrom.send ⟨57, 58, 3⟩ ⟨59, 60, 3⟩ ⟨62, 63, 3⟩ _ ⟨"f", ⟨58, 59, 3⟩⟩ _ _ _
    rfl
    (@Expr.ReadFrom.not ⟨48, 49, 3⟩ _ _ rfl (@Expr.ReadFrom.ident ⟨"y", ⟨49, 50, 3⟩⟩))
    (.one (@Expr.ReadFrom.int ⟨60, 62, 3⟩ "07" (by decide)))
  have hmain := @MainClass.ReadFrom.intro ⟨0, 5, 3⟩ ⟨7, 8, 3⟩ ⟨8, 14, 3⟩ ⟨15, 21, 3⟩ ⟨22, 26, 3⟩
    ⟨27, 31, 3⟩ ⟨31, 32, 3⟩ ⟨32, 38, 3⟩ ⟨38, 39, 3⟩ ⟨39, 40, 3⟩ ⟨42, 43, 3⟩ ⟨43, 44, 3⟩
    ⟨64, 65, 3⟩ ⟨65, 66, 3⟩ ⟨"M", ⟨6, 7, 3⟩⟩ ⟨"a", ⟨41, 42, 3⟩⟩ _ _ _ _ .nil
    (.cons (@Stmt.ReadFrom.assign ⟨46, 47, 3⟩ ⟨63, 64, 3⟩ ⟨"x", ⟨44, 45, 3⟩⟩ _ _ hcall) .nil)
  have hparse : Program.parse negatedCallText 3 = .ok negatedCallProgram := by
    rw [Program.parse, htokens]
    exact (Program.ReadFrom.intro hmain .nil).ofTokens_eq
      (rfl : (⟨.eof, ⟨66, 66, 3⟩⟩ : Token).kind = .eof)
  have hassign : negatedCallProgram.PhraseAt 14
      (.stmt (.assign ⟨44, 64, 3⟩ ⟨"x", ⟨44, 45, 3⟩⟩ negatedCall)) :=
    @Program.PhraseAt.inside _ 0 _ _ (negatedCallProgram.main.items.take 14) _
      (@Program.PhraseAt.top _ [] _ _ rfl) rfl
  have hplace : negatedCallProgram.PhraseAt 16 (.expr negatedCall) :=
    @Program.PhraseAt.inside _ 14 _ _ [.phrase (.ident ⟨"x", ⟨44, 45, 3⟩⟩), .symbol .assign] _
      hassign rfl
  exact ⟨hparse, hplace, (phrase_spans_exact hparse).2.1 16 _ hplace⟩

end MiniJava
