import MiniJava.Proofs.Lookahead
import MiniJava.Proofs.ParserSoundness
import MiniJava.Proofs.TokenRows

/-!
# What errors of form complain about

Each error stands at a token, and what it says depends on this token and the one before it
(`Complaint`). Most readers report a character that belongs to no token as an invalid character. Where
a name or a type has to come, it is reported as something else than a name or a type.

`Cursor.Blames` says that the errors of a reader are such complaints; it follows the shape of the
readers.
-/

namespace MiniJava

/-- Whether a name may have to come behind a token of this kind. -/
def Token.Kind.announcesName : Token.Kind → Bool
  | .keyword word => [.classKw, .extendsKw, .newKw, .intKw, .booleanKw].contains word
  | .symbol sign => [.dot, .rbracket].contains sign
  | .ident _ => true
  | _ => false

/-- Whether a type may have to come behind a token of this kind. -/
def Token.Kind.announcesType : Token.Kind → Bool
  | .keyword word => word = .publicKw
  | .symbol sign => [.lparen, .comma].contains sign
  | _ => false

/-- What can be wrong with a token of kind `k` behind a token of kind `last`. -/
inductive Complaint (last : Option Token.Kind) (k : Token.Kind) : SyntaxFault → Prop
  | invalid {char : Char} : k = .unknown char → Complaint last k (.invalidCharacter char)
  | token {expected : Expectation} :
    (∀ char, k ≠ .unknown char) → Complaint last k (.unexpectedToken expected k)
  | expr : (∀ char, k ≠ .unknown char) → Complaint last k (.expectedExpr k)
  | number {digits : String} : k = .intLit digits → Complaint last k (.integerOutOfRange digits)
  | ident {before : Token.Kind} :
    last = some before → before.announcesName = true → Complaint last k (.expectedIdent k)
  | type {before : Token.Kind} :
    last = some before → before.announcesType = true → Complaint last k (.expectedType k)

/-- A character that belongs to no token is called invalid, or a name or a type was due. -/
theorem Complaint.of_unknown {last : Option Token.Kind} {char : Char} {fault : SyntaxFault}
    (h : Complaint last (.unknown char) fault) :
    fault = .invalidCharacter char ∨ ∃ before, last = some before ∧
      (before.announcesName = true ∧ fault = .expectedIdent (.unknown char) ∨
        before.announcesType = true ∧ fault = .expectedType (.unknown char)) := by
  cases h with
  | invalid hsame =>
    cases hsame
    exact .inl rfl
  | token hother | expr hother => exact absurd rfl (hother char)
  | number hsame => cases hsame
  | ident hlast hname => exact .inr ⟨_, hlast, .inl ⟨hname, rfl⟩⟩
  | type hlast htype => exact .inr ⟨_, hlast, .inr ⟨htype, rfl⟩⟩

/-- The kind of the last of some tokens, or `last` if there are none. -/
def lastKind (last : Option Token.Kind) : List Token → Option Token.Kind
  | [] => last
  | t :: ts => lastKind (some t.kind) ts

theorem lastKind_append (last : Option Token.Kind) (ts us : List Token) :
    lastKind last (ts ++ us) = lastKind (lastKind last ts) us := by
  induction ts generalizing last with
  | nil => rfl
  | cons t ts ih => exact ih (some t.kind)

namespace Cursor

/-- The errors of a reader, behind a token of kind `last`, are complaints about a token to come. -/
def Blames {β : Type} (last : Option Token.Kind) (c : Cursor) (x : Except SyntaxError β) : Prop :=
  ∀ e, x = .error e → ∃ ts c', c.Reads ts c' ∧ e.span = c'.current.span ∧
    Complaint (lastKind last ts) c'.kind e.fault

section

variable {last : Option Token.Kind} {c c₁ : Cursor} {α β : Type} {n : Nat} {ts : List Token}

/-! ### Rules -/

theorem Blames.pure {b : β} : Blames last c (Pure.pure b) := by
  intro e he
  cases he

/-- The token to come is refused. -/
theorem Blames.here {fault : SyntaxFault} (h : Complaint last c.kind fault) :
    Blames last c (.error ⟨fault, c.current.span⟩ : Except SyntaxError β) := by
  intro e he
  cases he
  exact ⟨[], c, .refl c, rfl, h⟩

theorem Blames.behind {x : Except SyntaxError β} (hreads : c.Reads ts c₁)
    (h : Blames (lastKind last ts) c₁ x) : Blames last c x := by
  intro e he
  obtain ⟨us, c', hus, hspan, hcomplaint⟩ := h e he
  rw [← lastKind_append] at hcomplaint
  exact ⟨ts ++ us, c', hreads.trans hus, hspan, hcomplaint⟩

theorem Blames.bind {x : Except SyntaxError (Read α n)} {f : Read α n → Except SyntaxError β}
    (hx : Blames last c x)
    (hf : ∀ v c₁ h₁, x = .ok ⟨v, c₁, h₁⟩ → Blames last c (f ⟨v, c₁, h₁⟩)) :
    Blames last c (x >>= f) := by
  intro e he
  rcases bind_eq_error_iff.mp he with he | ⟨r, hr, he⟩
  · exact hx e he
  · exact hf r.value r.cursor r.lt hr e he

theorem Blames.map {x : Except SyntaxError α} {f : α → β} (hx : Blames last c x) :
    Blames last c (x >>= fun a => Pure.pure (f a)) := by
  intro e he
  rcases bind_eq_error_iff.mp he with he | ⟨a, -, he⟩
  · exact hx e he
  · cases he

/-- A reader of a phrase: whatever its last token is, the rest is read behind it. -/
theorem Blames.phrase {R : α → List Token → Prop} {x : Except SyntaxError (Read α n)}
    {f : Read α n → Except SyntaxError β} (hx : Blames last c x)
    (hreads : ∀ r, x = .ok r → ∃ ts, c.Reads ts r.cursor ∧ R r.value ts)
    (hf : ∀ last' v c₁ h₁, Blames last' c₁ (f ⟨v, c₁, h₁⟩)) : Blames last c (x >>= f) := by
  refine hx.bind fun v c₁ h₁ hr => ?_
  obtain ⟨ts, hts, -⟩ := hreads _ hr
  exact .behind hts (hf _ v c₁ h₁)

/-! ### One token -/

theorem Blames.unexpected (expected : Expectation) :
    Blames last c (.error (c.unexpected expected) : Except SyntaxError β) := by
  unfold Cursor.unexpected
  cases hkind : c.kind with
  | unknown char => exact .here (.invalid hkind)
  | keyword | symbol | ident | intLit | eof =>
    have hother (char : Char) : c.kind ≠ .unknown char := by
      rw [hkind]
      exact Token.Kind.noConfusion
    simp only
    rw [← hkind]
    exact .here (.token hother)

theorem Blames.accepted {k : Token.Kind} {h₁ : c₁.size < c.size} {x : Except SyntaxError β}
    (haccept : c.accept k = some ⟨(), c₁, h₁⟩) (h : Blames (some k) c₁ x) : Blames last c x :=
  .behind (reads_of_accept haccept) h

theorem blames_expect {k : Token.Kind} : Blames last c (c.expect k) := by
  rw [Cursor.expect]
  cases c.accept k with
  | some r => exact .pure
  | none => exact .unexpected (.token k)

theorem Blames.expect {k : Token.Kind} {f : Read Unit c.size → Except SyntaxError β}
    (hf : ∀ c₁ h₁, Blames (some k) c₁ (f ⟨(), c₁, h₁⟩)) : Blames last c (c.expect k >>= f) :=
  .bind blames_expect fun _ c₁ h₁ hr => .behind (reads_of_expect hr) (hf c₁ h₁)

theorem Blames.keyword {word : Keyword} {f : Read Unit c.size → Except SyntaxError β}
    (hf : ∀ c₁ h₁, Blames (some (.keyword word)) c₁ (f ⟨(), c₁, h₁⟩)) :
    Blames last c (c.keyword word >>= f) :=
  .expect hf

theorem Blames.symbol {sign : Symbol} {f : Read Unit c.size → Except SyntaxError β}
    (hf : ∀ c₁ h₁, Blames (some (.symbol sign)) c₁ (f ⟨(), c₁, h₁⟩)) :
    Blames last c (c.symbol sign >>= f) :=
  .expect hf

theorem Blames.word {name : String} {f : Read Unit c.size → Except SyntaxError β}
    (hf : ∀ c₁ h₁, Blames (some (.ident name)) c₁ (f ⟨(), c₁, h₁⟩)) :
    Blames last c (c.word name >>= f) := by
  rw [Cursor.word]
  cases haccept : c.accept (.ident name) with
  | some r => exact .accepted haccept (hf r.cursor r.lt)
  | none => exact .unexpected (.word name)

/-- A name that comes. -/
theorem Blames.name {name : String} (hkind : c.kind = .ident name)
    {f : Read Ident c.size → Except SyntaxError β}
    (hf : ∀ i c₁ h₁, Blames (some (.ident i.name)) c₁ (f ⟨i, c₁, h₁⟩)) :
    Blames last c (c.ident >>= f) := by
  refine .bind (fun e he => ?_) fun i c₁ h₁ hr => ?_
  · simp only [Cursor.ident, hkind] at he
    rcases bind_eq_error_iff.mp he with he | ⟨r, -, he⟩
    · exact blames_expect e he
    · cases he
  · exact .behind (reads_of_ident hr) (hf i c₁ h₁)

/-- A name that has to come. -/
theorem Blames.ident {before : Token.Kind} (hbefore : before.announcesName = true)
    {f : Read Ident c.size → Except SyntaxError β}
    (hf : ∀ i c₁ h₁, Blames (some (.ident i.name)) c₁ (f ⟨i, c₁, h₁⟩)) :
    Blames (some before) c (c.ident >>= f) := by
  cases hkind : c.kind with
  | ident name => exact .name hkind hf
  | keyword | symbol | intLit | unknown | eof =>
    simp only [Cursor.ident, hkind, error_bind]
    rw [← hkind]
    exact .here (.ident rfl hbefore)

/-! ### Expressions -/

mutual

theorem blames_primary (c : Cursor) (last : Option Token.Kind) : Blames last c c.primary := by
  rw [primary]
  split
  · next digits hkind =>
    -- the number is complained about when it was read already
    refine .bind blames_expect fun _ c₁ h₁ hr => ?_
    simp only
    split
    · exact .pure
    · have hspan : c.current.span = c₁.last := congrArg Token.span (reads_of_expect hr).current_eq
      rw [← hspan]
      exact .here (.number hkind)
  · exact .keyword fun c₁ h₁ => .pure
  · exact .keyword fun c₁ h₁ => .pure
  · exact .keyword fun c₁ h₁ => .pure
  · next hkind => exact .name hkind fun i c₁ h₁ => .pure
  · refine .keyword fun c₁ h₁ => ?_
    simp only
    split
    · next c₂ h₂ hint =>
      exact .accepted hint <| .symbol fun c₃ h₃ =>
        .phrase (blames_expr c₃ _) (fun _ => reads_of_expr c₃) fun _ size c₄ h₄ =>
        .symbol fun c₅ h₅ => .pure
    · exact .ident rfl fun cls c₂ h₂ => .symbol fun c₃ h₃ => .symbol fun c₄ h₄ => .pure
  · exact .symbol fun c₁ h₁ => .bind (blames_primary c₁ _) fun _ _ _ _ => .pure
  · exact .symbol fun c₁ h₁ =>
      .phrase (blames_expr c₁ _) (fun _ => reads_of_expr c₁) fun _ inner c₂ h₂ =>
      .symbol fun c₃ h₃ => .pure
  · next hkind => exact .here (.invalid hkind)
  · next hother => exact .here (.expr fun char hkind => hother char hkind)
termination_by (c.size, 0)

theorem blames_expr (c : Cursor) (last : Option Token.Kind) : Blames last c c.expr := by
  rw [expr]
  refine .bind (blames_primary c last) fun left c₁ h₁ hleft => ?_
  obtain ⟨ts, hts, -⟩ := reads_of_primary c hleft
  refine .behind hts ?_
  simp only
  split
  · exact .symbol fun c₂ h₂ => .bind (blames_primary c₂ _) fun _ _ _ _ => .pure
  split
  · next c₂ h₂ hopen =>
    refine .accepted hopen <| .bind (blames_primary c₂ _) fun index c₃ h₃ hindex => ?_
    obtain ⟨us, hus, -⟩ := reads_of_primary c₂ hindex
    exact .behind hus (.symbol fun c₄ h₄ => .pure)
  split
  · next c₂ h₂ hdot =>
    refine .accepted hdot <| .ident rfl fun method c₃ h₃ => ?_
    simp only
    split
    · exact .pure
    refine .symbol fun c₄ h₄ => ?_
    simp only
    split
    · exact .pure
    · exact .bind (blames_args c₄ _) fun _ _ _ _ => .pure
  · exact .pure
termination_by (c.size, 1)

theorem blames_args (c : Cursor) (last : Option Token.Kind) : Blames last c c.args := by
  rw [args]
  refine .phrase (blames_expr c last) (fun _ => reads_of_expr c) fun _ arg c₁ h₁ => ?_
  simp only
  split
  · next c₂ h₂ hcomma =>
    exact .accepted hcomma <| .bind (blames_args c₂ _) fun _ _ _ _ => .pure
  · exact .symbol fun c₂ h₂ => .pure
termination_by (c.size, 2)

end

/-- An expression, and what follows it. -/
theorem Blames.expression {f : Read Expr c.size → Except SyntaxError β}
    (hf : ∀ last' e c₁ h₁, Blames last' c₁ (f ⟨e, c₁, h₁⟩)) : Blames last c (c.expr >>= f) :=
  .phrase (blames_expr c last) (fun _ => reads_of_expr c) hf

/-! ### Statements -/

theorem blames_printStmt : Blames last c c.printStmt :=
  .word fun _ _ => .symbol fun _ _ => .word fun _ _ => .symbol fun _ _ => .word fun _ _ =>
    .symbol fun _ _ => .expression fun _ _ _ _ => .symbol fun _ _ => .symbol fun _ _ => .pure

theorem blames_assignment {name : String} (hkind : c.kind = .ident name) :
    Blames last c c.assignment := by
  refine .name hkind fun target c₁ h₁ => ?_
  simp only
  split
  · next c₂ h₂ hopen =>
    exact .accepted hopen <| .expression fun _ _ c₃ h₃ => .symbol fun c₄ h₄ => .symbol fun c₅ h₅ =>
      .expression fun _ _ c₆ h₆ => .symbol fun c₇ h₇ => .pure
  · exact .symbol fun c₂ h₂ => .expression fun _ _ c₃ h₃ => .symbol fun c₄ h₄ => .pure

mutual

theorem blames_stmt (c : Cursor) (last : Option Token.Kind) : Blames last c c.stmt := by
  rw [stmt]
  split
  · exact .symbol fun c₁ h₁ => .bind (blames_stmtsUpTo _ c₁ _) fun _ _ _ _ => .pure
  · exact .keyword fun c₁ h₁ => .symbol fun c₂ h₂ => .expression fun _ cond c₃ h₃ =>
      .symbol fun c₄ h₄ => .phrase (blames_stmt c₄ _) (fun _ => reads_of_stmt c₄)
      fun _ thenBranch c₅ h₅ => .keyword fun c₆ h₆ => .bind (blames_stmt c₆ _) fun _ _ _ _ => .pure
  · exact .keyword fun c₁ h₁ => .symbol fun c₂ h₂ => .expression fun _ cond c₃ h₃ =>
      .symbol fun c₄ h₄ => .bind (blames_stmt c₄ _) fun _ _ _ _ => .pure
  · next hkind =>
    split
    · exact blames_printStmt
    · exact blames_assignment hkind
  · exact .unexpected .statement
termination_by (c.size, 0)

theorem blames_stmtsUpTo (close : Token.Kind) (c : Cursor) (last : Option Token.Kind) :
    Blames last c (c.stmtsUpTo close) := by
  rw [stmtsUpTo]
  split
  · exact .pure
  split
  · exact .unexpected (.token close)
  · exact .phrase (blames_stmt c last) (fun _ => reads_of_stmt c) fun _ first c₁ h₁ =>
      .bind (blames_stmtsUpTo close c₁ _) fun _ _ _ _ => .pure
termination_by (c.size, 1)

end

/-! ### Declarations -/

/-- A type that comes or has to come. -/
theorem blames_typeExpr (hdue : c.atVarDecl = true ∨
    ∃ before, last = some before ∧ before.announcesType = true) : Blames last c c.typeExpr := by
  rw [typeExpr]
  split
  · refine .keyword fun c₁ h₁ => ?_
    simp only
    split
    · next c₂ h₂ hopen => exact .accepted hopen <| .symbol fun c₃ h₃ => .pure
    · exact .pure
  · exact .keyword fun c₁ h₁ => .pure
  · next hkind => exact .name hkind fun name c₁ h₁ => .pure
  · next hint hboolean hident =>
    rcases hdue with hdecl | ⟨before, hlast, hbefore⟩
    · unfold atVarDecl at hdecl
      split at hdecl
      · next hkind => exact absurd hkind hint
      · next hkind => exact absurd hkind hboolean
      · next name hkind => exact absurd hkind (hident name)
      · cases hdecl
    · exact .here (.type hlast hbefore)

/-- A type, and a name behind it. -/
theorem Blames.type (hdue : c.atVarDecl = true ∨
      ∃ before, last = some before ∧ before.announcesType = true)
    {f : Read TypeExpr c.size → Except SyntaxError β}
    (hf : ∀ before type c₁ h₁, before.announcesName = true →
      Blames (some before) c₁ (f ⟨type, c₁, h₁⟩)) : Blames last c (c.typeExpr >>= f) := by
  refine .bind (blames_typeExpr hdue) fun type c₁ h₁ hr => ?_
  obtain ⟨ts, hts, htype⟩ := reads_of_typeExpr c hr
  refine .behind hts ?_
  cases htype with
  | int | boolean | intArray | named => exact hf _ _ c₁ h₁ rfl

theorem blames_varDecl (hdecl : c.atVarDecl = true) : Blames last c c.varDecl :=
  .type (.inl hdecl) fun _ _ _ _ hbefore => .ident hbefore fun _ _ _ => .symbol fun _ _ => .pure

theorem blames_varDecls (c : Cursor) (last : Option Token.Kind) : Blames last c c.varDecls := by
  rw [varDecls]
  split
  · next hdecl =>
    exact .phrase (blames_varDecl hdecl) (fun _ => reads_of_varDecl c) fun _ first c₁ h₁ =>
      .bind (blames_varDecls c₁ _) fun _ _ _ _ => .pure
  · exact .pure
termination_by c.size

theorem blames_params (c : Cursor) {before : Token.Kind} (hbefore : before.announcesType = true) :
    Blames (some before) c c.params := by
  rw [params]
  refine .type (.inr ⟨before, rfl, hbefore⟩) fun _ type c₁ h₁ hbefore' =>
    .ident hbefore' fun name c₂ h₂ => ?_
  simp only
  split
  · next c₃ h₃ hcomma =>
    exact .accepted hcomma <| .bind (blames_params c₃ rfl) fun _ _ _ _ => .pure
  · exact .symbol fun c₃ h₃ => .pure
termination_by c.size

theorem blames_paramList : Blames last c c.paramList := by
  refine .symbol fun c₁ h₁ => ?_
  simp only
  split
  · exact .pure
  · exact .bind (blames_params c₁ rfl) fun _ _ _ _ => .pure

theorem blames_methodDecl : Blames last c c.methodDecl := by
  refine .keyword fun c₁ h₁ => .type (.inr ⟨_, rfl, rfl⟩) fun _ returns c₂ h₂ hbefore => ?_
  refine .ident hbefore fun name c₃ h₃ => .bind blames_paramList fun params c₄ h₄ hparams => ?_
  obtain ⟨a, ts, hts, -⟩ := reads_of_paramList c₃ hparams
  refine .behind hts <| .symbol fun c₅ h₅ => ?_
  refine .phrase (blames_varDecls c₅ _) (fun _ => reads_of_varDecls c₅) fun _ vars c₆ h₆ => ?_
  refine .bind (blames_stmtsUpTo _ c₆ _) fun body c₇ h₇ hbody => ?_
  obtain ⟨us, hus, -⟩ := reads_of_stmtsUpTo c₆ hbody
  exact .behind hus <| .expression fun _ result c₈ h₈ => .symbol fun c₉ h₉ =>
    .symbol fun c₁₀ h₁₀ => .pure

theorem blames_methodDecls (c : Cursor) (last : Option Token.Kind) :
    Blames last c c.methodDecls := by
  rw [methodDecls]
  split
  · exact .phrase blames_methodDecl (fun _ => reads_of_methodDecl c) fun _ first c₁ h₁ =>
      .bind (blames_methodDecls c₁ _) fun _ _ _ _ => .pure
  · exact .pure
termination_by c.size

theorem blames_parent : Blames last c c.parent := by
  rw [parent]
  split
  · next c₁ h₁ hextends => exact .accepted hextends <| .ident rfl fun name c₂ h₂ => .pure
  · exact .pure

theorem blames_classDecl : Blames last c c.classDecl := by
  refine .keyword fun c₁ h₁ => .ident rfl fun name c₂ h₂ => ?_
  refine .bind blames_parent fun parent c₃ h₃ hparent => ?_
  obtain ⟨ts, hts, -⟩ := reads_of_parent c₂ hparent
  refine .behind hts <| .symbol fun c₄ h₄ => ?_
  exact .phrase (blames_varDecls c₄ _) (fun _ => reads_of_varDecls c₄) fun _ fields c₅ h₅ =>
    .phrase (blames_methodDecls c₅ _) (fun _ => reads_of_methodDecls c₅) fun _ methods c₆ h₆ =>
    .symbol fun c₇ h₇ => .pure

theorem blames_classDecls (c : Cursor) (last : Option Token.Kind) :
    Blames last c c.classDecls := by
  rw [classDecls]
  split
  · exact .pure
  · exact .phrase blames_classDecl (fun _ => reads_of_classDecl c) fun _ first c₁ h₁ =>
      .map (blames_classDecls c₁ _)
termination_by c.size

theorem blames_mainClass : Blames last c c.mainClass := by
  refine .keyword fun c₁ h₁ => .ident rfl fun name c₂ h₂ => .symbol fun c₃ h₃ => ?_
  refine .keyword fun c₄ h₄ => .keyword fun c₅ h₅ => .keyword fun c₆ h₆ => .word fun c₇ h₇ => ?_
  refine .symbol fun c₈ h₈ => .word fun c₉ h₉ => .symbol fun c₁₀ h₁₀ => .symbol fun c₁₁ h₁₁ => ?_
  refine .ident rfl fun args c₁₂ h₁₂ => .symbol fun c₁₃ h₁₃ => .symbol fun c₁₄ h₁₄ => ?_
  refine .phrase (blames_varDecls c₁₄ _) (fun _ => reads_of_varDecls c₁₄) fun _ vars c₁₅ h₁₅ => ?_
  refine .bind (blames_stmtsUpTo _ c₁₅ _) fun body c₁₆ h₁₆ hbody => ?_
  obtain ⟨ts, hts, -⟩ := reads_of_stmtsUpTo c₁₅ hbody
  exact .behind hts <| .symbol fun c₁₇ h₁₇ => .pure

end

end Cursor

/-- The errors of a list of tokens. -/
theorem Program.ofTokens_blames (tokens : List Token) :
    Cursor.Blames none (.start tokens) (Program.ofTokens tokens) := by
  rw [Program.ofTokens]
  exact .phrase Cursor.blames_mainClass (fun _ => Cursor.reads_of_mainClass _)
    fun _ main c₁ h₁ => .map (Cursor.blames_classDecls c₁ _)

/-! ### Texts -/

theorem exists_of_lastKind {ts : List Token} {k : Token.Kind} (h : lastKind none ts = some k) :
    ∃ us u, ts = us ++ [u] ∧ u.kind = k := by
  rcases List.eq_nil_or_concat ts with rfl | ⟨us, u, rfl⟩
  · cases h
  · rw [List.concat_eq_append, lastKind_append] at h
    exact ⟨us, u, List.concat_eq_append, Option.some.inj h⟩

/-- Tokens in a row are told apart by their spans. -/
theorem InRow.eq_of_span_eq {file : Nat} {ts : List Token} (h : InRow file ts) {t u : Token}
    (ht : t ∈ ts) (hu : u ∈ ts) (hspan : t.span = u.span) : t = u := by
  obtain ⟨i, hi, rfl⟩ := List.mem_iff_getElem.mp ht
  obtain ⟨j, hj, rfl⟩ := List.mem_iff_getElem.mp hu
  have hlt := h.start_lt _ ht
  rcases Nat.lt_trichotomy i j with hij | rfl | hij
  · have hstop := List.pairwise_iff_getElem.mp h.pairwise i j hi hj hij
    rw [← hspan] at hstop
    omega
  · rfl
  · have hstop := List.pairwise_iff_getElem.mp h.pairwise j i hj hi hij
    rw [← hspan] at hstop
    omega

/-- A token of a text and the end mark have different spans, and so have any two other tokens. -/
theorem eq_of_span_eq_tokenize {text : String} {file : Nat} {t u : Token}
    (ht : t ∈ tokenize text file) (hu : u ∈ tokenize text file) (hkind : t.kind ≠ .eof)
    (hspan : t.span = u.span) : t = u := by
  have hukind : u.kind ≠ .eof := by
    rcases tokenize_span text file t ht with ⟨heof, -⟩ | ⟨-, hwithin⟩
    · exact absurd heof hkind
    rcases tokenize_span text file u hu with ⟨-, hempty⟩ | ⟨hne, -⟩
    · have hlt := hwithin.start_lt
      rw [hspan, hempty] at hlt
      exact absurd hlt (Nat.lt_irrefl _)
    · exact hne
  obtain ⟨words, mark, htokens, hmark, -⟩ := tokenize_shape text file
  have hword {v : Token} (hv : v ∈ tokenize text file) (hne : v.kind ≠ .eof) : v ∈ words := by
    rw [htokens] at hv
    rcases List.mem_append.mp hv with hv | hv
    · exact hv
    · obtain rfl := List.mem_singleton.mp hv
      exact absurd hmark hne
  exact (inRow_of_tokenize htokens).eq_of_span_eq (hword ht hkind) (hword hu hukind) hspan

/-- The token to come at a place in a text is one of its tokens, also behind the end mark. -/
theorem current_mem_tokenize {text : String} {file : Nat} {ts : List Token} {c : Cursor}
    (h : (Cursor.start (tokenize text file)).Reads ts c) : c.current ∈ tokenize text file := by
  have hrest : tokenize text file = ts ++ c.rest := h.rest_eq
  obtain ⟨last, rest⟩ := c
  cases rest with
  | cons u us =>
    rw [hrest]
    exact List.mem_append_right ts List.mem_cons_self
  | nil =>
    obtain ⟨words, mark, htokens, hmark, -⟩ := tokenize_shape text file
    have hts : ts = words ++ [mark] := by rw [← htokens, hrest, List.append_nil]
    have hlast : last = lastSpan default ts := h.last_eq
    rw [hts, lastSpan_append] at hlast
    have hcurrent : (⟨.eof, last⟩ : Token) = mark := by
      rw [hlast, ← hmark]
      rfl
    rw [htokens]
    exact List.mem_append_right words (List.mem_singleton.mpr hcurrent)

/-- **What is said about invalid characters.** If the error of a text stands at a character that
belongs to no token, it says that this character is invalid, unless a name or a type has to come
there: then it says that something else comes, and the token right before announces a name or a type.
An error that calls a character invalid stands at this character. -/
theorem invalid_characters_reported (text : String) (file : Nat) (e : SyntaxError)
    (h : Program.parse text file = .error e) :
    (∀ t ∈ tokenize text file, ∀ char, t.kind = .unknown char → t.span = e.span →
      e.fault = .invalidCharacter char ∨
      ∃ before u after, tokenize text file = before ++ u :: t :: after ∧
        (u.kind.announcesName = true ∧ e.fault = .expectedIdent (.unknown char) ∨
          u.kind.announcesType = true ∧ e.fault = .expectedType (.unknown char))) ∧
    ∀ char, e.fault = .invalidCharacter char →
      ∃ t ∈ tokenize text file, t.kind = .unknown char ∧ t.span = e.span := by
  obtain ⟨ts, c, hreads, hspan, hcomplaint⟩ := Program.ofTokens_blames _ e h
  have hmem := current_mem_tokenize hreads
  constructor
  · intro t ht char hchar hat
    have hne : t.kind ≠ .eof := by
      rw [hchar]
      exact Token.Kind.noConfusion
    -- the error stands at one token only
    obtain rfl : t = c.current := eq_of_span_eq_tokenize ht hmem hne (hat.trans hspan)
    have hkind : c.kind = .unknown char := hchar
    obtain ⟨a, c₁, hstep⟩ := Cursor.exists_reads hkind Token.Kind.noConfusion
    have hrest : tokenize text file = ts ++ c.current :: c₁.rest := by
      rw [hstep.current_eq, ← List.singleton_append, ← hstep.rest_eq]
      exact hreads.rest_eq
    rw [hkind] at hcomplaint
    rcases hcomplaint.of_unknown with hinvalid | ⟨before, hlast, hdue⟩
    · exact .inl hinvalid
    · obtain ⟨us, u, rfl, rfl⟩ := exists_of_lastKind hlast
      rw [List.append_assoc] at hrest
      exact .inr ⟨us, u, c₁.rest, hrest, hdue⟩
  · intro char hfault
    rw [hfault] at hcomplaint
    cases hcomplaint with
    | invalid hkind => exact ⟨c.current, hmem, hkind, hspan.symm⟩

theorem invalid_characters_reported_ampersand :
    Program.parse "class A &" 0 = .error ⟨.invalidCharacter '&', ⟨8, 9, 0⟩⟩ ∧
      (∀ t ∈ tokenize "class A &" 0, ∀ char, t.kind = .unknown char → t.span = ⟨8, 9, 0⟩ →
        SyntaxFault.invalidCharacter '&' = .invalidCharacter char ∨
        ∃ before u after, tokenize "class A &" 0 = before ++ u :: t :: after ∧
          (u.kind.announcesName = true ∧
              SyntaxFault.invalidCharacter '&' = .expectedIdent (.unknown char) ∨
            u.kind.announcesType = true ∧
              SyntaxFault.invalidCharacter '&' = .expectedType (.unknown char))) ∧
      ∀ char, SyntaxFault.invalidCharacter '&' = .invalidCharacter char →
        ∃ t ∈ tokenize "class A &" 0, t.kind = .unknown char ∧ t.span = ⟨8, 9, 0⟩ := by
  have htokens : tokenize "class A &" 0 =
      [⟨.keyword .classKw, ⟨0, 5, 0⟩⟩, ⟨.ident "A", ⟨6, 7, 0⟩⟩, ⟨.unknown '&', ⟨8, 9, 0⟩⟩,
        ⟨.eof, ⟨9, 9, 0⟩⟩] := by
    decide +kernel
  have hparse : Program.parse "class A &" 0 = .error ⟨.invalidCharacter '&', ⟨8, 9, 0⟩⟩ := by
    rw [Program.parse, htokens]
    rfl
  exact ⟨hparse, invalid_characters_reported _ _ _ hparse⟩

/-- A character in the place of the name of a class is not called invalid. -/
theorem nameless_class_not_called_invalid :
    ⟨.unknown '#', ⟨6, 7, 0⟩⟩ ∈ tokenize "class #" 0 ∧
      Program.parse "class #" 0 = .error ⟨.expectedIdent (.unknown '#'), ⟨6, 7, 0⟩⟩ ∧
      SyntaxFault.expectedIdent (.unknown '#') ≠ .invalidCharacter '#' := by
  have htokens : tokenize "class #" 0 =
      [⟨.keyword .classKw, ⟨0, 5, 0⟩⟩, ⟨.unknown '#', ⟨6, 7, 0⟩⟩, ⟨.eof, ⟨7, 7, 0⟩⟩] := by
    decide +kernel
  refine ⟨?_, ?_, SyntaxFault.noConfusion⟩
  · rw [htokens]
    exact List.mem_cons_of_mem _ List.mem_cons_self
  · rw [Program.parse, htokens]
    rfl

end MiniJava
