import MiniJava.Error
import MiniJava.Proofs.Naturality
import MiniJava.Proofs.ProgramRuns
import MiniJava.Proofs.RoundTrip

/-!
# Texts in other files

The number of its file goes from a text into each token, from the tokens into each node of the tree,
and from the tree into each error. `Span.inFile` changes the number, and every step of the way
commutes with that change: `tokenize_inFile`, `Program.parse_inFile` and `analyzeText_inFile`.

For trees the step is a fact about derivations. A change of spans that commutes with joining them
takes a derivation to a derivation (`Program.ReadFrom.relocate`).
-/

namespace MiniJava

/-- A token with another span. -/
def Token.relocate (g : Span → Span) (t : Token) : Token :=
  ⟨t.kind, g t.span⟩

/-! ### Derivations -/

section

variable (g : Span → Span)

theorem lastSpan_relocate (last : Span) (ts : List Token) :
    g (lastSpan last ts) = lastSpan (g last) (ts.map (Token.relocate g)) := by
  induction ts generalizing last with
  | nil => rfl
  | cons t ts ih => exact ih t.span

theorem Ident.span_map (i : Ident) : (i.map id g).span = g i.span := rfl

theorem TypeExpr.span_map (type : TypeExpr) : (type.map id g).span = g type.span := by
  cases type <;> rfl

variable {g}

theorem ReadAll.relocate {α : Type} {R : α → List Token → Prop} {φ : α → α} {as : List α}
    {ts : List Token} (hR : ∀ a us, R a us → R (φ a) (us.map (Token.relocate g)))
    (h : ReadAll R as ts) : ReadAll R (as.map φ) (ts.map (Token.relocate g)) := by
  induction h with
  | nil => exact .nil
  | cons ha _ ih =>
    rw [List.map_cons, List.map_append]
    exact .cons (hR _ _ ha) ih

theorem TypeExpr.ReadFrom.relocate (hg : ∀ a b, g (a.merge b) = (g a).merge (g b)) {type : TypeExpr}
    {ts : List Token} (h : type.ReadFrom ts) :
    (type.map id g).ReadFrom (ts.map (Token.relocate g)) := by
  cases h with
  | int => exact .int
  | boolean => exact .boolean
  | named => exact .named
  | intArray =>
    rw [TypeExpr.map, hg]
    exact .intArray

mutual

theorem Expr.ReadFrom.relocate (hg : ∀ a b, g (a.merge b) = (g a).merge (g b)) :
    ∀ {e : Expr} {ts : List Token}, e.ReadFrom ts →
      (e.map id g).ReadFrom (ts.map (Token.relocate g))
  | _, _, .int hvalue => by
    rw [Expr.map]
    exact .int hvalue
  | _, _, .bool => by
    rw [Expr.map]
    exact .bool
  | _, _, .ident => by
    rw [Expr.map]
    exact .ident
  | _, _, .this => by
    rw [Expr.map]
    exact .this
  | _, _, .newArray h => by
    simp only [Expr.map, hg, List.map_cons, List.map_append]
    exact .newArray (h.relocate hg)
  | _, _, .newObject => by
    rw [Expr.map, hg]
    exact .newObject
  | _, _, .not hprimary h => by
    rw [← Expr.isPrimary_map id g] at hprimary
    simp only [Expr.map, hg, ← Expr.span_map (f := id) (g := g), List.map_cons]
    exact .not hprimary (h.relocate hg)
  | _, _, .paren h => by
    simp only [Expr.map, hg, List.map_cons, List.map_append]
    exact .paren (h.relocate hg)
  | _, _, .binary hl hr hleft hright => by
    rw [← Expr.isPrimary_map id g] at hl hr
    simp only [Expr.map, hg, ← Expr.span_map (f := id) (g := g), List.map_cons, List.map_append]
    exact .binary hl hr (hleft.relocate hg) (hright.relocate hg)
  | _, _, .index ha hp harray hposition => by
    rw [← Expr.isPrimary_map id g] at ha hp
    simp only [Expr.map, hg, ← Expr.span_map (f := id) (g := g), List.map_cons, List.map_append]
    exact .index ha hp (harray.relocate hg) (hposition.relocate hg)
  | _, _, .length ha harray => by
    rw [← Expr.isPrimary_map id g] at ha
    simp only [Expr.map, hg, ← Expr.span_map (f := id) (g := g), List.map_cons, List.map_append]
    exact .length ha (harray.relocate hg)
  | _, _, .send hr hreceiver hargs => by
    rw [← Expr.isPrimary_map id g] at hr
    simp only [Expr.map, hg, ← Expr.span_map (f := id) (g := g), List.map_cons, List.map_append]
    exact .send hr (hreceiver.relocate hg) (hargs.relocate hg)

theorem Expr.ArgsReadFrom.relocate (hg : ∀ a b, g (a.merge b) = (g a).merge (g b)) :
    ∀ {args : List Expr} {ts : List Token}, Expr.ArgsReadFrom args ts →
      Expr.ArgsReadFrom (Expr.mapAll id g args) (ts.map (Token.relocate g))
  | _, _, .nil => by
    rw [Expr.mapAll]
    exact .nil
  | _, _, .one h => by
    rw [Expr.mapAll, Expr.mapAll]
    exact .one (h.relocate hg)
  | _, _, .cons h hmore => by
    have hmore := hmore.relocate hg
    simp only [Expr.mapAll, List.map_cons, List.map_append] at hmore ⊢
    exact .cons (h.relocate hg) hmore

end

mutual

theorem Stmt.ReadFrom.relocate (hg : ∀ a b, g (a.merge b) = (g a).merge (g b)) :
    ∀ {s : Stmt} {ts : List Token}, s.ReadFrom ts →
      (s.map id g).ReadFrom (ts.map (Token.relocate g))
  | _, _, .block h => by
    simp only [Stmt.map, hg, List.map_cons, List.map_append]
    exact .block (h.relocate hg)
  | _, _, .assign h => by
    simp only [Stmt.map, hg, ← Ident.span_map g, List.map_cons, List.map_append]
    exact .assign (h.relocate hg)
  | _, _, .arrayAssign hp hv => by
    simp only [Stmt.map, hg, ← Ident.span_map g, List.map_cons, List.map_append]
    exact .arrayAssign (hp.relocate hg) (hv.relocate hg)
  | _, _, .ifElse hc ht he => by
    simp only [Stmt.map, hg, lastSpan_relocate g, List.map_cons, List.map_append]
    exact .ifElse (hc.relocate hg) (ht.relocate hg) (he.relocate hg)
  | _, _, .whileLoop hc hbody => by
    simp only [Stmt.map, hg, lastSpan_relocate g, List.map_cons, List.map_append]
    exact .whileLoop (hc.relocate hg) (hbody.relocate hg)
  | _, _, .print h => by
    simp only [Stmt.map, hg, List.map_cons, List.map_append]
    exact .print (h.relocate hg)

theorem Stmt.AllReadFrom.relocate (hg : ∀ a b, g (a.merge b) = (g a).merge (g b)) :
    ∀ {body : List Stmt} {ts : List Token}, Stmt.AllReadFrom body ts →
      Stmt.AllReadFrom (Stmt.mapAll id g body) (ts.map (Token.relocate g))
  | _, _, .nil => by
    rw [Stmt.mapAll]
    exact .nil
  | _, _, .cons h hmore => by
    rw [Stmt.mapAll, List.map_append]
    exact .cons (h.relocate hg) (hmore.relocate hg)

end

variable (hg : ∀ a b, g (a.merge b) = (g a).merge (g b))
include hg

theorem VarDecl.ReadFrom.relocate {d : VarDecl} {ts : List Token} (h : d.ReadFrom ts) :
    (d.map id g).ReadFrom (ts.map (Token.relocate g)) := by
  obtain ⟨htype⟩ := h
  rw [VarDecl.map, hg, ← TypeExpr.span_map g, List.map_append]
  exact .intro (htype.relocate hg)

theorem VarDecl.ParamReadFrom.relocate {d : VarDecl} {ts : List Token} (h : d.ParamReadFrom ts) :
    (d.map id g).ParamReadFrom (ts.map (Token.relocate g)) := by
  obtain ⟨htype⟩ := h
  rw [VarDecl.map, hg, ← TypeExpr.span_map g, List.map_append]
  exact .intro (htype.relocate hg)

theorem VarDecl.ParamsReadFrom.relocate {ds : List VarDecl} {ts : List Token}
    (h : VarDecl.ParamsReadFrom ds ts) :
    VarDecl.ParamsReadFrom (ds.map (VarDecl.map id g)) (ts.map (Token.relocate g)) := by
  induction h with
  | nil => exact .nil
  | one h => exact .one (h.relocate hg)
  | cons h _ ih =>
    rw [List.map_append]
    exact .cons (h.relocate hg) ih

theorem MethodDecl.ReadFrom.relocate {d : MethodDecl} {ts : List Token} (h : d.ReadFrom ts) :
    (d.map id g).ReadFrom (ts.map (Token.relocate g)) := by
  obtain ⟨hreturns, hparams, hvars, hbody, hresult⟩ := h
  have hvars := hvars.relocate fun _ _ => VarDecl.ReadFrom.relocate hg
  simp only [MethodDecl.map, hg, List.map_cons, List.map_append]
  exact .intro (hreturns.relocate hg) (hparams.relocate hg) hvars (hbody.relocate hg)
    (hresult.relocate hg)

theorem ClassDecl.ReadFrom.relocate {d : ClassDecl} {ts : List Token} (h : d.ReadFrom ts) :
    (d.map id g).ReadFrom (ts.map (Token.relocate g)) := by
  obtain ⟨hparent, hfields, hmethods⟩ := h
  have hfields := hfields.relocate fun _ _ => VarDecl.ReadFrom.relocate hg
  have hmethods := hmethods.relocate fun _ _ => MethodDecl.ReadFrom.relocate hg
  simp only [ClassDecl.map, hg, List.map_cons, List.map_append]
  refine .intro ?_ hfields hmethods
  cases hparent with
  | none => exact .none
  | some => exact .some

theorem MainClass.ReadFrom.relocate {d : MainClass} {ts : List Token} (h : d.ReadFrom ts) :
    (d.map id g).ReadFrom (ts.map (Token.relocate g)) := by
  obtain ⟨hvars, hbody⟩ := h
  have hvars := hvars.relocate fun _ _ => VarDecl.ReadFrom.relocate hg
  simp only [MainClass.map, hg, List.map_cons, List.map_append]
  exact .intro hvars (hbody.relocate hg)

/-- A change of spans that commutes with joining them takes a derivation to a derivation. -/
theorem Program.ReadFrom.relocate {p : Program} {ts : List Token} (h : p.ReadFrom ts) :
    (p.map id g).ReadFrom (ts.map (Token.relocate g)) := by
  obtain ⟨hmain, hclasses⟩ := h
  rw [Program.map, List.map_append]
  exact .intro (hmain.relocate hg) (hclasses.relocate fun _ _ => ClassDecl.ReadFrom.relocate hg)

end

/-! ### Other files -/

/-- The same stretch of file number `file`. -/
def Span.inFile (file : Nat) (s : Span) : Span :=
  ⟨s.start, s.stop, file⟩

theorem Span.inFile_merge (file : Nat) (a b : Span) :
    (a.merge b).inFile file = (a.inFile file).merge (b.inFile file) := rfl

/-- The same place in file number `file`. -/
def Scanner.inFile (file : Nat) (s : Scanner) : Scanner :=
  ⟨file, s.offset, s.rest⟩

/-- Reading a token does not look at the number of the file. -/
theorem Scanner.next_inFile (file : Nat) (s : Scanner) :
    (s.inFile file).next = (s.next.1.relocate (Span.inFile file), s.next.2.inFile file) := by
  unfold next
  dsimp only [inFile]
  split <;> rfl

theorem Scanner.tokens_inFile (file : Nat) (s : Scanner) :
    (s.inFile file).tokens = s.tokens.map (Token.relocate (Span.inFile file)) := by
  rw [tokens_eq (s.inFile file), tokens_eq s, next_inFile]
  by_cases hmark : s.next.1.kind = .eof
  · have hmark' : (s.next.1.relocate (Span.inFile file)).kind = .eof := hmark
    rw [if_pos hmark, if_pos hmark']
    rfl
  · have hmark' : (s.next.1.relocate (Span.inFile file)).kind ≠ .eof := hmark
    rw [if_neg hmark, if_neg hmark', List.map_cons]
    exact congrArg _ (s.next.2.tokens_inFile file)
termination_by s.rest.length
decreasing_by exact rest_next_lt hmark

/-- The tokens of a text are the same in every file, apart from the number in their spans. -/
theorem tokenize_inFile (text : String) (file file' : Nat) :
    tokenize text file' = (tokenize text file).map (Token.relocate (Span.inFile file')) :=
  (Scanner.start text file).tokens_inFile file'

theorem kinds_tokenize_inFile (text : String) (file file' : Nat) :
    (tokenize text file').map Token.kind = (tokenize text file).map Token.kind := by
  rw [tokenize_inFile text file file', List.map_map]
  rfl

/-- An error of form in file number `file`. -/
def SyntaxError.inFile (file : Nat) (e : SyntaxError) : SyntaxError :=
  ⟨e.fault, e.span.inFile file⟩

/-- What a text is read as is the same in every file, apart from the number in its spans. -/
theorem Program.parse_inFile (text : String) (file file' : Nat) :
    Program.parse text file' = match Program.parse text file with
      | .ok p => .ok (p.map id (Span.inFile file'))
      | .error e => .error (e.inFile file') := by
  cases h : Program.parse text file with
  | ok p =>
    obtain ⟨words, mark, htokens, hmark, -, hp⟩ := Program.readFrom_of_parse h
    have hp' := hp.relocate (Span.inFile_merge file')
    have htokens' : tokenize text file' = words.map (Token.relocate (Span.inFile file')) ++
        [mark.relocate (Span.inFile file')] := by
      rw [tokenize_inFile text file, htokens, List.map_append]
      rfl
    rw [Program.parse, htokens']
    exact hp'.ofTokens_eq hmark
  | error e =>
    obtain ⟨k, t, ht, hspan, -, hrun⟩ := Program.parse_eq_error h
    have hagree (i : Nat) (_ : i < k + 2) :
        (tokenize text file')[i]?.map Token.kind = (tokenize text file)[i]?.map Token.kind := by
      rw [← List.getElem?_map, ← List.getElem?_map, kinds_tokenize_inFile text file]
    obtain ⟨t', ht', herror⟩ := hrun text file' hagree
    -- the error stands at the token with the same index, and this is the same token elsewhere
    have htoken : t' = t.relocate (Span.inFile file') := by
      rw [tokenize_inFile text file, List.getElem?_map, ht] at ht'
      exact (Option.some.inj ht').symm
    show Program.parse text file' = .error ⟨e.fault, e.span.inFile file'⟩
    rw [herror, htoken, hspan]
    rfl

/-- An error in file number `file`. -/
def Error.inFile (file : Nat) : Error → Error
  | .form e => .form (e.inFile file)
  | .meaning e => .meaning ⟨e.fault, e.span.inFile file⟩

/-- The outcome of an analysis does not depend on the number of the file: the table is the same, and
so is the error, apart from the number in its span. -/
theorem analyzeText_inFile (text : String) (file file' : Nat) :
    analyzeText text file' = (analyzeText text file).mapError (Error.inFile file') := by
  unfold analyzeText
  rw [Program.parse_inFile text file file']
  cases Program.parse text file with
  | error e => rfl
  | ok p =>
    have hid : Function.Injective (id : String → String) := fun _ _ => id
    have hresult : (p.map id (Span.inFile file')).analyze.result =
        relabel id (Span.inFile file') id p.analyze.result := by
      rw [Program.analyze_map hid rfl, SymbolTable.rename_id]
      rfl
    show (p.map id (Span.inFile file')).analyze.result.mapError Error.meaning =
      (p.analyze.result.mapError Error.meaning).mapError (Error.inFile file')
    rw [hresult]
    cases p.analyze.result with
    | ok t => rfl
    | error e =>
      show Except.error (Error.meaning (e.map id (Span.inFile file'))) = _
      rw [SemanticError.map, SemanticFault.rename_id]
      rfl

end MiniJava
