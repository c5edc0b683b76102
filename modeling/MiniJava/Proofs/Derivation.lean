import MiniJava.Program.Derivation
import MiniJava.Proofs.TextCut

/-!
# What a derivation says about a program

If a program was read from some tokens, its kinds are the kinds of these tokens up to leading zeros
of literals (`ReadFrom.kinds_eq`), all of them are kinds that a program can have
(`ReadFrom.allAdmissible`), and if the tokens are those of a text, the grammar admits the program
(`ReadFrom.wellFormed`). Each of the three follows the rules of the derivation, form by form.
-/

namespace MiniJava

namespace Token.Kind

/-- Whether a program can be written with tokens of a kind: neither with the end mark, nor with
invalid characters, nor with numbers that are too large. -/
def admissible : Kind → Bool
  | .intLit digits => isIntText digits
  | .eof | .unknown _ => false
  | .keyword _ | .symbol _ | .ident _ => true

variable (word : Keyword) (sign : Symbol) (name : String)

@[simp] theorem canonical_keyword : (keyword word).canonical = keyword word := rfl
@[simp] theorem canonical_symbol : (symbol sign).canonical = symbol sign := rfl
@[simp] theorem canonical_ident : (ident name).canonical = ident name := rfl

theorem canonical_intLit {digits : String} (h : Digits.isRun digits.toList = true) :
    (intLit digits).canonical =
      intLit (String.ofList (Nat.toDigits 10 (Digits.value digits.toList))) :=
  congrArg intLit (if_pos h)

@[simp] theorem admissible_keyword : (keyword word).admissible = true := rfl
@[simp] theorem admissible_symbol : (symbol sign).admissible = true := rfl
@[simp] theorem admissible_ident : (ident name).admissible = true := rfl

end Token.Kind

namespace Ident

@[simp] theorem kind_canonical (i : Ident) : i.kind.canonical = i.kind := rfl

@[simp] theorem kind_admissible (i : Ident) : i.kind.admissible = true := rfl

@[simp] theorem kind_lexical (i : Ident) : i.kind.Lexical ↔ i.wellFormed = true := Iff.rfl

end Ident

/-- The kinds of some tokens, without leading zeros of literals. -/
def canonicalKinds (ts : List Token) : List Token.Kind :=
  ts.map (·.kind.canonical)

@[simp] theorem canonicalKinds_nil : canonicalKinds [] = [] := rfl

@[simp] theorem canonicalKinds_cons (t : Token) (ts : List Token) :
    canonicalKinds (t :: ts) = t.kind.canonical :: canonicalKinds ts := rfl

@[simp] theorem canonicalKinds_append (ts us : List Token) :
    canonicalKinds (ts ++ us) = canonicalKinds ts ++ canonicalKinds us :=
  List.map_append

theorem canonicalKinds_eq_map (ts : List Token) :
    canonicalKinds ts = (ts.map Token.kind).map Token.Kind.canonical := by
  rw [List.map_map]
  rfl

/-- The tokens are of kinds that a text can have. -/
def AllLexical (ts : List Token) : Prop :=
  ∀ t ∈ ts, t.kind.Lexical

@[simp] theorem allLexical_nil : AllLexical [] := by
  simp [AllLexical]

@[simp] theorem allLexical_cons {t : Token} {ts : List Token} :
    AllLexical (t :: ts) ↔ t.kind.Lexical ∧ AllLexical ts :=
  List.forall_mem_cons

@[simp] theorem allLexical_append {ts us : List Token} :
    AllLexical (ts ++ us) ↔ AllLexical ts ∧ AllLexical us :=
  List.forall_mem_append

theorem allLexical_tokenize (text : String) (file : Nat) : AllLexical (tokenize text file) := by
  obtain ⟨words, mark, htokens, hmark, hwords⟩ := tokenize_shape text file
  have hlexical : mark.kind.Lexical := by
    rw [hmark]
    trivial
  rw [htokens, allLexical_append]
  exact ⟨fun t ht => (hwords t ht).2, by simpa using hlexical⟩

namespace ReadAll

variable {α : Type} {R : α → List Token → Prop} {as : List α} {ts : List Token}

theorem kinds_eq {kinds : α → List Token.Kind} (h : ReadAll R as ts)
    (hR : ∀ a us, R a us → canonicalKinds us = kinds a) : canonicalKinds ts = as.flatMap kinds := by
  induction h with
  | nil => rfl
  | cons ha _ ih => rw [canonicalKinds_append, hR _ _ ha, ih, List.flatMap_cons]

theorem all_eq_true {p : α → Bool} (h : ReadAll R as ts) (hts : AllLexical ts)
    (hR : ∀ a us, R a us → AllLexical us → p a) : as.all p = true := by
  induction h with
  | nil => rfl
  | cons ha _ ih =>
    obtain ⟨hts, hus⟩ := allLexical_append.mp hts
    rw [List.all_cons, hR _ _ ha hts, ih hus]
    rfl

end ReadAll

/-! ### Kinds -/

theorem TypeExpr.ReadFrom.kinds_eq {type : TypeExpr} {ts : List Token} (h : type.ReadFrom ts) :
    canonicalKinds ts = type.kinds := by
  cases h <;> rfl

mutual

theorem Expr.ReadFrom.kinds_eq : ∀ {e : Expr} {ts : List Token},
    e.ReadFrom ts → canonicalKinds ts = e.kinds
  | _, _, .int hint => by
    rw [Expr.kinds, canonicalKinds_cons, Token.Kind.canonical_intLit (isIntText_iff.mp hint).1]
    rfl
  | _, _, .bool | _, _, .ident | _, _, .this | _, _, .newObject => by
    rw [Expr.kinds]
    rfl
  | _, _, .newArray h => by
    simp [Expr.kinds, h.kinds_eq]
  | _, _, .not _ h => by
    simp [Expr.kinds, h.kinds_eq]
  | _, _, .paren h => by
    simp [Expr.kinds, h.kinds_eq]
  | _, _, .binary _ _ hl hr => by
    simp [Expr.kinds, hl.kinds_eq, hr.kinds_eq]
  | _, _, .index _ _ ha hp => by
    simp [Expr.kinds, ha.kinds_eq, hp.kinds_eq]
  | _, _, .length _ h => by
    simp [Expr.kinds, h.kinds_eq]
  | _, _, .send _ h hargs => by
    simp [Expr.kinds, h.kinds_eq, hargs.kinds_eq]

theorem Expr.ArgsReadFrom.kinds_eq : ∀ {args : List Expr} {ts : List Token},
    Expr.ArgsReadFrom args ts → canonicalKinds ts = Expr.argKinds args
  | _, _, .nil => by rw [Expr.argKinds]; rfl
  | _, _, .one h => by rw [Expr.argKinds, h.kinds_eq]
  | _, _, .cons h hmore => by
    simp [Expr.argKinds, h.kinds_eq, hmore.kinds_eq]

end

mutual

theorem Stmt.ReadFrom.kinds_eq : ∀ {stmt : Stmt} {ts : List Token},
    stmt.ReadFrom ts → canonicalKinds ts = stmt.kinds
  | _, _, .block h => by
    simp [Stmt.kinds, h.kinds_eq]
  | _, _, .assign h => by
    simp [Stmt.kinds, h.kinds_eq]
  | _, _, .arrayAssign hp hv => by
    simp [Stmt.kinds, hp.kinds_eq, hv.kinds_eq]
  | _, _, .ifElse hc ht he => by
    simp [Stmt.kinds, hc.kinds_eq, ht.kinds_eq, he.kinds_eq]
  | _, _, .whileLoop hc hbody => by
    simp [Stmt.kinds, hc.kinds_eq, hbody.kinds_eq]
  | _, _, .print h => by
    simp [Stmt.kinds, h.kinds_eq]

theorem Stmt.AllReadFrom.kinds_eq : ∀ {body : List Stmt} {ts : List Token},
    Stmt.AllReadFrom body ts → canonicalKinds ts = Stmt.allKinds body
  | _, _, .nil => by rw [Stmt.allKinds]; rfl
  | _, _, .cons h hmore => by
    rw [Stmt.allKinds, canonicalKinds_append, h.kinds_eq, hmore.kinds_eq]

end

theorem VarDecl.ReadFrom.kinds_eq {d : VarDecl} {ts : List Token} (h : d.ReadFrom ts) :
    canonicalKinds ts = d.kinds := by
  obtain ⟨ht⟩ := h
  simp [VarDecl.kinds, ht.kinds_eq]

theorem VarDecl.ParamReadFrom.kinds_eq {d : VarDecl} {ts : List Token} (h : d.ParamReadFrom ts) :
    canonicalKinds ts = d.paramKinds := by
  obtain ⟨ht⟩ := h
  simp [VarDecl.paramKinds, ht.kinds_eq]

theorem VarDecl.ParamsReadFrom.kinds_eq {ds : List VarDecl} {ts : List Token}
    (h : VarDecl.ParamsReadFrom ds ts) : canonicalKinds ts = VarDecl.paramListKinds ds := by
  induction h with
  | nil => rfl
  | one h => rw [VarDecl.paramListKinds, h.kinds_eq]
  | cons h _ ih => simp [VarDecl.paramListKinds, h.kinds_eq, ih]

theorem MethodDecl.ReadFrom.kinds_eq {d : MethodDecl} {ts : List Token} (h : d.ReadFrom ts) :
    canonicalKinds ts = d.kinds := by
  obtain ⟨hreturns, hparams, hvars, hbody, hresult⟩ := h
  have hvars := hvars.kinds_eq fun _ _ => VarDecl.ReadFrom.kinds_eq
  simp [MethodDecl.kinds, VarDecl.allKinds,
    hreturns.kinds_eq, hparams.kinds_eq, hvars, hbody.kinds_eq, hresult.kinds_eq]

theorem ClassDecl.ReadFrom.kinds_eq {d : ClassDecl} {ts : List Token} (h : d.ReadFrom ts) :
    canonicalKinds ts = d.kinds := by
  obtain ⟨hparent, hfields, hmethods⟩ := h
  have hfields := hfields.kinds_eq fun _ _ => VarDecl.ReadFrom.kinds_eq
  have hmethods := hmethods.kinds_eq fun _ _ => MethodDecl.ReadFrom.kinds_eq
  cases hparent <;>
    simp [ClassDecl.kinds, ClassDecl.parentKinds, VarDecl.allKinds, Token.Kind.canonical,
      Ident.token, Ident.kind, hfields, hmethods]

theorem MainClass.ReadFrom.kinds_eq {d : MainClass} {ts : List Token} (h : d.ReadFrom ts) :
    canonicalKinds ts = d.kinds := by
  obtain ⟨hvars, hbody⟩ := h
  have hvars := hvars.kinds_eq fun _ _ => VarDecl.ReadFrom.kinds_eq
  simp [MainClass.kinds, VarDecl.allKinds, hvars,
    hbody.kinds_eq]

theorem Program.ReadFrom.kinds_eq {p : Program} {ts : List Token} (h : p.ReadFrom ts) :
    canonicalKinds ts = p.kinds := by
  obtain ⟨hmain, hclasses⟩ := h
  have hclasses := hclasses.kinds_eq fun _ _ => ClassDecl.ReadFrom.kinds_eq
  rw [canonicalKinds_append, hmain.kinds_eq, hclasses, Program.kinds]

/-! ### The grammar -/

theorem TypeExpr.ReadFrom.wellFormed {type : TypeExpr} {ts : List Token} (h : type.ReadFrom ts)
    (hts : AllLexical ts) : type.wellFormed = true := by
  cases h with
  | named => exact (allLexical_cons.mp hts).1
  | _ => rfl

mutual

theorem Expr.ReadFrom.wellFormed : ∀ {e : Expr} {ts : List Token},
    e.ReadFrom ts → AllLexical ts → e.wellFormed = true
  | _, _, .int hint, _ => by simpa [Expr.wellFormed] using (isIntText_iff.mp hint).2
  | _, _, .bool, _ | _, _, .this, _ => by rw [Expr.wellFormed]
  | _, _, .ident, hts => by
    rw [Expr.wellFormed]
    exact (allLexical_cons.mp hts).1
  | _, _, .newArray h, hts => by
    rw [Expr.wellFormed]
    exact h.wellFormed (by simp_all)
  | _, _, .newObject, hts => by
    rw [Expr.wellFormed]
    exact (allLexical_cons.mp (allLexical_cons.mp hts).2).1
  | _, _, .not ho h, hts => by
    rw [Expr.wellFormed, ho, h.wellFormed (by simp_all), Bool.and_self]
  | _, _, .paren h, hts => by
    rw [Expr.wellFormed]
    exact h.wellFormed (by simp_all)
  | _, _, .binary hl hr hleft hright, hts => by
    rw [Expr.wellFormed, hl, hr, hleft.wellFormed (by simp_all), hright.wellFormed (by simp_all)]
    rfl
  | _, _, .index ha hp harray hposition, hts => by
    rw [Expr.wellFormed, ha, hp, harray.wellFormed (by simp_all),
      hposition.wellFormed (by simp_all)]
    rfl
  | _, _, .length ha h, hts => by
    rw [Expr.wellFormed, ha, h.wellFormed (by simp_all), Bool.and_self]
  | _, _, .send hr h hargs, hts => by
    simp only [allLexical_append, allLexical_cons, Ident.token_kind, Ident.kind_lexical] at hts
    obtain ⟨hts, -, hmethod, hrest⟩ := hts
    rw [Expr.wellFormed, hr, h.wellFormed hts, hmethod, hargs.wellFormed (by simp_all)]
    rfl

theorem Expr.ArgsReadFrom.wellFormed : ∀ {args : List Expr} {ts : List Token},
    Expr.ArgsReadFrom args ts → AllLexical ts → Expr.allWellFormed args = true
  | _, _, .nil, _ => by rw [Expr.allWellFormed]
  | _, _, .one h, hts => by
    rw [Expr.allWellFormed, Expr.allWellFormed, h.wellFormed hts, Bool.and_self]
  | _, _, .cons h hmore, hts => by
    rw [Expr.allWellFormed, h.wellFormed (by simp_all), hmore.wellFormed (by simp_all),
      Bool.and_self]

end


mutual

theorem Stmt.ReadFrom.wellFormed : ∀ {s : Stmt} {ts : List Token},
    s.ReadFrom ts → AllLexical ts → s.wellFormed = true
  | _, _, .block h, hts => by
    rw [Stmt.wellFormed]
    exact h.wellFormed (by simp_all)
  | _, _, .assign h, hts => by
    have htarget := Ident.kind_lexical _ |>.mp (allLexical_cons.mp hts).1
    rw [Stmt.wellFormed, htarget, h.wellFormed (by simp_all), Bool.and_self]
  | _, _, .arrayAssign hposition hvalue, hts => by
    have htarget := Ident.kind_lexical _ |>.mp (allLexical_cons.mp hts).1
    rw [Stmt.wellFormed, htarget, hposition.wellFormed (by simp_all),
      hvalue.wellFormed (by simp_all)]
    rfl
  | _, _, .ifElse hcond hthen helse, hts => by
    rw [Stmt.wellFormed, hcond.wellFormed (by simp_all), hthen.wellFormed (by simp_all),
      helse.wellFormed (by simp_all)]
    rfl
  | _, _, .whileLoop hcond hbody, hts => by
    rw [Stmt.wellFormed, hcond.wellFormed (by simp_all), hbody.wellFormed (by simp_all),
      Bool.and_self]
  | _, _, .print h, hts => by
    rw [Stmt.wellFormed]
    exact h.wellFormed (by simp_all)

theorem Stmt.AllReadFrom.wellFormed : ∀ {body : List Stmt} {ts : List Token},
    Stmt.AllReadFrom body ts → AllLexical ts → Stmt.allWellFormed body = true
  | _, _, .nil, _ => by rw [Stmt.allWellFormed]
  | _, _, .cons h hmore, hts => by
    rw [Stmt.allWellFormed, h.wellFormed (by simp_all), hmore.wellFormed (by simp_all),
      Bool.and_self]

end

theorem VarDecl.ReadFrom.wellFormed {d : VarDecl} {ts : List Token} (h : d.ReadFrom ts)
    (hts : AllLexical ts) : d.wellFormed = true := by
  obtain ⟨htype⟩ := h
  simp only [allLexical_append, allLexical_cons, Ident.token_kind, Ident.kind_lexical] at hts
  obtain ⟨hts, hname, -⟩ := hts
  rw [VarDecl.wellFormed, htype.wellFormed hts, hname, Bool.and_self]

theorem VarDecl.ParamReadFrom.wellFormed {d : VarDecl} {ts : List Token} (h : d.ParamReadFrom ts)
    (hts : AllLexical ts) : d.wellFormed = true := by
  obtain ⟨htype⟩ := h
  simp only [allLexical_append, allLexical_cons, Ident.token_kind, Ident.kind_lexical] at hts
  obtain ⟨hts, hname, -⟩ := hts
  rw [VarDecl.wellFormed, htype.wellFormed hts, hname, Bool.and_self]

theorem VarDecl.ParamsReadFrom.wellFormed {ds : List VarDecl} {ts : List Token}
    (h : VarDecl.ParamsReadFrom ds ts) (hts : AllLexical ts) :
    ds.all VarDecl.wellFormed = true := by
  induction h with
  | nil => rfl
  | one h => simpa using h.wellFormed hts
  | cons h _ ih =>
    rw [List.all_cons, h.wellFormed (by simp_all), ih (by simp_all)]
    rfl

theorem MethodDecl.ReadFrom.wellFormed {d : MethodDecl} {ts : List Token} (h : d.ReadFrom ts)
    (hts : AllLexical ts) : d.wellFormed = true := by
  obtain ⟨hreturns, hparams, hvars, hbody, hresult⟩ := h
  simp only [allLexical_append, allLexical_cons, Ident.token_kind, Ident.kind_lexical] at hts
  obtain ⟨-, htype, hname, -, hps, -, -, hvs, hss, -, hrs, -⟩ := hts
  rw [MethodDecl.wellFormed, hreturns.wellFormed htype, hname, hparams.wellFormed hps,
    hvars.all_eq_true hvs fun _ _ => VarDecl.ReadFrom.wellFormed, hbody.wellFormed hss,
    hresult.wellFormed hrs]
  rfl

theorem ClassDecl.ParentReadFrom.wellFormed {parent : Option Ident} {ts : List Token}
    (h : ClassDecl.ParentReadFrom parent ts) (hts : AllLexical ts) :
    parent.all Ident.wellFormed = true := by
  cases h with
  | none => rfl
  | some => exact (allLexical_cons.mp (allLexical_cons.mp hts).2).1

theorem ClassDecl.ReadFrom.wellFormed {d : ClassDecl} {ts : List Token} (h : d.ReadFrom ts)
    (hts : AllLexical ts) : d.wellFormed = true := by
  obtain ⟨hparent, hfields, hmethods⟩ := h
  simp only [allLexical_append, allLexical_cons, Ident.token_kind, Ident.kind_lexical] at hts
  obtain ⟨-, hname, hps, -, hfs, hms, -⟩ := hts
  rw [ClassDecl.wellFormed, hname, hparent.wellFormed hps,
    hfields.all_eq_true hfs fun _ _ => VarDecl.ReadFrom.wellFormed,
    hmethods.all_eq_true hms fun _ _ => MethodDecl.ReadFrom.wellFormed]
  rfl

theorem MainClass.ReadFrom.wellFormed {d : MainClass} {ts : List Token} (h : d.ReadFrom ts)
    (hts : AllLexical ts) : d.wellFormed = true := by
  obtain ⟨hvars, hbody⟩ := h
  simp only [allLexical_append, allLexical_cons, Ident.token_kind, Ident.kind_lexical] at hts
  obtain ⟨-, hname, -, -, -, -, -, -, -, -, -, hargs, -, -, hvs, hss, -⟩ := hts
  rw [MainClass.wellFormed, hname, hargs,
    hvars.all_eq_true hvs fun _ _ => VarDecl.ReadFrom.wellFormed, hbody.wellFormed hss]
  rfl

/-- A program that is read from words of a text is one that the grammar admits. -/
theorem Program.ReadFrom.wellFormed {p : Program} {ts : List Token} (h : p.ReadFrom ts)
    (hts : AllLexical ts) : p.wellFormed = true := by
  obtain ⟨hmain, hclasses⟩ := h
  obtain ⟨hmains, hts⟩ := allLexical_append.mp hts
  rw [Program.wellFormed, hmain.wellFormed hmains,
    hclasses.all_eq_true hts fun _ _ => ClassDecl.ReadFrom.wellFormed]
  rfl

/-! ### Kinds that a program cannot have -/

/-- The tokens are of kinds that a program can have. -/
def AllAdmissible (ts : List Token) : Prop :=
  ∀ t ∈ ts, t.kind.admissible = true

@[simp] theorem allAdmissible_nil : AllAdmissible [] := by
  simp [AllAdmissible]

@[simp] theorem allAdmissible_cons {t : Token} {ts : List Token} :
    AllAdmissible (t :: ts) ↔ t.kind.admissible = true ∧ AllAdmissible ts :=
  List.forall_mem_cons

@[simp] theorem allAdmissible_append {ts us : List Token} :
    AllAdmissible (ts ++ us) ↔ AllAdmissible ts ∧ AllAdmissible us :=
  List.forall_mem_append

theorem ReadAll.allAdmissible {α : Type} {R : α → List Token → Prop} {as : List α}
    {ts : List Token} (h : ReadAll R as ts) (hR : ∀ a us, R a us → AllAdmissible us) :
    AllAdmissible ts := by
  induction h with
  | nil => exact allAdmissible_nil
  | cons ha _ ih => exact allAdmissible_append.mpr ⟨hR _ _ ha, ih⟩

theorem TypeExpr.ReadFrom.allAdmissible {type : TypeExpr} {ts : List Token}
    (h : type.ReadFrom ts) : AllAdmissible ts := by
  cases h <;> simp

mutual

theorem Expr.ReadFrom.allAdmissible : ∀ {e : Expr} {ts : List Token},
    e.ReadFrom ts → AllAdmissible ts
  | _, _, .int hint => by simpa [Token.Kind.admissible] using hint
  | _, _, .bool | _, _, .ident | _, _, .this | _, _, .newObject => by
    simp
  | _, _, .newArray h | _, _, .not _ h | _, _, .paren h | _, _, .length _ h => by
    simp [h.allAdmissible]
  | _, _, .binary _ _ hleft hright => by
    simp [hleft.allAdmissible, hright.allAdmissible]
  | _, _, .index _ _ harray hposition => by
    simp [harray.allAdmissible, hposition.allAdmissible]
  | _, _, .send _ h hargs => by
    simp [h.allAdmissible, hargs.allAdmissible]

theorem Expr.ArgsReadFrom.allAdmissible : ∀ {args : List Expr} {ts : List Token},
    Expr.ArgsReadFrom args ts → AllAdmissible ts
  | _, _, .nil => allAdmissible_nil
  | _, _, .one h => h.allAdmissible
  | _, _, .cons h hmore => by
    simp [h.allAdmissible, hmore.allAdmissible]

end

mutual

theorem Stmt.ReadFrom.allAdmissible : ∀ {s : Stmt} {ts : List Token},
    s.ReadFrom ts → AllAdmissible ts
  | _, _, .block h => by simp [h.allAdmissible]
  | _, _, .assign h => by simp [h.allAdmissible]
  | _, _, .arrayAssign hposition hvalue => by
    simp [hposition.allAdmissible, hvalue.allAdmissible]
  | _, _, .ifElse hcond hthen helse => by
    simp [hcond.allAdmissible, hthen.allAdmissible, helse.allAdmissible]
  | _, _, .whileLoop hcond hbody => by
    simp [hcond.allAdmissible, hbody.allAdmissible]
  | _, _, .print h => by simp [h.allAdmissible]

theorem Stmt.AllReadFrom.allAdmissible : ∀ {body : List Stmt} {ts : List Token},
    Stmt.AllReadFrom body ts → AllAdmissible ts
  | _, _, .nil => allAdmissible_nil
  | _, _, .cons h hmore => allAdmissible_append.mpr ⟨h.allAdmissible, hmore.allAdmissible⟩

end

theorem VarDecl.ReadFrom.allAdmissible {d : VarDecl} {ts : List Token} (h : d.ReadFrom ts) :
    AllAdmissible ts := by
  obtain ⟨htype⟩ := h
  simp [htype.allAdmissible]

theorem VarDecl.ParamsReadFrom.allAdmissible {ds : List VarDecl} {ts : List Token}
    (h : VarDecl.ParamsReadFrom ds ts) : AllAdmissible ts := by
  induction h with
  | nil => exact allAdmissible_nil
  | one h =>
    obtain ⟨htype⟩ := h
    simp [htype.allAdmissible]
  | cons h _ ih =>
    obtain ⟨htype⟩ := h
    simp [htype.allAdmissible, ih]

theorem MethodDecl.ReadFrom.allAdmissible {d : MethodDecl} {ts : List Token}
    (h : d.ReadFrom ts) : AllAdmissible ts := by
  obtain ⟨hreturns, hparams, hvars, hbody, hresult⟩ := h
  have hvars := hvars.allAdmissible fun _ _ => VarDecl.ReadFrom.allAdmissible
  simp [hreturns.allAdmissible, hparams.allAdmissible, hvars,
    hbody.allAdmissible, hresult.allAdmissible]

theorem ClassDecl.ReadFrom.allAdmissible {d : ClassDecl} {ts : List Token} (h : d.ReadFrom ts) :
    AllAdmissible ts := by
  obtain ⟨hparent, hfields, hmethods⟩ := h
  have hfields := hfields.allAdmissible fun _ _ => VarDecl.ReadFrom.allAdmissible
  have hmethods := hmethods.allAdmissible fun _ _ => MethodDecl.ReadFrom.allAdmissible
  cases hparent <;> simp [hfields, hmethods]

theorem MainClass.ReadFrom.allAdmissible {d : MainClass} {ts : List Token} (h : d.ReadFrom ts) :
    AllAdmissible ts := by
  obtain ⟨hvars, hbody⟩ := h
  have hvars := hvars.allAdmissible fun _ _ => VarDecl.ReadFrom.allAdmissible
  simp [hvars, hbody.allAdmissible]

/-- The tokens of a program are none of the end mark, an invalid character, and a number that is
too large. -/
theorem Program.ReadFrom.allAdmissible {p : Program} {ts : List Token} (h : p.ReadFrom ts) :
    AllAdmissible ts := by
  obtain ⟨hmain, hclasses⟩ := h
  exact allAdmissible_append.mpr
    ⟨hmain.allAdmissible, hclasses.allAdmissible fun _ _ => ClassDecl.ReadFrom.allAdmissible⟩

end MiniJava
