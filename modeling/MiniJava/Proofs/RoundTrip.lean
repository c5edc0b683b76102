import MiniJava.Program.Map
import MiniJava.Proofs.Derivation
import MiniJava.Proofs.ParserCompleteness
import MiniJava.Proofs.ParserSoundness

/-!
# Reading undoes writing

Tokens of the kinds of a tree that the grammar admits have a derivation, and the tree that they are
derived for is the given one up to spans (`exists_readFrom`). Together with the two directions of
the reader this gives the main results: what is read is what was written (`kinds_of_parse`), and a
text is read exactly if it is a way to write some program of the grammar, and then as that program
(`parse_undoes_writing`).
-/

namespace MiniJava

/-! ### Tokens of given kinds -/

section

variable {ts : List Token} {ks ls : List Token.Kind}

theorem canonicalKinds_eq_nil_iff : canonicalKinds ts = [] ↔ ts = [] :=
  List.map_eq_nil_iff

theorem canonicalKinds_eq_append_iff :
    canonicalKinds ts = ks ++ ls ↔
      ∃ us vs, ts = us ++ vs ∧ canonicalKinds us = ks ∧ canonicalKinds vs = ls :=
  List.map_eq_append_iff

/-- Apart from literals, tokens of a given kind differ in their spans only. -/
theorem canonicalKinds_eq_cons_iff {k : Token.Kind} (hk : ∀ digits, k ≠ .intLit digits) :
    canonicalKinds ts = k :: ks ↔ ∃ a us, ts = ⟨k, a⟩ :: us ∧ canonicalKinds us = ks := by
  constructor
  · intro h
    obtain ⟨⟨kind, span⟩, us, rfl, hkind, hus⟩ := List.map_eq_cons_iff.mp h
    subst hkind
    cases kind with
    | intLit digits => exact absurd rfl (hk _)
    | _ => exact ⟨span, us, rfl, hus⟩
  · rintro ⟨a, us, rfl, rfl⟩
    cases k with
    | intLit digits => exact absurd rfl (hk digits)
    | _ => rfl

theorem canonicalKinds_eq_keyword_cons_iff {word : Keyword} :
    canonicalKinds ts = .keyword word :: ks ↔
      ∃ a us, ts = ⟨.keyword word, a⟩ :: us ∧ canonicalKinds us = ks :=
  canonicalKinds_eq_cons_iff fun _ => nofun

theorem canonicalKinds_eq_symbol_cons_iff {sign : Symbol} :
    canonicalKinds ts = .symbol sign :: ks ↔
      ∃ a us, ts = ⟨.symbol sign, a⟩ :: us ∧ canonicalKinds us = ks :=
  canonicalKinds_eq_cons_iff fun _ => nofun

theorem canonicalKinds_eq_ident_cons_iff {name : String} :
    canonicalKinds ts = .ident name :: ks ↔
      ∃ a us, ts = ⟨.ident name, a⟩ :: us ∧ canonicalKinds us = ks :=
  canonicalKinds_eq_cons_iff fun _ => nofun

theorem canonicalKinds_eq_kind_cons_iff {i : Ident} :
    canonicalKinds ts = i.kind :: ks ↔
      ∃ a us, ts = (⟨i.name, a⟩ : Ident).token :: us ∧ canonicalKinds us = ks :=
  canonicalKinds_eq_ident_cons_iff

theorem canonicalKinds_eq_intLit_iff {value : Nat} :
    canonicalKinds ts = [.intLit (String.ofList (Nat.toDigits 10 value))] ↔
      ∃ digits a, ts = [⟨.intLit digits, a⟩] ∧ Digits.isRun digits.toList = true ∧
        Digits.value digits.toList = value := by
  constructor
  · intro h
    obtain ⟨⟨kind, span⟩, us, rfl, hkind, hus⟩ := List.map_eq_cons_iff.mp h
    obtain rfl := List.map_eq_nil_iff.mp hus
    cases kind with
    | intLit digits =>
      by_cases hrun : Digits.isRun digits.toList = true
      · rw [Token.Kind.canonical_intLit hrun] at hkind
        have hdigits := String.ofList_injective (Token.Kind.intLit.inj hkind)
        refine ⟨digits, span, rfl, hrun, ?_⟩
        rw [← Digits.value_toDigits (Digits.value digits.toList), hdigits, Digits.value_toDigits]
      · -- what is no run of digits stays as it is, and digits of a number are one
        rw [Token.Kind.canonical, if_neg hrun] at hkind
        rw [Token.Kind.intLit.inj hkind, String.toList_ofList] at hrun
        exact absurd (Digits.isRun_toDigits value) hrun
    | _ => cases hkind
  · rintro ⟨digits, a, rfl, hrun, rfl⟩
    rw [canonicalKinds_cons, Token.Kind.canonical_intLit hrun]
    rfl

end

/-- Forgets a place. -/
def noSpan : Span → Span :=
  fun _ => default

/-- Whether an expression is primary does not depend on names and spans. -/
theorem Expr.isPrimary_map (f : String → String) (g : Span → Span) (e : Expr) :
    (e.map f g).isPrimary = e.isPrimary := by
  cases e <;> simp only [Expr.map, Expr.isPrimary]

theorem Expr.isPrimary_of_map_eq {e e' : Expr} (h : e'.map id noSpan = e.map id noSpan)
    (he : e.isPrimary = true) : e'.isPrimary = true := by
  rwa [← Expr.isPrimary_map id noSpan, h, Expr.isPrimary_map]

/-! ### Derivations of given trees -/

theorem TypeExpr.exists_readFrom (type : TypeExpr) {ts : List Token}
    (h : canonicalKinds ts = type.kinds) :
    ∃ type' : TypeExpr, type'.ReadFrom ts ∧ type'.map id noSpan = type.map id noSpan := by
  cases type with
  | int span =>
    simp only [TypeExpr.kinds, canonicalKinds_eq_keyword_cons_iff, canonicalKinds_eq_nil_iff] at h
    obtain ⟨a, _, rfl, rfl⟩ := h
    exact ⟨_, .int, rfl⟩
  | boolean span =>
    simp only [TypeExpr.kinds, canonicalKinds_eq_keyword_cons_iff, canonicalKinds_eq_nil_iff] at h
    obtain ⟨a, _, rfl, rfl⟩ := h
    exact ⟨_, .boolean, rfl⟩
  | intArray span =>
    simp only [TypeExpr.kinds, canonicalKinds_eq_keyword_cons_iff,
      canonicalKinds_eq_symbol_cons_iff, canonicalKinds_eq_nil_iff] at h
    obtain ⟨a, _, rfl, b, _, rfl, c, _, rfl, rfl⟩ := h
    exact ⟨_, .intArray, rfl⟩
  | named name =>
    simp only [TypeExpr.kinds, canonicalKinds_eq_kind_cons_iff, canonicalKinds_eq_nil_iff] at h
    obtain ⟨a, _, rfl, rfl⟩ := h
    exact ⟨_, .named, rfl⟩

mutual

theorem Expr.exists_readFrom : ∀ (e : Expr) {ts : List Token}, canonicalKinds ts = e.kinds →
    e.wellFormed = true → ∃ e' : Expr, e'.ReadFrom ts ∧ e'.map id noSpan = e.map id noSpan
  | .int _ value, ts, h, hwf => by
    rw [Expr.kinds, canonicalKinds_eq_intLit_iff] at h
    obtain ⟨digits, a, rfl, hrun, rfl⟩ := h
    rw [Expr.wellFormed, decide_eq_true_eq] at hwf
    exact ⟨_, .int (isIntText_iff.mpr ⟨hrun, hwf⟩), rfl⟩
  | .bool _ value, ts, h, _ => by
    simp only [Expr.kinds, canonicalKinds_eq_keyword_cons_iff, canonicalKinds_eq_nil_iff] at h
    obtain ⟨a, _, rfl, rfl⟩ := h
    exact ⟨_, .bool, rfl⟩
  | .ident name, ts, h, _ => by
    simp only [Expr.kinds, canonicalKinds_eq_kind_cons_iff, canonicalKinds_eq_nil_iff] at h
    obtain ⟨a, _, rfl, rfl⟩ := h
    exact ⟨_, .ident, rfl⟩
  | .this _, ts, h, _ => by
    simp only [Expr.kinds, canonicalKinds_eq_keyword_cons_iff, canonicalKinds_eq_nil_iff] at h
    obtain ⟨a, _, rfl, rfl⟩ := h
    exact ⟨_, .this, rfl⟩
  | .binary _ op left right, ts, h, hwf => by
    simp only [Expr.kinds, canonicalKinds_eq_append_iff, canonicalKinds_eq_symbol_cons_iff] at h
    obtain ⟨us, _, rfl, hleft, a, vs, rfl, hright⟩ := h
    simp only [Expr.wellFormed, Bool.and_eq_true] at hwf
    obtain ⟨⟨⟨hl, hr⟩, hwl⟩, hwr⟩ := hwf
    obtain ⟨left', hleft, hl'⟩ := left.exists_readFrom hleft hwl
    obtain ⟨right', hright, hr'⟩ := right.exists_readFrom hright hwr
    refine ⟨_, .binary (isPrimary_of_map_eq hl' hl) (isPrimary_of_map_eq hr' hr) hleft hright, ?_⟩
    simp only [Expr.map, hl', hr', noSpan]
  | .not _ operand, ts, h, hwf => by
    simp only [Expr.kinds, canonicalKinds_eq_symbol_cons_iff] at h
    obtain ⟨a, us, rfl, h⟩ := h
    simp only [Expr.wellFormed, Bool.and_eq_true] at hwf
    obtain ⟨operand', h, ho⟩ := operand.exists_readFrom h hwf.2
    refine ⟨_, .not (isPrimary_of_map_eq ho hwf.1) h, ?_⟩
    simp only [Expr.map, ho, noSpan]
  | .index _ array position, ts, h, hwf => by
    simp only [Expr.kinds, List.append_assoc, List.cons_append, canonicalKinds_eq_append_iff,
      canonicalKinds_eq_symbol_cons_iff, canonicalKinds_eq_nil_iff] at h
    obtain ⟨us, _, rfl, harray, a, _, rfl, vs, _, rfl, hposition, b, _, rfl, rfl⟩ := h
    simp only [Expr.wellFormed, Bool.and_eq_true] at hwf
    obtain ⟨⟨⟨ha, hp⟩, hwa⟩, hwp⟩ := hwf
    obtain ⟨array', harray, ha'⟩ := array.exists_readFrom harray hwa
    obtain ⟨position', hposition, hp'⟩ := position.exists_readFrom hposition hwp
    refine ⟨_, .index (isPrimary_of_map_eq ha' ha) (isPrimary_of_map_eq hp' hp) harray hposition,
      ?_⟩
    simp only [Expr.map, ha', hp', noSpan]
  | .length _ array, ts, h, hwf => by
    simp only [Expr.kinds, canonicalKinds_eq_append_iff, canonicalKinds_eq_symbol_cons_iff,
      canonicalKinds_eq_ident_cons_iff, canonicalKinds_eq_nil_iff] at h
    obtain ⟨us, _, rfl, h, a, _, rfl, b, _, rfl, rfl⟩ := h
    simp only [Expr.wellFormed, Bool.and_eq_true] at hwf
    obtain ⟨array', h, ha⟩ := array.exists_readFrom h hwf.2
    refine ⟨_, .length (isPrimary_of_map_eq ha hwf.1) h, ?_⟩
    simp only [Expr.map, ha, noSpan]
  | .send _ receiver method args, ts, h, hwf => by
    simp only [Expr.kinds, List.append_assoc, List.cons_append, canonicalKinds_eq_append_iff,
      canonicalKinds_eq_symbol_cons_iff, canonicalKinds_eq_kind_cons_iff,
      canonicalKinds_eq_nil_iff] at h
    obtain ⟨us, _, rfl, h, a, _, rfl, b, _, rfl, c, _, rfl, vs, _, rfl, hargs, d, _, rfl, rfl⟩ := h
    simp only [Expr.wellFormed, Bool.and_eq_true] at hwf
    obtain ⟨⟨⟨hp, hwr⟩, -⟩, hwa⟩ := hwf
    obtain ⟨receiver', h, hr⟩ := receiver.exists_readFrom h hwr
    obtain ⟨args', hargs, ha⟩ := Expr.exists_argsReadFrom args hargs hwa
    refine ⟨_, .send (isPrimary_of_map_eq hr hp) h hargs, ?_⟩
    simp only [Expr.map, Ident.map, hr, ha, noSpan]
  | .newArray _ size, ts, h, hwf => by
    simp only [Expr.kinds, List.cons_append, canonicalKinds_eq_append_iff,
      canonicalKinds_eq_keyword_cons_iff, canonicalKinds_eq_symbol_cons_iff,
      canonicalKinds_eq_nil_iff] at h
    obtain ⟨a, _, rfl, b, _, rfl, c, _, rfl, us, _, rfl, h, d, _, rfl, rfl⟩ := h
    rw [Expr.wellFormed] at hwf
    obtain ⟨size', h, hs⟩ := size.exists_readFrom h hwf
    refine ⟨_, .newArray h, ?_⟩
    simp only [Expr.map, hs, noSpan]
  | .newObject _ cls, ts, h, _ => by
    simp only [Expr.kinds, canonicalKinds_eq_keyword_cons_iff, canonicalKinds_eq_kind_cons_iff,
      canonicalKinds_eq_symbol_cons_iff, canonicalKinds_eq_nil_iff] at h
    obtain ⟨a, _, rfl, b, _, rfl, c, _, rfl, d, _, rfl, rfl⟩ := h
    exact ⟨_, .newObject, rfl⟩
  | .paren _ inner, ts, h, hwf => by
    simp only [Expr.kinds, List.cons_append, canonicalKinds_eq_append_iff,
      canonicalKinds_eq_symbol_cons_iff, canonicalKinds_eq_nil_iff] at h
    obtain ⟨a, _, rfl, us, _, rfl, h, b, _, rfl, rfl⟩ := h
    rw [Expr.wellFormed] at hwf
    obtain ⟨inner', h, hi⟩ := inner.exists_readFrom h hwf
    refine ⟨_, .paren h, ?_⟩
    simp only [Expr.map, hi, noSpan]

theorem Expr.exists_argsReadFrom : ∀ (args : List Expr) {ts : List Token},
    canonicalKinds ts = Expr.argKinds args → Expr.allWellFormed args = true →
    ∃ args', Expr.ArgsReadFrom args' ts ∧
      Expr.mapAll id noSpan args' = Expr.mapAll id noSpan args
  | [], ts, h, _ => by
    rw [Expr.argKinds, canonicalKinds_eq_nil_iff] at h
    subst h
    exact ⟨[], .nil, rfl⟩
  | [arg], ts, h, hwf => by
    rw [Expr.argKinds] at h
    simp only [Expr.allWellFormed, Bool.and_true] at hwf
    obtain ⟨arg', h, ha⟩ := arg.exists_readFrom h hwf
    refine ⟨_, .one h, ?_⟩
    simp only [Expr.mapAll, ha]
  | arg :: next :: more, ts, h, hwf => by
    simp only [Expr.argKinds, canonicalKinds_eq_append_iff, canonicalKinds_eq_symbol_cons_iff] at h
    obtain ⟨us, _, rfl, h, a, vs, rfl, hmore⟩ := h
    rw [Expr.allWellFormed, Bool.and_eq_true] at hwf
    obtain ⟨arg', h, ha⟩ := arg.exists_readFrom h hwf.1
    obtain ⟨more', hmore, hm⟩ := Expr.exists_argsReadFrom (next :: more) hmore hwf.2
    -- the commas are derived only if there is an argument behind each of them
    cases more' with
    | nil => cases hm
    | cons next' more' =>
      refine ⟨_, .cons h hmore, ?_⟩
      rw [Expr.mapAll, hm, ha, ← Expr.mapAll]

end

mutual

theorem Stmt.exists_readFrom : ∀ (s : Stmt) {ts : List Token}, canonicalKinds ts = s.kinds →
    s.wellFormed = true → ∃ s' : Stmt, s'.ReadFrom ts ∧ s'.map id noSpan = s.map id noSpan
  | .block _ body, ts, h, hwf => by
    simp only [Stmt.kinds, List.cons_append, canonicalKinds_eq_append_iff,
      canonicalKinds_eq_symbol_cons_iff, canonicalKinds_eq_nil_iff] at h
    obtain ⟨a, _, rfl, us, _, rfl, h, b, _, rfl, rfl⟩ := h
    rw [Stmt.wellFormed] at hwf
    obtain ⟨body', h, hb⟩ := Stmt.exists_allReadFrom body h hwf
    refine ⟨_, .block h, ?_⟩
    simp only [Stmt.map, hb, noSpan]
  | .assign _ target value, ts, h, hwf => by
    simp only [Stmt.kinds, List.cons_append, canonicalKinds_eq_append_iff,
      canonicalKinds_eq_kind_cons_iff, canonicalKinds_eq_symbol_cons_iff,
      canonicalKinds_eq_nil_iff] at h
    obtain ⟨a, _, rfl, b, _, rfl, us, _, rfl, h, c, _, rfl, rfl⟩ := h
    rw [Stmt.wellFormed, Bool.and_eq_true] at hwf
    obtain ⟨value', h, hv⟩ := value.exists_readFrom h hwf.2
    refine ⟨_, .assign h, ?_⟩
    simp only [Stmt.map, Ident.map, hv, noSpan]
  | .arrayAssign _ target position value, ts, h, hwf => by
    simp only [Stmt.kinds, List.append_assoc, List.cons_append, canonicalKinds_eq_append_iff,
      canonicalKinds_eq_kind_cons_iff, canonicalKinds_eq_symbol_cons_iff,
      canonicalKinds_eq_nil_iff] at h
    obtain ⟨a, _, rfl, b, _, rfl, us, _, rfl, hposition, c, _, rfl, d, _, rfl, vs, _, rfl, hvalue,
      e, _, rfl, rfl⟩ := h
    simp only [Stmt.wellFormed, Bool.and_eq_true] at hwf
    obtain ⟨position', hposition, hp⟩ := position.exists_readFrom hposition hwf.1.2
    obtain ⟨value', hvalue, hv⟩ := value.exists_readFrom hvalue hwf.2
    refine ⟨_, .arrayAssign hposition hvalue, ?_⟩
    simp only [Stmt.map, Ident.map, hp, hv, noSpan]
  | .ifElse _ cond thenBranch elseBranch, ts, h, hwf => by
    simp only [Stmt.kinds, List.append_assoc, List.cons_append, canonicalKinds_eq_append_iff,
      canonicalKinds_eq_keyword_cons_iff, canonicalKinds_eq_symbol_cons_iff] at h
    obtain ⟨a, _, rfl, b, _, rfl, us, _, rfl, hcond, c, _, rfl, vs, _, rfl, hthen, d, ws, rfl,
      helse⟩ := h
    simp only [Stmt.wellFormed, Bool.and_eq_true] at hwf
    obtain ⟨cond', hcond, hc⟩ := cond.exists_readFrom hcond hwf.1.1
    obtain ⟨then', hthen, ht⟩ := thenBranch.exists_readFrom hthen hwf.1.2
    obtain ⟨else', helse, he⟩ := elseBranch.exists_readFrom helse hwf.2
    refine ⟨_, .ifElse hcond hthen helse, ?_⟩
    simp only [Stmt.map, hc, ht, he, noSpan]
  | .whileLoop _ cond body, ts, h, hwf => by
    simp only [Stmt.kinds, List.cons_append, canonicalKinds_eq_append_iff,
      canonicalKinds_eq_keyword_cons_iff, canonicalKinds_eq_symbol_cons_iff] at h
    obtain ⟨a, _, rfl, b, _, rfl, us, _, rfl, hcond, c, vs, rfl, hbody⟩ := h
    rw [Stmt.wellFormed, Bool.and_eq_true] at hwf
    obtain ⟨cond', hcond, hc⟩ := cond.exists_readFrom hcond hwf.1
    obtain ⟨body', hbody, hb⟩ := body.exists_readFrom hbody hwf.2
    refine ⟨_, .whileLoop hcond hbody, ?_⟩
    simp only [Stmt.map, hc, hb, noSpan]
  | .print _ value, ts, h, hwf => by
    simp only [Stmt.kinds, List.cons_append, canonicalKinds_eq_append_iff,
      canonicalKinds_eq_ident_cons_iff, canonicalKinds_eq_symbol_cons_iff,
      canonicalKinds_eq_nil_iff] at h
    obtain ⟨a, _, rfl, b, _, rfl, c, _, rfl, d, _, rfl, e, _, rfl, f, _, rfl, us, _, rfl, h, g, _,
      rfl, i, _, rfl, rfl⟩ := h
    rw [Stmt.wellFormed] at hwf
    obtain ⟨value', h, hv⟩ := value.exists_readFrom h hwf
    refine ⟨_, .print h, ?_⟩
    simp only [Stmt.map, hv, noSpan]

theorem Stmt.exists_allReadFrom : ∀ (body : List Stmt) {ts : List Token},
    canonicalKinds ts = Stmt.allKinds body → Stmt.allWellFormed body = true →
    ∃ body', Stmt.AllReadFrom body' ts ∧
      Stmt.mapAll id noSpan body' = Stmt.mapAll id noSpan body
  | [], ts, h, _ => by
    rw [Stmt.allKinds, canonicalKinds_eq_nil_iff] at h
    subst h
    exact ⟨[], .nil, rfl⟩
  | first :: more, ts, h, hwf => by
    rw [Stmt.allKinds, canonicalKinds_eq_append_iff] at h
    obtain ⟨us, vs, rfl, hfirst, hmore⟩ := h
    rw [Stmt.allWellFormed, Bool.and_eq_true] at hwf
    obtain ⟨first', hfirst, hf⟩ := first.exists_readFrom hfirst hwf.1
    obtain ⟨more', hmore, hm⟩ := Stmt.exists_allReadFrom more hmore hwf.2
    refine ⟨_, .cons hfirst hmore, ?_⟩
    rw [Stmt.mapAll, hf, hm, ← Stmt.mapAll]

end

theorem exists_readAll {α : Type} {R : α → List Token → Prop} {kinds : α → List Token.Kind}
    {wf : α → Bool} {erase : α → α}
    (hR : ∀ a ts, canonicalKinds ts = kinds a → wf a = true → ∃ a', R a' ts ∧ erase a' = erase a)
    (as : List α) {ts : List Token} (h : canonicalKinds ts = as.flatMap kinds)
    (hwf : as.all wf = true) : ∃ as', ReadAll R as' ts ∧ as'.map erase = as.map erase := by
  induction as generalizing ts with
  | nil =>
    obtain rfl := canonicalKinds_eq_nil_iff.mp h
    exact ⟨[], .nil, rfl⟩
  | cons a as ih =>
    rw [List.flatMap_cons, canonicalKinds_eq_append_iff] at h
    obtain ⟨us, vs, rfl, ha, has⟩ := h
    rw [List.all_cons, Bool.and_eq_true] at hwf
    obtain ⟨a', ha, hea⟩ := hR a us ha hwf.1
    obtain ⟨as', has, heas⟩ := ih has hwf.2
    refine ⟨a' :: as', .cons ha has, ?_⟩
    rw [List.map_cons, List.map_cons, hea, heas]

theorem VarDecl.exists_readFrom (d : VarDecl) (ts : List Token) (h : canonicalKinds ts = d.kinds)
    (_ : d.wellFormed = true) :
    ∃ d' : VarDecl, d'.ReadFrom ts ∧ d'.map id noSpan = d.map id noSpan := by
  simp only [VarDecl.kinds, canonicalKinds_eq_append_iff, canonicalKinds_eq_kind_cons_iff,
    canonicalKinds_eq_symbol_cons_iff, canonicalKinds_eq_nil_iff] at h
  obtain ⟨us, _, rfl, h, a, _, rfl, b, _, rfl, rfl⟩ := h
  obtain ⟨type', h, ht⟩ := d.type.exists_readFrom h
  refine ⟨_, .intro h, ?_⟩
  simp only [VarDecl.map, Ident.map, ht, noSpan]

theorem VarDecl.exists_paramReadFrom (d : VarDecl) {ts : List Token}
    (h : canonicalKinds ts = d.paramKinds) :
    ∃ d' : VarDecl, d'.ParamReadFrom ts ∧ d'.map id noSpan = d.map id noSpan := by
  simp only [VarDecl.paramKinds, canonicalKinds_eq_append_iff, canonicalKinds_eq_kind_cons_iff,
    canonicalKinds_eq_nil_iff] at h
  obtain ⟨us, _, rfl, h, a, _, rfl, rfl⟩ := h
  obtain ⟨type', h, ht⟩ := d.type.exists_readFrom h
  refine ⟨_, .intro h, ?_⟩
  simp only [VarDecl.map, Ident.map, ht, noSpan]

theorem VarDecl.exists_paramsReadFrom : ∀ (ds : List VarDecl) {ts : List Token},
    canonicalKinds ts = VarDecl.paramListKinds ds →
    ∃ ds', VarDecl.ParamsReadFrom ds' ts ∧
      ds'.map (VarDecl.map id noSpan) = ds.map (VarDecl.map id noSpan)
  | [], ts, h => by
    rw [VarDecl.paramListKinds, canonicalKinds_eq_nil_iff] at h
    subst h
    exact ⟨[], .nil, rfl⟩
  | [d], ts, h => by
    rw [VarDecl.paramListKinds] at h
    obtain ⟨d', h, hd⟩ := d.exists_paramReadFrom h
    refine ⟨_, .one h, ?_⟩
    rw [List.map_singleton, List.map_singleton, hd]
  | d :: next :: more, ts, h => by
    simp only [VarDecl.paramListKinds, canonicalKinds_eq_append_iff,
      canonicalKinds_eq_symbol_cons_iff] at h
    obtain ⟨us, _, rfl, h, a, vs, rfl, hmore⟩ := h
    obtain ⟨d', h, hd⟩ := d.exists_paramReadFrom h
    obtain ⟨more', hmore, hm⟩ := VarDecl.exists_paramsReadFrom (next :: more) hmore
    cases more' with
    | nil => cases hm
    | cons next' more' =>
      refine ⟨_, .cons h hmore, ?_⟩
      rw [List.map_cons, hm, hd, ← List.map_cons]

theorem MethodDecl.exists_readFrom (d : MethodDecl) (ts : List Token)
    (h : canonicalKinds ts = d.kinds) (hwf : d.wellFormed = true) :
    ∃ d' : MethodDecl, d'.ReadFrom ts ∧ d'.map id noSpan = d.map id noSpan := by
  simp only [MethodDecl.kinds, VarDecl.allKinds, List.append_assoc, List.cons_append,
    canonicalKinds_eq_append_iff, canonicalKinds_eq_keyword_cons_iff,
    canonicalKinds_eq_kind_cons_iff, canonicalKinds_eq_symbol_cons_iff,
    canonicalKinds_eq_nil_iff] at h
  obtain ⟨a, _, rfl, us, _, rfl, hreturns, b, _, rfl, c, _, rfl, vs, _, rfl, hparams, e, _, rfl, f,
    _, rfl, ws, _, rfl, hvars, xs, _, rfl, hbody, g, _, rfl, ys, _, rfl, hresult, i, _, rfl, j, _,
    rfl, rfl⟩ := h
  simp only [MethodDecl.wellFormed, Bool.and_eq_true] at hwf
  obtain ⟨⟨⟨-, hwv⟩, hwb⟩, hwr⟩ := hwf
  obtain ⟨returns', hreturns, ht⟩ := d.returns.exists_readFrom hreturns
  obtain ⟨params', hparams, hp⟩ := VarDecl.exists_paramsReadFrom d.params hparams
  obtain ⟨vars', hvars, hv⟩ := exists_readAll VarDecl.exists_readFrom d.vars hvars hwv
  obtain ⟨body', hbody, hb⟩ := Stmt.exists_allReadFrom d.body hbody hwb
  obtain ⟨result', hresult, hr⟩ := d.result.exists_readFrom hresult hwr
  refine ⟨_, .intro hreturns hparams hvars hbody hresult, ?_⟩
  simp only [MethodDecl.map, Ident.map, ht, hp, hv, hb, hr, noSpan]

theorem ClassDecl.exists_parentReadFrom (d : ClassDecl) {ts : List Token}
    (h : canonicalKinds ts = d.parentKinds) :
    ∃ parent', ClassDecl.ParentReadFrom parent' ts ∧
      parent'.map (Ident.map id noSpan) = d.parent.map (Ident.map id noSpan) := by
  rw [ClassDecl.parentKinds] at h
  cases hp : d.parent with
  | none =>
    simp only [hp, canonicalKinds_eq_nil_iff] at h
    subst h
    exact ⟨none, .none, rfl⟩
  | some parent =>
    simp only [hp, canonicalKinds_eq_keyword_cons_iff, canonicalKinds_eq_kind_cons_iff,
      canonicalKinds_eq_nil_iff] at h
    obtain ⟨a, _, rfl, b, _, rfl, rfl⟩ := h
    exact ⟨_, .some, rfl⟩

theorem ClassDecl.exists_readFrom (d : ClassDecl) (ts : List Token)
    (h : canonicalKinds ts = d.kinds) (hwf : d.wellFormed = true) :
    ∃ d' : ClassDecl, d'.ReadFrom ts ∧ d'.map id noSpan = d.map id noSpan := by
  simp only [ClassDecl.kinds, VarDecl.allKinds, List.append_assoc, List.cons_append,
    canonicalKinds_eq_append_iff, canonicalKinds_eq_keyword_cons_iff,
    canonicalKinds_eq_kind_cons_iff, canonicalKinds_eq_symbol_cons_iff,
    canonicalKinds_eq_nil_iff] at h
  obtain ⟨a, _, rfl, b, _, rfl, us, _, rfl, hparent, c, _, rfl, vs, _, rfl, hfields, ws, _, rfl,
    hmethods, e, _, rfl, rfl⟩ := h
  simp only [ClassDecl.wellFormed, Bool.and_eq_true] at hwf
  obtain ⟨parent', hparent, hp⟩ := d.exists_parentReadFrom hparent
  obtain ⟨fields', hfields, hf⟩ := exists_readAll VarDecl.exists_readFrom d.fields hfields hwf.1.2
  obtain ⟨methods', hmethods, hm⟩ :=
    exists_readAll MethodDecl.exists_readFrom d.methods hmethods hwf.2
  refine ⟨_, .intro hparent hfields hmethods, ?_⟩
  simp only [ClassDecl.map, Ident.map, hp, hf, hm, noSpan]

theorem MainClass.exists_readFrom (d : MainClass) {ts : List Token}
    (h : canonicalKinds ts = d.kinds) (hwf : d.wellFormed = true) :
    ∃ d' : MainClass, d'.ReadFrom ts ∧ d'.map id noSpan = d.map id noSpan := by
  simp only [MainClass.kinds, VarDecl.allKinds, List.append_assoc, List.cons_append,
    List.nil_append, canonicalKinds_eq_append_iff, canonicalKinds_eq_keyword_cons_iff,
    canonicalKinds_eq_kind_cons_iff, canonicalKinds_eq_ident_cons_iff,
    canonicalKinds_eq_symbol_cons_iff, canonicalKinds_eq_nil_iff] at h
  obtain ⟨a, _, rfl, b, _, rfl, c, _, rfl, e, _, rfl, f, _, rfl, g, _, rfl, i, _, rfl, j, _, rfl, k,
    _, rfl, l, _, rfl, m, _, rfl, n, _, rfl, o, _, rfl, q, _, rfl, us, _, rfl, hvars, vs, _, rfl,
    hbody, r, _, rfl, s, _, rfl, rfl⟩ := h
  simp only [MainClass.wellFormed, Bool.and_eq_true] at hwf
  obtain ⟨vars', hvars, hv⟩ := exists_readAll VarDecl.exists_readFrom d.vars hvars hwf.1.2
  obtain ⟨body', hbody, hb⟩ := Stmt.exists_allReadFrom d.body hbody hwf.2
  refine ⟨_, .intro hvars hbody, ?_⟩
  simp only [MainClass.map, Ident.map, hv, hb, noSpan]

/-- Tokens of the kinds of a program of the grammar have a derivation of this program, up to
spans. -/
theorem Program.exists_readFrom (p : Program) {ts : List Token} (h : canonicalKinds ts = p.kinds)
    (hwf : p.wellFormed = true) :
    ∃ p' : Program, p'.ReadFrom ts ∧ p'.eraseSpans = p.eraseSpans := by
  rw [Program.kinds, canonicalKinds_eq_append_iff] at h
  obtain ⟨us, vs, rfl, hmain, hclasses⟩ := h
  rw [Program.wellFormed, Bool.and_eq_true] at hwf
  obtain ⟨main', hmain, hm⟩ := p.main.exists_readFrom hmain hwf.1
  obtain ⟨classes', hclasses, hc⟩ :=
    exists_readAll ClassDecl.exists_readFrom p.classes hclasses hwf.2
  refine ⟨_, .intro hmain hclasses, ?_⟩
  exact congrArg₂ Program.mk hm hc

/-! ### Texts and programs -/

/-- No tokens have derivations of two programs. -/
theorem Program.ReadFrom.unique {p q : Program} {ts : List Token} (hp : p.ReadFrom ts)
    (hq : q.ReadFrom ts) : p = q := by
  -- the reader, which is a function, finds both of them
  have hmark : (⟨.eof, default⟩ : Token).kind = .eof := rfl
  have hread : Program.ofTokens (ts ++ [⟨.eof, default⟩]) = .ok p := hp.ofTokens_eq hmark
  rw [hq.ofTokens_eq hmark] at hread
  exact (Except.ok.inj hread).symm

theorem canonicalKinds_of_writes {ts : List Token} {ks : List Token.Kind}
    (h : List.Forall₂ Token.Kind.Writes (ts.map Token.kind) ks) : canonicalKinds ts = ks := by
  induction ts generalizing ks with
  | nil =>
    cases h
    rfl
  | cons t ts ih =>
    cases h with
    | cons ht hts => rw [canonicalKinds_cons, ht.canonical_eq, ih hts]

/-- A text with the kinds of a program is read as this program. -/
theorem Program.parse_of_canonicalKinds {text : String} {file : Nat} {p : Program}
    (hwf : p.wellFormed = true) (h : canonicalKinds (tokenize text file) = p.kinds ++ [.eof]) :
    ∃ q, Program.parse text file = .ok q ∧ q.eraseSpans = p.eraseSpans := by
  obtain ⟨words, mark, htokens, hmark, -⟩ := tokenize_shape text file
  rw [htokens, canonicalKinds_append] at h
  obtain ⟨hwords, -⟩ := List.append_inj' h rfl
  obtain ⟨q, hq, heq⟩ := p.exists_readFrom hwords hwf
  refine ⟨q, ?_, heq⟩
  rw [Program.parse, htokens]
  exact hq.ofTokens_eq hmark

theorem Program.parse_of_written {text : String} {file : Nat} {p : Program}
    (hwf : p.wellFormed = true)
    (h : List.Forall₂ Token.Kind.Writes ((tokenize text file).map Token.kind) (p.kinds ++ [.eof])) :
    ∃ q, Program.parse text file = .ok q ∧ q.eraseSpans = p.eraseSpans :=
  Program.parse_of_canonicalKinds hwf (canonicalKinds_of_writes h)

theorem Program.eraseSpans_eq_of_writes {p q : Program} {ks : List Token.Kind}
    (hp : p.wellFormed = true) (hq : q.wellFormed = true)
    (hkp : List.Forall₂ Token.Kind.Writes ks p.kinds)
    (hkq : List.Forall₂ Token.Kind.Writes ks q.kinds) : p.eraseSpans = q.eraseSpans := by
  have hks : (ks.map fun k => (⟨k, default⟩ : Token)).map Token.kind = ks := by
    rw [List.map_map]
    exact List.map_id ks
  rw [← hks] at hkp hkq
  obtain ⟨p', hp', hep⟩ := p.exists_readFrom (canonicalKinds_of_writes hkp) hp
  obtain ⟨q', hq', heq⟩ := q.exists_readFrom (canonicalKinds_of_writes hkq) hq
  rw [← hep, ← heq, hp'.unique hq']

/-! ### The two directions -/

/-- A text with unusual names and a literal with leading zeros. -/
def sampleText : String :=
  "class A\x7bpublic static void main(String[] b)\x7bSystem=x.length(007);\x7d\x7d"

/-- The program of `sampleText`, where `System` is a variable and `length` is a method. -/
def sampleProgram : Program :=
  ⟨⟨⟨"A", default⟩, ⟨"b", default⟩, [],
    [.assign default ⟨"System", default⟩
      (.send default (.ident ⟨"x", default⟩) ⟨"length", default⟩ [.int default 7])], default⟩, []⟩

theorem sampleText_writes :
    List.Forall₂ Token.Kind.Writes ((tokenize sampleText 0).map Token.kind)
      (sampleProgram.kinds ++ [.eof]) := by
  have hkinds : (tokenize sampleText 0).map Token.kind =
      [.keyword .classKw, .ident "A", .symbol .lbrace, .keyword .publicKw, .keyword .staticKw,
        .keyword .voidKw, .ident "main", .symbol .lparen, .ident "String", .symbol .lbracket,
        .symbol .rbracket, .ident "b", .symbol .rparen, .symbol .lbrace, .ident "System",
        .symbol .assign, .ident "x", .symbol .dot, .ident "length", .symbol .lparen,
        .intLit "007", .symbol .rparen, .symbol .semicolon, .symbol .rbrace, .symbol .rbrace,
        .eof] := by
    decide +kernel
  have hlit : Token.Kind.Writes (.intLit "007") (.intLit "7") := .intLit 2 7
  rw [hkinds]
  exact .cons (.keyword _) <| .cons (.ident _) <| .cons (.symbol _) <| .cons (.keyword _) <|
    .cons (.keyword _) <| .cons (.keyword _) <| .cons (.ident _) <| .cons (.symbol _) <|
    .cons (.ident _) <| .cons (.symbol _) <| .cons (.symbol _) <| .cons (.ident _) <|
    .cons (.symbol _) <| .cons (.symbol _) <| .cons (.ident _) <| .cons (.symbol _) <|
    .cons (.ident _) <| .cons (.symbol _) <| .cons (.ident _) <| .cons (.symbol _) <|
    .cons hlit <| .cons (.symbol _) <| .cons (.symbol _) <| .cons (.symbol _) <|
    .cons (.symbol _) <| .cons .eof .nil

/-- **What is read is what was written.** If a program is read from a text, then the grammar admits
it, its kinds are those of all words of the text in their order, where literals may have leading
zeros in the text, and the text has neither invalid characters nor literals that are too large. -/
theorem kinds_of_parse (text : String) (file : Nat) (p : Program)
    (h : Program.parse text file = .ok p) :
    p.wellFormed = true ∧
      List.Forall₂ Token.Kind.Writes ((tokenize text file).map Token.kind) (p.kinds ++ [.eof]) ∧
      ∀ t ∈ tokenize text file, (∀ char, t.kind ≠ .unknown char) ∧
        ∀ digits, t.kind = .intLit digits → Digits.value digits.toList ≤ maxInt := by
  obtain ⟨hwf, hkinds⟩ := Program.written_of_parse h
  refine ⟨hwf, hkinds, ?_⟩
  obtain ⟨words, mark, htokens, hmark, -, hp⟩ := Program.readFrom_of_parse h
  rw [htokens]
  intro t ht
  rcases List.mem_append.mp ht with ht | ht
  · have hadm := hp.allAdmissible t ht
    refine ⟨fun char hk => ?_, fun digits hk => ?_⟩
    · rw [hk] at hadm
      cases hadm
    · rw [hk] at hadm
      exact (isIntText_iff.mp hadm).2
  · rw [List.mem_singleton.mp ht, hmark]
    exact ⟨fun _ => nofun, fun _ => nofun⟩

theorem kinds_of_parse_sample :
    ∃ p, Program.parse sampleText 0 = .ok p ∧ p.wellFormed = true ∧
      List.Forall₂ Token.Kind.Writes ((tokenize sampleText 0).map Token.kind)
        (p.kinds ++ [.eof]) := by
  obtain ⟨p, hp, -⟩ := Program.parse_of_written (by decide) sampleText_writes
  obtain ⟨hwf, hkinds, -⟩ := kinds_of_parse sampleText 0 p hp
  exact ⟨p, hp, hwf, hkinds⟩

/-- **Reading undoes writing.** Every text that is a way to write a program of the grammar is read,
and the result is this program up to spans. Hence the kinds of a text are those of at most one
program, and the texts that are read are exactly the ways to write programs of the grammar. -/
theorem parse_undoes_writing :
    (∀ (p : Program) (text : String) (file : Nat), p.wellFormed = true →
      List.Forall₂ Token.Kind.Writes ((tokenize text file).map Token.kind) (p.kinds ++ [.eof]) →
      ∃ q, Program.parse text file = .ok q ∧ q.eraseSpans = p.eraseSpans) ∧
    (∀ (p q : Program) (ks : List Token.Kind), p.wellFormed = true → q.wellFormed = true →
      List.Forall₂ Token.Kind.Writes ks p.kinds → List.Forall₂ Token.Kind.Writes ks q.kinds →
      p.eraseSpans = q.eraseSpans) ∧
    ∀ (text : String) (file : Nat), (∃ q, Program.parse text file = .ok q) ↔
      ∃ p : Program, p.wellFormed = true ∧
        List.Forall₂ Token.Kind.Writes ((tokenize text file).map Token.kind)
          (p.kinds ++ [.eof]) := by
  refine ⟨fun p text file hwf h => Program.parse_of_written hwf h,
    fun p q ks hp hq hkp hkq => Program.eraseSpans_eq_of_writes hp hq hkp hkq,
    fun text file => ⟨?_, ?_⟩⟩
  · rintro ⟨q, hq⟩
    exact ⟨q, Program.written_of_parse hq⟩
  · rintro ⟨p, hwf, h⟩
    obtain ⟨q, hq, -⟩ := Program.parse_of_written hwf h
    exact ⟨q, hq⟩

theorem parse_undoes_writing_sample :
    ∃ q, Program.parse sampleText 0 = .ok q ∧ q.eraseSpans = sampleProgram.eraseSpans :=
  parse_undoes_writing.1 sampleProgram sampleText 0 (by decide) sampleText_writes

end MiniJava
