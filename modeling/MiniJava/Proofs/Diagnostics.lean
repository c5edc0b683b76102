import Mathlib.Data.List.TakeWhile
import MiniJava.Proofs.Naturality
import MiniJava.Proofs.NodeSpans
import MiniJava.Proofs.PositionCode
import MiniJava.Proofs.ProgramRuns
import MiniJava.Proofs.RoundTrip
import MiniJava.Proofs.TextCut
import MiniJava.Proofs.Violations
import MiniJava.Report.Basic

/-!
# Where diagnostics point to

An error of form has the span of a token. An error of meaning has the span of a part of the program:
the declarations are refused at a name, and a violation of a rule shows in the node that breaks it.
In both cases the span lies in the text, and a report finds the line and the column of the place.

The numbers of a report have 32 bits. For texts of fewer than 2³² characters one place can be out of
their reach, the end of a text that `EndsTooFar`; `far_end_told_as_column_zero` is such a text.
-/

namespace MiniJava

/-! ### Errors of the declarations -/

section

variable {e : SemanticError}

/-- Variables that are declared one by one are refused at the name of one of them. -/
theorem span_of_declareAll {σ : Type} (declare : σ → Variable → Span → Except SemanticError σ)
    (hstep : ∀ s v span, declare s v span = .error e → span = e.span) {s : σ} {ds : List VarDecl}
    (h : ds.foldlM (fun s d => declare s d.toVariable d.name.span) s = .error e) :
    ∃ d ∈ ds, e.span ∈ d.spans := by
  obtain ⟨d, hd, s', hfail⟩ := exists_of_foldlM_eq_error h
  have hspans : ∀ s ∈ d.spans, s ∈ d.spans := fun _ hs => hs
  refine ⟨d, hd, ?_⟩
  rw [← hstep _ _ _ hfail]
  exact (VarDecl.forall_mem_spans_iff.mp hspans).2.2

theorem MethodEntry.span_of_declareParams {m : MethodEntry} {params : List VarDecl}
    (h : m.declareParams params = .error e) : ∃ d ∈ params, e.span ∈ d.spans :=
  span_of_declareAll declareParam
    (fun _ _ _ hfail => congrArg SemanticError.span (ite_error_eq_error_iff.mp hfail).2) h

theorem MethodEntry.span_of_declareLocals {m : MethodEntry} {vars : List VarDecl}
    (h : m.declareLocals vars = .error e) : ∃ d ∈ vars, e.span ∈ d.spans :=
  span_of_declareAll declareLocal
    (fun _ _ _ hfail => congrArg SemanticError.span (ite_error_eq_error_iff.mp hfail).2) h

theorem ClassEntry.span_of_declareFields {c : ClassEntry} {fields : List VarDecl}
    (h : c.declareFields fields = .error e) : ∃ d ∈ fields, e.span ∈ d.spans :=
  span_of_declareAll declareField
    (fun _ _ _ hfail => congrArg SemanticError.span (ite_error_eq_error_iff.mp hfail).2) h

theorem ClassEntry.span_of_declare {c : ClassEntry} {d : MethodDecl}
    (h : (c.declare d).result = .error e) : e.span ∈ d.spans := by
  have hspans : ∀ s ∈ d.spans, s ∈ d.spans := fun _ hs => hs
  obtain ⟨-, -, hname, hparams, hvars, -, -⟩ := MethodDecl.forall_mem_spans_iff.mp hspans
  simp only [ClassEntry.declare, Analysis.result_bind_eq_error_iff, Analysis.result_note,
    Analysis.result_liftM, Analysis.result_pure, reduceCtorEq, and_false, exists_false, or_false,
    false_or] at h
  rcases h with ⟨-, -, hfresh | ⟨-, -, hfail | ⟨m, -, hfail⟩⟩⟩
  · obtain ⟨-, rfl⟩ := ite_error_eq_error_iff.mp hfresh
    exact hname
  · obtain ⟨v, hv, hspan⟩ := MethodEntry.span_of_declareParams hfail
    exact hparams v hv _ hspan
  · obtain ⟨v, hv, hspan⟩ := MethodEntry.span_of_declareLocals hfail
    exact hvars v hv _ hspan

theorem MainClass.span_of_declare {d : MainClass} (h : d.declare.result = .error e) :
    e.span ∈ d.spans := by
  have hspans : ∀ s ∈ d.spans, s ∈ d.spans := fun _ hs => hs
  obtain ⟨-, -, -, hvars, -⟩ := MainClass.forall_mem_spans_iff.mp hspans
  simp only [MainClass.declare, Analysis.result_bind_eq_error_iff, Analysis.result_note,
    Analysis.result_liftM, Analysis.result_pure, reduceCtorEq, and_false, exists_false, or_false,
    false_or] at h
  obtain ⟨-, -, hfail⟩ := h
  obtain ⟨v, hv, hspan⟩ := MethodEntry.span_of_declareLocals hfail
  exact hvars v hv _ hspan

theorem SymbolTable.span_of_checkParent {t : SymbolTable} {cls : String} {parent : Option Ident}
    (h : t.checkParent cls parent = .error e) : ∃ i, parent = some i ∧ e.span = i.span := by
  unfold checkParent at h
  split at h
  · cases h
  · rename_i i
    refine ⟨i, rfl, ?_⟩
    split at h
    · cases h
      rfl
    · split at h
      · cases h
      · cases h
        rfl

theorem SymbolTable.span_of_declare {t : SymbolTable} {d : ClassDecl}
    (h : (t.declare d).result = .error e) : e.span ∈ d.spans := by
  have hspans : ∀ s ∈ d.spans, s ∈ d.spans := fun _ hs => hs
  obtain ⟨-, hname, hparent, hfields, hmethods⟩ := ClassDecl.forall_mem_spans_iff.mp hspans
  simp only [SymbolTable.declare, Analysis.result_bind_eq_error_iff, Analysis.result_note,
    Analysis.result_liftM, Analysis.result_pure, Analysis.result_foldlM, reduceCtorEq, and_false,
    exists_false, or_false, false_or] at h
  rcases h with hfresh | ⟨-, -, hfail | ⟨-, -, -, -, hfail | ⟨c, -, hfail⟩⟩⟩
  · obtain ⟨-, rfl⟩ := ite_error_eq_error_iff.mp hfresh
    exact hname
  · obtain ⟨i, hi, hspan⟩ := SymbolTable.span_of_checkParent hfail
    rw [hspan]
    exact hparent i hi
  · obtain ⟨v, hv, hspan⟩ := ClassEntry.span_of_declareFields hfail
    exact hfields v hv _ hspan
  · obtain ⟨m, hm, c', hfail⟩ := exists_of_foldlM_eq_error hfail
    exact hmethods m hm _ (ClassEntry.span_of_declare hfail)

/-- A program is refused by the first pass at one of its names. -/
theorem Program.span_of_declare {p : Program} (h : p.declare.result = .error e) :
    e.span ∈ p.spans := by
  have hspans : ∀ s ∈ p.spans, s ∈ p.spans := fun _ hs => hs
  obtain ⟨hmain, hclasses⟩ := Program.forall_mem_spans_iff.mp hspans
  simp only [Program.declare, Analysis.result_bind_eq_error_iff, Analysis.result_note,
    Analysis.result_pure, Analysis.result_foldlM, reduceCtorEq, and_false, exists_false, or_false,
    false_or] at h
  rcases h with ⟨-, -, hfail | ⟨main, -, hfail⟩⟩
  · exact hmain _ (MainClass.span_of_declare hfail)
  · obtain ⟨d, hd, t, hfail⟩ := exists_of_foldlM_eq_error hfail
    exact hclasses d hd _ (SymbolTable.span_of_declare hfail)

end

/-! ### Errors of the check -/

section

variable {t : SymbolTable} {s : Scope} {e : SemanticError}

theorem Expr.span_mem_of_mem_parts {e part : Expr} (h : part ∈ e.parts) : part.span ∈ e.spans :=
  Expr.forall_mem_spans_of_parts (fun _ hs => hs) part h _ part.span_mem_spans

theorem Stmt.span_mem_of_mem_exprs {stmt : Stmt} {e : Expr} (h : e ∈ stmt.exprs) :
    e.span ∈ stmt.spans :=
  Stmt.forall_mem_spans_of_exprs (fun _ hs => hs) e h _ e.span_mem_spans

theorem MethodDecl.result_span_mem_spans (d : MethodDecl) : d.result.span ∈ d.spans := by
  have hspans : ∀ s ∈ d.spans, s ∈ d.spans := fun _ hs => hs
  obtain ⟨-, -, -, -, -, -, hresult⟩ := MethodDecl.forall_mem_spans_iff.mp hspans
  exact hresult _ d.result.span_mem_spans

theorem Node.BareName.span_mem {n : Node} {name : Ident} (h : n.BareName name) :
    name.span ∈ n.spans := by
  cases h with
  | ident => simp [Node.spans, Expr.spans]
  | target => simp [Node.spans, Stmt.spans]
  | arrayTarget => simp [Node.spans, Stmt.spans]
  | type htype => simp [Node.spans, VarDecl.spans, htype, TypeExpr.span]

theorem Expr.Operand.mem_parts {e operand : Expr} {rule : OperandRule} {demanded : Ty}
    (h : e.Operand operand rule demanded) : operand ∈ e.parts := by
  cases h <;> simp_all [Expr.parts]

theorem Stmt.Condition.mem_exprs {stmt : Stmt} {construct : Construct} {cond : Expr}
    (h : stmt.Condition construct cond) : cond ∈ stmt.exprs := by
  cases h <;> simp [Stmt.exprs]

/-- A violation shows in the node that breaks the rule. -/
theorem Node.Violates.span_mem {n : Node} (h : n.Violates t s e) : e.span ∈ n.spans := by
  cases h with
  | unresolved hname => exact hname.span_mem
  | noMethod | noClass => simp [Node.spans, Expr.spans]
  | noReceiver => exact Expr.span_mem_of_mem_parts List.mem_cons_self
  | operand h => exact Expr.span_mem_of_mem_parts h.mem_parts
  | tooFewArguments => exact Expr.span_mem_spans _
  | tooManyArguments _ harg =>
    exact Expr.span_mem_of_mem_parts (List.mem_cons_of_mem _ (List.mem_of_getElem? harg))
  | argument _ harg =>
    exact Expr.span_mem_of_mem_parts (List.mem_cons_of_mem _ (List.mem_of_getElem? harg))
  | condition h => exact Stmt.span_mem_of_mem_exprs h.mem_exprs
  | assignment => simp [Node.spans, Stmt.spans]
  | arrayTarget => simp [Node.spans, Stmt.spans]
  | arrayIndex => exact Stmt.span_mem_of_mem_exprs List.mem_cons_self
  | arrayValue =>
    exact Stmt.span_mem_of_mem_exprs (List.mem_cons_of_mem _ List.mem_cons_self)
  | result => exact MethodDecl.result_span_mem_spans _

theorem Program.Violation.span_mem {p : Program} (h : p.Violation t e) : e.span ∈ p.spans := by
  obtain ⟨s, n, hn, hviolates⟩ := h
  exact hn.forall_mem_spans (fun _ hs => hs) _ hviolates.span_mem

/-- A program is refused by the second pass at one of its nodes. -/
theorem Program.span_of_check {p : Program} (ht : p.declare.result = .ok t)
    (h : (p.check t).result = .error e) : e.span ∈ p.spans := by
  obtain ⟨hp, rfl⟩ := Program.declarable_of_declare ht
  exact (hp.violation_of_check h).span_mem

theorem Program.span_of_analyze {p : Program} (h : p.analyze.result = .error e) :
    e.span ∈ p.spans := by
  simp only [Program.analyze, Analysis.result_bind_eq_error_iff, Analysis.result_pure,
    reduceCtorEq, and_false, exists_false, or_false] at h
  rcases h with hdeclare | ⟨t, ht, hcheck⟩
  · exact Program.span_of_declare hdeclare
  · exact Program.span_of_check ht hcheck

end

/-! ### Lines and columns -/

/-- The place behind the last character of the text is too far for 32 bits: the text has 2³² - 1
characters, and they stand on one line, or each of them ends one. -/
def EndsTooFar (text : String) : Prop :=
  text.length + 1 = UInt32.size ∧ ('\n' ∉ text.toList ∨ ∀ c ∈ text.toList, c = '\n')

namespace Position

/-- Both numbers of the position have at most 32 bits. -/
def Fits (p : Position) : Prop :=
  p.line < UInt32.size ∧ p.column < UInt32.size

/-- The numbers that fit are the ones that come back from 32 bits. -/
theorem toUInt32_eq_iff {p : Position} :
    (⟨p.line.toUInt32.toNat, p.column.toUInt32.toNat⟩ : Position) = p ↔ p.Fits := by
  constructor
  · intro h
    rw [← h]
    exact ⟨p.line.toUInt32.toNat_lt, p.column.toUInt32.toNat_lt⟩
  · intro h
    have hline : p.line.toUInt32.toNat = p.line := UInt32.toNat_ofNat_of_lt' h.1
    have hcolumn : p.column.toUInt32.toNat = p.column := UInt32.toNat_ofNat_of_lt' h.2
    rw [hline, hcolumn]

theorem counted_ofOffset (text : String) (offset : Nat) : (ofOffset text offset).Counted :=
  counted_first.foldl_advance _

variable {text : String}

theorem fits_ofOffset {offset : Nat} (h : offset < text.length)
    (hlength : text.length < UInt32.size) : (ofOffset text offset).Fits := by
  rw [← String.length_toList] at h hlength
  have htake : (text.toList.take offset).length ≤ offset := List.length_take_le _ _
  have hline := List.count_le_length (a := '\n') (l := text.toList.take offset)
  have hcolumn :=
    (List.takeWhile_prefix (l := (text.toList.take offset).reverse) (· != '\n')).length_le
  rw [List.length_reverse] at hcolumn
  rw [ofOffset_eq text (Nat.le_of_lt h)]
  constructor <;> dsimp only <;> omega

/-- All characters are to the left of the end exactly if none of them is a line feed. -/
theorem length_takeWhile_reverse_eq_iff {cs : List Char} :
    (cs.reverse.takeWhile (· != '\n')).length = cs.length ↔ '\n' ∉ cs := by
  have hfront := List.takeWhile_prefix (l := cs.reverse) (· != '\n')
  constructor
  · intro h hmem
    have hall := List.takeWhile_eq_self_iff.mp
      (hfront.eq_of_length (h.trans List.length_reverse.symm))
    exact bne_iff_ne.mp (hall '\n' (List.mem_reverse.mpr hmem)) rfl
  · intro h
    have hall : ∀ c ∈ cs.reverse, (c != '\n') = true := by
      intro c hc
      refine bne_iff_ne.mpr fun hnewline => h ?_
      rw [← hnewline]
      exact List.mem_reverse.mp hc
    rw [List.takeWhile_eq_self_iff.mpr hall, List.length_reverse]

theorem fits_ofOffset_length_iff (hlength : text.length < UInt32.size) :
    (ofOffset text text.length).Fits ↔ ¬ EndsTooFar text := by
  have hline := List.count_le_length (a := '\n') (l := text.toList)
  have hcolumn := (List.takeWhile_prefix (l := text.toList.reverse) (· != '\n')).length_le
  rw [List.length_reverse] at hcolumn
  have hlines : text.toList.count '\n' = text.toList.length ↔ ∀ c ∈ text.toList, c = '\n' := by
    simp only [List.count_eq_length, eq_comm]
  rw [EndsTooFar, ← length_takeWhile_reverse_eq_iff, ← hlines]
  rw [← String.length_toList] at hlength ⊢
  rw [ofOffset_eq text (Nat.le_refl _), List.take_length]
  unfold Fits
  dsimp only
  omega

end Position

/-! ### Errors of a text -/

/-- What the error of a text points to: a token of the text, or a part of the program that it
holds. -/
inductive Error.PointsTo (text : String) (file : Nat) : Error → Prop
  | token {e : SyntaxError} {t : Token} :
    t ∈ tokenize text file → e.span = t.span → PointsTo text file (.form e)
  | part {e : SemanticError} {p : Program} :
    Program.parse text file = .ok p → e.span ∈ p.spans → PointsTo text file (.meaning e)

/-- The error is one of form at the end mark of the text. -/
def Error.AtEnd (text : String) (file : Nat) (e : Error) : Prop :=
  ∃ e' t, e = .form e' ∧ t ∈ tokenize text file ∧ t.kind = .eof ∧ e'.span = t.span

theorem Error.AtEnd.start_eq {text : String} {file : Nat} {e : Error} (h : e.AtEnd text file) :
    e.span.start = text.length := by
  obtain ⟨e', t, rfl, ht, heof, hspan⟩ := h
  rcases tokenize_span text file t ht with ⟨-, hend⟩ | ⟨hne, -⟩
  · show e'.span.start = text.length
    rw [hspan, hend]
  · exact absurd heof hne

/-- A report on the error names the line and the column of a character of the text, or those of the
place behind the last one for an error at the end mark. -/
def Error.Told (text : String) (file : Nat) (e : Error) : Prop :=
  ∀ name, ∃ line column,
    (Diagnostic.ofError e name text).location = some ⟨name, line, column⟩ ∧
      ((e.span.start < text.length ∧
          (⟨line.toNat, column.toNat⟩ : Position) = .ofOffset text e.span.start) ∨
        (e.AtEnd text file ∧ e.span.start = text.length ∧
          (⟨line.toNat, column.toNat⟩ : Position) = .ofOffset text text.length))

/-- Where the error of a text is. -/
structure Error.Located (text : String) (file : Nat) (e : Error) : Prop where
  pointsTo : e.PointsTo text file
  file_eq : e.span.file = file
  start_le : e.span.start ≤ e.span.stop
  stop_le : e.span.stop ≤ text.length
  /-- The span is empty only at the end mark. -/
  start_lt : e.span.start < e.span.stop ∨ (e.AtEnd text file ∧ e.span.start = text.length)
  /-- A report names the place, unless this is the end of a text that ends too far. -/
  told_iff : text.length < UInt32.size →
    (e.Told text file ↔ ¬ (e.AtEnd text file ∧ EndsTooFar text))

section

variable {text : String} {file : Nat} {e : Error}

theorem Error.pointsTo_of_analyzeText (h : analyzeText text file = .error e) :
    e.PointsTo text file := by
  unfold analyzeText at h
  cases hparse : Program.parse text file with
  | error e' =>
    rw [hparse] at h
    obtain rfl : Error.form e' = e := Except.error.inj h
    obtain ⟨k, t, ht, hspan, -⟩ := Program.parse_eq_error hparse
    exact .token (List.mem_of_getElem? ht) hspan
  | ok p =>
    rw [hparse] at h
    have h : (p.analyze.result.mapError .meaning : Except Error SymbolTable) = .error e := h
    cases hanalyze : p.analyze.result with
    | ok t =>
      rw [hanalyze] at h
      cases h
    | error e' =>
      rw [hanalyze] at h
      obtain rfl : Error.meaning e' = e := Except.error.inj h
      exact .part hparse (Program.span_of_analyze hanalyze)

/-- The spans in a program lie in the text that it was read from. -/
theorem Program.spans_within {p : Program} (h : Program.parse text file = .ok p) :
    ∀ s ∈ p.spans, s.Within file text.length := by
  obtain ⟨words, mark, htokens, -, -, hp⟩ := Program.readFrom_of_parse h
  refine hp.forall_mem_spans (fun _ _ ha hb => ha.merge hb) fun t ht => ?_
  have hmem : t ∈ tokenize text file := by
    rw [htokens]
    exact List.mem_append_left _ ht
  rcases tokenize_span text file t hmem with ⟨heof, -⟩ | ⟨-, hwithin⟩
  · have hkind := hp.allAdmissible t ht
    rw [heof] at hkind
    cases hkind
  · exact hwithin

/-- What an error points to lies in the text, or is its end mark. -/
theorem Error.PointsTo.span_cases (h : e.PointsTo text file) :
    e.span.Within file text.length ∨
      e.AtEnd text file ∧ e.span = ⟨text.length, text.length, file⟩ := by
  cases h with
  | @token e t ht hspan =>
    rcases tokenize_span text file t ht with ⟨heof, hend⟩ | ⟨-, hwithin⟩
    · exact .inr ⟨⟨e, t, rfl, ht, heof, hspan⟩, hspan.trans hend⟩
    · refine .inl ?_
      show e.span.Within file text.length
      rwa [hspan]
  | part hparse hmem => exact .inl (Program.spans_within hparse _ hmem)

/-- An error inside of the text is told by the position of its first character. -/
theorem Error.told_of_lt (h : e.span.start < text.length) (hlength : text.length < UInt32.size) :
    e.Told text file := by
  intro name
  exact ⟨_, _, rfl, .inl ⟨h, Position.toUInt32_eq_iff.mpr (Position.fits_ofOffset h hlength)⟩⟩

/-- An error at the end of the text is told exactly if its position fits. -/
theorem Error.told_iff_of_atEnd (hend : e.AtEnd text file) (hlength : text.length < UInt32.size) :
    e.Told text file ↔ ¬ EndsTooFar text := by
  have hstart := hend.start_eq
  rw [← Position.fits_ofOffset_length_iff hlength, ← Position.toUInt32_eq_iff, ← hstart]
  constructor
  · intro h
    obtain ⟨line, column, hlocation, hposition⟩ := h ""
    obtain ⟨-, rfl, rfl⟩ := Location.mk.inj (Option.some.inj hlocation)
    rcases hposition with ⟨hlt, -⟩ | ⟨-, -, hposition⟩
    · omega
    · rwa [← hstart] at hposition
  · intro h name
    refine ⟨_, _, rfl, .inr ⟨hend, hstart, ?_⟩⟩
    rw [← hstart]
    exact h

end

/-- **Diagnostics point into the text.** The error of a text, whichever pass finds it, has the span
of a token or of a part of the program that the text holds. This span lies in the text and in its
file. A report names its line and its column, as long as 32 bits can hold them. -/
theorem diagnostics_point_into_text (text : String) (file : Nat) (e : Error)
    (h : analyzeText text file = .error e) : e.Located text file := by
  have hpoints := Error.pointsTo_of_analyzeText h
  rcases hpoints.span_cases with ⟨hfile, hlt, hle⟩ | ⟨hend, hspan⟩
  · have hstart : e.span.start < text.length := by omega
    refine ⟨hpoints, hfile, Nat.le_of_lt hlt, hle, .inl hlt, fun hlength => ?_⟩
    have hinside : ¬ e.AtEnd text file := fun hend => by
      have := hend.start_eq
      omega
    exact ⟨fun _ hfar => hinside hfar.1, fun _ => Error.told_of_lt hstart hlength⟩
  · have hstart : e.span.start = text.length := by rw [hspan]
    have hstop : e.span.stop = text.length := by rw [hspan]
    refine ⟨hpoints, by rw [hspan], by omega, by omega, .inr ⟨hend, hstart⟩, fun hlength => ?_⟩
    rw [Error.told_iff_of_atEnd hend hlength, and_iff_right hend]

/-- A text whose second line assigns to a variable that is not declared. -/
def undeclaredText : String :=
  "class M\x7bpublic static void main(String[] a)\x7b\nx=1;\x7d\x7d"

/-- What `undeclaredText` is read as, up to spans. -/
def undeclared : Program :=
  let name (x : String) : Ident := ⟨x, default⟩
  ⟨⟨name "M", name "a", [], [.assign default (name "x") (.int default 1)], default⟩, []⟩

theorem diagnostics_point_into_text_undeclared :
    ∃ span, analyzeText undeclaredText 7 =
        .error (.meaning ⟨.unresolvedIdentifier "x", span⟩) ∧
      (Error.meaning ⟨.unresolvedIdentifier "x", span⟩).Located undeclaredText 7 := by
  have hkinds : canonicalKinds (tokenize undeclaredText 7) = undeclared.kinds ++ [.eof] := by
    decide +kernel
  obtain ⟨p, hp, hspans⟩ := Program.parse_of_canonicalKinds (by decide) hkinds
  have hsame : SameUpToSpan p.analyze.result (.error ⟨.unresolvedIdentifier "x", default⟩) :=
    (Program.analyze_eraseSpans hspans).2
  cases hr : p.analyze.result with
  | ok t =>
    rw [hr] at hsame
    cases hsame
  | error e =>
    rw [hr] at hsame
    cases hsame with
    | error _ span _ =>
      have herror : analyzeText undeclaredText 7 =
          .error (.meaning ⟨.unresolvedIdentifier "x", span⟩) := by
        rw [analyzeText, hp]
        show p.analyze.result.mapError Error.meaning = _
        rw [hr]
        rfl
      exact ⟨span, herror, diagnostics_point_into_text _ _ _ herror⟩

/-- A line of `n` blanks. -/
def blankLine (n : Nat) : String :=
  String.ofList (List.replicate n ' ')

section

variable (n file : Nat)

theorem length_blankLine : (blankLine n).length = n := by
  rw [blankLine, String.length_ofList, List.length_replicate]

theorem tokenize_blankLine : tokenize (blankLine n) file = [.endMark file n] := by
  have hfiller : Filler (List.replicate n ' ') := by
    induction n with
    | zero => exact .nil
    | succ n ih => exact .blank rfl ih
  have hcut : Cut file (blankLine n).toList 0 [] := by
    show LastFiller _
    rw [List.drop_zero, blankLine, String.toList_ofList]
    exact .closed hfiller
  rw [hcut.tokenize_eq, length_blankLine]
  rfl

/-- A line of blanks holds no program: the class is missing at its end. -/
theorem analyzeText_blankLine : analyzeText (blankLine n) file =
    .error (.form ⟨.unexpectedToken (.token (.keyword .classKw)) .eof, ⟨n, n, file⟩⟩) := by
  have hparse : Program.parse (blankLine n) file =
      .error ⟨.unexpectedToken (.token (.keyword .classKw)) .eof, ⟨n, n, file⟩⟩ := by
    rw [Program.parse, tokenize_blankLine]
    rfl
  rw [analyzeText, hparse]
  rfl

/-- The end of a line of blanks is behind all of its columns. -/
theorem ofOffset_blankLine : Position.ofOffset (blankLine n) n = ⟨1, n + 1⟩ := by
  have hnone : '\n' ∉ (blankLine n).toList := by
    rw [blankLine, String.toList_ofList]
    intro h
    exact absurd (List.eq_of_mem_replicate h) (by decide)
  have hlength : (blankLine n).toList.length = n := by
    rw [String.length_toList, length_blankLine]
  have hcolumn := Position.length_takeWhile_reverse_eq_iff.mpr hnone
  rw [Position.ofOffset_eq _ (Nat.le_of_eq hlength.symm), List.take_of_length_le (by omega),
    List.count_eq_zero.mpr hnone, hcolumn, hlength, Nat.add_comm 1 n]

end

/-- The error behind 2³² - 1 blanks is told as one in column zero of the first line, and no place of
the text has this position. -/
theorem far_end_told_as_column_zero :
    (blankLine 4294967295).length < UInt32.size ∧
      ∃ e, analyzeText (blankLine 4294967295) 0 = .error e ∧
        ¬ e.Told (blankLine 4294967295) 0 ∧
        (∀ name, (Diagnostic.ofError e name (blankLine 4294967295)).location =
          some ⟨name, 1, 0⟩) ∧
        ∀ offset, Position.ofOffset (blankLine 4294967295) offset ≠ ⟨1, 0⟩ := by
  -- the number stays a variable: nothing may count the blanks one by one
  obtain ⟨n, hn⟩ : ∃ n, n = 4294967295 := ⟨_, rfl⟩
  rw [← hn]
  have hsize : n + 1 = UInt32.size := by rw [hn]
  have hlocation (name : String) : (Diagnostic.ofError (.form ⟨.unexpectedToken
      (.token (.keyword .classKw)) .eof, ⟨n, n, 0⟩⟩) name (blankLine n)).location =
      some ⟨name, 1, 0⟩ := by
    show some (⟨name, (Position.ofOffset (blankLine n) n).line.toUInt32,
      (Position.ofOffset (blankLine n) n).column.toUInt32⟩ : Location) = _
    rw [ofOffset_blankLine, hsize]
    rfl
  have hnowhere (offset : Nat) : Position.ofOffset (blankLine n) offset ≠ ⟨1, 0⟩ := by
    intro h
    have hcounted := (Position.counted_ofOffset (blankLine n) offset).2
    rw [h] at hcounted
    exact absurd hcounted (by decide)
  refine ⟨by rw [length_blankLine]; omega, _, analyzeText_blankLine n 0, ?_, hlocation, hnowhere⟩
  intro htold
  obtain ⟨line, column, hline, hposition⟩ := htold ""
  rw [hlocation] at hline
  obtain ⟨-, rfl, rfl⟩ := Location.mk.inj (Option.some.inj hline)
  rcases hposition with ⟨-, h⟩ | ⟨-, -, h⟩
  · exact hnowhere _ h.symm
  · exact hnowhere _ h.symm

end MiniJava
