import MiniJava.Proofs.JsonRoundTrip
import MiniJava.Report.Format

/-!
# Reading back reports

Each part of a report is an object whose fields have different names, so its values are found again
by name (`Json.record?_obj`), and the part is read back from its JSON. With the round trip of JSON
itself, a report is read back from its text.
-/

namespace MiniJava

namespace Json

/-! ### Records -/

/-- A field that is given once has the value that is given. -/
theorem Field.value?_of_mem {fields : List (String × Json)} (hnames : (fields.map Prod.fst).Nodup)
    {f : Field} {j : Json} (h : (f.name, j) ∈ fields) : f.value? fields = some j := by
  have hfilter : fields.filter (fun field => field.1 == f.name) = [(f.name, j)] := by
    induction fields with
    | nil => cases h
    | cons field fields ih =>
      obtain ⟨hfresh, hnames⟩ := List.nodup_cons.mp hnames
      have hother {name : String} {value : Json} (hmem : (name, value) ∈ fields) :
          name ≠ field.1 := by
        rintro rfl
        exact hfresh (List.mem_map.mpr ⟨_, hmem, rfl⟩)
      rcases List.mem_cons.mp h with rfl | h
      · have hrest : fields.filter (fun field => field.1 == f.name) = [] := by
          rw [List.filter_eq_nil_iff]
          intro field hfield heq
          exact hother hfield (beq_iff_eq.mp heq)
        rw [List.filter_cons, if_pos (beq_self_eq_true f.name), hrest]
      · have hne : ¬ (field.1 == f.name) = true := fun heq => hother h (beq_iff_eq.mp heq).symm
        rw [List.filter_cons, if_neg hne, ih hnames h]
  unfold value?
  rw [hfilter]

/-- The values of an object are found again, if its fields are those of the layout and have
different names. -/
theorem record?_obj {layout : List Field} {fields : List (String × Json)}
    (hlayout : fields.map Prod.fst = layout.map Field.name)
    (hnames : (layout.map Field.name).Nodup) :
    record? layout (obj fields) = some (fields.map Prod.snd) := by
  rw [← hlayout] at hnames
  -- each field is looked up among all of them, so the induction is on a part of the fields
  have hpart (part : List (String × Json)) (layout : List Field)
      (hlayout : part.map Prod.fst = layout.map Field.name) (hsub : part ⊆ fields) :
      layout.mapM (·.value? fields) = some (part.map Prod.snd) := by
    induction part generalizing layout with
    | nil =>
      cases layout with
      | nil => rfl
      | cons f layout => cases hlayout
    | cons field part ih =>
      cases layout with
      | nil => cases hlayout
      | cons f layout =>
        obtain ⟨hname, hlayout⟩ := List.cons.inj hlayout
        obtain ⟨hfield, hsub⟩ := List.cons_subset.mp hsub
        have hvalue : f.value? fields = some field.2 :=
          Field.value?_of_mem hnames (by rw [← hname]; exact hfield)
        rw [List.mapM_cons, hvalue, ih layout hlayout hsub]
        rfl
  exact hpart fields layout hlayout (List.Subset.refl fields)

section Lists

variable {α : Type} {toJson : α → Json} {ofJson? : Json → Option α}

theorem list?_map {as : List α} (h : ∀ a ∈ as, ofJson? (toJson a) = some a) :
    list? ofJson? (arr (as.map toJson)) = some as := by
  show (as.map toJson).mapM ofJson? = some as
  induction as with
  | nil => rfl
  | cons a as ih =>
    obtain ⟨ha, has⟩ := List.forall_mem_cons.mp h
    rw [List.map_cons, List.mapM_cons, ha, ih has]
    rfl

theorem option?_elim {a? : Option α} (h : ∀ a, ofJson? (toJson a) = some a)
    (hnull : ∀ a, toJson a ≠ null) : option? ofJson? (a?.elim null toJson) = some a? := by
  cases a? with
  | none => rfl
  | some a => rw [Option.elim_some, option?.eq_2 _ _ (hnull a), h, Option.map_some]

theorem allPlain_map (h : ∀ a, (toJson a).Plain) : ∀ as : List α, AllPlain (as.map toJson)
  | [] => trivial
  | a :: as => ⟨h a, allPlain_map h as⟩

end Lists

theorem natBelow?_num {bound n : Nat} (h : n < bound) : natBelow? bound (num n) = some n :=
  if_pos h

end Json

open Json

/-! ### The parts of a report -/

theorem Location.ofJson?_toJson (l : Location) : ofJson? l.toJson = some l := by
  have hline : natBelow? UInt32.size (num l.line.toNat) = some l.line.toNat :=
    natBelow?_num l.line.toNat_lt_size
  have hcolumn : natBelow? UInt32.size (num l.column.toNat) = some l.column.toNat :=
    natBelow?_num l.column.toNat_lt_size
  unfold ofJson? toJson
  rw [record?_obj rfl (by decide)]
  simp [string?, hline, hcolumn]

theorem Location.plain_toJson (l : Location) : l.toJson.Plain :=
  ⟨trivial, trivial, trivial, trivial⟩

theorem Severity.ofJson?_text (s : Severity) : ofJson? (str s.text) = some s := by
  cases s
  rfl

theorem Diagnostic.ofJson?_toJson (d : Diagnostic) : ofJson? d.toJson = some d := by
  have hlocation :
      option? Location.ofJson? (d.location.elim null Location.toJson) = some d.location :=
    option?_elim Location.ofJson?_toJson (fun _ h => by cases h)
  unfold ofJson? toJson
  rw [record?_obj rfl (by decide)]
  simp [string?, hlocation, Severity.ofJson?_text]

theorem Diagnostic.plain_toJson (d : Diagnostic) : d.toJson.Plain := by
  refine ⟨trivial, trivial, trivial, ?_, trivial⟩
  cases d.location with
  | none => trivial
  | some l => exact l.plain_toJson

theorem FieldReport.ofJson?_toJson {f : FieldReport} (h : f.offset < offsetBound) :
    ofJson? f.toJson = some f := by
  unfold ofJson? toJson
  rw [record?_obj rfl (by decide)]
  simp [string?, natBelow?_num h]

theorem FieldReport.plain_toJson (f : FieldReport) : f.toJson.Plain :=
  ⟨trivial, trivial, trivial, trivial⟩

theorem MethodReport.ofJson?_toJson {m : MethodReport} (h : m.offset < offsetBound) :
    ofJson? m.toJson = some m := by
  have hparams : list? string? (arr (m.params.map str)) = some m.params :=
    list?_map fun _ _ => rfl
  unfold ofJson? toJson
  rw [record?_obj rfl (by decide)]
  simp [string?, natBelow?_num h, hparams]

theorem MethodReport.plain_toJson (m : MethodReport) : m.toJson.Plain := by
  have hparams : AllPlain (m.params.map str) :=
    allPlain_map (fun s => show (str s).Plain from trivial) m.params
  exact ⟨trivial, trivial, hparams, trivial, trivial⟩

/-- The offsets of all members of the class can be read. -/
structure ClassReport.OffsetsFit (c : ClassReport) : Prop where
  fields : ∀ f ∈ c.fields, f.offset < offsetBound
  methods : ∀ m ∈ c.methods, m.offset < offsetBound

theorem ClassReport.ofJson?_toJson {c : ClassReport} (h : c.OffsetsFit) :
    ofJson? c.toJson = some c := by
  have hparent : option? string? (c.parent.elim null str) = some c.parent :=
    option?_elim (fun _ => rfl) (fun _ h => by cases h)
  have hfields :
      list? FieldReport.ofJson? (arr (c.fields.map FieldReport.toJson)) = some c.fields :=
    list?_map fun f hf => FieldReport.ofJson?_toJson (h.fields f hf)
  have hmethods :
      list? MethodReport.ofJson? (arr (c.methods.map MethodReport.toJson)) = some c.methods :=
    list?_map fun m hm => MethodReport.ofJson?_toJson (h.methods m hm)
  unfold ofJson? toJson
  rw [record?_obj rfl (by decide)]
  simp [string?, hparent, hfields, hmethods]

theorem ClassReport.plain_toJson (c : ClassReport) : c.toJson.Plain := by
  refine ⟨trivial, ?_, allPlain_map FieldReport.plain_toJson c.fields,
    allPlain_map MethodReport.plain_toJson c.methods, trivial⟩
  cases c.parent <;> trivial

/-! ### Reports -/

namespace Report

/-- The offsets of all members of all classes can be read. -/
def OffsetsFit (r : Report) : Prop :=
  ∀ c ∈ r.classes, c.OffsetsFit

theorem ofJson?_toJson {r : Report} (h : r.OffsetsFit) : ofJson? r.toJson = some r := by
  have hdiagnostics :
      list? Diagnostic.ofJson? (arr (r.diagnostics.map Diagnostic.toJson)) = some r.diagnostics :=
    list?_map fun d _ => d.ofJson?_toJson
  have hclasses :
      list? ClassReport.ofJson? (arr (r.classes.map ClassReport.toJson)) = some r.classes :=
    list?_map fun c hc => ClassReport.ofJson?_toJson (h c hc)
  unfold ofJson? toJson
  rw [record?_obj rfl (by decide)]
  simp [string?, bool?, hdiagnostics, hclasses]

theorem plain_toJson (r : Report) : r.toJson.Plain :=
  ⟨trivial, trivial, allPlain_map Diagnostic.plain_toJson r.diagnostics,
    allPlain_map ClassReport.plain_toJson r.classes, trivial⟩

/-- Every report can be written. -/
theorem write_eq_pretty (r : Report) : r.write = r.toJson.pretty := by
  rw [write, pretty?, if_pos r.plain_toJson, Option.getD_some]

theorem read?_emptyObject : read? "\x7b\x7d" = none := by
  have htext : "\x7b\x7d" = (obj []).pretty := rfl
  have hplain : (obj []).Plain := trivial
  unfold read?
  rw [htext, parse?_pretty hplain]
  rfl

/-- **Reports are read back.** The text of a report is never that of an empty object, and the report
that it holds is the one that was written. -/
theorem read?_write {r : Report} (h : r.OffsetsFit) :
    r.write ≠ "\x7b\x7d" ∧ read? r.write = some r := by
  have hread : read? r.write = some r := by
    rw [read?, write_eq_pretty, parse?_pretty r.plain_toJson, Option.bind_some, ofJson?_toJson h]
  refine ⟨?_, hread⟩
  intro hempty
  rw [hempty, read?_emptyObject] at hread
  cases hread

/-- A report with characters that are escaped, characters that look as if they were, and the largest
numbers that are read. -/
def awkward : Report where
  sourceFile := "C:\\a \"b\".java"
  success := false
  diagnostics :=
    [⟨"E\x00\x08\t\n\x0c\r\x1f", .error, "\x7f\u2028\u2029\ufeff\uffff😀",
      some ⟨"", 4294967295, 4294967295⟩⟩,
     ⟨"", .error, "\\u0041\\\"", none⟩]
  classes :=
    [⟨"é", some "\x7b\x7d", [⟨"[", "int[]", 18446744073709551615⟩],
      [⟨",", ":", ["null", "\"\""], 18446744073709551615⟩, ⟨"m", "int", [], 0⟩]⟩,
     ⟨"", none, [], []⟩]

theorem read?_write_awkward :
    awkward.OffsetsFit ∧ awkward.write ≠ "\x7b\x7d" ∧ read? awkward.write = some awkward := by
  have hfit : awkward.OffsetsFit :=
    List.forall_mem_cons.mpr
      ⟨⟨by decide, by decide⟩, List.forall_mem_singleton.mpr ⟨by decide, by decide⟩⟩
  exact ⟨hfit, read?_write hfit⟩

end Report

end MiniJava
