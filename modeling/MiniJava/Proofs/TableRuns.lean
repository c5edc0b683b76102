import MiniJava.Proofs.Declaration
import MiniJava.SymbolTable.Indexed
import MiniJava.SymbolTable.Rules

/-!
# Runs of declarations on a table

Whatever declarations are carried out on a table, and however many of them fail, the places that are
kept for the classes stay right and names stay distinct.

* `SymbolTable.apply_eq_ok_iff`: a declaration succeeds exactly if it can append its item, and then
  this is all it does.
* `IndexedTable.apply_cases`: a declaration in place has the outcome of the declaration on the plain
  table, and leaves everything as it is if it fails.
* `IndexedTable.Coherent.run`: the places are right after every run.
-/

namespace MiniJava

/-! ### Changes of one list -/

section

variable {α : Type} {name : α → String}

theorem AddedLast.nodup {item : α} {l l' : List α} (h : AddedLast name item l l')
    (hl : (l.map name).Nodup) : (l'.map name).Nodup := by
  obtain ⟨hnew, rfl⟩ := h
  rw [List.map_append, List.map_singleton, List.nodup_append]
  refine ⟨hl, by simp, fun x hx y hy hxy => hnew ?_⟩
  rwa [← List.mem_singleton.mp hy, ← hxy]

namespace OneChanged

variable {x : String} {Change : α → α → Prop} {l l' : List α}

/-- A change that keeps the name of the one element it applies to keeps the list of names. -/
theorem map_name (h : OneChanged name x Change l l')
    (hname : ∀ a a', Change a a' → name a' = name a) : l'.map name = l.map name := by
  obtain ⟨before, a, a', after, rfl, -, hchange, rfl⟩ := h
  rw [List.map_append, List.map_append, List.map_cons, List.map_cons, hname a a' hchange]

theorem forall_mem {P : α → Prop} (h : OneChanged name x Change l l') (hl : ∀ a ∈ l, P a)
    (hchange : ∀ a a', Change a a' → P a → P a') : ∀ a ∈ l', P a := by
  obtain ⟨before, a, a', after, rfl, -, ha, rfl⟩ := h
  rw [List.forall_mem_append, List.forall_mem_cons] at hl ⊢
  exact ⟨hl.1, hchange a a' ha hl.2.1, hl.2.2⟩

theorem congr {Change' : α → α → Prop} (h : ∀ a ∈ l, ∀ a', Change a a' ↔ Change' a a') :
    OneChanged name x Change l l' ↔ OneChanged name x Change' l l' := by
  constructor
  · rintro ⟨before, a, a', after, rfl, hx, ha, rfl⟩
    exact ⟨before, a, a', after, rfl, hx, (h a (by simp) a').mp ha, rfl⟩
  · rintro ⟨before, a, a', after, rfl, hx, ha, rfl⟩
    exact ⟨before, a, a', after, rfl, hx, (h a (by simp) a').mpr ha, rfl⟩

/-- The changed element is the first one, or one of the others. -/
theorem cons_iff {a : α} :
    OneChanged name x Change (a :: l) l' ↔
      (name a = x ∧ ∃ a', Change a a' ∧ l' = a' :: l) ∨
        ∃ rest, OneChanged name x Change l rest ∧ l' = a :: rest := by
  constructor
  · rintro ⟨before, b, b', after, hl, hx, hb, rfl⟩
    cases before with
    | nil =>
      obtain ⟨rfl, rfl⟩ := List.cons.inj hl
      exact .inl ⟨hx, b', hb, rfl⟩
    | cons c before =>
      obtain ⟨rfl, hrest⟩ := List.cons.inj hl
      exact .inr ⟨_, ⟨before, b, b', after, hrest, hx, hb, rfl⟩, rfl⟩
  · rintro (⟨hx, a', ha, rfl⟩ | ⟨_, ⟨before, b, b', after, rfl, hx, hb, rfl⟩, rfl⟩)
    · exact ⟨[], a, a', l, rfl, hx, ha, rfl⟩
    · exact ⟨a :: before, b, b', after, rfl, hx, hb, rfl⟩

theorem mem_map (h : OneChanged name x Change l l') : x ∈ l.map name := by
  obtain ⟨before, a, a', after, rfl, rfl, -, -⟩ := h
  exact List.mem_map_of_mem (List.mem_append_right _ List.mem_cons_self)

end OneChanged

/-- Among distinct names, the update of the first element called `x` is a change of the one element
that is called so. -/
theorem updateFirst?_eq_ok_iff {ε : Type} {x : String} {f : α → Except ε α} {l l' : List α}
    (hl : (l.map name).Nodup) :
    updateFirst? (name · == x) f l = some (.ok l') ↔
      OneChanged name x (fun a a' => f a = .ok a') l l' := by
  induction l generalizing l' with
  | nil =>
    refine ⟨nofun, fun h => ?_⟩
    exact absurd h.mem_map (by simp)
  | cons a l ih =>
    obtain ⟨ha, hl⟩ := List.nodup_cons.mp hl
    rw [OneChanged.cons_iff, updateFirst?]
    by_cases hx : name a = x
    · -- the name is not met again behind this element
      have hno : ∀ rest, ¬ OneChanged name x (fun a a' => f a = .ok a') l rest :=
        fun rest hrest => ha (hx ▸ hrest.mem_map)
      rw [if_pos (beq_iff_eq.mpr hx), Option.some.injEq, map_eq_ok_iff]
      simp only [hx, hno, true_and, false_and, exists_false, or_false, eq_comm]
    · rw [if_neg (mt beq_iff_eq.mp hx), Option.map_eq_some_iff]
      simp only [hx, false_and, false_or, map_eq_ok_iff, ← ih hl]
      constructor
      · rintro ⟨r, hr, rest, rfl, rfl⟩
        exact ⟨rest, hr, rfl⟩
      · rintro ⟨rest, hr, rfl⟩
        exact ⟨_, hr, rest, rfl, rfl⟩

end

/-! ### What a declaration does to a table -/

theorem mapError_eq_ok_iff {ε ε' α : Type} {g : ε → ε'} {r : Except ε α} {a : α} :
    r.mapError g = .ok a ↔ r = .ok a := by
  cases r with
  | error e =>
    constructor <;> intro h <;> cases h
  | ok b =>
    show (.ok b : Except ε' α) = .ok a ↔ _
    rw [Except.ok.injEq, Except.ok.injEq]

theorem MethodEntry.declareParam_eq_ok_iff {m m' : MethodEntry} {var : Variable} {span : Span} :
    m.declareParam var span = .ok m' ↔ GainsParam var m m' := by
  rw [declareParam, param?, ite_error_eq_ok_iff, typeOf?_isSome_iff]
  simp [GainsParam, AddedLast, and_assoc]

theorem MethodEntry.declareLocal_eq_ok_iff {m m' : MethodEntry} {var : Variable} {span : Span} :
    m.declareLocal var span = .ok m' ↔ GainsLocal var m m' := by
  rw [declareLocal, local?, ite_error_eq_ok_iff, typeOf?_isSome_iff]
  simp [GainsLocal, AddedLast, and_assoc]

theorem ClassEntry.declareField_eq_ok_iff {c c' : ClassEntry} {var : Variable} {span : Span} :
    c.declareField var span = .ok c' ↔ GainsField var c c' := by
  rw [declareField, field?, ite_error_eq_ok_iff, typeOf?_isSome_iff]
  simp [GainsField, AddedLast, and_assoc]

theorem ClassEntry.declareMethod_eq_ok_iff {c c' : ClassEntry} {m : MethodEntry} {span : Span} :
    c.declareMethod m span = .ok c' ↔ GainsMethod m c c' := by
  simp only [declareMethod, bind_eq_ok_iff, freshMethod_eq_ok_iff]
  simp [GainsMethod, AddedLast, pushMethod, and_assoc, pure, Except.pure, eq_comm]

theorem SymbolTable.declareClass_eq_ok_iff {t t' : SymbolTable} {c : ClassEntry} {span : Span} :
    t.declareClass c span = .ok t' ↔ AddedLast ClassEntry.name c t.classes t'.classes := by
  cases t'
  simp only [declareClass, bind_eq_ok_iff, freshClass_eq_ok_iff]
  simp [AddedLast, push, pure, Except.pure, eq_comm]

theorem ClassEntry.updateMethod_eq_ok_iff {c c' : ClassEntry} (hc : c.Distinct) {x : String}
    {f : MethodEntry → Except EditError MethodEntry} :
    c.updateMethod x f = .ok c' ↔ MethodChanged x (fun m m' => f m = .ok m') c c' := by
  simp only [MethodChanged, ← updateFirst?_eq_ok_iff hc.methods]
  unfold updateMethod
  cases updateFirst? (·.name == x) f c.methods with
  | none => simp
  | some r => simp only [Option.some.injEq, map_eq_ok_iff, @eq_comm _ c']

theorem SymbolTable.updateClass_eq_ok_iff {t t' : SymbolTable} (ht : t.Distinct) {x : String}
    {f : ClassEntry → Except EditError ClassEntry} :
    t.updateClass x f = .ok t' ↔ ClassChanged x (fun c c' => f c = .ok c') t t' := by
  rw [ClassChanged, ← updateFirst?_eq_ok_iff ht.classes]
  unfold updateClass
  cases t'
  cases updateFirst? (·.name == x) f t.classes with
  | none => simp
  | some r => simp

/-- A declaration on a table succeeds exactly if it can append its item, and then it does this and
nothing else. -/
theorem SymbolTable.apply_eq_ok_iff {t t' : SymbolTable} (ht : t.Distinct) {edit : Edit}
    {span : Span} : t.apply edit span = .ok t' ↔ edit.Appends t t' := by
  -- the change of a class is the change of one of its methods
  have hmethods : ∀ {x : String} {f : MethodEntry → Except EditError MethodEntry}
      {Change : MethodEntry → MethodEntry → Prop} (_ : ∀ m m', f m = .ok m' ↔ Change m m'),
      ∀ c ∈ t.classes, ∀ c',
        ClassEntry.updateMethod c x f = .ok c' ↔ ClassEntry.MethodChanged x Change c c' := by
    intro x f Change hf c hc c'
    simp only [ClassEntry.updateMethod_eq_ok_iff (ht.eachClass c hc), hf]
  cases edit with
  | addClass name parent => exact mapError_eq_ok_iff.trans declareClass_eq_ok_iff
  | addField cls var =>
    refine (updateClass_eq_ok_iff ht).trans (OneChanged.congr fun c _ c' => ?_)
    exact mapError_eq_ok_iff.trans ClassEntry.declareField_eq_ok_iff
  | addMethod cls name returns =>
    refine (updateClass_eq_ok_iff ht).trans (OneChanged.congr fun c _ c' => ?_)
    exact mapError_eq_ok_iff.trans ClassEntry.declareMethod_eq_ok_iff
  | addParam cls method var =>
    refine (updateClass_eq_ok_iff ht).trans (OneChanged.congr (hmethods fun m m' => ?_))
    exact mapError_eq_ok_iff.trans MethodEntry.declareParam_eq_ok_iff
  | addLocal cls method var =>
    refine (updateClass_eq_ok_iff ht).trans (OneChanged.congr (hmethods fun m m' => ?_))
    exact mapError_eq_ok_iff.trans MethodEntry.declareLocal_eq_ok_iff

/-! ### What a declaration keeps -/

theorem ClassEntry.MethodChanged.distinct {x : String} {Change : MethodEntry → MethodEntry → Prop}
    {c c' : ClassEntry} (h : MethodChanged x Change c c')
    (hname : ∀ m m', Change m m' → m'.name = m.name)
    (hdistinct : ∀ m m', Change m m' → m.Distinct → m'.Distinct) (hc : c.Distinct) :
    c'.Distinct := by
  obtain ⟨methods, hone, rfl⟩ := h
  refine ⟨hc.fields, ?_, hone.forall_mem hc.eachMethod hdistinct⟩
  rw [hone.map_name hname]
  exact hc.methods

/-- A declaration adds a class, or it changes one class so that its name is kept and names in it stay
distinct. -/
theorem Edit.Appends.addClass_or_change {edit : Edit} {t t' : SymbolTable}
    (h : edit.Appends t t') :
    (∃ name parent, edit = .addClass name parent ∧
      AddedLast ClassEntry.name (.empty name parent) t.classes t'.classes) ∨
    ∃ x Change, OneChanged ClassEntry.name x Change t.classes t'.classes ∧
      (∀ c c', Change c c' → c'.name = c.name) ∧
      ∀ c c', Change c c' → c.Distinct → c'.Distinct := by
  cases edit with
  | addClass name parent => exact .inl ⟨name, parent, rfl, h⟩
  | addField cls var =>
    refine .inr ⟨_, _, h, ?_, ?_⟩
    · rintro c c' ⟨fields, -, rfl⟩
      rfl
    · rintro c c' ⟨fields, hadded, rfl⟩ hc
      exact ⟨hadded.nodup hc.fields, hc.methods, hc.eachMethod⟩
  | addMethod cls name returns =>
    refine .inr ⟨_, _, h, ?_, ?_⟩
    · rintro c c' ⟨methods, -, rfl⟩
      rfl
    · rintro c c' ⟨methods, hadded, rfl⟩ hc
      refine ⟨hc.fields, hadded.nodup hc.methods, ?_⟩
      obtain ⟨-, rfl⟩ := hadded
      rw [List.forall_mem_append, List.forall_mem_singleton]
      exact ⟨hc.eachMethod, List.nodup_nil, List.nodup_nil⟩
  | addParam cls method var =>
    refine .inr ⟨_, _, h, ?_, fun c c' hchanged hc => hchanged.distinct ?_ ?_ hc⟩
    · rintro c c' ⟨methods, -, rfl⟩
      rfl
    · rintro m m' ⟨params, -, rfl⟩
      rfl
    · rintro m m' ⟨params, hadded, rfl⟩ hm
      exact ⟨hadded.nodup hm.params, hm.locals⟩
  | addLocal cls method var =>
    refine .inr ⟨_, _, h, ?_, fun c c' hchanged hc => hchanged.distinct ?_ ?_ hc⟩
    · rintro c c' ⟨methods, -, rfl⟩
      rfl
    · rintro m m' ⟨locals, -, rfl⟩
      rfl
    · rintro m m' ⟨locals, hadded, rfl⟩ hm
      exact ⟨hm.params, hadded.nodup hm.locals⟩

theorem Edit.Appends.distinct {edit : Edit} {t t' : SymbolTable} (h : edit.Appends t t')
    (ht : t.Distinct) : t'.Distinct := by
  rcases h.addClass_or_change with
    ⟨name, parent, -, hadded⟩ | ⟨x, Change, hone, hname, hdistinct⟩
  · refine ⟨hadded.nodup ht.classes, ?_⟩
    rw [hadded.2, List.forall_mem_append, List.forall_mem_singleton]
    exact ⟨ht.eachClass, List.nodup_nil, List.nodup_nil, nofun⟩
  · refine ⟨?_, hone.forall_mem ht.eachClass hdistinct⟩
    rw [hone.map_name hname]
    exact ht.classes

theorem Edit.Appends.map_name {edit : Edit} {t t' : SymbolTable} (h : edit.Appends t t')
    (hedit : ∀ name parent, edit ≠ .addClass name parent) :
    t'.classes.map ClassEntry.name = t.classes.map ClassEntry.name := by
  rcases h.addClass_or_change with ⟨name, parent, rfl, -⟩ | ⟨x, Change, hone, hname, -⟩
  · exact absurd rfl (hedit name parent)
  · exact hone.map_name hname

/-! ### Changes in place -/

/-- The change in place carries the step out, and changes nothing where the step fails. -/
def InPlace.CarriesOut {σ : Type} (f : InPlace σ) (step : σ → Except EditError σ) : Prop :=
  ∀ s, f s = match step s with
    | .ok s' => (.ok (), s')
    | .error e => (.error e, s)

/-- A change that looks first and changes then carries out the step with the same condition. -/
theorem InPlace.carriesOut_of_ite {σ : Type} {f : InPlace σ} {step : σ → Except SemanticError σ}
    {refused : σ → Bool} {error : σ → SemanticError} {next : σ → σ}
    (hf : ∀ s, f s = if refused s then (.error (.refused (error s)), s) else (.ok (), next s))
    (hstep : ∀ s, step s = if refused s then .error (error s) else .ok (next s)) :
    f.CarriesOut fun s => (step s).mapError .refused := by
  intro s
  rw [hf]
  dsimp only
  rw [hstep]
  cases refused s <;> rfl

theorem MethodEntry.carriesOut_addParam (v : Variable) (span : Span) :
    (addParam v span).CarriesOut fun m => (m.declareParam v span).mapError .refused :=
  InPlace.carriesOut_of_ite (fun _ => rfl) fun _ => rfl

theorem MethodEntry.carriesOut_addLocal (v : Variable) (span : Span) :
    (addLocal v span).CarriesOut fun m => (m.declareLocal v span).mapError .refused :=
  InPlace.carriesOut_of_ite (fun _ => rfl) fun _ => rfl

theorem ClassEntry.carriesOut_addField (v : Variable) (span : Span) :
    (addField v span).CarriesOut fun c => (c.declareField v span).mapError .refused :=
  InPlace.carriesOut_of_ite (fun _ => rfl) fun _ => rfl

theorem ClassEntry.carriesOut_addMethod (name : String) (returns : Ty) (span : Span) :
    (addMethod name returns span).CarriesOut fun c =>
      (c.declareMethod (.empty name returns) span).mapError .refused := by
  refine InPlace.carriesOut_of_ite (fun _ => rfl) fun c => ?_
  rw [declareMethod, freshMethod, MethodEntry.empty]
  cases (c.method? name).isSome <;> rfl

/-- A step at the first place that satisfies `p` is the update of the first such element. -/
theorem InPlace.CarriesOut.atPlace {α : Type} {p : α → Bool} {missing : EditError} {f : InPlace α}
    {step : α → Except EditError α} (hf : f.CarriesOut step) (l : List α) :
    InPlace.atPlace (l.findIdx? p) missing f l =
      match (updateFirst? p step l).getD (.error missing) with
      | .ok l' => (.ok (), l')
      | .error e => (.error e, l) := by
  induction l with
  | nil => rfl
  | cons a l ih =>
    rw [List.findIdx?_cons]
    by_cases ha : p a = true
    · simp only [InPlace.atPlace, updateFirst?, ha, if_true, List.getElem?_cons_zero,
        List.set_cons_zero, Option.getD_some, hf a]
      cases step a <;> rfl
    · -- the place moves on by one, and so does the element
      have hshift : InPlace.atPlace ((l.findIdx? p).map (· + 1)) missing f (a :: l) =
          ((InPlace.atPlace (l.findIdx? p) missing f l).1,
            a :: (InPlace.atPlace (l.findIdx? p) missing f l).2) := by
        cases l.findIdx? p with
        | none => rfl
        | some i =>
          simp only [InPlace.atPlace, Option.map_some, List.getElem?_cons_succ, List.set_cons_succ]
          cases l[i]? <;> rfl
      rw [if_neg ha, hshift, ih]
      simp only [updateFirst?, ha]
      cases updateFirst? p step l with
      | none => rfl
      | some r => cases r <;> rfl

theorem InPlace.CarriesOut.onMethod {x : String} {f : InPlace MethodEntry}
    {step : MethodEntry → Except EditError MethodEntry} (hf : f.CarriesOut step) :
    (ClassEntry.onMethod x f).CarriesOut fun c => c.updateMethod x step := by
  intro c
  simp only [ClassEntry.onMethod, hf.atPlace, ClassEntry.updateMethod]
  cases updateFirst? (·.name == x) step c.methods with
  | none => rfl
  | some r => cases r <;> rfl

namespace IndexedTable

/-- The places are those of the names, and names are distinct. -/
structure Coherent (t : IndexedTable) : Prop where
  index : ∀ (name : String) (i : Nat),
    t.place? name = some i ↔ (t.classes.map ClassEntry.name)[i]? = some name
  distinct : t.toSymbolTable.Distinct

variable {t t' : IndexedTable}

theorem place?_empty (name : String) : empty.place? name = none :=
  Std.ExtHashMap.getElem?_empty

theorem place?_push (c : ClassEntry) (name : String) :
    (t.push c).place? name = if c.name = name then some t.classes.length else t.place? name := by
  rw [place?, push, Std.ExtHashMap.getElem?_insert]
  simp only [beq_iff_eq, place?]

theorem contains_eq_isSome (t : IndexedTable) (name : String) :
    t.contains name = (t.place? name).isSome :=
  Std.ExtHashMap.contains_eq_isSome_getElem?

theorem Coherent.empty : IndexedTable.empty.Coherent where
  index name i := by
    rw [place?_empty]
    simp [IndexedTable.empty, SymbolTable.empty]
  distinct := ⟨List.nodup_nil, nofun⟩

/-- The place of a name is the first one where a class is called so. -/
theorem Coherent.place?_eq_findIdx? (ht : t.Coherent) (name : String) :
    t.place? name = t.classes.findIdx? (·.name == name) := by
  apply Option.ext
  intro i
  rw [List.findIdx?_eq_some_iff_getElem]
  constructor
  · intro hi
    obtain ⟨hlt, hname⟩ := List.getElem?_eq_some_iff.mp ((ht.index name i).mp hi)
    rw [List.length_map] at hlt
    refine ⟨hlt, by simpa using hname, fun j hj hp => ?_⟩
    -- a second place of this name
    have hj' : t.place? name = some j := by
      rw [ht.index, List.getElem?_map, List.getElem?_eq_getElem (Nat.lt_trans hj hlt)]
      simpa using hp
    rw [hi, Option.some.injEq] at hj'
    omega
  · rintro ⟨hlt, hp, -⟩
    rw [ht.index, List.getElem?_map, List.getElem?_eq_getElem hlt]
    simpa using hp

theorem Coherent.get?_eq (ht : t.Coherent) (name : String) :
    t.get? name = t.toSymbolTable.get? name := by
  rw [get?, ht.place?_eq_findIdx?, SymbolTable.get?]
  cases hi : t.classes.findIdx? (·.name == name) with
  | none =>
    rw [List.findIdx?_eq_none_iff] at hi
    rw [Option.bind_none, eq_comm, List.find?_eq_none]
    intro c hc
    rw [hi c hc]
    exact Bool.false_ne_true
  | some i =>
    obtain ⟨hlt, hp, -⟩ := List.findIdx?_eq_some_iff_getElem.mp hi
    rw [Option.bind_some, List.getElem?_eq_getElem hlt, eq_comm,
      find?_name_eq_some_iff ht.distinct.classes]
    exact ⟨List.getElem_mem hlt, beq_iff_eq.mp hp⟩

theorem Coherent.contains_eq (ht : t.Coherent) (name : String) :
    t.contains name = t.toSymbolTable.contains name := by
  rw [contains_eq_isSome, ht.place?_eq_findIdx?, SymbolTable.contains, SymbolTable.get?, List.findIdx?_isSome, List.isSome_find?]

/-- The classes determine their places. -/
theorem Coherent.eq_of_classes (ht : t.Coherent) (ht' : t'.Coherent)
    (h : t.classes = t'.classes) : t = t' := by
  have hindex : t.index = t'.index := by
    apply Std.ExtHashMap.ext_getElem?
    intro name
    show t.place? name = t'.place? name
    rw [ht.place?_eq_findIdx?, ht'.place?_eq_findIdx?, h]
  cases t with | mk table index =>
  cases t' with | mk table' index' =>
  cases table
  cases table'
  cases h
  cases hindex
  rfl

theorem getElem?_concat_eq_some_iff {α : Type} {l : List α} {a b : α} {i : Nat} :
    (l ++ [a])[i]? = some b ↔ l[i]? = some b ∨ i = l.length ∧ a = b := by
  rcases Nat.lt_trichotomy i l.length with hlt | rfl | hgt
  · rw [List.getElem?_append_left hlt]
    exact ⟨.inl, fun h => h.resolve_right fun ⟨heq, _⟩ => by omega⟩
  · simp
  · rw [List.getElem?_eq_none (by simp; omega), List.getElem?_eq_none (by omega)]
    exact ⟨.inl, fun h => h.resolve_right fun ⟨heq, _⟩ => by omega⟩

/-- The places stay right where a class comes last and its place is kept. -/
theorem Coherent.push (ht : t.Coherent) {c : ClassEntry}
    (hdistinct : (t.toSymbolTable.push c).Distinct) : (t.push c).Coherent where
  index := by
    intro name i
    have hnames : (t.toSymbolTable.push c).classes.map ClassEntry.name =
        t.classes.map ClassEntry.name ++ [c.name] := by
      rw [SymbolTable.push, List.map_append, List.map_singleton]
    rw [place?_push, IndexedTable.push, hnames, getElem?_concat_eq_some_iff, ← ht.index,
      List.length_map]
    by_cases hname : c.name = name
    · -- no place is kept for the new name so far
      have hnew : t.place? name ≠ some i := by
        intro hi
        have hnodup := hdistinct.classes
        rw [hnames, List.nodup_append] at hnodup
        have hmem := List.mem_of_getElem? ((ht.index name i).mp hi)
        exact hnodup.2.2 name hmem c.name (List.mem_singleton_self _) hname.symm
      rw [if_pos hname, Option.some.injEq]
      exact ⟨fun hi => .inr ⟨hi.symm, hname⟩, fun h => (h.resolve_left hnew).1.symm⟩
    · rw [if_neg hname]
      exact ⟨.inl, fun h => h.resolve_right fun h' => hname h'.2⟩
  distinct := hdistinct

/-- A step on the class called `x` has the outcome of the update of this class, and leaves the places
as they are. -/
theorem onClass_eq (ht : t.Coherent) {x : String} {f : InPlace ClassEntry}
    {step : ClassEntry → Except EditError ClassEntry} (hf : f.CarriesOut step) :
    onClass x f t = match t.toSymbolTable.updateClass x step with
      | .ok u => (.ok (), { t with toSymbolTable := u })
      | .error e => (.error e, t) := by
  simp only [onClass, ht.place?_eq_findIdx?, hf.atPlace, SymbolTable.updateClass]
  cases updateFirst? (·.name == x) step t.classes with
  | none => rfl
  | some r => cases r <;> rfl

theorem apply_addClass (ht : t.Coherent) {name : String} {parent : Option String} {span : Span} :
    apply (.addClass name parent) span t =
      match t.toSymbolTable.apply (.addClass name parent) span with
      | .ok _ => (.ok (), t.push (.empty name parent))
      | .error e => (.error e, t) := by
  rw [apply, addClass, ht.contains_eq, SymbolTable.apply, SymbolTable.declareClass,
    SymbolTable.freshClass]
  by_cases hname : t.toSymbolTable.contains name = true
  · rw [if_pos hname, ClassEntry.empty, if_pos hname]
    rfl
  · rw [if_neg hname, ClassEntry.empty, if_neg hname]
    rfl

theorem apply_of_ne_addClass (ht : t.Coherent) {edit : Edit} {span : Span}
    (hedit : ∀ name parent, edit ≠ .addClass name parent) :
    apply edit span t = match t.toSymbolTable.apply edit span with
      | .ok u => (.ok (), { t with toSymbolTable := u })
      | .error e => (.error e, t) := by
  cases edit with
  | addClass name parent => exact absurd rfl (hedit name parent)
  | addField cls var => exact onClass_eq ht (ClassEntry.carriesOut_addField var span)
  | addMethod cls name returns =>
    exact onClass_eq ht (ClassEntry.carriesOut_addMethod name returns span)
  | addParam cls method var =>
    exact onClass_eq ht (MethodEntry.carriesOut_addParam var span).onMethod
  | addLocal cls method var =>
    exact onClass_eq ht (MethodEntry.carriesOut_addLocal var span).onMethod

/-- A declaration in place has the outcome of the declaration on the plain table. It leaves
everything as it is if it fails, and the places right if it succeeds. -/
theorem apply_cases (ht : t.Coherent) (edit : Edit) (span : Span) :
    (∃ e, t.toSymbolTable.apply edit span = .error e ∧ apply edit span t = (.error e, t)) ∨
      ∃ t', t.toSymbolTable.apply edit span = .ok t'.toSymbolTable ∧
        apply edit span t = (.ok (), t') ∧ t'.Coherent := by
  have hspec : ∀ {u}, t.toSymbolTable.apply edit span = .ok u → edit.Appends t.toSymbolTable u :=
    (SymbolTable.apply_eq_ok_iff ht.distinct).mp
  by_cases hedit : ∃ name parent, edit = .addClass name parent
  · obtain ⟨name, parent, rfl⟩ := hedit
    rw [apply_addClass ht]
    cases hplain : t.toSymbolTable.apply (.addClass name parent) span with
    | error e => exact .inl ⟨e, rfl, rfl⟩
    | ok u =>
      obtain rfl : u = t.toSymbolTable.push (.empty name parent) := by
        cases u
        exact congrArg SymbolTable.mk (hspec hplain).2
      exact .inr ⟨t.push (.empty name parent), rfl, rfl,
        ht.push ((hspec hplain).distinct ht.distinct)⟩
  · have hne : ∀ name parent, edit ≠ .addClass name parent :=
      fun name parent h => hedit ⟨name, parent, h⟩
    rw [apply_of_ne_addClass ht hne]
    cases hplain : t.toSymbolTable.apply edit span with
    | error e => exact .inl ⟨e, rfl, rfl⟩
    | ok u =>
      refine .inr ⟨{ t with toSymbolTable := u }, rfl, rfl, fun name i => ?_,
        (hspec hplain).distinct ht.distinct⟩
      rw [(hspec hplain).map_name hne]
      exact ht.index name i

/-- The places are right after every run, from a table where they are. -/
theorem Coherent.foldl_apply (ht : t.Coherent) (steps : List (Edit × Span)) :
    (steps.foldl (fun t step => (apply step.1 step.2 t).2) t).Coherent := by
  induction steps generalizing t with
  | nil => exact ht
  | cons step steps ih =>
    rw [List.foldl_cons]
    apply ih
    rcases apply_cases ht step.1 step.2 with ⟨e, -, happly⟩ | ⟨t', -, happly, ht'⟩
    · rwa [happly]
    · rwa [happly]

theorem Coherent.run (steps : List (Edit × Span)) : (IndexedTable.run steps).Coherent :=
  Coherent.empty.foldl_apply steps

/-- In place or not, declarations lead to the same classes. -/
theorem toSymbolTable_run (steps : List (Edit × Span)) :
    (IndexedTable.run steps).toSymbolTable =
      steps.foldl (fun t step => (t.apply step.1 step.2).toOption.getD t) SymbolTable.empty := by
  have hfold {t : IndexedTable} (ht : t.Coherent) :
      (steps.foldl (fun t step => (apply step.1 step.2 t).2) t).toSymbolTable =
        steps.foldl (fun t step => (t.apply step.1 step.2).toOption.getD t) t.toSymbolTable := by
    induction steps generalizing t with
    | nil => rfl
    | cons step steps ih =>
      rw [List.foldl_cons, List.foldl_cons]
      rcases apply_cases ht step.1 step.2 with ⟨e, hplain, happly⟩ | ⟨t', hplain, happly, ht'⟩
      · rw [happly, hplain]
        exact ih ht
      · rw [happly, hplain]
        exact ih ht'
  exact hfold Coherent.empty

end IndexedTable

open IndexedTable in
/-- **Runs of declarations.** After any number of declarations, of which some may have failed, the
place that is kept for a name is the place of the class of this name, and names are distinct. The
next declaration either fails, because it has nothing to append to or its name is not new there, and
leaves everything as it is; or it appends its one item. Tables after runs are equal exactly if their
classes are, though places are compared as well. -/
theorem declarations_keep_places (steps : List (Edit × Span)) :
    (∀ (name : String) (i : Nat), (run steps).place? name = some i ↔
      ∃ c : ClassEntry, (run steps).classes[i]? = some c ∧ c.name = name) ∧
    (∀ (name : String) (c : ClassEntry), (run steps).get? name = some c ↔
      (c ∈ (run steps).classes ∧ c.name = name) ∧
        ∀ c' ∈ (run steps).classes, c'.name = name → c' = c) ∧
    (∀ name, (run steps).contains name = true ↔
      ∃ c ∈ (run steps).classes, c.name = name) ∧
    (run steps).Distinct ∧
    (∀ edit span,
      (∃ e, apply edit span (run steps) = (.error e, run steps) ∧
        ∀ u, ¬ edit.Appends (run steps).toSymbolTable u) ∨
      ∃ t', apply edit span (run steps) = (.ok (), t') ∧
        edit.Appends (run steps).toSymbolTable t'.toSymbolTable) ∧
    ∀ steps', run steps = run steps' ↔ (run steps).classes = (run steps').classes := by
  have ht := Coherent.run steps
  refine ⟨fun name i => ?_, fun name c => ?_, fun name => ?_, ht.distinct, fun edit span => ?_,
    fun steps' => ⟨fun h => by rw [h], ht.eq_of_classes (Coherent.run steps')⟩⟩
  · rw [ht.index, List.getElem?_map, Option.map_eq_some_iff]
  · rw [ht.get?_eq, SymbolTable.get?, find?_name_eq_some_iff ht.distinct.classes]
    refine ⟨fun hc => ⟨hc, fun c' hc' hname => ?_⟩, And.left⟩
    have hfind := (find?_name_eq_some_iff ht.distinct.classes).mpr hc
    exact Option.some.inj
      (((find?_name_eq_some_iff ht.distinct.classes).mpr ⟨hc', hname⟩).symm.trans hfind)
  · rw [ht.contains_eq, SymbolTable.contains, SymbolTable.get?, find?_name_isSome_iff, List.mem_map]
  · rcases apply_cases ht edit span with ⟨e, hplain, happly⟩ | ⟨t', hplain, happly, -⟩
    · refine .inl ⟨e, happly, fun u hu => ?_⟩
      cases hplain.symm.trans ((SymbolTable.apply_eq_ok_iff ht.distinct).mpr hu)
    · exact .inr ⟨t', happly, (SymbolTable.apply_eq_ok_iff ht.distinct).mp hplain⟩

end MiniJava
