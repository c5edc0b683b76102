import MiniJava.Proofs.DeclaredTable
import MiniJava.Proofs.Naturality
import MiniJava.Proofs.RoundTrip
import MiniJava.SymbolTable.Printer

/-!
# What a printed table tells

The text of a table is a code for the table, if the names in it are words and not reserved ones.

* `Tells P Q write` says that the writings of the things in `P` can be told apart and cut off where
  a text in `Q` follows. A word is cut off by the first character that is no part of words
  (`tells_word`), and lists by a mark that their members begin with (`Tells.list`).
* Types, variables, methods and classes are put together from such pieces.
-/

namespace MiniJava

/-! ### Names in tables -/

/-- Whether the class that a type names has a name that can be written. -/
def Ty.wellFormed : Ty → Bool
  | cls name => isIdentName name
  | _ => true

/-- Whether a variable has a name and a type that can be written. -/
def Variable.wellFormed (v : Variable) : Bool :=
  isIdentName v.name && v.type.wellFormed

/-- Whether all names in the entry of a method can be written. -/
def MethodEntry.wellFormed (m : MethodEntry) : Bool :=
  isIdentName m.name && m.returns.wellFormed && m.params.all Variable.wellFormed &&
    m.locals.all Variable.wellFormed

/-- Whether all names in the entry of a class can be written. -/
def ClassEntry.wellFormed (c : ClassEntry) : Bool :=
  isIdentName c.name && c.parent.all isIdentName && c.fields.all Variable.wellFormed &&
    c.methods.all MethodEntry.wellFormed

theorem TypeExpr.wellFormed_denote (type : TypeExpr) : type.denote.wellFormed = type.wellFormed := by
  cases type <;> rfl

theorem VarDecl.wellFormed_toVariable (d : VarDecl) : d.toVariable.wellFormed = d.wellFormed := by
  rw [Variable.wellFormed, VarDecl.toVariable, TypeExpr.wellFormed_denote, Bool.and_comm]
  rfl

theorem VarDecl.all_wellFormed_map (ds : List VarDecl) :
    (ds.map VarDecl.toVariable).all Variable.wellFormed = ds.all VarDecl.wellFormed := by
  rw [List.all_map]
  exact congrArg ds.all (funext VarDecl.wellFormed_toVariable)

theorem MethodDecl.wellFormed_entry {d : MethodDecl} (h : d.wellFormed = true) :
    d.entry.wellFormed = true := by
  simp only [MethodDecl.wellFormed, Bool.and_eq_true] at h
  obtain ⟨⟨⟨⟨⟨hreturns, hname⟩, hparams⟩, hvars⟩, -⟩, -⟩ := h
  simp only [MethodEntry.wellFormed, MethodDecl.entry, Bool.and_eq_true,
    TypeExpr.wellFormed_denote, VarDecl.all_wellFormed_map]
  exact ⟨⟨⟨hname, hreturns⟩, hparams⟩, hvars⟩

theorem ClassDecl.wellFormed_entry {d : ClassDecl} (h : d.wellFormed = true) :
    d.entry.wellFormed = true := by
  simp only [ClassDecl.wellFormed, Bool.and_eq_true, List.all_eq_true] at h
  obtain ⟨⟨⟨hname, hparent⟩, hfields⟩, hmethods⟩ := h
  simp only [ClassEntry.wellFormed, ClassDecl.entry, Bool.and_eq_true, VarDecl.all_wellFormed_map,
    List.all_eq_true, List.forall_mem_map]
  refine ⟨⟨⟨hname, ?_⟩, hfields⟩, fun m hm => MethodDecl.wellFormed_entry (hmethods m hm)⟩
  cases hp : d.parent with
  | none => rfl
  | some parent =>
    rw [hp] at hparent
    exact hparent

theorem MainClass.wellFormed_entry {d : MainClass} (h : d.wellFormed = true) :
    d.entry.wellFormed = true := by
  simp only [MainClass.wellFormed, Bool.and_eq_true] at h
  obtain ⟨⟨⟨hname, hargs⟩, hvars⟩, -⟩ := h
  have hmethod : (d.entry.methods.all MethodEntry.wellFormed) = true := by
    simp only [MainClass.entry, List.all_cons, List.all_nil, MethodEntry.wellFormed,
      VarDecl.all_wellFormed_map, hvars, Bool.and_true]
    exact Bool.and_eq_true_iff.mpr ⟨by decide, Bool.and_eq_true_iff.mpr ⟨hargs, rfl⟩⟩
  simp only [ClassEntry.wellFormed, hmethod, Bool.and_true]
  rw [Bool.and_eq_true, Bool.and_eq_true]
  exact ⟨⟨hname, rfl⟩, rfl⟩

/-- The names in the table of a program are names of the program. -/
theorem Program.wellFormed_table {p : Program} (h : p.wellFormed = true) :
    ∀ c ∈ p.table.classes, c.wellFormed = true := by
  simp only [Program.wellFormed, Bool.and_eq_true, List.all_eq_true] at h
  rw [Program.table, List.forall_mem_cons, List.forall_mem_map]
  exact ⟨MainClass.wellFormed_entry h.1, fun d hd => ClassDecl.wellFormed_entry (h.2 d hd)⟩

/-! ### Codes -/

/-- A text that begins with the writing of a member of `P` and goes on with a text in `Q` tells the
member and where its writing ends. -/
def Tells {α : Type} (P : α → Prop) (Q : List Char → Prop) (write : α → List Char) : Prop :=
  ∀ a b x y, P a → P b → Q x → Q y → write a ++ x = write b ++ y → a = b ∧ x = y

/-- The text does not begin with a character that continues a word. -/
def EndsWord (x : List Char) : Prop :=
  ∀ c ∈ x.head?, isWordPart c = false

theorem endsWord_cons {c : Char} (h : isWordPart c = false) (x : List Char) : EndsWord (c :: x) := by
  rintro _ ⟨⟩
  exact h

/-- A word is cut off by a character that does not continue it. -/
theorem tells_word : Tells (fun w => ∀ c ∈ w, isWordPart c = true) EndsWord id := by
  intro a b x y ha hb hx hy h
  simp only [id] at h
  induction a generalizing b with
  | nil =>
    cases b with
    | nil => exact ⟨rfl, h⟩
    | cons d b =>
      have hpart := hx d (by rw [show x = d :: (b ++ y) from h]; rfl)
      rw [hb d List.mem_cons_self] at hpart
      cases hpart
  | cons c a ih =>
    cases b with
    | nil =>
      have hpart := hy c (by rw [show y = c :: (a ++ x) from h.symm]; rfl)
      rw [ha c List.mem_cons_self] at hpart
      cases hpart
    | cons d b =>
      obtain ⟨rfl, htail⟩ := List.cons.inj h
      obtain ⟨rfl, rfl⟩ := ih b (List.forall_mem_cons.mp ha).2 (List.forall_mem_cons.mp hb).2 htail
      exact ⟨rfl, rfl⟩

/-- The first part and, each behind a separator, the others. -/
theorem intercalate_cons (sep part : List Char) (parts : List (List Char)) :
    sep.intercalate (part :: parts) = part ++ parts.flatMap (sep ++ ·) := by
  induction parts generalizing part with
  | nil => simp
  | cons next parts ih => rw [List.intercalate_cons_cons, ih, List.flatMap_cons]; simp

section

variable {α : Type} {P : α → Prop} {Q R : List Char → Prop} {write : α → List Char}

theorem Tells.marked (h : Tells P Q write) (mark : List Char) :
    Tells P Q fun a => mark ++ write a := by
  intro a b x y ha hb hx hy heq
  simp only [List.append_assoc] at heq
  exact h a b x y ha hb hx hy (List.append_cancel_left heq)

/-- Things in a row are told apart if each of them begins with a mark that what follows the last of
them does not begin with. -/
theorem Tells.list (h : Tells P Q write) (mark : List Char) (hmark : ∀ a, mark <+: write a)
    (hmore : ∀ x, mark <+: x → Q x) (hend : ∀ x, R x → Q x ∧ ¬mark <+: x) :
    Tells (fun as => ∀ a ∈ as, P a) R (List.flatMap write) := by
  have hcons (a : α) (as : List α) (x : List Char) : mark <+: (a :: as).flatMap write ++ x := by
    rw [List.flatMap_cons, List.append_assoc]
    exact (hmark a).trans (List.prefix_append _ _)
  have hbehind (as : List α) {x : List Char} (hx : R x) : Q (as.flatMap write ++ x) := by
    cases as with
    | nil => exact (hend x hx).1
    | cons a as => exact hmore _ (hcons a as x)
  intro as bs x y has hbs hx hy heq
  induction as generalizing bs with
  | nil =>
    cases bs with
    | nil => exact ⟨rfl, heq⟩
    | cons b bs =>
      have hbegins := hcons b bs y
      rw [← heq] at hbegins
      exact absurd hbegins (hend x hx).2
  | cons a as ih =>
    cases bs with
    | nil =>
      have hbegins := hcons a as x
      rw [heq] at hbegins
      exact absurd hbegins (hend y hy).2
    | cons b bs =>
      simp only [List.flatMap_cons, List.append_assoc] at heq
      rw [List.forall_mem_cons] at has hbs
      obtain ⟨rfl, hmore⟩ := h a b _ _ has.1 hbs.1 (hbehind as hx) (hbehind bs hy) heq
      obtain ⟨rfl, rfl⟩ := ih bs has.2 hbs.2 hmore
      exact ⟨rfl, rfl⟩

/-- Things with separators between them are told apart if none of them looks like what follows the
last one, and that does not begin with a separator. -/
theorem Tells.separated (h : Tells P Q write) {sep : List Char}
    (hstart : ∀ a x, P a → ¬R (write a ++ x)) (hmore : ∀ x, sep <+: x → Q x)
    (hend : ∀ x, R x → Q x ∧ ¬sep <+: x) :
    Tells (fun as => ∀ a ∈ as, P a) R fun as => sep.intercalate (List.map write as) := by
  have hcons (a : α) (as : List α) :
      sep.intercalate ((a :: as).map write) = write a ++ as.flatMap fun a => sep ++ write a := by
    rw [List.map_cons, intercalate_cons, List.flatMap_map]
  have hbehind (as : List α) {x : List Char} (hx : R x) :
      Q ((as.flatMap fun a => sep ++ write a) ++ x) := by
    cases as with
    | nil => exact (hend x hx).1
    | cons a as =>
      rw [List.flatMap_cons, List.append_assoc, List.append_assoc]
      exact hmore _ (List.prefix_append _ _)
  intro as bs x y has hbs hx hy heq
  cases as with
  | nil =>
    cases bs with
    | nil => exact ⟨rfl, heq⟩
    | cons b bs =>
      simp only [hcons, List.append_assoc] at heq
      rw [show x = _ from heq] at hx
      exact absurd hx (hstart b _ (hbs b List.mem_cons_self))
  | cons a as =>
    simp only [hcons, List.append_assoc] at heq
    cases bs with
    | nil =>
      rw [show y = _ from heq.symm] at hy
      exact absurd hy (hstart a _ (has a List.mem_cons_self))
    | cons b bs =>
      rw [List.forall_mem_cons] at has hbs
      simp only [hcons, List.append_assoc] at heq
      obtain ⟨rfl, htail⟩ := h a b _ _ has.1 hbs.1 (hbehind as hx) (hbehind bs hy) heq
      obtain ⟨rfl, rfl⟩ := (h.marked sep).list sep (fun _ => List.prefix_append _ _) hmore hend
        as bs x y has.2 hbs.2 hx hy htail
      exact ⟨rfl, rfl⟩

end

/-! ### Names and types -/

theorem isWordPart_of_isIdentName {name : String} (h : isIdentName name = true) :
    ∀ c ∈ name.toList, isWordPart c = true := by
  unfold isIdentName at h
  cases hname : name.toList with
  | nil => simp
  | cons c cs =>
    simp only [hname, Bool.and_eq_true, List.all_eq_true] at h
    obtain ⟨⟨hc, hcs⟩, -⟩ := h
    exact List.forall_mem_cons.mpr ⟨isWordPart_of_isWordStart hc, hcs⟩

theorem tells_name : Tells (fun name => isIdentName name = true) EndsWord String.toList := by
  intro a b x y ha hb hx hy h
  obtain ⟨hname, rfl⟩ := tells_word _ _ x y (isWordPart_of_isIdentName ha)
    (isWordPart_of_isIdentName hb) hx hy h
  exact ⟨String.toList_inj.mp hname, rfl⟩

/-- The word that the writing of a type begins with. -/
def Ty.word : Ty → String
  | int | intArray => "int"
  | boolean => "boolean"
  | stringArray => "String"
  | void => "void"
  | cls name => name

/-- Whether brackets follow the word of a type. -/
def Ty.isArray : Ty → Bool
  | intArray | stringArray => true
  | _ => false

theorem Ty.toList_text (t : Ty) :
    t.text.toList = t.word.toList ++ if t.isArray then ['[', ']'] else [] := by
  cases t with
  | cls name => exact (List.append_nil _).symm
  | _ => rfl

/-- A class has no name that another type is written with. -/
theorem Ty.eq_cls_of_word {t : Ty} {name : String} (hname : isIdentName name = true)
    (hword : t.word = name) (harray : t.isArray = false) : t = cls name := by
  subst hword
  cases t with
  | cls name => rfl
  | intArray | stringArray => cases harray
  | int | boolean | void => exact absurd hname (by decide)

theorem Ty.eq_of_word {a b : Ty} (ha : a.wellFormed = true) (hb : b.wellFormed = true)
    (hword : a.word = b.word) (harray : a.isArray = b.isArray) : a = b := by
  cases b with
  | cls name => exact eq_cls_of_word hb hword harray
  | _ =>
    cases a with
    | cls name => exact (eq_cls_of_word ha hword.symm harray.symm).symm
    | _ =>
      revert hword harray
      decide

theorem Ty.isWordPart_of_wellFormed {t : Ty} (h : t.wellFormed = true) :
    ∀ c ∈ t.word.toList, isWordPart c = true := by
  cases t with
  | cls name => exact isWordPart_of_isIdentName h
  | _ => exact List.all_eq_true.mp rfl

/-- The text begins neither with a character that continues a word nor with a bracket. -/
def EndsType (x : List Char) : Prop :=
  EndsWord x ∧ x.head? ≠ some '['

theorem endsType_cons {c : Char} (h : isWordPart c = false) (hc : c ≠ '[') (x : List Char) :
    EndsType (c :: x) :=
  ⟨endsWord_cons h x, fun heq => hc (Option.some.inj heq)⟩

theorem tells_type : Tells (fun t : Ty => t.wellFormed = true) EndsType (·.text.toList) := by
  have hends (t : Ty) {x : List Char} (hx : EndsType x) :
      EndsWord ((if t.isArray then ['[', ']'] else []) ++ x) := by
    cases t.isArray with
    | true => exact endsWord_cons (by decide) _
    | false => exact hx.1
  intro a b x y ha hb hx hy h
  simp only [Ty.toList_text, List.append_assoc] at h
  obtain ⟨hword, h⟩ := tells_word _ _ _ _ (Ty.isWordPart_of_wellFormed ha)
    (Ty.isWordPart_of_wellFormed hb) (hends a hx) (hends b hy) h
  have harray : a.isArray = b.isArray ∧ x = y := by
    cases hta : a.isArray <;> cases htb : b.isArray <;> simp only [hta, htb] at h
    · exact ⟨rfl, h⟩
    · exact absurd (congrArg List.head? h) hx.2
    · exact absurd (congrArg List.head? h).symm hy.2
    · exact ⟨rfl, List.append_cancel_left h⟩
  exact ⟨Ty.eq_of_word ha hb (String.toList_inj.mp hword) harray.1, harray.2⟩

/-! ### Variables -/

/-- A variable in a line of its own. -/
theorem tells_line :
    Tells (fun v : Variable => v.wellFormed = true) (fun _ => True) fun v =>
      v.name.toList ++ (':' :: ' ' :: (v.type.text.toList ++ ['\n'])) := by
  intro ⟨name, type⟩ ⟨name', type'⟩ x y ha hb _ _ h
  obtain ⟨hname, htype⟩ := Bool.and_eq_true_iff.mp ha
  obtain ⟨hname', htype'⟩ := Bool.and_eq_true_iff.mp hb
  simp only [List.append_assoc, List.cons_append, List.nil_append] at h
  obtain ⟨rfl, hbehind⟩ := tells_name _ _ _ _ hname hname' (endsWord_cons (by decide) _)
    (endsWord_cons (by decide) _) h
  obtain ⟨rfl, hend⟩ := tells_type _ _ _ _ htype htype'
    (endsType_cons (by decide) (by decide) _) (endsType_cons (by decide) (by decide) _)
    (List.cons.inj (List.cons.inj hbehind).2).2
  exact ⟨rfl, (List.cons.inj hend).2⟩

/-- What the line of a field begins with. -/
def fieldMark : List Char := "    field ".toList

/-- What the line of a method begins with. -/
def methodMark : List Char := "    method ".toList

/-- What the line of a local variable begins with. -/
def localMark : List Char := "        local ".toList

theorem Variable.toList_fieldLine (v : Variable) :
    v.fieldLine.toList =
      fieldMark ++ (v.name.toList ++ (':' :: ' ' :: (v.type.text.toList ++ ['\n']))) := by
  have htext : v.fieldLine = "    field " ++ v.name ++ ": " ++ v.type.text ++ "\n" := rfl
  simp only [htext, String.toList_append, List.append_assoc]
  rfl

theorem Variable.toList_localLine (v : Variable) :
    v.localLine.toList =
      localMark ++ (v.name.toList ++ (':' :: ' ' :: (v.type.text.toList ++ ['\n']))) := by
  have htext : v.localLine = "        local " ++ v.name ++ ": " ++ v.type.text ++ "\n" := rfl
  simp only [htext, String.toList_append, List.append_assoc]
  rfl

theorem tells_fieldLines :
    Tells (fun vs : List Variable => ∀ v ∈ vs, v.wellFormed = true) (fun x => ¬fieldMark <+: x)
      (List.flatMap (·.fieldLine.toList)) := by
  simp only [Variable.toList_fieldLine]
  exact (tells_line.marked fieldMark).list _ (fun _ => List.prefix_append _ _) (fun _ _ => trivial)
    fun x hx => ⟨trivial, hx⟩

theorem tells_localLines :
    Tells (fun vs : List Variable => ∀ v ∈ vs, v.wellFormed = true) (fun x => ¬localMark <+: x)
      (List.flatMap (·.localLine.toList)) := by
  simp only [Variable.toList_localLine]
  exact (tells_line.marked localMark).list _ (fun _ => List.prefix_append _ _) (fun _ _ => trivial)
    fun x hx => ⟨trivial, hx⟩

/-! ### Parameters -/

theorem Variable.toList_paramText (v : Variable) :
    v.paramText.toList = v.type.text.toList ++ (' ' :: v.name.toList) := by
  have htext : v.paramText = v.type.text ++ " " ++ v.name := rfl
  rw [htext, String.toList_append, String.toList_append, List.append_assoc]
  rfl

theorem tells_param :
    Tells (fun v : Variable => v.wellFormed = true) EndsWord (·.paramText.toList) := by
  intro ⟨name, type⟩ ⟨name', type'⟩ x y ha hb hx hy h
  obtain ⟨hname, htype⟩ := Bool.and_eq_true_iff.mp ha
  obtain ⟨hname', htype'⟩ := Bool.and_eq_true_iff.mp hb
  simp only [Variable.toList_paramText, List.append_assoc, List.cons_append] at h
  obtain ⟨rfl, hbehind⟩ := tells_type _ _ _ _ htype htype'
    (endsType_cons (by decide) (by decide) _) (endsType_cons (by decide) (by decide) _) h
  obtain ⟨rfl, rfl⟩ := tells_name _ _ _ _ hname hname' hx hy (List.cons.inj hbehind).2
  exact ⟨rfl, rfl⟩

theorem Ty.not_endsWord_text {t : Ty} (h : t.wellFormed = true) (x : List Char) :
    ¬EndsWord (t.text.toList ++ x) := by
  have hne : t.word.toList ≠ [] := by
    cases t with
    | cls name =>
      intro hnil
      simp [Ty.wellFormed, isIdentName, show name.toList = [] from hnil] at h
    | _ => decide
  obtain ⟨c, cs, hword⟩ := List.exists_cons_of_ne_nil hne
  intro hends
  have hpart := hends c (by rw [t.toList_text, hword]; rfl)
  rw [t.isWordPart_of_wellFormed h c (by rw [hword]; exact List.mem_cons_self)] at hpart
  cases hpart

/-- The parameters of a method, up to the parenthesis that closes them. -/
theorem tells_params :
    Tells (fun vs : List Variable => ∀ v ∈ vs, v.wellFormed = true) (fun x => ∃ y, x = ')' :: y)
      fun vs => (", ".intercalate (vs.map Variable.paramText)).toList := by
  simp only [String.toList_intercalate, List.map_map]
  refine tells_param.separated ?_ ?_ ?_
  · rintro v x hv ⟨y, hy⟩
    rw [Variable.toList_paramText, List.append_assoc] at hy
    have hnot := Ty.not_endsWord_text (Bool.and_eq_true_iff.mp hv).2 (' ' :: v.name.toList ++ x)
    rw [hy] at hnot
    exact hnot (endsWord_cons (by decide) y)
  · rintro _ ⟨x, rfl⟩
    exact endsWord_cons (by decide) _
  · rintro _ ⟨y, rfl⟩
    refine ⟨endsWord_cons (by decide) y, ?_⟩
    rintro ⟨z, hz⟩
    exact absurd (List.cons.inj hz).1 (by decide)

/-! ### Methods and classes -/

theorem MethodEntry.toList_text (m : MethodEntry) :
    m.text.toList = methodMark ++ (m.returns.text.toList ++ (' ' :: (m.name.toList ++ ('(' ::
      ((", ".intercalate (m.params.map Variable.paramText)).toList ++ (')' :: '\n' ::
        m.locals.flatMap (·.localLine.toList))))))) := by
  have htext : m.text = "    method " ++ m.returns.text ++ " " ++ m.name ++ "(" ++
      ", ".intercalate (m.params.map Variable.paramText) ++ ")\n" ++
        String.join (m.locals.map Variable.localLine) := rfl
  simp only [htext, String.toList_append, String.toList_join, List.flatMap_map, List.append_assoc]
  rfl

theorem tells_method :
    Tells (fun m : MethodEntry => m.wellFormed = true) (fun x => ¬localMark <+: x)
      (·.text.toList) := by
  intro ⟨name, returns, params, locals⟩ ⟨name', returns', params', locals'⟩ x y ha hb hx hy h
  simp only [MethodEntry.wellFormed, Bool.and_eq_true, List.all_eq_true] at ha hb
  obtain ⟨⟨⟨hname, hreturns⟩, hparams⟩, hlocals⟩ := ha
  obtain ⟨⟨⟨hname', hreturns'⟩, hparams'⟩, hlocals'⟩ := hb
  simp only [MethodEntry.toList_text, List.append_assoc, List.cons_append] at h
  obtain ⟨rfl, h₁⟩ := tells_type _ _ _ _ hreturns hreturns'
    (endsType_cons (by decide) (by decide) _) (endsType_cons (by decide) (by decide) _)
    (List.append_cancel_left h)
  obtain ⟨rfl, h₂⟩ := tells_name _ _ _ _ hname hname' (endsWord_cons (by decide) _)
    (endsWord_cons (by decide) _) (List.cons.inj h₁).2
  obtain ⟨rfl, h₃⟩ := tells_params _ _ _ _ hparams hparams' ⟨_, rfl⟩ ⟨_, rfl⟩ (List.cons.inj h₂).2
  obtain ⟨rfl, rfl⟩ := tells_localLines _ _ x y hlocals hlocals' hx hy
    (List.cons.inj (List.cons.inj h₃).2).2
  exact ⟨rfl, rfl⟩

/-- Two marks, neither of which begins with the other, do not begin the same text. -/
theorem not_begins_of_begins {mark mark' x : List Char} (hx : mark <+: x) (h : ¬mark <+: mark')
    (h' : ¬mark' <+: mark) : ¬mark' <+: x := fun hx' =>
  (List.prefix_or_prefix_of_prefix hx hx').elim h h'

/-- The text does not begin with a line of a member. -/
structure EndsClass (x : List Char) : Prop where
  noField : ¬fieldMark <+: x
  noMethod : ¬methodMark <+: x
  noLocal : ¬localMark <+: x

theorem tells_methods :
    Tells (fun ms : List MethodEntry => ∀ m ∈ ms, m.wellFormed = true) EndsClass
      (List.flatMap (·.text.toList)) := by
  refine tells_method.list methodMark (fun m => ?_) (fun x hx => ?_) fun x hx =>
    ⟨hx.noLocal, hx.noMethod⟩
  · rw [m.toList_text]
    exact List.prefix_append _ _
  · exact not_begins_of_begins hx (by decide) (by decide)

/-- Behind the fields of a class come its methods, or another class. -/
theorem fieldMark_not_begins (ms : List MethodEntry) {x : List Char} (hx : EndsClass x) :
    ¬fieldMark <+: ms.flatMap (·.text.toList) ++ x := by
  cases ms with
  | nil => exact hx.noField
  | cons m ms =>
    rw [List.flatMap_cons, m.toList_text, List.append_assoc, List.append_assoc]
    exact not_begins_of_begins (List.prefix_append methodMark _) (by decide) (by decide)

theorem tells_parent :
    Tells (fun parent => Option.all isIdentName parent = true) (fun x => ∃ y, x = '\n' :: y)
      (parentClause · |>.toList) := by
  have hnone (a : String) (x y : List Char) :
      '\n' :: x ≠ (parentClause (some a)).toList ++ y := by
    rw [parentClause, String.toList_append, List.append_assoc]
    intro h
    exact absurd (List.cons.inj h).1 (by decide)
  rintro a b _ _ ha hb ⟨x, rfl⟩ ⟨y, rfl⟩ h
  cases a with
  | none =>
    cases b with
    | none => exact ⟨rfl, h⟩
    | some b => exact absurd h (hnone b _ _)
  | some a =>
    cases b with
    | none => exact absurd h.symm (hnone a _ _)
    | some b =>
      simp only [parentClause, String.toList_append, List.append_assoc] at h
      obtain ⟨rfl, hend⟩ := tells_name _ _ _ _ ha hb (endsWord_cons (by decide) _)
        (endsWord_cons (by decide) _) (List.append_cancel_left h)
      exact ⟨rfl, hend⟩

/-- What the line of a class begins with. -/
def classMark : List Char := "class ".toList

theorem ClassEntry.toList_text (c : ClassEntry) :
    c.text.toList = classMark ++ (c.name.toList ++ ((parentClause c.parent).toList ++ ('\n' ::
      (c.fields.flatMap (·.fieldLine.toList) ++ c.methods.flatMap (·.text.toList))))) := by
  have htext : c.text = "class " ++ c.name ++ parentClause c.parent ++ "\n" ++
      String.join (c.fields.map Variable.fieldLine) ++
        String.join (c.methods.map MethodEntry.text) := rfl
  simp only [htext, String.toList_append, String.toList_join, List.flatMap_map, List.append_assoc]
  rfl

theorem tells_class :
    Tells (fun c : ClassEntry => c.wellFormed = true) EndsClass (·.text.toList) := by
  intro ⟨name, parent, fields, methods⟩ ⟨name', parent', fields', methods'⟩ x y ha hb hx hy h
  simp only [ClassEntry.wellFormed, Bool.and_eq_true, List.all_eq_true] at ha hb
  obtain ⟨⟨⟨hname, hparent⟩, hfields⟩, hmethods⟩ := ha
  obtain ⟨⟨⟨hname', hparent'⟩, hfields'⟩, hmethods'⟩ := hb
  simp only [ClassEntry.toList_text, List.append_assoc, List.cons_append] at h
  have hends (parent : Option String) (x : List Char) :
      EndsWord ((parentClause parent).toList ++ '\n' :: x) := by
    cases parent with
    | none => exact endsWord_cons (by decide) x
    | some parent =>
      rw [parentClause, String.toList_append, List.append_assoc]
      exact endsWord_cons (by decide) _
  obtain ⟨rfl, h₁⟩ := tells_name _ _ _ _ hname hname' (hends _ _) (hends _ _)
    (List.append_cancel_left h)
  obtain ⟨rfl, h₂⟩ := tells_parent _ _ _ _ hparent hparent' ⟨_, rfl⟩ ⟨_, rfl⟩ h₁
  obtain ⟨rfl, h₃⟩ := tells_fieldLines _ _ _ _ hfields hfields' (fieldMark_not_begins methods hx)
    (fieldMark_not_begins methods' hy) (List.cons.inj h₂).2
  obtain ⟨rfl, rfl⟩ := tells_methods _ _ x y hmethods hmethods' hx hy h₃
  exact ⟨rfl, rfl⟩

theorem SymbolTable.toList_text (t : SymbolTable) :
    t.text.toList = "Symbol table:\n".toList ++ t.classes.flatMap (·.text.toList) := by
  have htext : t.text = "Symbol table:\n" ++ String.join (t.classes.map ClassEntry.text) := rfl
  rw [htext, String.toList_append, String.toList_join, List.flatMap_map]

/-- Tables with names that can be written have different texts. -/
theorem SymbolTable.eq_of_text {t t' : SymbolTable} (ht : ∀ c ∈ t.classes, c.wellFormed = true)
    (ht' : ∀ c ∈ t'.classes, c.wellFormed = true) (h : t.text = t'.text) : t = t' := by
  have hmark (c : ClassEntry) : classMark <+: c.text.toList := by
    rw [c.toList_text]
    exact List.prefix_append _ _
  have hmore (x : List Char) (hx : classMark <+: x) : EndsClass x := by
    constructor <;> exact not_begins_of_begins hx (by decide) (by decide)
  have hend (x : List Char) (hx : x = []) : EndsClass x ∧ ¬classMark <+: x := by
    subst hx
    exact ⟨⟨by decide, by decide, by decide⟩, by decide⟩
  have hchars := congrArg String.toList h
  rw [toList_text, toList_text] at hchars
  obtain ⟨classes⟩ := t
  obtain ⟨classes'⟩ := t'
  obtain ⟨rfl, -⟩ := tells_class.list classMark hmark hmore hend classes classes' [] [] ht ht' rfl rfl
    (by rw [List.append_nil, List.append_nil]; exact List.append_cancel_left hchars)
  rfl

/-! ### The printed table of a program -/

/-- **A printed table tells the table.** If two texts are read and their declarations are accepted,
and their tables are printed alike, then the tables are equal. -/
theorem printed_tables_unambiguous (text text' : String) (file file' : Nat) (p p' : Program)
    (t t' : SymbolTable) (hp : Program.parse text file = .ok p)
    (hp' : Program.parse text' file' = .ok p') (ht : p.declare.result = .ok t)
    (ht' : p'.declare.result = .ok t') (h : t.text = t'.text) : t = t' := by
  obtain ⟨-, rfl⟩ := Program.declarable_of_declare ht
  obtain ⟨-, rfl⟩ := Program.declarable_of_declare ht'
  have hwf := (Program.written_of_parse hp).1
  have hwf' := (Program.written_of_parse hp').1
  exact SymbolTable.eq_of_text (Program.wellFormed_table hwf) (Program.wellFormed_table hwf') h

/-- A text that is a way to write a program has the table of this program. -/
theorem Program.exists_declare_of_canonicalKinds {text : String} {file : Nat} {p : Program}
    {t : SymbolTable} (hwf : p.wellFormed = true)
    (hkinds : canonicalKinds (tokenize text file) = p.kinds ++ [.eof])
    (ht : p.declare.result = .ok t) :
    ∃ q, Program.parse text file = .ok q ∧ q.declare.result = .ok t := by
  obtain ⟨q, hq, hspans⟩ := Program.parse_of_canonicalKinds hwf hkinds
  have hsame := (Program.declare_eraseSpans hspans).2
  rw [ht] at hsame
  refine ⟨q, hq, ?_⟩
  generalize q.declare.result = r at hsame
  cases hsame
  rfl

/-- A program with a child of its main class, whose field has the name of a parameter. -/
def childProgram (body : List Stmt) : Program :=
  let name (x : String) : Ident := ⟨x, default⟩
  ⟨⟨name "A", name "b", [], body, default⟩,
    [⟨name "B", some (name "A"), [⟨.named (name "A"), name "b", default⟩], [], default⟩]⟩

/-- A way to write `childProgram` with an empty body. -/
def childText : String :=
  "class A\x7bpublic static void main(String[] b)\x7b\x7d\x7dclass B extends A\x7bA b;\x7d"

/-- A way to write `childProgram` with an assignment in its body. -/
def busyChildText : String :=
  "class A\x7bpublic static void main(String[] b)\x7bb=b;\x7d\x7d class B extends A \x7bA b;\x7d//"

theorem printed_tables_unambiguous_child :
    ∃ p p' t t', Program.parse childText 0 = .ok p ∧ Program.parse busyChildText 0 = .ok p' ∧
      p.declare.result = .ok t ∧ p'.declare.result = .ok t' ∧ t.text = t'.text ∧ t = t' := by
  have hkinds : canonicalKinds (tokenize childText 0) = (childProgram []).kinds ++ [.eof] := by
    decide +kernel
  have hkinds' : canonicalKinds (tokenize busyChildText 0) =
      (childProgram [.assign default ⟨"b", default⟩ (.ident ⟨"b", default⟩)]).kinds ++ [.eof] := by
    decide +kernel
  obtain ⟨p, hp, ht⟩ := Program.exists_declare_of_canonicalKinds (by decide) hkinds rfl
  obtain ⟨p', hp', ht'⟩ := Program.exists_declare_of_canonicalKinds (by decide) hkinds' rfl
  exact ⟨p, p', _, _, hp, hp', ht, ht', rfl,
    printed_tables_unambiguous childText busyChildText 0 0 p p' _ _ hp hp' ht ht' rfl⟩

end MiniJava
