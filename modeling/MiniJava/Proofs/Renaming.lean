import Mathlib.Logic.Equiv.Basic
import MiniJava.Proofs.Naturality
import MiniJava.Proofs.Violations

/-!
# Renaming

Names matter only in so far as they are equal or different, with the one exception of the entry
method. A program with other names is accepted if and only if the program itself is; its table, its
layouts and its errors are those of the program, with the names changed.
-/

namespace MiniJava

open Function (Injective)

variable {f : String → String} {α β : Type}

/-! ### Layouts -/

theorem place_rename (offset : Nat) (members : List (String × Nat)) :
    place offset (members.map (Prod.map f id)) = (place offset members).map (Slot.rename f) := by
  induction members generalizing offset with
  | nil => rfl
  | cons member members ih =>
    obtain ⟨name, size⟩ := member
    show ⟨f name, offset⟩ :: place (offset + size) (members.map (Prod.map f id)) = _
    rw [ih]
    rfl

theorem totalSize_rename (members : List (String × Nat)) :
    totalSize (members.map (Prod.map f id)) = totalSize members := by
  induction members with
  | nil => rfl
  | cons member members ih =>
    obtain ⟨name, size⟩ := member
    show size + totalSize (members.map (Prod.map f id)) = size + totalSize members
    rw [ih]

theorem Ty.size_rename (type : Ty) : (type.rename f).size = type.size := by
  cases type <;> rfl

theorem ClassEntry.fieldSizes_rename (c : ClassEntry) :
    (c.rename f).fieldSizes = c.fieldSizes.map (Prod.map f id) := by
  unfold fieldSizes
  rw [rename, List.map_map, List.map_map]
  refine List.map_congr_left fun v _ => ?_
  show (f v.name, (v.type.rename f).size) = (f v.name, v.type.size)
  rw [Ty.size_rename]

theorem ClassEntry.methodSizes_rename (c : ClassEntry) :
    (c.rename f).methodSizes = c.methodSizes.map (Prod.map f id) := by
  unfold methodSizes
  rw [rename, List.map_map, List.map_map]
  rfl

theorem ClassEntry.fieldsSize_rename (c : ClassEntry) :
    (c.rename f).fieldsSize = c.fieldsSize := by
  rw [fieldsSize, fieldSizes_rename, totalSize_rename]
  rfl

theorem ClassEntry.methodsSize_rename (c : ClassEntry) :
    (c.rename f).methodsSize = c.methodsSize := by
  rw [methodsSize, methodSizes_rename, totalSize_rename]
  rfl

section

variable (hf : Injective f)
include hf

/-- What the parent of a class takes is the same under other names. -/
theorem SymbolTable.elim_parentOf?_rename {size : ClassEntry → Nat}
    (hsize : ∀ c : ClassEntry, size (c.rename f) = size c) (t : SymbolTable) (c : ClassEntry) :
    ((t.rename f).parentOf? (c.rename f)).elim 0 size = (t.parentOf? c).elim 0 size := by
  rw [parentOf?_rename hf]
  cases t.parentOf? c with
  | none => rfl
  | some parent => exact hsize parent

theorem ClassLayout.ofClass_rename (t : SymbolTable) (c : ClassEntry) :
    ofClass (t.rename f) (c.rename f) = (ofClass t c).rename f := by
  have hfields := t.elim_parentOf?_rename hf ClassEntry.fieldsSize_rename c
  have hmethods := t.elim_parentOf?_rename hf ClassEntry.methodsSize_rename c
  unfold ofClass
  simp only [hfields, hmethods, c.fieldSizes_rename, c.methodSizes_rename, place_rename]
  rfl

theorem SymbolTable.layouts_rename (t : SymbolTable) :
    (t.rename f).layouts = t.layouts.map (ClassLayout.rename f) := by
  unfold layouts
  show (t.classes.map (ClassEntry.rename f)).map (ClassLayout.ofClass (t.rename f)) = _
  rw [List.map_map, List.map_map]
  exact List.map_congr_left fun c _ => ClassLayout.ofClass_rename hf t c

theorem SymbolTable.layout?_rename (t : SymbolTable) (cls : String) :
    (t.rename f).layout? (f cls) = (t.layout? cls).map (ClassLayout.rename f) := by
  unfold layout?
  rw [get?_rename hf, Option.map_map, Option.map_map]
  congr 1
  funext c
  exact ClassLayout.ofClass_rename hf t c

theorem offsetOf?_rename (slots : List Slot) (name : String) :
    offsetOf? (slots.map (Slot.rename f)) (f name) = offsetOf? slots name := by
  unfold offsetOf?
  rw [find?_name_rename hf Slot.name (fun _ => rfl), Option.map_map]
  rfl

end

/-! ### Results -/

/-- A fault keeps its sort. -/
theorem SemanticFault.code_rename (fault : SemanticFault) : (fault.rename f).code = fault.code := by
  cases fault <;> rfl

theorem SameUpToNames.of_eq_relabel {h : α → β} {x : Except SemanticError α}
    {y : Except SemanticError β} (hxy : y = relabel f id h x) : SameUpToNames f h x y := by
  subst hxy
  cases x with
  | ok a => exact .ok a
  | error e => exact .error e.fault e.span e.fault.code_rename

/-- **Renaming commutes with the analysis.** Let the names of a program be changed so that different
names stay different and the entry method keeps its name. The declarations of the new program are
accepted iff those of the program are. Then its table is that of the program with the names changed,
its check has the outcome that the check of the program has, and all offsets are equal. Where either
pass fails, it fails for both programs, with the same sort of error at the same place, and the names
in the one error are those in the other one, changed. -/
theorem renaming_commutes (hf : Injective f) (hmain : f mainMethod = mainMethod) (p : Program) :
    SameUpToNames f (SymbolTable.rename f) p.declare.result (p.rename f).declare.result ∧
      (∀ t, p.declare.result = .ok t →
        (p.rename f).declare.result = .ok (t.rename f) ∧
        SameUpToNames f id (p.check t).result ((p.rename f).check (t.rename f)).result ∧
        (t.rename f).layouts = t.layouts.map (ClassLayout.rename f) ∧
        ∀ cls layout, t.layout? cls = some layout →
          ∃ layout', (t.rename f).layout? (f cls) = some layout' ∧ ∀ member,
            layout'.fieldOffset? (f member) = layout.fieldOffset? member ∧
            layout'.methodOffset? (f member) = layout.methodOffset? member) ∧
      SameUpToNames f (SymbolTable.rename f) p.analyze.result (p.rename f).analyze.result := by
  have hdeclare : (p.rename f).declare.result =
      relabel f id (SymbolTable.rename f) p.declare.result :=
    congrArg Analysis.result (p.declare_map hf hmain)
  have hanalyze : (p.rename f).analyze.result =
      relabel f id (SymbolTable.rename f) p.analyze.result :=
    congrArg Analysis.result (p.analyze_map hf hmain)
  refine ⟨.of_eq_relabel hdeclare, fun t ht => ⟨?_, ?_, t.layouts_rename hf, ?_⟩,
    .of_eq_relabel hanalyze⟩
  · rw [hdeclare, ht]
    rfl
  · exact .of_eq_relabel (congrArg Analysis.result (p.check_map hf hmain t))
  · intro cls layout hlayout
    have hlayout' : (t.rename f).layout? (f cls) = some (layout.rename f) := by
      rw [t.layout?_rename hf, hlayout]
      rfl
    exact ⟨_, hlayout', fun member =>
      ⟨offsetOf?_rename hf layout.fields member, offsetOf?_rename hf layout.methods member⟩⟩

/-- With the names of its two classes exchanged, the broken call of `brokenCall` is one of a method
of the class `B`. -/
theorem renaming_commutes_brokenCall :
    Injective (Equiv.swap "A" "B") ∧ Equiv.swap "A" "B" mainMethod = mainMethod ∧
      (brokenCall.rename (Equiv.swap "A" "B")).declare.result =
        .ok (brokenCall.table.rename (Equiv.swap "A" "B")) ∧
      SameUpToNames (Equiv.swap "A" "B") id
        (.error ⟨.argumentTypeMismatch ⟨"A", "f"⟩ 2 .boolean .int, ⟨131, 132, 0⟩⟩)
        ((brokenCall.rename (Equiv.swap "A" "B")).check
          (brokenCall.table.rename (Equiv.swap "A" "B"))).result ∧
      ((brokenCall.rename (Equiv.swap "A" "B")).check
          (brokenCall.table.rename (Equiv.swap "A" "B"))).result =
        .error ⟨.argumentTypeMismatch ⟨"B", "f"⟩ 2 .boolean .int, ⟨131, 132, 0⟩⟩ := by
  have hf : Injective (Equiv.swap "A" "B") := Equiv.injective _
  have hmain : Equiv.swap "A" "B" mainMethod = mainMethod :=
    Equiv.swap_apply_of_ne_of_ne (by decide) (by decide)
  obtain ⟨hdeclare, hcheck, -⟩ := (renaming_commutes hf hmain brokenCall).2.1 _ rfl
  exact ⟨hf, hmain, hdeclare, hcheck, rfl⟩

end MiniJava
