import Mathlib.Logic.Relation
import Mathlib.Order.Defs.Unbundled
import MiniJava.Proofs.Violations

/-!
# Subtyping

A parent is declared before its child and has no parent itself (`Program.Declarable.parent_before`).
So in the table of a program nothing is more than one step away from what it extends
(`Program.Declarable.not_extends_extends`), and the rule for passing values on, which looks no
further than one step, is the whole of subtyping: the reflexive and transitive closure of `Extends`.
-/

namespace MiniJava

/-- The first type is that of a class that the table declares with the second as its parent. -/
inductive Extends (t : SymbolTable) : Ty → Ty → Prop
  | intro {c : ClassEntry} {parent : String} :
    c ∈ t.classes → c.parent = some parent → Extends t c.type (.cls parent)

/-- The fault is that a value of type `found` is not let go where `expected` is demanded: in an
assignment, as an argument, or as what a method returns. -/
inductive SemanticFault.Refuses (found expected : Ty) : SemanticFault → Prop
  | assignment {name : String} : Refuses found expected (.assignmentTypeMismatch name expected found)
  | argument {method : MethodName} {position : Nat} :
    Refuses found expected (.argumentTypeMismatch method position expected found)
  | result {method : MethodName} : Refuses found expected (.returnTypeMismatch method expected found)

/-- Where no two steps follow each other, whatever is reached is reached in one step at most. -/
theorem reflTransGen_iff_of_no_chain {α : Type} {r : α → α → Prop}
    (hr : ∀ a b c, r a b → ¬ r b c) {a b : α} : Relation.ReflTransGen r a b ↔ a = b ∨ r a b := by
  constructor
  · intro h
    induction h with
    | refl => exact .inl rfl
    | tail _ hstep ih =>
      rcases ih with rfl | hbefore
      · exact .inr hstep
      · exact absurd hstep (hr _ _ _ hbefore)
  · rintro (rfl | h)
    · exact .refl
    · exact .single h

section

variable {p : Program} {a b c s u : Ty}

/-! ### The depth of inheritance -/

/-- The parent of a class is declared before it, and has no parent. -/
theorem Program.Declarable.parent_before (hp : p.Declarable) {before after : List ClassEntry}
    {c : ClassEntry} {parent : String} (hc : p.table.classes = before ++ c :: after)
    (hparent : c.parent = some parent) : ∃ d ∈ before, d.name = parent ∧ d.parent = none := by
  cases before with
  | nil =>
    -- the main class comes first and extends nothing
    obtain ⟨rfl, -⟩ := List.cons.inj hc
    cases hparent
  | cons first before =>
    obtain ⟨rfl, hclasses⟩ := List.cons.inj hc
    obtain ⟨earlier, later, hdecls, rfl, hlater⟩ := List.map_eq_append_iff.mp hclasses
    obtain ⟨d, later, rfl, rfl, -⟩ := List.map_eq_cons_iff.mp hlater
    obtain ⟨i, hi, rfl⟩ := Option.map_eq_some_iff.mp hparent
    rcases hp.parents earlier d later hdecls i hi with hmain | ⟨e, he, hname, hnone⟩
    · exact ⟨p.main.entry, List.mem_cons_self, hmain.symm, rfl⟩
    · exact ⟨e.entry, List.mem_cons_of_mem _ (List.mem_map_of_mem he), hname,
        Option.map_eq_none_iff.mpr hnone⟩

/-- What is extended extends nothing. -/
theorem Program.Declarable.not_extends_extends (hp : p.Declarable) (hab : Extends p.table a b) :
    ¬ Extends p.table b c := by
  obtain ⟨hchild, hparent⟩ := hab
  intro hbc
  generalize hb : Ty.cls _ = b at hbc
  obtain ⟨hentry, hgrandparent⟩ := hbc
  obtain ⟨before, after, hclasses⟩ := List.append_of_mem hchild
  obtain ⟨d, hd, rfl, hnone⟩ := hp.parent_before hclasses hparent
  have hd : d ∈ p.table.classes := hclasses ▸ List.mem_append_left _ hd
  -- two classes of one name are the same
  have hfound := hp.get?_eq_some_iff.mpr ⟨hd, Ty.cls.inj hb⟩
  obtain rfl := Option.some.inj (hfound.symm.trans (hp.get?_eq_some_iff.mpr ⟨hentry, rfl⟩))
  cases hnone.symm.trans hgrandparent

/-! ### Assignability -/

theorem Program.Declarable.assignable_iff (hp : p.Declarable) :
    Assignable p.table s u ↔ s = u ∨ Extends p.table s u := by
  constructor
  · rintro (_ | ⟨hget, hparent⟩)
    · exact .inl rfl
    · obtain ⟨hc, rfl⟩ := hp.get?_eq_some_iff.mp hget
      exact .inr (.intro hc hparent)
  · rintro (rfl | ⟨hc, hparent⟩)
    · exact .same
    · exact .parent (hp.get?_eq_some_iff.mpr ⟨hc, rfl⟩) hparent

theorem Program.Declarable.assignable_iff_reflTransGen (hp : p.Declarable) :
    Assignable p.table s u ↔ Relation.ReflTransGen (Extends p.table) s u := by
  have hchain : ∀ a b c, Extends p.table a b → ¬ Extends p.table b c :=
    fun _ _ _ => hp.not_extends_extends
  rw [hp.assignable_iff, reflTransGen_iff_of_no_chain hchain]

theorem Program.Declarable.isPartialOrder_assignable (hp : p.Declarable) :
    IsPartialOrder Ty (Assignable p.table) where
  refl _ := .same
  trans _ _ _ hab hbc := by
    rw [hp.assignable_iff_reflTransGen] at hab hbc ⊢
    exact hab.trans hbc
  antisymm a b hab hba := by
    rcases hp.assignable_iff.mp hab with rfl | hab
    · rfl
    rcases hp.assignable_iff.mp hba with rfl | hba
    · rfl
    exact absurd hba (hp.not_extends_extends hab)

/-- A value that a violation is about may not be passed on. -/
theorem Node.Violates.not_assignable {t : SymbolTable} {scope : Scope} {n : Node}
    {e : SemanticError} (h : n.Violates t scope e) {found expected : Ty}
    (hfault : e.fault.Refuses found expected) : ¬ Assignable t found expected := by
  cases h with
  | argument _ _ _ _ hno =>
    cases hfault
    exact hno
  | assignment _ _ hno =>
    cases hfault
    exact hno
  | result _ _ hno =>
    cases hfault
    exact hno
  | _ => cases hfault

end

/-- **One step is the whole of subtyping.** In the table of a program, the parent of every class is
declared before it and has no parent. So the rule for passing values on is the reflexive and
transitive closure of extension, which is a partial order on all types. No assignment, argument or
returned value is refused whose type is a subtype of the one that is demanded. -/
theorem assignability_is_subtyping {p : Program} {t : SymbolTable}
    (h : p.declare.result = .ok t) :
    (∀ before c after, t.classes = before ++ c :: after → ∀ parent, c.parent = some parent →
      ∃ d ∈ before, d.name = parent ∧ d.parent = none) ∧
    (∀ s u : Ty, s.assignableTo t u = true ↔ Relation.ReflTransGen (Extends t) s u) ∧
    IsPartialOrder Ty (fun s u => s.assignableTo t u = true) ∧
    ∀ e, (p.check t).result = .error e → ∀ found expected, e.fault.Refuses found expected →
      ¬ Relation.ReflTransGen (Extends t) found expected := by
  obtain ⟨hp, rfl⟩ := Program.declarable_of_declare h
  refine ⟨fun _ _ _ hc _ => hp.parent_before hc, ?_, ?_, ?_⟩
  · intro s u
    rw [Ty.assignableTo_iff, hp.assignable_iff_reflTransGen]
  · simp only [Ty.assignableTo_iff]
    exact hp.isPartialOrder_assignable
  · intro e he found expected hfault
    obtain ⟨_, _, -, hviolates⟩ := hp.violation_of_check he
    rw [← hp.assignable_iff_reflTransGen]
    exact hviolates.not_assignable hfault

/-- A program that takes an object of a parent for one of the child:
`class M { … } class A { } class B extends A { public int f(A a) { B b; b = a; return 0; } }`. -/
def parentForChild : Program :=
  let name (x : String) : Ident := ⟨x, default⟩
  { main := ⟨name "M", name "args", [], [], default⟩
    classes :=
      [⟨name "A", none, [], [], default⟩,
       ⟨name "B", some (name "A"), [],
        [⟨.int default, name "f", [⟨.named (name "A"), name "a", default⟩],
          [⟨.named (name "B"), name "b", default⟩],
          [.assign default (name "b") (.ident (name "a"))], .int default 0, default⟩], default⟩] }

theorem assignability_is_subtyping_parentForChild :
    parentForChild.declare.result = .ok parentForChild.table ∧
      (parentForChild.check parentForChild.table).result =
        .error ⟨.assignmentTypeMismatch "b" (.cls "B") (.cls "A"), default⟩ ∧
      Relation.ReflTransGen (Extends parentForChild.table) (.cls "B") (.cls "A") ∧
      ¬ Relation.ReflTransGen (Extends parentForChild.table) (.cls "A") (.cls "B") := by
  obtain ⟨-, hclosure, -, hrefused⟩ := @assignability_is_subtyping parentForChild _ rfl
  exact ⟨rfl, rfl, (hclosure _ _).mp rfl, hrefused _ rfl _ _ .assignment⟩

end MiniJava
