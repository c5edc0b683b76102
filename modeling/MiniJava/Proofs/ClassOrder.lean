import MiniJava.Layout
import MiniJava.Proofs.Agreement
import MiniJava.Proofs.DeclaredTable

/-!
# The order of classes

Classes may be put into any order in which the program can still be declared: the table finds the
same entries and layouts under all names, and the program is accepted or not as before. The check
asks a table for classes by their names only (`Program.check_congr`), and which class a name finds
does not depend on the order where names are distinct.
-/

namespace MiniJava

variable {t t' : SymbolTable}

theorem SymbolTable.get?_eq_of_perm (hperm : t'.classes.Perm t.classes)
    (hnames : (t.classes.map ClassEntry.name).Nodup) : t'.get? = t.get? := by
  have hnames' : (t'.classes.map ClassEntry.name).Nodup := (hperm.map _).nodup_iff.mpr hnames
  funext name
  apply Option.ext
  intro c
  rw [SymbolTable.get?, SymbolTable.get?, find?_name_eq_some_iff hnames',
    find?_name_eq_some_iff hnames, hperm.mem_iff]

/-- The layout of a class depends on what is found under the name of its parent. -/
theorem ClassLayout.ofClass_congr {c : ClassEntry} (h : t'.parentOf? c = t.parentOf? c) :
    ofClass t' c = ofClass t c := by
  rw [ofClass, ofClass, h]

theorem SymbolTable.layout?_congr {name : String} (hget : t'.get? name = t.get? name)
    (hparent : ∀ c, t.get? name = some c → t'.parentOf? c = t.parentOf? c) :
    t'.layout? name = t.layout? name := by
  rw [layout?, layout?, hget]
  cases hc : t.get? name with
  | none => rfl
  | some c => exact congrArg some (ClassLayout.ofClass_congr (hparent c hc))

theorem ClassEntry.within_true (c : ClassEntry) : c.Within fun _ => True where
  name := trivial
  parent _ _ := trivial
  fields _ _ _ _ := trivial
  methods _ _ := ⟨fun _ _ => trivial, fun _ _ _ _ => trivial, fun _ _ _ _ => trivial⟩

/-- **The order of classes does not matter.** Where the classes of a program can be declared in two
orders, every name finds equal entries and layouts in the two tables, and the program passes the
check against the one table exactly if it passes against the other. -/
theorem class_order_irrelevant {p p' : Program} (hmain : p'.main = p.main)
    (hperm : p'.classes.Perm p.classes) (ht : p.declare.result = .ok t)
    (ht' : p'.declare.result = .ok t') :
    (∀ name, t'.get? name = t.get? name ∧ t'.layout? name = t.layout? name) ∧
      ((p'.check t').result = .ok () ↔ (p.check t).result = .ok ()) := by
  obtain ⟨hp, rfl⟩ := Program.declarable_of_declare ht
  obtain ⟨-, rfl⟩ := Program.declarable_of_declare ht'
  have hnames : (p.table.classes.map ClassEntry.name).Nodup := p.map_name_table ▸ hp.classes
  have hget : p'.table.get? = p.table.get? := by
    refine SymbolTable.get?_eq_of_perm ?_ hnames
    rw [Program.table, Program.table, hmain]
    exact (hperm.map _).cons _
  have hagree : p'.table.AgreeOn (fun _ => True) p.table :=
    ⟨fun x _ => congrFun hget x, fun _ c _ _ => c.within_true⟩
  refine ⟨fun name => ⟨congrFun hget name, SymbolTable.layout?_congr (congrFun hget name) ?_⟩, ?_⟩
  · exact fun c _ => hagree.parentOf?_eq c.within_true
  · rw [Program.check_congr hagree fun _ _ => trivial, Program.check_result_iff,
      Program.check_result_iff]
    constructor
    · rintro ⟨hwell, hclasses⟩
      exact ⟨hmain ▸ hwell, fun d hd => hclasses d (hperm.mem_iff.mpr hd)⟩
    · rintro ⟨hwell, hclasses⟩
      exact ⟨hmain ▸ hwell, fun d hd => hclasses d (hperm.mem_iff.mp hd)⟩

/-- Two classes, each of which mentions the other one, in one of their orders. -/
def mutualClasses (swapped : Bool) : Program :=
  let name (x : String) : Ident := ⟨x, default⟩
  let a : ClassDecl :=
    ⟨name "A", none, [⟨.named (name "B"), name "next", default⟩],
      [⟨.named (name "B"), name "make", [], [],
        [.assign default (name "next") (.newObject default (name "B"))], .ident (name "next"),
        default⟩], default⟩
  let b : ClassDecl :=
    ⟨name "B", none, [⟨.named (name "A"), name "back", default⟩],
      [⟨.int default, name "get", [], [], [], .int default 1, default⟩], default⟩
  { main := ⟨name "M", name "args", [],
      [.print default (.send default
        (.paren default (.send default (.newObject default (name "A")) (name "make") []))
        (name "get") [])], default⟩
    classes := if swapped then [b, a] else [a, b] }

theorem class_order_irrelevant_mutualClasses :
    (mutualClasses true).declare.result = .ok (mutualClasses true).table ∧
      (mutualClasses false).declare.result = .ok (mutualClasses false).table ∧
      (mutualClasses true).table ≠ (mutualClasses false).table ∧
      (∀ name, (mutualClasses true).table.get? name = (mutualClasses false).table.get? name ∧
        (mutualClasses true).table.layout? name = (mutualClasses false).table.layout? name) ∧
      (((mutualClasses true).check (mutualClasses true).table).result = .ok () ↔
        ((mutualClasses false).check (mutualClasses false).table).result = .ok ()) ∧
      ((mutualClasses false).check (mutualClasses false).table).result = .ok () := by
  obtain ⟨hfound, hpass⟩ :=
    @class_order_irrelevant _ _ (mutualClasses false) (mutualClasses true) rfl (.swap _ _ _) rfl rfl
  exact ⟨rfl, rfl, by decide, hfound, hpass, rfl⟩

end MiniJava
