import MiniJava.Analysis.Nodes
import MiniJava.Proofs.Declaration

/-!
# Lookups in the table of a program

What the declarations of a program stand for is found in its table under their names.
-/

namespace MiniJava

variable {p : Program}

theorem Program.map_name_table (p : Program) :
    p.table.classes.map ClassEntry.name = p.main.name.name :: p.classes.map (·.name.name) := by
  rw [Program.table, List.map_cons, List.map_map]
  rfl

/-- A class is found under its name. -/
theorem Program.Declarable.get?_eq_some_iff (h : p.Declarable) {name : String} {c : ClassEntry} :
    p.table.get? name = some c ↔ c ∈ p.table.classes ∧ c.name = name := by
  apply find?_name_eq_some_iff
  rw [p.map_name_table]
  exact h.classes

theorem Program.Declarable.get?_main (h : p.Declarable) :
    p.table.get? p.main.name.name = some p.main.entry :=
  h.get?_eq_some_iff.mpr ⟨List.mem_cons_self, rfl⟩

theorem Program.Declarable.get?_class (h : p.Declarable) {d : ClassDecl} (hd : d ∈ p.classes) :
    p.table.get? d.name.name = some d.entry :=
  h.get?_eq_some_iff.mpr ⟨List.mem_cons_of_mem _ (List.mem_map_of_mem hd), rfl⟩

theorem MainClass.method?_mainMethod (d : MainClass) :
    d.entry.method? mainMethod = some d.methodEntry := by
  simp [ClassEntry.method?, MainClass.entry, MainClass.methodEntry]

/-- A method is found under its name in the entry of its class. -/
theorem ClassDecl.Declarable.method?_eq {d : ClassDecl} (h : d.Declarable) {m : MethodDecl}
    (hm : m ∈ d.methods) : d.entry.method? m.name.name = some m.entry := by
  have hnames : (d.entry.methods.map MethodEntry.name).Nodup := by
    rw [ClassDecl.entry, List.map_map]
    exact h.methods
  exact (find?_name_eq_some_iff hnames).mpr ⟨List.mem_map_of_mem hm, rfl⟩

end MiniJava
