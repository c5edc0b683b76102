import MiniJava.Proofs.TableRuns
import MiniJava.Report.Basic

/-!
# What reports say of layouts

The offset of a member can be had in three ways: at its place in the list of all layouts, at its
place in the layout that is found by the name of its class, and by its own name in that layout, with
zero for a name that is missing there. A report takes the last way. As names are distinct in every
table that declarations lead to, all three give the same offset, and no name is missing
(`ClassReport.tells_ofClass`). Nothing is asked of parents: they may be unknown, have parents, or be
the class itself.
-/

namespace MiniJava

/-- The member called `name` has the slot at place `j`, and the search for its name ends there. -/
structure OwnSlot (slots : List Slot) (j : Nat) (name : String) (offset : Nat) : Prop where
  slot : slots[j]? = some ⟨name, offset⟩
  place : slots.findIdx? (·.name == name) = some j
  offset : offsetOf? slots name = some offset

/-- A report says of a class what its entry says, and has the offset of each member from the slot at
the same place in the layout. -/
structure ClassReport.Tells (r : ClassReport) (c : ClassEntry) (l : ClassLayout) : Prop where
  name : r.name = c.name ∧ l.cls = c.name
  parent : r.parent = c.parent
  fieldCount : r.fields.length = c.fields.length ∧ l.fields.length = c.fields.length
  field : ∀ j v, c.fields[j]? = some v → ∃ offset,
    r.fields[j]? = some ⟨v.name, v.type.text, offset⟩ ∧ OwnSlot l.fields j v.name offset
  methodCount : r.methods.length = c.methods.length ∧ l.methods.length = c.methods.length
  method : ∀ j m, c.methods[j]? = some m → ∃ offset,
    r.methods[j]? = some ⟨m.name, m.returns.text, m.params.map (·.type.text), offset⟩ ∧
      OwnSlot l.methods j m.name offset

/-! ### Slots and their names -/

theorem map_name_place (offset : Nat) (members : List (String × Nat)) :
    (place offset members).map Slot.name = members.map Prod.fst := by
  induction members generalizing offset with
  | nil => rfl
  | cons member rest ih =>
    rw [place, List.map_cons, List.map_cons, ih]

/-- Where names are distinct, looking one up ends at the place of the element of this name. -/
theorem findIdx?_name_eq {α : Type} {name : α → String} {l : List α} (hl : (l.map name).Nodup)
    {j : Nat} {a : α} (h : l[j]? = some a) : l.findIdx? (name · == name a) = some j := by
  obtain ⟨hj, rfl⟩ := List.getElem?_eq_some_iff.mp h
  rw [List.findIdx?_eq_some_iff_getElem]
  refine ⟨hj, beq_self_eq_true _, fun i hi hname => ?_⟩
  have hne := List.pairwise_iff_getElem.mp hl i j (by rw [List.length_map]; omega)
    (by rw [List.length_map]; exact hj) hi
  rw [List.getElem_map, List.getElem_map] at hne
  exact hne (beq_iff_eq.mp hname)

/-- A member that bears a name of its own has a slot of its own. -/
theorem exists_ownSlot {α : Type} {name : α → String} {l : List α} {slots : List Slot}
    (hnames : slots.map Slot.name = l.map name) (hl : (l.map name).Nodup) {j : Nat} {a : α}
    (h : l[j]? = some a) : ∃ offset, OwnSlot slots j (name a) offset := by
  have hj : (slots.map Slot.name)[j]? = some (name a) := by
    rw [hnames, List.getElem?_map, h, Option.map_some]
  rw [List.getElem?_map, Option.map_eq_some_iff] at hj
  obtain ⟨slot, hslot, hname⟩ := hj
  rw [← hnames] at hl
  refine ⟨slot.offset, ?_, ?_, ?_⟩
  · rw [hslot, ← hname]
  · rw [← hname]
    exact findIdx?_name_eq hl hslot
  · rw [offsetOf?, (find?_name_eq_some_iff hl).mpr ⟨List.mem_of_getElem? hslot, hname⟩,
      Option.map_some]

/-! ### Classes of a table -/

section

variable {t : SymbolTable} {c : ClassEntry}

theorem ClassLayout.map_name_fields (t : SymbolTable) (c : ClassEntry) :
    (ofClass t c).fields.map Slot.name = c.fields.map Variable.name := by
  rw [ofClass, map_name_place, ClassEntry.fieldSizes, List.map_map]
  rfl

theorem ClassLayout.map_name_methods (t : SymbolTable) (c : ClassEntry) :
    (ofClass t c).methods.map Slot.name = c.methods.map MethodEntry.name := by
  rw [ofClass, map_name_place, ClassEntry.methodSizes, List.map_map]
  rfl

theorem SymbolTable.Distinct.layout?_eq (ht : t.Distinct) (hc : c ∈ t.classes) :
    t.layout? c.name = some (.ofClass t c) := by
  rw [layout?, get?, (find?_name_eq_some_iff ht.classes).mpr ⟨hc, rfl⟩, Option.map_some]

/-- Where names are distinct, the report on a class has the offsets of its layout. -/
theorem ClassReport.tells_ofClass (ht : t.Distinct) (hc : c ∈ t.classes) :
    (ClassReport.ofClass t c).Tells c (.ofClass t c) where
  name := ⟨rfl, rfl⟩
  parent := rfl
  fieldCount :=
    ⟨List.length_map _, by simpa using congrArg List.length (ClassLayout.map_name_fields t c)⟩
  field j v hv := by
    obtain ⟨offset, hslot⟩ :=
      exists_ownSlot (ClassLayout.map_name_fields t c) (ht.eachClass c hc).fields hv
    refine ⟨offset, ?_, hslot⟩
    rw [ofClass, ht.layout?_eq hc]
    simp only [List.getElem?_map, hv, Option.map_some, Option.bind_some, ClassLayout.fieldOffset?,
      hslot.offset, Option.getD_some]
  methodCount :=
    ⟨List.length_map _, by simpa using congrArg List.length (ClassLayout.map_name_methods t c)⟩
  method j m hm := by
    obtain ⟨offset, hslot⟩ :=
      exists_ownSlot (ClassLayout.map_name_methods t c) (ht.eachClass c hc).methods hm
    refine ⟨offset, ?_, hslot⟩
    rw [ofClass, ht.layout?_eq hc]
    simp only [List.getElem?_map, hm, Option.map_some, Option.bind_some, ClassLayout.methodOffset?,
      hslot.offset, Option.getD_some]

end

open IndexedTable in
/-- **Reports and layouts tell the same.** Take the table after any declarations, of which some may
have failed, with whatever parents. Classes are found by name at the places that are kept for them.
A report has one entry for each class, in the order of the declarations. The entry of the class at
place `i` has the offsets of the layout at place `i`, which is also the one that is found by the
name of the class: for the field or method at place `j`, the offset in the slot at place `j`. The
search for the name of a member in the layout ends at its own slot, so it never comes out empty. -/
theorem reports_tell_layouts (steps : List (Edit × Span)) (file : String) :
    (∀ name, (run steps).get? name = (run steps).toSymbolTable.get? name) ∧
    (Report.ofTable file (run steps).toSymbolTable).classes.length = (run steps).classes.length ∧
    (run steps).layouts.length = (run steps).classes.length ∧
    ∀ (i : Nat) (c : ClassEntry), (run steps).classes[i]? = some c →
      (run steps).place? c.name = some i ∧
      ∃ (r : ClassReport) (l : ClassLayout),
        (Report.ofTable file (run steps).toSymbolTable).classes[i]? = some r ∧
        (run steps).layouts[i]? = some l ∧ (run steps).layout? c.name = some l ∧
        r.Tells c l := by
  have ht := Coherent.run steps
  refine ⟨ht.get?_eq, List.length_map _, List.length_map _, fun i c hi => ⟨?_, ?_⟩⟩
  · rw [ht.index, List.getElem?_map, hi, Option.map_some]
  · have hc := List.mem_of_getElem? hi
    refine ⟨_, _, ?_, ?_, ht.distinct.layout?_eq hc, ClassReport.tells_ofClass ht.distinct hc⟩
    · rw [Report.ofTable, List.getElem?_map, hi, Option.map_some]
    · rw [SymbolTable.layouts, List.getElem?_map, hi, Option.map_some]

/-- Declarations of which one fails, with a class that is its own parent, a child of it and a
grandchild, and a class whose parent is not declared. -/
def oddParents : List (Edit × Span) :=
  let edits : List Edit :=
    [.addClass "A" (some "A"), .addField "A" ⟨"x", .int⟩, .addClass "B" (some "A"),
      .addField "B" ⟨"x", .boolean⟩, .addField "B" ⟨"x", .int⟩, .addField "B" ⟨"y", .cls "C"⟩,
      .addClass "C" (some "B"), .addField "C" ⟨"z", .int⟩, .addMethod "C" "z" .int,
      .addClass "D" (some "Z"), .addMethod "D" "z" .void, .addMethod "D" "f" .int,
      .addField "A" ⟨"y", .intArray⟩]
  edits.map (·, default)

open IndexedTable in
theorem reports_tell_layouts_oddParents :
    ∃ c r l, (run oddParents).classes[0]? = some c ∧ c.parent = some c.name ∧
      (Report.ofTable "odd" (run oddParents).toSymbolTable).classes[0]? = some r ∧
      l.fields = [⟨"x", 12⟩, ⟨"y", 16⟩] ∧ r.Tells c l := by
  have hc : (run oddParents).classes[0]? =
      some ⟨"A", some "A", [⟨"x", .int⟩, ⟨"y", .intArray⟩], []⟩ := by
    rw [toSymbolTable_run]
    decide
  have hfields : (run oddParents).layouts[0]?.map ClassLayout.fields =
      some [⟨"x", 12⟩, ⟨"y", 16⟩] := by
    rw [toSymbolTable_run]
    decide
  obtain ⟨-, -, -, hclass⟩ := reports_tell_layouts oddParents "odd"
  obtain ⟨-, r, l, hr, hl, -, htells⟩ := hclass 0 _ hc
  rw [hl, Option.map_some, Option.some.injEq] at hfields
  exact ⟨_, r, l, hc, rfl, hr, hfields, htells⟩

end MiniJava
