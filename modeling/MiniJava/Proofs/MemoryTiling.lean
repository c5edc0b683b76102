import Mathlib.Data.List.Chain
import MiniJava.Layout
import MiniJava.Proofs.Subtyping

/-!
# The memory of an object

An object of a class has the fields of the parent of its class and those of the class itself. A
layout places the members of one class only, behind what the parent itself declares. Since a parent
has no parent, nothing comes before the members of the parent, and so the members of both classes
lie one behind the other, without a gap or an overlap, from the first byte on
(`Program.Declarable.fills_objectCells`).
-/

namespace MiniJava

/-- A member at its place: it takes `size` bytes from the byte `offset` on. -/
structure Cell extends Slot where
  size : Nat
deriving DecidableEq

namespace Cell

/-- The first byte behind a cell. -/
def stop (c : Cell) : Nat :=
  c.offset + c.size

/-- The byte belongs to the cell. -/
def Takes (c : Cell) (byte : Nat) : Prop :=
  c.offset ≤ byte ∧ byte < c.stop

end Cell

/-- The cells lie one directly behind the other, no byte belongs to two of them, and the bytes that
belong to one of them are the first `size` ones. -/
structure Tiling (cells : List Cell) (size : Nat) : Prop where
  consecutive : cells.IsChain fun a b => a.stop = b.offset
  disjoint : cells.Pairwise fun a b => ∀ byte, ¬ (a.Takes byte ∧ b.Takes byte)
  covers : ∀ byte, byte < size ↔ ∃ a ∈ cells, a.Takes byte

/-- The slots of members, given by name and size, with the bytes that each of them takes. -/
def cells (slots : List Slot) (members : List (String × Nat)) : List Cell :=
  List.zipWith (fun slot member => ⟨slot, member.2⟩) slots members

/-- A sort of members: their slots in a layout, and their names and sizes in a class. A layout places
them behind those that the parent itself declares. -/
structure MemberSort where
  slots : ClassLayout → List Slot
  sizes : ClassEntry → List (String × Nat)
  slots_ofClass (t : SymbolTable) (c : ClassEntry) :
    slots (.ofClass t c) = place ((t.parentOf? c).elim 0 fun d => totalSize (sizes d)) (sizes c)

namespace MemberSort

/-- The fields. -/
def field : MemberSort := ⟨ClassLayout.fields, ClassEntry.fieldSizes, fun _ _ => rfl⟩

/-- The methods. -/
def method : MemberSort := ⟨ClassLayout.methods, ClassEntry.methodSizes, fun _ _ => rfl⟩

/-- The cells of the members that a class itself declares, at their places in its layout. -/
def ownCells (sort : MemberSort) (t : SymbolTable) (c : ClassEntry) : List Cell :=
  cells (sort.slots (.ofClass t c)) (sort.sizes c)

/-- The cells of the members that an object of the class has: those of the parent at their places in
the layout of the parent, and then those of the class at their places in its own layout. -/
def objectCells (sort : MemberSort) (t : SymbolTable) (c : ClassEntry) : List Cell :=
  (t.parentOf? c).elim [] (sort.ownCells t) ++ sort.ownCells t c

/-- The members that an object of the class has, inherited ones first, each at its place in the
layout of the class that declares it, tile the first `size` bytes. -/
structure Tile (sort : MemberSort) (t : SymbolTable) (c : ClassEntry) (size : Nat) : Prop where
  slots : (sort.objectCells t c).map Cell.toSlot =
    (t.parentOf? c).elim [] (fun d => sort.slots (.ofClass t d)) ++ sort.slots (.ofClass t c)
  members : (sort.objectCells t c).map (fun cell => (cell.name, cell.size)) =
    (t.parentOf? c).elim [] sort.sizes ++ sort.sizes c
  tiling : Tiling (sort.objectCells t c) size

end MemberSort

/-! ### Cells in a row -/

/-- The cells lie one behind the other from the byte `start` on, and end before the byte `stop`. -/
def Fills : Nat → List Cell → Nat → Prop
  | start, [], stop => start = stop
  | start, c :: cs, stop => c.offset = start ∧ Fills c.stop cs stop

section

variable {start middle stop : Nat} {cs ds : List Cell}

theorem Fills.append (hcs : Fills start cs middle) (hds : Fills middle ds stop) :
    Fills start (cs ++ ds) stop := by
  induction cs generalizing start with
  | nil =>
    obtain rfl : start = middle := hcs
    exact hds
  | cons c cs ih => exact ⟨hcs.1, ih hcs.2⟩

theorem Fills.start_le_stop (h : Fills start cs stop) : start ≤ stop := by
  induction cs generalizing start with
  | nil => exact Nat.le_of_eq h
  | cons c cs ih =>
    obtain ⟨rfl, hcs⟩ := h
    exact Nat.le_trans (Nat.le_add_right c.offset c.size) (ih hcs)

/-- The bytes between the ends are those that belong to a cell. -/
theorem Fills.covers (h : Fills start cs stop) (byte : Nat) :
    start ≤ byte ∧ byte < stop ↔ ∃ c ∈ cs, c.Takes byte := by
  induction cs generalizing start with
  | nil =>
    obtain rfl : start = stop := h
    simp only [List.not_mem_nil, false_and, exists_false, iff_false]
    omega
  | cons c cs ih =>
    obtain ⟨rfl, hcs⟩ := h
    have hfirst : c.offset ≤ c.stop := Nat.le_add_right c.offset c.size
    have hrest : c.stop ≤ stop := hcs.start_le_stop
    have hsplit : c.offset ≤ byte ∧ byte < stop ↔
        c.Takes byte ∨ (c.stop ≤ byte ∧ byte < stop) := by
      unfold Cell.Takes
      omega
    simp only [hsplit, ih hcs, List.mem_cons, or_and_right, exists_or, exists_eq_left]

theorem Fills.consecutive (h : Fills start cs stop) : cs.IsChain fun a b => a.stop = b.offset := by
  induction cs generalizing start with
  | nil => exact .nil
  | cons c cs ih =>
    cases cs with
    | nil => exact .singleton c
    | cons d ds => exact .cons_cons h.2.1.symm (ih h.2)

theorem Fills.disjoint (h : Fills start cs stop) :
    cs.Pairwise fun a b => ∀ byte, ¬ (a.Takes byte ∧ b.Takes byte) := by
  induction cs generalizing start with
  | nil => exact .nil
  | cons c cs ih =>
    refine .cons (fun d hd byte => ?_) (ih h.2)
    rintro ⟨hc, hbyte⟩
    -- the cells behind the first one have no byte before its end
    have hbehind := ((h.2.covers byte).mpr ⟨d, hd, hbyte⟩).1
    exact absurd hc.2 (Nat.not_lt.mpr hbehind)

theorem Fills.tiling (h : Fills 0 cs stop) : Tiling cs stop where
  consecutive := h.consecutive
  disjoint := h.disjoint
  covers byte := by
    rw [← h.covers byte]
    omega

end

/-- Members that are placed one after the other take all bytes from the first of them on. -/
theorem fills_place (start : Nat) (members : List (String × Nat)) :
    Fills start (cells (place start members) members) (start + totalSize members) := by
  induction members generalizing start with
  | nil => rfl
  | cons member rest ih =>
    refine ⟨rfl, ?_⟩
    have hrest := ih (start + member.2)
    rw [Nat.add_assoc] at hrest
    exact hrest

theorem map_toSlot_cells_place (start : Nat) (members : List (String × Nat)) :
    (cells (place start members) members).map Cell.toSlot = place start members := by
  induction members generalizing start with
  | nil => rfl
  | cons member rest ih => exact congrArg _ (ih (start + member.2))

theorem map_size_cells_place (start : Nat) (members : List (String × Nat)) :
    (cells (place start members) members).map (fun c => (c.name, c.size)) = members := by
  induction members generalizing start with
  | nil => rfl
  | cons member rest ih => exact congrArg _ (ih (start + member.2))

/-! ### The members of an object -/

namespace MemberSort

variable (sort : MemberSort) (t : SymbolTable) (c : ClassEntry)

theorem map_toSlot_ownCells : (sort.ownCells t c).map Cell.toSlot = sort.slots (.ofClass t c) := by
  rw [ownCells, sort.slots_ofClass, map_toSlot_cells_place]

theorem map_size_ownCells :
    (sort.ownCells t c).map (fun cell => (cell.name, cell.size)) = sort.sizes c := by
  rw [ownCells, sort.slots_ofClass, map_size_cells_place]

/-- The own members of a class fill the bytes behind those of the parent. -/
theorem fills_ownCells :
    Fills ((t.parentOf? c).elim 0 fun d => totalSize (sort.sizes d)) (sort.ownCells t c)
      ((t.parentOf? c).elim 0 (fun d => totalSize (sort.sizes d)) + totalSize (sort.sizes c)) := by
  rw [ownCells, sort.slots_ofClass]
  exact fills_place _ _

end MemberSort

section

variable {p : Program} {c d : ClassEntry}

/-- The parent that a class names is in the table, and has no parent. -/
theorem Program.Declarable.exists_parentOf? (hp : p.Declarable) (hc : c ∈ p.table.classes)
    {parent : String} (hparent : c.parent = some parent) :
    ∃ d ∈ p.table.classes, d.name = parent ∧ d.parent = none ∧ p.table.parentOf? c = some d := by
  obtain ⟨before, after, hclasses⟩ := List.append_of_mem hc
  obtain ⟨d, hd, hname, hnone⟩ := hp.parent_before hclasses hparent
  have hd : d ∈ p.table.classes := hclasses ▸ List.mem_append_left _ hd
  refine ⟨d, hd, hname, hnone, ?_⟩
  rw [SymbolTable.parentOf?, hparent, Option.bind_some]
  exact hp.get?_eq_some_iff.mpr ⟨hd, hname⟩

theorem Program.Declarable.parentOf?_eq_none (hp : p.Declarable) (hc : c ∈ p.table.classes)
    (hd : p.table.parentOf? c = some d) : p.table.parentOf? d = none := by
  obtain ⟨parent, hparent, -⟩ := Option.bind_eq_some_iff.mp hd
  obtain ⟨e, -, -, hnone, he⟩ := hp.exists_parentOf? hc hparent
  obtain rfl := Option.some.inj (hd.symm.trans he)
  rw [SymbolTable.parentOf?, hnone, Option.bind_none]

/-- The members that an object has fill the bytes from the first one on: the layout of the parent
starts there, because the parent has no parent, and ends where the layout of the class starts. -/
theorem Program.Declarable.fills_objectCells (hp : p.Declarable) (hc : c ∈ p.table.classes)
    (sort : MemberSort) :
    Fills 0 (sort.objectCells p.table c)
      ((p.table.parentOf? c).elim 0 (fun d => totalSize (sort.sizes d)) +
        totalSize (sort.sizes c)) := by
  have hown := sort.fills_ownCells p.table c
  rw [MemberSort.objectCells]
  cases hd : p.table.parentOf? c with
  | none =>
    rw [hd] at hown
    exact hown
  | some d =>
    have hinherited := sort.fills_ownCells p.table d
    rw [hp.parentOf?_eq_none hc hd, Option.elim_none, Nat.zero_add] at hinherited
    rw [hd] at hown
    exact hinherited.append hown

theorem Program.Declarable.tile (hp : p.Declarable) (hc : c ∈ p.table.classes)
    (sort : MemberSort) :
    sort.Tile p.table c ((p.table.parentOf? c).elim 0 (fun d => totalSize (sort.sizes d)) +
      totalSize (sort.sizes c)) where
  slots := by
    rw [MemberSort.objectCells, List.map_append, sort.map_toSlot_ownCells]
    cases p.table.parentOf? c with
    | none => rfl
    | some d => exact congrArg (· ++ _) (sort.map_toSlot_ownCells p.table d)
  members := by
    rw [MemberSort.objectCells, List.map_append, sort.map_size_ownCells]
    cases p.table.parentOf? c with
    | none => rfl
    | some d => exact congrArg (· ++ _) (sort.map_size_ownCells p.table d)
  tiling := (hp.fills_objectCells hc sort).tiling

end

/-- **Layouts tile the memory of objects.** In the table of a program the parent that a class names
is always found. The fields of the parent at their places in its layout, and behind them the fields
of the class at their places in its own layout, lie one directly behind the other; no byte belongs to
two of them, and together they take exactly as many bytes from the first one on as the fields of both
classes need. So do the methods. -/
theorem layouts_tile_objects {p : Program} {t : SymbolTable} (h : p.declare.result = .ok t)
    {c : ClassEntry} (hc : c ∈ t.classes) :
    (∀ parent, c.parent = some parent →
      ∃ d ∈ t.classes, d.name = parent ∧ d.parent = none ∧ t.parentOf? c = some d) ∧
    MemberSort.field.Tile t c
      ((t.parentOf? c).elim 0 ClassEntry.fieldsSize + c.fieldsSize) ∧
    MemberSort.method.Tile t c
      ((t.parentOf? c).elim 0 ClassEntry.methodsSize + c.methodsSize) := by
  obtain ⟨hp, rfl⟩ := Program.declarable_of_declare h
  exact ⟨fun _ => hp.exists_parentOf? hc, hp.tile hc .field, hp.tile hc .method⟩

/-- A program with fields of all sizes in a parent and its child:
`class M { … } class A { int a; boolean b; int[] c; public int f() { return 0; } }
class B extends A { boolean d; A e; public int g() { return 0; } }`. -/
def mixedFields : Program :=
  let name (x : String) : Ident := ⟨x, default⟩
  let method (x : String) : MethodDecl :=
    ⟨.int default, name x, [], [], [], .int default 0, default⟩
  { main := ⟨name "M", name "args", [], [], default⟩
    classes :=
      [⟨name "A", none,
        [⟨.int default, name "a", default⟩, ⟨.boolean default, name "b", default⟩,
          ⟨.intArray default, name "c", default⟩], [method "f"], default⟩,
       ⟨name "B", some (name "A"),
        [⟨.boolean default, name "d", default⟩, ⟨.named (name "A"), name "e", default⟩],
        [method "g"], default⟩] }

theorem layouts_tile_objects_mixedFields :
    mixedFields.declare.result = .ok mixedFields.table ∧
      ∃ c ∈ mixedFields.table.classes, c.name = "B" ∧
        MemberSort.field.objectCells mixedFields.table c =
          [⟨⟨"a", 0⟩, 4⟩, ⟨⟨"b", 4⟩, 1⟩, ⟨⟨"c", 5⟩, 8⟩, ⟨⟨"d", 13⟩, 1⟩, ⟨⟨"e", 14⟩, 8⟩] ∧
        MemberSort.field.Tile mixedFields.table c 22 ∧
        MemberSort.method.objectCells mixedFields.table c = [⟨⟨"f", 0⟩, 8⟩, ⟨⟨"g", 8⟩, 8⟩] ∧
        MemberSort.method.Tile mixedFields.table c 16 := by
  have hdeclare : mixedFields.declare.result = .ok mixedFields.table := rfl
  let c := (mixedFields.classes[1]).entry
  have hc : c ∈ mixedFields.table.classes := .tail _ (.tail _ (.head _))
  obtain ⟨-, hfields, hmethods⟩ := layouts_tile_objects hdeclare hc
  exact ⟨hdeclare, c, hc, rfl, rfl, hfields, rfl, hmethods⟩

end MiniJava
