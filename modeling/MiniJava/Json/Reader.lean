import MiniJava.Json.Token

/-!
# Reading JSON

`Json.parse?` reads a text that is one value and nothing else. `Json.record?` and the functions
behind it take values apart.
-/

namespace MiniJava.Json

/-- A value that was read, and the tokens behind it, which are fewer than `bound`. -/
structure Read (α : Type) (bound : Nat) where
  value : α
  rest : List Token
  lt : rest.length < bound

/-- An object, if each of its keys is a text. -/
def ofFields (fields : List (Option String × Json)) : Json :=
  match fields.mapM fun (key, value) => key.map (·, value) with
  | some fields => obj fields
  | none => other

mutual

/-- Reads a value. -/
def value (ts : List Token) : Option (Read Json ts.length) :=
  match ts with
  | .null :: rest => some ⟨null, rest, Nat.lt_add_one _⟩
  | .bool b :: rest => some ⟨bool b, rest, Nat.lt_add_one _⟩
  | .num n :: rest => some ⟨n.elim other num, rest, Nat.lt_add_one _⟩
  | .str s :: rest => some ⟨s.elim other str, rest, Nat.lt_add_one _⟩
  | .lbracket :: .rbracket :: rest => some ⟨arr [], rest, Nat.lt_add_of_pos_right Nat.two_pos⟩
  | .lbracket :: rest => do
    let ⟨values, rest', h⟩ ← items rest
    return ⟨arr values, rest', Nat.lt_succ_of_lt h⟩
  | .lbrace :: .rbrace :: rest => some ⟨obj [], rest, Nat.lt_add_of_pos_right Nat.two_pos⟩
  | .lbrace :: rest => do
    let ⟨values, rest', h⟩ ← fields rest
    return ⟨ofFields values, rest', Nat.lt_succ_of_lt h⟩
  | _ => none
termination_by (ts.length, 0)

/-- Reads at least one item, and the bracket that closes the list. -/
def items (ts : List Token) : Option (Read (List Json) ts.length) := do
  match ← value ts with
  | ⟨first, .comma :: rest, h⟩ =>
    have h : rest.length < ts.length := Nat.lt_of_succ_lt h
    let ⟨more, rest', h'⟩ ← items rest
    return ⟨first :: more, rest', Nat.lt_trans h' h⟩
  | ⟨first, .rbracket :: rest, h⟩ => return ⟨[first], rest, Nat.lt_of_succ_lt h⟩
  | _ => none
termination_by (ts.length, 1)

/-- Reads at least one field, and the brace that closes the object. -/
def fields (ts : List Token) : Option (Read (List (Option String × Json)) ts.length) :=
  match ts with
  | .str key :: .colon :: ts => do
    match ← value ts with
    | ⟨first, .comma :: rest, h⟩ =>
      have h : rest.length < ts.length + 2 := by
        simp only [List.length_cons] at h
        omega
      let ⟨more, rest', h'⟩ ← fields rest
      return ⟨(key, first) :: more, rest', Nat.lt_trans h' h⟩
    | ⟨first, .rbrace :: rest, h⟩ =>
      return ⟨[(key, first)], rest, Nat.lt_add_right 2 (Nat.lt_of_succ_lt h)⟩
    | _ => none
  | _ => none
termination_by (ts.length, 1)

end

/-- Reads a text that is one value, with nothing but blanks around it. -/
def parse? (text : String) : Option Json := do
  let ts ← Token.read text.toList
  let ⟨j, rest, _⟩ ← value ts
  if rest.isEmpty then some j else none

/-! ### Taking values apart -/

/-- The value of a text. -/
def string? : Json → Option String
  | str s => some s
  | _ => none

/-- The value of a truth value. -/
def bool? : Json → Option Bool
  | bool b => some b
  | _ => none

/-- A natural number below `bound`. -/
def natBelow? (bound : Nat) : Json → Option Nat
  | num n => if n < bound then some n else none
  | _ => none

/-- Each item of a list, taken apart by `f`. -/
def list? {α : Type} (f : Json → Option α) : Json → Option (List α)
  | arr items => items.mapM f
  | _ => none

/-- Null, or a value that `f` takes apart. -/
def option? {α : Type} (f : Json → Option α) : Json → Option (Option α)
  | null => some none
  | j => (f j).map some

/-- A field of a record; one that may be absent counts as null where it is. -/
structure Field where
  name : String
  optional : Bool
deriving DecidableEq

/-- The one value of a field; a field that is given twice has none. -/
def Field.value? (f : Field) (fields : List (String × Json)) : Option Json :=
  match fields.filter (·.1 == f.name) with
  | [] => if f.optional then some null else none
  | [(_, value)] => some value
  | _ => none

/-- The values of a record, in the order of `layout`. A record is an object, whose fields come in
any order among others that do not matter, or the list of exactly its values. -/
def record? (layout : List Field) : Json → Option (List Json)
  | obj fields => layout.mapM (·.value? fields)
  | arr items => if items.length = layout.length then some items else none
  | _ => none

end MiniJava.Json
