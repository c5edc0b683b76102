/-!
# JSON values

`Json` holds what a report needs of JSON. A well-formed value that stands for nothing a report can
hold is `other`; `Json.Plain` is a value without one.
-/

namespace MiniJava

/-- A JSON value; the fields of an object keep their order. -/
inductive Json
  | null
  | bool (value : Bool)
  | num (value : Nat)
  | str (value : String)
  | arr (items : List Json)
  | obj (fields : List (String × Json))
  /-- A number that is not a plain natural number, a string with half of a surrogate pair, or an
  object with such a string for a key. -/
  | other

namespace Json

mutual

/-- The value holds only what JSON can say. -/
def Plain : Json → Prop
  | arr items => AllPlain items
  | obj fields => FieldsPlain fields
  | other => False
  | _ => True

/-- All items hold only what JSON can say. -/
def AllPlain : List Json → Prop
  | [] => True
  | item :: items => Plain item ∧ AllPlain items

/-- The values of all fields hold only what JSON can say. -/
def FieldsPlain : List (String × Json) → Prop
  | [] => True
  | (_, value) :: fields => Plain value ∧ FieldsPlain fields

end

mutual

/-- Whether a value is plain is decided from the inside. -/
def decidePlain : ∀ j : Json, Decidable j.Plain
  | arr items => decideAllPlain items
  | obj fields => decideFieldsPlain fields
  | other => .isFalse id
  | null | bool _ | num _ | str _ => .isTrue trivial

def decideAllPlain : ∀ items : List Json, Decidable (AllPlain items)
  | [] => .isTrue trivial
  | item :: items => @instDecidableAnd _ _ (decidePlain item) (decideAllPlain items)

def decideFieldsPlain : ∀ fields : List (String × Json), Decidable (FieldsPlain fields)
  | [] => .isTrue trivial
  | (_, value) :: fields => @instDecidableAnd _ _ (decidePlain value) (decideFieldsPlain fields)

end

instance : DecidablePred Plain := decidePlain

end Json

end MiniJava
