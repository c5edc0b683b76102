/-!
# Decimal digits

`Digits.isRun` tells a run of decimal digits, and `Digits.value` is the number that it denotes.
-/

namespace MiniJava.Digits

/-- The number that one more digit makes of `n`. -/
def push (n : Nat) (d : Char) : Nat :=
  10 * n + (d.toNat - '0'.toNat)

/-- The number that a run of decimal digits denotes; leading zeros do not matter. -/
def value (digits : List Char) : Nat :=
  digits.foldl push 0

/-- Whether the characters are a run of decimal digits. -/
def isRun (digits : List Char) : Bool :=
  !digits.isEmpty && digits.all Char.isDigit

theorem isRun_iff {digits : List Char} :
    isRun digits = true ↔ digits ≠ [] ∧ ∀ d ∈ digits, d.isDigit = true := by
  simp [isRun]

@[simp] theorem value_nil : value [] = 0 := rfl

@[simp] theorem value_zero_cons (digits : List Char) : value ('0' :: digits) = value digits := rfl

theorem value_append_singleton (digits : List Char) (d : Char) :
    value (digits ++ [d]) = push (value digits) d := by
  simp [value]

end MiniJava.Digits
