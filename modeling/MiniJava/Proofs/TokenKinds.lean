import Mathlib.Data.List.Induction
import MiniJava.Program.Grammar
import MiniJava.Program.Printer

/-!
# Kinds of tokens

* A run of digits is some zeros before the digits of the number that it denotes, so taking off the
  leading zeros of a literal (`Token.Kind.canonical`) undoes writing it (`Token.Kind.Writes`).
* `Token.Kind.Lexical` says what reading a text makes sure of: identifiers are words that are not
  reserved, and integer literals are runs of digits.
-/

namespace MiniJava

/-! ### Digits -/

namespace Digits

theorem value_eq_ofDigitChars (digits : List Char) :
    value digits = Nat.ofDigitChars 10 digits 0 :=
  Nat.ofDigitChars_eq_foldl.symm

@[simp] theorem value_toDigits (n : Nat) : value (Nat.toDigits 10 n) = n := by
  rw [value_eq_ofDigitChars, Nat.ofDigitChars_ten_toDigits]

@[simp] theorem value_replicate_zero_append (zeros : Nat) (digits : List Char) :
    value (List.replicate zeros '0' ++ digits) = value digits := by
  induction zeros with
  | zero => rfl
  | succ zeros ih => rw [List.replicate_succ, List.cons_append, value_zero_cons, ih]

theorem isRun_replicate_zero_append (zeros n : Nat) :
    isRun (List.replicate zeros '0' ++ Nat.toDigits 10 n) = true := by
  rw [isRun_iff]
  refine ⟨List.append_ne_nil_of_right_ne_nil _ Nat.toDigits_ne_nil, fun d hd => ?_⟩
  rcases List.mem_append.mp hd with hd | hd
  · rw [List.eq_of_mem_replicate hd]
    rfl
  · exact Nat.isDigit_of_mem_toDigits (by decide : 0 < 10) (by decide) hd

theorem isRun_toDigits (n : Nat) : isRun (Nat.toDigits 10 n) = true :=
  isRun_replicate_zero_append 0 n

theorem toDigits_digit {d : Char} (h : d.isDigit) :
    d.toNat - '0'.toNat < 10 ∧ Nat.toDigits 10 (d.toNat - '0'.toNat) = [d] := by
  obtain ⟨hle, hge⟩ := Char.isDigit_iff_toNat.mp h
  change 48 ≤ d.toNat at hle
  change d.toNat ≤ 57 at hge
  change d.toNat - 48 < 10 ∧ Nat.toDigits 10 (d.toNat - 48) = [d]
  have hlt : d.toNat - 48 < 10 := by omega
  refine ⟨hlt, ?_⟩
  rw [Nat.toDigits_of_lt_base hlt, List.singleton_inj, ← Char.toNat_inj,
    Nat.toNat_digitChar_of_lt_ten hlt]
  omega

/-- A run of digits is some zeros before the digits of the number that it denotes. -/
theorem exists_eq_zeros_append {digits : List Char} (hne : digits ≠ [])
    (h : ∀ d ∈ digits, d.isDigit) :
    ∃ zeros, digits = List.replicate zeros '0' ++ Nat.toDigits 10 (value digits) := by
  induction digits using List.reverseRecOn with
  | nil => contradiction
  | append_singleton digits d ih =>
    obtain ⟨hlt, hd⟩ := toDigits_digit (h d (by simp))
    rw [value_append_singleton, push]
    by_cases hnil : digits = []
    · subst hnil
      exact ⟨0, by rw [value_nil, Nat.mul_zero, Nat.zero_add, hd]; rfl⟩
    obtain ⟨zeros, hz⟩ := ih hnil fun c hc => h c (by simp [hc])
    by_cases hv : value digits = 0
    · -- only zeros so far, and one more of them in front of the last digit
      refine ⟨zeros + 1, ?_⟩
      rw [hv, Nat.toDigits_zero, ← List.replicate_succ'] at hz
      rw [hv, Nat.mul_zero, Nat.zero_add, hd, ← hz]
    · refine ⟨zeros, ?_⟩
      rw [← Nat.toDigits_append_toDigits (by decide) (Nat.pos_of_ne_zero hv) hlt, hd,
        ← List.append_assoc, ← hz]

end Digits

/-! ### Leading zeros -/

namespace Token.Kind

/-- What reading a text makes sure of about the kind of a token. -/
def Lexical : Kind → Prop
  | ident name => isIdentName name = true
  | intLit digits => digits.toList ≠ [] ∧ ∀ d ∈ digits.toList, d.isDigit
  | _ => True

/-- Taking off the leading zeros undoes writing them. -/
theorem Writes.canonical_eq {written k : Kind} (h : written.Writes k) : written.canonical = k := by
  cases h with
  | intLit zeros value => simp [canonical, Digits.isRun_replicate_zero_append]
  | _ => rfl

/-- A kind that was read from a text is a way to write the kind without leading zeros. -/
theorem Lexical.writes_canonical {k : Kind} (h : k.Lexical) : k.Writes k.canonical := by
  cases k with
  | intLit digits =>
    obtain ⟨zeros, hz⟩ := Digits.exists_eq_zeros_append h.1 h.2
    have hw := Writes.intLit zeros (Digits.value digits.toList)
    rw [← hz, String.ofList_toList] at hw
    rwa [canonical, if_pos (Digits.isRun_iff.mpr h)]
  | keyword word => exact .keyword word
  | ident name => exact .ident name
  | symbol sign => exact .symbol sign
  | eof => exact .eof
  | unknown char => exact .unknown char

theorem lexical_ofWord {c : Char} {cs : List Char} (hc : isWordStart c)
    (hcs : cs.all isWordPart) : (ofWord (String.ofList (c :: cs))).Lexical := by
  unfold ofWord
  cases hk : Keyword.ofText? (String.ofList (c :: cs)) with
  | some k => trivial
  | none =>
    show isIdentName (String.ofList (c :: cs)) = true
    simp only [isIdentName, String.toList_ofList, hk, hc, hcs, Option.isNone_none, Bool.and_self]

end Token.Kind

end MiniJava
