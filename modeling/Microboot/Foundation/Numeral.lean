/-
  Foundation/Numeral.lean --- decimal numerals as strings.

  `textValue` reads a string as if each of its characters were a decimal digit,
  the most significant first; on a numeral that is its value.  Reading a string in
  two parts (`textValue_append`) is all that a client has to know of the sum.
-/
import Mathlib.Data.UInt
import Mathlib.Tactic.Positivity
import Mathlib.Tactic.Ring

set_option autoImplicit false

namespace Microboot.Foundation

/-- A character as a digit; signed, as `char` is. -/
def digitOf (c : UInt8) : Int := c.toInt8.toInt - 48

/-- The string read in base 10, behind `n`. -/
def textValueFrom (n : Int) (s : List UInt8) : Int := s.foldl (fun n c => 10 * n + digitOf c) n

/-- The string read in base 10. -/
def textValue (s : List UInt8) : Int := textValueFrom 0 s

/-- A decimal digit. -/
def IsDigit (c : UInt8) : Prop := 48 ≤ c.toNat ∧ c.toNat ≤ 57

instance (c : UInt8) : Decidable (IsDigit c) := inferInstanceAs (Decidable (_ ∧ _))

/-- A numeral is a non-empty string of digits. -/
def IsNumeral (s : List UInt8) : Prop := s ≠ [] ∧ ∀ c ∈ s, IsDigit c

instance (s : List UInt8) : Decidable (IsNumeral s) := inferInstanceAs (Decidable (_ ∧ _))

theorem textValueFrom_eq (n : Int) (s : List UInt8) :
    textValueFrom n s = n * 10 ^ s.length + textValue s := by
  induction s generalizing n with
  | nil => simp [textValue, textValueFrom]
  | cons c s ih =>
    have hcons : ∀ n, textValueFrom n (c :: s) = textValueFrom (10 * n + digitOf c) s := fun _ => rfl
    rw [textValue, hcons, hcons, ih, ih (10 * 0 + digitOf c), List.length_cons, pow_succ]
    ring

/-- A string in two parts. -/
theorem textValue_append (s t : List UInt8) :
    textValue (s ++ t) = textValue s * 10 ^ t.length + textValue t := by
  rw [← textValueFrom_eq]
  unfold textValue textValueFrom
  rw [List.foldl_append]

@[simp] theorem textValue_singleton (c : UInt8) : textValue [c] = digitOf c := by
  simp [textValue, textValueFrom]

theorem textValue_cons (c : UInt8) (s : List UInt8) :
    textValue (c :: s) = digitOf c * 10 ^ s.length + textValue s := by
  rw [← textValue_singleton, ← textValue_append]
  rfl

theorem digitOf_eq {c : UInt8} (h : c.toNat < 128) : digitOf c = (c.toNat : Int) - 48 := by
  have hc : c.toInt8.toInt = (c.toNat : Int) := by
    rw [← Int8.toInt_toBitVec, UInt8.toBitVec_toInt8, BitVec.toInt_eq_toNat_of_lt]
    · rfl
    · simpa using by omega
  rw [digitOf, hc]

theorem IsDigit.digitOf_nonneg {c : UInt8} (h : IsDigit c) : 0 ≤ digitOf c := by
  obtain ⟨hge, hle⟩ := h
  rw [digitOf_eq (by omega)]
  omega

/-- The value of a string of digits is not negative. -/
theorem textValue_nonneg {s : List UInt8} (h : ∀ c ∈ s, IsDigit c) : 0 ≤ textValue s := by
  induction s with
  | nil => exact Int.le_refl 0
  | cons c s ih =>
    rw [textValue_cons]
    have hc := (h c List.mem_cons_self).digitOf_nonneg
    have hs := ih fun d hd => h d (List.mem_cons_of_mem c hd)
    positivity

theorem IsNumeral.textValue_nonneg {s : List UInt8} (h : IsNumeral s) : 0 ≤ textValue s :=
  Foundation.textValue_nonneg h.2

end Microboot.Foundation
