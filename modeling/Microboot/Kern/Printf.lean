/-
  Kern/Printf.lean --- `%d`, kern/printf.c.

  `_ntoa_long` makes the digits from the last to the first in a buffer of 32 and
  `_out_rev` puts them out in reverse, behind the sign.
-/
import Microboot.Foundation.Numeral

set_option autoImplicit false

namespace Microboot.Kern

open Microboot.Foundation

/-- `PRINTF_NTOA_BUFFER_SIZE` -/
def ntoaBufferSize : Nat := 32

/-- The digits that `_ntoa_long` makes, where there is room for `room` of them. -/
def ntoaDigits : (room value : Nat) → List UInt8
  | 0, _ => []
  | room + 1, value =>
    UInt8.ofNat (48 + value % 10) ::
      if value / 10 = 0 then [] else ntoaDigits room (value / 10)

/-- What `%d` puts out for an `int`. -/
def formatInt (value : Int) : List UInt8 :=
  (ntoaDigits ntoaBufferSize value.natAbs ++ if value < 0 then [45] else []).reverse

section Digits

variable {room value : Nat}

theorem isDigit_ofNat (value : Nat) : IsDigit (UInt8.ofNat (48 + value % 10)) := by
  have hlt := Nat.mod_lt value (show 10 > 0 by decide)
  have htoNat : (UInt8.ofNat (48 + value % 10)).toNat = 48 + value % 10 :=
    UInt8.toNat_ofNat_of_lt' (by change 48 + value % 10 < 256; omega)
  unfold IsDigit
  rw [htoNat]
  omega

theorem digitOf_ofNat (value : Nat) :
    digitOf (UInt8.ofNat (48 + value % 10)) = ((value % 10 : Nat) : Int) := by
  have hlt := Nat.mod_lt value (show 10 > 0 by decide)
  have htoNat : (UInt8.ofNat (48 + value % 10)).toNat = 48 + value % 10 :=
    UInt8.toNat_ofNat_of_lt' (by change 48 + value % 10 < 256; omega)
  rw [digitOf_eq (by omega), htoNat]
  omega

theorem ntoaDigits_isDigit : ∀ c ∈ ntoaDigits room value, IsDigit c := by
  induction room generalizing value with
  | zero => simp [ntoaDigits]
  | succ room ih =>
    intro c hc
    rw [ntoaDigits, List.mem_cons] at hc
    rcases hc with rfl | hc
    · exact isDigit_ofNat value
    · split at hc
      · simp at hc
      · exact ih c hc

/-- With enough room the digits are those of the value. -/
theorem textValue_ntoaDigits (h : value < 10 ^ room) :
    textValue (ntoaDigits room value).reverse = value := by
  induction room generalizing value with
  | zero =>
    have hzero : value = 0 := by omega
    subst hzero
    rfl
  | succ room ih =>
    rw [ntoaDigits, List.reverse_cons, textValue_append, textValue_singleton, digitOf_ofNat]
    split
    · simp [textValue, textValueFrom]
      omega
    · rw [ih (by rw [Nat.div_lt_iff_lt_mul (by decide), ← pow_succ]; exact h)]
      simp
      omega

theorem length_ntoaDigits_le {k : Nat} (h : value < 10 ^ (k + 1)) :
    (ntoaDigits room value).length ≤ k + 1 := by
  induction room generalizing value k with
  | zero => simp [ntoaDigits]
  | succ room ih =>
    rw [ntoaDigits, List.length_cons]
    split
    · simp
    · cases k with
      | zero => omega
      | succ k =>
        have hdiv : value / 10 < 10 ^ (k + 1) := by
          rw [Nat.div_lt_iff_lt_mul (by decide), ← pow_succ]
          exact h
        have := ih hdiv
        omega

end Digits

/-- A number is put out as a numeral of its value. -/
theorem isNumeral_formatInt (n : Nat) : IsNumeral (formatInt n) := by
  have hsign : ¬ ((n : Int) < 0) := by omega
  unfold formatInt
  rw [if_neg hsign, List.append_nil]
  refine ⟨?_, fun c hc => ntoaDigits_isDigit c (List.mem_reverse.mp hc)⟩
  unfold ntoaBufferSize
  rw [ntoaDigits]
  simp

theorem textValue_formatInt {n : Nat} (h : n < 10 ^ 32) : textValue (formatInt n) = n := by
  have hsign : ¬ ((n : Int) < 0) := by omega
  unfold formatInt
  rw [if_neg hsign, List.append_nil]
  exact textValue_ntoaDigits h

/-- A number below `10 ^ (k + 1)` has `k + 1` digits at most. -/
theorem length_formatInt_le {n k : Nat} (h : n < 10 ^ (k + 1)) : (formatInt n).length ≤ k + 1 := by
  have hsign : ¬ ((n : Int) < 0) := by omega
  unfold formatInt
  rw [if_neg hsign, List.append_nil, List.length_reverse]
  exact length_ntoaDigits_le h

end Microboot.Kern
