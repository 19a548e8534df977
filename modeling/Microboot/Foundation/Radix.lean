/-
  Foundation/Radix.lean --- numerals in any base, and their saturated value.

  A digit of a base up to 36 is a decimal digit or a letter.  `radixValue` is the
  number that a list of digits stands for, the most significant one first.

  An accumulator of bounded size has that number as long as it is within its limit,
  and from then on only knows that it is not.  `saturatedStep` is how it takes one
  more digit, deciding on the limit before anything is multiplied.
-/
import Mathlib.Data.Nat.Digits.Defs
import Mathlib.Data.UInt

set_option autoImplicit false

namespace Microboot.Foundation

/-- The value of a digit: `0` to `9`, and then the letters of either case. -/
def digitValue (c : UInt8) : Option Nat :=
  if 48 ≤ c ∧ c ≤ 57 then some (c.toNat - 48)
  else if 65 ≤ c ∧ c ≤ 90 then some (c.toNat - 55)
  else if 97 ≤ c ∧ c ≤ 122 then some (c.toNat - 87)
  else none

/-- A digit of a base. -/
def validDigit (base : Nat) (c : UInt8) : Bool := (digitValue c).any (· < base)

/-- The number that a list of digits stands for. -/
def radixValue (base : Nat) (s : List UInt8) : Nat :=
  Nat.ofDigits base (s.filterMap digitValue).reverse

@[simp] theorem radixValue_nil (base : Nat) : radixValue base [] = 0 := rfl

/-- One more digit. -/
theorem radixValue_concat {base d : Nat} {s : List UInt8} {c : UInt8}
    (hc : digitValue c = some d) : radixValue base (s ++ [c]) = radixValue base s * base + d := by
  unfold radixValue
  rw [List.filterMap_append, List.filterMap_cons_some hc, List.filterMap_nil, List.reverse_append,
    List.reverse_singleton, List.singleton_append, Nat.ofDigits_cons, Nat.mul_comm, Nat.add_comm]

/-- A number is below the power of the base that its digits allow. -/
theorem radixValue_lt {base : Nat} (hbase : 1 < base) {s : List UInt8}
    (hs : ∀ c ∈ s, validDigit base c = true) : radixValue base s < base ^ s.length := by
  have hdigits : ∀ d ∈ (s.filterMap digitValue).reverse, d < base := by
    intro d hd
    obtain ⟨c, hc, heq⟩ := List.mem_filterMap.mp (List.mem_reverse.mp hd)
    have hvalid := hs c hc
    rw [validDigit, heq] at hvalid
    exact of_decide_eq_true hvalid
  have hlen : (s.filterMap digitValue).reverse.length ≤ s.length := by
    rw [List.length_reverse]
    exact List.length_filterMap_le _ _
  exact (Nat.ofDigits_lt_base_pow_length hbase hdigits).trans_le
    (Nat.pow_le_pow_right (Nat.zero_lt_of_lt hbase) hlen)

/-- The number with one more digit is over the limit: `limit / base` and
`limit % base` decide on it. -/
theorem lt_mul_add_iff {limit base a d : Nat} (hd : d < base) :
    limit < a * base + d ↔ limit / base < a ∨ a = limit / base ∧ limit % base < d := by
  have hlimit := Nat.div_add_mod limit base
  have hmod := Nat.mod_lt limit (Nat.zero_lt_of_lt hd)
  rcases Nat.lt_trichotomy a (limit / base) with hlt | heq | hgt
  · have hle : (a + 1) * base ≤ base * (limit / base) := by
      rw [Nat.mul_comm]
      exact Nat.mul_le_mul_left base hlt
    rw [Nat.add_mul, Nat.one_mul] at hle
    omega
  · rw [heq, Nat.mul_comm]
    omega
  · have hle : base * (limit / base + 1) ≤ a * base := by
      rw [Nat.mul_comm a]
      exact Nat.mul_le_mul_left base hgt
    rw [Nat.mul_add, Nat.mul_one] at hle
    omega

/-- A number within the limit. -/
def saturate (limit v : Nat) : Option Nat := if v ≤ limit then some v else none

/-- One more digit for an accumulator. -/
def saturatedStep (limit base : Nat) (acc : Option Nat) (d : Nat) : Option Nat :=
  acc.bind fun a =>
    if limit / base < a ∨ a = limit / base ∧ limit % base < d then none else some (a * base + d)

/-- The accumulator has the saturated value of what has been read. -/
theorem saturatedStep_radixValue {limit base d : Nat} {s : List UInt8} {c : UInt8}
    (hc : digitValue c = some d) (hd : d < base) :
    saturatedStep limit base (saturate limit (radixValue base s)) d =
      saturate limit (radixValue base (s ++ [c])) := by
  rw [radixValue_concat hc]
  have hbase : radixValue base s ≤ radixValue base s * base :=
    Nat.le_mul_of_pos_right _ (Nat.zero_lt_of_lt hd)
  unfold saturatedStep saturate
  by_cases hwithin : radixValue base s ≤ limit
  · rw [if_pos hwithin, Option.bind_some]
    by_cases hover : limit < radixValue base s * base + d
    · rw [if_pos ((lt_mul_add_iff hd).mp hover), if_neg (Nat.not_le.mpr hover)]
    · rw [if_neg (mt (lt_mul_add_iff hd).mpr hover), if_pos (Nat.not_lt.mp hover)]
  · rw [if_neg hwithin, Option.bind_none, if_neg (by omega)]

end Microboot.Foundation
