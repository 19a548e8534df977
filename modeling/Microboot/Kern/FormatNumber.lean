/-
  Kern/FormatNumber.lean --- the numbers that are printed, kern/printf.c.

  The digits of a number lie in a buffer of 32 characters, the last digit first, and
  zeros, the hash and the sign are put behind them as long as there is room.  A 32-bit
  number always fits; what is lost, when the zeros fill the buffer, is the sign.

  `strtoul` reads a printed number back.  With the hash it does so unless the width
  is that of the digits: then the hash takes digits away and not zeros.
-/
import Microboot.Kern.FormatSinks
import Microboot.Kern.Strtoul

set_option autoImplicit false

namespace Microboot.Kern.Printf

open Microboot.Foundation

/-! ## Digits -/

/-- The numeral of a number. -/
def digitsText (flags : Flags) (base value : Nat) : List UInt8 :=
  if value = 0 then [48] else ((Nat.digits base value).map (ntoaDigit flags)).reverse

section Digits

variable {flags : Flags} {base value room : Nat} {buf : NtoaBuf}

/-- `_ntoa_long` leaves the digits in the buffer, the last one first. -/
theorem chars_ntoaLoop (hbase : 2 ≤ base) (hroom : 0 < room) (hvalue : value < base ^ room)
    (h : buf.len + room = ntoaBufferSize) :
    (ntoaLoop flags base room value buf h).chars =
      buf.chars ++ (digitsText flags base value).reverse := by
  induction room generalizing value buf with
  | zero => exact absurd hroom (Nat.lt_irrefl 0)
  | succ room ih =>
    rw [ntoaLoop]
    split
    · rename_i hdiv
      -- the last digit
      have hlt : value < base := (Nat.div_eq_zero_iff_lt (by omega)).mp hdiv
      rw [Nat.mod_eq_of_lt hlt]
      unfold digitsText
      split
      · rename_i hzero
        rw [hzero]
        rfl
      · rename_i hpos
        rw [Nat.digits_of_lt base value hpos hlt]
        rfl
    · rename_i hdiv
      have hpos : 0 < value := Nat.pos_of_ne_zero fun h => hdiv (by rw [h, Nat.zero_div])
      have hsmall : value / base < base ^ room := by
        rw [Nat.div_lt_iff_lt_mul (by omega), ← Nat.pow_succ]
        exact hvalue
      have hroom : 0 < room := Nat.pos_of_ne_zero fun h => by
        rw [h, Nat.pow_zero] at hsmall
        exact hdiv (Nat.lt_one_iff.mp hsmall)
      rw [ih hroom hsmall]
      unfold digitsText
      rw [if_neg hdiv, if_neg hpos.ne', Nat.digits_def' (by omega) hpos, List.map_cons,
        List.reverse_reverse, List.reverse_reverse]
      exact List.append_assoc _ [_] _

theorem length_digitsText_pos : 0 < (digitsText flags base value).length := by
  unfold digitsText
  split
  · exact Nat.one_pos
  · rename_i hpos
    rw [List.length_reverse, List.length_map]
    exact List.length_pos_iff.mpr (mt Nat.digits_eq_nil_iff_eq_zero.mp hpos)

theorem length_digitsText_le (hbase : 2 ≤ base) (hvalue : value < base ^ room) (hroom : 0 < room) :
    (digitsText flags base value).length ≤ room := by
  unfold digitsText
  split
  · exact hroom
  · rw [List.length_reverse, List.length_map, Nat.digits_length_le_iff hbase]
    exact hvalue

end Digits

/-! ## Layout -/

/-- The sign of a number, or what stands for it. -/
def signOf (negative : Bool) (flags : Flags) : List UInt8 :=
  if negative then [45] else if flags.plus then [43] else if flags.space then [32] else []

/-- The digits that are printed: none for a zero with a precision. -/
def shownDigits (flags : Flags) (base value : Nat) : List UInt8 :=
  if flags.precision ∧ value = 0 then [] else digitsText flags base value

/-- The number of leading zeros, for `digits` digits and a sign of length `sign`. -/
def leadingZeros (flags : Flags) (prec width sign digits : Nat) : Nat :=
  if flags.left then 0
  else min ntoaBufferSize (max prec (if flags.zeropad then width - sign else 0)) - digits

/-- The sign, the zeros and the digits; the sign only where there is room for it. -/
def numberBody (flags : Flags) (negative : Bool) (base prec width value : Nat) : List UInt8 :=
  let sign := signOf negative flags
  let digits := shownDigits flags base value
  let zeros := leadingZeros flags prec width sign.length digits.length
  (if digits.length + zeros < ntoaBufferSize then sign else []) ++
    (List.replicate zeros 48 ++ digits)

section Layout

variable {flags : Flags} {negative : Bool} {base prec width value : Nat} {buf : NtoaBuf}

theorem chars_pushIf {c : UInt8} :
    (buf.pushIf c).chars = buf.chars ++ if buf.chars.length < ntoaBufferSize then [c] else [] := by
  unfold NtoaBuf.pushIf NtoaBuf.len
  split
  · rfl
  · rw [List.append_nil]

theorem chars_ntoaSign : (ntoaSign buf negative flags).chars =
    buf.chars ++ if buf.chars.length < ntoaBufferSize then signOf negative flags else [] := by
  unfold ntoaSign signOf
  split
  · exact chars_pushIf
  · split
    · exact chars_pushIf
    · split
      · exact chars_pushIf
      · simp

theorem chars_padTo {n : Nat} : (buf.padTo n).chars =
    buf.chars ++ List.replicate (min n ntoaBufferSize - buf.chars.length) 48 := rfl

theorem length_signOf : (signOf negative flags).length =
    if negative ∨ flags.plus ∨ flags.space then 1 else 0 := by
  unfold signOf
  cases negative <;> cases flags.plus <;> cases flags.space <;> rfl

theorem reverse_signOf : (signOf negative flags).reverse = signOf negative flags := by
  unfold signOf
  cases negative <;> cases flags.plus <;> cases flags.space <;> rfl

/-- Padding twice is padding to the greater of the two. -/
theorem padding_add {len prec width size : Nat} (h : len ≤ size) :
    min prec size - len + (min width size - (len + (min prec size - len))) =
      min size (max prec width) - len := by
  omega

theorem chars_ntoaPad : (ntoaPad buf negative prec width flags).1.chars = buf.chars ++
    List.replicate (leadingZeros flags prec width (signOf negative flags).length
      buf.chars.length) 48 := by
  have hle := buf.fits
  unfold ntoaPad leadingZeros
  rw [length_signOf]
  cases hleft : flags.left with
  | true => simp
  | false =>
    simp only [Bool.false_eq_true, if_false]
    cases hzero : flags.zeropad with
    | false =>
      simp only [Bool.false_eq_true, if_false, chars_padTo, Nat.max_zero]
      rw [Nat.min_comm]
    | true =>
      simp only [if_true, chars_padTo, List.append_assoc, ← List.replicate_add, List.length_append,
        List.length_replicate, true_and]
      have hwidth :
          (if width ≠ 0 ∧ (negative ∨ flags.plus ∨ flags.space) then width - 1 else width) =
          width - if negative ∨ flags.plus ∨ flags.space then 1 else 0 := by
        by_cases hsign : negative ∨ flags.plus ∨ flags.space
        · rw [if_pos hsign]
          by_cases hzero : width = 0 <;> simp [hsign, hzero]
        · rw [if_neg hsign, if_neg fun h => hsign h.2]
          rfl
      rw [hwidth, padding_add hle]

theorem ntoaPad_width (h : ¬(flags.zeropad ∧ ¬flags.left)) :
    (ntoaPad buf negative prec width flags).2 = width := by
  unfold ntoaPad
  cases hleft : flags.left with
  | true => rfl
  | false =>
    have hzero : flags.zeropad = false := by simpa [hleft] using h
    simp [hzero]

/-- The text of a number without the hash. -/
theorem ntoaText_eq (hhash : flags.hash = false) (hbase : 2 ≤ base)
    (hvalue : value < base ^ ntoaBufferSize) :
    ntoaText value negative base prec width flags =
      if flags.zeropad ∧ ¬flags.left then numberBody flags negative base prec width value
      else padded flags.left width (numberBody flags negative base prec width value) := by
  have hflags : (if value = 0 then { flags with hash := false } else flags) = flags := by
    split
    · rw [← hhash]
    · rfl
  have hdigits : (if ¬flags.precision ∨ value ≠ 0 then
      ntoaLoop flags base ntoaBufferSize value .empty (Nat.zero_add _) else .empty).chars =
      (shownDigits flags base value).reverse := by
    unfold shownDigits
    by_cases h : flags.precision ∧ value = 0
    · rw [if_pos h, if_neg (by simpa using h)]
      rfl
    · rw [if_neg h, if_pos (by simpa [or_iff_not_imp_left] using h)]
      exact (chars_ntoaLoop hbase (by decide) hvalue _).trans (List.nil_append _)
  unfold ntoaText
  dsimp only
  rw [hflags]
  generalize hbuf : (if ¬flags.precision ∨ value ≠ 0 then
    ntoaLoop flags base ntoaBufferSize value .empty (Nat.zero_add _) else .empty) = buf at hdigits
  have hlen : buf.chars.length = (shownDigits flags base value).length := by
    rw [hdigits, List.length_reverse]
  have hbody : (ntoaSign (ntoaHash (ntoaPad buf negative prec width flags).1 base prec
      (ntoaPad buf negative prec width flags).2 flags) negative flags).chars.reverse =
      numberBody flags negative base prec width value := by
    unfold ntoaHash numberBody
    rw [hhash, if_neg (by decide), chars_ntoaSign, chars_ntoaPad, hlen, hdigits]
    dsimp only
    rw [List.length_append, List.length_reverse, List.length_replicate, List.reverse_append,
      List.reverse_append, List.reverse_reverse, List.reverse_replicate]
    congr 1
    split
    · exact reverse_signOf
    · rfl
  unfold ntoaFormatText revText
  dsimp only
  rw [hbody]
  split
  · rfl
  · rename_i h
    rw [ntoaPad_width h]

end Layout

/-! ## The hash -/

/-- The zeros and digits with the hash: where they are as long as the precision or the
width, it takes the place of the first of them. -/
def hashed (flags : Flags) (base prec width : Nat) (t : List UInt8) : List UInt8 :=
  let t :=
    if flags.precision = false ∧ (t.length = prec ∨ t.length = width) then
      t.drop (if base = 16 then 2 else 1)
    else t
  let letter :=
    if base = 16 then [if flags.uppercase then 88 else 120] else if base = 2 then [98] else []
  let t := (if t.length < ntoaBufferSize then letter else []) ++ t
  (if t.length < ntoaBufferSize then [48] else []) ++ t

section Hash

variable {flags : Flags} {base prec width value : Nat} {buf : NtoaBuf}

theorem reverse_pop : buf.pop.chars.reverse = buf.chars.reverse.drop 1 := by
  rw [List.drop_one, List.tail_reverse]
  rfl

/-- The characters that the hash takes the place of. -/
theorem reverse_strip :
    (if ¬flags.precision ∧ buf.len ≠ 0 ∧ (buf.len = prec ∨ buf.len = width) then
      if buf.pop.len ≠ 0 ∧ base = 16 then buf.pop.pop else buf.pop
    else buf).chars.reverse =
      if flags.precision = false ∧
          (buf.chars.reverse.length = prec ∨ buf.chars.reverse.length = width) then
        buf.chars.reverse.drop (if base = 16 then 2 else 1)
      else buf.chars.reverse := by
  have hlen : buf.chars.reverse.length = buf.len := List.length_reverse
  have hpop : buf.pop.len = buf.len - 1 := List.length_dropLast
  rw [hlen, hpop]
  by_cases hstrip : flags.precision = false ∧ (buf.len = prec ∨ buf.len = width)
  · rw [if_pos hstrip]
    by_cases hzero : buf.len = 0
    · have hnil : buf.chars = [] := List.length_eq_zero_iff.mp hzero
      rw [if_neg fun h => h.2.1 hzero, hnil, List.reverse_nil, List.drop_nil]
    · rw [if_pos ⟨by simp [hstrip.1], hzero, hstrip.2⟩]
      by_cases hbase : base = 16
      · rw [if_pos hbase]
        split
        · rw [reverse_pop, reverse_pop, List.drop_drop]
        · rename_i hone
          have hle : buf.chars.reverse.length ≤ 1 := by
            rw [hlen]
            by_contra hgt
            exact hone ⟨by omega, hbase⟩
          rw [reverse_pop, List.drop_of_length_le hle, List.drop_of_length_le (by omega)]
      · rw [if_neg hbase, if_neg fun h => hbase h.2, reverse_pop]
  · rw [if_neg hstrip, if_neg fun h => hstrip ⟨by simpa using h.1, h.2.2⟩]

/-- The letter of the hash. -/
theorem reverse_letter :
    (if base = 16 ∧ ¬flags.uppercase ∧ buf.len < ntoaBufferSize then buf.pushIf 120
    else if base = 16 ∧ flags.uppercase ∧ buf.len < ntoaBufferSize then buf.pushIf 88
    else if base = 2 ∧ buf.len < ntoaBufferSize then buf.pushIf 98
    else buf).chars.reverse =
      (if buf.chars.reverse.length < ntoaBufferSize then
        (if base = 16 then [if flags.uppercase then 88 else 120] else if base = 2 then [98] else [])
      else []) ++ buf.chars.reverse := by
  have hlen : buf.chars.reverse.length = buf.len := List.length_reverse
  have hpush : ∀ c, buf.len < ntoaBufferSize →
      (buf.pushIf c).chars.reverse = c :: buf.chars.reverse := by
    intro c h
    have hlt : buf.chars.length < ntoaBufferSize := h
    rw [chars_pushIf, if_pos hlt, List.reverse_append]
    rfl
  rw [hlen]
  by_cases hlt : buf.len < ntoaBufferSize
  · by_cases hhex : base = 16
    · cases hupper : flags.uppercase <;> simp [hhex, hlt, hpush _ hlt]
    · by_cases hbin : base = 2 <;> simp [hhex, hbin, hlt, hpush _ hlt]
  · simp [hlt]

theorem reverse_ntoaHash (hhash : flags.hash = true) :
    (ntoaHash buf base prec width flags).chars.reverse =
      hashed flags base prec width buf.chars.reverse := by
  unfold ntoaHash hashed
  rw [if_pos hhash, ← reverse_strip]
  dsimp only
  rw [← reverse_letter, chars_pushIf, List.reverse_append, List.length_reverse]
  congr 1
  exact apply_ite List.reverse _ _ _

/-- The text of an unsigned number with the hash. -/
theorem ntoaText_hash (hhash : flags.hash = true) (hplus : flags.plus = false)
    (hspace : flags.space = false) (hbase : 2 ≤ base) (hpos : value ≠ 0)
    (hvalue : value < base ^ ntoaBufferSize) :
    ntoaText value false base prec width flags =
      let digits := digitsText flags base value
      let zeros := List.replicate (leadingZeros flags prec width 0 digits.length) 48
      let text := hashed flags base prec width (zeros ++ digits)
      if flags.zeropad ∧ ¬flags.left then text else padded flags.left width text := by
  have hsign : signOf false flags = [] := by simp [signOf, hplus, hspace]
  have hwidth : ∀ buf, (ntoaPad buf false prec width flags).2 = width := by
    intro buf
    simp [ntoaPad, hplus, hspace]
    split <;> rfl
  unfold ntoaText
  dsimp only
  rw [if_neg hpos, if_pos (.inr hpos)]
  generalize hbuf : ntoaLoop flags base ntoaBufferSize value .empty (Nat.zero_add _) = buf
  have hdigits : buf.chars = (digitsText flags base value).reverse := by
    rw [← hbuf]
    exact (chars_ntoaLoop hbase (by decide) hvalue _).trans (List.nil_append _)
  have hlen : buf.chars.length = (digitsText flags base value).length := by
    rw [hdigits, List.length_reverse]
  have htext : (ntoaSign (ntoaHash (ntoaPad buf false prec width flags).1 base prec
      width flags) false flags).chars.reverse = hashed flags base prec width
        (List.replicate (leadingZeros flags prec width 0
          (digitsText flags base value).length) 48 ++ digitsText flags base value) := by
    rw [chars_ntoaSign, hsign, ite_self, List.append_nil, reverse_ntoaHash hhash, chars_ntoaPad,
      hsign, hlen, hdigits, List.reverse_append, List.reverse_reverse, List.reverse_replicate]
    rfl
  unfold ntoaFormatText revText
  dsimp only
  rw [hwidth, htext]

end Hash

end Microboot.Kern.Printf
