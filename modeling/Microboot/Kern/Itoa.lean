/-
  Kern/Itoa.lean --- numbers as text, kern/stdlib.c.

  `itoa` writes the digits of a number from the least significant one on, behind
  them a sign, and reverses what it has written.  The digits come from repeated
  division of an `int`, which truncates towards zero: of a negative number the
  remainders are negative, and the characters below `'0'`.

  A number is negated first, so that happens to the one number whose negation is
  itself.  For every other, the characters are the digits that Mathlib computes.
-/
import Mathlib.Data.List.GetD
import Mathlib.Data.Nat.Digits.Lemmas
import Microboot.Kern.Stdlib

set_option autoImplicit false

namespace Microboot.Kern

/-! ## The model -/

/-- The characters from a pointer on. -/
abbrev Chars : Type := Nat → UInt8

/-- `swap(&buffer[x], &buffer[y])` -/
def swap (buffer : Chars) (x y : Nat) : Chars :=
  let temp := buffer x
  let buffer := Function.update buffer x (buffer y)
  Function.update buffer y temp

/-- The loop of `reverse`, with a bound on its rounds. -/
def reverseLoop : Nat → Chars → Nat → Nat → Chars
  | 0, buffer, _, _ => buffer
  | fuel + 1, buffer, i, j =>
    if i < j then reverseLoop fuel (swap buffer i j) (i + 1) (j - 1) else buffer

/-- `reverse(buffer, i, j)` -/
def reverse (buffer : Chars) (i j : Nat) : Chars := reverseLoop (j - i) buffer i j

/-- The character of a remainder: `'A' + (rem - 10)` or `'0' + rem`. -/
def remChar (rem : Int32) : UInt8 :=
  (if rem ≥ 10 then 65 + (rem - 10) else 48 + rem).toInt8.toUInt8

/-- `while (n) { .. }`: the characters, and the index behind them. -/
def itoaLoop (base : Int32) : Nat → Chars → Int32 → Nat → Option (Chars × Nat)
  | 0, _, _, _ => none
  | fuel + 1, buffer, n, i =>
    if n = 0 then some (buffer, i)
    else itoaLoop base fuel (Function.update buffer i (remChar (n % base))) (n / base) (i + 1)

/-- `itoa(value, buffer, base)` -/
def itoa (value : Int32) (buffer : Chars) (base : Int32) : Option Chars :=
  if base < 2 ∨ base > 32 then some buffer
  else do
    let n := if value < 0 then -value else value
    let (buffer, i) ← itoaLoop base addrSpace buffer n 0
    let (buffer, i) := if i = 0 then (Function.update buffer i 48, i + 1) else (buffer, i)
    let (buffer, i) :=
      if value < 0 ∧ base = 10 then (Function.update buffer i 45, i + 1) else (buffer, i)
    let buffer := Function.update buffer i 0
    return reverse buffer 0 (i - 1)

/-! ## Numerals -/

/-- A digit: `0` to `9`, and then `A` and so on. -/
def digitChar (d : Nat) : UInt8 := UInt8.ofNat (if d < 10 then 48 + d else 55 + d)

/-- The numeral of a number: its digits, the most significant first, and `0` for zero. -/
def numeral (base n : Nat) : List UInt8 :=
  if n = 0 then [48] else ((Nat.digits base n).map digitChar).reverse

/-- The buffer has the string and its terminator. -/
def Terminated (buffer : Chars) (s : List UInt8) : Prop :=
  (∀ i (h : i < s.length), buffer i = s[i]) ∧ buffer s.length = 0

/-- What `itoa` is to write. -/
def itoaText (value base : Int32) : List UInt8 :=
  (if value < 0 ∧ base = 10 then [45] else []) ++ numeral base.toInt.toNat value.toInt.natAbs

/-- `itoa` returns, and leaves the numeral of the value. -/
def WritesNumeral (value : Int32) (buffer : Chars) (base : Int32) : Prop :=
  ∃ buffer', itoa value buffer base = some buffer' ∧ Terminated buffer' (itoaText value base)

/-! ## The characters in the buffer -/

section Chars

variable {buffer : Chars} {cs : List UInt8} {c : UInt8} {i j k : Nat}

/-- The buffer with the characters from an index on. -/
def putChars (buffer : Chars) (i : Nat) (cs : List UInt8) : Chars := fun k =>
  if i ≤ k then cs.getD (k - i) (buffer k) else buffer k

theorem putChars_nil : putChars buffer i [] = buffer := by
  funext k
  simp [putChars]

theorem putChars_cons :
    putChars (Function.update buffer i c) (i + 1) cs = putChars buffer i (c :: cs) := by
  funext k
  unfold putChars
  rcases Nat.lt_trichotomy k i with hlt | rfl | hgt
  · rw [if_neg (by omega), if_neg (by omega), Function.update_of_ne (by omega)]
  · rw [if_neg (by omega), if_pos (Nat.le_refl k), Nat.sub_self, Function.update_self]
    rfl
  · obtain ⟨d, rfl⟩ := Nat.exists_eq_add_of_lt hgt
    rw [if_pos (by omega), if_pos (by omega), Function.update_of_ne (by omega),
      show i + d + 1 - (i + 1) = d by omega, show i + d + 1 - i = d + 1 by omega]
    rfl

theorem putChars_concat :
    Function.update (putChars buffer 0 cs) cs.length c = putChars buffer 0 (cs ++ [c]) := by
  funext k
  unfold putChars
  rw [if_pos (Nat.zero_le k), Nat.sub_zero]
  rcases Nat.lt_trichotomy k cs.length with hlt | rfl | hgt
  · rw [Function.update_of_ne (by omega), if_pos (Nat.zero_le k), Nat.sub_zero,
      List.getD_append _ _ _ _ hlt]
  · rw [Function.update_self, List.getD_append_right _ _ _ _ (Nat.le_refl _), Nat.sub_self]
    rfl
  · rw [Function.update_of_ne (by omega), if_pos (Nat.zero_le k), Nat.sub_zero,
      List.getD_eq_default _ _ (by omega),
      List.getD_eq_default _ _ (by rw [List.length_append, List.length_singleton]; omega)]

theorem swap_apply : swap buffer i j k =
    if k = j then buffer i else if k = i then buffer j else buffer k := by
  unfold swap
  simp only [Function.update_apply]

/-- A round swaps the ends, and the rest is reversed between them. -/
theorem reverseLoop_apply {fuel : Nat} (hfuel : j - i ≤ fuel) (k : Nat) :
    reverseLoop fuel buffer i j k = if i ≤ k ∧ k ≤ j then buffer (i + j - k) else buffer k := by
  induction fuel generalizing buffer i j with
  | zero =>
    rw [reverseLoop]
    split
    · rw [show i + j - k = k by omega]
    · rfl
  | succ fuel ih =>
    rw [reverseLoop]
    by_cases hij : i < j
    · rw [if_pos hij, ih (by omega), swap_apply, swap_apply,
        show i + 1 + (j - 1) - k = i + j - k by omega]
      by_cases hends : k = i ∨ k = j
      · -- an end holds what the other one held
        rw [if_neg (show ¬(i + 1 ≤ k ∧ k ≤ j - 1) by omega),
          if_pos (show i ≤ k ∧ k ≤ j by omega)]
        rcases hends with rfl | rfl
        · rw [if_neg (Nat.ne_of_lt hij), if_pos rfl, Nat.add_sub_cancel_left]
        · rw [if_pos rfl, Nat.add_sub_cancel]
      · by_cases hk : i ≤ k ∧ k ≤ j
        · rw [if_pos (show i + 1 ≤ k ∧ k ≤ j - 1 by omega), if_pos hk,
            if_neg (show i + j - k ≠ j by omega), if_neg (show i + j - k ≠ i by omega)]
        · rw [if_neg (show ¬(i + 1 ≤ k ∧ k ≤ j - 1) by omega), if_neg hk,
            if_neg (show k ≠ j by omega), if_neg (show k ≠ i by omega)]
    · rw [if_neg hij]
      split
      · rw [show i + j - k = k by omega]
      · rfl

end Chars

/-! ## The digits -/

section Digits

variable {base n : Int32} {buffer buffer' : Chars} {fuel i j b k : Nat}

theorem remChar_ofNat : ∀ d : Fin 32, remChar (Int32.ofNat d) = digitChar d := by decide

theorem remChar_neg_ofNat : ∀ d : Fin 31, remChar (-Int32.ofNat (d + 1)) < 48 := by decide

/-- A remainder that is not negative is a digit. -/
theorem remChar_of_eq (hn : n.toInt = k) (hk : k < 32) : remChar n = digitChar k := by
  have hofNat : n = Int32.ofNat k := by
    apply Int32.toInt_inj.mp
    rw [hn, Int32.toInt_ofNat_of_lt (by omega)]
  rw [hofNat]
  exact remChar_ofNat ⟨k, hk⟩

/-- Of a negative remainder the character is below the digits. -/
theorem remChar_of_neg (hn : n.toInt < 0) (hlt : -32 < n.toInt) : remChar n < 48 := by
  obtain ⟨d, hd⟩ : ∃ d : Nat, n.toInt = -(d + 1 : Nat) := ⟨(-n.toInt - 1).toNat, by omega⟩
  have hofNat : n = -Int32.ofNat (d + 1) := by
    apply Int32.toInt_inj.mp
    rw [hd, Int32.toInt_neg, Int32.toInt_ofNat_of_lt (by omega), Int.bmod_eq_of_le (by omega)
      (by omega)]
  rw [hofNat]
  exact remChar_neg_ofNat ⟨d, by omega⟩

theorem toInt_div (hn : n.toInt = k) (hbase : base.toInt = b) :
    (n / base).toInt = (k / b : Nat) := by
  rw [Int32.toInt_div_of_ne_right _ _ (by rintro rfl; exact absurd hbase (by simp)), hn, hbase]
  rfl

theorem toInt_mod (hn : n.toInt = k) (hbase : base.toInt = b) :
    (n % base).toInt = (k % b : Nat) := by
  rw [Int32.toInt_mod, hn, hbase]
  rfl

/-- The characters of a number that is not negative are its digits. -/
theorem itoaLoop_nonneg (hbase : base.toInt = b) (hb : 2 ≤ b) (hb' : b ≤ 32) (hn : n.toInt = k)
    (hfuel : k < fuel) :
    itoaLoop base fuel buffer n i =
      some (putChars buffer i ((Nat.digits b k).map digitChar), i + (Nat.digits b k).length) := by
  induction fuel generalizing buffer n i k with
  | zero => omega
  | succ fuel ih =>
    rw [itoaLoop]
    by_cases hzero : n = 0
    · obtain rfl : k = 0 := by
        rw [hzero, show (0 : Int32).toInt = 0 from rfl] at hn
        omega
      rw [if_pos hzero, Nat.digits_zero]
      simp only [List.map_nil, putChars_nil, List.length_nil, Nat.add_zero]
    · have hpos : 0 < k := by
        rcases Nat.eq_zero_or_pos k with rfl | h
        · exact absurd (Int32.toInt_inj.mp hn) hzero
        · exact h
      have hquot : k / b < k := Nat.div_lt_self hpos hb
      have hrem : k % b < 32 := Nat.lt_of_lt_of_le (Nat.mod_lt k (by omega)) hb'
      rw [if_neg hzero, ih (toInt_div hn hbase) (by omega), remChar_of_eq (toInt_mod hn hbase) hrem,
        putChars_cons, Nat.digits_def' hb hpos, List.map_cons, List.length_cons,
        Nat.add_assoc, Nat.add_comm 1]

/-- The most significant character of a negative number is not a digit. -/
theorem itoaLoop_neg (hbase : base.toInt = b) (hb : 2 ≤ b) (hb' : b ≤ 32) (hn : n.toInt < 0)
    (hrun : itoaLoop base fuel buffer n i = some (buffer', j)) :
    i < j ∧ buffer' (j - 1) < 48 := by
  induction fuel generalizing buffer n i with
  | zero => rw [itoaLoop] at hrun; cases hrun
  | succ fuel ih =>
    have hzero : n ≠ 0 := by rintro rfl; exact absurd hn (by decide)
    rw [itoaLoop, if_neg hzero] at hrun
    have hdiv : (n / base).toInt = n.toInt.tdiv b := by
      rw [Int32.toInt_div_of_ne_right _ _ (by rintro rfl; exact absurd hbase (by simp)), hbase]
    have hmod : (n % base).toInt = n.toInt.tmod b := by rw [Int32.toInt_mod, hbase]
    by_cases hlast : n / base = 0
    · -- the last round: the number is its own remainder
      cases fuel with
      | zero => rw [itoaLoop] at hrun; cases hrun
      | succ fuel =>
        rw [itoaLoop, if_pos hlast] at hrun
        cases hrun
        have hself : n.toInt.tmod b = n.toInt := by
          have h := Int.mul_tdiv_add_tmod n.toInt b
          rwa [← hdiv, hlast, show (0 : Int32).toInt = 0 from rfl, Int.mul_zero,
            Int.zero_add] at h
        have hlow := Int.lt_tmod_of_pos n.toInt (show (0 : Int) < b by omega)
        rw [Nat.add_sub_cancel, Function.update_self]
        exact ⟨Nat.lt_succ_self i, remChar_of_neg (by omega) (by omega)⟩
    · have hquot : (n / base).toInt < 0 := by
        have hne : (n / base).toInt ≠ 0 := fun h => hlast (Int32.toInt_inj.mp h)
        have hneg := Int.tdiv_nonneg (show 0 ≤ -n.toInt by omega) (Int.natCast_nonneg b)
        rw [Int.neg_tdiv] at hneg
        omega
      obtain ⟨hlt, hchar⟩ := ih hquot hrun
      exact ⟨by omega, hchar⟩

end Digits

/-! ## The buffer afterwards -/

section Itoa

variable {value base : Int32} {buffer : Chars} {cs : List UInt8}

theorem putChars_eq_getElem {k : Nat} (hk : k < cs.length) : putChars buffer 0 cs k = cs[k] := by
  rw [putChars, if_pos (Nat.zero_le k), Nat.sub_zero, List.getD_eq_getElem _ _ hk]

/-- The characters reversed, and behind them the terminator. -/
theorem terminated_reverse (buffer : Chars) (hcs : cs ≠ []) :
    Terminated (reverse (putChars buffer 0 (cs ++ [0])) 0 (cs.length - 1)) cs.reverse := by
  have hpos : 0 < cs.length := List.length_pos_iff.mpr hcs
  refine ⟨fun k hk => ?_, ?_⟩
  · rw [List.length_reverse] at hk
    rw [reverse, reverseLoop_apply (Nat.le_refl _), if_pos (by omega), Nat.zero_add,
      putChars_eq_getElem (by rw [List.length_append]; omega),
      List.getElem_append_left (by omega), List.getElem_reverse]
  · rw [reverse, reverseLoop_apply (Nat.le_refl _), List.length_reverse, if_neg (by omega),
      putChars_eq_getElem (by rw [List.length_append, List.length_singleton]; omega),
      List.getElem_append_right (Nat.le_refl _)]
    simp only [Nat.sub_self, List.getElem_cons_zero]

/-- `itoa` behind its loop. -/
theorem itoa_eq (hlow : 2 ≤ base) (hhigh : base ≤ 32) :
    itoa value buffer base = do
      let (buffer, i) ←
        itoaLoop base addrSpace buffer (if value < 0 then -value else value) 0
      let (buffer, i) := if i = 0 then (Function.update buffer i 48, i + 1) else (buffer, i)
      let (buffer, i) :=
        if value < 0 ∧ base = 10 then (Function.update buffer i 45, i + 1) else (buffer, i)
      return reverse (Function.update buffer i 0) 0 (i - 1) := by
  rw [itoa, if_neg (fun h => h.elim (Int32.not_lt.mpr hlow) (Int32.not_lt.mpr hhigh))]

theorem toInt_magnitude (hmin : value ≠ Int32.minValue) :
    (if value < 0 then -value else value).toInt = value.toInt.natAbs := by
  have hlow := Int32.le_toInt value
  have hhigh := Int32.toInt_lt value
  split
  next h =>
    rw [Int32.lt_iff_toInt_lt, show (0 : Int32).toInt = 0 from rfl] at h
    have hne : value.toInt ≠ -2 ^ 31 := fun heq => hmin (Int32.toInt_inj.mp heq)
    rw [Int32.toInt_neg, Int.bmod_eq_of_le (by omega) (by omega)]
    omega
  next h =>
    rw [Int32.lt_iff_toInt_lt, show (0 : Int32).toInt = 0 from rfl] at h
    omega

/-- The loop leaves nothing of zero, and the character `0` is added. -/
theorem zero_round (b k : Nat) :
    (if (Nat.digits b k).length = 0 then
      (Function.update (putChars buffer 0 ((Nat.digits b k).map digitChar))
        (Nat.digits b k).length 48, (Nat.digits b k).length + 1)
    else (putChars buffer 0 ((Nat.digits b k).map digitChar), (Nat.digits b k).length)) =
      (putChars buffer 0 (numeral b k).reverse, (numeral b k).reverse.length) := by
  by_cases hk : k = 0
  · subst hk
    rw [Nat.digits_zero, numeral, if_pos rfl, if_pos List.length_nil]
    exact congrArg (·, 1) (putChars_concat (c := 48))
  · have hdigits : (Nat.digits b k).length ≠ 0 := by
      rwa [Ne, List.length_eq_zero_iff, Nat.digits_eq_nil_iff_eq_zero]
    rw [if_neg hdigits, numeral, if_neg hk, List.reverse_reverse, List.length_map]

/-- The sign is added behind the digits. -/
theorem sign_round (p : Prop) [Decidable p] :
    (if p then (Function.update (putChars buffer 0 cs) cs.length 45, cs.length + 1)
    else (putChars buffer 0 cs, cs.length)) =
      (putChars buffer 0 (cs ++ if p then [45] else []),
        (cs ++ if p then [45] else []).length) := by
  split
  · rw [putChars_concat, List.length_append, List.length_singleton]
  · rw [List.append_nil]

theorem numeral_ne_nil (b k : Nat) : numeral b k ≠ [] := by
  rw [numeral]
  split
  · exact List.cons_ne_nil 48 []
  next h =>
    rw [Ne, List.reverse_eq_nil_iff, List.map_eq_nil_iff, Nat.digits_eq_nil_iff_eq_zero]
    exact h

/-- Every number but the least one is written. -/
theorem itoa_of_ne_minValue (hlow : 2 ≤ base) (hhigh : base ≤ 32)
    (hmin : value ≠ Int32.minValue) : WritesNumeral value buffer base := by
  have hbase := And.intro (Int32.le_iff_toInt_le.mp hlow) (Int32.le_iff_toInt_le.mp hhigh)
  rw [show (2 : Int32).toInt = 2 from rfl, show (32 : Int32).toInt = 32 from rfl] at hbase
  obtain ⟨b, hb⟩ := Int.eq_ofNat_of_zero_le (show 0 ≤ base.toInt by omega)
  have hbound := Int32.le_toInt value
  have hbound' := Int32.toInt_lt value
  rw [WritesNumeral, itoa_eq hlow hhigh,
    itoaLoop_nonneg hb (by omega) (by omega) (toInt_magnitude hmin) (by rw [addrSpace]; omega),
    itoaText, hb]
  simp only [Option.bind_eq_bind, Option.bind_some, Nat.zero_add, zero_round, sign_round,
    Option.pure_def, Int.toNat_natCast]
  refine ⟨_, rfl, ?_⟩
  have hne : (numeral b value.toInt.natAbs).reverse ++
      (if value < 0 ∧ base = 10 then [45] else []) ≠ [] :=
    List.append_ne_nil_of_left_ne_nil (mt List.reverse_eq_nil_iff.mp (numeral_ne_nil b _)) _
  have hsign : (if value < 0 ∧ base = 10 then [45] else [] : List UInt8) =
      (if value < 0 ∧ base = 10 then [45] else [] : List UInt8).reverse := by
    split <;> rfl
  have hreversed := terminated_reverse buffer hne
  rw [List.reverse_append, List.reverse_reverse, ← hsign] at hreversed
  rwa [putChars_concat]

theorem digitChar_ge : ∀ d : Fin 32, 48 ≤ digitChar d := by decide

theorem numeral_ge {b k : Nat} (hb : 2 ≤ b) (hb' : b ≤ 32) {c : UInt8} (hc : c ∈ numeral b k) :
    48 ≤ c := by
  rw [numeral] at hc
  split at hc
  · rw [List.mem_singleton.mp hc]
    exact UInt8.le_refl 48
  · obtain ⟨d, hd, rfl⟩ := List.mem_map.mp (List.mem_reverse.mp hc)
    have hlt := Nat.digits_lt_base hb hd
    exact digitChar_ge ⟨d, by omega⟩

/-- Of the least number the most significant character is not a digit. -/
theorem not_writesNumeral_minValue (hlow : 2 ≤ base) (hhigh : base ≤ 32) :
    ¬ WritesNumeral Int32.minValue buffer base := by
  rintro ⟨buffer', hrun, hchars, -⟩
  have hbase := And.intro (Int32.le_iff_toInt_le.mp hlow) (Int32.le_iff_toInt_le.mp hhigh)
  rw [show (2 : Int32).toInt = 2 from rfl, show (32 : Int32).toInt = 32 from rfl] at hbase
  obtain ⟨b, hb⟩ := Int.eq_ofNat_of_zero_le (show 0 ≤ base.toInt by omega)
  rw [itoa_eq hlow hhigh] at hrun
  obtain ⟨⟨written, i⟩, hloop, hrest⟩ := Option.bind_eq_some_iff.mp hrun
  obtain ⟨hi, hlast⟩ := itoaLoop_neg hb (by omega) (by omega) (by decide) hloop
  obtain ⟨digit, rest, hnumeral⟩ :=
    List.exists_cons_of_ne_nil (numeral_ne_nil b Int32.minValue.toInt.natAbs)
  have hdigit : 48 ≤ digit := numeral_ge (show 2 ≤ b by omega) (by omega)
    (hnumeral ▸ List.mem_cons_self)
  have hne : written (i - 1) ≠ digit := UInt8.ne_of_lt (Nat.lt_of_lt_of_le hlast hdigit)
  simp only [if_neg (Nat.ne_of_gt hi)] at hrest
  rw [itoaText, hb, Int.toNat_natCast, hnumeral] at hchars
  -- the first digit is where the loop has put its last character
  by_cases hten : base = 10
  · simp only [if_pos (And.intro (show Int32.minValue < 0 by decide) hten)] at hrest hchars
    cases hrest
    have hchar := hchars 1 (by simp)
    rw [reverse, reverseLoop_apply (Nat.le_refl _), if_pos (by omega), Nat.zero_add,
      Nat.add_sub_cancel, Function.update_of_ne (by omega), Function.update_of_ne (by omega)]
      at hchar
    exact hne hchar
  · simp only [if_neg (show ¬ (Int32.minValue < 0 ∧ base = 10) from fun h => hten h.2)]
      at hrest hchars
    cases hrest
    have hchar := hchars 0 (by simp)
    rw [reverse, reverseLoop_apply (Nat.le_refl _), if_pos (by omega), Nat.zero_add,
      Nat.sub_zero, Function.update_of_ne (by omega)] at hchar
    exact hne hchar

/-- `itoa` writes the numeral of every number but the least one. -/
theorem itoa_writesNumeral_iff (hlow : 2 ≤ base) (hhigh : base ≤ 32) :
    WritesNumeral value buffer base ↔ value ≠ Int32.minValue :=
  ⟨fun h hmin => not_writesNumeral_minValue hlow hhigh (hmin ▸ h),
    itoa_of_ne_minValue hlow hhigh⟩

theorem itoa_writesNumeral_iff_hex :
    WritesNumeral 255 (fun _ => 0) 16 ↔ (255 : Int32) ≠ Int32.minValue :=
  itoa_writesNumeral_iff (by decide) (by decide)

/-- The least number in decimal: `-./,),(-*,(`. -/
theorem itoa_minValue : ∃ buffer', itoa Int32.minValue (fun _ => 0) 10 = some buffer' ∧
    (List.range 12).map buffer' = [45, 46, 47, 44, 41, 44, 40, 45, 42, 44, 40, 0] ∧
    ¬ WritesNumeral Int32.minValue (fun _ => 0) 10 := by
  exact ⟨_, rfl, by decide, not_writesNumeral_minValue (by decide) (by decide)⟩

end Itoa

end Microboot.Kern
